import OpcUa.DataTypes

namespace OpcUa.TypeTable

open NodeIds DataTypes

abbrev simple (typeId : UInt32) (b : Builtin) : DataType := .simple (numericId 0 typeId) b

def enumeration (typeId : UInt32) : DataType := simple typeId .int32

def members : List (Bool × DataType) → Members
  | [] => .nil
  | (false, t) :: rest => .scalar t (members rest)
  | (true, t) :: rest => .array t (members rest)

def one (t : DataType) : Bool × DataType := (false, t)

def many (t : DataType) : Bool × DataType := (true, t)

def struct (typeId : UInt32) (ms : List (Bool × DataType)) : DataType :=
  .structure ⟨numericId 0 typeId, false, false, (members ms).size⟩ (members ms)

/-- A structure of fixed size is zero-copyable if it has no padding. -/
def fixedStruct (typeId : UInt32) (ms : List (Bool × DataType)) : DataType :=
  .structure ⟨numericId 0 typeId, false, (members ms).size == packedSize (members ms),
    (members ms).size⟩ (members ms)


def boolean : DataType := simple 1 .boolean
def sbyte : DataType := simple 2 .sbyte
def byte : DataType := simple 3 .byte
def int16 : DataType := simple 4 .int16
def uint16 : DataType := simple 5 .uint16
abbrev int32 : DataType := simple 6 .int32
def uint32 : DataType := simple 7 .uint32
def int64 : DataType := simple 8 .int64
def uint64 : DataType := simple 9 .uint64
def float : DataType := simple 10 .float
def double : DataType := simple 11 .double
def string : DataType := simple 12 .string
def dateTime : DataType := simple 13 .dateTime
def guid : DataType := simple 14 .guid
def byteString : DataType := simple 15 .byteString
def xmlElement : DataType := simple 16 .xmlElement
def nodeId : DataType := simple 17 .nodeId
def expandedNodeId : DataType := simple 18 .expandedNodeId
def statusCode : DataType := simple 19 .statusCode
def qualifiedName : DataType :=
  .structure ⟨numericId 0 20, true, false, 24⟩ (members [one uint16, one string])
def localizedText : DataType := simple 21 .localizedText
def extensionObject : DataType := .extensionObject
def dataValue : DataType := .dataValue
def variant : DataType := .variant
def diagnosticInfo : DataType := simple 25 .diagnosticInfo
def idType : DataType := enumeration 256
def nodeClass : DataType := enumeration 257
def referenceNode : DataType := struct 285 [one nodeId, one boolean, one expandedNodeId]
def argument : DataType := struct 296
  [one string, one nodeId, one int32, many uint32, one localizedText]
def applicationType : DataType := enumeration 307
def applicationDescription : DataType := struct 308
  [one string, one string, one localizedText, one applicationType, one string, one string,
   many string]
def requestHeader : DataType := struct 389
  [one nodeId, one dateTime, one uint32, one uint32, one string, one uint32, one extensionObject]
def responseHeader : DataType := struct 392
  [one dateTime, one uint32, one statusCode, one diagnosticInfo, many string,
   one extensionObject]
def serviceFault : DataType := struct 395 [one responseHeader]
def findServersRequest : DataType := struct 420
  [one requestHeader, one string, many string, many string]
def findServersResponse : DataType := struct 423 [one responseHeader, many applicationDescription]
def messageSecurityMode : DataType := enumeration 302
def userTokenType : DataType := enumeration 303
def userTokenPolicy : DataType := struct 304
  [one string, one userTokenType, one string, one string, one string]
def endpointDescription : DataType := struct 312
  [one string, one applicationDescription, one byteString, one messageSecurityMode, one string,
   many userTokenPolicy, one string, one byte]
def getEndpointsRequest : DataType := struct 426
  [one requestHeader, one string, many string, many string]
def getEndpointsResponse : DataType := struct 429 [one responseHeader, many endpointDescription]
def securityTokenRequestType : DataType := enumeration 315
def channelSecurityToken : DataType := fixedStruct 441
  [one uint32, one uint32, one dateTime, one uint32]
def openSecureChannelRequest : DataType := struct 444
  [one requestHeader, one uint32, one securityTokenRequestType, one messageSecurityMode,
   one byteString, one uint32]
def openSecureChannelResponse : DataType := struct 447
  [one responseHeader, one uint32, one channelSecurityToken, one byteString]
def closeSecureChannelRequest : DataType := struct 450 [one requestHeader]
def closeSecureChannelResponse : DataType := struct 453 [one responseHeader]
def signedSoftwareCertificate : DataType := struct 344 [one byteString, one byteString]
def signatureData : DataType := struct 456 [one string, one byteString]
def createSessionRequest : DataType := struct 459
  [one requestHeader, one applicationDescription, one string, one string, one string,
   one byteString, one byteString, one double, one uint32]
def createSessionResponse : DataType := struct 462
  [one responseHeader, one nodeId, one nodeId, one double, one byteString, one byteString,
   many endpointDescription, many signedSoftwareCertificate, one signatureData, one uint32]
def userIdentityToken : DataType := struct 316 [one string]
def anonymousIdentityToken : DataType := struct 319 [one string]
def userNameIdentityToken : DataType := struct 322
  [one string, one string, one byteString, one string]
def activateSessionRequest : DataType := struct 465
  [one requestHeader, one signatureData, many signedSoftwareCertificate, many string,
   one extensionObject, one signatureData]
def activateSessionResponse : DataType := struct 468
  [one responseHeader, one byteString, many statusCode, many diagnosticInfo]
def closeSessionRequest : DataType := struct 471 [one requestHeader, one boolean]
def closeSessionResponse : DataType := struct 474 [one responseHeader]
def nodeAttributesMask : DataType := enumeration 348
def nodeAttributes : DataType := struct 349
  [one uint32, one localizedText, one localizedText, one uint32, one uint32]
def objectAttributes : DataType := struct 352
  [one uint32, one localizedText, one localizedText, one uint32, one uint32, one byte]
def variableAttributes : DataType := struct 355
  [one uint32, one localizedText, one localizedText, one uint32, one uint32, one variant,
   one nodeId, one int32, many uint32, one byte, one byte, one double, one boolean]
def methodAttributes : DataType := struct 358
  [one uint32, one localizedText, one localizedText, one uint32, one uint32, one boolean,
   one boolean]
def objectTypeAttributes : DataType := struct 361
  [one uint32, one localizedText, one localizedText, one uint32, one uint32, one boolean]
def variableTypeAttributes : DataType := struct 364
  [one uint32, one localizedText, one localizedText, one uint32, one uint32, one variant,
   one nodeId, one int32, many uint32, one boolean]
def referenceTypeAttributes : DataType := struct 367
  [one uint32, one localizedText, one localizedText, one uint32, one uint32, one boolean,
   one boolean, one localizedText]
def dataTypeAttributes : DataType := struct 370
  [one uint32, one localizedText, one localizedText, one uint32, one uint32, one boolean]
def viewAttributes : DataType := struct 373
  [one uint32, one localizedText, one localizedText, one uint32, one uint32, one boolean,
   one byte]
def addNodesItem : DataType := struct 376
  [one expandedNodeId, one nodeId, one expandedNodeId, one qualifiedName, one nodeClass,
   one extensionObject, one expandedNodeId]
def addNodesResult : DataType := struct 483 [one statusCode, one nodeId]
def addNodesRequest : DataType := struct 486 [one requestHeader, many addNodesItem]
def addNodesResponse : DataType := struct 489
  [one responseHeader, many addNodesResult, many diagnosticInfo]
def addReferencesItem : DataType := struct 379
  [one nodeId, one nodeId, one boolean, one string, one expandedNodeId, one nodeClass]
def addReferencesRequest : DataType := struct 492 [one requestHeader, many addReferencesItem]
def addReferencesResponse : DataType := struct 495
  [one responseHeader, many statusCode, many diagnosticInfo]
def deleteNodesItem : DataType := struct 382 [one nodeId, one boolean]
def deleteNodesRequest : DataType := struct 498 [one requestHeader, many deleteNodesItem]
def deleteNodesResponse : DataType := struct 501
  [one responseHeader, many statusCode, many diagnosticInfo]
def deleteReferencesItem : DataType := struct 385
  [one nodeId, one nodeId, one boolean, one expandedNodeId, one boolean]
def deleteReferencesRequest : DataType := struct 504 [one requestHeader, many deleteReferencesItem]
def deleteReferencesResponse : DataType := struct 507
  [one responseHeader, many statusCode, many diagnosticInfo]
def browseDirection : DataType := enumeration 510
def viewDescription : DataType := struct 511 [one nodeId, one dateTime, one uint32]
def browseDescription : DataType := struct 514
  [one nodeId, one browseDirection, one nodeId, one boolean, one uint32, one uint32]
def browseResultMask : DataType := enumeration 517
def referenceDescription : DataType := struct 518
  [one nodeId, one boolean, one expandedNodeId, one qualifiedName, one localizedText,
   one nodeClass, one expandedNodeId]
def browseResult : DataType := struct 522
  [one statusCode, one byteString, many referenceDescription]
def browseRequest : DataType := struct 525
  [one requestHeader, one viewDescription, one uint32, many browseDescription]
def browseResponse : DataType := struct 528
  [one responseHeader, many browseResult, many diagnosticInfo]
def browseNextRequest : DataType := struct 531 [one requestHeader, one boolean, many byteString]
def browseNextResponse : DataType := struct 534
  [one responseHeader, many browseResult, many diagnosticInfo]
def relativePathElement : DataType := struct 537
  [one nodeId, one boolean, one boolean, one qualifiedName]
def relativePath : DataType := struct 540 [many relativePathElement]
def browsePath : DataType := struct 543 [one nodeId, one relativePath]
def browsePathTarget : DataType := struct 546 [one expandedNodeId, one uint32]
def browsePathResult : DataType := struct 549 [one statusCode, many browsePathTarget]
def translateBrowsePathsToNodeIdsRequest : DataType := struct 552
  [one requestHeader, many browsePath]
def translateBrowsePathsToNodeIdsResponse : DataType := struct 555
  [one responseHeader, many browsePathResult, many diagnosticInfo]
def registerNodesRequest : DataType := struct 558 [one requestHeader, many nodeId]
def registerNodesResponse : DataType := struct 561 [one responseHeader, many nodeId]
def unregisterNodesRequest : DataType := struct 564 [one requestHeader, many nodeId]
def unregisterNodesResponse : DataType := struct 567 [one responseHeader]
def queryDataDescription : DataType := struct 570 [one relativePath, one uint32, one string]
def nodeTypeDescription : DataType := struct 573
  [one expandedNodeId, one boolean, many queryDataDescription]
def filterOperator : DataType := enumeration 576
def queryDataSet : DataType := struct 577 [one expandedNodeId, one expandedNodeId, many variant]
def contentFilterElement : DataType := struct 583 [one filterOperator, many extensionObject]
def contentFilter : DataType := struct 586 [many contentFilterElement]
def contentFilterElementResult : DataType := struct 604
  [one statusCode, many statusCode, many diagnosticInfo]
def contentFilterResult : DataType := struct 607
  [many contentFilterElementResult, many diagnosticInfo]
def parsingResult : DataType := struct 610 [one statusCode, many statusCode, many diagnosticInfo]
def queryFirstRequest : DataType := struct 613
  [one requestHeader, one viewDescription, many nodeTypeDescription, one contentFilter,
   one uint32, one uint32]
def queryFirstResponse : DataType := struct 616
  [one responseHeader, many queryDataSet, one byteString, many parsingResult,
   many diagnosticInfo, one contentFilterResult]
def queryNextRequest : DataType := struct 619 [one requestHeader, one boolean, one byteString]
def queryNextResponse : DataType := struct 622
  [one responseHeader, many queryDataSet, one byteString]
def timestampsToReturn : DataType := enumeration 625
def readValueId : DataType := struct 626 [one nodeId, one uint32, one string, one qualifiedName]
def readRequest : DataType := struct 629
  [one requestHeader, one double, one timestampsToReturn, many readValueId]
def readResponse : DataType := struct 632 [one responseHeader, many dataValue, many diagnosticInfo]
def writeValue : DataType := struct 668 [one nodeId, one uint32, one string, one dataValue]
def writeRequest : DataType := struct 671 [one requestHeader, many writeValue]
def writeResponse : DataType := struct 674
  [one responseHeader, many statusCode, many diagnosticInfo]
def callMethodRequest : DataType := struct 704 [one nodeId, one nodeId, many variant]
def callMethodResult : DataType := struct 707
  [one statusCode, many statusCode, many diagnosticInfo, many variant]
def callRequest : DataType := struct 710 [one requestHeader, many callMethodRequest]
def callResponse : DataType := struct 713
  [one responseHeader, many callMethodResult, many diagnosticInfo]
def monitoringMode : DataType := enumeration 716
def monitoringParameters : DataType := struct 740
  [one uint32, one double, one extensionObject, one uint32, one boolean]
def monitoredItemCreateRequest : DataType := struct 743
  [one readValueId, one monitoringMode, one monitoringParameters]
def monitoredItemCreateResult : DataType := struct 746
  [one statusCode, one uint32, one double, one uint32, one extensionObject]
def createMonitoredItemsRequest : DataType := struct 749
  [one requestHeader, one uint32, one timestampsToReturn, many monitoredItemCreateRequest]
def createMonitoredItemsResponse : DataType := struct 752
  [one responseHeader, many monitoredItemCreateResult, many diagnosticInfo]
def createSubscriptionRequest : DataType := struct 785
  [one requestHeader, one double, one uint32, one uint32, one uint32, one boolean, one byte]
def createSubscriptionResponse : DataType := struct 788
  [one responseHeader, one uint32, one double, one uint32, one uint32]
def setPublishingModeRequest : DataType := struct 797 [one requestHeader, one boolean, many uint32]
def setPublishingModeResponse : DataType := struct 800
  [one responseHeader, many statusCode, many diagnosticInfo]
def notificationMessage : DataType := struct 803 [one uint32, one dateTime, many extensionObject]
def subscriptionAcknowledgement : DataType := fixedStruct 821 [one uint32, one uint32]
def publishRequest : DataType := struct 824 [one requestHeader, many subscriptionAcknowledgement]
def publishResponse : DataType := struct 827
  [one responseHeader, one uint32, many uint32, one boolean, one notificationMessage,
   many statusCode, many diagnosticInfo]
def deleteSubscriptionsRequest : DataType := struct 845 [one requestHeader, many uint32]
def deleteSubscriptionsResponse : DataType := struct 848
  [one responseHeader, many statusCode, many diagnosticInfo]
def buildInfo : DataType := struct 338
  [one string, one string, one string, one string, one string, one dateTime]
def serverState : DataType := enumeration 852
def serverStatusDataType : DataType := struct 862
  [one dateTime, one dateTime, one serverState, one buildInfo, one uint32, one localizedText]

/-- `UA_TYPES` in the order of the generated table. -/
def uaTypes : List DataType :=
  [boolean, sbyte, byte, int16, uint16, int32, uint32, int64, uint64, float, double, string,
   dateTime, guid, byteString, xmlElement, nodeId, expandedNodeId, statusCode, qualifiedName,
   localizedText, extensionObject, dataValue, variant, diagnosticInfo, idType, nodeClass,
   referenceNode, argument, applicationType, applicationDescription, requestHeader,
   responseHeader, serviceFault, findServersRequest, findServersResponse, messageSecurityMode,
   userTokenType, userTokenPolicy, endpointDescription, getEndpointsRequest,
   getEndpointsResponse, securityTokenRequestType, channelSecurityToken,
   openSecureChannelRequest, openSecureChannelResponse, closeSecureChannelRequest,
   closeSecureChannelResponse, signedSoftwareCertificate, signatureData, createSessionRequest,
   createSessionResponse, userIdentityToken, anonymousIdentityToken, userNameIdentityToken,
   activateSessionRequest, activateSessionResponse, closeSessionRequest, closeSessionResponse,
   nodeAttributesMask, nodeAttributes, objectAttributes, variableAttributes, methodAttributes,
   objectTypeAttributes, variableTypeAttributes, referenceTypeAttributes, dataTypeAttributes,
   viewAttributes, addNodesItem, addNodesResult, addNodesRequest, addNodesResponse,
   addReferencesItem, addReferencesRequest, addReferencesResponse, deleteNodesItem,
   deleteNodesRequest, deleteNodesResponse, deleteReferencesItem, deleteReferencesRequest,
   deleteReferencesResponse, browseDirection, viewDescription, browseDescription,
   browseResultMask, referenceDescription, browseResult, browseRequest, browseResponse,
   browseNextRequest, browseNextResponse, relativePathElement, relativePath, browsePath,
   browsePathTarget, browsePathResult, translateBrowsePathsToNodeIdsRequest,
   translateBrowsePathsToNodeIdsResponse, registerNodesRequest, registerNodesResponse,
   unregisterNodesRequest, unregisterNodesResponse, queryDataDescription, nodeTypeDescription,
   filterOperator, queryDataSet, contentFilterElement, contentFilter, contentFilterElementResult,
   contentFilterResult, parsingResult, queryFirstRequest, queryFirstResponse, queryNextRequest,
   queryNextResponse, timestampsToReturn, readValueId, readRequest, readResponse, writeValue,
   writeRequest, writeResponse, callMethodRequest, callMethodResult, callRequest, callResponse,
   monitoringMode, monitoringParameters, monitoredItemCreateRequest, monitoredItemCreateResult,
   createMonitoredItemsRequest, createMonitoredItemsResponse, createSubscriptionRequest,
   createSubscriptionResponse, setPublishingModeRequest, setPublishingModeResponse,
   notificationMessage, subscriptionAcknowledgement, publishRequest, publishResponse,
   deleteSubscriptionsRequest, deleteSubscriptionsResponse, buildInfo, serverState,
   serverStatusDataType]

theorem uaTypes_length : uaTypes.length = 146 := by decide +kernel

def findDataType (typeId : NodeId) : Option DataType :=
  uaTypes.find? (fun t => nodeIdEqual typeId t.typeId)

def numericValue (id : NodeId) : Nat :=
  match id.identifier with
  | .numeric n => n.toNat
  | _ => 0

theorem typeIds_nodup : (uaTypes.map DataType.typeId).Nodup := by
  have hvalues : ((uaTypes.map DataType.typeId).map numericValue).Nodup := by decide +kernel
  exact List.Nodup.of_map numericValue hvalues

theorem typeId_numeric : ∀ t ∈ uaTypes, ∃ i, t.typeId = numericId 0 i := by
  intro t ht
  have h : (uaTypes.all (fun t => t.typeId.namespaceIndex == 0 && t.typeId.identifier.isNumeric)) =
      true := by
    decide +kernel
  have hnum := List.all_eq_true.mp h t ht
  rcases hid : t.typeId with ⟨ns, identifier⟩
  rw [hid] at hnum
  cases identifier with
  | numeric i =>
      have hns : ns = 0 := by simpa [Identifier.isNumeric] using hnum
      exact ⟨i, by rw [hns]; rfl⟩
  | _ => simp [Identifier.isNumeric] at hnum

end OpcUa.TypeTable
