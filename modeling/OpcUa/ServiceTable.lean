import OpcUa.DecodeBounds
import OpcUa.Sessions
import OpcUa.ValueDecoding

namespace OpcUa.ServiceTable

open StatusCodes NodeIds DataTypes TypeTable Values Readers SecureChannels Sessions ValueDecoding BoundedReading

abbrev Any := Sigma Val

def slotAt : {members : Members} → Slots members → Nat → Option Any
  | _, .nil, _ => none
  | _, .scalar v _, 0 => some ⟨_, v⟩
  | _, .scalar _ slots, n + 1 => slotAt slots n
  | _, .array _ _, 0 => none
  | _, .array _ slots, n + 1 => slotAt slots n

/-- The `n`-th member of a structure. -/
def field : Any → Nat → Option Any
  | ⟨_, .struct slots⟩, n => slotAt slots n
  | _, _ => none

def asNodeId : Any → Option NodeId
  | ⟨_, .simple (b := .nodeId) x⟩ => some x
  | _ => none

def asUInt32 : Any → Option UInt32
  | ⟨_, .simple (b := .uint32) x⟩ | ⟨_, .simple (b := .int32) x⟩ => some x
  | _ => none

def asDouble : Any → Option UInt64
  | ⟨_, .simple (b := .double) x⟩ => some x
  | _ => none

def asString : Any → Option UaString
  | ⟨_, .simple (b := .string) x⟩ | ⟨_, .simple (b := .byteString) x⟩ => some x
  | _ => none

/-- The first member of every request is its `RequestHeader`. -/
def authenticationToken (request : Any) : Option NodeId :=
  ((field request 0).bind (field · 0)).bind asNodeId

def requestHandle (header : Any) : UInt32 := ((field header 2).bind asUInt32).getD 0

def openRequest (request : Any) : OpenRequest where
  requestType := ((field request 2).bind asUInt32).getD 0
  securityMode := ((field request 3).bind asUInt32).getD 0
  requestedLifetime := ((field request 5).bind asUInt32).getD 0

def requestedSessionTimeout (request : Any) : UInt64 := ((field request 7).bind asDouble).getD 0

def stringAt (v : Any) (n : Nat) : UaString := ((field v n).bind asString).getD none

def userIdentityToken (request : Any) : IdentityToken :=
  match field request 4 with
  | some ⟨_, .decoded _ type data⟩ =>
      if type.typeId = anonymousIdentityToken.typeId then .anonymous (stringAt ⟨type, data⟩ 0)
      else if type.typeId = userNameIdentityToken.typeId then
        .userName (stringAt ⟨type, data⟩ 0) (stringAt ⟨type, data⟩ 1) (stringAt ⟨type, data⟩ 2)
          (stringAt ⟨type, data⟩ 3)
      else .other
  | _ => .other

/-- The union of a NodeId read as a number, of whatever kind the NodeId is. -/
def numericBits (id : NodeId) : UInt32 :=
  match id.identifier with
  | .numeric n => n
  | .string s | .byteString s => UInt32.ofNat s.length
  | .guid g => g.data1

theorem header_token (header : Val requestHeader) :
    ∃ token, ((field ⟨_, header⟩ 0).bind asNodeId) = some token := by
  cases header with
  | struct slots =>
      cases slots with
      | scalar v rest =>
          cases v with
          | simple x => exact ⟨x, rfl⟩

theorem request_token {info : StructInfo} {rest : Members}
    (request : Val (.structure info (.scalar requestHeader rest))) :
    ∃ token, authenticationToken ⟨_, request⟩ = some token := by
  cases request with
  | struct slots =>
      cases slots with
      | scalar header rest => exact header_token header

/-- The options of a build that decide about services, and its
`UA_decodeBinary`, which depends on the type table of the build. -/
structure Build where
  subscriptions : Bool
  methodCalls : Bool
  nodeManagement : Bool
  decode : (t : DataType) → DecM (Val t)
  decode_moves : ∀ t st, Valid st → ∃ r st', decode t st = some (r, st') ∧ Moves st st'

/-- The table of `TypeTable.uaTypes` is the one without subscriptions. The
fuel is more than the bytes of the message. -/
def standardBuild : Build where
  subscriptions := false
  methodCalls := true
  nodeManagement := true
  decode := fun t st => uaDecodeBinary (st.data.length + 1) t st
  decode_moves := by
    intro t st hst
    have hfuel : st.data.length - st.offset < st.data.length + 1 := by omega
    obtain ⟨r, st', hrun, _, hmoves⟩ := DecodeBounds.agree_ua hfuel hfuel t st hst (le_refl _)
    exact ⟨r, st', hrun, hmoves⟩

def deleteMonitoredItemsRequest : DataType := struct 779 [one requestHeader, one uint32, many uint32]
def deleteMonitoredItemsResponse : DataType := struct 782
  [one responseHeader, many statusCode, many diagnosticInfo]
def modifySubscriptionRequest : DataType := struct 791
  [one requestHeader, one uint32, one double, one uint32, one uint32, one uint32, one byte]
def modifySubscriptionResponse : DataType := struct 794
  [one responseHeader, one double, one uint32, one uint32]
def monitoredItemNotification : DataType := struct 806 [one uint32, one dataValue]
def dataChangeNotification : DataType := struct 809
  [many monitoredItemNotification, many diagnosticInfo]
def republishRequest : DataType := struct 830 [one requestHeader, one uint32, one uint32]
def republishResponse : DataType := struct 833 [one responseHeader, one notificationMessage]

/-- `UA_TYPES` of a build. The generator defers a type that comes before the
type of one of its members to the end. -/
def typesOf (subscriptions : Bool) : List DataType :=
  if subscriptions then
    uaTypes.take 133 ++
      [deleteMonitoredItemsRequest, deleteMonitoredItemsResponse, createSubscriptionRequest,
       createSubscriptionResponse, modifySubscriptionRequest, modifySubscriptionResponse,
       setPublishingModeRequest, setPublishingModeResponse, notificationMessage,
       monitoredItemNotification, subscriptionAcknowledgement, publishRequest, publishResponse,
       republishRequest, republishResponse, deleteSubscriptionsRequest,
       deleteSubscriptionsResponse, buildInfo, serverState, serverStatusDataType,
       dataChangeNotification]
  else uaTypes

inductive Service
  | getEndpoints | findServers | createSession | activateSession | closeSession
  | read | write | browse | browseNext | registerNodes | unregisterNodes
  | translateBrowsePathsToNodeIds
  | createSubscription | publish | republish | modifySubscription | deleteSubscriptions
  | createMonitoredItems | deleteMonitoredItems
  | call | addNodes | addReferences | deleteNodes | deleteReferences
deriving DecidableEq, Repr

namespace Service

/-- The labels of `getServicePointers`, in its order. -/
def all : List (UInt32 × Service) :=
  [(426, getEndpoints), (420, findServers), (459, createSession), (465, activateSession),
   (471, closeSession), (629, read), (671, write), (525, browse), (531, browseNext),
   (558, registerNodes), (564, unregisterNodes), (552, translateBrowsePathsToNodeIds),
   (785, createSubscription), (824, publish), (830, republish), (791, modifySubscription),
   (845, deleteSubscriptions), (749, createMonitoredItems), (779, deleteMonitoredItems),
   (710, call), (486, addNodes), (492, addReferences), (498, deleteNodes), (504, deleteReferences)]

def requestType : Service → DataType
  | getEndpoints => getEndpointsRequest
  | findServers => findServersRequest
  | createSession => createSessionRequest
  | activateSession => activateSessionRequest
  | closeSession => closeSessionRequest
  | read => readRequest
  | write => writeRequest
  | browse => browseRequest
  | browseNext => browseNextRequest
  | registerNodes => registerNodesRequest
  | unregisterNodes => unregisterNodesRequest
  | translateBrowsePathsToNodeIds => translateBrowsePathsToNodeIdsRequest
  | createSubscription => createSubscriptionRequest
  | publish => publishRequest
  | republish => republishRequest
  | modifySubscription => modifySubscriptionRequest
  | deleteSubscriptions => deleteSubscriptionsRequest
  | createMonitoredItems => createMonitoredItemsRequest
  | deleteMonitoredItems => deleteMonitoredItemsRequest
  | call => callRequest
  | addNodes => addNodesRequest
  | addReferences => addReferencesRequest
  | deleteNodes => deleteNodesRequest
  | deleteReferences => deleteReferencesRequest

def enabled (b : Build) : Service → Bool
  | createSubscription | publish | republish | modifySubscription | deleteSubscriptions
  | createMonitoredItems | deleteMonitoredItems => b.subscriptions
  | call => b.methodCalls
  | addNodes | addReferences | deleteNodes | deleteReferences => b.nodeManagement
  | _ => true

end Service

def getServicePointers (b : Build) (requestTypeId : UInt32) : Option Service :=
  (Service.all.find? (fun entry => entry.2.enabled b && requestTypeId - 2 == entry.1)).map Prod.snd

def typeIndex (subscriptions : Bool) (t : DataType) : Nat :=
  (typesOf subscriptions).findIdx (fun u => nodeIdEqual u.typeId t.typeId)

def Service.discovery : Service → Bool
  | getEndpoints | findServers => true
  | _ => false

def Service.establishing : Service → Bool
  | createSession | activateSession => true
  | _ => false

theorem typeIndex_openSecureChannelRequest (subscriptions : Bool) :
    typeIndex subscriptions openSecureChannelRequest = 44 := by
  cases subscriptions <;> decide +kernel

theorem typeIndex_activateSessionRequest (subscriptions : Bool) :
    typeIndex subscriptions activateSessionRequest = 55 := by
  cases subscriptions <;> decide +kernel

/-- The order of the table puts the services that need a channel behind the
requests to open one. -/
theorem discovery_of_index_le {subscriptions : Bool} {v : Service}
    (h : typeIndex subscriptions v.requestType ≤ typeIndex subscriptions openSecureChannelRequest) :
    v.discovery = true := by
  rw [typeIndex_openSecureChannelRequest] at h
  revert h
  cases subscriptions <;> cases v <;> decide +kernel

theorem establishing_of_index_le {subscriptions : Bool} {v : Service}
    (h : typeIndex subscriptions v.requestType ≤ typeIndex subscriptions activateSessionRequest) :
    v.discovery = true ∨ v.establishing = true := by
  rw [typeIndex_activateSessionRequest] at h
  revert h
  cases subscriptions <;> cases v <;> decide +kernel

theorem requestType_header (v : Service) :
    ∃ info rest, v.requestType = .structure info (.scalar requestHeader rest) := by
  cases v <;> exact ⟨_, _, rfl⟩

end OpcUa.ServiceTable
