import OpcUa.Loops
import OpcUa.ServiceTable

namespace OpcUa.MessageHandlers

open StatusCodes NodeIds Connections DataTypes TypeTable Values Readers Decoding Servers SecureChannels Sessions
open ServiceTable Loops

section Handlers

variable {α : Type}

/-- The decoders of the headers do not run out of fuel, so that they always
return something. -/
def attempt (d : DecM α) (st : Dec) : Except StatusCode α × Dec :=
  (d st).getD (.error badInternalError, st)

/-- A value that cannot be decoded stays at its initial value. -/
def readOr (zero : α) (d : DecM α) (st : Dec) : α × Dec :=
  match attempt d st with
  | (.ok x, st') => (x, st')
  | (.error _, st') => (zero, st')

/-- A service called for a connection. No channel is the anonymous channel and
no session the anonymous session. -/
structure Call where
  service : Service
  connection : Nat
  channel : Option Nat
  session : Option Nat
  request : Any

inductive Output
  | call (call : Call)
  | fault (requestId requestHandle : UInt32) (code : StatusCode)
  | response (requestId : UInt32)
  | acknowledged
  | opened

structure Handled where
  server : Server
  dec : Dec
  outputs : List Output

def connectionChannel (s : Server) (c : Nat) : Option Nat := (s.connections c).bind (·.channel)

def established (s : Server) (c : Nat) : Bool :=
  match s.connections c with
  | none => false
  | some connection => connection.state == .established

/-- The connection to which a message on the channel goes. The anonymous
channel is not in the heap. -/
def channelConnection (s : Server) (c : Nat) : Option Nat → Option Nat
  | none => some c
  | some a => (s.channels a).bind (·.connection)

def nextSequenceNumber (s : Server) : Option Nat → Server
  | none => s
  | some a => s.setChannel a (fun x => { x with sequenceNumber := x.sequenceNumber + 1 })

def sendBinaryMessage (sending : Sending) (s : Server) (c : Nat) (channel : Option Nat) :
    StatusCode × Server :=
  match channelConnection s c channel, sending with
  | none, _ => (badInternalError, s)
  | some _, .refused code => (code, s)
  | some _, .sent => (good, nextSequenceNumber s channel)
  | some c', .broken => (badConnectionClosed, close (nextSequenceNumber s channel) c')

def handed (sending : Sending) (s : Server) (c : Nat) (channel : Option Nat) : Bool :=
  match channelConnection s c channel, sending with
  | none, _ | _, .refused _ => false
  | _, _ => true

/-- The header of the request is decoded once more, from a position of its
own. -/
def sendError (b : Build) (env : Environment) (s : Server) (c : Nat) (channel : Option Nat)
    (requestId : UInt32) (error : StatusCode) (pos : Nat) (st : Dec) : Handled :=
  match attempt (b.decode requestHeader) { st with offset := pos } with
  | (.error _, st') => ⟨s, { st' with offset := st.offset }, []⟩
  | (.ok header, st') =>
      ⟨(sendBinaryMessage env.fault s c channel).2, { st' with offset := st.offset },
        if handed env.fault s c channel then
          [.fault requestId (requestHandle ⟨_, header⟩) error]
        else []⟩

def helloDecodeBinary : DecM (UInt32 × UInt32 × UInt32 × UInt32 × UInt32 × UaString) :=
  both uint32DecodeBinary <| both uint32DecodeBinary <| both uint32DecodeBinary <|
    both uint32DecodeBinary <| both uint32DecodeBinary stringDecodeBinary

def processHEL (env : Environment) (s : Server) (c : Nat) (st : Dec) : Handled :=
  match attempt helloDecodeBinary st with
  | (.error _, st') => ⟨close s c, st', []⟩
  | (.ok (protocolVersion, receiveBufferSize, sendBufferSize, maxMessageSize, maxChunkCount, _),
      st') =>
      let s' := s.setConnection c (fun x =>
        { x with
          remoteConf := ⟨protocolVersion, sendBufferSize, receiveBufferSize, maxMessageSize, maxChunkCount⟩
          localConf :=
            { x.localConf with
              sendBufferSize := min x.localConf.sendBufferSize receiveBufferSize
              recvBufferSize := min x.localConf.recvBufferSize sendBufferSize }
          state := .established })
      if !env.buffer then ⟨s', st', []⟩
      else ⟨if env.response = .broken then close s' c else s', st', [.acknowledged]⟩

/-- Channel id, asymmetric security header, sequence header, type id and the
request itself. -/
def openDecodeBinary (b : Build) :
    DecM (UInt32 × (UaString × UaString × UaString) × (UInt32 × UInt32) × NodeId ×
      Val openSecureChannelRequest) :=
  both uint32DecodeBinary <|
    both (both stringDecodeBinary (both stringDecodeBinary stringDecodeBinary)) <|
    both (both uint32DecodeBinary uint32DecodeBinary) <|
    both nodeIdDecodeBinary (b.decode openSecureChannelRequest)

/-- The response goes out even if no channel was opened, as long as the
connection has one. -/
def answerOPN (env : Environment) (s : Server) (c : Nat) : Server × List Output :=
  match connectionChannel s c with
  | none => (close s c, [])
  | some a =>
      let s' := nextSequenceNumber s (some a)
      if !env.buffer then (s', [])
      else match env.response with
        | .refused _ => (close s' c, [])
        | .sent => (s', [.opened])
        | .broken => (close s' c, [.opened])

def processOPN (b : Build) (env : Environment) (s : Server) (c : Nat) (st : Dec) : Handled :=
  if !established s c then ⟨close s c, st, []⟩
  else match attempt (openDecodeBinary b) st with
    | (.error _, st') => ⟨close s c, st', []⟩
    | (.ok (_, _, _, requestType, request), st') =>
        if numericBits requestType ≠ 446 then ⟨close s c, st', []⟩
        else
          let r := answerOPN env (openSecureChannel env s c (openRequest ⟨_, request⟩)).2 c
          ⟨r.1, st', r.2⟩

def tokenOf (request : Any) : NodeId := (authenticationToken request).getD (numericId 0 0)

/-- What a service does to channels and sessions. The services that are not
about sessions leave them alone. -/
def callService (env : Environment) (s : Server) (call : Call) : Server :=
  let channel := match call.session with
    | none => call.channel
    | some i => (s.sessions i).bind (·.channel)
  match call.service with
  | .createSession => (createSession env s channel (requestedSessionTimeout call.request)).2
  | .activateSession => match channel with
      | none => s
      | some a => (activateSession env s a (tokenOf call.request) (userIdentityToken call.request)).2
  | .closeSession => match call.session with
      | none => s
      | some i => (closeSession s i).2
  | _ => s

def activated (s : Server) : Option Nat → Bool
  | none => true
  | some i => match s.sessions i with
      | none => false
      | some session => session.activated

def extended (env : Environment) (s : Server) : Option Nat → Server
  | none => s
  | some i => updateLifetime (env.now 0) s i

/-- `processMSG` from the search for the session on. -/
def serve (b : Build) (env : Environment) (s : Server) (c : Nat) (channel : Option Nat)
    (requestId : UInt32) (service : Service) (request : Any) (oldpos : Nat) (st : Dec) : Handled :=
  let session := channel.bind (channelSession s · (tokenOf request))
  let index := typeIndex b.subscriptions service.requestType
  let activateIndex := typeIndex b.subscriptions activateSessionRequest
  if activated s session = false ∧ index ≠ activateIndex then
    sendError b env s c channel requestId badSessionNotActivated st.offset st
  else if session = none ∧ index > activateIndex then
    sendError b env s c channel requestId badSessionIdInvalid st.offset st
  else
    let call : Call := ⟨service, c, channel, session, request⟩
    let s' := callService env (extended env s session) call
    if service = .publish then ⟨s', st, [.call call]⟩
    else
      let r := sendBinaryMessage env.response s' c channel
      if r.1 ≠ good then
        let h := sendError b env r.2 c channel requestId r.1 oldpos st
        { h with outputs := .call call :: h.outputs }
      else ⟨r.2, st, [.call call, .response requestId]⟩

/-- `processMSG` from the check of the type id on. -/
def processRequest (b : Build) (env : Environment) (s : Server) (c : Nat) (channel : Option Nat)
    (requestId : UInt32) (requestTypeId : NodeId) (st : Dec) : Handled :=
  if requestTypeId.identifier.isNumeric = false ∨ requestTypeId.namespaceIndex ≠ 0 then
    sendError b env s c channel requestId badServiceUnsupported st.offset st
  else match getServicePointers b (numericBits requestTypeId) with
    | none => sendError b env s c channel requestId badServiceUnsupported st.offset st
    | some service =>
        if channel = none ∧ typeIndex b.subscriptions service.requestType >
            typeIndex b.subscriptions openSecureChannelRequest then
          sendError b env s c channel requestId badSecureChannelIdInvalid st.offset st
        else match attempt (b.decode service.requestType) st with
          | (.error code, st') => sendError b env s c channel requestId code st.offset st'
          | (.ok request, st') =>
              serve b env s c channel requestId service ⟨_, request⟩ st.offset st'

def nextToken (s : Server) (channel : Option Nat) : SecurityToken :=
  match channel.bind s.channels with
  | none => SecurityToken.init
  | some x => x.nextSecurityToken

def revolved (s : Server) : Option Nat → Server
  | none => s
  | some a => s.setChannel a revolveTokens

/-- A message with the token of the channel, or with the next one, is
processed. Another token closes the channel. -/
def processChecked (b : Build) (env : Environment) (s : Server) (c : Nat) (secureChannelId tokenId requestId : UInt32)
    (requestTypeId : NodeId) (st : Dec) : Handled :=
  let channel := connectionChannel s c
  if secureChannelId ≠ (channelToken s channel).channelId then ⟨s, st, []⟩
  else if tokenId ≠ (channelToken s channel).tokenId then
    if tokenId ≠ (nextToken s channel).tokenId then
      ⟨closeSecureChannel s (channelToken s channel).channelId, st, []⟩
    else processRequest b env (revolved s channel) c channel requestId requestTypeId st
  else processRequest b env s c channel requestId requestTypeId st

/-- Channel id, token id and request id. Their status is overwritten by that
of the type id. -/
def securityHeaders (st : Dec) : (UInt32 × UInt32 × UInt32) × Dec :=
  let secureChannelId := readOr 0 uint32DecodeBinary st
  let tokenId := readOr 0 uint32DecodeBinary secureChannelId.2
  let sequenceHeader := readOr (0, 0) (both uint32DecodeBinary uint32DecodeBinary) tokenId.2
  ((secureChannelId.1, tokenId.1, sequenceHeader.1.2), sequenceHeader.2)

def processMSG (b : Build) (env : Environment) (s : Server) (c : Nat) (st : Dec) : Handled :=
  let headers := securityHeaders st
  match attempt nodeIdDecodeBinary headers.2 with
  | (.error _, st') => ⟨s, st', []⟩
  | (.ok requestTypeId, st') =>
      processChecked b env s c headers.1.1 headers.1.2.1 headers.1.2.2 requestTypeId st'

def processCLO (s : Server) (c : Nat) (st : Dec) : Handled :=
  match attempt uint32DecodeBinary st with
  | (.error _, st') => ⟨s, st', []⟩
  | (.ok secureChannelId, st') =>
      let channel := connectionChannel s c
      if channel = none ∨ (channelToken s channel).channelId ≠ secureChannelId then ⟨s, st', []⟩
      else ⟨closeSecureChannel s secureChannelId, st', []⟩

end Handlers

section MessageLoop

def headerDecodeBinary : DecM (UInt32 × UInt32) := both uint32DecodeBinary uint32DecodeBinary

/-- The cases of the switch over `messageTypeAndFinal & 0xffffff`. -/
def messageType (messageTypeAndFinal : UInt32) : Option MessageType :=
  [MessageType.hel, .opn, .msg, .clo].find? (fun t => t.code == messageTypeAndFinal.toNat % 16777216)

/-- What one pass of the loop does. `position` and `type` say what it has
dispatched, `again` whether another pass follows and `returned` whether the
function has returned from the switch. -/
structure Pass where
  server : Server
  dec : Dec
  outputs : List Output
  type : Option MessageType
  again : Bool
  returned : Bool

/-- Go on behind the announced length, wherever the handler has stopped. -/
def skipTo (targetpos : Nat) (type : Option MessageType) (h : Handled) : Pass :=
  ⟨h.server, { h.dec with offset := targetpos }, h.outputs, type, decide (h.dec.data.length > targetpos),
    false⟩

def dispatch (b : Build) (env : Environment) (s : Server) (c : Nat) (targetpos : Nat)
    (type : Option MessageType) (st : Dec) : Pass :=
  match type with
  | some .hel => skipTo targetpos type (processHEL env s c st)
  | some .opn => skipTo targetpos type (processOPN b env s c st)
  | some .msg =>
      if !established s c then ⟨close s c, st, [], type, false, true⟩
      else skipTo targetpos type (processMSG b env s c st)
  | some .clo =>
      let h := processCLO s c st
      ⟨close h.server c, h.dec, h.outputs, type, false, true⟩
  | _ => skipTo targetpos type ⟨s, st, []⟩

def pass (b : Build) (env : Environment) (s : Server) (c : Nat) (st : Dec) : Pass :=
  match attempt headerDecodeBinary st with
  | (.error _, st') => ⟨close s c, st', [], none, false, false⟩
  | (.ok (messageTypeAndFinal, messageSize), st') =>
      dispatch b env s c (st'.offset - 8 + messageSize.toNat) (messageType messageTypeAndFinal) st'

abbrev State := Server × Dec

def next (b : Build) (env : Nat → Environment) (c : Nat) (k : Nat) (x : State) : Option State :=
  let r := pass b (env k) x.1 c x.2
  if r.again then some (r.server, r.dec) else none

/-- The positions of the passes with the types they dispatch, the server
after them, and whether the last pass has returned. -/
structure Processed where
  server : Server
  trace : List (Nat × Option MessageType)
  returned : Bool

/-- `UA_Server_processBinaryMessage` from the `k`-th pass on; `none` if the
fuel runs out. -/
def processBinaryMessage (b : Build) (env : Nat → Environment) (c : Nat) :
    Nat → Nat → State → Option Processed
  | 0, _, _ => none
  | fuel + 1, k, x =>
      let r := pass b (env k) x.1 c x.2
      if r.again then
        (processBinaryMessage b env c fuel (k + 1) (r.server, r.dec)).map
          (fun p => { p with trace := (x.2.offset, r.type) :: p.trace })
      else some ⟨r.server, [(x.2.offset, r.type)], r.returned⟩

def start (s : Server) (msg : List UInt8) (heap : List Bool) : State := (s, ⟨msg, 0, [], heap⟩)

def Terminates (b : Build) (env : Nat → Environment) (c : Nat) (x : State) : Prop :=
  ∃ fuel p, processBinaryMessage b env c fuel 0 x = some p

end MessageLoop

end OpcUa.MessageHandlers
