import OpcUa.ClientCalls
import OpcUa.Ledgers
import OpcUa.ServerUrls
import OpcUa.Waiting

namespace OpcUa.ClientLifecycles

open StatusCodes NodeIds Connections DataTypes TypeTable Values Readers Decoding Servers ServiceTable MessageHandlers
  ClientCalls Ledgers Waiting

section State

/-- `UA_ClientConfig` without the timeout of a reception. -/
structure ClientConfig where
  secureChannelLifeTime : Int32
  timeToRenewSecureChannel : Int32
  localConnectionConfig : ConnectionConfig

/-- `UA_Client` without its subscriptions. Of the `UserTokenPolicy`, only the
`policyId` is used. -/
structure Client where
  calls : ClientCalls.Client
  sockfd : Option Nat
  endpointUrl : UaString
  authenticationToken : NodeId
  policyId : UaString
  localConnectionConfig : ConnectionConfig

namespace Client

def state (c : Client) : ClientState := c.calls.state

def connectionState (c : Client) : ConnectionState := c.calls.connection.state

def setState (c : Client) (state : ClientState) : Client := { c with calls := { c.calls with state := state } }

def setConnection (c : Client) (connection : Connection) : Client :=
  { c with calls := { c.calls with connection := connection } }

def setConnectionState (c : Client) (state : ConnectionState) : Client :=
  c.setConnection { c.calls.connection with state := state }

/-- What is handed to `close`. -/
def descriptor (c : Client) : Release :=
  match c.sockfd with
  | some fd => .block fd
  | none => .unset

def config (c : Client) : ClientConfig :=
  ⟨c.calls.secureChannelLifeTime, c.calls.timeToRenewSecureChannel, c.localConnectionConfig⟩

def init (config : ClientConfig) : Client where
  calls :=
    { state := .ready
      connection := Connections.init
      sequenceNumber := 0
      securityToken := ⟨0, 0, 0, 0⟩
      requestId := 0
      requestHandle := 0
      secureChannelLifeTime := config.secureChannelLifeTime
      timeToRenewSecureChannel := config.timeToRenewSecureChannel
      scExpiresAt := 0 }
  sockfd := none
  endpointUrl := none
  authenticationToken := numericId 0 0
  policyId := none
  localConnectionConfig := config.localConnectionConfig

end Client

/-- What becomes of a message for an open connection. It cannot be built, or it
is written, or the connection breaks. -/
inductive Fate
  | refused (code : { code : StatusCode // code ≠ good })
  | sent
  | broken

/-- What a `recv` of the client returns. It closes the connection only with the
status that says so. -/
structure Arrival extends Receive where
  closes_status : closes = true → status = badConnectionClosed

/-- What the calls of a client get from outside, each in its order: the
readings of the clock, the fates of messages, and what is received. A call
waits for what is not there. -/
structure Script where
  readings : List DateTime
  fates : List Fate
  arrivals : List Arrival

inductive Stage
  | idle | waiting | deleted
deriving DecidableEq

/-- The client with the sockets of its process: how many descriptors have been
given out, and what has been handed to `close`. What follows is not kept by the
program: the descriptors for which no host was found, on which a message broke
off and which `recv` found closed, how many sessions the server has closed on
request, and whether it has activated one that it has not. -/
structure World where
  client : Client
  stage : Stage
  script : Script
  opened : Nat
  closings : List Release
  unresolved : List Nat
  broken : List Nat
  hungUp : List Nat
  ended : Nat
  activated : Bool

abbrev Run := CallM World

/-- `UA_Client_new` -/
def new (config : ClientConfig) : World where
  client := Client.init config
  stage := .idle
  script := ⟨[], [], []⟩
  opened := 0
  closings := []
  unresolved := []
  broken := []
  hungUp := []
  ended := 0
  activated := false

end State

section Sockets

def setClient (f : Client → Client) : Run PUnit := modify fun w => { w with client := f w.client }

def socketClose : Run PUnit :=
  modify fun w =>
    { w with
      client := w.client.setConnectionState .closed
      closings := w.client.descriptor :: w.closings }

/-- `ClientNetworkLayerClose` -/
def clientClose : Run PUnit := do
  if (← get).client.connectionState = .closed then return
  setClient (·.setConnectionState .closed)
  socketClose

def nextReading : Run DateTime := do
  match (← get).script.readings with
  | [] => failure
  | now :: readings =>
      modify fun w => { w with script := { w.script with readings := readings } }
      return now

def nextFate : Run Fate := do
  match (← get).script.fates with
  | [] => failure
  | fate :: fates =>
      modify fun w => { w with script := { w.script with fates := fates } }
      return fate

/-- From `getSendBuffer` to `send`. -/
def sendMessage : Run Sending := do
  if (← get).client.connectionState = .closed then return .refused badConnectionClosed
  match ← nextFate with
  | .refused code => return .refused code
  | .sent => return .sent
  | .broken =>
      modify fun w => { w with broken := w.client.sockfd.toList ++ w.broken }
      clientClose
      socketClose
      return .broken

/-- The status and the buffer after a `recv` and `UA_Connection_completeMessages`. -/
structure Reply where
  status : StatusCode
  message : UaString
  heap : List Bool
  now : DateTime

def receiveMessage (r : Arrival) : Run Reply := do
  onlyIf (r.closes = true) do
    modify fun w => { w with hungUp := w.client.sockfd.toList ++ w.hungUp }
    socketClose
  let done := completeMessages r.memory (← get).client.calls.connection r.bytes
  setClient (·.setConnection done.connection)
  return ⟨r.status ||| done.status, done.message, r.heap, r.now⟩

def awaitArrivals (complete : UaString → Bool) : List Arrival → Run Reply
  | [] => failure
  | r :: arrivals => do
      modify fun w => { w with script := { w.script with arrivals := arrivals } }
      let reply ← receiveMessage r
      if reply.status = good ∧ complete reply.message = false then awaitArrivals complete arrivals else return reply

def awaitReply (complete : UaString → Bool) : Run Reply := do
  awaitArrivals complete (← get).script.arrivals

end Sockets

section Handshakes

variable (b : Build)

/-- `UA_TcpAcknowledgeMessage` -/
def acknowledgeDecodeBinary : DecM (UInt32 × UInt32 × UInt32 × UInt32 × UInt32) :=
  both uint32DecodeBinary <| both uint32DecodeBinary <| both uint32DecodeBinary <| both uint32DecodeBinary
    uint32DecodeBinary

def acknowledged (reply : Reply) :
    Except StatusCode (UInt32 × UInt32 × UInt32 × UInt32 × UInt32) :=
  let messageHeader := readOr (0, 0) (both uint32DecodeBinary uint32DecodeBinary)
    ⟨reply.message.bytes, 0, [], reply.heap⟩
  (attempt acknowledgeDecodeBinary messageHeader.2).1

def helAckHandshake : Run StatusCode := do
  match ← sendMessage with
  | .refused code => return code
  | .broken => return badConnectionClosed
  | .sent =>
      let reply ← awaitReply (·.length != 0)
      if reply.status ≠ good then return reply.status
      match acknowledged reply with
      | .error code => return code
      | .ok (protocolVersion, receiveBufferSize, sendBufferSize, maxMessageSize, maxChunkCount) =>
          setClient fun c => c.setConnection
            { c.calls.connection with
              remoteConf := ⟨protocolVersion, sendBufferSize, receiveBufferSize, maxMessageSize, maxChunkCount⟩
              state := .established }
          return good

def setCalls (calls : ClientCalls.Client) : Run PUnit := setClient fun c => { c with calls := calls }

/-- A message is built and sent, with the next numbers of the client. -/
def transmit (send : ClientCalls.Client → Sending → StatusCode × ClientCalls.Client) : Run StatusCode := do
  let sending ← sendMessage
  let sent := send (← get).client.calls sending
  setCalls sent.2
  return sent.1

def renewalTime (renew : Bool) : Run DateTime := if renew then nextReading else pure 0

def secureChannelHandshake (renew : Bool) : Run StatusCode := do
  let now ← renewalTime renew
  match ChannelExpiry.secureChannelHandshake now (← get).client.calls.expiry renew with
  | .returns status => return status
  | .sends _ _ =>
      let retval ← transmit sendOpening
      if retval ≠ good then return retval
      let reply ← awaitReply (·.length != 0)
      if reply.status ≠ good then return reply.status
      let opened := acceptOpening b (← get).client.calls reply.message.bytes reply.heap reply.now
      setCalls opened.2
      return opened.1

def manuallyRenewSecureChannel : Run StatusCode := secureChannelHandshake b true

def fail (status : StatusCode) : Run Answer := do
  setClient (·.setState .errored)
  return .failed status

def clientService (responseType : DataType) : Run Answer := do
  let status ← manuallyRenewSecureChannel b
  if status ≠ good then fail status
  else
    let retval ← transmit sendRequest
    if retval ≠ good then fail (if retval = badEncodingLimitsExceeded then badRequestTooLarge else retval)
    else
      let requestId := (← get).client.calls.requestId
      let reply ← awaitReply (·.isSome)
      if reply.status ≠ good then fail reply.status
      else
        let answer := retrieveResponse b (← get).client.calls requestId responseType reply.message.bytes reply.heap
        setCalls answer.2
        return answer.1

end Handshakes

section Sessions

/-- The `serviceResult` of the response that a call hands over. -/
def resultOf : Answer → StatusCode
  | .failed code => code
  | .fault fault => serviceResult ⟨_, fault⟩
  | .response response => serviceResult response

def itemsOf {t : DataType} : Vals t → List Any
  | .nil => []
  | .cons v vs => ⟨t, v⟩ :: itemsOf vs

def arrayAt : {members : Members} → Slots members → Nat → List Any
  | _, .nil, _ => []
  | _, .scalar _ _, 0 => []
  | _, .scalar _ slots, n + 1 => arrayAt slots n
  | _, .array (.items vs) _, 0 => itemsOf vs
  | _, .array .null _, 0 => []
  | _, .array _ slots, n + 1 => arrayAt slots n

/-- The `n`-th member of a structure, an array. -/
def fieldItems : Any → Nat → List Any
  | ⟨_, .struct slots⟩, n => arrayAt slots n
  | _, _ => []

/-- `http://opcfoundation.org/UA/SecurityPolicy#None` -/
def securityNone : List UInt8 :=
  [104, 116, 116, 112, 58, 47, 47, 111, 112, 99, 102, 111, 117, 110, 100, 97, 116, 105, 111, 110, 46, 111, 114, 103, 47,
    85, 65, 47, 83, 101, 99, 117, 114, 105, 116, 121, 80, 111, 108, 105, 99, 121, 35, 78, 111, 110, 101]

/-- The anonymous token of an endpoint, `UA_USERTOKENTYPE_ANONYMOUS`. -/
def anonymousToken (endpoint : Any) : Option Any :=
  (fieldItems endpoint 5).find? (fun userToken => ((field userToken 1).bind asUInt32) = some 0)

/-- The loop over the endpoints, whether one without security was found and
with which token. A later one takes the place of an earlier one. -/
def selectEndpoint : List Any → Bool × Option Any → Bool × Option Any
  | [], found => found
  | endpoint :: endpoints, found =>
      if (stringAt endpoint 4).bytes ≠ securityNone then selectEndpoint endpoints found
      else selectEndpoint endpoints (true, (anonymousToken endpoint).or found.2)

variable (b : Build)

def endpointsHandshake : Run StatusCode := do
  let answer ← clientService b getEndpointsResponse
  if resultOf answer ≠ good then return resultOf answer
  let endpoints := match answer with
    | .response response => fieldItems response 1
    | _ => []
  let found := selectEndpoint endpoints (false, none)
  setClient fun c => { c with policyId := found.2.elim c.policyId (stringAt · 0) }
  if found.1 = false then return badInternalError
  if found.2.isNone then return badInternalError
  return resultOf answer

def sessionHandshake : Run StatusCode := do
  let answer ← clientService b createSessionResponse
  let token := match answer with
    | .response response => ((field response 2).bind asNodeId).getD (numericId 0 0)
    | _ => numericId 0 0
  setClient fun c => { c with authenticationToken := token }
  return resultOf answer

def activateSession : Run StatusCode := do
  let answer ← clientService b activateSessionResponse
  onlyIf (resultOf answer = good) <| modify fun w => { w with activated := true }
  return resultOf answer

def closeSession : Run StatusCode := do
  let answer ← clientService b closeSessionResponse
  onlyIf (resultOf answer = good) <| modify fun w => { w with activated := false, ended := w.ended + 1 }
  return resultOf answer

def closeSecureChannel : Run StatusCode := transmit sendOpening

end Sessions

section Calls

variable (b : Build)

def disconnect : Run StatusCode := do
  if (← get).client.connectionState = .established then
    let retval ← closeSession b
    if retval = good then closeSecureChannel else return retval
  else return good

/-- `UA_Client_deleteMembers`, with `UA_Connection_deleteMembers` and
`UA_SecureChannel_deleteMembersCleanup`. -/
def deleteMembers : Run PUnit := do
  let _ ← disconnect b
  setClient fun c => c.setConnection { c.calls.connection with incompleteMessage := none }
  clientClose
  setClient fun c => { c with endpointUrl := none, policyId := none }

def reset : Run PUnit := do
  deleteMembers b
  modify fun w => { w with client := .init w.client.config, activated := false }

def delete : Run PUnit := do
  onlyIf ((← get).client.state ≠ .ready) (deleteMembers b)
  modify fun w => { w with stage := .deleted }

/-- What the system does for `ClientNetworkLayerTCP_connect`. -/
inductive Network
  | noSocket | unknownHost | connectionRefused | connected
deriving DecidableEq

/-- A call of `UA_Client_connect`: the url, whether `errno` is `ERANGE` before,
what the system does for a host and port, and whether there is memory for a
copy of the url. -/
structure Attempt where
  endpointUrl : List UInt8
  outOfRange : Bool
  network : List UInt8 → UInt16 → Network
  copied : Bool

/-- `socket` -/
def openSocket : Run PUnit :=
  modify fun w => { w with opened := w.opened + 1, client := { w.client with sockfd := some w.opened } }

/-- `ClientNetworkLayerTCP_connect`, whose connection becomes that of the
client. -/
def clientConnect (attempt : Attempt) : Run PUnit := do
  setClient fun c => { c.setConnection Connections.init with sockfd := none }
  match ServerUrls.serverOf attempt.outOfRange attempt.endpointUrl with
  | none => pure ()
  | some (hostname, port) =>
      match attempt.network hostname port with
      | .noSocket => pure ()
      | .unknownHost =>
          openSocket
          modify fun w => { w with unresolved := w.client.sockfd.toList ++ w.unresolved }
      | .connectionRefused =>
          openSocket
          setClient (·.setConnectionState .opening)
          clientClose
      | .connected =>
          openSocket
          setClient (·.setConnectionState .opening)

def andThen (first second : Run StatusCode) : Run StatusCode := do
  let retval ← first
  if retval = good then second else return retval

def handshakes : Run StatusCode :=
  andThen helAckHandshake <| andThen (secureChannelHandshake b false) <| andThen (endpointsHandshake b) <|
    andThen (sessionHandshake b) (activateSession b)

/-- From `cleanup` on. -/
def cleanup (retval : StatusCode) : Run StatusCode := do
  setClient (·.setState .errored)
  reset b
  return retval

def connect (attempt : Attempt) : Run StatusCode := do
  if (← get).client.state = .connected then return good
  onlyIf ((← get).client.state = .errored) (reset b)
  clientConnect attempt
  if (← get).client.connectionState ≠ .opening then return ← cleanup b badConnectionClosed
  if attempt.copied = false then return ← cleanup b badOutOfMemory
  setClient fun c => { c with endpointUrl := some attempt.endpointUrl }
  setClient fun c => c.setConnection { c.calls.connection with localConf := c.localConnectionConfig }
  let retval ← handshakes b
  if retval = good then
    setClient (·.setConnectionState .established)
    setClient (·.setState .connected)
    return retval
  else cleanup b retval

inductive Event
  | connect (attempt : Attempt)
  | service (responseType : DataType)
  | renew
  | disconnect
  | reset
  | delete

def perform : Event → Run PUnit
  | .connect attempt => do
      let _ ← connect b attempt
  | .service responseType => do
      let _ ← clientService b responseType
  | .renew => do
      let _ ← manuallyRenewSecureChannel b
  | .disconnect => do
      let _ ← disconnect b
  | .reset => reset b
  | .delete => delete b

/-- A call of the client, with what it gets from outside. -/
structure Call where
  event : Event
  script : Script

/-- The client is called when its last call has returned, and not after it was
deleted. -/
def step (w : World) (call : Call) : World :=
  match w.stage with
  | .waiting | .deleted => w
  | .idle =>
      match exec (perform b call.event) { w with script := call.script } with
      | (some _, w') => w'
      | (none, w') => { w' with stage := .waiting }

end Calls

end OpcUa.ClientLifecycles
