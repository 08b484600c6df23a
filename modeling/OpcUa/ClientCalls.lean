import OpcUa.ChannelExpiry
import OpcUa.MessageHandlers

namespace OpcUa.ClientCalls

open StatusCodes NodeIds Connections DataTypes TypeTable Values Readers Decoding Servers ServiceTable MessageHandlers
open ChannelExpiry (Handshake secureChannelHandshake receiveResponse)

def badEncodingLimitsExceeded : StatusCode := 0x80080000
def badRequestTooLarge : StatusCode := 0x80b80000
def badResponseTooLarge : StatusCode := 0x80b90000

inductive ClientState
  | ready | connected | errored
deriving DecidableEq

/-- `UA_Client` and its channel, without what is only copied into requests. -/
structure Client where
  state : ClientState
  connection : Connection
  sequenceNumber : UInt32
  securityToken : SecurityToken
  requestId : UInt32
  requestHandle : UInt32
  secureChannelLifeTime : Int32
  timeToRenewSecureChannel : Int32
  scExpiresAt : DateTime

namespace Client

def errored (c : Client) : Client := { c with state := .errored }

def disconnected (c : Client) : Client := { c with connection := { c.connection with state := .closed } }

def expiry (c : Client) : ChannelExpiry.Client where
  connectionEstablished := c.connection.state == .established
  secureChannelLifeTime := c.secureChannelLifeTime
  timeToRenewSecureChannel := c.timeToRenewSecureChannel
  scExpiresAt := c.scExpiresAt

end Client

/-- A request with the type of its response. The clock is read before it, and
both messages that may have to be sent meet some fate. -/
structure Request where
  responseType : DataType
  now : DateTime
  opening : Sending
  sending : Sending

/-- What one `recv` returns, whether it closes the connection, and the memory for
what follows. -/
structure Receive where
  status : StatusCode
  bytes : UaString
  closes : Bool
  memory : Allocator
  heap : List Bool
  now : DateTime

inductive Answer
  | failed (serviceResult : StatusCode)
  | fault (fault : Val serviceFault)
  | response (response : Any)

section Sends

/-- A request for a new token is sent, with a sequence number in any case. -/
def sendOpening (c : Client) (sending : Sending) : StatusCode × Client :=
  let c := { c with sequenceNumber := c.sequenceNumber + 1, requestId := c.requestId + 1 }
  match sending with
  | .refused code => (code, c)
  | .sent => (good, c)
  | .broken => (badConnectionClosed, c.disconnected)

/-- `UA_SecureChannel_sendBinaryMessage` with the next id and handle. -/
def sendRequest (c : Client) (sending : Sending) : StatusCode × Client :=
  let c := { c with requestHandle := c.requestHandle + 1, requestId := c.requestId + 1 }
  match sending with
  | .refused code => (code, c)
  | .sent => (good, { c with sequenceNumber := c.sequenceNumber + 1 })
  | .broken => (badConnectionClosed, { c with sequenceNumber := c.sequenceNumber + 1 }.disconnected)

end Sends

section Replies

def messageHeaderDecodeBinary : DecM (UInt32 × UInt32 × UInt32) :=
  both uint32DecodeBinary <| both uint32DecodeBinary uint32DecodeBinary

def asymmetricHeaderDecodeBinary : DecM (UaString × UaString × UaString) :=
  both stringDecodeBinary <| both stringDecodeBinary stringDecodeBinary

def sequenceHeaderDecodeBinary : DecM (UInt32 × UInt32) := both uint32DecodeBinary uint32DecodeBinary

def asStatusCode : Any → Option StatusCode
  | ⟨_, .simple (b := .statusCode) x⟩ => some x
  | _ => none

def asDateTime : Any → Option UInt64
  | ⟨_, .simple (b := .dateTime) x⟩ => some x
  | _ => none

/-- Of the first member of every response, its `ResponseHeader`. -/
def serviceResult (response : Any) : StatusCode :=
  (((field response 0).bind (field · 2)).bind asStatusCode).getD good

def responseToken (response : Any) : SecurityToken :=
  let token := field response 2
  { channelId := ((token.bind (field · 0)).bind asUInt32).getD 0
    tokenId := ((token.bind (field · 1)).bind asUInt32).getD 0
    createdAt := (((token.bind (field · 2)).bind asDateTime).getD 0).toInt64.toInt
    revisedLifetime := ((token.bind (field · 3)).bind asUInt32).getD 0 }

/-- `SecureChannelHandshake` with a reply. The headers are read whether they can
be decoded or not, and the request id among them is not looked at. -/
def acceptOpening (b : Build) (c : Client) (reply : List UInt8) (heap : List Bool) (now : DateTime) :
    StatusCode × Client :=
  let messageHeader := readOr (0, 0, 0) messageHeaderDecodeBinary ⟨reply, 0, [], heap⟩
  let asymHeader := readOr (none, none, none) asymmetricHeaderDecodeBinary messageHeader.2
  let seqHeader := readOr (0, 0) sequenceHeaderDecodeBinary asymHeader.2
  let requestType := readOr (numericId 0 446) nodeIdDecodeBinary seqHeader.2
  if !nodeIdEqual requestType.1 (numericId 0 449) then (badInternalError, c)
  else
    match attempt (b.decode openSecureChannelResponse) requestType.2 with
    | (.error code, _) => (code, c)
    | (.ok response, _) =>
        let token := responseToken ⟨_, response⟩
        let c := { c with scExpiresAt := (receiveResponse now c.expiry token.revisedLifetime).scExpiresAt }
        let status := serviceResult ⟨_, response⟩
        if status ≠ good then (status, c) else (good, { c with securityToken := token })

def replyHeadersDecodeBinary : DecM ((UInt32 × UInt32 × UInt32) × UInt32 × (UInt32 × UInt32) × NodeId) :=
  both messageHeaderDecodeBinary <| both uint32DecodeBinary <| both sequenceHeaderDecodeBinary nodeIdDecodeBinary

/-- `__UA_Client_Service` with a reply. -/
def retrieveResponse (b : Build) (c : Client) (requestId : UInt32) (responseType : DataType) (reply : List UInt8)
    (heap : List Bool) : Answer × Client :=
  match attempt replyHeadersDecodeBinary ⟨reply, 0, [], heap⟩ with
  | (.error code, _) => (.failed code, c.errored)
  | (.ok (_, _, (_, replyId), responseId), st) =>
      if !nodeIdEqual responseId (numericId 0 (numericBits responseType.typeId + 2)) || replyId != requestId then
        if numericBits responseId != 397 then (.failed badInternalError, c)
        else
          match attempt (b.decode serviceFault) st with
          | (.error code, _) => (.failed code, c.errored)
          | (.ok fault, _) => (.fault fault, c)
      else
        match attempt (b.decode responseType) st with
        | (.error code, _) =>
            (.failed (if code = badEncodingLimitsExceeded then badResponseTooLarge else code), c.errored)
        | (.ok response, _) => (.response ⟨_, response⟩, c)

end Replies

section Calls

/-- Where the client waits in a `recv`, with the id of the request it has sent. -/
inductive Phase
  | idle
  | opening (requestId : UInt32) (request : Request)
  | replying (requestId : UInt32) (request : Request)

/-- A buffer in which a reply was looked for, and what was handed to the caller
from it, if anything. -/
structure Exchange where
  requestId : UInt32
  reply : List UInt8
  answer : Option Answer

structure Returned where
  requestId : UInt32
  answer : Answer

/-- The client, with all the bytes it has received so far, the buffers it has
used up and the calls that have returned. -/
structure State where
  client : Client
  phase : Phase
  stream : List UInt8
  exchanges : List Exchange
  returned : List Returned

namespace State

def give (x : State) (c : Client) (requestId : UInt32) (answer : Answer) : State :=
  { x with client := c, phase := .idle, returned := x.returned ++ [⟨requestId, answer⟩] }

/-- `__UA_Client_Service` once the channel is valid, up to the `recv`. -/
def request (x : State) (c : Client) (r : Request) : State :=
  let sent := sendRequest c r.sending
  if sent.1 ≠ good then
    x.give sent.2.errored sent.2.requestId
      (.failed (if sent.1 = badEncodingLimitsExceeded then badRequestTooLarge else sent.1))
  else { x with client := sent.2, phase := .replying sent.2.requestId r }

/-- `__UA_Client_Service` up to the first `recv`. -/
def call (x : State) (r : Request) : State :=
  match secureChannelHandshake r.now x.client.expiry true with
  | .returns status =>
      if status ≠ good then x.give x.client.errored x.client.requestId (.failed status) else x.request x.client r
  | .sends _ _ =>
      let sent := sendOpening x.client r.opening
      if sent.1 ≠ good then x.give sent.2.errored sent.2.requestId (.failed sent.1)
      else { x with client := sent.2, phase := .opening sent.2.requestId r }

/-- The connection after a `recv`. -/
def connection (x : State) (r : Receive) : Connection :=
  if r.closes then x.client.disconnected.connection else x.client.connection

def completed (x : State) (r : Receive) : Completed := completeMessages r.memory (x.connection r) r.bytes

/-- The bytes that were received are handed to the connection. -/
def accept (x : State) (r : Receive) : State :=
  { x with
    client := { x.client with connection := (x.completed r).connection }
    stream := x.stream ++ r.bytes.bytes }

def exchange (x : State) (requestId : UInt32) (reply : List UInt8) (answer : Option Answer) : State :=
  { x with exchanges := x.exchanges ++ [⟨requestId, reply, answer⟩] }

/-- One pass of the loop in which the client waits, and what follows on it. -/
def receive (b : Build) (x : State) (r : Receive) : State :=
  let done := x.completed r
  let status := r.status ||| done.status
  match x.phase with
  | .idle => x
  | .opening requestId request =>
      let x := x.accept r
      if status ≠ good then x.give x.client.errored requestId (.failed status)
      else if done.message.length = 0 then x
      else
        let opened := acceptOpening b x.client done.message.bytes r.heap r.now
        let x := x.exchange requestId done.message.bytes none
        if opened.1 ≠ good then x.give opened.2.errored requestId (.failed opened.1) else x.request opened.2 request
  | .replying requestId request =>
      let x := x.accept r
      if status ≠ good then x.give x.client.errored requestId (.failed status)
      else if done.message = none then x
      else
        let a := retrieveResponse b x.client requestId request.responseType done.message.bytes r.heap
        (x.exchange requestId done.message.bytes (some a.1)).give a.2 requestId a.1

end State

/-- The caller only calls when the last call has returned. -/
inductive Event
  | call (request : Request)
  | receive (receive : Receive)

def step (b : Build) (x : State) : Event → State
  | .call r =>
      match x.phase with
      | .idle => x.call r
      | _ => x
  | .receive r => x.receive b r

def start (c : Client) : State := ⟨c, .idle, c.connection.incompleteMessage.bytes, [], []⟩

end Calls

end OpcUa.ClientCalls
