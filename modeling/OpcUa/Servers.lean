import OpcUa.Connections
import OpcUa.Heaps

namespace OpcUa.Servers

open NodeIds Connections Heaps

abbrev DateTime := Int

structure SecurityToken where
  channelId : UInt32
  tokenId : UInt32
  createdAt : DateTime
  revisedLifetime : UInt32
deriving DecidableEq, Repr

def SecurityToken.init : SecurityToken := ⟨0, 0, 0, 0⟩

/-- `UA_SecureChannel` without the nonces and the algorithm settings, which
nothing reads. The sessions are the pointers in `SessionEntry`. -/
structure SecureChannel where
  securityToken : SecurityToken
  nextSecurityToken : SecurityToken
  sequenceNumber : UInt32
  connection : Option Nat
  sessions : List Nat
deriving DecidableEq, Repr

def SecureChannel.init : SecureChannel := ⟨SecurityToken.init, SecurityToken.init, 0, none, []⟩

/-- `UA_Session` without the continuation points and the subscriptions. -/
structure Session where
  activated : Bool
  authenticationToken : NodeId
  sessionId : NodeId
  timeout : Int
  validTill : DateTime
  channel : Option Nat
deriving DecidableEq, Repr

def Session.init : Session := ⟨false, numericId 0 0, numericId 0 0, 0, 0, none⟩

structure SecureChannelManager where
  channels : List Nat
  maxChannelCount : Nat
  currentChannelCount : Nat
  maxChannelLifetime : UInt32
  lastChannelId : UInt32
  lastTokenId : UInt32
deriving DecidableEq, Repr

structure SessionManager where
  sessions : List Nat
  maxSessionCount : UInt32
  lastSessionId : UInt32
  currentSessionCount : UInt32
  maxSessionLifeTime : UInt32
deriving DecidableEq, Repr

/-- The logins of `UA_ServerConfig`. -/
structure Config where
  enableAnonymous : Bool
  enableUsernamePassword : Bool
  logins : List (List UInt8 × List UInt8)
deriving DecidableEq, Repr

/-- The objects behind the pointers of the server, and the lists through
which the managers hold the channels and the sessions. -/
structure Server where
  connections : Heap Connection
  channels : Heap SecureChannel
  sessions : Heap Session
  secureChannelManager : SecureChannelManager
  sessionManager : SessionManager
  config : Config

/-- `UA_Server_new` -/
def newServer (config : Config) : Server where
  connections := Heap.empty
  channels := Heap.empty
  sessions := Heap.empty
  secureChannelManager := ⟨[], 100, 0, 600000, 1, 1⟩
  sessionManager := ⟨[], 1000, 1, 0, 10000⟩
  config := config

namespace Server

def setConnection (s : Server) (c : Nat) (f : Connection → Connection) : Server :=
  { s with connections := s.connections.modify c f }

def setChannel (s : Server) (a : Nat) (f : SecureChannel → SecureChannel) : Server :=
  { s with channels := s.channels.modify a f }

def setSession (s : Server) (i : Nat) (f : Session → Session) : Server :=
  { s with sessions := s.sessions.modify i f }

variable (s : Server) (a : Nat)

@[simp] theorem setConnection_channels (f : Connection → Connection) :
    (s.setConnection a f).channels = s.channels := rfl

@[simp] theorem setChannel_channels (f : SecureChannel → SecureChannel) :
    (s.setChannel a f).channels = s.channels.modify a f := rfl

@[simp] theorem setSession_sessions (f : Session → Session) :
    (s.setSession a f).sessions = s.sessions.modify a f := rfl

end Server

/-- What a step takes from outside: the readings of the clock, the answers of
the allocator and of the random generator, and what becomes of the messages
that are sent. -/
inductive Sending
  | refused (code : StatusCodes.StatusCode) | sent | broken
deriving DecidableEq, Repr

structure Environment where
  now : Nat → DateTime
  newChannel : Option Nat
  newSession : Option Nat
  newSessionEntry : Bool
  endpointsCopied : Bool
  namesCopied : Bool
  guid : Guid
  buffer : Bool
  response : Sending
  fault : Sending

end OpcUa.Servers
