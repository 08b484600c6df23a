import OpcUa.SecureChannels

namespace OpcUa.Sessions

open StatusCodes NodeIds Connections Heaps Servers SecureChannels

def updateLifetime (now : DateTime) (s : Server) (i : Nat) : Server :=
  s.setSession i (fun x => { x with validTill := now + x.timeout * 10000 })

/-- `UA_Session_deleteMembersCleanup` -/
def deleteSessionMembers (s : Server) (i : Nat) : Server :=
  match (s.sessions i).bind (·.channel) with
  | none => s
  | some a => detachSession s a i

/-- The end of a session: out of the list, detached from its channel, its
memory freed. -/
def freeSession (s : Server) (i : Nat) : Server :=
  let s' := deleteSessionMembers s i
  { s' with
    sessions := s'.sessions.free i
    sessionManager :=
      { s'.sessionManager with
        sessions := s'.sessionManager.sessions.erase i
        currentSessionCount := s'.sessionManager.currentSessionCount - 1 } }

def cleanupSession (now : DateTime) (s : Server) (i : Nat) : Server :=
  match s.sessions i with
  | none => s
  | some session => if session.validTill < now then freeSession s i else s

/-- `UA_SessionManager_cleanupTimedOut` -/
def cleanupSessions (s : Server) (now : DateTime) : Server :=
  s.sessionManager.sessions.foldl (cleanupSession now) s

/-- `UA_SessionManager_getSession` -/
def managerSession (now : DateTime) (s : Server) (token : NodeId) : Option Nat :=
  match s.sessionManager.sessions.find? (hasToken s token) with
  | none => none
  | some i => match s.sessions i with
      | none => none
      | some session => if now > session.validTill then none else some i

/-- The conversions of a `UA_Double` that is compared with an integer and
then truncated. -/
def doubleExponent (bits : UInt64) : Nat := bits.toNat / 4503599627370496 % 2048

def doubleMantissa (bits : UInt64) : Nat :=
  bits.toNat % 4503599627370496 + if doubleExponent bits = 0 then 0 else 4503599627370496

/-- Greater than zero and at most `bound`; no comparison holds of a NaN. -/
def doubleWithin (bits : UInt64) (bound : Nat) : Bool :=
  bits.toNat < 9218868437227405312 && 0 < doubleMantissa bits &&
    (doubleMantissa bits * 2 ^ (doubleExponent bits - 1075) ≤ bound * 2 ^ (1075 - max 1 (doubleExponent bits)))

def truncateDouble (bits : UInt64) : Nat :=
  doubleMantissa bits * 2 ^ (doubleExponent bits - 1075) / 2 ^ (1075 - max 1 (doubleExponent bits))

def sessionTimeout (m : SessionManager) (requested : UInt64) : Int :=
  if doubleWithin requested m.maxSessionLifeTime.toNat then truncateDouble requested
  else m.maxSessionLifeTime.toNat

def createdSession (env : Environment) (m : SessionManager) (requested : UInt64) : Session :=
  let timeout := sessionTimeout m requested
  { Session.init with
    authenticationToken := ⟨1, .guid env.guid⟩
    sessionId := numericId 1 m.lastSessionId
    timeout := timeout
    validTill := env.now 1 + timeout * 10000 }

/-- `UA_SessionManager_createSession` -/
def createManagedSession (env : Environment) (s : Server) (requested : UInt64) :
    Except StatusCode (Nat × Server) :=
  let m := s.sessionManager
  if m.currentSessionCount ≥ m.maxSessionCount then .error badTooManySessions
  else match s.sessions.allocate env.newSession with
    | none => .error badOutOfMemory
    | some i =>
        .ok (i,
          { s with
            sessions := s.sessions.store i (createdSession env m requested)
            sessionManager :=
              { m with
                sessions := i :: m.sessions
                currentSessionCount := m.currentSessionCount + 1
                lastSessionId := m.lastSessionId + 1 } })

def removeSession (s : Server) (token : NodeId) : StatusCode × Server :=
  match s.sessionManager.sessions.find? (hasToken s token) with
  | none => (badSessionIdInvalid, s)
  | some i => (good, freeSession s i)

def channelToken (s : Server) (channel : Option Nat) : SecurityToken :=
  match channel.bind s.channels with
  | none => SecurityToken.init
  | some x => x.securityToken

/-- `Service_CreateSession`, on the channel of the calling session. -/
def createSession (env : Environment) (s : Server) (channel : Option Nat) (requested : UInt64) :
    StatusCode × Server :=
  if (channelToken s channel).channelId = 0 then (badSecureChannelIdInvalid, s)
  else if !env.endpointsCopied then (badOutOfMemory, s)
  else match createManagedSession env s requested with
    | .error code => (code, s)
    | .ok (i, s') =>
        if env.namesCopied then (good, s')
        else match s'.sessions i with
          | none => (badOutOfMemory, s')
          | some session => (badOutOfMemory, (removeSession s' session.authenticationToken).2)

/-- What `Service_ActivateSession` looks at in the identity token. -/
inductive IdentityToken
  | anonymous (policyId : UaString)
  | userName (policyId userName password encryptionAlgorithm : UaString)
  | other
deriving DecidableEq, Repr

def ascii (text : String) : UaString := some (text.toList.map (fun c => UInt8.ofNat c.toNat))

def anonymousPolicy : UaString := ascii "open62541-anonymous-policy"

def usernamePolicy : UaString := ascii "open62541-username-policy"

def loginMatches (userName password : UaString) (login : List UInt8 × List UInt8) : Bool :=
  stringEqual userName (some login.1) && stringEqual password (some login.2)

/-- The result of the login: `good` if the session may be activated. -/
def login (config : Config) : IdentityToken → StatusCode
  | .anonymous policyId =>
      if config.enableAnonymous then
        if policyId ≠ none ∧ stringEqual policyId anonymousPolicy = false then badIdentityTokenInvalid
        else good
      else badIdentityTokenInvalid
  | .userName policyId userName password encryptionAlgorithm =>
      if config.enableUsernamePassword then
        if stringEqual policyId usernamePolicy = false then badIdentityTokenInvalid
        else if encryptionAlgorithm.length > 0 then badIdentityTokenInvalid
        else if config.logins.any (loginMatches userName password) then good
        else badUserAccessDenied
      else badIdentityTokenInvalid
  | .other => badInternalError

/-- The session moves to the channel it is activated on. -/
def activate (env : Environment) (s : Server) (channel i : Nat) : Server :=
  let s' := match (s.sessions i).bind (·.channel) with
    | none => s
    | some a => if a ≠ channel then detachSession s a i else s
  updateLifetime (env.now 3)
    ((attachSession env.newSessionEntry s' channel i).setSession i (fun x => { x with activated := true })) i

def activateSession (env : Environment) (s : Server) (channel : Nat) (token : NodeId)
    (identity : IdentityToken) : StatusCode × Server :=
  match managerSession (env.now 1) s token with
  | none => (badSessionIdInvalid, s)
  | some i => match s.sessions i with
      | none => (badSessionIdInvalid, s)
      | some session =>
          if session.validTill < env.now 2 then (badSessionIdInvalid, s)
          else if login s.config identity ≠ good then (login s.config identity, s)
          else (good, activate env s channel i)

def closeSession (s : Server) (i : Nat) : StatusCode × Server :=
  match s.sessions i with
  | none => (badSessionIdInvalid, s)
  | some session => removeSession s session.authenticationToken

end OpcUa.Sessions
