import OpcUa.Servers

namespace OpcUa.SecureChannels

open StatusCodes NodeIds Connections Heaps Servers

def close (s : Server) (c : Nat) : Server := s.setConnection c (fun x => { x with state := .closed })

def detachSecureChannel (s : Server) (c : Nat) : Server :=
  let s' := match (s.connections c).bind (·.channel) with
    | none => s
    | some a => s.setChannel a (fun x => { x with connection := none })
  s'.setConnection c (fun x => { x with channel := none })

def attachSecureChannel (s : Server) (c a : Nat) : Server :=
  match s.channels a with
  | none => s
  | some channel =>
      if channel.connection ≠ none then s
      else (s.setChannel a (fun x => { x with connection := some c })).setConnection c
        (fun x => { x with channel := some a })

/-- Only the pointers to the sessions are removed, not the sessions. -/
def releaseSessions (s : Server) (sessions : List Nat) : Server :=
  sessions.foldl (fun s i => s.setSession i (fun x => { x with channel := none })) s

/-- `UA_SecureChannel_deleteMembersCleanup` -/
def deleteChannelMembers (s : Server) (a : Nat) : Server :=
  match s.channels a with
  | none => s
  | some channel =>
      let s' := match channel.connection with
        | none => s
        | some c => close (detachSecureChannel s c) c
      (releaseSessions s' channel.sessions).setChannel a (fun x => { x with sessions := [] })

def attachSession (entry : Bool) (s : Server) (a i : Nat) : Server :=
  match s.sessions i with
  | none => s
  | some session =>
      if !entry ∨ session.channel ≠ none then s
      else (s.setSession i (fun x => { x with channel := some a })).setChannel a
        (fun x => { x with sessions := i :: x.sessions })

def detachSession (s : Server) (a i : Nat) : Server :=
  (s.setSession i (fun x => { x with channel := none })).setChannel a
    (fun x => { x with sessions := x.sessions.erase i })

def hasToken (s : Server) (token : NodeId) (i : Nat) : Bool :=
  match s.sessions i with
  | none => false
  | some session => nodeIdEqual session.authenticationToken token

/-- `UA_SecureChannel_getSession` -/
def channelSession (s : Server) (a : Nat) (token : NodeId) : Option Nat :=
  match s.channels a with
  | none => none
  | some channel => channel.sessions.find? (hasToken s token)

def revolveTokens (channel : SecureChannel) : SecureChannel :=
  if channel.nextSecurityToken.tokenId = 0 then channel
  else
    { channel with
      securityToken := channel.nextSecurityToken, nextSecurityToken := SecurityToken.init }

/-- The end of a channel: out of the list, its members cleaned up, its memory
freed. -/
def removeChannel (s : Server) (a : Nat) : Server :=
  let s' := deleteChannelMembers s a
  { s' with
    channels := s'.channels.free a
    secureChannelManager :=
      { s'.secureChannelManager with
        channels := s'.secureChannelManager.channels.erase a
        currentChannelCount := s'.secureChannelManager.currentChannelCount - 1 } }

def expired (now : DateTime) (token : SecurityToken) : Bool :=
  token.createdAt + token.revisedLifetime.toNat * 10000 < now

def cleanupChannel (now : DateTime) (s : Server) (a : Nat) : Server :=
  match s.channels a with
  | none => s
  | some channel =>
      if expired now channel.securityToken ∨ channel.connection = none then removeChannel s a
      else if channel.nextSecurityToken.tokenId > 0 then s.setChannel a revolveTokens
      else s

/-- `UA_SecureChannelManager_cleanupTimedOut` -/
def cleanupChannels (s : Server) (now : DateTime) : Server :=
  s.secureChannelManager.channels.foldl (cleanupChannel now) s

structure OpenRequest where
  requestType : UInt32
  securityMode : UInt32
  requestedLifetime : UInt32
deriving DecidableEq, Repr

/-- A requested lifetime of 0 stands for the longest one. -/
def revisedLifetime (m : SecureChannelManager) (requested : UInt32) : UInt32 :=
  let lifetime := if requested > m.maxChannelLifetime then m.maxChannelLifetime else requested
  if lifetime = 0 then m.maxChannelLifetime else lifetime

def issuedChannel (m : SecureChannelManager) (now : DateTime) (request : OpenRequest) : SecureChannel :=
  { SecureChannel.init with
    securityToken := ⟨m.lastChannelId, m.lastTokenId, now, revisedLifetime m request.requestedLifetime⟩ }

def securityModeNone : UInt32 := 1

/-- `UA_SecureChannelManager_open` -/
def openChannel (env : Environment) (s : Server) (c : Nat) (request : OpenRequest) : StatusCode × Server :=
  let m := s.secureChannelManager
  if request.securityMode ≠ securityModeNone then (badSecurityModeRejected, s)
  else if m.currentChannelCount ≥ m.maxChannelCount then (badOutOfMemory, s)
  else match s.channels.allocate env.newChannel with
    | none => (badOutOfMemory, s)
    | some a =>
        let s' := { s with channels := s.channels.store a (issuedChannel m (env.now 0) request) }
        (good,
          { attachSecureChannel s' c a with
            secureChannelManager :=
              { m with
                channels := a :: m.channels
                currentChannelCount := m.currentChannelCount + 1
                lastChannelId := m.lastChannelId + 1
                lastTokenId := m.lastTokenId + 1 } })

/-- `UA_SecureChannelManager_renew` -/
def renewChannel (env : Environment) (s : Server) (c : Nat) (request : OpenRequest) : StatusCode × Server :=
  match (s.connections c).bind (·.channel) with
  | none => (badInternalError, s)
  | some a =>
      let m := s.secureChannelManager
      match s.channels a with
      | none => (good, s)
      | some channel =>
          if channel.nextSecurityToken.tokenId ≠ 0 then (good, s)
          else
            (good,
              { s.setChannel a (fun x =>
                  { x with
                    nextSecurityToken :=
                      ⟨x.securityToken.channelId, m.lastTokenId, env.now 0,
                        revisedLifetime m request.requestedLifetime⟩ }) with
                secureChannelManager := { m with lastTokenId := m.lastTokenId + 1 } })

def hasChannelId (s : Server) (channelId : UInt32) (a : Nat) : Bool :=
  match s.channels a with
  | none => false
  | some channel => channel.securityToken.channelId == channelId

/-- `UA_SecureChannelManager_close` -/
def closeChannel (s : Server) (channelId : UInt32) : StatusCode × Server :=
  match s.secureChannelManager.channels.find? (hasChannelId s channelId) with
  | none => (badInternalError, s)
  | some a => (good, removeChannel s a)

def issue : UInt32 := 0

def openSecureChannel (env : Environment) (s : Server) (c : Nat) (request : OpenRequest) :
    StatusCode × Server :=
  if request.requestType = issue then openChannel env s c request else renewChannel env s c request

def closeSecureChannel (s : Server) (channelId : UInt32) : Server := (closeChannel s channelId).2

end OpcUa.SecureChannels
