import OpcUa.HandlerSteps
import OpcUa.ServerLinks

namespace OpcUa.ChannelTokens

open StatusCodes NodeIds Connections Heaps Readers Servers SecureChannels Sessions ServiceTable
open MessageHandlers ServerLinks HandlerSteps Relation

def tokens (y : SecureChannel) : SecurityToken × SecurityToken := (y.securityToken, y.nextSecurityToken)

/-- Both servers have the same channels with the same tokens. -/
structure SameTokens (s s' : Server) : Prop where
  channels : ∀ a, (s'.channels a).map tokens = (s.channels a).map tokens
  manager : s'.secureChannelManager = s.secureChannelManager

variable {s s' : Server} {c a i : Nat} {env : Environment}

section Attachments

/-- What a channel keeps while connections and sessions come and go. -/
def unattached (y : SecureChannel) : SecureChannel := { y with connection := none, sessions := [] }

/-- Both servers have the same channels, but for the connections and sessions
on them. -/
structure SameChannels (s s' : Server) : Prop where
  channels : ∀ a, (s'.channels a).map unattached = (s.channels a).map unattached
  manager : s'.secureChannelManager = s.secureChannelManager

theorem SameChannels.refl (s : Server) : SameChannels s s := ⟨fun _ => rfl, rfl⟩

theorem SameChannels.trans {s'' : Server} (h : SameChannels s s') (h' : SameChannels s' s'') : SameChannels s s'' :=
  ⟨fun a => (h'.channels a).trans (h.channels a), h'.manager.trans h.manager⟩

theorem SameChannels.tokens (h : SameChannels s s') : SameTokens s s' :=
  ⟨fun a => map_part (h.channels a) (fun _ => rfl), h.manager⟩

theorem sameChannels_setConnection {f : Connection → Connection} : SameChannels s (s.setConnection c f) :=
  ⟨fun _ => rfl, rfl⟩

theorem sameChannels_setChannel {f : SecureChannel → SecureChannel} (hf : ∀ y, unattached (f y) = unattached y) :
    SameChannels s (s.setChannel a f) := ⟨modify_part _ hf, rfl⟩

theorem sameChannels_of_onlySessions (h : OnlySessions s s') : SameChannels s s' :=
  ⟨h.part unattached (fun _ => rfl), h.manager⟩

theorem sameChannels_detachSecureChannel : SameChannels s (detachSecureChannel s c) := by
  rw [detachSecureChannel]
  split
  · exact sameChannels_setConnection
  · refine .trans ?_ sameChannels_setConnection
    exact sameChannels_setChannel (fun _ => rfl)

theorem sameChannels_attachSecureChannel : SameChannels s (attachSecureChannel s c a) := by
  rw [attachSecureChannel]
  split
  · exact .refl s
  split
  · exact .refl s
  · refine .trans ?_ sameChannels_setConnection
    exact sameChannels_setChannel (fun _ => rfl)

theorem sameChannels_releaseSessions (l : List Nat) (s : Server) : SameChannels s (releaseSessions s l) := by
  induction l generalizing s with
  | nil => exact .refl s
  | cons i l ih =>
      have hset : SameChannels s (s.setSession i (fun x => { x with channel := none })) := ⟨fun _ => rfl, rfl⟩
      exact hset.trans (ih _)

theorem sameChannels_deleteChannelMembers : SameChannels s (deleteChannelMembers s a) := by
  rw [deleteChannelMembers]
  split
  · exact .refl s
  · refine .trans ?_ (sameChannels_setChannel (fun _ => rfl))
    refine .trans ?_ (sameChannels_releaseSessions _ _)
    split
    · exact .refl s
    · exact sameChannels_detachSecureChannel.trans sameChannels_setConnection

end Attachments

section Same

theorem SameTokens.refl (s : Server) : SameTokens s s := ⟨fun _ => rfl, rfl⟩

theorem SameTokens.trans {s'' : Server} (h : SameTokens s s') (h' : SameTokens s' s'') : SameTokens s s'' :=
  ⟨fun a => (h'.channels a).trans (h.channels a), h'.manager.trans h.manager⟩

theorem sameTokens_setConnection {f : Connection → Connection} : SameTokens s (s.setConnection c f) :=
  ⟨fun _ => rfl, rfl⟩

theorem sameTokens_setSession {f : Session → Session} : SameTokens s (s.setSession i f) := ⟨fun _ => rfl, rfl⟩

theorem sameTokens_setChannel {f : SecureChannel → SecureChannel} (hf : ∀ y, tokens (f y) = tokens y) :
    SameTokens s (s.setChannel a f) := ⟨modify_part _ hf, rfl⟩

theorem sameTokens_detachSecureChannel : SameTokens s (detachSecureChannel s c) :=
  sameChannels_detachSecureChannel.tokens

theorem sameTokens_deleteChannelMembers : SameTokens s (deleteChannelMembers s a) :=
  sameChannels_deleteChannelMembers.tokens

theorem sameTokens_of_onlySessions (h : OnlySessions s s') : SameTokens s s' :=
  (sameChannels_of_onlySessions h).tokens

theorem sameTokens_act (h : Act s s') : SameTokens s s' := by
  cases h with
  | connection c f hf => exact sameTokens_setConnection
  | sequenceNumber a => exact sameTokens_setChannel (fun _ => rfl)
  | lifetime now i => exact sameTokens_setSession
  | createSession env channel requested =>
      exact sameTokens_of_onlySessions (onlySessions_createSession channel requested)
  | activateSession env a y token identity hy =>
      exact sameTokens_of_onlySessions (onlySessions_activateSession token identity)
  | closeSession i => exact sameTokens_of_onlySessions onlySessions_closeSession

theorem sameTokens_acts (h : Acts s s') : SameTokens s s' := by
  induction h with
  | refl => exact .refl s
  | tail _ hact ih => exact ih.trans (sameTokens_act hact)

end Same

section Keeping

/-- The token that waits to replace the token of the channel. -/
def slot (s : Server) (a : Nat) : Option SecurityToken := (s.channels a).map (·.nextSecurityToken)

def Listed (s : Server) : Prop := ∀ {a y}, s.channels a = some y → a ∈ s.secureChannelManager.channels

/-- No token is put into a slot, and no channel gets lost. -/
structure Keeps (s s' : Server) : Prop where
  slots : ∀ {a token}, slot s' a = some token → token ≠ SecurityToken.init → slot s a = some token
  listed : Listed s → Listed s'
  lifetime : s'.secureChannelManager.maxChannelLifetime = s.secureChannelManager.maxChannelLifetime

theorem Keeps.refl (s : Server) : Keeps s s := ⟨fun h _ => h, id, rfl⟩

theorem Keeps.trans {s'' : Server} (h : Keeps s s') (h' : Keeps s' s'') : Keeps s s'' :=
  ⟨fun hslot hne => h.slots (h'.slots hslot hne) hne, h'.listed ∘ h.listed, h'.lifetime.trans h.lifetime⟩

theorem SameTokens.slot_eq (h : SameTokens s s') (a : Nat) : slot s' a = slot s a := by
  have hsame := congrArg (Option.map Prod.snd) (h.channels a)
  rw [Option.map_map, Option.map_map] at hsame
  exact hsame

theorem SameTokens.keeps (h : SameTokens s s') : Keeps s s' := by
  refine ⟨?_, ?_, by rw [h.manager]⟩
  · intro a token hslot _
    rw [h.slot_eq] at hslot
    exact hslot
  · intro hlisted a y hy
    obtain ⟨y', hy', _⟩ := map_eq_some_of (h.channels a) hy
    rw [h.manager]
    exact hlisted hy'

theorem keeps_revolve : Keeps s (s.setChannel a revolveTokens) := by
  refine ⟨?_, ?_, rfl⟩
  · intro a' token hslot hne
    obtain ⟨y, hy, rfl⟩ := Option.map_eq_some_iff.mp hslot
    rw [Server.setChannel_channels, modify_eq_some] at hy
    rcases hy with ⟨rfl, x, hx, rfl⟩ | ⟨_, hy⟩
    · rw [revolveTokens] at hne ⊢
      split at hne
      · rw [if_pos ‹_›]
        exact Option.map_eq_some_iff.mpr ⟨x, hx, rfl⟩
      · exact absurd rfl hne
    · exact Option.map_eq_some_iff.mpr ⟨y, hy, rfl⟩
  · intro hlisted a' y hy
    rw [Server.setChannel_channels, modify_eq_some] at hy
    rcases hy with ⟨rfl, x, hx, _⟩ | ⟨_, hy⟩
    · exact hlisted hx
    · exact hlisted hy

theorem keeps_removeChannel : Keeps s (removeChannel s a) := by
  refine .trans (sameTokens_deleteChannelMembers (a := a)).keeps ?_
  refine ⟨?_, ?_, rfl⟩
  · intro a' token hslot _
    obtain ⟨y, hy, rfl⟩ := Option.map_eq_some_iff.mp hslot
    exact Option.map_eq_some_iff.mpr ⟨y, (free_eq_some.mp hy).2, rfl⟩
  · intro hlisted a' y hy
    obtain ⟨hne, hy⟩ := free_eq_some.mp hy
    exact (List.mem_erase_of_ne hne).mpr (hlisted hy)

theorem keeps_closeSecureChannel (channelId : UInt32) : Keeps s (closeSecureChannel s channelId) := by
  rw [closeSecureChannel, closeChannel]
  split
  · exact .refl s
  · exact keeps_removeChannel

theorem keeps_cleanupChannels (now : DateTime) (s : Server) : Keeps s (cleanupChannels s now) := by
  have hfold : ∀ (l : List Nat) (s : Server), Keeps s (l.foldl (cleanupChannel now) s) := by
    intro l
    induction l with
    | nil => exact Keeps.refl
    | cons a l ih =>
        intro s
        refine .trans ?_ (ih (cleanupChannel now s a))
        rw [cleanupChannel]
        split
        · exact .refl s
        split
        · exact keeps_removeChannel
        split
        · exact keeps_revolve
        · exact .refl s
  exact hfold _ s

variable {closing : Prop}

theorem sameTokens_of_op (hop : Op closing s s') :
    SameTokens s s' ∨ (∃ a, s' = s.setChannel a revolveTokens) ∨
      closing ∧ ∃ channelId, s' = closeSecureChannel s channelId := by
  cases hop with
  | connection c f hf => exact .inl (sameTokens_act (.connection s c f hf))
  | sequenceNumber a => exact .inl (sameTokens_act (.sequenceNumber s a))
  | revolve a => exact .inr (.inl ⟨a, rfl⟩)
  | closeChannel channelId hclosing => exact .inr (.inr ⟨hclosing, channelId, rfl⟩)
  | lifetime now i => exact .inl (sameTokens_act (.lifetime s now i))
  | createSession env channel requested => exact .inl (sameTokens_act (.createSession s env channel requested))
  | activateSession env a y token identity hy =>
      exact .inl (sameTokens_act (.activateSession s env a y token identity hy))
  | closeSession i => exact .inl (sameTokens_act (.closeSession s i))

theorem keeps_ops (hops : Ops closing s s') : Keeps s s' := by
  induction hops with
  | refl => exact .refl s
  | tail _ hop ih =>
      refine ih.trans ?_
      rcases sameTokens_of_op hop with hsame | ⟨a, rfl⟩ | ⟨_, channelId, rfl⟩
      · exact hsame.keeps
      · exact keeps_revolve
      · exact keeps_closeSecureChannel channelId

def renewedToken (m : SecureChannelManager) (env : Environment) (request : OpenRequest) (y : SecureChannel) :
    SecurityToken :=
  ⟨y.securityToken.channelId, m.lastTokenId, env.now 0, revisedLifetime m request.requestedLifetime⟩

theorem keeps_openChannel (env : Environment) (s : Server) (c : Nat) (request : OpenRequest) :
    Keeps s (openChannel env s c request).2 := by
  rw [openChannel]
  dsimp only
  split
  · exact .refl s
  split
  · exact .refl s
  split
  · exact .refl s
  · rename_i a ha
    have hattached := sameChannels_attachSecureChannel (c := c) (a := a)
      (s := { s with channels := s.channels.store a (issuedChannel s.secureChannelManager (env.now 0) request) })
    have hsame := hattached.tokens
    refine ⟨?_, ?_, rfl⟩
    · intro a' token hslot hne
      replace hslot := (hsame.slot_eq a').symm.trans hslot
      obtain ⟨y, hy, rfl⟩ := Option.map_eq_some_iff.mp hslot
      rcases store_eq_some.mp hy with ⟨_, rfl⟩ | ⟨_, hy⟩
      · exact absurd rfl hne
      · exact Option.map_eq_some_iff.mpr ⟨y, hy, rfl⟩
    · intro hlisted a' y hy
      obtain ⟨y', hy', _⟩ := map_eq_some_of (hsame.channels a') hy
      rcases store_eq_some.mp hy' with ⟨rfl, _⟩ | ⟨_, hy'⟩
      · exact List.mem_cons_self
      · exact List.mem_cons_of_mem _ (hlisted hy')

theorem renewChannel_cases (env : Environment) (s : Server) (c : Nat) (request : OpenRequest) :
    (renewChannel env s c request).2 = s ∨
      ∃ a y, connectionChannel s c = some a ∧ s.channels a = some y ∧ y.nextSecurityToken.tokenId = 0 ∧
        (renewChannel env s c request).2.channels = s.channels.modify a (fun x =>
          { x with nextSecurityToken := renewedToken s.secureChannelManager env request x }) ∧
        (renewChannel env s c request).2.secureChannelManager.channels = s.secureChannelManager.channels ∧
        (renewChannel env s c request).2.secureChannelManager.maxChannelLifetime =
          s.secureChannelManager.maxChannelLifetime := by
  rw [renewChannel]
  split
  · exact .inl rfl
  · rename_i a ha
    dsimp only
    split
    · exact .inl rfl
    · rename_i y hy
      split
      · exact .inl rfl
      · rename_i hnone
        exact .inr ⟨a, y, ha, hy, not_not.mp hnone, rfl, rfl, rfl⟩

variable {request : OpenRequest}

theorem listed_openSecureChannel (h : Listed s) : Listed (openSecureChannel env s c request).2 := by
  rw [openSecureChannel]
  split
  · exact (keeps_openChannel env s c request).listed h
  · rcases renewChannel_cases env s c request with hsame | ⟨a, y, _, _, _, hchannels, hlist, _⟩
    · rw [hsame]
      exact h
    · intro a' y' hy'
      rw [hlist]
      rw [hchannels, modify_eq_some] at hy'
      rcases hy' with ⟨rfl, x, hx, _⟩ | ⟨_, hy'⟩
      · exact h hx
      · exact h hy'

theorem lifetime_openSecureChannel :
    (openSecureChannel env s c request).2.secureChannelManager.maxChannelLifetime =
      s.secureChannelManager.maxChannelLifetime := by
  rw [openSecureChannel]
  split
  · exact (keeps_openChannel env s c request).lifetime
  · rcases renewChannel_cases env s c request with hsame | ⟨a, y, _, _, _, _, _, hlifetime⟩
    · rw [hsame]
    · exact hlifetime

theorem slot_openSecureChannel {token : SecurityToken}
    (hslot : slot (openSecureChannel env s c request).2 a = some token) (hne : token ≠ SecurityToken.init) :
    slot s a = some token ∨
      request.requestType ≠ issue ∧ connectionChannel s c = some a ∧
        ∃ y, s.channels a = some y ∧ y.nextSecurityToken.tokenId = 0 ∧
          token = renewedToken s.secureChannelManager env request y := by
  rw [openSecureChannel] at hslot
  split at hslot
  · exact .inl ((keeps_openChannel env s c request).slots hslot hne)
  · rename_i hrenew
    rcases renewChannel_cases env s c request with hsame | ⟨a', y, hconnection, hy, hnone, hchannels, _⟩
    · rw [hsame] at hslot
      exact .inl hslot
    · obtain ⟨y', hy', rfl⟩ := Option.map_eq_some_iff.mp hslot
      rw [hchannels, modify_eq_some] at hy'
      rcases hy' with ⟨rfl, x, hx, rfl⟩ | ⟨_, hy'⟩
      · rw [hy] at hx
        obtain rfl := Option.some.inj hx
        exact .inr ⟨hrenew, hconnection, y, hy, hnone, rfl⟩
      · exact .inl (Option.map_eq_some_iff.mpr ⟨y', hy', rfl⟩)

end Keeping

end OpcUa.ChannelTokens
