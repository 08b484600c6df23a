import OpcUa.ChannelConnections

namespace OpcUa.ManagerLists

open StatusCodes NodeIds Connections Heaps Readers Servers SecureChannels Sessions ServiceTable
open MessageHandlers ServerLinks LinkedOperations HandlerSteps SessionGating
open ChannelTokens ChannelConnections Relation

/-- The manager lists the channels, each one once, and counts them. -/
structure ChannelsCounted (s : Server) : Prop where
  nodup : s.secureChannelManager.channels.Nodup
  listed : ∀ a, a ∈ s.secureChannelManager.channels ↔ (s.channels a).isSome = true
  count : s.secureChannelManager.currentChannelCount = s.secureChannelManager.channels.length
  room : s.secureChannelManager.currentChannelCount ≤ s.secureChannelManager.maxChannelCount

structure SessionsCounted (s : Server) : Prop where
  nodup : s.sessionManager.sessions.Nodup
  listed : ∀ i, i ∈ s.sessionManager.sessions ↔ (s.sessions i).isSome = true
  count : s.sessionManager.currentSessionCount.toNat = s.sessionManager.sessions.length
  room : s.sessionManager.currentSessionCount ≤ s.sessionManager.maxSessionCount

variable {b : Build} {s s' : Server} {e : Event} {c a i : Nat} {env : Environment} {request : OpenRequest}

section Channels

theorem ChannelsCounted.congr (h : ChannelsCounted s) (hsame : SameTokens s s') : ChannelsCounted s' := by
  have hmanager := hsame.manager
  refine ⟨by rw [hmanager]; exact h.nodup, fun a => ?_, by rw [hmanager]; exact h.count,
    by rw [hmanager]; exact h.room⟩
  have hsome := congrArg Option.isSome (hsame.channels a)
  rw [Option.isSome_map, Option.isSome_map] at hsome
  rw [hmanager, hsome]
  exact h.listed a

theorem isSome_modify {α : Type} {h : Heap α} {f : α → α} {k : Nat} (j : Nat) :
    (h.modify k f j).isSome = (h j).isSome := by
  by_cases hj : j = k
  · subst hj
    rw [modify_self, Option.isSome_map]
  · rw [modify_of_ne hj]

theorem channelsCounted_setChannel (h : ChannelsCounted s) {f : SecureChannel → SecureChannel} :
    ChannelsCounted (s.setChannel a f) := by
  refine ⟨h.nodup, fun a' => ?_, h.count, h.room⟩
  rw [Server.setChannel_channels, isSome_modify]
  exact h.listed a'

theorem channelsCounted_removeChannel (h : ChannelsCounted s) {y : SecureChannel} (hy : s.channels a = some y) :
    ChannelsCounted (removeChannel s a) := by
  have hsame : SameTokens s (deleteChannelMembers s a) := sameTokens_deleteChannelMembers
  have hd := h.congr hsame
  have hmem : a ∈ (deleteChannelMembers s a).secureChannelManager.channels := by
    rw [hsame.manager, h.listed, hy]
    rfl
  rw [removeChannel]
  refine ⟨hd.nodup.erase a, fun a' => ?_, ?_, ?_⟩
  · dsimp only
    rw [hd.nodup.mem_erase_iff, hd.listed]
    by_cases ha : a' = a <;> simp [Heap.free, ha]
  · dsimp only
    rw [List.length_erase_of_mem hmem, hd.count]
  · dsimp only
    exact Nat.le_trans (Nat.sub_le _ _) hd.room

theorem channelsCounted_closeSecureChannel (h : ChannelsCounted s) (channelId : UInt32) :
    ChannelsCounted (closeSecureChannel s channelId) := by
  rw [closeSecureChannel, closeChannel]
  split
  · exact h
  · rename_i a ha
    have hsome := (h.listed a).mp (List.mem_of_find?_eq_some ha)
    obtain ⟨y, hy⟩ := Option.isSome_iff_exists.mp hsome
    exact channelsCounted_removeChannel h hy

theorem channelsCounted_cleanupChannels (now : DateTime) (h : ChannelsCounted s) :
    ChannelsCounted (cleanupChannels s now) := by
  rw [cleanupChannels]
  generalize s.secureChannelManager.channels = l
  induction l generalizing s with
  | nil => exact h
  | cons a l ih =>
      apply ih
      rw [cleanupChannel]
      split
      · exact h
      rename_i y hy
      split
      · exact channelsCounted_removeChannel h hy
      split
      · exact channelsCounted_setChannel h
      · exact h

theorem channelsCounted_openSecureChannel (h : ChannelsCounted s) :
    ChannelsCounted (openSecureChannel env s c request).2 := by
  rw [openSecureChannel]
  split
  · rename_i hissue
    rcases openChannel_cases env s c request hissue with ⟨_, hsame⟩ | ⟨hgrants, a, hfree, hopened⟩
    · rw [hsame]
      exact h
    · have hnew : a ∉ s.secureChannelManager.channels := by
        rw [h.listed, hfree]
        exact Bool.false_ne_true
      rw [hopened]
      refine ⟨List.nodup_cons.mpr ⟨hnew, h.nodup⟩, fun a' => ?_, ?_, hgrants.2.2.1⟩
      · dsimp only [Opened]
        rw [List.mem_cons, h.listed]
        by_cases ha : a' = a <;> simp [Heap.store, ha]
      · dsimp only [Opened]
        rw [List.length_cons, h.count]
  · rw [renewChannel]
    split
    · exact h
    dsimp only
    split
    · exact h
    split
    · exact h
    · refine ⟨h.nodup, fun a' => ?_, h.count, h.room⟩
      rw [Server.setChannel_channels, isSome_modify]
      exact h.listed a'

theorem channelsCounted_step (hlinked : Linked s) (h : ChannelsCounted s) (e : Event) :
    ChannelsCounted (step b s e) := by
  cases e with
  | connect c connection =>
      rw [step, connect]
      split
      · exact ⟨h.nodup, h.listed, h.count, h.room⟩
      · exact h
  | detach c => exact h.congr sameTokens_detachSecureChannel
  | free c => exact ⟨h.nodup, h.listed, h.count, h.room⟩
  | message c env st =>
      rw [step]
      rcases pass_cases b env c st hlinked with
        hacts | ⟨channelId, hacts⟩ | ⟨st', a, _, _, hacts⟩ | ⟨st', _, hopn⟩
      · exact h.congr (sameTokens_acts hacts)
      · exact (channelsCounted_closeSecureChannel h channelId).congr (sameTokens_acts hacts)
      · exact (channelsCounted_setChannel h).congr (sameTokens_acts hacts)
      · rw [hopn]
        rcases processOPN_cases b env s c st' with hclose | ⟨r, st'', _, _, _, hacts⟩
        · rw [hclose]
          exact h.congr sameTokens_setConnection
        · exact (channelsCounted_openSecureChannel h).congr (sameTokens_acts hacts)
  | cleanup now =>
      have hsessions : ChannelsCounted (cleanupSessions s now) :=
        h.congr (sameTokens_of_onlySessions (onlySessions_cleanupSessions now s))
      exact channelsCounted_cleanupChannels now hsessions

end Channels

section Sessions

structure SameSessions (s s' : Server) : Prop where
  sessions : ∀ i, (s'.sessions i).isSome = (s.sessions i).isSome
  manager : s'.sessionManager = s.sessionManager

theorem SameSessions.refl (s : Server) : SameSessions s s := ⟨fun _ => rfl, rfl⟩

theorem SameSessions.trans {s'' : Server} (h : SameSessions s s') (h' : SameSessions s' s'') :
    SameSessions s s'' :=
  ⟨fun i => (h'.sessions i).trans (h.sessions i), h'.manager.trans h.manager⟩

theorem SessionsCounted.congr (h : SessionsCounted s) (hsame : SameSessions s s') : SessionsCounted s' := by
  have hmanager := hsame.manager
  refine ⟨by rw [hmanager]; exact h.nodup, fun i => ?_, by rw [hmanager]; exact h.count,
    by rw [hmanager]; exact h.room⟩
  rw [hmanager, hsame.sessions]
  exact h.listed i

theorem sameSessions_setSession {f : Session → Session} : SameSessions s (s.setSession i f) :=
  ⟨isSome_modify, rfl⟩

theorem sameSessions_setChannel {f : SecureChannel → SecureChannel} : SameSessions s (s.setChannel a f) :=
  ⟨fun _ => rfl, rfl⟩

theorem sameSessions_setConnection {f : Connection → Connection} : SameSessions s (s.setConnection c f) :=
  ⟨fun _ => rfl, rfl⟩

theorem sameSessions_detachSession : SameSessions s (detachSession s a i) :=
  sameSessions_setSession.trans sameSessions_setChannel

theorem sameSessions_attachSession {entry : Bool} : SameSessions s (attachSession entry s a i) := by
  rw [attachSession]
  split
  · exact .refl s
  split
  · exact .refl s
  · exact sameSessions_setSession.trans sameSessions_setChannel

theorem sameSessions_activateSession (token : NodeId) (identity : IdentityToken) :
    SameSessions s (activateSession env s a token identity).2 := by
  rw [activateSession]
  split
  · exact .refl s
  split
  · exact .refl s
  split
  · exact .refl s
  split
  · exact .refl s
  · refine .trans ?_ sameSessions_setSession
    refine .trans ?_ sameSessions_setSession
    refine .trans ?_ sameSessions_attachSession
    split
    · exact .refl s
    split
    · exact sameSessions_detachSession
    · exact .refl s

theorem sameSessions_removeChannel : SameSessions s (removeChannel s a) := by
  cases hy : s.channels a with
  | none =>
      obtain ⟨_, _, hsessions, hmanager⟩ := removeChannel_of_none hy
      exact ⟨fun i => by rw [hsessions], hmanager⟩
  | some y =>
      obtain ⟨_, _, hsessions, hmanager⟩ := removeChannel_spec hy
      refine ⟨fun i => ?_, hmanager⟩
      rw [hsessions]
      split
      · rw [Option.isSome_map]
      · rfl

theorem sameSessions_closeSecureChannel (channelId : UInt32) : SameSessions s (closeSecureChannel s channelId) := by
  rw [closeSecureChannel, closeChannel]
  split
  · exact .refl s
  · exact sameSessions_removeChannel

theorem sameSessions_cleanupChannels (now : DateTime) (s : Server) : SameSessions s (cleanupChannels s now) := by
  rw [cleanupChannels]
  generalize s.secureChannelManager.channels = l
  induction l generalizing s with
  | nil => exact .refl s
  | cons a l ih =>
      refine .trans ?_ (ih (cleanupChannel now s a))
      rw [cleanupChannel]
      split
      · exact .refl s
      split
      · exact sameSessions_removeChannel
      split
      · exact sameSessions_setChannel
      · exact .refl s

theorem sameSessions_openSecureChannel : SameSessions s (openSecureChannel env s c request).2 := by
  rw [openSecureChannel]
  split
  · rename_i hissue
    rcases openChannel_cases env s c request hissue with ⟨_, hsame⟩ | ⟨_, a, _, hopened⟩
    · rw [hsame]
      exact .refl s
    · rw [hopened]
      exact ⟨fun _ => rfl, rfl⟩
  · rw [renewChannel]
    split
    · exact .refl s
    dsimp only
    split
    · exact .refl s
    split
    · exact .refl s
    · exact ⟨fun _ => rfl, rfl⟩

theorem sessionsCounted_freeSession (h : SessionsCounted s) {x : Session} (hx : s.sessions i = some x) :
    SessionsCounted (freeSession s i) := by
  have hsame : SameSessions s (deleteSessionMembers s i) := by
    rw [deleteSessionMembers]
    split
    · exact .refl s
    · exact sameSessions_detachSession
  have hd := h.congr hsame
  have hmem : i ∈ (deleteSessionMembers s i).sessionManager.sessions := by
    rw [hsame.manager, h.listed, hx]
    rfl
  have hpos : 0 < (deleteSessionMembers s i).sessionManager.sessions.length := List.length_pos_of_mem hmem
  have hone : (1 : UInt32) ≤ (deleteSessionMembers s i).sessionManager.currentSessionCount := by
    rw [UInt32.le_iff_toNat_le, hd.count]
    exact hpos
  rw [freeSession]
  refine ⟨hd.nodup.erase i, fun j => ?_, ?_, ?_⟩
  · dsimp only
    rw [hd.nodup.mem_erase_iff, hd.listed]
    by_cases hj : j = i <;> simp [Heap.free, hj]
  · dsimp only
    rw [List.length_erase_of_mem hmem, UInt32.toNat_sub_of_le _ _ hone, hd.count]
    rfl
  · dsimp only
    have hroom := hd.room
    rw [UInt32.le_iff_toNat_le] at hroom ⊢
    rw [UInt32.toNat_sub_of_le _ _ hone]
    exact Nat.le_trans (Nat.sub_le _ _) hroom

theorem sessionsCounted_removeSession (h : SessionsCounted s) (token : NodeId) :
    SessionsCounted (removeSession s token).2 := by
  rw [removeSession]
  split
  · exact h
  · rename_i i hi
    have hsome := (h.listed i).mp (List.mem_of_find?_eq_some hi)
    obtain ⟨x, hx⟩ := Option.isSome_iff_exists.mp hsome
    exact sessionsCounted_freeSession h hx

theorem sessionsCounted_cleanupSessions (now : DateTime) (h : SessionsCounted s) :
    SessionsCounted (cleanupSessions s now) := by
  rw [cleanupSessions]
  generalize s.sessionManager.sessions = l
  induction l generalizing s with
  | nil => exact h
  | cons i l ih =>
      apply ih
      rw [cleanupSession]
      split
      · exact h
      rename_i x hx
      split
      · exact sessionsCounted_freeSession h hx
      · exact h

theorem sessionsCounted_createManagedSession (h : SessionsCounted s) {requested : UInt64}
    (hcreated : createManagedSession env s requested = .ok (i, s')) : SessionsCounted s' := by
  rw [createManagedSession] at hcreated
  split at hcreated
  · cases hcreated
  rename_i hroom
  split at hcreated
  · cases hcreated
  · rename_i j hj
    obtain ⟨rfl, rfl⟩ := Prod.mk.inj (Except.ok.inj hcreated)
    have hnew : j ∉ s.sessionManager.sessions := by
      rw [h.listed, (allocate_eq_some.mp hj).2]
      exact Bool.false_ne_true
    have hlt : s.sessionManager.currentSessionCount.toNat < s.sessionManager.maxSessionCount.toNat := by
      rw [ge_iff_le, UInt32.le_iff_toNat_le] at hroom
      exact Nat.not_le.mp hroom
    have hbound := s.sessionManager.maxSessionCount.toNat_lt
    have hnext : (s.sessionManager.currentSessionCount + 1).toNat =
        s.sessionManager.currentSessionCount.toNat + 1 := by
      rw [UInt32.toNat_add]
      exact Nat.mod_eq_of_lt (by simp; omega)
    refine ⟨List.nodup_cons.mpr ⟨hnew, h.nodup⟩, fun k => ?_, ?_, ?_⟩
    · dsimp only
      rw [List.mem_cons, h.listed]
      by_cases hk : k = j <;> simp [Heap.store, hk]
    · dsimp only
      rw [hnext, List.length_cons, h.count]
    · dsimp only
      rw [UInt32.le_iff_toNat_le, hnext]
      exact hlt

theorem sessionsCounted_createSession (h : SessionsCounted s) (channel : Option Nat) (requested : UInt64) :
    SessionsCounted (createSession env s channel requested).2 := by
  rw [createSession]
  split
  · exact h
  split
  · exact h
  split
  · exact h
  · rename_i i s' hcreated
    have hs' := sessionsCounted_createManagedSession h hcreated
    split
    · exact hs'
    split
    · exact hs'
    · exact sessionsCounted_removeSession hs' _

theorem sessionsCounted_act (h : SessionsCounted s) (hact : Act s s') : SessionsCounted s' := by
  cases hact with
  | connection c f hf => exact h.congr sameSessions_setConnection
  | sequenceNumber a => exact h.congr sameSessions_setChannel
  | lifetime now i => exact h.congr sameSessions_setSession
  | createSession env channel requested => exact sessionsCounted_createSession h channel requested
  | activateSession env a y token identity hy => exact h.congr (sameSessions_activateSession token identity)
  | closeSession i =>
      rw [closeSession]
      split
      · exact h
      · exact sessionsCounted_removeSession h _

theorem sessionsCounted_acts (h : SessionsCounted s) (hacts : Acts s s') : SessionsCounted s' := by
  induction hacts with
  | refl => exact h
  | tail _ hact ih => exact sessionsCounted_act ih hact

theorem sessionsCounted_step (hlinked : Linked s) (h : SessionsCounted s) (e : Event) :
    SessionsCounted (step b s e) := by
  cases e with
  | connect c connection =>
      rw [step, connect]
      split
      · exact h.congr ⟨fun _ => rfl, rfl⟩
      · exact h
  | detach c => exact h.congr ⟨fun i => by rw [step, detach_sessions], detach_manager⟩
  | free c => exact h.congr ⟨fun _ => rfl, rfl⟩
  | message c env st =>
      rw [step]
      rcases pass_cases b env c st hlinked with
        hacts | ⟨channelId, hacts⟩ | ⟨st', a, _, _, hacts⟩ | ⟨st', _, hopn⟩
      · exact sessionsCounted_acts h hacts
      · exact sessionsCounted_acts (h.congr (sameSessions_closeSecureChannel channelId)) hacts
      · exact sessionsCounted_acts (h.congr sameSessions_setChannel) hacts
      · rw [hopn]
        rcases processOPN_cases b env s c st' with hclose | ⟨r, st'', _, _, _, hacts⟩
        · rw [hclose]
          exact h.congr sameSessions_setConnection
        · exact sessionsCounted_acts (h.congr sameSessions_openSecureChannel) hacts
  | cleanup now =>
      exact (sessionsCounted_cleanupSessions now h).congr (sameSessions_cleanupChannels now _)

end Sessions

/-- Sessions and channels point to each other, and the managers count them. -/
structure Bookkeeping (s : Server) : Prop where
  attached : ∀ i x a y, s.sessions i = some x → s.channels a = some y →
    (x.channel = some a ↔ i ∈ y.sessions)
  live : ∀ i x a, s.sessions i = some x → x.channel = some a → (s.channels a).isSome = true
  once : ∀ a y i, s.channels a = some y → i ∈ y.sessions → y.sessions.count i = 1
  managed : ∀ a y i, s.channels a = some y → i ∈ y.sessions →
    (s.sessions i).isSome = true ∧ i ∈ s.sessionManager.sessions
  sessionCount : s.sessionManager.currentSessionCount.toNat = s.sessionManager.sessions.length ∧
    s.sessionManager.currentSessionCount ≤ s.sessionManager.maxSessionCount
  channelCount : s.secureChannelManager.currentChannelCount = s.secureChannelManager.channels.length ∧
    s.secureChannelManager.currentChannelCount ≤ s.secureChannelManager.maxChannelCount

theorem Linked.bookkeeping (h : Linked s) (hsessions : SessionsCounted s) (hchannels : ChannelsCounted s) :
    Bookkeeping s := by
  refine ⟨?_, ?_, ?_, ?_, ⟨hsessions.count, hsessions.room⟩, ⟨hchannels.count, hchannels.room⟩⟩
  · intro i x a y hx hy
    exact ⟨fun ha => h.mem_sessions hx ha hy, fun hi => h.session_channel hy hi hx⟩
  · intro i x a hx ha
    obtain ⟨y, hy, _⟩ := h.known hx ha
    rw [hy]
    rfl
  · intro a y i hy hi
    exact List.count_eq_one_of_mem (h.nodup hy) hi
  · intro a y i hy hi
    obtain ⟨x, hx, _⟩ := h.attached hy hi
    refine ⟨by rw [hx]; rfl, h.managed hx⟩

theorem counted_run (config : Config) (events : List Event) :
    SessionsCounted (run b (newServer config) events) ∧ ChannelsCounted (run b (newServer config) events) := by
  induction events using List.reverseRecOn with
  | nil =>
      refine ⟨⟨List.nodup_nil, fun i => ?_, rfl, ?_⟩, ⟨List.nodup_nil, fun a => ?_, rfl, Nat.zero_le _⟩⟩
      · exact ⟨fun hmem => absurd hmem List.not_mem_nil, fun hsome => absurd hsome Bool.false_ne_true⟩
      · exact UInt32.zero_le
      · exact ⟨fun hmem => absurd hmem List.not_mem_nil, fun hsome => absurd hsome Bool.false_ne_true⟩
  | append_singleton events e ih =>
      rw [run_concat]
      exact ⟨sessionsCounted_step (linked_run config events) ih.1 e,
        channelsCounted_step (linked_run config events) ih.2 e⟩

/-- The books are in order after every run. -/
theorem bookkeeping_run (b : Build) (config : Config) (events : List Event) :
    Bookkeeping (run b (newServer config) events) := by
  obtain ⟨hsessions, hchannels⟩ := counted_run (b := b) config events
  exact Linked.bookkeeping (linked_run config events) hsessions hchannels

end OpcUa.ManagerLists
