import OpcUa.Sessions

namespace OpcUa.ServerLinks

open StatusCodes NodeIds Connections Heaps Servers SecureChannels Sessions

section Links

/-- The pointers between connections, channels and sessions. A connection
points to a channel that points back, and a session is in the list of a
channel, once, if and only if it points to the channel. -/
structure Linked (s : Server) : Prop where
  connected : ∀ {c x a}, s.connections c = some x → x.channel = some a →
    ∃ y, s.channels a = some y ∧ y.connection = some c
  attached : ∀ {a y i}, s.channels a = some y → i ∈ y.sessions →
    ∃ x, s.sessions i = some x ∧ x.channel = some a
  known : ∀ {i x a}, s.sessions i = some x → x.channel = some a →
    ∃ y, s.channels a = some y ∧ i ∈ y.sessions
  nodup : ∀ {a y}, s.channels a = some y → y.sessions.Nodup
  managed : ∀ {i x}, s.sessions i = some x → i ∈ s.sessionManager.sessions

def links (x : SecureChannel) : Option Nat × List Nat := (x.connection, x.sessions)

/-- Both servers have the same objects with the same pointers. -/
structure SameLinks (s s' : Server) : Prop where
  connections : ∀ c, (s'.connections c).map (·.channel) = (s.connections c).map (·.channel)
  channels : ∀ a, (s'.channels a).map links = (s.channels a).map links
  sessions : ∀ i, (s'.sessions i).map (·.channel) = (s.sessions i).map (·.channel)
  manager : s'.sessionManager.sessions = s.sessionManager.sessions

variable {s s' : Server} {c a i : Nat}

theorem SameLinks.refl (s : Server) : SameLinks s s := ⟨fun _ => rfl, fun _ => rfl, fun _ => rfl, rfl⟩

theorem map_eq_some_of {α β : Type} {part : α → β} {o o' : Option α} (h : o'.map part = o.map part)
    {x : α} (hx : o' = some x) : ∃ y, o = some y ∧ part y = part x := by
  rw [hx, Option.map_some] at h
  obtain ⟨y, hy, hpart⟩ := Option.map_eq_some_iff.mp h.symm
  exact ⟨y, hy, hpart⟩

theorem SameLinks.symm (h : SameLinks s s') : SameLinks s' s :=
  ⟨fun c => (h.connections c).symm, fun a => (h.channels a).symm, fun i => (h.sessions i).symm,
    h.manager.symm⟩

theorem Linked.congr (h : Linked s) (hsame : SameLinks s s') : Linked s' := by
  have hback := hsame.symm
  constructor
  · intro c x a hx ha
    obtain ⟨x', hx', hpart⟩ := map_eq_some_of (hsame.connections c) hx
    obtain ⟨y, hy, hc⟩ := h.connected hx' (hpart.trans ha)
    obtain ⟨y', hy', hlinks⟩ := map_eq_some_of (hback.channels a) hy
    exact ⟨y', hy', (congrArg Prod.fst hlinks).trans hc⟩
  · intro a y i hy hi
    obtain ⟨y', hy', hlinks⟩ := map_eq_some_of (hsame.channels a) hy
    have hlist : y'.sessions = y.sessions := congrArg Prod.snd hlinks
    obtain ⟨x, hx, ha⟩ := h.attached hy' (by rw [hlist]; exact hi)
    obtain ⟨x', hx', hpart⟩ := map_eq_some_of (hback.sessions i) hx
    exact ⟨x', hx', hpart.trans ha⟩
  · intro i x a hx ha
    obtain ⟨x', hx', hpart⟩ := map_eq_some_of (hsame.sessions i) hx
    obtain ⟨y, hy, hi⟩ := h.known hx' (hpart.trans ha)
    obtain ⟨y', hy', hlinks⟩ := map_eq_some_of (hback.channels a) hy
    have hlist : y'.sessions = y.sessions := congrArg Prod.snd hlinks
    exact ⟨y', hy', by rw [hlist]; exact hi⟩
  · intro a y hy
    obtain ⟨y', hy', hlinks⟩ := map_eq_some_of (hsame.channels a) hy
    have hlist : y'.sessions = y.sessions := congrArg Prod.snd hlinks
    rw [← hlist]
    exact h.nodup hy'
  · intro i x hx
    obtain ⟨x', hx', _⟩ := map_eq_some_of (hsame.sessions i) hx
    rw [hsame.manager]
    exact h.managed hx'

theorem sameLinks_setConnection {f : Connection → Connection} (hf : ∀ x, (f x).channel = x.channel) :
    SameLinks s (s.setConnection c f) :=
  ⟨modify_part _ hf, fun _ => rfl, fun _ => rfl, rfl⟩

theorem sameLinks_setChannel {f : SecureChannel → SecureChannel} (hf : ∀ x, links (f x) = links x) :
    SameLinks s (s.setChannel a f) :=
  ⟨fun _ => rfl, modify_part _ hf, fun _ => rfl, rfl⟩

theorem sameLinks_setSession {f : Session → Session} (hf : ∀ x, (f x).channel = x.channel) :
    SameLinks s (s.setSession i f) :=
  ⟨fun _ => rfl, fun _ => rfl, modify_part _ hf, rfl⟩

theorem sameLinks_close : SameLinks s (close s c) := sameLinks_setConnection (fun _ => rfl)

theorem sameLinks_updateLifetime {now : DateTime} : SameLinks s (updateLifetime now s i) :=
  sameLinks_setSession (fun _ => rfl)

theorem links_revolveTokens (x : SecureChannel) : links (revolveTokens x) = links x := by
  rw [revolveTokens]
  split <;> rfl

theorem Linked.connection_unique (h : Linked s) {x : Connection} {y : SecureChannel}
    (hx : s.connections c = some x) (ha : x.channel = some a) (hy : s.channels a = some y) :
    y.connection = some c := by
  obtain ⟨y', hy', hc⟩ := h.connected hx ha
  rw [hy] at hy'
  obtain rfl := Option.some.inj hy'
  exact hc

theorem Linked.session_channel (h : Linked s) {x : Session} {y : SecureChannel}
    (hy : s.channels a = some y) (hi : i ∈ y.sessions) (hx : s.sessions i = some x) :
    x.channel = some a := by
  obtain ⟨x', hx', ha⟩ := h.attached hy hi
  rw [hx] at hx'
  obtain rfl := Option.some.inj hx'
  exact ha

theorem Linked.mem_sessions (h : Linked s) {x : Session} {y : SecureChannel} (hx : s.sessions i = some x)
    (ha : x.channel = some a) (hy : s.channels a = some y) : i ∈ y.sessions := by
  obtain ⟨y', hy', hi⟩ := h.known hx ha
  rw [hy] at hy'
  obtain rfl := Option.some.inj hy'
  exact hi

theorem Linked.connected_modify (h : Linked s) {f : SecureChannel → SecureChannel}
    (hf : ∀ z, (f z).connection = z.connection) {x : Connection} {b : Nat} (hx : s.connections c = some x)
    (hb : x.channel = some b) : ∃ z, s.channels.modify a f b = some z ∧ z.connection = some c := by
  obtain ⟨z, hz, hc⟩ := h.connected hx hb
  by_cases hba : b = a
  · subst hba
    exact ⟨_, modify_eq_some.mpr (Or.inl ⟨rfl, z, hz, rfl⟩), (hf z).trans hc⟩
  · exact ⟨z, modify_eq_some.mpr (Or.inr ⟨hba, hz⟩), hc⟩

theorem Linked.known_modify (h : Linked s) {f : SecureChannel → SecureChannel}
    (hf : ∀ z, i ∈ z.sessions → i ∈ (f z).sessions) {x : Session} {b : Nat} (hx : s.sessions i = some x)
    (hb : x.channel = some b) : ∃ z, s.channels.modify a f b = some z ∧ i ∈ z.sessions := by
  obtain ⟨z, hz, hi⟩ := h.known hx hb
  by_cases hba : b = a
  · subst hba
    exact ⟨_, modify_eq_some.mpr (Or.inl ⟨rfl, z, hz, rfl⟩), hf z hi⟩
  · exact ⟨z, modify_eq_some.mpr (Or.inr ⟨hba, hz⟩), hi⟩

theorem Linked.managed_modify (h : Linked s) {f : Session → Session} {j : Nat} {x : Session}
    (hx : s.sessions.modify i f j = some x) : j ∈ s.sessionManager.sessions := by
  rcases modify_eq_some.mp hx with ⟨rfl, x', hx', _⟩ | ⟨_, hx⟩
  · exact h.managed hx'
  · exact h.managed hx

end Links

section Sessions

/-- What a channel keeps while its sessions come and go. -/
def withoutSessions (y : SecureChannel) : SecureChannel := { y with sessions := [] }

/-- Nothing but the sessions and the lists of sessions has changed. -/
structure OnlySessions (s s' : Server) : Prop where
  connections : s'.connections = s.connections
  channels : ∀ a, (s'.channels a).map withoutSessions = (s.channels a).map withoutSessions
  manager : s'.secureChannelManager = s.secureChannelManager

variable {s s' : Server} {a i : Nat} {env : Environment}

theorem OnlySessions.refl (s : Server) : OnlySessions s s := ⟨rfl, fun _ => rfl, rfl⟩

theorem OnlySessions.trans {s'' : Server} (h : OnlySessions s s') (h' : OnlySessions s' s'') :
    OnlySessions s s'' :=
  ⟨h'.connections.trans h.connections, fun a => (h'.channels a).trans (h.channels a),
    h'.manager.trans h.manager⟩

theorem map_part {β : Type} {keep : SecureChannel → SecureChannel} {o o' : Option SecureChannel}
    (h : o'.map keep = o.map keep) {part : SecureChannel → β} (hpart : ∀ y, part (keep y) = part y) :
    o'.map part = o.map part := by
  have hsame := congrArg (Option.map part) h
  rw [Option.map_map, Option.map_map] at hsame
  have hcomp : part ∘ keep = part := funext hpart
  rw [hcomp] at hsame
  exact hsame

theorem OnlySessions.part {β : Type} (h : OnlySessions s s') (part : SecureChannel → β)
    (hpart : ∀ y, part (withoutSessions y) = part y) (a : Nat) :
    (s'.channels a).map part = (s.channels a).map part := map_part (h.channels a) hpart

theorem onlySessions_setSession {f : Session → Session} : OnlySessions s (s.setSession i f) :=
  ⟨rfl, fun _ => rfl, rfl⟩

theorem onlySessions_setChannel {f : List Nat → List Nat} :
    OnlySessions s (s.setChannel a (fun y => { y with sessions := f y.sessions })) :=
  ⟨rfl, modify_part _ (fun _ => rfl), rfl⟩

theorem onlySessions_attachSession {entry : Bool} : OnlySessions s (attachSession entry s a i) := by
  rw [attachSession]
  split
  · exact .refl s
  split
  · exact .refl s
  · exact onlySessions_setSession.trans (onlySessions_setChannel (f := (i :: ·)))

theorem onlySessions_detachSession : OnlySessions s (detachSession s a i) :=
  onlySessions_setSession.trans (onlySessions_setChannel (f := (·.erase i)))

theorem onlySessions_freeSession : OnlySessions s (freeSession s i) := by
  have hmembers : OnlySessions s (deleteSessionMembers s i) := by
    rw [deleteSessionMembers]
    split
    · exact .refl s
    · exact onlySessions_detachSession
  exact ⟨hmembers.connections, hmembers.channels, hmembers.manager⟩

theorem onlySessions_removeSession (token : NodeId) : OnlySessions s (removeSession s token).2 := by
  rw [removeSession]
  split
  · exact .refl s
  · exact onlySessions_freeSession

theorem onlySessions_cleanupSession (now : DateTime) : OnlySessions s (cleanupSession now s i) := by
  rw [cleanupSession]
  split
  · exact .refl s
  split
  · exact onlySessions_freeSession
  · exact .refl s

theorem onlySessions_cleanupSessions (now : DateTime) (s : Server) : OnlySessions s (cleanupSessions s now) := by
  have hfold : ∀ (l : List Nat) (s : Server), OnlySessions s (l.foldl (cleanupSession now) s) := by
    intro l
    induction l with
    | nil => exact OnlySessions.refl
    | cons i l ih =>
        intro s
        exact (onlySessions_cleanupSession now).trans (ih (cleanupSession now s i))
  exact hfold _ s

theorem onlySessions_createSession (channel : Option Nat) (requested : UInt64) :
    OnlySessions s (createSession env s channel requested).2 := by
  rw [createSession]
  split
  · exact .refl s
  split
  · exact .refl s
  split
  · exact .refl s
  · rename_i i s' hcreated
    have hs' : OnlySessions s s' := by
      rw [createManagedSession] at hcreated
      split at hcreated
      · cases hcreated
      split at hcreated
      · cases hcreated
      · obtain ⟨rfl, rfl⟩ := Prod.mk.inj (Except.ok.inj hcreated)
        exact ⟨rfl, fun _ => rfl, rfl⟩
    split
    · exact hs'
    split
    · exact hs'
    · exact hs'.trans (onlySessions_removeSession _)

theorem onlySessions_activateSession (token : NodeId) (identity : IdentityToken) :
    OnlySessions s (activateSession env s a token identity).2 := by
  rw [activateSession]
  split
  · exact .refl s
  split
  · exact .refl s
  split
  · exact .refl s
  split
  · exact .refl s
  · refine .trans ?_ onlySessions_setSession
    refine .trans ?_ onlySessions_setSession
    refine .trans ?_ onlySessions_attachSession
    split
    · exact .refl s
    split
    · exact onlySessions_detachSession
    · exact .refl s

theorem onlySessions_closeSession : OnlySessions s (closeSession s i).2 := by
  rw [closeSession]
  split
  · exact .refl s
  · exact onlySessions_removeSession _

end Sessions

end OpcUa.ServerLinks
