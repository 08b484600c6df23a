import OpcUa.ServerLinks

namespace OpcUa.LinkedOperations

open StatusCodes NodeIds Connections Heaps Servers SecureChannels Sessions ServerLinks

variable {s : Server} {c a i : Nat} {env : Environment}

section Detaching

theorem detach_connections : (detachSecureChannel s c).connections =
    s.connections.modify c (fun x => { x with channel := none }) := by
  rw [detachSecureChannel]
  split <;> rfl

theorem detach_sessions : (detachSecureChannel s c).sessions = s.sessions := by
  rw [detachSecureChannel]
  split <;> rfl

theorem detach_manager : (detachSecureChannel s c).sessionManager = s.sessionManager := by
  rw [detachSecureChannel]
  split <;> rfl

theorem detach_channels_of_ne (h : (s.connections c).bind (·.channel) ≠ some a) :
    (detachSecureChannel s c).channels a = s.channels a := by
  rw [detachSecureChannel]
  split
  · rfl
  · rename_i a' ha'
    refine modify_of_ne ?_
    rintro rfl
    exact h ha'

theorem detach_lists (a : Nat) :
    ((detachSecureChannel s c).channels a).map (·.sessions) = (s.channels a).map (·.sessions) := by
  rw [detachSecureChannel]
  split
  · rfl
  · rw [Server.setConnection_channels, Server.setChannel_channels]
    apply modify_part
    intro y
    rfl

theorem linked_detachSecureChannel (h : Linked s) : Linked (detachSecureChannel s c) := by
  constructor
  · intro c' x a' hx ha'
    rw [detach_connections, modify_eq_some] at hx
    rcases hx with ⟨rfl, x', _, rfl⟩ | ⟨hne, hx⟩
    · cases ha'
    · obtain ⟨y, hy, hc⟩ := h.connected hx ha'
      refine ⟨y, ?_, hc⟩
      rw [detach_channels_of_ne, hy]
      intro hbind
      obtain ⟨x', hx', ha⟩ := Option.bind_eq_some_iff.mp hbind
      have hsame := h.connection_unique hx' ha hy
      exact hne (Option.some.inj (hc.symm.trans hsame))
  · intro a' y i hy hi
    obtain ⟨y', hy', hlist⟩ := map_eq_some_of (detach_lists a') hy
    rw [detach_sessions]
    exact h.attached hy' (by rw [hlist]; exact hi)
  · intro i x a' hx ha'
    rw [detach_sessions] at hx
    obtain ⟨y, hy, hi⟩ := h.known hx ha'
    obtain ⟨y', hy', hlist⟩ := map_eq_some_of (detach_lists a').symm hy
    exact ⟨y', hy', by rw [hlist]; exact hi⟩
  · intro a' y hy
    obtain ⟨y', hy', hlist⟩ := map_eq_some_of (detach_lists a') hy
    rw [← hlist]
    exact h.nodup hy'
  · intro i x hx
    rw [detach_sessions] at hx
    rw [detach_manager]
    exact h.managed hx

end Detaching

section Removal

theorem releaseSessions_eq (s : Server) (l : List Nat) :
    (releaseSessions s l).connections = s.connections ∧ (releaseSessions s l).channels = s.channels ∧
      (releaseSessions s l).sessionManager = s.sessionManager ∧
      ∀ i, (releaseSessions s l).sessions i =
        if i ∈ l then (s.sessions i).map (fun x => { x with channel := none }) else s.sessions i := by
  induction l generalizing s with
  | nil => exact ⟨rfl, rfl, rfl, fun i => by simp [releaseSessions]⟩
  | cons j l ih =>
      obtain ⟨hconn, hchan, hman, hsess⟩ := ih (s.setSession j (fun x => { x with channel := none }))
      refine ⟨hconn, hchan, hman, fun i => ?_⟩
      refine (hsess i).trans ?_
      by_cases hij : i = j
      · subst hij
        rw [Server.setSession_sessions, modify_self, if_pos (List.mem_cons_self ..), Option.map_map]
        split <;> rfl
      · have hmem : i ∈ j :: l ↔ i ∈ l := by simp [hij]
        rw [Server.setSession_sessions, modify_of_ne hij]
        simp only [hmem]

/-- The part of the cleanup that concerns the connection. -/
def disconnect (s : Server) (y : SecureChannel) : Server :=
  match y.connection with
  | none => s
  | some c => close (detachSecureChannel s c) c

theorem linked_disconnect (h : Linked s) (y : SecureChannel) : Linked (disconnect s y) := by
  rw [disconnect]
  split
  · exact h
  · exact (linked_detachSecureChannel h).congr sameLinks_close

theorem disconnect_sessions (y : SecureChannel) : (disconnect s y).sessions = s.sessions := by
  rw [disconnect]
  split
  · rfl
  · exact detach_sessions

theorem disconnect_connections (h : Linked s) {y : SecureChannel} (hy : s.channels a = some y) {x : Connection}
    (hx : (disconnect s y).connections c = some x) : x.channel ≠ some a := by
  intro ha
  rw [disconnect] at hx
  split at hx
  · rename_i hnone
    have hc := h.connection_unique hx ha hy
    rw [hnone] at hc
    cases hc
  · rename_i c' hc'
    obtain ⟨x', hx', hpart⟩ := map_eq_some_of (sameLinks_close.connections c) hx
    rw [detach_connections, modify_eq_some] at hx'
    have ha' : x'.channel = some a := hpart.trans ha
    rcases hx' with ⟨rfl, x'', _, rfl⟩ | ⟨hne, hx'⟩
    · cases ha'
    · have hc := h.connection_unique hx' ha' hy
      exact hne (Option.some.inj (hc.symm.trans hc'))

theorem disconnect_manager (y : SecureChannel) : (disconnect s y).sessionManager = s.sessionManager := by
  rw [disconnect]
  split
  · rfl
  · exact detach_manager

theorem removeChannel_self : (removeChannel s a).channels a = none := by
  rw [removeChannel]
  exact if_pos rfl

theorem removeChannel_spec {y : SecureChannel} (hy : s.channels a = some y) :
    (removeChannel s a).connections = (disconnect s y).connections ∧
      (∀ b, b ≠ a → (removeChannel s a).channels b = (disconnect s y).channels b) ∧
      (∀ j, (removeChannel s a).sessions j =
        if j ∈ y.sessions then (s.sessions j).map (fun x => { x with channel := none }) else s.sessions j) ∧
      (removeChannel s a).sessionManager = s.sessionManager := by
  have hdelete : deleteChannelMembers s a =
      (releaseSessions (disconnect s y) y.sessions).setChannel a (fun x => { x with sessions := [] }) := by
    rw [deleteChannelMembers, hy]
    rfl
  obtain ⟨hconn, hchan, hman, hsess⟩ := releaseSessions_eq (disconnect s y) y.sessions
  rw [removeChannel, hdelete]
  refine ⟨hconn, fun b hb => ?_, fun j => ?_, hman.trans (disconnect_manager y)⟩
  · have hfree : ((releaseSessions (disconnect s y) y.sessions).channels.modify a
        (fun x => { x with sessions := [] })).free a b =
        (releaseSessions (disconnect s y) y.sessions).channels b := (if_neg hb).trans (modify_of_ne hb)
    exact hfree.trans (congrFun hchan b)
  · refine (hsess j).trans ?_
    rw [disconnect_sessions]

theorem removeChannel_of_none (hy : s.channels a = none) :
    (removeChannel s a).connections = s.connections ∧ (removeChannel s a).channels = s.channels ∧
      (removeChannel s a).sessions = s.sessions ∧ (removeChannel s a).sessionManager = s.sessionManager := by
  have hdelete : deleteChannelMembers s a = s := by rw [deleteChannelMembers, hy]
  have hfree : s.channels.free a = s.channels := by
    funext b
    by_cases hb : b = a
    · subst hb
      rw [hy]
      exact if_pos rfl
    · exact if_neg hb
  rw [removeChannel, hdelete]
  exact ⟨rfl, hfree, rfl, rfl⟩

theorem linked_removeChannel (h : Linked s) : Linked (removeChannel s a) := by
  cases hy : s.channels a with
  | none =>
      obtain ⟨hconn, hchan, hsess, hman⟩ := removeChannel_of_none hy
      exact h.congr ⟨fun c => by rw [hconn], fun b => by rw [hchan], fun i => by rw [hsess], by rw [hman]⟩
  | some y =>
      obtain ⟨hconnections, hchannels, hsessions, hmanager⟩ := removeChannel_spec hy
      have hd := linked_disconnect h y
      have hothers : ∀ b z, (removeChannel s a).channels b = some z →
          b ≠ a ∧ (disconnect s y).channels b = some z := by
        intro b z hz
        have hb : b ≠ a := by
          rintro rfl
          rw [removeChannel_self] at hz
          cases hz
        exact ⟨hb, (hchannels b hb).symm.trans hz⟩
      -- a session of another channel is not in the list of this one
      have hother : ∀ j x b, s.sessions j = some x → x.channel = some b → b ≠ a → j ∉ y.sessions := by
        intro j x b hx hb hne hj
        exact hne (Option.some.inj (hb.symm.trans (h.session_channel hy hj hx)))
      constructor
      · intro c x b hx hb
        rw [hconnections] at hx
        obtain ⟨z, hz, hc⟩ := hd.connected hx hb
        refine ⟨z, ?_, hc⟩
        rw [hchannels, hz]
        rintro rfl
        exact disconnect_connections h hy hx hb
      · intro b z j hz hj
        obtain ⟨hb, hz⟩ := hothers b z hz
        obtain ⟨x, hx, hxb⟩ := hd.attached hz hj
        rw [disconnect_sessions] at hx
        refine ⟨x, ?_, hxb⟩
        rw [hsessions, if_neg (hother j x b hx hxb hb), hx]
      · intro j x b hx hxb
        rw [hsessions] at hx
        split at hx
        · obtain ⟨x', _, rfl⟩ := Option.map_eq_some_iff.mp hx
          cases hxb
        · rename_i hj
          have hb : b ≠ a := by
            rintro rfl
            exact hj (h.mem_sessions hx hxb hy)
          obtain ⟨z, hz, hjz⟩ := hd.known (by rw [disconnect_sessions]; exact hx) hxb
          exact ⟨z, (hchannels b hb).trans hz, hjz⟩
      · intro b z hz
        exact hd.nodup (hothers b z hz).2
      · intro j x hx
        rw [hsessions] at hx
        rw [hmanager]
        split at hx
        · obtain ⟨x', hx', _⟩ := Option.map_eq_some_iff.mp hx
          exact h.managed hx'
        · exact h.managed hx

end Removal

section Channels

theorem linked_cleanupChannel (now : DateTime) (h : Linked s) (a : Nat) : Linked (cleanupChannel now s a) := by
  rw [cleanupChannel]
  split
  · exact h
  split
  · exact linked_removeChannel h
  split
  · exact h.congr (sameLinks_setChannel links_revolveTokens)
  · exact h

theorem linked_cleanupChannels (now : DateTime) (h : Linked s) : Linked (cleanupChannels s now) := by
  rw [cleanupChannels]
  generalize s.secureChannelManager.channels = l
  induction l generalizing s with
  | nil => exact h
  | cons a l ih => exact ih (linked_cleanupChannel now h a)

theorem attachNew_eq {y : SecureChannel} (hconnection : y.connection = none) :
    attachSecureChannel { s with channels := s.channels.store a y } c a =
      { s with
        channels := s.channels.store a { y with connection := some c }
        connections := s.connections.modify c (fun x => { x with channel := some a }) } := by
  have hstored : s.channels.store a y a = some y := if_pos rfl
  have hmodify : (s.channels.store a y).modify a (fun x => { x with connection := some c }) =
      s.channels.store a { y with connection := some c } := by
    funext b
    by_cases hb : b = a <;> simp [Heap.store, Heap.modify, hb]
  rw [attachSecureChannel]
  simp only [hstored, hconnection]
  simp only [ne_eq, not_true_eq_false, if_false, Server.setChannel, Server.setConnection, hmodify]

theorem linked_attachNew (h : Linked s) (hfree : s.channels a = none) {y : SecureChannel}
    (hsessions : y.sessions = []) (hconnection : y.connection = none) (m : SecureChannelManager) :
    Linked { attachSecureChannel { s with channels := s.channels.store a y } c a with
      secureChannelManager := m } := by
  rw [attachNew_eq hconnection]
  constructor
  · intro c' x b hx hb
    rcases modify_eq_some.mp hx with ⟨rfl, x', _, rfl⟩ | ⟨_, hx⟩
    · obtain rfl := Option.some.inj hb
      exact ⟨_, store_eq_some.mpr (.inl ⟨rfl, rfl⟩), rfl⟩
    · obtain ⟨z, hz, hc⟩ := h.connected hx hb
      refine ⟨z, store_eq_some.mpr (.inr ⟨?_, hz⟩), hc⟩
      rintro rfl
      rw [hfree] at hz
      cases hz
  · intro b z j hz hj
    rcases store_eq_some.mp hz with ⟨_, rfl⟩ | ⟨_, hz⟩
    · change j ∈ y.sessions at hj
      rw [hsessions] at hj
      cases hj
    · exact h.attached hz hj
  · intro j x b hx hb
    obtain ⟨z, hz, hj⟩ := h.known hx hb
    refine ⟨z, store_eq_some.mpr (.inr ⟨?_, hz⟩), hj⟩
    rintro rfl
    rw [hfree] at hz
    cases hz
  · intro b z hz
    rcases store_eq_some.mp hz with ⟨_, rfl⟩ | ⟨_, hz⟩
    · change y.sessions.Nodup
      rw [hsessions]
      exact List.nodup_nil
    · exact h.nodup hz
  · intro j x hx
    exact h.managed hx

theorem linked_openSecureChannel (h : Linked s) (request : OpenRequest) :
    Linked (openSecureChannel env s c request).2 := by
  rw [openSecureChannel]
  split
  · rw [openChannel]
    split
    · exact h
    split
    · exact h
    split
    · exact h
    · rename_i a ha
      exact linked_attachNew h (allocate_eq_some.mp ha).2 rfl rfl _
  · rw [renewChannel]
    split
    · exact h
    split
    · exact h
    split
    · exact h
    · exact h.congr ⟨fun _ => rfl, modify_part _ (fun _ => rfl), fun _ => rfl, rfl⟩

theorem linked_closeSecureChannel (h : Linked s) (channelId : UInt32) :
    Linked (closeSecureChannel s channelId) := by
  rw [closeSecureChannel, closeChannel]
  split
  · exact h
  · exact linked_removeChannel h

end Channels

section Sessions

theorem linked_attachSession (entry : Bool) (h : Linked s) {y : SecureChannel} (hy : s.channels a = some y) :
    Linked (attachSession entry s a i) := by
  rw [attachSession]
  split
  · exact h
  rename_i x hx
  split
  · exact h
  rename_i hfree
  have hnone : x.channel = none := by
    by_contra hne
    exact hfree (Or.inr hne)
  have hunlisted : ∀ b z, s.channels b = some z → i ∉ z.sessions := by
    intro b z hz hi
    have hb := h.session_channel hz hi hx
    rw [hnone] at hb
    cases hb
  constructor
  · intro c x' b hx' hb
    refine h.connected_modify ?_ hx' hb
    exact fun _ => rfl
  · intro b z j hz hj
    rcases modify_eq_some.mp hz with ⟨rfl, z', hz', rfl⟩ | ⟨hba, hz⟩
    · rcases List.mem_cons.mp hj with rfl | hj
      · exact ⟨_, modify_eq_some.mpr (Or.inl ⟨rfl, x, hx, rfl⟩), rfl⟩
      · have hne : j ≠ i := fun heq => hunlisted _ _ hz' (heq ▸ hj)
        obtain ⟨x', hx', hb⟩ := h.attached hz' hj
        exact ⟨x', modify_eq_some.mpr (Or.inr ⟨hne, hx'⟩), hb⟩
    · have hne : j ≠ i := fun heq => hunlisted _ _ hz (heq ▸ hj)
      obtain ⟨x', hx', hb⟩ := h.attached hz hj
      exact ⟨x', modify_eq_some.mpr (Or.inr ⟨hne, hx'⟩), hb⟩
  · intro j x' b hx' hb
    rcases modify_eq_some.mp hx' with ⟨rfl, x'', _, rfl⟩ | ⟨_, hx'⟩
    · obtain rfl := Option.some.inj hb
      exact ⟨_, modify_eq_some.mpr (Or.inl ⟨rfl, y, hy, rfl⟩), List.mem_cons_self ..⟩
    · exact h.known_modify (fun _ hj => List.mem_cons_of_mem _ hj) hx' hb
  · intro b z hz
    rcases modify_eq_some.mp hz with ⟨rfl, z', hz', rfl⟩ | ⟨_, hz⟩
    · exact List.nodup_cons.mpr ⟨hunlisted _ _ hz', h.nodup hz'⟩
    · exact h.nodup hz
  · intro j x' hx'
    exact h.managed_modify hx'

theorem linked_detachSession (h : Linked s) {x : Session} (hx : s.sessions i = some x)
    (ha : x.channel = some a) : Linked (detachSession s a i) := by
  have hother : ∀ b z, s.channels b = some z → b ≠ a → i ∉ z.sessions := by
    intro b z hz hne hi
    exact hne (Option.some.inj ((h.session_channel hz hi hx).symm.trans ha))
  rw [detachSession]
  constructor
  · intro c x' b hx' hb
    refine h.connected_modify ?_ hx' hb
    exact fun _ => rfl
  · intro b z j hz hj
    rcases modify_eq_some.mp hz with ⟨rfl, z', hz', rfl⟩ | ⟨hba, hz⟩
    · have hmem := (h.nodup hz').mem_erase_iff.mp hj
      obtain ⟨x', hx', hb⟩ := h.attached hz' hmem.2
      exact ⟨x', modify_eq_some.mpr (Or.inr ⟨hmem.1, hx'⟩), hb⟩
    · have hne : j ≠ i := fun heq => hother b z hz hba (heq ▸ hj)
      obtain ⟨x', hx', hb⟩ := h.attached hz hj
      exact ⟨x', modify_eq_some.mpr (Or.inr ⟨hne, hx'⟩), hb⟩
  · intro j x' b hx' hb
    rcases modify_eq_some.mp hx' with ⟨rfl, x'', _, rfl⟩ | ⟨hne, hx'⟩
    · cases hb
    · exact h.known_modify (fun _ hj => (List.mem_erase_of_ne hne).mpr hj) hx' hb
  · intro b z hz
    rcases modify_eq_some.mp hz with ⟨rfl, z', hz', rfl⟩ | ⟨_, hz⟩
    · exact (h.nodup hz').erase i
    · exact h.nodup hz
  · intro j x' hx'
    exact h.managed_modify hx'

theorem linked_freeSession (h : Linked s) : Linked (freeSession s i) := by
  -- after the cleanup the session points nowhere
  have hdeleted : Linked (deleteSessionMembers s i) ∧
      ∀ x, (deleteSessionMembers s i).sessions i = some x → x.channel = none := by
    rw [deleteSessionMembers]
    split
    · rename_i hnone
      refine ⟨h, fun x hx => ?_⟩
      rw [hx] at hnone
      exact hnone
    · rename_i a ha
      obtain ⟨x, hx, ha⟩ := Option.bind_eq_some_iff.mp ha
      refine ⟨linked_detachSession h hx ha, fun x' hx' => ?_⟩
      rcases modify_eq_some.mp hx' with ⟨_, x'', _, rfl⟩ | ⟨hne, _⟩
      · rfl
      · exact absurd rfl hne
  obtain ⟨hd, hnone⟩ := hdeleted
  have hunlisted : ∀ b z, (deleteSessionMembers s i).channels b = some z → i ∉ z.sessions := by
    intro b z hz hi
    obtain ⟨x, hx, hb⟩ := hd.attached hz hi
    rw [hnone x hx] at hb
    cases hb
  rw [freeSession]
  constructor
  · intro c x b hx hb
    exact hd.connected hx hb
  · intro b z j hz hj
    have hne : j ≠ i := fun heq => hunlisted b z hz (heq ▸ hj)
    obtain ⟨x, hx, hb⟩ := hd.attached hz hj
    exact ⟨x, free_eq_some.mpr ⟨hne, hx⟩, hb⟩
  · intro j x b hx hb
    exact hd.known (free_eq_some.mp hx).2 hb
  · intro b z hz
    exact hd.nodup hz
  · intro j x hx
    obtain ⟨hne, hx⟩ := free_eq_some.mp hx
    exact (List.mem_erase_of_ne hne).mpr (hd.managed hx)

theorem linked_cleanupSession (now : DateTime) (h : Linked s) (i : Nat) : Linked (cleanupSession now s i) := by
  rw [cleanupSession]
  split
  · exact h
  split
  · exact linked_freeSession h
  · exact h

theorem linked_cleanupSessions (now : DateTime) (h : Linked s) : Linked (cleanupSessions s now) := by
  rw [cleanupSessions]
  generalize s.sessionManager.sessions = l
  induction l generalizing s with
  | nil => exact h
  | cons i l ih => exact ih (linked_cleanupSession now h i)

theorem linked_removeSession (h : Linked s) (token : NodeId) : Linked (removeSession s token).2 := by
  rw [removeSession]
  split
  · exact h
  · exact linked_freeSession h

theorem linked_storeSession (h : Linked s) (hfree : s.sessions i = none) {x : Session}
    (hchannel : x.channel = none) {m : SessionManager} (hm : m.sessions = i :: s.sessionManager.sessions) :
    Linked { s with sessions := s.sessions.store i x, sessionManager := m } := by
  constructor
  · intro c x' b hx' hb
    exact h.connected hx' hb
  · intro b z j hz hj
    obtain ⟨x', hx', hb⟩ := h.attached hz hj
    refine ⟨x', store_eq_some.mpr (Or.inr ⟨?_, hx'⟩), hb⟩
    rintro rfl
    rw [hfree] at hx'
    cases hx'
  · intro j x' b hx' hb
    rcases store_eq_some.mp hx' with ⟨_, rfl⟩ | ⟨_, hx'⟩
    · rw [hchannel] at hb
      cases hb
    · exact h.known hx' hb
  · intro b z hz
    exact h.nodup hz
  · intro j x' hx'
    change j ∈ m.sessions
    rw [hm]
    rcases store_eq_some.mp hx' with ⟨rfl, _⟩ | ⟨_, hx'⟩
    · exact List.mem_cons_self ..
    · exact List.mem_cons_of_mem _ (h.managed hx')

theorem linked_createSession (h : Linked s) (channel : Option Nat) (requested : UInt64) :
    Linked (createSession env s channel requested).2 := by
  rw [createSession]
  split
  · exact h
  split
  · exact h
  split
  · exact h
  · rename_i i s' hcreated
    have hs' : Linked s' := by
      rw [createManagedSession] at hcreated
      split at hcreated
      · cases hcreated
      split at hcreated
      · cases hcreated
      · rename_i j hj
        obtain ⟨rfl, rfl⟩ := Prod.mk.inj (Except.ok.inj hcreated)
        exact linked_storeSession h (allocate_eq_some.mp hj).2 rfl rfl
    split
    · exact hs'
    split
    · exact hs'
    · exact linked_removeSession hs' _

theorem linked_activate (h : Linked s) {y : SecureChannel} (hy : s.channels a = some y) :
    Linked (activate env s a i) := by
  have hactivated : ∀ s', Linked s' → (∃ y', s'.channels a = some y') →
      Linked (updateLifetime (env.now 3)
        ((attachSession env.newSessionEntry s' a i).setSession i (fun x => { x with activated := true })) i) := by
    rintro s' hs' ⟨y', hy'⟩
    have hflag : SameLinks (attachSession env.newSessionEntry s' a i)
        ((attachSession env.newSessionEntry s' a i).setSession i (fun x => { x with activated := true })) :=
      sameLinks_setSession (fun _ => rfl)
    exact ((linked_attachSession _ hs' hy').congr hflag).congr sameLinks_updateLifetime
  rw [activate]
  split
  · exact hactivated s h ⟨y, hy⟩
  · rename_i b hb
    split
    · rename_i hne
      obtain ⟨x, hx, hb⟩ := Option.bind_eq_some_iff.mp hb
      refine hactivated _ (linked_detachSession h hx hb) ⟨y, ?_⟩
      exact (modify_of_ne (Ne.symm hne)).trans hy
    · exact hactivated s h ⟨y, hy⟩

theorem linked_activateSession (h : Linked s) {y : SecureChannel} (hy : s.channels a = some y)
    (token : NodeId) (identity : IdentityToken) :
    Linked (activateSession env s a token identity).2 := by
  rw [activateSession]
  split
  · exact h
  split
  · exact h
  split
  · exact h
  split
  · exact h
  · exact linked_activate h hy

theorem linked_closeSession (h : Linked s) : Linked (closeSession s i).2 := by
  rw [closeSession]
  split
  · exact h
  · exact linked_removeSession h _

end Sessions

end OpcUa.LinkedOperations
