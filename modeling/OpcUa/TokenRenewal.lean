import OpcUa.ManagerLists

namespace OpcUa.TokenRenewal

open StatusCodes NodeIds Connections Heaps Readers Servers SecureChannels Sessions ServiceTable
open MessageHandlers ServerLinks LinkedOperations HandlerSteps SessionGating
open ChannelTokens LoopDispatch TokenChecks ChannelConnections ManagerLists Relation

variable {b : Build} {s s' : Server} {e : Event} {c a : Nat} {env : Environment} {request : OpenRequest}

section Order

/-- Of the channels that point to a connection, the one that the connection
points to comes first in the list. -/
def Newest (s : Server) : Prop :=
  ∀ c a a' y', connectionChannel s c = some a → s.channels a' = some y' → y'.connection = some c → a' ≠ a →
    [a, a'].Sublist s.secureChannelManager.channels

theorem Newest.congr (h : Newest s) (hsame : SameTies s s')
    (hlist : s'.secureChannelManager.channels = s.secureChannelManager.channels) : Newest s' := by
  intro c a a' y' ha hy' hc hne
  rw [hsame.connectionChannel_eq] at ha
  obtain ⟨y, hy, hpart⟩ := map_eq_some_of (hsame.channels a') hy'
  rw [hlist]
  exact h c a a' y ha hy (hpart.trans hc) hne

theorem Newest.acts (h : Newest s) (hacts : Acts s s') : Newest s' :=
  h.congr (sameTies_acts hacts) (by rw [(sameTokens_acts hacts).manager])

theorem newest_detachSecureChannel (h : Newest s) : Newest (detachSecureChannel s c) := by
  intro c' a a' y' ha hy' hc hne
  have hc' : c' ≠ c := by
    rintro rfl
    rw [detach_connectionChannel] at ha
    cases ha
  rw [connectionChannel_modify hc' detach_connections] at ha
  rw [(sameTokens_detachSecureChannel (c := c)).manager]
  exact h c' a a' y' ha (detach_channels_eq hy' hc).2 hc hne

theorem newest_disconnect (h : Newest s) (y : SecureChannel) : Newest (disconnect s y) := by
  rw [disconnect]
  split
  · exact h
  · exact (newest_detachSecureChannel h).congr (sameTies_setConnection (fun _ => rfl)) rfl

theorem disconnect_channelManager (y : SecureChannel) :
    (disconnect s y).secureChannelManager = s.secureChannelManager := by
  rw [disconnect]
  split
  · rfl
  · exact sameTokens_detachSecureChannel.manager

theorem removeChannel_list :
    (removeChannel s a).secureChannelManager.channels = s.secureChannelManager.channels.erase a := by
  rw [removeChannel]
  exact congrArg (fun m : SecureChannelManager => m.channels.erase a) sameTokens_deleteChannelMembers.manager

theorem newest_removeChannel (hlinked : Linked s) (h : Newest s) : Newest (removeChannel s a) := by
  intro c a₁ a₂ y₂ ha₁ hy₂ hc hne
  have hdead : ∀ a' y', (removeChannel s a).channels a' = some y' → a' ≠ a := by
    rintro a' y' hy' rfl
    rw [removeChannel_self] at hy'
    cases hy'
  obtain ⟨y₁, hy₁, _⟩ := Linked.channel_live (linked_removeChannel hlinked) ha₁
  have hne₁ := hdead a₁ y₁ hy₁
  have hne₂ := hdead a₂ y₂ hy₂
  have hbefore : [a₁, a₂].Sublist s.secureChannelManager.channels := by
    cases hy : s.channels a with
    | none =>
        obtain ⟨hconn, hchan, _⟩ := removeChannel_of_none hy
        rw [connectionChannel, hconn] at ha₁
        rw [hchan] at hy₂
        exact h c a₁ a₂ y₂ ha₁ hy₂ hc hne
    | some y =>
        obtain ⟨hconn, hchan, _⟩ := removeChannel_spec hy
        rw [connectionChannel, hconn] at ha₁
        rw [hchan a₂ hne₂] at hy₂
        have hsub := newest_disconnect h y c a₁ a₂ y₂ ha₁ hy₂ hc hne
        rw [disconnect_channelManager] at hsub
        exact hsub
  have herase : [a₁, a₂].erase a = [a₁, a₂] := by
    apply List.erase_of_not_mem
    simp [hne₁.symm, hne₂.symm]
  rw [removeChannel_list, ← herase]
  exact hbefore.erase a

theorem newest_closeSecureChannel (hlinked : Linked s) (h : Newest s) (channelId : UInt32) :
    Newest (closeSecureChannel s channelId) := by
  rw [closeSecureChannel, closeChannel]
  split
  · exact h
  · exact newest_removeChannel hlinked h

theorem newest_cleanupChannel (now : DateTime) (hlinked : Linked s) (h : Newest s) :
    Newest (cleanupChannel now s a) := by
  rw [cleanupChannel]
  split
  · exact h
  split
  · exact newest_removeChannel hlinked h
  split
  · exact h.congr (sameTies_setChannel connection_revolveTokens) rfl
  · exact h

theorem newest_cleanupChannels (now : DateTime) (hlinked : Linked s) (h : Newest s) :
    Newest (cleanupChannels s now) := by
  rw [cleanupChannels]
  generalize s.secureChannelManager.channels = l
  induction l generalizing s with
  | nil => exact h
  | cons a l ih => exact ih (linked_cleanupChannel now hlinked a) (newest_cleanupChannel now hlinked h)

theorem newest_openSecureChannel (hlisted : Listed s) (h : Newest s) :
    Newest (openSecureChannel env s c request).2 := by
  rw [openSecureChannel]
  split
  · rename_i hissue
    rcases openChannel_cases env s c request hissue with ⟨_, hsame⟩ | ⟨_, a, hfree, hopened⟩
    · rw [hsame]
      exact h
    rw [hopened]
    intro c' a₁ a₂ y₂ ha₁ hy₂ hc hne
    by_cases hcc : c' = c
    · -- the connection points to the new channel
      subst hcc
      have hnew : a₁ = a := by
        obtain ⟨x, hx, hxa⟩ := Option.bind_eq_some_iff.mp ha₁
        rcases modify_eq_some.mp hx with ⟨_, x', _, rfl⟩ | ⟨hnot, _⟩
        · exact (Option.some.inj hxa).symm
        · exact absurd rfl hnot
      subst hnew
      rcases store_eq_some.mp hy₂ with ⟨heq, _⟩ | ⟨_, hy₂⟩
      · exact absurd heq hne
      · exact (List.singleton_sublist.mpr (hlisted hy₂)).cons_cons a₁
    · rw [connectionChannel_modify hcc rfl] at ha₁
      rcases store_eq_some.mp hy₂ with ⟨_, rfl⟩ | ⟨_, hy₂⟩
      · exact absurd (Option.some.inj hc).symm hcc
      · exact (h c' a₁ a₂ y₂ ha₁ hy₂ hc hne).cons a
  · refine h.congr (sameTies_renewChannel env s c request) ?_
    rcases renewChannel_cases env s c request with hsame | ⟨a, y, _, _, _, _, hlist, _⟩
    · rw [hsame]
    · exact hlist

theorem newest_step (hlinked : Linked s) (hlisted : Listed s) (h : Newest s) (e : Event) :
    Newest (step b s e) := by
  cases e with
  | connect c connection =>
      rw [step, connect]
      split
      · intro c' a a' y' ha hy' hc hne
        have hcc : c' ≠ c := by
          rintro rfl
          rw [connectionChannel] at ha
          change ((s.connections.store c' _) c').bind _ = _ at ha
          rw [Heap.store, if_pos rfl] at ha
          cases ha
        refine h c' a a' y' (Eq.trans (connectionChannel_congr ?_) ha) hy' hc hne
        exact (if_neg hcc).symm
      · exact h
  | detach c => exact newest_detachSecureChannel h
  | free c =>
      intro c' a a' y' ha hy' hc hne
      have hcc : c' ≠ c := by
        rintro rfl
        rw [step, connectionChannel] at ha
        change ((s.connections.free c') c').bind _ = _ at ha
        rw [Heap.free, if_pos rfl] at ha
        cases ha
      refine h c' a a' y' (Eq.trans (connectionChannel_congr ?_) ha) hy' hc hne
      exact (if_neg hcc).symm
  | message c env st =>
      rw [step]
      rcases pass_cases b env c st hlinked with
        hacts | ⟨channelId, hacts⟩ | ⟨st', a, _, _, hacts⟩ | ⟨st', _, hopn⟩
      · exact h.acts hacts
      · exact (newest_closeSecureChannel hlinked h channelId).acts hacts
      · exact (h.congr (sameTies_setChannel connection_revolveTokens) rfl).acts hacts
      · rw [hopn]
        rcases processOPN_cases b env s c st' with hclose | ⟨r, st'', _, _, _, hacts⟩
        · rw [hclose]
          exact h.congr (sameTies_setConnection (fun _ => rfl)) rfl
        · exact (newest_openSecureChannel hlisted h).acts hacts
  | cleanup now =>
      have hsessions := onlySessions_cleanupSessions now s
      exact newest_cleanupChannels now (linked_cleanupSessions now hlinked)
        (h.congr (sameTies_of_onlySessions hsessions) (by rw [hsessions.manager]))

theorem newest_run (config : Config) (events : List Event) : Newest (run b (newServer config) events) := by
  induction events using List.reverseRecOn with
  | nil =>
      intro c a a' y' _ hy'
      cases hy'
  | append_singleton events e ih =>
      rw [run_concat]
      exact newest_step (linked_run config events) (listed_run config events).1 ih e

end Order

section Sweep

/-- The sweep leaves a channel alone while it looks at others, unless it ends a
channel whose connection points to this one. -/
theorem cleanupChannel_of_ne (now : DateTime) (hnewest : Newest s) {a' : Nat} (hne : a' ≠ a)
    (hlater : ¬ [a, a'].Sublist s.secureChannelManager.channels) :
    (cleanupChannel now s a').channels a = s.channels a := by
  rw [cleanupChannel]
  split
  · rfl
  rename_i y' hy'
  split
  · rw [(removeChannel_spec hy').2.1 a hne.symm, disconnect]
    split
    · rfl
    · rename_i c hc
      apply detach_channels_of_ne
      intro ha
      exact hlater (hnewest c a a' y' ha hy' hc hne)
  split
  · exact modify_of_ne hne.symm
  · rfl

theorem cleanupChannel_list (now : DateTime) :
    (cleanupChannel now s a).secureChannelManager.channels.Sublist s.secureChannelManager.channels := by
  rw [cleanupChannel]
  split
  · exact .refl _
  split
  · rw [removeChannel_list]
    exact List.erase_sublist
  split
  · exact .refl _
  · exact .refl _

theorem sweep_before (now : DateTime) {l before : List Nat} (hlinked : Linked s) (hnewest : Newest s)
    (hlist : s.secureChannelManager.channels.Sublist l)
    (hbefore : ∀ a' ∈ before, a' ≠ a ∧ ¬ [a, a'].Sublist l) :
    (before.foldl (cleanupChannel now) s).channels a = s.channels a := by
  induction before generalizing s with
  | nil => rfl
  | cons a' before ih =>
      obtain ⟨hne, hlater⟩ := hbefore a' List.mem_cons_self
      rw [List.foldl_cons, ih (linked_cleanupChannel now hlinked a') (newest_cleanupChannel now hlinked hnewest)
        ((cleanupChannel_list now).trans hlist) (fun a₁ h₁ => hbefore a₁ (List.mem_cons_of_mem _ h₁))]
      exact cleanupChannel_of_ne now hnewest hne (fun hsub => hlater (hsub.trans hlist))

theorem sweep_after (now : DateTime) {after : List Nat} (hafter : a ∉ after)
    (halive : s.channels a ≠ none) : (after.foldl (cleanupChannel now) s).channels a ≠ none := by
  induction after generalizing s with
  | nil => exact halive
  | cons a' after ih =>
      have hne : a ≠ a' := List.ne_of_not_mem_cons hafter
      refine ih (List.not_mem_of_not_mem_cons hafter) ?_
      obtain ⟨y, hy⟩ := Option.ne_none_iff_exists'.mp halive
      rw [cleanupChannel]
      split
      · exact halive
      split
      · exact removeChannel_channels_of_ne hne hy
      split
      · rw [Server.setChannel_channels, modify_of_ne hne]
        exact halive
      · exact halive

theorem not_sublist_of_before {before after : List Nat} (hnodup : (before ++ a :: after).Nodup) {a' : Nat}
    (hmem : a' ∈ before) : a' ≠ a ∧ ¬ [a, a'].Sublist (before ++ a :: after) := by
  obtain ⟨hbefore, hrest, hdisjoint⟩ := List.nodup_append.mp hnodup
  have hne : a' ≠ a := hdisjoint a' hmem a List.mem_cons_self
  refine ⟨hne, fun hsub => ?_⟩
  obtain ⟨l₁, l₂, heq, h₁, h₂⟩ := List.sublist_append_iff.mp hsub
  have hnot : a ∉ before := fun h => hdisjoint a h a List.mem_cons_self rfl
  have hnot' : a' ∉ a :: after := fun h => hdisjoint a' hmem a' h rfl
  cases l₁ with
  | nil =>
      rw [List.nil_append] at heq
      subst heq
      exact hnot' (h₂.subset (List.mem_cons_of_mem _ List.mem_cons_self))
  | cons x l₁ =>
      obtain ⟨rfl, _⟩ := List.cons.inj heq
      exact hnot (h₁.subset List.mem_cons_self)

theorem cleanupChannels_keeps (now : DateTime) (hlinked : Linked s) (hnewest : Newest s)
    (hcounted : ChannelsCounted s) {y : SecureChannel} (hy : s.channels a = some y) (hc : y.connection ≠ none)
    (hlife : expired now y.securityToken = false) : (cleanupChannels s now).channels a ≠ none := by
  have hmem : a ∈ s.secureChannelManager.channels := by
    rw [hcounted.listed, hy]
    rfl
  obtain ⟨before, after, hsplit⟩ := List.append_of_mem hmem
  have hnodup := hcounted.nodup
  rw [hsplit] at hnodup
  have hbefore := sweep_before now (a := a) hlinked hnewest (List.Sublist.refl _)
    (fun a' hmem' => by rw [hsplit]; exact not_sublist_of_before hnodup hmem')
  rw [cleanupChannels, hsplit, List.foldl_append, List.foldl_cons]
  generalize before.foldl (cleanupChannel now) s = s₁ at hbefore
  rw [hy] at hbefore
  have hafter : a ∉ after := (List.nodup_cons.mp (List.nodup_append.mp hnodup).2.1).1
  refine sweep_after now hafter ?_
  rw [cleanupChannel, hbefore]
  dsimp only
  rw [if_neg (by simp [hlife, hc])]
  split
  · rw [Server.setChannel_channels, modify_self, hbefore]
    exact Option.some_ne_none _
  · rw [hbefore]
    exact Option.some_ne_none _

theorem cleanup_keeps (now : DateTime) (hlinked : Linked s) (hnewest : Newest s) (hcounted : ChannelsCounted s)
    {y : SecureChannel} (hy : s.channels a = some y) (hc : y.connection ≠ none)
    (hlife : expired now y.securityToken = false) : (step b s (.cleanup now)).channels a ≠ none := by
  have hsessions := onlySessions_cleanupSessions now s
  obtain ⟨y', hy', hpart⟩ := map_eq_some_of (hsessions.channels a).symm hy
  have hsame : y'.connection = y.connection ∧ y'.securityToken = y.securityToken :=
    ⟨(SecureChannel.mk.inj hpart).2.2.2.1, (SecureChannel.mk.inj hpart).1⟩
  exact cleanupChannels_keeps now (linked_cleanupSessions now hlinked)
    (hnewest.congr (sameTies_of_onlySessions hsessions) (by rw [hsessions.manager]))
    (hcounted.congr (sameTokens_of_onlySessions hsessions)) hy' (by rw [hsame.1]; exact hc)
    (by rw [hsame.2]; exact hlife)

end Sweep

end OpcUa.TokenRenewal
