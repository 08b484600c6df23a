import OpcUa.TokenChecks

namespace OpcUa.ChannelConnections

open StatusCodes NodeIds Connections Heaps Readers Servers SecureChannels Sessions ServiceTable
open MessageHandlers ServerLinks LinkedOperations HandlerSteps SessionGating
open ChannelTokens LoopDispatch TokenChecks Relation

/-- Both servers have the same connections and channels, with the same pointers
between them. -/
structure SameTies (s s' : Server) : Prop where
  connections : ∀ c, (s'.connections c).map (·.channel) = (s.connections c).map (·.channel)
  channels : ∀ a, (s'.channels a).map (·.connection) = (s.channels a).map (·.connection)

def Backed (s : Server) : Prop :=
  ∀ a y c, s.channels a = some y → y.connection = some c → connectionChannel s c = some a

variable {b : Build} {s s' : Server} {e : Event} {c a : Nat} {env : Environment} {request : OpenRequest}

section Ties

theorem SameTies.refl (s : Server) : SameTies s s := ⟨fun _ => rfl, fun _ => rfl⟩

theorem SameTies.trans {s'' : Server} (h : SameTies s s') (h' : SameTies s' s'') : SameTies s s'' :=
  ⟨fun c => (h'.connections c).trans (h.connections c), fun a => (h'.channels a).trans (h.channels a)⟩

theorem sameTies_setConnection {f : Connection → Connection} (hf : ∀ x, (f x).channel = x.channel) :
    SameTies s (s.setConnection c f) := ⟨modify_part _ hf, fun _ => rfl⟩

theorem sameTies_setChannel {f : SecureChannel → SecureChannel} (hf : ∀ y, (f y).connection = y.connection) :
    SameTies s (s.setChannel a f) := ⟨fun _ => rfl, modify_part _ hf⟩

theorem sameTies_of_onlySessions (h : OnlySessions s s') : SameTies s s' :=
  ⟨fun c => by rw [h.connections], h.part (·.connection) (fun _ => rfl)⟩

theorem connection_revolveTokens (y : SecureChannel) : (revolveTokens y).connection = y.connection := by
  rw [revolveTokens]
  split <;> rfl

theorem sameTies_act (h : Act s s') : SameTies s s' := by
  cases h with
  | connection c f hf => exact sameTies_setConnection hf
  | sequenceNumber a => exact sameTies_setChannel (fun _ => rfl)
  | lifetime now i => exact sameTies_of_onlySessions onlySessions_setSession
  | createSession env channel requested =>
      exact sameTies_of_onlySessions (onlySessions_createSession channel requested)
  | activateSession env a y token identity hy =>
      exact sameTies_of_onlySessions (onlySessions_activateSession token identity)
  | closeSession i => exact sameTies_of_onlySessions onlySessions_closeSession

theorem sameTies_acts (h : Acts s s') : SameTies s s' := by
  induction h with
  | refl => exact .refl s
  | tail _ hact ih => exact ih.trans (sameTies_act hact)

theorem SameTies.connectionChannel_eq (h : SameTies s s') (c : Nat) :
    connectionChannel s' c = connectionChannel s c := by
  have hsame := h.connections c
  rw [connectionChannel, connectionChannel]
  cases hx : s.connections c <;> cases hx' : s'.connections c <;> simp_all

theorem Backed.congr (h : Backed s) (hsame : SameTies s s') : Backed s' := by
  intro a y c hy hc
  obtain ⟨y', hy', hpart⟩ := map_eq_some_of (hsame.channels a) hy
  rw [hsame.connectionChannel_eq]
  exact h a y' c hy' (hpart.trans hc)

end Ties

section Steps

theorem connectionChannel_congr (h : s'.connections c = s.connections c) :
    connectionChannel s' c = connectionChannel s c := by
  rw [connectionChannel, connectionChannel, h]

theorem connectionChannel_modify {f : Connection → Connection} {c' : Nat} (hne : c' ≠ c)
    (h : s'.connections = s.connections.modify c f) : connectionChannel s' c' = connectionChannel s c' := by
  apply connectionChannel_congr
  rw [h, modify_of_ne hne]

theorem detach_connectionChannel : connectionChannel (detachSecureChannel s c) c = none := by
  rw [connectionChannel, detach_connections, modify_self]
  cases s.connections c <;> rfl

/-- A channel that is connected after the detaching is not the one that is
detached. -/
theorem detach_channels_eq {y : SecureChannel} (hy : (detachSecureChannel s c).channels a = some y)
    {c' : Nat} (hc : y.connection = some c') : connectionChannel s c ≠ some a ∧ s.channels a = some y := by
  have hne : connectionChannel s c ≠ some a := by
    intro ha
    have hchannels : (detachSecureChannel s c).channels a =
        (s.channels a).map (fun x => { x with connection := none }) := by
      rw [connectionChannel] at ha
      rw [detachSecureChannel, ha]
      exact modify_self
    rw [hchannels] at hy
    obtain ⟨x, _, rfl⟩ := Option.map_eq_some_iff.mp hy
    cases hc
  exact ⟨hne, (detach_channels_of_ne hne).symm.trans hy⟩

theorem backed_detachSecureChannel (h : Backed s) : Backed (detachSecureChannel s c) := by
  intro a y c' hy hc
  obtain ⟨hne, hy⟩ := detach_channels_eq hy hc
  have hback := h a y c' hy hc
  rw [connectionChannel_modify _ detach_connections]
  · exact hback
  · rintro rfl
    exact hne hback

theorem backed_disconnect (h : Backed s) (y : SecureChannel) : Backed (disconnect s y) := by
  rw [disconnect]
  split
  · exact h
  · exact (backed_detachSecureChannel h).congr (sameTies_setConnection (fun _ => rfl))

theorem backed_removeChannel (h : Backed s) : Backed (removeChannel s a) := by
  intro a' y' c hy' hc
  cases hy : s.channels a with
  | none =>
      obtain ⟨hconn, hchan, _⟩ := removeChannel_of_none hy
      rw [connectionChannel, hconn]
      rw [hchan] at hy'
      exact h a' y' c hy' hc
  | some y =>
      obtain ⟨hconn, hchan, _⟩ := removeChannel_spec hy
      have hne : a' ≠ a := by
        rintro rfl
        rw [removeChannel_self] at hy'
        cases hy'
      rw [connectionChannel, hconn]
      rw [hchan a' hne] at hy'
      exact backed_disconnect h y a' y' c hy' hc

theorem backed_closeSecureChannel (h : Backed s) (channelId : UInt32) :
    Backed (closeSecureChannel s channelId) := by
  rw [closeSecureChannel, closeChannel]
  split
  · exact h
  · exact backed_removeChannel h

theorem backed_cleanupChannels (now : DateTime) (h : Backed s) : Backed (cleanupChannels s now) := by
  rw [cleanupChannels]
  generalize s.secureChannelManager.channels = l
  induction l generalizing s with
  | nil => exact h
  | cons a l ih =>
      apply ih
      rw [cleanupChannel]
      split
      · exact h
      split
      · exact backed_removeChannel h
      split
      · exact h.congr (sameTies_setChannel connection_revolveTokens)
      · exact h

def Grants (env : Environment) (s : Server) (request : OpenRequest) : Prop :=
  request.requestType = issue ∧ request.securityMode = securityModeNone ∧
    s.secureChannelManager.currentChannelCount < s.secureChannelManager.maxChannelCount ∧
    (s.channels.allocate env.newChannel).isSome = true

/-- The new channel and the connection of the request point to each other. -/
def Opened (env : Environment) (s : Server) (c : Nat) (request : OpenRequest) (a : Nat) : Server :=
  { s with
    connections := s.connections.modify c (fun x => { x with channel := some a })
    channels := s.channels.store a
      { issuedChannel s.secureChannelManager (env.now 0) request with connection := some c }
    secureChannelManager :=
      { s.secureChannelManager with
        channels := a :: s.secureChannelManager.channels
        currentChannelCount := s.secureChannelManager.currentChannelCount + 1
        lastChannelId := s.secureChannelManager.lastChannelId + 1
        lastTokenId := s.secureChannelManager.lastTokenId + 1 } }

theorem openChannel_cases (env : Environment) (s : Server) (c : Nat) (request : OpenRequest)
    (hissue : request.requestType = issue) :
    ¬ Grants env s request ∧ (openChannel env s c request).2 = s ∨
      Grants env s request ∧ ∃ a, s.channels a = none ∧
        (openChannel env s c request).2 = Opened env s c request a := by
  rw [openChannel]
  dsimp only
  split
  · rename_i hmode
    exact .inl ⟨fun h => hmode h.2.1, rfl⟩
  rename_i hmode
  split
  · rename_i hfull
    exact .inl ⟨fun h => absurd h.2.2.1 (Nat.not_lt.mpr hfull), rfl⟩
  rename_i hroom
  split
  · rename_i hnone
    refine .inl ⟨fun h => ?_, rfl⟩
    rw [Grants, hnone] at h
    exact absurd h.2.2.2 Bool.false_ne_true
  · rename_i a ha
    refine .inr ⟨⟨hissue, not_not.mp hmode, Nat.not_le.mp hroom, by rw [ha]; rfl⟩, a,
      (allocate_eq_some.mp ha).2, ?_⟩
    rw [attachNew_eq rfl]
    rfl

theorem backed_opened (h : Backed s) (hestablished : established s c = true)
    (hnone : connectionChannel s c = none) (hfree : s.channels a = none) : Backed (Opened env s c request a) := by
  intro a' y c' hy hc
  rcases store_eq_some.mp hy with ⟨rfl, rfl⟩ | ⟨hne, hy⟩
  · obtain rfl := Option.some.inj hc
    rw [established] at hestablished
    split at hestablished
    · cases hestablished
    · rename_i x hx
      rw [connectionChannel]
      change ((s.connections.modify c _) c).bind _ = _
      rw [modify_self, hx]
      rfl
  · have hback := h a' y c' hy hc
    have hne : c' ≠ c := by
      rintro rfl
      rw [hnone] at hback
      cases hback
    rw [connectionChannel_modify hne rfl]
    exact hback

theorem sameTies_renewChannel (env : Environment) (s : Server) (c : Nat) (request : OpenRequest) :
    SameTies s (renewChannel env s c request).2 := by
  rw [renewChannel]
  split
  · exact .refl s
  dsimp only
  split
  · exact .refl s
  split
  · exact .refl s
  · exact ⟨fun _ => rfl, modify_part _ (fun _ => rfl)⟩

end Steps

section Runs

theorem step_opens (h : OpensWith b s e c env request) :
    Acts (openSecureChannel env s c request).2 (step b s e) := by
  obtain ⟨st, x, st', r, st'', rfl, hheader, htype, hestablished, hdecode, hnumeric, rfl⟩ := h
  obtain ⟨messageTypeAndFinal, messageSize⟩ := x
  obtain ⟨channelId, asymmetric, sequence, requestType, request⟩ := r
  rw [step, MessageHandlers.pass, hheader]
  dsimp only at htype ⊢
  rw [htype, dispatch, skipTo_server, processOPN, hestablished, hdecode]
  dsimp only at hnumeric ⊢
  rw [if_neg (not_not.mpr hnumeric)]
  exact acts_answerOPN

/-- No channel is opened on a connection that has one, and only connections
without a channel are freed. -/
def Orderly (b : Build) (s : Server) (e : Event) : Prop :=
  (∀ c env request, OpensWith b s e c env request → Grants env s request → connectionChannel s c = none) ∧
    ∀ c, e = .free c → connectionChannel s c = none

theorem backed_pass (hlinked : Linked s) (h : Backed s) {st : Dec}
    (horderly : Orderly b s (.message c env st)) : Backed (pass b env s c st).server := by
  rcases pass_cases b env c st hlinked with
    hacts | ⟨channelId, hacts⟩ | ⟨st', a, _, _, hacts⟩ | ⟨st', ⟨x, hheader, htype⟩, hopn⟩
  · exact h.congr (sameTies_acts hacts)
  · exact (backed_closeSecureChannel h channelId).congr (sameTies_acts hacts)
  · exact (h.congr (sameTies_setChannel connection_revolveTokens)).congr (sameTies_acts hacts)
  · rw [hopn]
    rcases processOPN_cases b env s c st' with hclose | ⟨r, st'', hestablished, hdecode, hnumeric, hacts⟩
    · rw [hclose]
      exact h.congr (sameTies_setConnection (fun _ => rfl))
    · refine Backed.congr ?_ (sameTies_acts hacts)
      rw [openSecureChannel]
      split
      · rename_i hissue
        rcases openChannel_cases env s c _ hissue with ⟨_, hsame⟩ | ⟨hgrants, a, hfree, hopened⟩
        · rw [hsame]
          exact h
        · rw [hopened]
          have hopens : OpensWith b s (.message c env st) c env _ :=
            ⟨st, x, st', r, st'', rfl, hheader, htype, hestablished, hdecode, hnumeric, rfl⟩
          exact backed_opened h hestablished (horderly.1 c env _ hopens hgrants) hfree
      · exact h.congr (sameTies_renewChannel env s c _)

theorem backed_step (hlinked : Linked s) (h : Backed s) (horderly : Orderly b s e) : Backed (step b s e) := by
  cases e with
  | connect c connection =>
      rw [step, connect]
      split
      · rename_i hnone
        intro a y c' hy hc
        have hback := h a y c' hy hc
        have hne : c' ≠ c := by
          rintro rfl
          rw [connectionChannel, hnone] at hback
          cases hback
        refine Eq.trans (connectionChannel_congr ?_) hback
        exact if_neg hne
      · exact h
  | detach c => exact backed_detachSecureChannel h
  | free c =>
      intro a y c' hy hc
      have hback := h a y c' hy hc
      have hne : c' ≠ c := by
        rintro rfl
        rw [horderly.2 c' rfl] at hback
        cases hback
      refine Eq.trans (connectionChannel_congr ?_) hback
      exact if_neg hne
  | message c env st => exact backed_pass hlinked h horderly
  | cleanup now =>
      have hsessions : Backed (cleanupSessions s now) :=
        h.congr (sameTies_of_onlySessions (onlySessions_cleanupSessions now s))
      exact backed_cleanupChannels now hsessions

/-- Channel and connection point to each other, a connection has one channel,
and the end of a channel is not the detaching of another one. -/
structure Agreement (s : Server) : Prop where
  agree : ∀ a ∈ s.secureChannelManager.channels, ∀ y, s.channels a = some y →
    ∀ c, y.connection = some c ↔ connectionChannel s c = some a
  unique : ∀ a a' y y' c, s.channels a = some y → s.channels a' = some y' →
    y.connection = some c → y'.connection = some c → a = a'
  separate : ∀ a a', a' ≠ a →
    ((removeChannel s a).channels a').map (·.connection) = (s.channels a').map (·.connection)

theorem disconnect_ties (h : Backed s) {y : SecureChannel} (hy : s.channels a = some y) {a' : Nat}
    (hne : a' ≠ a) : (disconnect s y).channels a' = s.channels a' := by
  rw [disconnect]
  split
  · rfl
  · rename_i c hc
    have hback := h a y c hy hc
    apply detach_channels_of_ne
    intro ha'
    exact hne (Option.some.inj (ha'.symm.trans hback))

theorem Backed.agreement (h : Backed s) (hlinked : Linked s) : Agreement s := by
  refine ⟨?_, ?_, ?_⟩
  · intro a _ y hy c
    refine ⟨h a y c hy, fun hback => ?_⟩
    obtain ⟨x, hx, hxa⟩ := Option.bind_eq_some_iff.mp hback
    exact hlinked.connection_unique hx hxa hy
  · intro a a' y y' c hy hy' hc hc'
    exact Option.some.inj ((h a y c hy hc).symm.trans (h a' y' c hy' hc'))
  · intro a a' hne
    cases hy : s.channels a with
    | none => rw [(removeChannel_of_none hy).2.1]
    | some y => rw [(removeChannel_spec hy).2.1 a' hne, disconnect_ties h hy hne]

theorem Agreement.orderly (hlinked : Linked s) (hlisted : Listed s) (h : Agreement (step b s e)) :
    Orderly b s e := by
  have hlast : ∀ c, connectionChannel s c ≠ none → ∃ a y, connectionChannel s c = some a ∧
      s.channels a = some y ∧ y.connection = some c := by
    intro c hc
    obtain ⟨a, ha⟩ := Option.ne_none_iff_exists'.mp hc
    obtain ⟨y, hy, hyc⟩ := Linked.channel_live hlinked ha
    exact ⟨a, y, ha, hy, hyc⟩
  constructor
  · intro c env request hopens hgrants
    by_contra hc
    obtain ⟨a, y, ha, hy, hyc⟩ := hlast c hc
    have hacts := step_opens hopens
    rw [openSecureChannel, if_pos hgrants.1] at hacts
    rcases openChannel_cases env s c request hgrants.1 with ⟨hnot, _⟩ | ⟨_, a', hfree, hopened⟩
    · exact hnot hgrants
    · rw [hopened] at hacts
      have hne : a ≠ a' := by
        rintro rfl
        rw [hfree] at hy
        cases hy
      have hkept : (Opened env s c request a').channels a = some y := (if_neg hne).trans hy
      obtain ⟨y', hy', hpart⟩ := map_eq_some_of ((sameTies_acts hacts).channels a).symm hkept
      have hlist : (step b s e).secureChannelManager.channels = a' :: s.secureChannelManager.channels := by
        rw [(sameTokens_acts hacts).manager]
        rfl
      have hagree := (h.agree a (by rw [hlist]; exact List.mem_cons_of_mem _ (hlisted hy)) y' hy' c).mp
        (hpart.trans hyc)
      rw [(sameTies_acts hacts).connectionChannel_eq] at hagree
      obtain ⟨x, hx, _⟩ := Option.bind_eq_some_iff.mp ha
      have hnew : connectionChannel (Opened env s c request a') c = some a' := by
        rw [connectionChannel]
        change ((s.connections.modify c _) c).bind _ = _
        rw [modify_self, hx]
        rfl
      exact hne (Option.some.inj (hagree.symm.trans hnew))
  · rintro c rfl
    by_contra hc
    obtain ⟨a, y, ha, hy, hyc⟩ := hlast c hc
    have hagree := (h.agree a (hlisted hy) y hy c).mp hyc
    have hgone : connectionChannel (step b s (.free c)) c = none := by
      rw [step, connectionChannel]
      change ((s.connections.free c) c).bind _ = _
      rw [Heap.free, if_pos rfl]
      rfl
    rw [hgone] at hagree
    cases hagree

theorem backed_run (config : Config) (events : List Event)
    (horderly : ∀ before e, before ++ [e] <+: events → Orderly b (run b (newServer config) before) e) :
    Backed (run b (newServer config) events) := by
  induction events using List.reverseRecOn with
  | nil =>
      intro a y c hy
      cases hy
  | append_singleton events e ih =>
      rw [run_concat]
      refine backed_step (linked_run config events) (ih ?_) (horderly events e List.prefix_rfl)
      intro before e' hinitial
      exact horderly before e' (hinitial.trans (List.prefix_append events [e]))

/-- Channels and connections agree in every state of a run if and only if
every step is orderly. -/
theorem channels_agree_iff (b : Build) (config : Config) (events : List Event) :
    (∀ before, before <+: events → Agreement (run b (newServer config) before)) ↔
      ∀ before e, before ++ [e] <+: events → Orderly b (run b (newServer config) before) e := by
  constructor
  · intro hagree before e hinitial
    have hstep := hagree (before ++ [e]) hinitial
    rw [run_concat] at hstep
    exact hstep.orderly (linked_run config before) (listed_run config before).1
  · intro horderly before hinitial
    refine (backed_run config before ?_).agreement (linked_run config before)
    intro before' e hinitial'
    exact horderly before' e (hinitial'.trans hinitial)

def sampleReopening : List Event :=
  sampleOpening ++ [.message 0 { sampleEnvironment with newChannel := some 1 } ⟨sampleOpen, 0, [], []⟩]

/-- Both channels point to the connection 0, which points to the second one.
The end of the first channel detaches the second one. -/
theorem sampleReopening_disagrees :
    let s := run standardBuild (newServer ⟨true, false, []⟩) sampleReopening
    s.secureChannelManager.channels = [1, 0] ∧ (s.channels 0).map (·.connection) = some (some 0) ∧
      (s.channels 1).map (·.connection) = some (some 0) ∧ connectionChannel s 0 = some 1 ∧
      ((closeSecureChannel s 1).channels 1).map (·.connection) = some none ∧
      ¬ Agreement s := by
  intro s
  have hfacts : s.secureChannelManager.channels = [1, 0] ∧ (s.channels 0).map (·.connection) = some (some 0) ∧
      (s.channels 1).map (·.connection) = some (some 0) ∧ connectionChannel s 0 = some 1 ∧
      ((closeSecureChannel s 1).channels 1).map (·.connection) = some none := by
    decide +kernel
  obtain ⟨hlist, hfirst, hsecond, hconnection, hclosed⟩ := hfacts
  refine ⟨hlist, hfirst, hsecond, hconnection, hclosed, fun h => ?_⟩
  obtain ⟨y, hy, hc⟩ := Option.map_eq_some_iff.mp hfirst
  obtain ⟨y', hy', hc'⟩ := Option.map_eq_some_iff.mp hsecond
  have hsame := h.unique 0 1 y y' 0 hy hy' hc hc'
  cases hsame

end Runs

end OpcUa.ChannelConnections
