import OpcUa.TokenRenewal

namespace OpcUa.TokenOverlap

open StatusCodes NodeIds Connections Heaps Readers Decoding Servers SecureChannels Sessions ServiceTable
open MessageHandlers ServerLinks LinkedOperations HandlerSteps SessionGating
open ChannelTokens LoopDispatch TokenChecks ChannelConnections ManagerLists TokenRenewal Relation

variable {b : Build} {s s' : Server} {e : Event} {c a : Nat} {env : Environment} {request : OpenRequest}
  {old new : SecurityToken}

/-- The event is a MSG message on the channel with the token. -/
def Uses (s : Server) (e : Event) (a : Nat) (tokenId : UInt32) : Prop :=
  ∃ c env st st', e = .message c env st ∧ Starts st .msg st' ∧ connectionChannel s c = some a ∧
    (securityHeaders st').1.1 = (channelToken s (some a)).channelId ∧ (securityHeaders st').1.2.1 = tokenId

/-- The channel outlives the event, which neither issues another token nor uses
the new one. -/
def Waits (b : Build) (s : Server) (e : Event) (a : Nat) (new : SecurityToken) : Prop :=
  (∀ token, ¬ Issues b s e a token) ∧ ¬ Uses s e a new.tokenId ∧ (step b s e).channels a ≠ none

/-- A renewal has issued the new token for the channel, which had the old one,
and since then the new one has not been used. -/
def Renewed (b : Build) (s : Server) (events : List Event) (a : Nat) (old new : SecurityToken) : Prop :=
  ∃ before e after y, events = before ++ e :: after ∧ Issues b (run b s before) e a new ∧
    (run b s before).channels a = some y ∧ y.securityToken = old ∧
    ∀ mid e', mid ++ [e'] <+: after → Waits b (run b s (before ++ e :: mid)) e' a new

/-- The channel has the old token, and the new one is in its slot. -/
def Holds (s : Server) (a : Nat) (old new : SecurityToken) : Prop :=
  (s.channels a).map tokens = some (old, new)

/-- The sweep meets no connected channel with a pending token, except for one
both of whose tokens have expired. A token with the id 0 is not promoted. -/
def Calm (s : Server) (now : DateTime) : Prop :=
  ∀ a ∈ s.secureChannelManager.channels, ∀ y, s.channels a = some y → y.connection ≠ none →
    y.nextSecurityToken ≠ SecurityToken.init →
    (expired now y.securityToken = true → expired now y.nextSecurityToken = true) ∧
      (expired now y.securityToken = false → y.nextSecurityToken.tokenId = 0)

section Holding

theorem Holds.congr (h : Holds s a old new) (hsame : SameTokens s s') : Holds s' a old new :=
  (hsame.channels a).trans h

theorem Holds.channel (h : Holds s a old new) :
    ∃ y, s.channels a = some y ∧ y.securityToken = old ∧ y.nextSecurityToken = new := by
  obtain ⟨y, hy, htokens⟩ := Option.map_eq_some_iff.mp h
  exact ⟨y, hy, congrArg Prod.fst htokens, congrArg Prod.snd htokens⟩

theorem Holds.modify_of_ne (h : Holds s a old new) {a' : Nat} (hne : a ≠ a')
    {f : SecureChannel → SecureChannel} (hs' : s'.channels = s.channels.modify a' f) : Holds s' a old new := by
  rw [Holds, hs', Heaps.modify_of_ne hne]
  exact h

theorem Holds.removeChannel (h : Holds s a old new) {a' : Nat} (halive : (removeChannel s a').channels a ≠ none) :
    Holds (removeChannel s a') a old new := by
  have hne : a ≠ a' := by
    rintro rfl
    exact halive removeChannel_self
  have hmembers : Holds (deleteChannelMembers s a') a old new := h.congr sameTokens_deleteChannelMembers
  have hfree : (SecureChannels.removeChannel s a').channels a = (deleteChannelMembers s a').channels a :=
    if_neg hne
  rw [Holds, hfree]
  exact hmembers

theorem holds_closeSecureChannel (h : Holds s a old new) {channelId : UInt32}
    (halive : (closeSecureChannel s channelId).channels a ≠ none) :
    Holds (closeSecureChannel s channelId) a old new := by
  rw [closeSecureChannel, closeChannel] at halive ⊢
  split at halive
  · exact h
  · exact h.removeChannel halive

theorem alive_of_sameTokens (h : SameTokens s s') (halive : s'.channels a ≠ none) : s.channels a ≠ none := by
  intro hnone
  have hsame := h.channels a
  rw [hnone, Option.map_none, Option.map_eq_none_iff] at hsame
  exact halive hsame

theorem renewChannel_channels {y : SecureChannel} (ha : connectionChannel s c = some a)
    (hy : s.channels a = some y) (hnone : y.nextSecurityToken.tokenId = 0) :
    (renewChannel env s c request).2.channels a =
      some { y with nextSecurityToken := renewedToken s.secureChannelManager env request y } := by
  rw [connectionChannel] at ha
  rw [renewChannel, ha]
  dsimp only
  rw [hy]
  dsimp only
  rw [if_neg (not_not.mpr hnone)]
  dsimp only
  rw [Server.setChannel_channels, modify_self, hy]
  rfl

theorem holds_issues {y : SecureChannel} (hissues : Issues b s e a new) (hy : s.channels a = some y)
    (hold : y.securityToken = old) : Holds (step b s e) a old new := by
  obtain ⟨c, env, request, y', hopens, hrenew, ha, hy', hnone, rfl⟩ := hissues
  rw [hy] at hy'
  obtain rfl := Option.some.inj hy'
  have hacts := step_opens hopens
  refine Holds.congr ?_ (sameTokens_acts hacts)
  rw [Holds, openSecureChannel, if_neg hrenew, renewChannel_channels ha hy hnone, ← hold]
  rfl

theorem holds_openSecureChannel (h : Holds s a old new)
    (hwaits : ∀ y, connectionChannel s c = some a → request.requestType ≠ issue → s.channels a = some y →
      y.nextSecurityToken.tokenId ≠ 0) : Holds (openSecureChannel env s c request).2 a old new := by
  obtain ⟨y, hy, _⟩ := h.channel
  rw [openSecureChannel]
  split
  · rename_i hissue
    rcases openChannel_cases env s c request hissue with ⟨_, hsame⟩ | ⟨_, a', hfree, hopened⟩
    · rw [hsame]
      exact h
    · have hne : a ≠ a' := by
        rintro rfl
        rw [hfree] at hy
        cases hy
      have hkept : (Opened env s c request a').channels a = s.channels a := if_neg hne
      rw [hopened, Holds, hkept]
      exact h
  · rename_i hrenew
    rcases renewChannel_cases env s c request with hsame | ⟨a', y', ha', hy', hnone, hchannels, _⟩
    · rw [hsame]
      exact h
    · refine h.modify_of_ne ?_ hchannels
      rintro rfl
      exact hwaits y' ha' hrenew hy' hnone

theorem holds_pass {st : Dec} (hlinked : Linked s) (h : Holds s a old new)
    (hwaits : Waits b s (.message c env st) a new) : Holds (pass b env s c st).server a old new := by
  obtain ⟨hissues, huses, halive⟩ := hwaits
  rw [step] at halive
  obtain ⟨y, hy, hcurrent, hnext⟩ := h.channel
  rcases pass_cases b env c st hlinked with
    hacts | ⟨channelId, hacts⟩ | ⟨st', a', hstarts, hrevolves, hacts⟩ | ⟨st', ⟨x, hheader, htype⟩, hopn⟩
  · exact h.congr (sameTokens_acts hacts)
  · have hclosed := alive_of_sameTokens (sameTokens_acts hacts) halive
    exact (holds_closeSecureChannel h hclosed).congr (sameTokens_acts hacts)
  · refine (h.modify_of_ne ?_ rfl).congr (sameTokens_acts hacts)
    rintro rfl
    obtain ⟨ha, hid, _, htoken⟩ := hrevolves
    rw [nextToken_eq hy, hnext] at htoken
    exact huses ⟨c, env, st, st', rfl, hstarts, ha, hid, htoken⟩
  · rw [hopn]
    rcases processOPN_cases b env s c st' with hclose | ⟨r, st'', hestablished, hdecode, hnumeric, hacts⟩
    · rw [hclose]
      exact h.congr sameTokens_setConnection
    · refine (holds_openSecureChannel h ?_).congr (sameTokens_acts hacts)
      intro y' ha hrenew hy' hnone
      have hopens : OpensWith b s (.message c env st) c env _ :=
        ⟨st, x, st', r, st'', rfl, hheader, htype, hestablished, hdecode, hnumeric, rfl⟩
      exact hissues _ ⟨c, env, _, y', hopens, hrenew, ha, hy', hnone, rfl⟩

/-- Where the sweep stands with the channel: it is gone, or it still holds both
tokens and has not been connected anew. -/
def Swept (s : Server) (a : Nat) (old new : SecurityToken) (unconnected : Prop) : Prop :=
  s.channels a = none ∨ ∃ y, s.channels a = some y ∧ tokens y = (old, new) ∧
    (unconnected → y.connection = none)

theorem cleanupChannel_none (now : DateTime) (hnone : s.channels a = none) (a' : Nat) :
    (cleanupChannel now s a').channels a = none := by
  by_contra hsome
  obtain ⟨y, hy⟩ := Option.ne_none_iff_exists'.mp hsome
  rw [cleanupChannel] at hy
  split at hy
  · cases hnone.symm.trans hy
  split at hy
  · have hmembers : (deleteChannelMembers s a').channels a = some y := (free_eq_some.mp hy).2
    obtain ⟨y', hy', _⟩ := map_eq_some_of (sameTokens_deleteChannelMembers.channels a) hmembers
    cases hnone.symm.trans hy'
  split at hy
  · rcases modify_eq_some.mp hy with ⟨rfl, x, hx, _⟩ | ⟨_, hy⟩
    · cases hnone.symm.trans hx
    · cases hnone.symm.trans hy
  · cases hnone.symm.trans hy

theorem channels_disconnect {y : SecureChannel} (hy : s.channels a = some y) (y' : SecureChannel) :
    (disconnect s y').channels a = some y ∨ (disconnect s y').channels a = some { y with connection := none } := by
  rw [disconnect]
  split
  · exact .inl hy
  · rename_i c hc
    by_cases ha : connectionChannel s c = some a
    · refine .inr ?_
      rw [connectionChannel] at ha
      rw [close, Server.setConnection_channels, detachSecureChannel, ha]
      change s.channels.modify a _ a = _
      rw [modify_self, hy]
      rfl
    · exact .inl ((detach_channels_of_ne ha).trans hy)

theorem swept_cleanupChannel {now : DateTime} {unconnected : Prop}
    (hcalm : ¬ unconnected → expired now old = false → new.tokenId = 0) (h : Swept s a old new unconnected)
    (a' : Nat) : Swept (cleanupChannel now s a') a old new unconnected := by
  rcases h with hnone | ⟨y, hy, htokens, hunconnected⟩
  · exact .inl (cleanupChannel_none now hnone a')
  · have hcurrent : y.securityToken = old := congrArg Prod.fst htokens
    have hnext : y.nextSecurityToken = new := congrArg Prod.snd htokens
    by_cases hne : a = a'
    · -- its turn
      subst hne
      rw [cleanupChannel, hy]
      dsimp only
      split
      · exact .inl removeChannel_self
      · rename_i hstays
        rw [hcurrent] at hstays
        have hzero : new.tokenId = 0 := by
          refine hcalm (fun hun => hstays (.inr (hunconnected hun))) ?_
          exact eq_false_of_ne_true (fun hexpired => hstays (.inl hexpired))
        rw [hnext, hzero, if_neg (by decide)]
        exact .inr ⟨y, hy, htokens, hunconnected⟩
    · rw [cleanupChannel]
      split
      · exact .inr ⟨y, hy, htokens, hunconnected⟩
      rename_i y' hy'
      split
      · rw [Swept, (removeChannel_spec hy').2.1 a hne]
        rcases channels_disconnect hy y' with heq | heq
        · exact .inr ⟨y, heq, htokens, hunconnected⟩
        · exact .inr ⟨_, heq, htokens, fun _ => rfl⟩
      split
      · refine .inr ⟨y, ?_, htokens, hunconnected⟩
        exact (Heaps.modify_of_ne hne).trans hy
      · exact .inr ⟨y, hy, htokens, hunconnected⟩

theorem holds_cleanup (now : DateTime) (hlisted : Listed s) (h : Holds s a old new) (hnew : new ≠ SecurityToken.init)
    (halive : (step b s (.cleanup now)).channels a ≠ none) (hcalm : Calm s now) :
    Holds (step b s (.cleanup now)) a old new := by
  obtain ⟨y, hy, hcurrent, hnext⟩ := h.channel
  have hsessions := onlySessions_cleanupSessions now s
  obtain ⟨y', hy', hpart⟩ := map_eq_some_of (hsessions.channels a).symm hy
  have hsame := SecureChannel.mk.inj hpart
  have hstart : Swept (cleanupSessions s now) a old new (y.connection = none) := by
    refine .inr ⟨y', hy', ?_, fun hnone => hsame.2.2.2.1.trans hnone⟩
    rw [tokens, hsame.1, hsame.2.1, hcurrent, hnext]
  have hcalm' : ¬ y.connection = none → expired now old = false → new.tokenId = 0 := by
    intro hc hlife
    rw [← hcurrent] at hlife
    rw [← hnext]
    exact (hcalm a (hlisted hy) y hy hc (by rw [hnext]; exact hnew)).2 hlife
  have hend : Swept (step b s (.cleanup now)) a old new (y.connection = none) := by
    rw [step, cleanupChannels]
    generalize (cleanupSessions s now).secureChannelManager.channels = l
    generalize cleanupSessions s now = s₁ at hstart
    induction l generalizing s₁ with
    | nil => exact hstart
    | cons a' l ih => exact ih _ (swept_cleanupChannel hcalm' hstart a')
  rcases hend with hnone | ⟨y₁, hy₁, htokens, _⟩
  · exact absurd hnone halive
  · rw [Holds, hy₁, Option.map_some, htokens]

theorem holds_step (hlinked : Linked s) (hlisted : Listed s) (h : Holds s a old new)
    (hnew : new ≠ SecurityToken.init) (hwaits : Waits b s e a new) (hcalm : ∀ now, e = .cleanup now → Calm s now) :
    Holds (step b s e) a old new := by
  cases e with
  | connect c connection =>
      refine h.congr ?_
      rw [step, connect]
      split
      · exact ⟨fun _ => rfl, rfl⟩
      · exact .refl s
  | detach c => exact h.congr sameTokens_detachSecureChannel
  | free c => exact h.congr ⟨fun _ => rfl, rfl⟩
  | message c env st => exact holds_pass hlinked h hwaits
  | cleanup now => exact holds_cleanup now hlisted h hnew hwaits.2.2 (hcalm now rfl)

end Holding

section Runs

variable {config : Config} {events : List Event}

def Calmly (b : Build) : Server → List Event → Prop
  | _, [] => True
  | s, e :: events => (∀ now, e = .cleanup now → Calm s now) ∧ Calmly b (step b s e) events

theorem calmly_append (events events' : List Event) :
    Calmly b s (events ++ events') ↔ Calmly b s events ∧ Calmly b (run b s events) events' := by
  induction events generalizing s with
  | nil => exact ⟨fun h => ⟨trivial, h⟩, fun h => h.2⟩
  | cons e events ih =>
      rw [List.cons_append, Calmly, Calmly, ih, and_assoc]
      rfl

theorem Calmly.cleanup {now : DateTime} {before : List Event} (h : Calmly b s events)
    (hinitial : before ++ [.cleanup now] <+: events) : Calm (run b s before) now := by
  obtain ⟨after, rfl⟩ := hinitial
  rw [calmly_append, calmly_append] at h
  exact h.1.2.1 now rfl

theorem Renewed.holds (hcalm : Calmly b (newServer config) events)
    (h : Renewed b (newServer config) events a old new) :
    Holds (run b (newServer config) events) a old new ∧ new ≠ SecurityToken.init := by
  obtain ⟨before, e, after, y, rfl, hissues, hy, hold, hwaits⟩ := h
  have hnew : new ≠ SecurityToken.init := by
    obtain ⟨c, env, request, y', _, _, _, _, _, rfl⟩ := hissues
    intro hinit
    exact revisedLifetime_ne_zero (listed_run config before).2 _ (congrArg SecurityToken.revisedLifetime hinit)
  refine ⟨?_, hnew⟩
  induction after using List.reverseRecOn with
  | nil =>
      rw [run_concat]
      exact holds_issues hissues hy hold
  | append_singleton after e' ih =>
      have hall : before ++ e :: (after ++ [e']) = before ++ e :: after ++ [e'] := by simp
      rw [hall, calmly_append] at hcalm
      rw [hall, run_concat]
      refine holds_step (linked_run config _) (listed_run config _).1 (ih hcalm.1 ?_) hnew
        (hwaits after e' List.prefix_rfl) hcalm.2.1
      intro mid e'' hinitial
      exact hwaits mid e'' (hinitial.trans (List.prefix_append after [e']))

/-- The request in the message is processed on the channel. -/
def Accepts (b : Build) (env : Environment) (s : Server) (c a : Nat) (st : Dec) : Prop :=
  ∀ id st', attempt nodeIdDecodeBinary (securityHeaders st).2 = (.ok id, st') →
    processMSG b env s c st = processRequest b env s c (some a) (securityHeaders st).1.2.2 id st'

theorem processChecked_current {y : SecureChannel} {st : Dec} (ha : connectionChannel s c = some a)
    (hy : s.channels a = some y) {requestId : UInt32} {requestTypeId : NodeId} :
    processChecked b env s c y.securityToken.channelId y.securityToken.tokenId requestId requestTypeId st =
      processRequest b env s c (some a) requestId requestTypeId st := by
  unfold processChecked
  dsimp only
  rw [ha, channelToken_eq hy, if_neg (not_not.mpr rfl), if_neg (not_not.mpr rfl)]

theorem Holds.accepts {st : Dec} (h : Holds s a old new) (ha : connectionChannel s c = some a)
    (hid : (securityHeaders st).1.1 = old.channelId) (htoken : (securityHeaders st).1.2.1 = old.tokenId) :
    Accepts b env s c a st := by
  intro id st' hdecode
  obtain ⟨y, hy, rfl, _⟩ := h.channel
  unfold processMSG
  dsimp only
  split
  · rename_i heq
    rw [hdecode] at heq
    cases heq
  · rename_i id' st'' heq
    rw [hdecode] at heq
    obtain ⟨hok, rfl⟩ := Prod.mk.inj heq
    obtain rfl := Except.ok.inj hok
    rw [hid, htoken]
    exact processChecked_current ha hy

theorem not_accepts_of_refused {st : Dec} (hlinked : Linked s) (ha : connectionChannel s c = some a)
    (hdecode : (attempt nodeIdDecodeBinary (securityHeaders st).2).1.isOk = true)
    (hrefused : Refused (processMSG b env s c st) a) : ¬ Accepts b env s c a st := by
  intro haccepts
  obtain ⟨y, hy, _⟩ := Linked.channel_live hlinked ha
  cases hattempt : attempt nodeIdDecodeBinary (securityHeaders st).2 with
  | mk result st' =>
      rw [hattempt] at hdecode
      cases result with
      | error code => cases hdecode
      | ok id =>
          have hacts : Acts s (processRequest b env s c (some a) (securityHeaders st).1.2.2 id st').server := by
            apply acts_processRequest hlinked
            rintro a' ⟨⟩
            exact ⟨y, hy⟩
          have hnone := hrefused.2
          rw [haccepts id st' hattempt] at hnone
          obtain ⟨y', hy', _⟩ := map_eq_some_of ((sameTokens_acts hacts).channels a).symm hy
          rw [hnone] at hy'
          cases hy'

/-- Between a renewal and the first use of the new token, the old token is
accepted during its lifetime, and no sweep ends a connected channel during the
lifetime of its token or of the pending one. -/
structure Overlap (b : Build) (config : Config) (events : List Event) : Prop where
  accepted : ∀ before, before <+: events → ∀ a old new c env st,
    Renewed b (newServer config) before a old new →
    connectionChannel (run b (newServer config) before) c = some a →
    (securityHeaders st).1.1 = old.channelId → (securityHeaders st).1.2.1 = old.tokenId →
    expired (env.now 0) old = false → Accepts b env (run b (newServer config) before) c a st
  kept : ∀ before now, before ++ [.cleanup now] <+: events → ∀ a y,
    (run b (newServer config) before).channels a = some y → y.connection ≠ none →
    (expired now y.securityToken = false ∨
      ∃ token, Pending b (newServer config) before a token ∧ expired now token = false) →
    (run b (newServer config) (before ++ [.cleanup now])).channels a ≠ none

/-- A run whose sweeps are all calm lets the tokens overlap. -/
theorem overlap_of_calmly (b : Build) (config : Config) (events : List Event)
    (hcalm : Calmly b (newServer config) events) : Overlap b config events := by
  constructor
  · rintro before ⟨after, rfl⟩ a old new c env st hrenewed ha hid htoken _
    exact (hrenewed.holds ((calmly_append before after).mp hcalm).1).1.accepts ha hid htoken
  · intro before now hinitial a y hy hc hlife
    have hlisted : Listed (run b (newServer config) before) := (listed_run config before).1
    have hcurrent : expired now y.securityToken = false := by
      rcases hlife with hcurrent | ⟨token, hpending, hlife⟩
      · exact hcurrent
      · by_contra hexpired
        obtain ⟨hslot, hne⟩ := hpending.slot_eq
        rw [slot, hy] at hslot
        obtain rfl := Option.some.inj hslot
        have hboth := (hcalm.cleanup hinitial a (hlisted hy) y hy hc hne).1 (eq_true_of_ne_false hexpired)
        rw [hlife] at hboth
        cases hboth
    rw [run_concat]
    exact cleanup_keeps now (linked_run config before) (newest_run config before) (counted_run config before).2
      hy hc hcurrent

def sampleRenew : List UInt8 :=
  framed [79, 80, 78, 70] (List.replicate 4 0 ++ List.replicate 12 255 ++ List.replicate 8 0 ++ [1, 0, 190, 1] ++
    headerBytes [0, 0] ++ List.replicate 4 0 ++ [1, 0, 0, 0, 1, 0, 0, 0] ++ nullString ++ List.replicate 4 0)

def sampleRenewal : List Event := sampleOpening ++ [.cleanup 0, sampleMessage sampleRenew]

theorem overlap_of_sampleRenewal : Overlap standardBuild ⟨true, false, []⟩ sampleRenewal := by
  refine overlap_of_calmly standardBuild ⟨true, false, []⟩ sampleRenewal ?_
  rw [sampleRenewal, calmly_append]
  have hopening : Calmly standardBuild (newServer ⟨true, false, []⟩) sampleOpening := by
    refine ⟨?_, ?_, ?_, trivial⟩
    all_goals
      intro now h
      cases h
  refine ⟨hopening, ?_, ?_, trivial⟩
  · rintro now - a hmem y hy hc hnext
    have hlist : (run standardBuild (newServer ⟨true, false, []⟩) sampleOpening).secureChannelManager.channels =
        [0] := by decide +kernel
    rw [hlist, List.mem_singleton] at hmem
    subst hmem
    rw [sampleOpening_channel.2] at hy
    obtain rfl := Option.some.inj hy
    exact absurd rfl hnext
  · intro now h
    cases h

/-- The token 2 is issued, the sweep promotes it at once, and a message with
the token 1 closes the channel although the lifetime of the token has not passed. -/
theorem sweep_ends_overlap :
    ¬ Overlap standardBuild ⟨true, false, []⟩ (sampleOpening ++ [sampleMessage sampleRenew, .cleanup 0]) := by
  intro h
  let s := run standardBuild (newServer ⟨true, false, []⟩) sampleOpening
  have hfacts : slot s 0 = some SecurityToken.init ∧
      slot (step standardBuild s (sampleMessage sampleRenew)) 0 = some ⟨1, 2, 0, 600000⟩ ∧
      ((step standardBuild (step standardBuild s (sampleMessage sampleRenew)) (.cleanup 0)).channels 0).map tokens =
        some (⟨1, 2, 0, 600000⟩, SecurityToken.init) ∧
      connectionChannel (step standardBuild (step standardBuild s (sampleMessage sampleRenew)) (.cleanup 0)) 0 =
        some 0 := by
    decide +kernel
  obtain ⟨hempty, hfilled, hpromoted, hconnection⟩ := hfacts
  have hissues : Issues standardBuild s (sampleMessage sampleRenew) 0 ⟨1, 2, 0, 600000⟩ := by
    rcases slot_step (linked_run _ _) hfilled (by decide) with hslot | hissues
    · rw [hempty] at hslot
      exact absurd (Option.some.inj hslot) (by decide)
    · exact hissues
  obtain ⟨y, hy, htokens⟩ := Option.map_eq_some_iff.mp hpromoted
  have hrun : run standardBuild (newServer ⟨true, false, []⟩)
      (sampleOpening ++ [sampleMessage sampleRenew, .cleanup 0]) =
      step standardBuild (step standardBuild s (sampleMessage sampleRenew)) (.cleanup 0) := rfl
  have hrenewed : Renewed standardBuild (newServer ⟨true, false, []⟩)
      (sampleOpening ++ [sampleMessage sampleRenew, .cleanup 0]) 0 ⟨1, 1, 0, 600000⟩ ⟨1, 2, 0, 600000⟩ := by
    refine ⟨sampleOpening, _, [.cleanup 0], sampleChannel, rfl, hissues, sampleOpening_channel.2, rfl, ?_⟩
    intro mid e' hinitial
    obtain ⟨rfl, rfl⟩ : mid = [] ∧ e' = .cleanup 0 := by
      rcases List.prefix_concat_iff.mp (show mid ++ [e'] <+: [] ++ [.cleanup 0] from hinitial) with heq | hnil
      · exact List.append_inj' heq rfl |>.imp id (fun h => (List.cons.inj h).1)
      · exact absurd (List.prefix_nil.mp hnil) (by simp)
    refine ⟨?_, ?_, ?_⟩
    · rintro token ⟨c, env, request, y', ⟨st, x, st', r, st'', hevent, _⟩, _⟩
      cases hevent
    · rintro ⟨c, env, st, st', hevent, _⟩
      cases hevent
    · change (step standardBuild (step standardBuild s (sampleMessage sampleRenew)) (.cleanup 0)).channels 0 ≠ none
      rw [hy]
      exact Option.some_ne_none y
  have haccepts := h.accepted _ List.prefix_rfl 0 _ _ 0 sampleEnvironment (sampleDiscovery 1) hrenewed
    (by rw [hrun]; exact hconnection) (by decide +kernel) (by decide +kernel) (by decide)
  have hdecode : (attempt nodeIdDecodeBinary (securityHeaders (sampleDiscovery 1)).2).1.isOk = true := by
    decide +kernel
  refine not_accepts_of_refused (linked_run _ _) (by rw [hrun]; exact hconnection) hdecode ?_ haccepts
  rw [hrun]
  exact ⟨by decide +kernel, by decide +kernel⟩

end Runs

end OpcUa.TokenOverlap
