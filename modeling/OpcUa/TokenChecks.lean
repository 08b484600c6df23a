import OpcUa.ChannelTokens
import OpcUa.SessionGating

namespace OpcUa.TokenChecks

open StatusCodes NodeIds Connections Heaps DataTypes TypeTable Values Readers Decoding Servers
open SecureChannels Sessions ServiceTable MessageHandlers ServerLinks
open HandlerSteps SessionGating ChannelTokens LoopDispatch

def OpensWith (b : Build) (s : Server) (e : Event) (c : Nat) (env : Environment) (request : OpenRequest) : Prop :=
  ∃ st x st' r st'', e = .message c env st ∧ attempt headerDecodeBinary st = (.ok x, st') ∧
    messageType x.1 = some .opn ∧ established s c = true ∧
    attempt (openDecodeBinary b) st' = (.ok r, st'') ∧ numericBits r.2.2.2.1 = 446 ∧
    request = openRequest ⟨_, r.2.2.2.2⟩

/-- The event renews the channel, and the renewal issues the token. -/
def Issues (b : Build) (s : Server) (e : Event) (a : Nat) (token : SecurityToken) : Prop :=
  ∃ c env request y, OpensWith b s e c env request ∧ request.requestType ≠ issue ∧
    connectionChannel s c = some a ∧ s.channels a = some y ∧ y.nextSecurityToken.tokenId = 0 ∧
    token = renewedToken s.secureChannelManager env request y

/-- The token has been issued by a renewal of the channel, and since then it
has been waiting. -/
def Pending (b : Build) (s : Server) (events : List Event) (a : Nat) (token : SecurityToken) : Prop :=
  ∃ before e after, events = before ++ e :: after ∧ Issues b (run b s before) e a token ∧
    ∀ later, later <+: after → slot (run b s (before ++ e :: later)) a = some token

variable {b : Build} {s : Server} {e : Event} {events : List Event} {a : Nat} {token : SecurityToken}

theorem step_cases (h : Linked s) (e : Event) : Keeps s (step b s e) ∨
    ∃ c env request, OpensWith b s e c env request ∧ Keeps (openSecureChannel env s c request).2 (step b s e) := by
  cases e with
  | connect c connection =>
      refine .inl (SameTokens.keeps ?_)
      rw [step, connect]
      split
      · exact ⟨fun _ => rfl, rfl⟩
      · exact .refl s
  | detach c => exact .inl sameTokens_detachSecureChannel.keeps
  | free c => exact .inl (SameTokens.keeps ⟨fun _ => rfl, rfl⟩)
  | message c env st =>
      have hpass : Ops True s (pass b env s c st).server ∨ _ := pass_ops h
      rcases hpass with hops | ⟨st', ⟨x, hheader, htype⟩, hopn⟩
      · exact .inl (keeps_ops hops)
      · rw [step, hopn]
        rcases processOPN_cases b env s c st' with hclose | ⟨r, st'', hestablished, hdecode, hnumeric, hacts⟩
        · rw [hclose]
          exact .inl sameTokens_setConnection.keeps
        · exact .inr ⟨c, env, _, ⟨st, x, st', r, st'', rfl, hheader, htype, hestablished, hdecode, hnumeric, rfl⟩,
            (sameTokens_acts hacts).keeps⟩
  | cleanup now =>
      exact .inl ((sameTokens_of_onlySessions (onlySessions_cleanupSessions now s)).keeps.trans
        (keeps_cleanupChannels now _))

theorem slot_step (h : Linked s) (hslot : slot (step b s e) a = some token) (hne : token ≠ SecurityToken.init) :
    slot s a = some token ∨ Issues b s e a token := by
  rcases step_cases h e with hkeeps | ⟨c, env, request, hopens, hkeeps⟩
  · exact .inl (hkeeps.slots hslot hne)
  · rcases slot_openSecureChannel (hkeeps.slots hslot hne) hne with hbefore |
      ⟨hrenew, hconnection, y, hy, hnone, htoken⟩
    · exact .inl hbefore
    · exact .inr ⟨c, env, request, y, hopens, hrenew, hconnection, hy, hnone, htoken⟩

theorem pending_of_slot (config : Config) (events : List Event)
    (hslot : slot (run b (newServer config) events) a = some token) (hne : token ≠ SecurityToken.init) :
    Pending b (newServer config) events a token := by
  induction events using List.reverseRecOn with
  | nil => cases hslot
  | append_singleton events e ih =>
      rw [run_concat] at hslot
      rcases slot_step (linked_run config events) hslot hne with hbefore | hissues
      · obtain ⟨before, e', after, rfl, hissues, hwaits⟩ := ih hbefore
        refine ⟨before, e', after ++ [e], by simp, hissues, ?_⟩
        intro later hlater
        rcases List.prefix_concat_iff.mp hlater with rfl | hlater
        · have hall : before ++ e' :: (after ++ [e]) = before ++ e' :: after ++ [e] := by simp
          rw [hall, run_concat]
          exact hslot
        · exact hwaits later hlater
      · refine ⟨events, e, [], rfl, hissues, ?_⟩
        intro later hlater
        obtain rfl := List.prefix_nil.mp hlater
        rw [run_concat]
        exact hslot

theorem listed_run (config : Config) (events : List Event) :
    Listed (run b (newServer config) events) ∧
      (run b (newServer config) events).secureChannelManager.maxChannelLifetime = 600000 := by
  induction events using List.reverseRecOn with
  | nil =>
      refine ⟨?_, rfl⟩
      intro a y h
      cases h
  | append_singleton events e ih =>
      obtain ⟨hlisted, hlifetime⟩ := ih
      rw [run_concat]
      rcases step_cases (b := b) (linked_run config events) e with hkeeps | ⟨c, env, request, _, hkeeps⟩
      · exact ⟨hkeeps.listed hlisted, hkeeps.lifetime.trans hlifetime⟩
      · exact ⟨hkeeps.listed (listed_openSecureChannel hlisted),
          (hkeeps.lifetime.trans lifetime_openSecureChannel).trans hlifetime⟩

theorem revisedLifetime_ne_zero {m : SecureChannelManager} (h : m.maxChannelLifetime = 600000)
    (requested : UInt32) : revisedLifetime m requested ≠ 0 := by
  have hmost : (600000 : UInt32) ≠ 0 := by decide
  rw [revisedLifetime, h]
  generalize (if requested > 600000 then 600000 else requested) = lifetime
  split
  · exact hmost
  · assumption

theorem Pending.slot_eq {config : Config} (h : Pending b (newServer config) events a token) :
    slot (run b (newServer config) events) a = some token ∧ token ≠ SecurityToken.init := by
  obtain ⟨before, e, after, rfl, ⟨c, env, request, y, _, _, _, _, _, rfl⟩, hwaits⟩ := h
  refine ⟨hwaits after List.prefix_rfl, ?_⟩
  intro hinit
  exact revisedLifetime_ne_zero (listed_run config before).2 _ (congrArg SecurityToken.revisedLifetime hinit)

/-- The token of the channel, or a token that a renewal has issued and that is
still pending. -/
def Accepted (b : Build) (config : Config) (events : List Event) (a : Nat) (y : SecureChannel)
    (tokenId : UInt32) : Prop :=
  tokenId = y.securityToken.tokenId ∨
    ∃ token, Pending b (newServer config) events a token ∧ token.tokenId = tokenId

def Refused (h : Handled) (a : Nat) : Prop := h.outputs = [] ∧ h.server.channels a = none

/-- The id 0 is not taken for that of a pending token, and a message with a
wrong token can be read up to its type id and has a channel id that leads to
its channel. -/
def Distinguished (s : Server) (a : Nat) (y : SecureChannel) (st : Dec) : Prop :=
  let tokenId := (securityHeaders st).1.2.1
  (tokenId = 0 → y.securityToken.tokenId = 0 ∨ y.nextSecurityToken ≠ SecurityToken.init) ∧
    (tokenId ≠ y.securityToken.tokenId → tokenId ≠ y.nextSecurityToken.tokenId →
      (attempt nodeIdDecodeBinary (securityHeaders st).2).1.isOk = true ∧
        s.secureChannelManager.channels.find? (hasChannelId s y.securityToken.channelId) = some a)

section Checking

variable {config : Config} {env : Environment} {c : Nat} {st : Dec} {y : SecureChannel}

theorem pending_iff (hy : (run b (newServer config) events).channels a = some y) (tokenId : UInt32) :
    (∃ token, Pending b (newServer config) events a token ∧ token.tokenId = tokenId) ↔
      y.nextSecurityToken ≠ SecurityToken.init ∧ y.nextSecurityToken.tokenId = tokenId := by
  have hslot : slot (run b (newServer config) events) a = some y.nextSecurityToken := by
    rw [slot, hy]
    rfl
  constructor
  · rintro ⟨token, hpending, htoken⟩
    obtain ⟨hwaits, hne⟩ := hpending.slot_eq
    rw [hslot] at hwaits
    obtain rfl := Option.some.inj hwaits
    exact ⟨hne, htoken⟩
  · rintro ⟨hne, htoken⟩
    exact ⟨y.nextSecurityToken, pending_of_slot config events hslot hne, htoken⟩

theorem removeChannel_channels (s : Server) (a : Nat) : (removeChannel s a).channels a = none := by
  rw [removeChannel]
  exact if_pos rfl

theorem removeChannel_channels_of_ne {a' : Nat} (hne : a ≠ a') (hy : s.channels a = some y) :
    (removeChannel s a').channels a ≠ none := by
  obtain ⟨y', hy', _⟩ := map_eq_some_of ((sameTokens_deleteChannelMembers (a := a')).channels a).symm hy
  have hfree : (removeChannel s a').channels a = (deleteChannelMembers s a').channels a := if_neg hne
  rw [hfree, hy']
  exact Option.some_ne_none y'

/-- The search by the channel id finds the channel, or another one with the
same id. -/
theorem closeSecureChannel_removes_iff (hlisted : Listed s) (hy : s.channels a = some y) :
    (closeSecureChannel s y.securityToken.channelId).channels a = none ↔
      s.secureChannelManager.channels.find? (hasChannelId s y.securityToken.channelId) = some a := by
  have hid : hasChannelId s y.securityToken.channelId a = true := by
    rw [hasChannelId, hy]
    exact beq_self_eq_true _
  rw [closeSecureChannel, closeChannel]
  cases hfind : s.secureChannelManager.channels.find? (hasChannelId s y.securityToken.channelId) with
  | none =>
      have hnot := List.find?_eq_none.mp hfind a (hlisted hy)
      exact absurd hid hnot
  | some a' =>
      by_cases hne : a = a'
      · subst hne
        exact ⟨fun _ => rfl, fun _ => removeChannel_channels s a⟩
      · constructor
        · intro hnone
          exact absurd hnone (removeChannel_channels_of_ne hne hy)
        · intro hsome
          exact absurd (Option.some.inj hsome).symm hne

theorem channelToken_eq (hy : s.channels a = some y) : channelToken s (some a) = y.securityToken := by
  rw [channelToken, Option.bind_some, hy]

theorem nextToken_eq (hy : s.channels a = some y) : nextToken s (some a) = y.nextSecurityToken := by
  rw [nextToken, Option.bind_some, hy]

theorem alive_of_processed (h : Linked s) (hy : s.channels a = some y)
    {requestId : UInt32} {requestTypeId : NodeId} :
    (processRequest b env (revolved s (some a)) c (some a) requestId requestTypeId st).server.channels a ≠ none := by
  have hlive : ∃ y', (revolved s (some a)).channels a = some y' := revolved_live hy
  obtain ⟨y', hy'⟩ := hlive
  have hlinked : Linked (revolved s (some a)) := h.congr sameLinks_revolved
  have hacts : Acts (revolved s (some a))
      (processRequest b env (revolved s (some a)) c (some a) requestId requestTypeId st).server := by
    apply acts_processRequest hlinked
    rintro a' ⟨⟩
    exact ⟨y', hy'⟩
  obtain ⟨y'', hy'', _⟩ := map_eq_some_of ((sameTokens_acts hacts).channels a).symm hy'
  rw [hy'']
  exact Option.some_ne_none y''

theorem processChecked_refuses (ha : connectionChannel s c = some a) (hy : s.channels a = some y)
    {tokenId requestId : UInt32} {requestTypeId : NodeId} (hcurrent : tokenId ≠ y.securityToken.tokenId)
    (hnext : tokenId ≠ y.nextSecurityToken.tokenId) :
    processChecked b env s c y.securityToken.channelId tokenId requestId requestTypeId st =
      ⟨closeSecureChannel s y.securityToken.channelId, st, []⟩ := by
  unfold processChecked
  dsimp only
  rw [ha, channelToken_eq hy, nextToken_eq hy, if_neg (not_not.mpr rfl), if_pos hcurrent, if_pos hnext]

theorem processChecked_accepts (ha : connectionChannel s c = some a) (hy : s.channels a = some y)
    {tokenId requestId : UInt32} {requestTypeId : NodeId} (hcurrent : tokenId ≠ y.securityToken.tokenId)
    (hnext : tokenId = y.nextSecurityToken.tokenId) :
    processChecked b env s c y.securityToken.channelId tokenId requestId requestTypeId st =
      processRequest b env (revolved s (some a)) c (some a) requestId requestTypeId st := by
  unfold processChecked
  dsimp only
  rw [ha, channelToken_eq hy, nextToken_eq hy, if_neg (not_not.mpr rfl), if_pos hcurrent,
    if_neg (not_not.mpr hnext)]

/-- A wrong token is refused if and only if the message can be read so far and
the search for its channel id finds its channel. -/
theorem refused_iff (hlisted : Listed s) (ha : connectionChannel s c = some a) (hy : s.channels a = some y)
    (hid : (securityHeaders st).1.1 = y.securityToken.channelId)
    (hcurrent : (securityHeaders st).1.2.1 ≠ y.securityToken.tokenId)
    (hnext : (securityHeaders st).1.2.1 ≠ y.nextSecurityToken.tokenId) :
    Refused (processMSG b env s c st) a ↔
      (attempt nodeIdDecodeBinary (securityHeaders st).2).1.isOk = true ∧
        s.secureChannelManager.channels.find? (hasChannelId s y.securityToken.channelId) = some a := by
  unfold processMSG
  dsimp only
  split
  · rename_i code st' hdecode
    rw [hdecode]
    constructor
    · rintro ⟨_, hnone⟩
      rw [hy] at hnone
      cases hnone
    · rintro ⟨hok, _⟩
      cases hok
  · rename_i id st' hdecode
    rw [hdecode, hid, processChecked_refuses ha hy hcurrent hnext, ← closeSecureChannel_removes_iff hlisted hy]
    exact ⟨fun h => ⟨rfl, h.2⟩, fun h => ⟨rfl, h.2⟩⟩

theorem not_refused_of_zero (h : Linked s) (ha : connectionChannel s c = some a) (hy : s.channels a = some y)
    (hid : (securityHeaders st).1.1 = y.securityToken.channelId)
    (hcurrent : (securityHeaders st).1.2.1 ≠ y.securityToken.tokenId)
    (hnext : (securityHeaders st).1.2.1 = y.nextSecurityToken.tokenId) :
    ¬ Refused (processMSG b env s c st) a := by
  rintro ⟨_, hnone⟩
  unfold processMSG at hnone
  dsimp only at hnone
  split at hnone
  · rw [hy] at hnone
    cases hnone
  · rw [hid, processChecked_accepts ha hy hcurrent hnext] at hnone
    exact alive_of_processed h hy hnone

end Checking

/-- In every state that a run reaches, a MSG message with the id of the
channel has an accepted token or is refused, exactly if `Distinguished`. -/
theorem processMSG_checks_token_iff (b : Build) (config : Config) (events : List Event) (env : Environment)
    (c a : Nat) (y : SecureChannel) (st : Dec)
    (ha : connectionChannel (run b (newServer config) events) c = some a)
    (hy : (run b (newServer config) events).channels a = some y)
    (hid : (securityHeaders st).1.1 = y.securityToken.channelId) :
    (Accepted b config events a y (securityHeaders st).1.2.1 ∨
        Refused (processMSG b env (run b (newServer config) events) c st) a) ↔
      Distinguished (run b (newServer config) events) a y st := by
  rw [Accepted, pending_iff hy, Distinguished]
  have hlisted : Listed (run b (newServer config) events) := (listed_run config events).1
  by_cases hcurrent : (securityHeaders st).1.2.1 = y.securityToken.tokenId
  · -- the token of the channel
    refine ⟨fun _ => ⟨fun hzero => .inl ?_, fun hne => absurd hcurrent hne⟩, fun _ => .inl (.inl hcurrent)⟩
    rw [← hcurrent]
    exact hzero
  by_cases hnext : (securityHeaders st).1.2.1 = y.nextSecurityToken.tokenId
  · -- the token in the slot, which may be the empty one
    have hrefused : ¬ Refused (processMSG b env (run b (newServer config) events) c st) a :=
      not_refused_of_zero (linked_run config events) ha hy hid hcurrent hnext
    constructor
    · rintro ((h | ⟨hne, _⟩) | h)
      · exact absurd h hcurrent
      · exact ⟨fun _ => .inr hne, fun _ hnot => absurd hnext hnot⟩
      · exact absurd h hrefused
    · rintro ⟨hzero, _⟩
      refine .inl (.inr ⟨?_, hnext.symm⟩)
      intro hinit
      have hid0 : (securityHeaders st).1.2.1 = 0 := by
        rw [hnext, hinit]
        rfl
      rcases hzero hid0 with h | h
      · exact hcurrent (hid0.trans h.symm)
      · exact h hinit
  · -- a wrong token
    rw [refused_iff hlisted ha hy hid hcurrent hnext]
    constructor
    · rintro ((h | ⟨_, h⟩) | h)
      · exact absurd h hcurrent
      · exact absurd h.symm hnext
      · refine ⟨fun hzero => .inr ?_, fun _ _ => h⟩
        intro hinit
        apply hnext
        rw [hzero, hinit]
        rfl
    · rintro ⟨_, h⟩
      exact .inr (h hcurrent hnext)

def sampleOpening : List Event :=
  [.connect 0 Connections.init, sampleMessage sampleHello, sampleMessage sampleOpen]

def sampleChannel : SecureChannel := ⟨⟨1, 1, 0, 600000⟩, SecurityToken.init, 1, some 0, []⟩

def sampleDiscovery (tokenId : UInt8) : Dec :=
  ⟨(requestBytes tokenId [172, 1] [0, 0] (List.replicate 12 255)).drop 8, 0, [], []⟩

theorem sampleOpening_channel :
    connectionChannel (run standardBuild (newServer ⟨true, false, []⟩) sampleOpening) 0 = some 0 ∧
      (run standardBuild (newServer ⟨true, false, []⟩) sampleOpening).channels 0 = some sampleChannel := by
  decide +kernel

theorem processMSG_checks_token_seven :
    Accepted standardBuild ⟨true, false, []⟩ sampleOpening 0 sampleChannel 7 ∨
      Refused (processMSG standardBuild sampleEnvironment
        (run standardBuild (newServer ⟨true, false, []⟩) sampleOpening) 0 (sampleDiscovery 7)) 0 := by
  refine (processMSG_checks_token_iff standardBuild ⟨true, false, []⟩ sampleOpening sampleEnvironment 0 0 sampleChannel
    (sampleDiscovery 7) sampleOpening_channel.1 sampleOpening_channel.2 (by decide +kernel)).mpr ⟨?_, ?_⟩
  · decide +kernel
  · decide +kernel

/-- Nothing has been renewed, and a GetEndpoints request with the token 0 is
served on the channel, which has the token 1. -/
theorem processMSG_takes_token_zero :
    connectionChannel (run standardBuild (newServer ⟨true, false, []⟩) sampleOpening) 0 = some 0 ∧
      (run standardBuild (newServer ⟨true, false, []⟩) sampleOpening).channels 0 = some sampleChannel ∧
      (securityHeaders (sampleDiscovery 0)).1.1 = sampleChannel.securityToken.channelId ∧
      ¬ Accepted standardBuild ⟨true, false, []⟩ sampleOpening 0 sampleChannel
        (securityHeaders (sampleDiscovery 0)).1.2.1 ∧
      (∃ call, .call call ∈ (processMSG standardBuild sampleEnvironment
        (run standardBuild (newServer ⟨true, false, []⟩) sampleOpening) 0 (sampleDiscovery 0)).outputs ∧
          call.service = .getEndpoints) ∧
      ¬ Refused (processMSG standardBuild sampleEnvironment
        (run standardBuild (newServer ⟨true, false, []⟩) sampleOpening) 0 (sampleDiscovery 0)) 0 := by
  obtain ⟨hconnection, hchannel⟩ := sampleOpening_channel
  have hid : (securityHeaders (sampleDiscovery 0)).1.1 = sampleChannel.securityToken.channelId := by decide +kernel
  have htoken : (securityHeaders (sampleDiscovery 0)).1.2.1 = 0 := by decide +kernel
  refine ⟨hconnection, hchannel, hid, ?_, ?_, ?_⟩
  · rw [Accepted, pending_iff hchannel, htoken]
    decide
  · exact call_of_calledService (by decide +kernel)
  · refine not_refused_of_zero (linked_run _ _) hconnection hchannel hid ?_ ?_
    · rw [htoken]
      decide
    · rw [htoken]
      rfl

end OpcUa.TokenChecks
