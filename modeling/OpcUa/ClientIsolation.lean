import OpcUa.ClientFrames

namespace OpcUa.ClientIsolation

open StatusCodes NodeIds Connections Heaps DataTypes Values Readers Decoding Servers SecureChannels
open Sessions ServiceTable MessageHandlers ServerLinks LinkedOperations HandlerSteps
open SessionGating ChannelTokens LoopDispatch TokenChecks ChannelConnections OwnSteps
open ClientFrames

variable {b : Build} {s s' : Server} {e : Event} {c a c' : Nat} {y : SecureChannel} {env : Environment}
  {request : OpenRequest} {token : NodeId}

section Numbering

def Waits (y : SecureChannel) : Prop :=
  y.nextSecurityToken.tokenId = 0 ∨ y.nextSecurityToken.channelId = y.securityToken.channelId

/-- The ids of the channels are different and below the next one, which has
been counted up at most `n` times. -/
structure Numbered (n : Nat) (s : Server) : Prop where
  positive : 0 < s.secureChannelManager.lastChannelId.toNat
  last : s.secureChannelManager.lastChannelId.toNat ≤ n + 1
  given : ∀ a y, s.channels a = some y → 0 < y.securityToken.channelId.toNat ∧
    y.securityToken.channelId.toNat < s.secureChannelManager.lastChannelId.toNat
  waits : ∀ a y, s.channels a = some y → Waits y
  distinct : ∀ a a' y y', s.channels a = some y → s.channels a' = some y' →
    y.securityToken.channelId = y'.securityToken.channelId → a = a'

variable {n : Nat}

theorem Numbered.mono (h : Numbered n s) : Numbered (n + 1) s :=
  ⟨h.positive, Nat.le_succ_of_le h.last, h.given, h.waits, h.distinct⟩

theorem Numbered.restrict (h : Numbered n s)
    (hlast : s'.secureChannelManager.lastChannelId = s.secureChannelManager.lastChannelId)
    (hleft : ∀ a y', s'.channels a = some y' → ∃ y, s.channels a = some y ∧
      y'.securityToken.channelId = y.securityToken.channelId ∧ Waits y') : Numbered n s' := by
  refine ⟨by rw [hlast]; exact h.positive, by rw [hlast]; exact h.last, ?_, ?_, ?_⟩
  · intro a y' hy'
    obtain ⟨y, hy, hid, _⟩ := hleft a y' hy'
    rw [hid, hlast]
    exact h.given a y hy
  · intro a y' hy'
    obtain ⟨_, _, _, hwaits⟩ := hleft a y' hy'
    exact hwaits
  · intro a₁ a₂ y₁' y₂' hy₁' hy₂' hsame
    obtain ⟨y₁, hy₁, hid₁, _⟩ := hleft a₁ y₁' hy₁'
    obtain ⟨y₂, hy₂, hid₂, _⟩ := hleft a₂ y₂' hy₂'
    exact h.distinct a₁ a₂ y₁ y₂ hy₁ hy₂ (hid₁.symm.trans (hsame.trans hid₂))

theorem Numbered.congr (h : Numbered n s) (hsame : SameTokens s s') : Numbered n s' := by
  refine h.restrict (by rw [hsame.manager]) ?_
  intro a y' hy'
  obtain ⟨y, hy, htokens⟩ := map_eq_some_of (hsame.channels a) hy'
  obtain ⟨hcurrent, hnext⟩ := Prod.mk.inj htokens
  refine ⟨y, hy, by rw [hcurrent], ?_⟩
  rw [Waits, ← hcurrent, ← hnext]
  exact h.waits a y hy

theorem numbered_removeChannel (h : Numbered n s) : Numbered n (removeChannel s a) := by
  have hmembers : Numbered n (deleteChannelMembers s a) := h.congr sameTokens_deleteChannelMembers
  refine hmembers.restrict rfl ?_
  intro a' y' hy'
  obtain ⟨_, hy'⟩ := free_eq_some.mp hy'
  exact ⟨y', hy', rfl, hmembers.waits a' y' hy'⟩

theorem numbered_closeSecureChannel (h : Numbered n s) (channelId : UInt32) :
    Numbered n (closeSecureChannel s channelId) := by
  rw [closeSecureChannel, closeChannel]
  split
  · exact h
  · exact numbered_removeChannel h

theorem numbered_revolve (h : Numbered n s) : Numbered n (s.setChannel a revolveTokens) := by
  refine h.restrict rfl ?_
  intro a' y' hy'
  rcases modify_eq_some.mp hy' with ⟨rfl, y, hy, rfl⟩ | ⟨_, hy'⟩
  · refine ⟨y, hy, ?_⟩
    rw [revolveTokens]
    split
    · exact ⟨rfl, h.waits a' y hy⟩
    · rename_i hnext
      exact ⟨(h.waits a' y hy).resolve_left hnext, .inl rfl⟩
  · exact ⟨y', hy', rfl, h.waits a' y' hy'⟩

theorem numbered_cleanupChannels (now : DateTime) (h : Numbered n s) : Numbered n (cleanupChannels s now) := by
  rw [cleanupChannels]
  generalize s.secureChannelManager.channels = l
  induction l generalizing s with
  | nil => exact h
  | cons a l ih =>
      apply ih
      rw [cleanupChannel]
      split
      · exact h
      split
      · exact numbered_removeChannel h
      split
      · exact numbered_revolve h
      · exact h

theorem numbered_opened (h : Numbered n s) (hn : n + 2 < 4294967296) : Numbered (n + 1) (Opened env s c request a) := by
  have hlast := h.last
  have hnext : (s.secureChannelManager.lastChannelId + 1).toNat = s.secureChannelManager.lastChannelId.toNat + 1 := by
    rw [UInt32.toNat_add]
    exact Nat.mod_eq_of_lt (by simp; omega)
  have hnew : ∀ a' y', a' ≠ a → (Opened env s c request a).channels a' = some y' →
      y'.securityToken.channelId ≠ s.secureChannelManager.lastChannelId := by
    intro a' y' hne hy' heq
    rcases store_eq_some.mp hy' with ⟨hsame, _⟩ | ⟨_, hy'⟩
    · exact hne hsame
    · have hlt := (h.given a' y' hy').2
      rw [heq] at hlt
      exact Nat.lt_irrefl _ hlt
  refine ⟨?_, ?_, ?_, ?_, ?_⟩
  · dsimp only [Opened]
    omega
  · dsimp only [Opened]
    omega
  · intro a' y' hy'
    dsimp only [Opened]
    rw [hnext]
    rcases store_eq_some.mp hy' with ⟨_, rfl⟩ | ⟨_, hy'⟩
    · exact ⟨h.positive, Nat.lt_succ_self _⟩
    · obtain ⟨hpos, hlt⟩ := h.given a' y' hy'
      exact ⟨hpos, Nat.lt_succ_of_lt hlt⟩
  · intro a' y' hy'
    rcases store_eq_some.mp hy' with ⟨_, rfl⟩ | ⟨_, hy'⟩
    · exact .inl rfl
    · exact h.waits a' y' hy'
  · intro a₁ a₂ y₁ y₂ hy₁ hy₂ hsame
    by_cases ha₁ : a₁ = a
    · subst ha₁
      by_contra ha₂
      have hdifferent := hnew a₂ y₂ (Ne.symm ha₂) hy₂
      rcases store_eq_some.mp hy₁ with ⟨_, rfl⟩ | ⟨hne, _⟩
      · exact hdifferent hsame.symm
      · exact hne rfl
    · by_cases ha₂ : a₂ = a
      · subst ha₂
        have hdifferent := hnew a₁ y₁ ha₁ hy₁
        rcases store_eq_some.mp hy₂ with ⟨_, rfl⟩ | ⟨hne, _⟩
        · exact absurd hsame hdifferent
        · exact absurd rfl hne
      · refine h.distinct a₁ a₂ y₁ y₂ ?_ ?_ hsame
        · exact (if_neg ha₁).symm.trans hy₁
        · exact (if_neg ha₂).symm.trans hy₂

theorem numbered_openSecureChannel (h : Numbered n s) (hn : n + 2 < 4294967296) :
    Numbered (n + 1) (openSecureChannel env s c request).2 := by
  rw [openSecureChannel]
  split
  · rename_i hissue
    rcases openChannel_cases env s c request hissue with ⟨_, hsame⟩ | ⟨_, a, _, hopened⟩
    · rw [hsame]
      exact h.mono
    · rw [hopened]
      exact numbered_opened h hn
  · rw [renewChannel]
    split
    · exact h.mono
    dsimp only
    split
    · exact h.mono
    split
    · exact h.mono
    · refine h.mono.restrict rfl ?_
      intro a' y' hy'
      rcases modify_eq_some.mp hy' with ⟨rfl, y, hy, rfl⟩ | ⟨_, hy'⟩
      · exact ⟨y, hy, rfl, .inr rfl⟩
      · exact ⟨y', hy', rfl, h.waits a' y' hy'⟩

theorem numbered_step (hlinked : Linked s) (h : Numbered n s) (hn : n + 2 < 4294967296) (e : Event) :
    Numbered (n + 1) (step b s e) := by
  cases e with
  | connect c connection =>
      rw [step, connect]
      split
      · exact h.mono.congr ⟨fun _ => rfl, rfl⟩
      · exact h.mono
  | detach c => exact h.mono.congr sameTokens_detachSecureChannel
  | free c => exact h.mono.congr ⟨fun _ => rfl, rfl⟩
  | message c env st =>
      rw [step]
      rcases pass_cases b env c st hlinked with
        hacts | ⟨channelId, hacts⟩ | ⟨st', a, _, _, hacts⟩ | ⟨st', _, hopn⟩
      · exact h.mono.congr (sameTokens_acts hacts)
      · exact (numbered_closeSecureChannel h.mono channelId).congr (sameTokens_acts hacts)
      · exact (numbered_revolve h.mono).congr (sameTokens_acts hacts)
      · rw [hopn]
        rcases processOPN_cases b env s c st' with hclose | ⟨r, st'', _, _, _, hacts⟩
        · rw [hclose]
          exact h.mono.congr sameTokens_setConnection
        · exact (numbered_openSecureChannel h hn).congr (sameTokens_acts hacts)
  | cleanup now =>
      have hsessions : Numbered (n + 1) (cleanupSessions s now) :=
        h.mono.congr (sameTokens_of_onlySessions (onlySessions_cleanupSessions now s))
      exact numbered_cleanupChannels now hsessions

theorem numbered_run (config : Config) (events : List Event) (hn : events.length < 4294967295) :
    Numbered events.length (run b (newServer config) events) := by
  induction events using List.reverseRecOn with
  | nil => exact ⟨Nat.one_pos, Nat.le_refl 1, by rintro a y ⟨⟩, by rintro a y ⟨⟩, by rintro a a' y y' ⟨⟩⟩
  | append_singleton events e ih =>
      rw [List.length_append, List.length_singleton] at hn ⊢
      rw [run_concat]
      exact numbered_step (linked_run config events) (ih (by omega)) (by omega) e

end Numbering

section Isolation

theorem spared_closeSecureChannel {n : Nat} (h : Client c a y s) (hnumbered : Numbered n s) (hne : c ≠ c') :
    Spares c a y s (closeSecureChannel s (ownId s c')) ∧ Client c a y (closeSecureChannel s (ownId s c')) := by
  rw [closeSecureChannel, closeChannel]
  split
  · exact ⟨.refl s, h⟩
  rename_i a' ha'
  refine spared_removeChannel h ?_
  rintro rfl
  have hid := List.find?_some ha'
  rw [hasChannelId, h.channel] at hid
  have hid : y.securityToken.channelId = ownId s c' := beq_iff_eq.mp hid
  rw [ownId] at hid
  cases hother : connectionChannel s c' with
  | none =>
      rw [hother] at hid
      have hpos := (hnumbered.given _ y h.channel).1
      rw [hid] at hpos
      exact Nat.lt_irrefl 0 hpos
  | some a' =>
      obtain ⟨y', hy', _⟩ := Linked.channel_live h.linked hother
      rw [hother, channelToken_eq hy'] at hid
      obtain rfl := hnumbered.distinct _ a' y y' h.channel hy' hid
      exact h.other hne hother

theorem spared_pass {n : Nat} {st : Dec} (h : Client c a y s) (hnumbered : Numbered n s) (hne : c ≠ c')
    (horderly : Orderly b s (.message c' env st))
    (hpresented : ∀ token, Presents (pass b env s c' st).outputs token → Apart s a token) :
    Spares c a y s (pass b env s c' st).server ∧ Client c a y (pass b env s c' st).server := by
  have hafter : ∀ {s₁ channel}, Spares c a y s s₁ ∧ Client c a y s₁ → channel ≠ some a →
      Owns c' channel (Apart s a) s₁ (pass b env s c' st).server →
      Spares c a y s (pass b env s c' st).server ∧ Client c a y (pass b env s c' st).server := by
    rintro s₁ channel ⟨hspares, hclient⟩ hchannel howns
    obtain ⟨hrest, hlast⟩ := spares_owns hclient hne hchannel
      (fun token htoken => (apart_congr h.channel hspares).mpr htoken) howns
    exact ⟨hspares.trans hrest, hlast⟩
  rcases pass_owns h.linked hpresented with howns | howns | ⟨a', ha', howns⟩ | ⟨request, hasks, howns⟩
  · exact hafter ⟨.refl s, h⟩ (h.other hne) howns
  · refine hafter (spared_closeSecureChannel h hnumbered hne) ?_ howns
    rintro ⟨⟩
  · have hother : a ≠ a' := by
      rintro rfl
      exact h.other hne ha'
    refine hafter (spared_revolve h hother) ?_ howns
    exact fun heq => hother (Option.some.inj heq).symm
  · obtain ⟨st', x, st₁, r, st₂, hevent, _, _, hestablished, _⟩ := id hasks
    have hopened := spared_openSecureChannel h hne hestablished (horderly.1 c' env request hasks)
    exact hafter hopened (hopened.2.other hne) howns

/-- What happens on the other connections, and a sweep that finds nothing due
on the channel. A message may activate any session but those on the channel. -/
def Foreign (b : Build) (c a : Nat) (y : SecureChannel) (s : Server) : Event → Prop
  | .connect _ _ => True
  | .detach c' => c' ≠ c
  | .free c' => c' ≠ c
  | .message c' env st => c' ≠ c ∧ ∀ token, Presents (pass b env s c' st).outputs token → Apart s a token
  | .cleanup now => expired now y.securityToken = false ∧ y.nextSecurityToken.tokenId = 0 ∧
      ∀ i ∈ y.sessions, ∀ x, s.sessions i = some x → now ≤ x.validTill

theorem spared_step {n : Nat} (h : Client c a y s) (hnumbered : Numbered n s) (horderly : Orderly b s e)
    (hforeign : Foreign b c a y s e) : Spares c a y s (step b s e) ∧ Client c a y (step b s e) := by
  have hlinked : Linked (step b s e) := linked_step h.linked e
  have hbacked : Backed (step b s e) := backed_step h.linked h.backed horderly
  cases e with
  | connect c' connection =>
      refine h.spared ?_ ?_ hlinked hbacked
      · rw [step, connect]
        split
        · rename_i hnone
          refine ⟨if_neg ?_, rfl, fun _ _ => rfl⟩
          rintro rfl
          obtain ⟨x, hx, _⟩ := Option.bind_eq_some_iff.mp h.connected
          rw [hnone] at hx
          cases hx
        · exact .refl s
      · rw [step, connect]
        split
        · exact noMore_of_lists rfl (fun _ => rfl)
        · exact .refl s
  | detach c' => exact h.spared (spares_detachSecureChannel h hforeign.symm) noMore_detachSecureChannel hlinked hbacked
  | free c' =>
      refine h.spared ⟨if_neg ?_, rfl, fun _ _ => rfl⟩ (noMore_of_lists rfl (fun _ => rfl)) hlinked hbacked
      exact fun heq => hforeign heq.symm
  | message c' env st => exact spared_pass h hnumbered hforeign.1.symm horderly hforeign.2
  | cleanup now =>
      obtain ⟨hfresh, hcurrent, hdue⟩ := hforeign
      obtain ⟨hspares, hclient⟩ := spared_cleanupSessions h hdue
      obtain ⟨hrest, hlast⟩ := spared_cleanupChannels hclient hfresh hcurrent
      exact ⟨hspares.trans hrest, hlast⟩

/-- The connection of a client, its channel and the sessions on it stay as they
are, whatever the other clients do without presenting a token of the client. -/
theorem clients_isolated (b : Build) (config : Config) (before after : List Event)
    (hfew : (before ++ after).length < 4294967295)
    (horderly : ∀ initial e, initial ++ [e] <+: before ++ after → Orderly b (run b (newServer config) initial) e)
    (hconnected : connectionChannel (run b (newServer config) before) c = some a)
    (hchannel : (run b (newServer config) before).channels a = some y)
    (htokens : TokensApart (run b (newServer config) before) a)
    (hforeign : ∀ initial e, initial ++ [e] <+: after →
      Foreign b c a y (run b (newServer config) (before ++ initial)) e) :
    Spares c a y (run b (newServer config) before) (run b (newServer config) (before ++ after)) := by
  suffices hkept : Spares c a y (run b (newServer config) before) (run b (newServer config) (before ++ after)) ∧
      Client c a y (run b (newServer config) (before ++ after)) from hkept.1
  induction after using List.reverseRecOn with
  | nil =>
      rw [List.append_nil]
      refine ⟨.refl _, linked_run config before, ?_, hconnected, hchannel, htokens⟩
      exact backed_run config before (fun initial e hinitial =>
        horderly initial e (hinitial.trans (List.prefix_append before _)))
  | append_singleton after e ih =>
      rw [← List.append_assoc] at hfew horderly ⊢
      rw [List.length_append, List.length_singleton] at hfew
      have hlast := horderly (before ++ after) e List.prefix_rfl
      obtain ⟨hspares, hclient⟩ := ih (by omega)
        (fun initial e' hinitial => horderly initial e' (hinitial.trans (List.prefix_append _ [e])))
        (fun initial e' hinitial => hforeign initial e' (hinitial.trans (List.prefix_append after [e])))
      have hnumbered : Numbered (before ++ after).length (run b (newServer config) (before ++ after)) :=
        numbered_run config (before ++ after) (by omega)
      rw [run_concat]
      obtain ⟨hstep, hnext⟩ := spared_step hclient hnumbered hlast (hforeign after e List.prefix_rfl)
      exact ⟨hspares.trans hstep, hnext⟩

end Isolation

section Checking

theorem apart_iff : Apart s a token ↔
    (s.channels a).all (fun y => y.sessions.all (fun i => !hasToken s token i)) = true := by
  simp only [Option.all_eq_true, List.all_eq_true, Bool.not_eq_true', Apart, On]
  constructor
  · intro hapart y hy i hi
    by_contra htoken
    obtain ⟨token', htoken', hsame⟩ := hasToken_iff.mp (Bool.not_eq_false _ ▸ htoken)
    rw [hapart i token' ⟨y, hy, hi⟩ htoken'] at hsame
    cases hsame
  · rintro hall i token' ⟨y, hy, hi⟩ htoken'
    by_contra hsame
    have hother := hall y hy i hi
    rw [hasToken_iff.mpr ⟨token', htoken', by simpa using hsame⟩] at hother
    cases hother

instance : Decidable (Apart s a token) := decidable_of_iff _ apart_iff.symm

def presentedToken : Output → Option NodeId
  | .call call => if call.service = .activateSession then some (tokenOf call.request) else none
  | _ => none

theorem presents_iff {outputs : List Output} : Presents outputs token ↔ token ∈ outputs.filterMap presentedToken := by
  rw [Presents, List.mem_filterMap]
  constructor
  · rintro ⟨call, hcall, hservice, rfl⟩
    exact ⟨.call call, hcall, if_pos hservice⟩
  · rintro ⟨output, houtput, hpresented⟩
    cases output with
    | call call =>
        rw [presentedToken] at hpresented
        split at hpresented
        · rename_i hservice
          exact ⟨call, houtput, hservice, (Option.some.inj hpresented).symm⟩
        · cases hpresented
    | _ => cases hpresented

theorem due_iff {now : DateTime} : (∀ i ∈ y.sessions, ∀ x, s.sessions i = some x → now ≤ x.validTill) ↔
    ∀ i ∈ y.sessions, (s.sessions i).all (fun x => now ≤ x.validTill) = true := by
  simp [Option.all_eq_true]

instance (b : Build) (c a : Nat) (y : SecureChannel) (s : Server) : (e : Event) → Decidable (Foreign b c a y s e)
  | .connect _ _ => .isTrue trivial
  | .detach c' => inferInstanceAs (Decidable (c' ≠ c))
  | .free c' => inferInstanceAs (Decidable (c' ≠ c))
  | .message c' env st =>
      decidable_of_iff (c' ≠ c ∧ ∀ token ∈ (pass b env s c' st).outputs.filterMap presentedToken, Apart s a token)
        (and_congr_right (fun _ => forall_congr' (fun _ => imp_congr_left presents_iff.symm)))
  | .cleanup now =>
      decidable_of_iff (expired now y.securityToken = false ∧ y.nextSecurityToken.tokenId = 0 ∧
          ∀ i ∈ y.sessions, (s.sessions i).all (fun x => now ≤ x.validTill) = true)
        (and_congr_right (fun _ => and_congr_right (fun _ => due_iff.symm)))

/-- The first channel of a connection, or a message that is no OPN message. -/
def opensFirst (s : Server) : Event → Bool
  | .connect _ _ => true
  | .detach _ => true
  | .free c => (connectionChannel s c).isNone
  | .message c _ st => (connectionChannel s c).isNone ||
      match (attempt headerDecodeBinary st).1 with
      | .ok x => messageType x.1 != some .opn
      | .error _ => true
  | .cleanup _ => true

theorem orderly_of_opensFirst (h : opensFirst s e = true) : Orderly b s e := by
  constructor
  · rintro c env request ⟨st, x, st', r, st'', rfl, hheader, htype, _⟩ _
    rw [opensFirst, hheader] at h
    dsimp only at h
    rw [htype] at h
    simpa using h
  · rintro c rfl
    exact Option.isNone_iff_eq_none.mp h

theorem prefixes_of_take {P : List Event → Event → Prop} {events : List Event}
    (h : ∀ k < events.length, ∀ e, events[k]? = some e → P (events.take k) e) (initial : List Event) (e : Event)
    (hinitial : initial ++ [e] <+: events) : P initial e := by
  obtain ⟨rest, rfl⟩ := hinitial
  have hlast := h initial.length (by simp) e (by simp)
  rw [List.append_assoc, List.take_left] at hlast
  exact hlast

def sampleOther (bytes : List UInt8) : Event :=
  .message 1
    { sampleEnvironment with
      newChannel := some 1, newSession := some 1, guid := ⟨7, 0, 0, [0, 0, 0, 0, 0, 0, 0, 0], length_zeros⟩ }
    ⟨bytes, 0, [], []⟩

def onSecond (bytes : List UInt8) : List UInt8 := (bytes.set 8 2).set 12 2

def sampleOthers : List Event :=
  [.connect 1 Connections.init, sampleOther sampleHello, sampleOther sampleOpen, sampleOther (onSecond sampleCreate),
   sampleOther ((onSecond sampleActivate).set 31 7), .cleanup 0, .detach 1, .free 1]

def sampleOwn : SecureChannel := ⟨⟨1, 1, 0, 600000⟩, SecurityToken.init, 3, some 0, [0]⟩

theorem clients_isolated_sampleOthers :
    Spares 0 0 sampleOwn (run standardBuild (newServer ⟨true, false, []⟩) sampleEvents)
      (run standardBuild (newServer ⟨true, false, []⟩) (sampleEvents ++ sampleOthers)) := by
  have hopens : ∀ k < (sampleEvents ++ sampleOthers).length, (sampleEvents ++ sampleOthers)[k]?.all (fun e =>
      opensFirst (run standardBuild (newServer ⟨true, false, []⟩) ((sampleEvents ++ sampleOthers).take k)) e) =
        true := by
    decide +kernel
  have hothers : ∀ k < sampleOthers.length, sampleOthers[k]?.all (fun e => decide (Foreign standardBuild 0 0 sampleOwn
      (run standardBuild (newServer ⟨true, false, []⟩) (sampleEvents ++ sampleOthers.take k)) e)) = true := by
    decide +kernel
  have hlist : (run standardBuild (newServer ⟨true, false, []⟩) sampleEvents).secureChannelManager.channels = [0] := by
    decide +kernel
  refine clients_isolated standardBuild ⟨true, false, []⟩ sampleEvents sampleOthers (by decide) ?_ (by decide +kernel)
    (by decide +kernel) ?_ ?_
  · refine prefixes_of_take (fun k hk e he => orderly_of_opensFirst ?_)
    exact (Option.all_eq_true _ _).mp (hopens k hk) e he
  · rintro a i token hne ⟨y, hy, _⟩
    have hlisted := (listed_run (b := standardBuild) ⟨true, false, []⟩ sampleEvents).1 hy
    rw [hlist] at hlisted
    exact absurd (List.mem_singleton.mp hlisted) hne
  · refine prefixes_of_take (fun k hk e he => ?_)
    exact of_decide_eq_true ((Option.all_eq_true _ _).mp (hothers k hk) e he)

end Checking

end OpcUa.ClientIsolation
