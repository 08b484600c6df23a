import Mathlib.Data.List.Chain
import OpcUa.TokenChecks

namespace OpcUa.MessageNumbers

open StatusCodes NodeIds Connections Heaps Readers Servers SecureChannels Sessions MessageHandlers
open ServiceTable LoopDispatch SessionGating TokenChecks ServerLinks HandlerSteps ChannelTokens

section Counter

/-- What becomes of a message that is to be sent: it is handed over with the
next number, or given up after the number was taken, or before. -/
inductive Attempt
  | handed | abandoned | refused
deriving DecidableEq, Repr

def Attempt.count (n : UInt32) : Attempt → UInt32
  | .handed | .abandoned => n + 1
  | .refused => n

/-- The numbers that are handed over, from a counter on. -/
def numbers (n : UInt32) : List Attempt → List UInt32
  | [] => []
  | .handed :: rest => (n + 1) :: numbers (n + 1) rest
  | attempt :: rest => numbers (attempt.count n) rest

def Consecutive (ns : List UInt32) : Prop := List.IsChain (fun m n => n = m + 1) ns

/-- Between a message and the next one that is handed over, as many numbers
have been given up as make up whole rounds of the counter. -/
def Gapless (attempts : List Attempt) : Prop :=
  ∀ before between after, attempts = before ++ .handed :: (between ++ .handed :: after) →
    .handed ∉ between → between.count .abandoned % 2 ^ 32 = 0

variable {n : UInt32} {attempts rest : List Attempt}

theorem head_numbers (between after : List Attempt) (h : .handed ∉ between) (n : UInt32) :
    (numbers n (between ++ .handed :: after)).head? = some (n + UInt32.ofNat (between.count .abandoned) + 1) := by
  induction between generalizing n with
  | nil => simp [numbers]
  | cons attempt between ih =>
      have hrest : .handed ∉ between := fun hmem => h (List.mem_cons_of_mem _ hmem)
      cases attempt with
      | handed => exact absurd (List.mem_cons_self ..) h
      | abandoned =>
          rw [List.cons_append, numbers, ih hrest, List.count_cons_self]
          · simp [Attempt.count, UInt32.ofNat_add, UInt32.add_assoc, UInt32.add_comm 1]
          · intro h
            cases h
      | refused =>
          rw [List.cons_append, numbers, ih hrest, List.count_cons_of_ne (by decide)]
          · rfl
          · intro h
            cases h

theorem numbers_nil_of_not_mem (h : .handed ∉ attempts) (n : UInt32) : numbers n attempts = [] := by
  induction attempts generalizing n with
  | nil => rfl
  | cons attempt rest ih =>
      have hrest : .handed ∉ rest := fun hmem => h (List.mem_cons_of_mem _ hmem)
      cases attempt with
      | handed => exact absurd (List.mem_cons_self ..) h
      | abandoned => exact ih hrest _
      | refused => exact ih hrest _

theorem gapless_of_cons {attempt : Attempt} (h : Gapless (attempt :: rest)) : Gapless rest := by
  intro before between after heq hbetween
  exact h (attempt :: before) between after (by rw [heq]; rfl) hbetween

theorem gapless_cons_iff {attempt : Attempt} (hne : attempt ≠ .handed) : Gapless (attempt :: rest) ↔ Gapless rest := by
  refine ⟨gapless_of_cons, fun h => ?_⟩
  intro before between after heq hbetween
  cases before with
  | nil => exact absurd (List.cons.inj heq).1 hne
  | cons x before => exact h before between after (List.cons.inj heq).2 hbetween

theorem gapless_handed_iff : Gapless (.handed :: rest) ↔
    (∀ between after, rest = between ++ .handed :: after → .handed ∉ between →
      between.count .abandoned % 2 ^ 32 = 0) ∧ Gapless rest := by
  constructor
  · intro h
    exact ⟨fun between after heq => h [] between after (by rw [heq]; rfl), gapless_of_cons h⟩
  · rintro ⟨hfirst, hrest⟩ before between after heq hbetween
    cases before with
    | nil => exact hfirst between after (List.cons.inj heq).2 hbetween
    | cons x before => exact hrest before between after (List.cons.inj heq).2 hbetween

theorem gapless_of_not_mem (h : .abandoned ∉ attempts) : Gapless attempts := by
  intro before between after heq _
  have hbetween : .abandoned ∉ between := by
    intro hmem
    apply h
    rw [heq]
    simp [hmem]
  rw [List.count_eq_zero.mpr hbetween, Nat.zero_mod]

theorem add_ofNat_eq_iff (n : UInt32) (k : Nat) : n + UInt32.ofNat k + 1 = n + 1 ↔ k % 2 ^ 32 = 0 := by
  rw [UInt32.add_left_inj]
  constructor
  · intro h
    have hzero : UInt32.ofNat k = 0 := by simpa using h
    simpa using congrArg UInt32.toNat hzero
  · intro h
    have hzero : UInt32.ofNat k = 0 := by
      apply UInt32.toNat_inj.mp
      simpa using h
    rw [hzero, UInt32.add_zero]

theorem consecutive_numbers_iff (n : UInt32) (attempts : List Attempt) :
    Consecutive (numbers n attempts) ↔ Gapless attempts := by
  induction attempts generalizing n with
  | nil =>
      refine ⟨fun _ before between after heq => ?_, fun _ => .nil⟩
      simp at heq
  | cons attempt rest ih =>
      cases attempt with
      | abandoned => exact (ih (n + 1)).trans (gapless_cons_iff (by decide)).symm
      | refused => exact (ih n).trans (gapless_cons_iff (by decide)).symm
      | handed =>
          rw [gapless_handed_iff, ← ih (n + 1), numbers, Consecutive, List.isChain_cons]
          refine and_congr_left (fun _ => ?_)
          constructor
          · intro h between after heq hbetween
            have hnext := h _ (by rw [heq, head_numbers between after hbetween]; rfl)
            exact (add_ofNat_eq_iff (n + 1) _).mp hnext
          · intro h m hm
            by_cases hmem : .handed ∈ rest
            · obtain ⟨between, after, heq, hbetween⟩ := List.eq_append_cons_of_mem hmem
              rw [heq, head_numbers between after hbetween, Option.mem_some_iff] at hm
              rw [← hm]
              exact (add_ofNat_eq_iff (n + 1) _).mpr (h between after heq hbetween)
            · rw [numbers_nil_of_not_mem hmem] at hm
              cases hm

end Counter

section Channels

/-- Everything that is sent with a sequence number: the answer to an OPN
message, and the responses, faults and publish responses. -/
inductive Send
  | opn (env : Environment) (c : Nat)
  | message (sending : Sending) (c : Nat) (channel : Option Nat)

def Send.run (s : Server) : Send → Server
  | .opn env c => (answerOPN env s c).1
  | .message sending c channel => (sendBinaryMessage sending s c channel).2

def number (s : Server) (a : Nat) : Option UInt32 := (s.channels a).map (·.sequenceNumber)

/-- What the sender does for the channel `a`. -/
def Send.attempt (s : Server) (a : Nat) : Send → Attempt
  | .opn env c =>
      if connectionChannel s c ≠ some a then .refused
      else if (answerOPN env s c).2.isEmpty then .abandoned
      else .handed
  | .message sending c channel => if channel = some a ∧ handed sending s c channel = true then .handed else .refused

/-- A sender in the state in which it is called. -/
structure Occurrence where
  before : Server
  send : Send

def Occurrence.attempt (a : Nat) (x : Occurrence) : Attempt := x.send.attempt x.before a

/-- Between two senders nothing touches the counter of the channel. -/
def Follows (a : Nat) (x y : Occurrence) : Prop := number y.before a = number (x.send.run x.before) a

/-- Senders one after the other, from a state with the counter `n`. -/
structure Sequence (a : Nat) (n : UInt32) (trace : List Occurrence) : Prop where
  starts : ∀ x ∈ trace.head?, number x.before a = some n
  follows : List.IsChain (Follows a) trace

/-- A message that is handed over has the counter in its header as it has just
been increased. -/
def handedNumbers (a : Nat) (trace : List Occurrence) : List UInt32 :=
  trace.filterMap (fun x => if x.attempt a = .handed then number (x.send.run x.before) a else none)

variable {s : Server} {a c : Nat} {n : UInt32} {env : Environment} {trace : List Occurrence}

theorem number_next (hn : number s a = some n) : number (nextSequenceNumber s (some a)) a = some (n + 1) := by
  obtain ⟨y, hy, rfl⟩ := Option.map_eq_some_iff.mp hn
  have hchannel : (nextSequenceNumber s (some a)).channels a =
      (s.channels a).map (fun x => { x with sequenceNumber := x.sequenceNumber + 1 }) := modify_self
  rw [number, hchannel, hy]
  rfl

theorem number_next_of_ne {channel : Option Nat} (hne : channel ≠ some a) :
    number (nextSequenceNumber s channel) a = number s a := by
  cases channel with
  | none => rfl
  | some a' =>
      have ha : a ≠ a' := fun h => hne (congrArg some h.symm)
      have hchannel : (nextSequenceNumber s (some a')).channels a = s.channels a := modify_of_ne ha
      rw [number, number, hchannel]

theorem number_opn (hn : number s a = some n) :
    number (answerOPN env s c).1 a = some (((Send.opn env c).attempt s a).count n) := by
  change _ = some (Attempt.count n (if connectionChannel s c ≠ some a then .refused else
    if (answerOPN env s c).2.isEmpty then .abandoned else .handed))
  by_cases ha : connectionChannel s c = some a
  · have hnext := number_next hn
    rw [if_neg (not_not.mpr ha)]
    unfold answerOPN
    rw [ha]
    cases env.buffer with
    | false => exact hnext
    | true => cases env.response <;> exact hnext
  · rw [if_pos ha]
    unfold answerOPN
    cases hchannel : connectionChannel s c with
    | none => exact hn
    | some a' =>
        rw [hchannel] at ha
        have hnext : number (nextSequenceNumber s (some a')) a = some n := (number_next_of_ne ha).trans hn
        cases env.buffer with
        | false => exact hnext
        | true => cases env.response <;> exact hnext

theorem sendBinaryMessage_channels (sending : Sending) (channel : Option Nat) :
    (sendBinaryMessage sending s c channel).2.channels =
      if handed sending s c channel then (nextSequenceNumber s channel).channels else s.channels := by
  unfold handed sendBinaryMessage
  cases channelConnection s c channel with
  | none => rfl
  | some c' => cases sending <;> rfl

theorem number_message {sending : Sending} {channel : Option Nat} (hn : number s a = some n) :
    number (sendBinaryMessage sending s c channel).2 a =
      some (((Send.message sending c channel).attempt s a).count n) := by
  change _ = some (Attempt.count n (if channel = some a ∧ handed sending s c channel = true then .handed else .refused))
  rw [number, sendBinaryMessage_channels]
  by_cases hhanded : handed sending s c channel = true
  · rw [if_pos hhanded]
    by_cases ha : channel = some a
    · rw [if_pos ⟨ha, hhanded⟩, ha]
      exact number_next hn
    · rw [if_neg (fun h => ha h.1)]
      exact (number_next_of_ne ha).trans hn
  · rw [if_neg hhanded, if_neg (fun h => hhanded h.2)]
    exact hn

theorem number_run (x : Occurrence) (hn : number x.before a = some n) :
    number (x.send.run x.before) a = some ((x.attempt a).count n) := by
  obtain ⟨s, send⟩ := x
  cases send with
  | opn env c => exact number_opn hn
  | message sending c channel => exact number_message hn

theorem handedNumbers_eq (h : Sequence a n trace) : handedNumbers a trace = numbers n (trace.map (·.attempt a)) := by
  induction trace generalizing n with
  | nil => rfl
  | cons x trace ih =>
      have hrun := number_run x (h.starts x rfl)
      obtain ⟨hfirst, hfollows⟩ := List.isChain_cons.mp h.follows
      have hrest : Sequence a ((x.attempt a).count n) trace :=
        ⟨fun y hy => (hfirst y hy).trans hrun, hfollows⟩
      rw [handedNumbers, List.filterMap_cons, List.map_cons]
      have htail : trace.filterMap (fun x => if x.attempt a = .handed then number (x.send.run x.before) a else none) =
        numbers ((x.attempt a).count n) (trace.map (·.attempt a)) := ih hrest
      rw [htail, hrun]
      cases x.attempt a <;> rfl

end Channels

section Working

/-- A stretch of the server's work with the senders that are called in it.
Where none is called, the counter of the channel stays. -/
inductive Works (a : Nat) : Server → List Occurrence → Server → Prop
  | refl (s) : Works a s [] s
  | still {s s' s'' trace} (hsame : number s' a = number s a) (h : Works a s' trace s'') : Works a s trace s''
  | send {s s'' trace} (x : Send) (h : Works a (x.run s) trace s'') : Works a s (⟨s, x⟩ :: trace) s''

def Sends (a : Nat) (s s' : Server) : Prop := ∃ trace, Works a s trace s'

variable {s s' s'' : Server} {a c : Nat} {n : UInt32} {b : Build} {env : Environment} {st : Dec}
  {channel : Option Nat} {trace trace' : List Occurrence}

theorem Works.trans (h : Works a s trace s') (h' : Works a s' trace' s'') : Works a s (trace ++ trace') s'' := by
  induction h with
  | refl => exact h'
  | still hsame _ ih => exact .still hsame (ih h')
  | send x _ ih => exact .send x (ih h')

/-- The senders in the work of the server follow each other. -/
theorem Works.sequence (h : Works a s trace s') (hn : number s a = some n) : Sequence a n trace := by
  induction h generalizing n with
  | refl =>
      refine ⟨?_, .nil⟩
      rintro x ⟨⟩
  | still hsame _ ih => exact ih (hsame.trans hn)
  | @send s s'' trace x hrest ih =>
      have hnext := number_run ⟨s, x⟩ hn
      have hsequence := ih hnext
      refine ⟨?_, List.isChain_cons.mpr ⟨?_, hsequence.follows⟩⟩
      · rintro y ⟨⟩
        exact hn
      · intro y hy
        exact (hsequence.starts y hy).trans hnext.symm

theorem Sends.refl (s : Server) : Sends a s s := ⟨[], .refl s⟩

theorem Sends.trans (h : Sends a s s') (h' : Sends a s' s'') : Sends a s s'' := by
  obtain ⟨trace, hworks⟩ := h
  obtain ⟨trace', hworks'⟩ := h'
  exact ⟨trace ++ trace', hworks.trans hworks'⟩

theorem number_of_same (h : SameChannels s s') : number s' a = number s a := map_part (h.channels a) (fun _ => rfl)

theorem number_of_channel (h : s'.channels a = s.channels a) : number s' a = number s a := by rw [number, number, h]

theorem sends_of_number (h : number s' a = number s a) : Sends a s s' := ⟨[], .still h (.refl s')⟩

theorem sends_of_same (h : SameChannels s s') : Sends a s s' := sends_of_number (number_of_same h)

theorem sends_close : Sends a s (close s c) := sends_of_same sameChannels_setConnection

theorem sends_message (sending : Sending) : Sends a s (sendBinaryMessage sending s c channel).2 :=
  ⟨_, .send (.message sending c channel) (.refl _)⟩

theorem sends_sendError {requestId : UInt32} {error : StatusCode} {pos : Nat} :
    Sends a s (sendError b env s c channel requestId error pos st).server := by
  rw [sendError]
  split
  · exact .refl s
  · exact sends_message env.fault

theorem sends_serve {requestId : UInt32} {service : Service} {request : Any} {oldpos : Nat} :
    Sends a s (serve b env s c channel requestId service request oldpos st).server := by
  unfold serve
  dsimp only
  split
  · exact sends_sendError
  split
  · exact sends_sendError
  · generalize channel.bind (channelSession s · (tokenOf request)) = session
    have hcalled : Sends a s (callService env (extended env s session) ⟨service, c, channel, session, request⟩) :=
      sends_of_same (sameChannels_of_onlySessions
        ((onlySessions_extended session).trans (onlySessions_callService _)))
    split
    · exact hcalled
    split
    · exact (hcalled.trans (sends_message env.response)).trans sends_sendError
    · exact hcalled.trans (sends_message env.response)

theorem sends_processRequest {requestId : UInt32} {requestTypeId : NodeId} :
    Sends a s (processRequest b env s c channel requestId requestTypeId st).server := by
  unfold processRequest
  split
  · exact sends_sendError
  split
  · exact sends_sendError
  split
  · exact sends_sendError
  split
  · exact sends_sendError
  · exact sends_serve

theorem sends_answerOPN : Sends a s (answerOPN env s c).1 := ⟨_, .send (.opn env c) (.refl _)⟩

theorem sends_processHEL : Sends a s (processHEL env s c st).server := by
  rw [processHEL]
  split
  · exact sends_close
  · dsimp only
    split
    · exact sends_of_same sameChannels_setConnection
    · apply sends_of_same
      dsimp only
      split
      · exact sameChannels_setConnection.trans sameChannels_setConnection
      · exact sameChannels_setConnection

theorem number_revolve {a' : Nat} : number (s.setChannel a' revolveTokens) a = number s a := by
  rw [number, number, Server.setChannel_channels]
  apply modify_part
  intro y
  rw [revolveTokens]
  split <;> rfl

theorem number_removeChannel {a' : Nat} (hlives : number (removeChannel s a') a ≠ none) :
    number (removeChannel s a') a = number s a := by
  have hne : a ≠ a' := fun h => hlives (congrArg (Option.map _) (if_pos h))
  have hmembers : number (deleteChannelMembers s a') a = number s a :=
    number_of_same sameChannels_deleteChannelMembers
  rw [← hmembers]
  exact number_of_channel (if_neg hne)

theorem number_closeSecureChannel {channelId : UInt32} (hlives : number (closeSecureChannel s channelId) a ≠ none) :
    number (closeSecureChannel s channelId) a = number s a := by
  revert hlives
  rw [closeSecureChannel, closeChannel]
  split
  · exact fun _ => rfl
  · exact number_removeChannel

theorem number_cleanupChannel {now : DateTime} {a' : Nat} (hlives : number (cleanupChannel now s a') a ≠ none) :
    number (cleanupChannel now s a') a = number s a := by
  revert hlives
  rw [cleanupChannel]
  split
  · exact fun _ => rfl
  split
  · exact number_removeChannel
  split
  · exact fun _ => number_revolve
  · exact fun _ => rfl

theorem number_cleanupChannels {now : DateTime} (hlives : number (cleanupChannels s now) a ≠ none) :
    number (cleanupChannels s now) a = number s a := by
  have hfold : ∀ (l : List Nat) (s : Server), number (l.foldl (cleanupChannel now) s) a ≠ none →
      number (l.foldl (cleanupChannel now) s) a = number s a := by
    intro l
    induction l with
    | nil => exact fun _ _ => rfl
    | cons a' l ih =>
        intro s hlives
        have hrest := ih (cleanupChannel now s a') hlives
        exact hrest.trans (number_cleanupChannel (fun hnone => hlives (hrest.trans hnone)))
  exact hfold _ s hlives

/-- A new channel does not take the place of one that is there. -/
theorem number_openSecureChannel {request : OpenRequest} (hn : number s a = some n) :
    number (openSecureChannel env s c request).2 a = some n := by
  rw [← hn, openSecureChannel]
  split
  · rw [openChannel]
    dsimp only
    split
    · rfl
    split
    · rfl
    split
    · rfl
    · rename_i a' hnew
      have hne : a ≠ a' := by
        rintro rfl
        rw [number, (allocate_eq_some.mp hnew).2] at hn
        cases hn
      let stored : Server :=
        { s with channels := s.channels.store a' (issuedChannel s.secureChannelManager (env.now 0) request) }
      have hstored : number stored a = number s a := number_of_channel (if_neg hne)
      have hattached : SameChannels stored (attachSecureChannel stored c a') := sameChannels_attachSecureChannel
      exact (number_of_same hattached).trans hstored
  · rcases renewChannel_cases env s c request with hsame | ⟨a', y, _, _, _, hchannels, _⟩
    · rw [hsame]
    · rw [number, hchannels]
      apply modify_part
      exact fun _ => rfl

theorem sends_processOPN (hn : number s a = some n) : Sends a s (processOPN b env s c st).server := by
  rw [processOPN]
  split
  · exact sends_close
  split
  · exact sends_close
  split
  · exact sends_close
  · exact (sends_of_number ((number_openSecureChannel hn).trans hn.symm)).trans sends_answerOPN

theorem sends_processMSG (hlives : number (processMSG b env s c st).server a ≠ none) :
    Sends a s (processMSG b env s c st).server := by
  revert hlives
  unfold processMSG processChecked
  dsimp only
  split
  · exact fun _ => .refl s
  split
  · exact fun _ => .refl s
  split
  · split
    · exact fun hlives => sends_of_number (number_closeSecureChannel hlives)
    · refine fun _ => .trans ?_ sends_processRequest
      cases connectionChannel s c with
      | none => exact .refl s
      | some a' => exact sends_of_number number_revolve
  · exact fun _ => sends_processRequest

theorem sends_processCLO (hlives : number (processCLO s c st).server a ≠ none) :
    Sends a s (processCLO s c st).server := by
  have hcases : (processCLO s c st).server = s ∨
      ∃ channelId, (processCLO s c st).server = closeSecureChannel s channelId := processCLO_cases
  rcases hcases with hsame | ⟨channelId, hclosed⟩
  · rw [hsame]
    exact .refl s
  · rw [hclosed] at hlives ⊢
    exact sends_of_number (number_closeSecureChannel hlives)

theorem sends_pass (hn : number s a = some n) (hlives : number (pass b env s c st).server a ≠ none) :
    Sends a s (pass b env s c st).server := by
  revert hlives
  rw [MessageHandlers.pass]
  split
  · exact fun _ => sends_close
  unfold dispatch
  split
  · rw [skipTo_server]
    exact fun _ => sends_processHEL
  · rw [skipTo_server]
    exact fun _ => sends_processOPN hn
  · split
    · exact fun _ => sends_close
    · rw [skipTo_server]
      exact sends_processMSG
  · dsimp only
    generalize hclosed : (processCLO s c _).server = s'
    intro hlives
    subst hclosed
    exact (sends_processCLO hlives).trans sends_close
  · exact fun _ => .refl s

theorem sends_step {e : Event} (hn : number s a = some n) (hlives : number (step b s e) a ≠ none) :
    Sends a s (step b s e) := by
  cases e with
  | connect c connection =>
      rw [step, connect]
      split
      · exact sends_of_number rfl
      · exact .refl s
  | detach c => exact sends_of_same sameChannels_detachSecureChannel
  | free c => exact sends_of_number rfl
  | message c env st => exact sends_pass hn hlives
  | cleanup now =>
      have hsessions : SameChannels s (cleanupSessions s now) :=
        sameChannels_of_onlySessions (onlySessions_cleanupSessions now s)
      exact sends_of_number ((number_cleanupChannels hlives).trans (number_of_same hsessions))

/-- An event of the server, or a publish response that goes out later. -/
inductive Turn
  | event (e : Event)
  | publish (sending : Sending) (c : Nat) (channel : Option Nat)

def Turn.run (b : Build) (s : Server) : Turn → Server
  | .event e => step b s e
  | .publish sending c channel => (sendBinaryMessage sending s c channel).2

theorem sends_turn {turn : Turn} (hn : number s a = some n) (hlives : number (turn.run b s) a ≠ none) :
    Sends a s (turn.run b s) := by
  cases turn with
  | event e => exact sends_step hn hlives
  | publish sending c channel => exact sends_message sending

/-- As long as the channel is there, all that is sent on it in a run of the
server is a sequence of senders from its counter on. -/
theorem turns_sequence (turns : List Turn) (hn : number s a = some n)
    (hlives : ∀ before, before <+: turns → number (before.foldl (Turn.run b) s) a ≠ none) :
    ∃ trace, Works a s trace (turns.foldl (Turn.run b) s) ∧ Sequence a n trace := by
  have hsends : Sends a s (turns.foldl (Turn.run b) s) := by
    induction turns generalizing s n with
    | nil => exact .refl s
    | cons turn turns ih =>
        have hnext : number (turn.run b s) a ≠ none := hlives [turn] ⟨turns, rfl⟩
        obtain ⟨m, hm⟩ := Option.ne_none_iff_exists'.mp hnext
        refine (sends_turn hn hnext).trans (ih hm ?_)
        rintro before ⟨after, rfl⟩
        exact hlives (turn :: before) ⟨after, rfl⟩
  obtain ⟨trace, hworks⟩ := hsends
  exact ⟨trace, hworks, hworks.sequence hn⟩

end Working

/-- The numbers of the messages that are handed over on a channel are
consecutive, if and only if no answer to an OPN message is given up between
them, or as many as make up whole rounds of the counter. -/
theorem handed_consecutive_iff (a : Nat) (n : UInt32) (trace : List Occurrence) (h : Sequence a n trace) :
    Consecutive (handedNumbers a trace) ↔ Gapless (trace.map (·.attempt a)) := by
  rw [handedNumbers_eq h]
  exact consecutive_numbers_iff n _

/-- Responses on the first channel, and between them the answer to an OPN
message for which there may be no buffer. -/
def sampleTrace (buffer : Bool) : List Occurrence :=
  let response : Send := .message .sent 0 (some 0)
  let answer : Send := .opn { sampleEnvironment with buffer := buffer } 0
  let s := run standardBuild (newServer ⟨true, false, []⟩) sampleOpening
  [⟨s, response⟩, ⟨response.run s, answer⟩, ⟨answer.run (response.run s), response⟩]

theorem sampleTrace_sequence (buffer : Bool) : Sequence 0 1 (sampleTrace buffer) := by
  refine ⟨?_, .cons_cons rfl (.cons_cons rfl (.singleton _))⟩
  rintro x ⟨⟩
  decide +kernel

theorem handed_consecutive_sampleTrace : Consecutive (handedNumbers 0 (sampleTrace true)) := by
  refine (handed_consecutive_iff 0 1 (sampleTrace true) (sampleTrace_sequence true)).mpr ?_
  exact gapless_of_not_mem (by decide +kernel)

/-- The numbers of the two responses are 2 and 4. -/
theorem handed_gap : Sequence 0 1 (sampleTrace false) ∧ handedNumbers 0 (sampleTrace false) = [2, 4] ∧
    ¬ Consecutive (handedNumbers 0 (sampleTrace false)) := by
  have hnumbers : handedNumbers 0 (sampleTrace false) = [2, 4] := by decide +kernel
  refine ⟨sampleTrace_sequence false, hnumbers, ?_⟩
  rw [hnumbers, Consecutive, List.isChain_pair]
  decide

end OpcUa.MessageNumbers
