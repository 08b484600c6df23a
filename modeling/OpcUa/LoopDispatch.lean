import OpcUa.LoopTermination
import OpcUa.Connections

namespace OpcUa.LoopDispatch

open LittleEndian Connections Readers Servers ServiceTable MessageHandlers
open BoundedReading LoopTermination Loops

variable {b : Build} {env : Nat → Environment} {c : Nat} {x₀ : State}

/-- The positions at which the messages begin, with their types. -/
def expected : Nat → List (List UInt8) → List (Nat × Option MessageType)
  | _, [] => []
  | pos, m :: ms => (pos, typeAt m 0) :: expected (pos + m.length) ms

/-- The passes of the loop take the messages one by one, to the last one or to
the one at which the function returns. -/
def Dispatches (b : Build) (env : Nat → Environment) (c : Nat) (x₀ : State)
    (msgs : List (List UInt8)) : Prop :=
  ∃ fuel p, processBinaryMessage b env c fuel 0 x₀ = some p ∧ p.trace <+: expected 0 msgs ∧
    (p.returned = true ∨ p.trace = expected 0 msgs)

/-- The headers that the loop reaches are still as they were received, apart
from the size of a message at which the function returns. -/
def Intact (b : Build) (env : Nat → Environment) (c : Nat) (x₀ : State) : Prop :=
  ∀ k x, reach (next b env c) x₀ k = some x →
    typeAt x.2.data x.2.offset = typeAt x₀.2.data x.2.offset ∧
      (returns x.1 c (typeAt x.2.data x.2.offset) = false →
        sizeAt x.2.data x.2.offset = sizeAt x₀.2.data x.2.offset)

theorem wordAt_append (before m after : List UInt8) {k : Nat} (h : k + 4 ≤ m.length) :
    wordAt (before ++ m ++ after) (before.length + k) = wordAt m k := by
  rw [wordAt, wordAt, List.append_assoc, ← List.drop_drop, List.drop_left,
    List.drop_append_of_le_length (by omega),
    List.take_append_of_le_length (by rw [List.length_drop]; omega)]

theorem typeAt_append (before m after : List UInt8) (h : 4 ≤ m.length) :
    typeAt (before ++ m ++ after) before.length = typeAt m 0 := by
  have hword := wordAt_append before m after (k := 0) (by omega)
  rw [Nat.add_zero] at hword
  rw [typeAt, typeAt, hword]

theorem sizeAt_append (before m after : List UInt8) (h : 8 ≤ m.length) :
    sizeAt (before ++ m ++ after) before.length = sizeAt m 0 := by
  rw [sizeAt, sizeAt, wordAt_append before m after (by omega)]

theorem sizeAt_wellFormed {maxMessageSize : UInt32} {m : List UInt8} (h : WellFormed maxMessageSize m) :
    sizeAt m 0 = m.length := by
  have hread := h.2.1
  rw [LittleEndian.read] at hread
  split at hread
  · cases hread
  · rw [sizeAt, wordAt_toNat]
    exact Option.some.inj hread

theorem processed_last {k : Nat} {x : State} (h : (pass b (env k) x.1 c x.2).again = false) :
    processBinaryMessage b env c 1 k x =
      some ⟨(pass b (env k) x.1 c x.2).server, [(x.2.offset, (pass b (env k) x.1 c x.2).type)],
        (pass b (env k) x.1 c x.2).returned⟩ := by
  rw [processBinaryMessage]
  exact if_neg (by simp [h])

theorem processed_again {k fuel : Nat} {x y : State} {p : Processed} (h : next b env c k x = some y)
    (hp : processBinaryMessage b env c fuel (k + 1) y = some p) :
    processBinaryMessage b env c (fuel + 1) k x =
      some { p with trace := (x.2.offset, (pass b (env k) x.1 c x.2).type) :: p.trace } := by
  obtain ⟨hagain, rfl⟩ := next_eq_some h
  rw [processBinaryMessage]
  refine (if_pos hagain).trans ?_
  rw [hp]
  rfl

/-- From the beginning of a message on. The induction is on the messages that
are left. -/
theorem dispatches_from {maxMessageSize : UInt32} (hx₀ : Valid x₀.2) (h : Intact b env c x₀)
    (msgs : List (List UInt8)) (hmsgs : ∀ m ∈ msgs, WellFormed maxMessageSize m) (hne : msgs ≠ [])
    {before : List UInt8} {k : Nat} {x : State} (hk : reach (next b env c) x₀ k = some x)
    (hdata : x₀.2.data = before ++ msgs.flatten) (hoffset : x.2.offset = before.length) :
    ∃ fuel p, processBinaryMessage b env c fuel k x = some p ∧ p.trace <+: expected before.length msgs ∧
      (p.returned = true ∨ p.trace = expected before.length msgs) := by
  induction msgs generalizing before k x with
  | nil => exact absurd rfl hne
  | cons m ms ih =>
      have hm := hmsgs m (List.mem_cons_self ..)
      have hlen16 := hm.2.2.1
      obtain ⟨hvalid, hcleared⟩ := reached_valid hx₀ hk
      obtain ⟨htype, hsize⟩ := h k x hk
      rw [List.flatten_cons, ← List.append_assoc] at hdata
      rw [hoffset, hdata, typeAt_append _ _ _ (by omega)] at htype
      rw [hoffset, hdata, sizeAt_append _ _ _ (by omega), sizeAt_wellFormed hm] at hsize
      have hlength : x.2.data.length = before.length + m.length + ms.flatten.length := by
        rw [← hcleared.length_eq, hdata]
        simp only [List.length_append]
      have hlen : x.2.offset + 8 ≤ x.2.data.length := by omega
      have hpass : (pass b (env k) x.1 c x.2).type = typeAt m 0 := by
        rw [pass_type hlen, hoffset, htype]
      rw [expected]
      by_cases hreturns : returns x.1 c (typeAt x.2.data before.length) = true
      · rw [← hoffset] at hreturns
        refine ⟨1, _, processed_last (pass_of_returned hlen hreturns), ?_, Or.inl ?_⟩
        · rw [hpass, hoffset]
          exact ⟨_, rfl⟩
        · rw [← hreturns]
          exact pass_returned hlen
      · have hfalse : returns x.1 c (typeAt x.2.data before.length) = false := by simpa using hreturns
        have hskips : Skips x.2 (pass b (env k) x.1 c x.2) :=
          pass_skips hlen hvalid (by rw [hoffset]; exact hfalse)
        have hagain := hskips.again
        rw [hoffset, hsize hfalse, hlength] at hagain
        cases ms with
        | nil =>
            rw [decide_eq_false (by simp)] at hagain
            refine ⟨1, _, processed_last hagain, ?_, Or.inr ?_⟩
            · rw [hpass, hoffset]
              exact ⟨[], rfl⟩
            · rw [hpass, hoffset]
              rfl
        | cons m' ms =>
            have hm' := (hmsgs m' (by simp)).2.2.1
            have hlt : before.length + m.length <
                before.length + m.length + (m' :: ms).flatten.length := by
              rw [List.flatten_cons, List.length_append]
              omega
            rw [decide_eq_true hlt] at hagain
            have hnext : next b env c k x =
                some ((pass b (env k) x.1 c x.2).server, (pass b (env k) x.1 c x.2).dec) := by
              rw [next]
              exact if_pos hagain
            have hoff : (pass b (env k) x.1 c x.2).dec.offset = (before ++ m).length := by
              rw [hskips.offset, hoffset, hsize hfalse, List.length_append]
            obtain ⟨fuel, p, hp, hinitial, hend⟩ := ih (fun m hm => hmsgs m (List.mem_cons_of_mem _ hm))
              (by simp) ((reach_of_next hk).trans hnext) hdata hoff
            rw [List.length_append] at hinitial hend
            refine ⟨fuel + 1, _, processed_again hnext hp, ?_, hend.imp id ?_⟩
            · rw [hpass, hoffset]
              exact List.prefix_cons_inj _ |>.mpr hinitial
            · intro heq
              rw [hpass, hoffset, ← heq]

theorem trace_of_reach {fuel j : Nat} {z : State} {p : Processed} (hj : reach (next b env c) x₀ j = some z)
    (hp : processBinaryMessage b env c fuel j z = some p) {k : Nat} {x : State}
    (hk : reach (next b env c) x₀ (j + k) = some x) :
    p.trace[k]? = some (x.2.offset, (pass b (env (j + k)) x.1 c x.2).type) := by
  induction fuel generalizing j z p k with
  | zero => simp [processBinaryMessage] at hp
  | succ fuel ih =>
      rw [processBinaryMessage] at hp
      split at hp
      · rename_i hagain
        obtain ⟨q, hq, rfl⟩ := Option.map_eq_some_iff.mp hp
        have hnext : reach (next b env c) x₀ (j + 1) =
            some ((pass b (env j) z.1 c z.2).server, (pass b (env j) z.1 c z.2).dec) := by
          rw [reach_of_next hj, next]
          exact if_pos hagain
        cases k with
        | zero =>
            obtain rfl : z = x := Option.some.inj (hj.symm.trans hk)
            rfl
        | succ k =>
            have hk' : reach (next b env c) x₀ (j + 1 + k) = some x := by
              rw [← hk]
              congr 1
              omega
            have htrace := ih hnext hq hk'
            rw [show j + 1 + k = j + (k + 1) by omega] at htrace
            exact htrace
      · rename_i hagain
        obtain rfl := Option.some.inj hp
        cases k with
        | zero =>
            obtain rfl : z = x := Option.some.inj (hj.symm.trans hk)
            rfl
        | succ k =>
            have hnone : reach (next b env c) x₀ (j + 1) = none := by
              rw [reach_of_next hj, next_eq_none]
              simpa using hagain
            have hle : j + 1 ≤ j + (k + 1) := by omega
            rw [reach_none_of_le hle hnone] at hk
            cases hk

theorem expected_split {pos k : Nat} {msgs : List (List UInt8)} {e : Nat × Option MessageType}
    (h : (expected pos msgs)[k]? = some e) :
    ∃ pre m post, msgs = pre ++ m :: post ∧ pre.length = k ∧
      e = (pos + pre.flatten.length, typeAt m 0) := by
  induction msgs generalizing pos k with
  | nil => simp [expected] at h
  | cons m ms ih =>
      rw [expected] at h
      cases k with
      | zero => exact ⟨[], m, ms, rfl, rfl, by simpa using h.symm⟩
      | succ k =>
          rw [List.getElem?_cons_succ] at h
          obtain ⟨pre, m', post, rfl, hlen, rfl⟩ := ih h
          refine ⟨m :: pre, m', post, rfl, by rw [List.length_cons, hlen], ?_⟩
          rw [List.flatten_cons, List.length_append, Nat.add_assoc]

theorem getElem?_of_prefix {α : Type} {l l' : List α} (h : l <+: l') {k : Nat} {a : α}
    (hk : l[k]? = some a) : l'[k]? = some a := by
  obtain ⟨rest, rfl⟩ := h
  have hlt : k < l.length := (List.getElem?_eq_some_iff.mp hk).1
  rw [List.getElem?_append_left hlt, hk]

theorem intact_of_dispatches {maxMessageSize : UInt32} {msgs : List (List UInt8)} (hx₀ : Valid x₀.2)
    (hmsgs : ∀ m ∈ msgs, WellFormed maxMessageSize m) (hdata : x₀.2.data = msgs.flatten)
    (h : Dispatches b env c x₀ msgs) : Intact b env c x₀ := by
  obtain ⟨fuel, p, hp, hinitial, _⟩ := h
  have hstart : reach (next b env c) x₀ 0 = some x₀ := rfl
  have hat : ∀ k x, reach (next b env c) x₀ k = some x →
      (expected 0 msgs)[k]? = some (x.2.offset, (pass b (env k) x.1 c x.2).type) := by
    intro k x hk
    have htrace := trace_of_reach hstart hp (k := k) (by rw [Nat.zero_add]; exact hk)
    rw [Nat.zero_add] at htrace
    exact getElem?_of_prefix hinitial htrace
  intro k x hk
  obtain ⟨hvalid, hcleared⟩ := reached_valid hx₀ hk
  obtain ⟨pre, m, post, hsplit, hpre, he⟩ := expected_split (hat k x hk)
  obtain ⟨hoffset, htype⟩ := Prod.mk.inj he
  rw [Nat.zero_add] at hoffset
  have hm := hmsgs m (by simp [hsplit])
  have hlen16 := hm.2.2.1
  have hflat : x₀.2.data = pre.flatten ++ m ++ post.flatten := by
    rw [hdata, hsplit]
    simp
  have hlength : x.2.data.length = pre.flatten.length + m.length + post.flatten.length := by
    rw [← hcleared.length_eq, hflat]
    simp only [List.length_append]
  have hlen : x.2.offset + 8 ≤ x.2.data.length := by omega
  refine ⟨?_, fun hreturns => ?_⟩
  · rw [← pass_type hlen, htype, hflat, hoffset, typeAt_append _ _ _ (by omega)]
  · rw [hflat, hoffset, sizeAt_append _ _ _ (by omega), sizeAt_wellFormed hm, ← hoffset]
    by_contra hne
    -- a smaller size makes the loop go on before the end of the message
    have hle : sizeAt x.2.data x.2.offset ≤ m.length := by
      rw [← sizeAt_wellFormed hm, ← sizeAt_append pre.flatten m post.flatten (by omega), ← hflat, ← hoffset]
      exact sizeAt_le_of_cleared hcleared _
    have hskips : Skips x.2 (pass b (env k) x.1 c x.2) := pass_skips hlen hvalid hreturns
    have hagain := hskips.again
    rw [decide_eq_true (by omega)] at hagain
    have hnext : reach (next b env c) x₀ (k + 1) =
        some ((pass b (env k) x.1 c x.2).server, (pass b (env k) x.1 c x.2).dec) := by
      rw [reach_of_next hk, next]
      exact if_pos hagain
    obtain ⟨pre', m', post', hsplit', hpre', he'⟩ := expected_split (hat (k + 1) _ hnext)
    have hoffset' : x.2.offset + sizeAt x.2.data x.2.offset = pre'.flatten.length := by
      rw [← hskips.offset, (Prod.mk.inj he').1, Nat.zero_add]
    have hpre'' : pre' = pre ++ [m] := by
      have htake : pre' = (pre ++ [m] ++ post).take (k + 1) := by
        rw [show pre ++ [m] ++ post = msgs by rw [hsplit]; simp, hsplit', ← hpre', List.take_left]
      rw [htake, List.take_left' (by simp [hpre])]
    rw [hpre''] at hoffset'
    simp only [List.flatten_append, List.flatten_cons, List.flatten_nil, List.append_nil,
      List.length_append] at hoffset'
    omega

/-- The function ends for every buffer but for those that make it stay at a
message of size 0. On a buffer of complete messages it takes them one by one
unless a handler, which decodes beyond its own message, has cleared bits in
the header of a later one. -/
theorem processBinaryMessage_settles_iff (b : Build) (env : Nat → Environment) (s : Server) (c : Nat)
    (msg : List UInt8) (heap : List Bool) :
    (Terminates b env c (start s msg heap) ↔ Unstalled b env c (start s msg heap)) ∧
      ∀ (maxMessageSize : UInt32) (msgs : List (List UInt8)),
        (∀ m ∈ msgs, WellFormed maxMessageSize m) → msgs ≠ [] → msg = msgs.flatten →
        (Dispatches b env c (start s msg heap) msgs ↔ Intact b env c (start s msg heap)) := by
  have hvalid : Valid (start s msg heap).2 := ⟨Nat.zero_le _, by simp [start]⟩
  refine ⟨terminates_iff_unstalled hvalid, ?_⟩
  intro maxMessageSize msgs hmsgs hne hmsg
  constructor
  · exact intact_of_dispatches hvalid hmsgs hmsg
  · intro hintact
    have hdata : (start s msg heap).2.data = [] ++ msgs.flatten := hmsg
    have hstart : reach (next b env c) (start s msg heap) 0 = some (start s msg heap) := rfl
    exact dispatches_from hvalid hintact msgs hmsgs hne hstart hdata rfl

def sampleEnvironment : Environment where
  now := fun _ => 0
  newChannel := some 0
  newSession := some 0
  newSessionEntry := true
  endpointsCopied := true
  namesCopied := true
  guid := ⟨0, 0, 0, [0, 0, 0, 0, 0, 0, 0, 0], NodeIds.length_zeros⟩
  buffer := true
  response := .sent
  fault := .sent

def sampleServer : Server :=
  { newServer ⟨true, false, []⟩ with
    connections := Heaps.Heap.empty.store 0 { init with state := .opening } }

def sampleHello : List UInt8 :=
  [72, 69, 76, 70, 32, 0, 0, 0] ++ List.replicate 20 0 ++ [255, 255, 255, 255]

/-- Two HEL messages in one buffer. -/
theorem processBinaryMessage_settles_sampleHello :
    (∀ m ∈ [sampleHello, sampleHello], WellFormed 65536 m) ∧
      Dispatches standardBuild (fun _ => sampleEnvironment) 0 (start sampleServer (sampleHello ++ sampleHello) [])
        [sampleHello, sampleHello] := by
  have hwell : ∀ m ∈ [sampleHello, sampleHello], WellFormed 65536 m := by decide
  refine ⟨hwell, ((processBinaryMessage_settles_iff standardBuild (fun _ => sampleEnvironment) sampleServer 0
    (sampleHello ++ sampleHello) []).2 65536 [sampleHello, sampleHello] hwell (by simp) (by simp)).mpr ?_⟩
  have hsecond : (reach (next standardBuild (fun _ => sampleEnvironment) 0)
      (start sampleServer (sampleHello ++ sampleHello) []) 1).map (·.2.data) = some (sampleHello ++ sampleHello) := by
    decide +kernel
  have hlast : (reach (next standardBuild (fun _ => sampleEnvironment) 0)
      (start sampleServer (sampleHello ++ sampleHello) []) 2).isNone = true := by decide +kernel
  intro k x hk
  have hdata : x.2.data = sampleHello ++ sampleHello := by
    match k with
    | 0 => exact congrArg (·.2.data) (Option.some.inj hk).symm
    | 1 =>
        rw [hk] at hsecond
        exact Option.some.inj hsecond
    | k + 2 =>
        rw [reach_none_of_le (Nat.le_add_left 2 k) (Option.isNone_iff_eq_none.mp hlast)] at hk
        cases hk
  rw [hdata]
  exact ⟨rfl, fun _ => rfl⟩

def sampleEstablished : Server :=
  sampleServer.setConnection 0 (fun x => { x with state := .established })

/-- A GetEndpoints request that ends in the header of an extension object
with an `ExpandedNodeId`. -/
def sampleOverrun : List UInt8 :=
  [77, 83, 71, 70, 57, 0, 0, 0] ++ List.replicate 16 0 ++ [1, 0, 172, 1, 0, 0] ++ List.replicate 16 0 ++
    [255, 255, 255, 255] ++ List.replicate 4 0 ++ [0, 20, 1]

def sampleVictim : List UInt8 := [65, 67, 75, 70, 64, 0, 0, 0] ++ List.replicate 56 0

/-- A HEL message that announces the size 0 is dispatched for ever. So is the
second one of two complete messages whose size the decoder of the first one
has changed from 64 to 0. -/
theorem processBinaryMessage_repeats :
    ¬ Terminates standardBuild (fun _ => sampleEnvironment) 0
        (start sampleServer [72, 69, 76, 70, 0, 0, 0, 0] []) ∧
      (∀ m ∈ [sampleOverrun, sampleVictim], WellFormed 65536 m) ∧
      ¬ Terminates standardBuild (fun _ => sampleEnvironment) 0
        (start sampleEstablished [sampleOverrun, sampleVictim].flatten []) := by
  refine ⟨not_terminates_of_stall ⟨by decide, by decide⟩ (k := 0) rfl (by decide) (by decide) (by decide)
    (by decide), by decide, ?_⟩
  have hpass : (next standardBuild (fun _ => sampleEnvironment) 0 0
      (start sampleEstablished [sampleOverrun, sampleVictim].flatten [])).map
        (fun y => (y.2.offset, y.2.data.length, typeAt y.2.data y.2.offset, sizeAt y.2.data y.2.offset)) =
      some (57, 121, none, 0) := by
    decide +kernel
  obtain ⟨y, hy, hvalues⟩ := Option.map_eq_some_iff.mp hpass
  simp only [Prod.mk.injEq] at hvalues
  obtain ⟨hoffset, hlength, htype, hsize⟩ := hvalues
  have hreach : reach (next standardBuild (fun _ => sampleEnvironment) 0)
      (start sampleEstablished [sampleOverrun, sampleVictim].flatten []) 1 = some y := by
    rw [reach_of_next rfl, hy]
  exact not_terminates_of_stall ⟨Nat.zero_le _, by decide⟩ hreach (by omega) hsize
    (by rw [htype]; simp) (by rw [htype]; simp)

end OpcUa.LoopDispatch
