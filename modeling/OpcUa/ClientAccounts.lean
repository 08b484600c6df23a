import OpcUa.ClientLifecycles
import OpcUa.ReplyMatching

namespace OpcUa.ClientAccounts

open StatusCodes Connections Servers ServiceTable Ledgers Waiting ClientLifecycles
open ClientCalls (sendOpening sendRequest acceptOpening retrieveResponse)

variable {b : Build} {w w' w'' : World} {status : StatusCode}

section Accounts

def held (w : World) : List Nat := if w.client.connectionState = .closed then [] else w.client.sockfd.toList

/-- Every descriptor that was given out is in use or has been closed, apart from
those for which no host was found, and once more where a message broke off. -/
structure Accounted (w : World) : Prop where
  balance : (blocksOf w.closings ++ (held w ++ w.unresolved)).Perm (List.range w.opened ++ w.broken)
  own : Release.unset ∉ w.closings
  apart : ∀ fd ∈ w.unresolved, fd ∉ held w ∧ fd ∉ w.broken
  given : ∀ fd ∈ w.broken, fd < w.opened
  socket : w.client.connectionState ≠ .closed → w.client.sockfd.isSome = true

theorem held_closed (h : w.client.connectionState = .closed) : held w = [] := if_pos h

theorem held_open (h : w.client.connectionState ≠ .closed) : held w = w.client.sockfd.toList := if_neg h

theorem Accounted.open (h : Accounted w) (hopen : w.client.connectionState ≠ .closed) :
    ∃ fd, w.client.sockfd = some fd ∧ held w = [fd] := by
  obtain ⟨fd, hfd⟩ := Option.isSome_iff_exists.mp (h.socket hopen)
  refine ⟨fd, hfd, ?_⟩
  rw [held_open hopen, hfd]
  rfl

theorem Accounted.lt_opened (h : Accounted w) {fd : Nat} (hfd : fd ∈ held w ++ w.unresolved) : fd < w.opened := by
  have hmem : fd ∈ List.range w.opened ++ w.broken := h.balance.subset (List.mem_append_right _ hfd)
  rcases List.mem_append.mp hmem with hrange | hbroken
  · exact List.mem_range.mp hrange
  · exact h.given fd hbroken

theorem Accounted.congr (h : Accounted w) (hclosings : w'.closings = w.closings) (hopened : w'.opened = w.opened)
    (hunresolved : w'.unresolved = w.unresolved) (hbroken : w'.broken = w.broken) (hheld : held w' = held w)
    (hsocket : w'.client.connectionState ≠ .closed → w'.client.sockfd.isSome = true) : Accounted w' where
  balance := by
    rw [hclosings, hopened, hunresolved, hbroken, hheld]
    exact h.balance
  own := hclosings ▸ h.own
  apart := by
    rw [hunresolved, hbroken, hheld]
    exact h.apart
  given := by
    rw [hbroken, hopened]
    exact h.given
  socket := hsocket

def breaks (w : World) : Nat := w.broken.length + w.hungUp.length

/-- Messages are exchanged. The connection stays as it is unless it breaks off. -/
structure Exchanges (w w' : World) : Prop where
  accounted : Accounted w'
  stage : w'.stage = w.stage
  ended : w'.ended = w.ended
  activated : w'.activated = w.activated
  connection : w'.client.connectionState = w.client.connectionState ∧ breaks w' = breaks w ∨
    w'.client.connectionState = .closed ∧ breaks w < breaks w'

theorem Exchanges.refl (h : Accounted w) : Exchanges w w := ⟨h, rfl, rfl, rfl, .inl ⟨rfl, rfl⟩⟩

theorem Exchanges.trans (h : Exchanges w w') (h' : Exchanges w' w'') : Exchanges w w'' where
  accounted := h'.accounted
  stage := h'.stage.trans h.stage
  ended := h'.ended.trans h.ended
  activated := h'.activated.trans h.activated
  connection := by
    rcases h.connection with ⟨hstate, hbreaks⟩ | ⟨hclosed, hbreaks⟩ <;>
      rcases h'.connection with ⟨hstate', hbreaks'⟩ | ⟨hclosed', hbreaks'⟩
    · exact .inl ⟨hstate'.trans hstate, hbreaks'.trans hbreaks⟩
    · exact .inr ⟨hclosed', hbreaks ▸ hbreaks'⟩
    · exact .inr ⟨hstate'.trans hclosed, hbreaks'.symm ▸ hbreaks⟩
    · exact .inr ⟨hclosed', hbreaks.trans hbreaks'⟩

/-- The world but for the client and what its calls get. -/
def withClient (w : World) (c : Client) (script : Script) : World := { w with client := c, script := script }

/-- The world with the client as the functions that send and receive leave it. -/
def withCalls (w : World) (calls : ClientCalls.Client) : World := withClient w { w.client with calls := calls } w.script

theorem exchanges_withClient {c : Client} {script : Script} (h : Accounted w)
    (hconnection : c.connectionState = w.client.connectionState) (hsockfd : c.sockfd = w.client.sockfd) :
    Exchanges w (withClient w c script) where
  accounted := by
    refine h.congr rfl rfl rfl rfl ?_ ?_
    · simp only [held, withClient, hconnection, hsockfd]
    · intro hopen
      change c.sockfd.isSome = true
      rw [hsockfd]
      exact h.socket (hconnection ▸ hopen)
  stage := rfl
  ended := rfl
  activated := rfl
  connection := .inl ⟨hconnection, rfl⟩

/-- What a call leaves: its accounts are in order, and it has not deleted the client. -/
def Kept (w w' : World) : Prop := Accounted w' ∧ w'.stage = w.stage

theorem Kept.trans (h : Kept w w') (h' : Kept w' w'') : Kept w w'' := ⟨h'.1, h'.2.trans h.2⟩

theorem Exchanges.kept (h : Exchanges w w') : Kept w w' := ⟨h.accounted, h.stage⟩

end Accounts

section Sockets

theorem setClient_spec {f : Client → Client} {W : World → Prop} {Q : PUnit → World → Prop}
    (h : Q ⟨⟩ { w with client := f w.client }) : Ends (setClient f) w W Q := h

variable {β : Type} {W : World → Prop} {T : β → World → Prop} {g : PUnit → Run β}

theorem ends_setClient_bind_iff {f : Client → Client} :
    Ends (setClient f >>= g) w W T ↔ Ends (g ⟨⟩) (withClient w (f w.client) w.script) W T := Iff.rfl

theorem ends_setCalls_bind_iff {calls : ClientCalls.Client} :
    Ends (setCalls calls >>= g) w W T ↔ Ends (g ⟨⟩) (withCalls w calls) W T := Iff.rfl

/-- The world after `socket_close`. -/
def socketClosed (w : World) : World :=
  { w with
    client := w.client.setConnectionState .closed
    closings := w.client.descriptor :: w.closings }

theorem descriptor_eq {c : Client} {fd : Nat} (h : c.sockfd = some fd) : c.descriptor = .block fd := by
  rw [Client.descriptor, h]

theorem accounted_socketClosed (h : Accounted w) (hopen : w.client.connectionState ≠ .closed) :
    Accounted (socketClosed w) := by
  obtain ⟨fd, hfd, hheld⟩ := h.open hopen
  have hclosed : held (socketClosed w) = [] := held_closed rfl
  have hclosings : (socketClosed w).closings = .block fd :: w.closings := congrArg (· :: _) (descriptor_eq hfd)
  constructor
  · rw [hclosed, hclosings]
    have hbalance := h.balance
    rw [hheld] at hbalance
    exact List.perm_middle.symm.trans hbalance
  · rw [hclosings]
    exact fun hmem => (List.mem_cons.mp hmem).elim (fun heq => by cases heq) h.own
  · rw [hclosed]
    exact fun fd hmem => ⟨List.not_mem_nil, (h.apart fd hmem).2⟩
  · exact h.given
  · exact fun hne => absurd rfl hne

theorem accounted_broken (h : Accounted w) (hopen : w.client.connectionState ≠ .closed) :
    Accounted (socketClosed (socketClosed { w with broken := w.client.sockfd.toList ++ w.broken })) := by
  obtain ⟨fd, hfd, hheld⟩ := h.open hopen
  have hclosings : (socketClosed (socketClosed { w with broken := w.client.sockfd.toList ++ w.broken })).closings =
      .block fd :: .block fd :: w.closings := by
    have hdescriptor := descriptor_eq hfd
    exact congrArg₂ (· :: · :: _) hdescriptor hdescriptor
  have hbroken : w.client.sockfd.toList ++ w.broken = fd :: w.broken := by
    rw [hfd]
    rfl
  have hclosed : held (socketClosed (socketClosed { w with broken := w.client.sockfd.toList ++ w.broken })) = [] :=
    held_closed rfl
  constructor
  · rw [hclosed, hclosings]
    change (fd :: fd :: (blocksOf w.closings ++ w.unresolved)).Perm
      (List.range w.opened ++ (w.client.sockfd.toList ++ w.broken))
    have hbalance := h.balance
    rw [hheld] at hbalance
    rw [hbroken]
    exact ((List.perm_middle.symm.trans hbalance).cons fd).trans List.perm_middle.symm
  · rw [hclosings]
    simp only [List.mem_cons, reduceCtorEq, false_or]
    exact h.own
  · rw [hclosed]
    change ∀ x ∈ w.unresolved, x ∉ [] ∧ x ∉ w.client.sockfd.toList ++ w.broken
    rw [hbroken]
    intro x hx
    obtain ⟨hnotHeld, hnotBroken⟩ := h.apart x hx
    rw [hheld, List.mem_singleton] at hnotHeld
    exact ⟨List.not_mem_nil, fun hmem => (List.mem_cons.mp hmem).elim hnotHeld hnotBroken⟩
  · change ∀ x ∈ w.client.sockfd.toList ++ w.broken, x < w.opened
    rw [hbroken]
    intro x hx
    rcases List.mem_cons.mp hx with rfl | hx
    · exact h.lt_opened (List.mem_append_left _ (hheld ▸ List.mem_singleton_self x))
    · exact h.given x hx
  · exact fun hne => absurd rfl hne

theorem clientClose_open {W : World → Prop} {Q : PUnit → World → Prop} (hopen : w.client.connectionState ≠ .closed)
    (h : Q ⟨⟩ (socketClosed w)) : Ends clientClose w W Q := by
  rw [clientClose, ends_get_bind_iff, if_neg hopen]
  exact h

theorem clientClose_closed {W : World → Prop} {Q : PUnit → World → Prop} (hclosed : w.client.connectionState = .closed)
    (h : Q ⟨⟩ w) : Ends clientClose w W Q := by
  rw [clientClose, ends_get_bind_iff, if_pos hclosed]
  exact h

end Sockets

section Messages

def StaysOpen (w w' : World) : Prop :=
  w'.client.connectionState = w.client.connectionState ∧ w.client.connectionState ≠ .closed

theorem broken_spec (h : Accounted w) (hopen : w.client.connectionState ≠ .closed) :
    Exchanges w (socketClosed (socketClosed { w with broken := w.client.sockfd.toList ++ w.broken })) where
  accounted := accounted_broken h hopen
  stage := rfl
  ended := rfl
  activated := rfl
  connection := by
    obtain ⟨fd, hfd, _⟩ := h.open hopen
    refine .inr ⟨rfl, ?_⟩
    change w.broken.length + w.hungUp.length < (w.client.sockfd.toList ++ w.broken).length + w.hungUp.length
    rw [hfd, List.length_append]
    simp only [Option.toList_some, List.length_singleton]
    omega

theorem sendMessage_spec (h : Accounted w) : Ends sendMessage w Accounted (fun sending w' =>
    Exchanges w w' ∧ w'.client.calls.state = w.client.calls.state ∧
      match sending with
      | .refused code => code ≠ good ∧ w'.client.connectionState = w.client.connectionState
      | .sent => StaysOpen w w'
      | .broken => w'.client.connectionState = .closed) := by
  rw [sendMessage, ends_get_bind_iff]
  by_cases hclosed : w.client.connectionState = .closed
  · rw [if_pos hclosed]
    exact ⟨.refl h, rfl, by decide, rfl⟩
  · rw [if_neg hclosed]
    refine Ends.bind (R := fun fate w' => ∃ script, w' = withClient w w.client script) ?_ ?_
    · rw [nextFate, ends_get_bind_iff]
      split
      · exact h
      · rw [ends_modify_bind_iff]
        exact ⟨_, rfl⟩
    · rintro fate _ ⟨script, rfl⟩
      have hsame : Exchanges w (withClient w w.client script) := exchanges_withClient h rfl rfl
      cases fate with
      | refused code => exact ⟨hsame, rfl, code.2, rfl⟩
      | sent => exact ⟨hsame, rfl, rfl, hclosed⟩
      | broken =>
          dsimp only
          rw [ends_modify_bind_iff]
          refine Ends.bind (clientClose_open (Q := fun _ w' => w' = socketClosed
            { withClient w w.client script with broken := w.client.sockfd.toList ++ w.broken }) hclosed rfl) ?_
          rintro _ _ rfl
          exact ⟨hsame.trans (broken_spec hsame.accounted hclosed), rfl, rfl⟩

/-- What the functions that send a message do to the client. -/
structure Sends (send : ClientCalls.Client → Sending → StatusCode × ClientCalls.Client) : Prop where
  state : ∀ c sending, (send c sending).2.state = c.state
  refused : ∀ c code, (send c (.refused code)).1 = code ∧ (send c (.refused code)).2.connection = c.connection
  sent : ∀ c, (send c .sent).2.connection = c.connection
  broken : ∀ c, (send c .broken).1 ≠ good ∧ (send c .broken).2.connection.state = .closed

theorem closed_ne_good : badConnectionClosed ≠ good := by decide

theorem sends_sendOpening : Sends sendOpening where
  state := fun _ sending => by cases sending <;> rfl
  refused := fun _ _ => ⟨rfl, rfl⟩
  sent := fun _ => rfl
  broken := fun _ => ⟨closed_ne_good, rfl⟩

theorem sends_sendRequest : Sends sendRequest where
  state := fun _ sending => by cases sending <;> rfl
  refused := fun _ _ => ⟨rfl, rfl⟩
  sent := fun _ => rfl
  broken := fun _ => ⟨closed_ne_good, rfl⟩

/-- Messages are exchanged, and the client stays in its state. -/
def Talks (w w' : World) : Prop := Exchanges w w' ∧ w'.client.state = w.client.state

theorem Talks.trans (h : Talks w w') (h' : Talks w' w'') : Talks w w'' := ⟨h.1.trans h'.1, h'.2.trans h.2⟩

theorem transmit_spec {send : ClientCalls.Client → Sending → StatusCode × ClientCalls.Client} (hsend : Sends send)
    (h : Accounted w) :
    Ends (transmit send) w Accounted (fun status w' => Talks w w' ∧ (status = good → StaysOpen w w')) := by
  rw [transmit]
  refine Ends.bind (sendMessage_spec h) ?_
  rintro sending w' ⟨hexchanges, hstate, hsending⟩
  rw [ends_get_bind_iff]
  rw [ends_setCalls_bind_iff]
  have hsame (hconnection : (send w'.client.calls sending).2.connection.state = w'.client.connectionState) :
      Talks w (withCalls w' (send w'.client.calls sending).2) :=
    ⟨hexchanges.trans (exchanges_withClient hexchanges.accounted hconnection rfl), (hsend.state _ _).trans hstate⟩
  cases sending with
  | refused code =>
      obtain ⟨hcode, hconnection⟩ := hsend.refused w'.client.calls code
      refine ⟨hsame (congrArg (·.state) hconnection), fun hgood => ?_⟩
      exact absurd (hcode.symm.trans hgood) hsending.1
  | sent =>
      have hconnection := congrArg (·.state) (hsend.sent w'.client.calls)
      exact ⟨hsame hconnection, fun _ => ⟨hconnection.trans hsending.1, hsending.2⟩⟩
  | broken =>
      obtain ⟨hbad, hconnection⟩ := hsend.broken w'.client.calls
      exact ⟨hsame (hconnection.trans hsending.symm), fun hgood => absurd hgood hbad⟩

theorem deliver_state (mem : Allocator) (connection : Connection) (message : NodeIds.UaString) (realloced : Bool) :
    (deliver mem connection message realloced).connection.state = connection.state := by
  unfold deliver
  extract_lets current scanned pos deleteAt
  split_ifs <;> rfl

theorem completeMessages_state (mem : Allocator) (connection : Connection) (message : NodeIds.UaString) :
    (completeMessages mem connection message).connection.state = connection.state := by
  unfold completeMessages
  split
  · split
    · rfl
    · exact deliver_state _ _ _ _
  · exact deliver_state _ _ _ _

theorem receiveMessage_spec (h : Accounted w) (hopen : w.client.connectionState ≠ .closed) (r : Arrival) :
    Ends (receiveMessage r) w Accounted
      (fun reply w' => Talks w w' ∧ (reply.status = good → StaysOpen w w')) := by
  rw [receiveMessage]
  refine Ends.bind (R := fun _ w' => Talks w w' ∧ (r.closes = false → StaysOpen w w')) ?_ ?_
  · rw [ends_onlyIf_iff]
    constructor
    · intro hcloses
      rw [ends_modify_bind_iff]
      obtain ⟨fd, hfd, _⟩ := h.open hopen
      refine ⟨⟨⟨?_, rfl, rfl, rfl, .inr ⟨rfl, ?_⟩⟩, rfl⟩, fun hnot => absurd (hcloses.symm.trans hnot) (by decide)⟩
      · exact accounted_socketClosed (w := { w with hungUp := w.client.sockfd.toList ++ w.hungUp })
          (h.congr rfl rfl rfl rfl rfl h.socket) hopen
      · change w.broken.length + w.hungUp.length < w.broken.length + (w.client.sockfd.toList ++ w.hungUp).length
        rw [hfd, List.length_append]
        simp only [Option.toList_some, List.length_singleton]
        omega
    · exact fun _ => ⟨⟨.refl h, rfl⟩, fun _ => ⟨rfl, hopen⟩⟩
  · rintro _ w' ⟨htalks, hcloses⟩
    rw [ends_get_bind_iff]
    rw [ends_setClient_bind_iff]
    have hstate := completeMessages_state r.memory w'.client.calls.connection r.bytes
    refine ⟨htalks.trans ⟨exchanges_withClient htalks.1.accounted hstate rfl, rfl⟩, fun hgood => ?_⟩
    have hstatus : r.status = good := ((or_eq_good _ _).mp hgood).1
    have hnot : r.closes = false := by
      by_contra hcontra
      have hbad := r.closes_status (Bool.not_eq_false _ ▸ hcontra)
      rw [hstatus] at hbad
      exact absurd hbad (by decide)
    exact ⟨hstate.trans (hcloses hnot).1, hopen⟩

theorem awaitReply_spec (h : Accounted w) (hopen : w.client.connectionState ≠ .closed)
    (complete : NodeIds.UaString → Bool) :
    Ends (awaitReply complete) w Accounted
      (fun reply w' => Talks w w' ∧ (reply.status = good → StaysOpen w w')) := by
  have hloop (arrivals : List Arrival) : ∀ w', Talks w w' → StaysOpen w w' →
      Ends (awaitArrivals complete arrivals) w' Accounted
        (fun reply w'' => Talks w w'' ∧ (reply.status = good → StaysOpen w w'')) := by
    induction arrivals with
    | nil => exact fun w' htalks _ => htalks.1.accounted
    | cons r arrivals ih =>
        intro w' htalks hstays
        rw [awaitArrivals, ends_modify_bind_iff]
        have hw : Talks w { w' with script := { w'.script with arrivals := arrivals } } :=
          htalks.trans ⟨exchanges_withClient htalks.1.accounted rfl rfl, rfl⟩
        refine Ends.bind (receiveMessage_spec hw.1.accounted (hstays.1 ▸ hopen) r) ?_
        rintro reply w'' ⟨htalks', hgood⟩
        split
        · rename_i hagain
          exact ih w'' (hw.trans htalks') ⟨(hgood hagain.1).1.trans hstays.1, hopen⟩
        · exact ⟨hw.trans htalks', fun hstatus => ⟨(hgood hstatus).1.trans hstays.1, hopen⟩⟩
  rw [awaitReply, ends_get_bind_iff]
  exact hloop _ w ⟨.refl h, rfl⟩ ⟨rfl, hopen⟩

end Messages

section Handshakes

theorem talks_withCalls (h : Accounted w) {calls : ClientCalls.Client}
    (hconnection : calls.connection = w.client.calls.connection) (hstate : calls.state = w.client.calls.state) :
    Talks w (withCalls w calls) := ⟨exchanges_withClient h (congrArg (·.state) hconnection) rfl, hstate⟩

theorem acceptOpening_state (c : ClientCalls.Client) (reply : List UInt8) (heap : List Bool) (now : DateTime) :
    (acceptOpening b c reply heap now).2.state = c.state := by
  rw [acceptOpening]
  split
  · rfl
  · split
    · rfl
    · dsimp only
      split <;> rfl

theorem established_of_sends {now : DateTime} {c : Client} {renew : Bool} {requestType : ChannelExpiry.RequestType}
    {requestedLifetime : UInt32}
    (h : ChannelExpiry.secureChannelHandshake now c.calls.expiry renew = .sends requestType requestedLifetime) :
    c.connectionState = .established := by
  rw [ChannelExpiry.secureChannelHandshake] at h
  split at h
  · cases h
  · split at h
    · cases h
    · rename_i hnot
      rw [Bool.not_eq_true, Bool.not_eq_false'] at hnot
      exact eq_of_beq hnot

theorem secureChannelHandshake_spec (h : Accounted w) (renew : Bool) :
    Ends (secureChannelHandshake b renew) w Accounted (fun status w' =>
      Talks w w' ∧ (status = good → w'.client.connectionState = w.client.connectionState) ∧
        (w.client.connectionState ≠ .established → w'.client = w.client)) := by
  rw [secureChannelHandshake]
  refine Ends.bind (R := fun _ w' => ∃ script, w' = withClient w w.client script) ?_ ?_
  · rw [renewalTime]
    split
    · rw [nextReading, ends_get_bind_iff]
      split
      · exact h
      · rw [ends_modify_bind_iff]
        exact ⟨_, rfl⟩
    · exact ⟨w.script, rfl⟩
  · rintro now _ ⟨script, rfl⟩
    have hsame : Talks w (withClient w w.client script) := ⟨exchanges_withClient h rfl rfl, rfl⟩
    rw [ends_get_bind_iff]
    split
    · exact ⟨hsame, fun _ => rfl, fun _ => rfl⟩
    · rename_i hsends
      have hestablished : w.client.connectionState = .established := established_of_sends hsends
      have hopen : w.client.connectionState ≠ .closed := by
        rw [hestablished]
        decide
      refine Ends.bind (transmit_spec sends_sendOpening hsame.1.accounted) ?_
      rintro retval w' ⟨htalks, hgood⟩
      have hw' := hsame.trans htalks
      split
      · rename_i hbad
        exact ⟨hw', fun hstatus => absurd hstatus hbad, fun hne => absurd hestablished hne⟩
      · rename_i hsent
        have hstays := hgood (not_not.mp hsent)
        refine Ends.bind (awaitReply_spec hw'.1.accounted (hstays.1 ▸ hopen) _) ?_
        rintro reply w'' ⟨htalks', hreply⟩
        have hw'' := hw'.trans htalks'
        split
        · rename_i hbad
          exact ⟨hw'', fun hstatus => absurd hstatus hbad, fun hne => absurd hestablished hne⟩
        · rename_i hcomplete
          have hstays' := hreply (not_not.mp hcomplete)
          rw [ends_get_bind_iff]
          have hconnection := ReplyMatching.acceptOpening_connection (b := b) w''.client.calls reply.message.bytes
            reply.heap reply.now
          have hstate := acceptOpening_state (b := b) w''.client.calls reply.message.bytes reply.heap reply.now
          generalize acceptOpening b w''.client.calls reply.message.bytes reply.heap reply.now = opened
            at hconnection hstate ⊢
          have hset := talks_withCalls hw''.1.accounted hconnection hstate
          rw [ends_setCalls_bind_iff, ends_pure_iff]
          refine ⟨hw''.trans hset, fun _ => ?_, fun hne => absurd hestablished hne⟩
          exact (congrArg (·.state) hconnection).trans (hstays'.1.trans hstays.1)

theorem retrieveResponse_state (c : ClientCalls.Client) (requestId : UInt32) (responseType : DataTypes.DataType)
    (reply : List UInt8) (heap : List Bool) :
    (retrieveResponse b c requestId responseType reply heap).2.state = c.state ∨
      (retrieveResponse b c requestId responseType reply heap).2.state = .errored := by
  rw [retrieveResponse]
  split
  · exact .inr rfl
  · split
    · split
      · exact .inl rfl
      · split
        · exact .inr rfl
        · exact .inl rfl
    · split
      · exact .inr rfl
      · exact .inl rfl

/-- A service leaves an open connection or a client in error. -/
structure Serves (w : World) (status : StatusCode) (w' : World) : Prop where
  exchanges : Exchanges w w'
  outcome : w'.client.state = w.client.state ∧ StaysOpen w w' ∨ w'.client.state = .errored
  result : status = good → StaysOpen w w'

theorem Serves.state (h : Serves w status w') : w'.client.state = w.client.state ∨ w'.client.state = .errored :=
  h.outcome.imp_left And.left

theorem fail_spec {W : World → Prop} (htalks : Talks w w') (hbad : status ≠ good) :
    Ends (fail status) w' W (fun answer w'' => Serves w (resultOf answer) w'') :=
  ⟨htalks.1.trans (exchanges_withClient htalks.1.accounted rfl rfl), .inr rfl,
    fun hgood => absurd hgood hbad⟩

theorem clientService_spec (h : Accounted w) (responseType : DataTypes.DataType) :
    Ends (clientService b responseType) w Accounted (fun answer w' => Serves w (resultOf answer) w') := by
  rw [clientService]
  refine Ends.bind (secureChannelHandshake_spec h true) ?_
  rintro status w' ⟨htalks, hgood, _⟩
  split
  · rename_i hbad
    exact fail_spec htalks hbad
  · rename_i hopened
    have hsame := hgood (not_not.mp hopened)
    refine Ends.bind (transmit_spec sends_sendRequest htalks.1.accounted) ?_
    rintro retval w'' ⟨htalks', hsent⟩
    have hw'' := htalks.trans htalks'
    split
    · rename_i hbad
      refine fail_spec hw'' ?_
      split
      · decide
      · exact hbad
    · rename_i hretval
      have hstays := hsent (not_not.mp hretval)
      rw [ends_get_bind_iff]
      extract_lets requestId
      refine Ends.bind (awaitReply_spec hw''.1.accounted (hstays.1 ▸ hstays.2) _) ?_
      rintro reply v ⟨htalks'', hreply⟩
      have hv := hw''.trans htalks''
      split
      · rename_i hbad
        exact fail_spec hv hbad
      · rename_i hcomplete
        have hstays' := hreply (not_not.mp hcomplete)
        rw [ends_get_bind_iff]
        extract_lets answer
        have hconnection : answer.2.connection = v.client.calls.connection :=
          ReplyMatching.retrieveResponse_connection _ _ _ _ _
        rw [ends_setCalls_bind_iff, ends_pure_iff]
        have hset : Exchanges v (withCalls v answer.2) :=
          exchanges_withClient hv.1.accounted (congrArg (·.state) hconnection) rfl
        have hopen : w.client.connectionState ≠ .closed := hsame ▸ hstays.2
        have hstays : StaysOpen w (withCalls v answer.2) :=
          ⟨(congrArg (·.state) hconnection).trans (hstays'.1.trans (hstays.1.trans hsame)), hopen⟩
        refine ⟨hv.1.trans hset, ?_, fun _ => hstays⟩
        have hstate : answer.2.state = v.client.calls.state ∨ answer.2.state = .errored :=
          retrieveResponse_state _ _ _ _ _
        rcases hstate with hkept | herrored
        · exact .inl ⟨hkept.trans hv.2, hstays⟩
        · exact .inr herrored

end Handshakes

section Connecting

/-- A part of the connecting, after which all is well or the connecting has failed. -/
structure Goes (w : World) (status : StatusCode) (w' : World) : Prop where
  accounted : Accounted w'
  stage : w'.stage = w.stage
  established : status = good → w'.client.connectionState = .established

theorem Exchanges.goes (h : Exchanges w w')
    (hgood : status = good → w'.client.connectionState = .established) : Goes w status w' :=
  ⟨h.accounted, h.stage, hgood⟩

theorem opening_ne_closed : ConnectionState.opening ≠ .closed := by decide

theorem established_ne_closed : ConnectionState.established ≠ .closed := by decide

def Reports {α : Type} (d : Readers.DecM α) : Prop := ∀ st code st', d st = some (.error code, st') → code ≠ good

theorem reports_uint32 : Reports Decoding.uint32DecodeBinary := by
  intro st code st' h
  rw [Decoding.uint32DecodeBinary, Readers.map, Readers.andThen, Readers.take] at h
  split at h
  · cases h
  · rename_i code' st'' hread
    split at hread
    · cases hread
      cases h
      decide
    · cases hread
  · cases h

theorem reports_both {α β : Type} {d : Readers.DecM α} {e : Readers.DecM β} (hd : Reports d) (he : Reports e) :
    Reports (Readers.both d e) := by
  intro st code st'' h
  rw [Readers.both] at h
  split at h
  · cases h
  · rename_i r st' hd'
    split at h
    · cases h
    · rename_i r' _ he'
      cases r with
      | ok x =>
          cases r' with
          | ok y => cases h
          | error code' =>
              cases h
              exact he _ _ _ he'
      | error code' =>
          have hbad := hd _ _ _ hd'
          cases r' with
          | ok y =>
              cases h
              exact hbad
          | error code'' =>
              cases h
              exact fun hgood => hbad ((or_eq_good _ _).mp hgood).1

theorem acknowledged_reports {reply : Reply} {code : StatusCode} (h : acknowledged reply = .error code) :
    code ≠ good := by
  have hreports : Reports acknowledgeDecodeBinary := reports_both reports_uint32 <| reports_both reports_uint32 <|
    reports_both reports_uint32 <| reports_both reports_uint32 reports_uint32
  rw [acknowledged, MessageHandlers.attempt] at h
  generalize (MessageHandlers.readOr _ _ _).2 = st at h
  cases hrun : acknowledgeDecodeBinary st with
  | none =>
      rw [hrun] at h
      cases h
      decide
  | some r =>
      rw [hrun] at h
      exact hreports _ code r.2 (hrun.trans (congrArg some (Prod.ext h rfl)))

theorem helAckHandshake_spec (h : Accounted w) (hopening : w.client.connectionState = .opening) :
    Ends helAckHandshake w Accounted (Goes w) := by
  have hopen : w.client.connectionState ≠ .closed := by
    rw [hopening]
    decide
  rw [helAckHandshake]
  refine Ends.bind (sendMessage_spec h) ?_
  rintro sending w' ⟨hexchanges, _, hsending⟩
  cases sending with
  | refused code => exact hexchanges.goes (fun hgood => absurd hgood hsending.1)
  | broken => exact hexchanges.goes (fun hgood => absurd hgood closed_ne_good)
  | sent =>
      refine Ends.bind (awaitReply_spec hexchanges.accounted (hsending.1 ▸ hopen) _) ?_
      rintro reply w'' ⟨htalks, hreply⟩
      have hw'' := hexchanges.trans htalks.1
      split
      · rename_i hbad
        exact hw''.goes (fun hgood => absurd hgood hbad)
      · rename_i hcomplete
        obtain ⟨hstate, hopen'⟩ := hreply (not_not.mp hcomplete)
        split
        · rename_i herror
          exact hw''.goes (fun hgood => absurd hgood (acknowledged_reports herror))
        · refine Ends.bind (setClient_spec (Q := fun _ x => Accounted x ∧ x.stage = w''.stage ∧
            x.client.connectionState = .established) ⟨?_, rfl, rfl⟩) ?_
          · have hstill : w''.client.connectionState ≠ .closed := hstate ▸ hopen'
            refine hw''.accounted.congr rfl rfl rfl rfl ?_ (fun _ => hw''.accounted.socket hstill)
            rw [held_open hstill]
            exact held_open (fun hclosed => established_ne_closed hclosed)
          · rintro _ x ⟨haccounted, hstage, hestablished⟩
            exact ⟨haccounted, hstage.trans hw''.stage, fun _ => hestablished⟩

theorem andThen_spec {first second : Run StatusCode} {P : World → Prop} (hfirst : Ends first w Accounted (Goes w))
    (hsecond : ∀ w', Accounted w' → w'.client.connectionState = .established →
      Ends second w' Accounted (fun status w'' => Goes w' status w'' ∧ (status = good → P w''))) :
    Ends (andThen first second) w Accounted (fun status w' => Goes w status w' ∧ (status = good → P w')) := by
  rw [andThen]
  refine Ends.bind hfirst ?_
  intro retval w' hgoes
  split
  · rename_i hgood
    refine (hsecond w' hgoes.accounted (hgoes.established hgood)).imp ?_
    rintro status w'' ⟨hgoes', hP⟩
    exact ⟨⟨hgoes'.accounted, hgoes'.stage.trans hgoes.stage, hgoes'.established⟩, hP⟩
  · rename_i hbad
    exact ⟨hgoes, fun hgood => absurd hgood hbad⟩

theorem secureChannelHandshake_goes (h : Accounted w) (hestablished : w.client.connectionState = .established)
    (renew : Bool) : Ends (secureChannelHandshake b renew) w Accounted (Goes w) :=
  (secureChannelHandshake_spec h renew).imp (fun _ _ hw' =>
    hw'.1.1.goes (fun hgood => (hw'.2.1 hgood).trans hestablished))

theorem clientService_goes (h : Accounted w) (hestablished : w.client.connectionState = .established)
    (responseType : DataTypes.DataType) :
    Ends (clientService b responseType) w Accounted (fun answer w' => Goes w (resultOf answer) w') :=
  (clientService_spec h responseType).imp (fun _ _ hw' =>
    hw'.exchanges.goes (fun hgood => (hw'.result hgood).1.trans hestablished))

theorem endpointsHandshake_goes (h : Accounted w) (hestablished : w.client.connectionState = .established) :
    Ends (endpointsHandshake b) w Accounted (Goes w) := by
  rw [endpointsHandshake]
  refine Ends.bind (clientService_goes h hestablished _) ?_
  intro answer w' hgoes
  split
  · exact hgoes
  · rename_i hresult
    extract_lets endpoints found
    refine Ends.bind (setClient_spec (Q := fun _ x => Accounted x ∧ x.stage = w'.stage ∧
      x.client.connectionState = .established) ⟨?_, rfl, hgoes.established (not_not.mp hresult)⟩) ?_
    · exact hgoes.accounted.congr rfl rfl rfl rfl rfl hgoes.accounted.socket
    · rintro _ x ⟨haccounted, hstage, hstate⟩
      split
      · exact ⟨haccounted, hstage.trans hgoes.stage, fun _ => hstate⟩
      · split <;> exact ⟨haccounted, hstage.trans hgoes.stage, fun _ => hstate⟩

theorem sessionHandshake_goes (h : Accounted w) (hestablished : w.client.connectionState = .established) :
    Ends (sessionHandshake b) w Accounted (Goes w) := by
  rw [sessionHandshake]
  refine Ends.bind (clientService_goes h hestablished _) ?_
  intro answer w' hgoes
  extract_lets token
  rw [ends_setClient_bind_iff, ends_pure_iff]
  exact ⟨hgoes.accounted.congr rfl rfl rfl rfl rfl hgoes.accounted.socket, hgoes.stage, hgoes.established⟩

theorem activateSession_goes (h : Accounted w) (hestablished : w.client.connectionState = .established) :
    Ends (activateSession b) w Accounted
      (fun status w' => Goes w status w' ∧ (status = good → w'.activated = true)) := by
  rw [activateSession]
  refine Ends.bind (clientService_goes h hestablished _) ?_
  intro answer w' hgoes
  refine Ends.bind (R := fun _ x => Goes w (resultOf answer) x ∧ (resultOf answer = good → x.activated = true)) ?_ ?_
  · rw [ends_onlyIf_iff]
    constructor
    · exact fun _ => ⟨⟨hgoes.accounted.congr rfl rfl rfl rfl rfl hgoes.accounted.socket, hgoes.stage,
        hgoes.established⟩, fun _ => rfl⟩
    · exact fun hbad => ⟨hgoes, fun hgood => absurd hgood hbad⟩
  · exact fun _ _ hx => hx

theorem handshakes_spec (h : Accounted w) (hopening : w.client.connectionState = .opening) :
    Ends (handshakes b) w Accounted (fun status w' => Goes w status w' ∧ (status = good → w'.activated = true)) := by
  refine andThen_spec (helAckHandshake_spec h hopening) (fun w₁ h₁ hestablished₁ => ?_)
  refine andThen_spec (secureChannelHandshake_goes h₁ hestablished₁ false) (fun w₂ h₂ hestablished₂ => ?_)
  refine andThen_spec (endpointsHandshake_goes h₂ hestablished₂) (fun w₃ h₃ hestablished₃ => ?_)
  refine andThen_spec (sessionHandshake_goes h₃ hestablished₃) (fun w₄ h₄ hestablished₄ => ?_)
  exact activateSession_goes h₄ hestablished₄

end Connecting

end OpcUa.ClientAccounts
