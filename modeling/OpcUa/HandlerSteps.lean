import OpcUa.LinkedOperations
import OpcUa.MessageHandlers
import Mathlib.Logic.Relation

namespace OpcUa.HandlerSteps

open StatusCodes NodeIds Connections Heaps DataTypes Values Readers Decoding Servers SecureChannels
open Sessions ServiceTable MessageHandlers ServerLinks LinkedOperations Relation

/-- What the handlers do to the server, apart from the opening and the renewing
of channels. A session is only activated on a channel that exists. The closing
of channels can be left out. -/
inductive Op (closing : Prop) : Server → Server → Prop
  | connection (s) (c) (f : Connection → Connection) (hf : ∀ x, (f x).channel = x.channel) :
      Op closing s (s.setConnection c f)
  | sequenceNumber (s) (a) : Op closing s (nextSequenceNumber s (some a))
  | revolve (s) (a) : Op closing s (s.setChannel a revolveTokens)
  | closeChannel (s) (channelId) (hclosing : closing) : Op closing s (closeSecureChannel s channelId)
  | lifetime (s) (now) (i) : Op closing s (updateLifetime now s i)
  | createSession (s) (env) (channel) (requested) : Op closing s (createSession env s channel requested).2
  | activateSession (s) (env) (a) (y) (token) (identity) (hy : s.channels a = some y) :
      Op closing s (activateSession env s a token identity).2
  | closeSession (s) (i) : Op closing s (closeSession s i).2

abbrev Ops (closing : Prop) := ReflTransGen (Op closing)

/-- What the services and the answers do: no channel is opened or closed, and
the tokens stay. -/
inductive Act : Server → Server → Prop
  | connection (s) (c) (f : Connection → Connection) (hf : ∀ x, (f x).channel = x.channel) :
      Act s (s.setConnection c f)
  | sequenceNumber (s) (a) : Act s (nextSequenceNumber s (some a))
  | lifetime (s) (now) (i) : Act s (updateLifetime now s i)
  | createSession (s) (env) (channel) (requested) : Act s (createSession env s channel requested).2
  | activateSession (s) (env) (a) (y) (token) (identity) (hy : s.channels a = some y) :
      Act s (activateSession env s a token identity).2
  | closeSession (s) (i) : Act s (closeSession s i).2

abbrev Acts := ReflTransGen Act

variable {s s' : Server} {c a : Nat} {channel : Option Nat} {b : Build} {env : Environment} {st : Dec}
  {closing : Prop}

theorem Act.op (h : Act s s') : Op closing s s' := by
  cases h with
  | connection c f hf => exact .connection s c f hf
  | sequenceNumber a => exact .sequenceNumber s a
  | lifetime now i => exact .lifetime s now i
  | createSession env channel requested => exact .createSession s env channel requested
  | activateSession env a y token identity hy => exact .activateSession s env a y token identity hy
  | closeSession i => exact .closeSession s i

theorem Acts.ops (h : Acts s s') : Ops closing s s' := by
  refine ReflTransGen.mono ?_ s s' h
  intro s₁ s₂ hact
  exact hact.op

theorem linked_op (h : Linked s) (hop : Op closing s s') : Linked s' := by
  cases hop with
  | connection c f hf => exact h.congr (sameLinks_setConnection hf)
  | sequenceNumber a => exact h.congr (sameLinks_setChannel (fun _ => rfl))
  | revolve a => exact h.congr (sameLinks_setChannel links_revolveTokens)
  | closeChannel channelId _ => exact linked_closeSecureChannel h channelId
  | lifetime now i => exact h.congr sameLinks_updateLifetime
  | createSession env channel requested => exact linked_createSession h channel requested
  | activateSession env a y token identity hy => exact linked_activateSession h hy token identity
  | closeSession i => exact linked_closeSession h

theorem linked_ops (h : Linked s) (hops : Ops closing s s') : Linked s' := by
  induction hops with
  | refl => exact h
  | tail _ hop ih => exact linked_op ih hop

theorem linked_acts (h : Linked s) (hacts : Acts s s') : Linked s' := by
  have hops : Ops True s s' := hacts.ops
  exact linked_ops h hops

theorem acts_close : Acts s (close s c) := .single (.connection s c _ (fun _ => rfl))

theorem acts_sequenceNumber : Acts s (nextSequenceNumber s channel) := by
  cases channel with
  | none => exact .refl
  | some a => exact .single (.sequenceNumber s a)

theorem acts_sendBinaryMessage {sending : Sending} :
    Acts s (sendBinaryMessage sending s c channel).2 := by
  unfold sendBinaryMessage
  cases channelConnection s c channel with
  | none => exact .refl
  | some c' =>
      cases sending with
      | refused code => exact .refl
      | sent =>
          dsimp only
          exact acts_sequenceNumber
      | broken =>
          dsimp only
          exact acts_sequenceNumber.trans acts_close

theorem acts_sendError {requestId : UInt32} {error : StatusCode} {pos : Nat} :
    Acts s (sendError b env s c channel requestId error pos st).server := by
  rw [sendError]
  split
  · exact .refl
  · exact acts_sendBinaryMessage

theorem acts_processHEL : Acts s (processHEL env s c st).server := by
  have hello : ∀ f : Connection → Connection, (∀ x, (f x).channel = x.channel) →
      Acts s (s.setConnection c f) := fun f hf => .single (.connection s c f hf)
  rw [processHEL]
  split
  · exact acts_close
  · dsimp only
    split
    · exact hello _ (fun _ => rfl)
    · dsimp only
      split
      · refine ReflTransGen.trans ?_ acts_close
        exact hello _ (fun _ => rfl)
      · exact hello _ (fun _ => rfl)

theorem acts_answerOPN : Acts s (answerOPN env s c).1 := by
  rw [answerOPN]
  split
  · exact acts_close
  · dsimp only
    split
    · dsimp only
      exact acts_sequenceNumber
    split
    · dsimp only
      exact acts_sequenceNumber.trans acts_close
    · dsimp only
      exact acts_sequenceNumber
    · dsimp only
      exact acts_sequenceNumber.trans acts_close

theorem processOPN_cases (b : Build) (env : Environment) (s : Server) (c : Nat) (st : Dec) :
    (processOPN b env s c st).server = close s c ∨
      ∃ x st', established s c = true ∧ attempt (openDecodeBinary b) st = (.ok x, st') ∧
        numericBits x.2.2.2.1 = 446 ∧
        Acts (openSecureChannel env s c (openRequest ⟨_, x.2.2.2.2⟩)).2
          (processOPN b env s c st).server := by
  rw [processOPN]
  split
  · exact .inl rfl
  · rename_i hestablished
    split
    · exact .inl rfl
    · rename_i channelId asymmetric sequence requestType request st' hdecode
      split
      · exact .inl rfl
      · rename_i htype
        refine .inr ⟨_, st', by simpa using hestablished, hdecode, not_not.mp htype, ?_⟩
        exact acts_answerOPN

theorem linked_processOPN (h : Linked s) : Linked (processOPN b env s c st).server := by
  rcases processOPN_cases b env s c st with hclose | ⟨x, st', _, _, _, hacts⟩
  · rw [hclose]
    exact h.congr sameLinks_close
  · exact linked_acts (linked_openSecureChannel h _) hacts

theorem acts_callService (h : Linked s) {call : Call}
    (hchannel : ∀ a, call.channel = some a → ∃ y, s.channels a = some y) : Acts s (callService env s call) := by
  rw [callService]
  split
  · exact .single (.createSession s env _ _)
  · split
    · exact .refl
    · rename_i a ha
      have hlive : ∃ y, s.channels a = some y := by
        split at ha
        · exact hchannel a ha
        · obtain ⟨x, hx, hxa⟩ := Option.bind_eq_some_iff.mp ha
          obtain ⟨y, hy, _⟩ := h.known hx hxa
          exact ⟨y, hy⟩
      obtain ⟨y, hy⟩ := hlive
      exact .single (.activateSession s env a y _ _ hy)
  · split
    · exact .refl
    · exact .single (.closeSession s _)
  · exact .refl

theorem acts_extended {session : Option Nat} : Acts s (extended env s session) := by
  cases session with
  | none => exact .refl
  | some i => exact .single (.lifetime s _ i)

theorem extended_channels {session : Option Nat} : (extended env s session).channels = s.channels := by
  cases session <;> rfl

theorem onlySessions_extended (session : Option Nat) : OnlySessions s (extended env s session) := by
  cases session with
  | none => exact .refl s
  | some i => exact onlySessions_setSession

theorem onlySessions_callService (call : Call) : OnlySessions s (callService env s call) := by
  rw [callService]
  split
  · exact onlySessions_createSession _ _
  · split
    · exact .refl s
    · exact onlySessions_activateSession _ _
  · split
    · exact .refl s
    · exact onlySessions_closeSession
  · exact .refl s

theorem acts_serve (h : Linked s) (hchannel : ∀ a, channel = some a → ∃ y, s.channels a = some y)
    {requestId : UInt32} {service : Service} {request : Any} {oldpos : Nat} :
    Acts s (serve b env s c channel requestId service request oldpos st).server := by
  unfold serve
  dsimp only
  split
  · exact acts_sendError
  split
  · exact acts_sendError
  · generalize hsession : channel.bind (channelSession s · (tokenOf request)) = session
    have hextended : Acts s (extended env s session) := acts_extended
    have hcalled : Acts s (callService env (extended env s session) ⟨service, c, channel, session, request⟩) := by
      refine hextended.trans (acts_callService (linked_acts h hextended) ?_)
      rw [extended_channels]
      exact hchannel
    split
    · exact hcalled
    split
    · exact (hcalled.trans acts_sendBinaryMessage).trans acts_sendError
    · exact hcalled.trans acts_sendBinaryMessage

theorem acts_processRequest (h : Linked s) (hchannel : ∀ a, channel = some a → ∃ y, s.channels a = some y)
    {requestId : UInt32} {requestTypeId : NodeId} :
    Acts s (processRequest b env s c channel requestId requestTypeId st).server := by
  unfold processRequest
  split
  · exact acts_sendError
  split
  · exact acts_sendError
  split
  · exact acts_sendError
  split
  · exact acts_sendError
  · exact acts_serve h hchannel

theorem Linked.channel_live (h : Linked s) (ha : connectionChannel s c = some a) :
    ∃ y, s.channels a = some y ∧ y.connection = some c := by
  obtain ⟨x, hx, hxa⟩ := Option.bind_eq_some_iff.mp ha
  exact h.connected hx hxa

theorem revolved_live {a' : Nat} {y : SecureChannel} (hy : s.channels a' = some y) :
    ∃ y', (revolved s channel).channels a' = some y' := by
  cases channel with
  | none => exact ⟨y, hy⟩
  | some a =>
      rw [revolved, Server.setChannel_channels]
      by_cases haa : a' = a
      · subst haa
        rw [modify_self, hy]
        exact ⟨_, rfl⟩
      · rw [modify_of_ne haa]
        exact ⟨y, hy⟩

/-- A message with the token that waits makes it the token of the channel. -/
def Revolves (s : Server) (c : Nat) (st : Dec) (a : Nat) : Prop :=
  connectionChannel s c = some a ∧ (securityHeaders st).1.1 = (channelToken s (some a)).channelId ∧
    (securityHeaders st).1.2.1 ≠ (channelToken s (some a)).tokenId ∧
    (securityHeaders st).1.2.1 = (nextToken s (some a)).tokenId

theorem processMSG_cases (h : Linked s) :
    Acts s (processMSG b env s c st).server ∨
      (∃ channelId, (processMSG b env s c st).server = closeSecureChannel s channelId) ∨
      ∃ a, Revolves s c st a ∧ Acts (s.setChannel a revolveTokens) (processMSG b env s c st).server := by
  have hlive : ∀ a, connectionChannel s c = some a → ∃ y, s.channels a = some y := fun a ha =>
    (Linked.channel_live h ha).imp (fun _ hy => hy.1)
  unfold processMSG
  dsimp only
  split
  · exact .inl .refl
  unfold processChecked
  dsimp only
  split
  · exact .inl .refl
  rename_i hid
  split
  · rename_i hcurrent
    split
    · exact .inr (.inl ⟨_, rfl⟩)
    · rename_i hnext
      cases hchannel : connectionChannel s c with
      | none =>
          refine .inl (acts_processRequest h ?_)
          intro a ha
          cases ha
      | some a =>
          rw [hchannel] at hid hcurrent hnext
          refine .inr (.inr ⟨a, ⟨hchannel, not_not.mp hid, hcurrent, not_not.mp hnext⟩, ?_⟩)
          have hrevolved : Linked (revolved s (some a)) :=
            h.congr (sameLinks_setChannel links_revolveTokens)
          refine acts_processRequest hrevolved ?_
          rintro a' ⟨⟩
          obtain ⟨y, hy⟩ := hlive a hchannel
          exact revolved_live hy
  · exact .inl (acts_processRequest h hlive)

theorem processCLO_cases :
    (processCLO s c st).server = s ∨
      ∃ channelId, (processCLO s c st).server = closeSecureChannel s channelId := by
  rw [processCLO]
  split
  · exact .inl rfl
  · dsimp only
    split
    · exact .inl rfl
    · exact .inr ⟨_, rfl⟩

/-- The header of the message, and where its body starts. -/
def Starts (st : Dec) (type : MessageType) (st' : Dec) : Prop :=
  ∃ x, attempt headerDecodeBinary st = (.ok x, st') ∧ messageType x.1 = some type

theorem skipTo_server {targetpos : Nat} {type : Option MessageType} {h : Handled} :
    (skipTo targetpos type h).server = h.server := rfl

theorem skipTo_outputs {targetpos : Nat} {type : Option MessageType} {h : Handled} :
    (skipTo targetpos type h).outputs = h.outputs := rfl

theorem pass_cases (b : Build) (env : Environment) (c : Nat) (st : Dec) (h : Linked s) :
    Acts s (pass b env s c st).server ∨
      (∃ channelId, Acts (closeSecureChannel s channelId) (pass b env s c st).server) ∨
      (∃ st' a, Starts st .msg st' ∧ Revolves s c st' a ∧
        Acts (s.setChannel a revolveTokens) (pass b env s c st).server) ∨
      ∃ st', Starts st .opn st' ∧ (pass b env s c st).server = (processOPN b env s c st').server := by
  rw [MessageHandlers.pass]
  split
  · exact .inl acts_close
  · rename_i messageTypeAndFinal messageSize st' hheader
    cases htype : messageType messageTypeAndFinal with
    | none => exact .inl .refl
    | some t =>
        unfold dispatch
        cases t with
        | hel => exact .inl acts_processHEL
        | opn => exact .inr (.inr (.inr ⟨st', ⟨_, hheader, htype⟩, rfl⟩))
        | msg =>
            dsimp only
            split
            · exact .inl acts_close
            · rw [skipTo_server]
              have hcases : Acts s (processMSG b env s c st').server ∨
                  (∃ channelId, (processMSG b env s c st').server = closeSecureChannel s channelId) ∨
                  ∃ a, Revolves s c st' a ∧ Acts (s.setChannel a revolveTokens) (processMSG b env s c st').server :=
                processMSG_cases h
              rcases hcases with hacts | ⟨channelId, hclose⟩ | ⟨a, hrevolves, hacts⟩
              · exact .inl hacts
              · exact .inr (.inl ⟨channelId, by rw [hclose]⟩)
              · exact .inr (.inr (.inl ⟨st', a, ⟨_, hheader, htype⟩, hrevolves, hacts⟩))
        | clo =>
            dsimp only
            have hcases : (processCLO s c st').server = s ∨
                ∃ channelId, (processCLO s c st').server = closeSecureChannel s channelId := processCLO_cases
            rcases hcases with hsame | ⟨channelId, hclose⟩
            · refine .inl ?_
              rw [hsame]
              exact acts_close
            · refine .inr (.inl ⟨channelId, ?_⟩)
              rw [hclose]
              exact acts_close
        | ack => exact .inl .refl

theorem pass_ops (h : Linked s) :
    Ops True s (pass b env s c st).server ∨
      ∃ st', Starts st .opn st' ∧ (pass b env s c st).server = (processOPN b env s c st').server := by
  rcases pass_cases b env c st h with hacts | ⟨channelId, hacts⟩ | ⟨st', a, _, _, hacts⟩ | hopn
  · exact .inl hacts.ops
  · exact .inl (.head (.closeChannel s channelId trivial) hacts.ops)
  · exact .inl (.head (.revolve s a) hacts.ops)
  · exact .inr hopn

theorem linked_pass (h : Linked s) : Linked (pass b env s c st).server := by
  rcases pass_ops h with hops | ⟨st', _, hopn⟩
  · exact linked_ops h hops
  · rw [hopn]
    exact linked_processOPN h

end OpcUa.HandlerSteps
