import OpcUa.ChannelConnections

namespace OpcUa.OwnSteps

open StatusCodes NodeIds Connections Heaps DataTypes Values Readers Decoding Servers SecureChannels
open Sessions ServiceTable MessageHandlers ServerLinks LinkedOperations HandlerSteps
open ChannelConnections SessionGating Relation

/-- The update leaves the channel of a connection and its unread bytes alone. -/
def Harmless (f : Connection → Connection) : Prop :=
  ∀ x, (f x).channel = x.channel ∧ (f x).incompleteMessage = x.incompleteMessage ∧
    (f x).localConf.maxMessageSize = x.localConf.maxMessageSize

def On (s : Server) (a i : Nat) : Prop := ∃ y, s.channels a = some y ∧ i ∈ y.sessions

def OnOwn (s : Server) (channel : Option Nat) (i : Nat) : Prop := ∃ a, channel = some a ∧ On s a i

/-- What a message on a connection makes the services and the answers do, if
the connection has this channel. Only sessions whose token the message presents
are activated. -/
inductive Own (c : Nat) (channel : Option Nat) (presented : NodeId → Prop) : Server → Server → Prop
  | connection (s) (f) (hf : Harmless f) : Own c channel presented s (s.setConnection c f)
  | broken (s) (c') (hc : channelConnection s c channel = some c') : Own c channel presented s (close s c')
  | sequenceNumber (s) : Own c channel presented s (nextSequenceNumber s channel)
  | lifetime (s) (now) (i) (hi : OnOwn s channel i) : Own c channel presented s (updateLifetime now s i)
  | createSession (s) (env) (requested) : Own c channel presented s (createSession env s channel requested).2
  | activateSession (s) (env) (a) (y) (token) (identity) (ha : channel = some a) (hy : s.channels a = some y)
      (htoken : presented token) : Own c channel presented s (activateSession env s a token identity).2
  | closeSession (s) (i) (hi : OnOwn s channel i) : Own c channel presented s (closeSession s i).2

abbrev Owns (c : Nat) (channel : Option Nat) (presented : NodeId → Prop) := ReflTransGen (Own c channel presented)

variable {b : Build} {env : Environment} {s s' : Server} {c : Nat} {channel : Option Nat} {st : Dec}
  {presented : NodeId → Prop}

theorem harmless_close : Harmless (fun x => { x with state := .closed }) := fun _ => ⟨rfl, rfl, rfl⟩

theorem owns_close : Owns c channel presented s (close s c) := .single (.connection s _ harmless_close)

theorem Own.acts (h : Own c channel presented s s') : Acts s s' := by
  cases h with
  | connection f hf => exact .single (.connection s c f (fun x => (hf x).1))
  | broken c' hc => exact acts_close
  | sequenceNumber => exact acts_sequenceNumber
  | lifetime now i hi => exact .single (.lifetime s now i)
  | createSession env requested => exact .single (.createSession s env channel requested)
  | activateSession env a y token identity ha hy htoken => exact .single (.activateSession s env a y token identity hy)
  | closeSession i hi => exact .single (.closeSession s i)

theorem owns_sendBinaryMessage {sending : Sending} :
    Owns c channel presented s (sendBinaryMessage sending s c channel).2 := by
  unfold sendBinaryMessage
  cases hc : channelConnection s c channel with
  | none => exact .refl
  | some c' =>
      cases sending with
      | refused code => exact .refl
      | sent => exact .single (.sequenceNumber s)
      | broken =>
          refine .tail (.single (.sequenceNumber s)) (.broken _ c' ?_)
          cases channel with
          | none => exact hc
          | some a =>
              obtain ⟨y, hy, hyc⟩ := Option.bind_eq_some_iff.mp hc
              refine Option.bind_eq_some_iff.mpr ⟨{ y with sequenceNumber := y.sequenceNumber + 1 }, ?_, hyc⟩
              rw [nextSequenceNumber, Server.setChannel_channels, modify_self, hy]
              rfl

theorem owns_sendError {requestId : UInt32} {error : StatusCode} {pos : Nat} :
    Owns c channel presented s (sendError b env s c channel requestId error pos st).server := by
  rw [sendError]
  split
  · exact .refl
  · exact owns_sendBinaryMessage

theorem owns_processHEL : Owns c channel presented s (processHEL env s c st).server := by
  have hello : ∀ f, Harmless f → Owns c channel presented s (s.setConnection c f) :=
    fun f hf => .single (.connection s f hf)
  rw [processHEL]
  split
  · exact owns_close
  · dsimp only
    split
    · exact hello _ (fun _ => ⟨rfl, rfl, rfl⟩)
    · dsimp only
      split
      · refine ReflTransGen.trans ?_ owns_close
        exact hello _ (fun _ => ⟨rfl, rfl, rfl⟩)
      · exact hello _ (fun _ => ⟨rfl, rfl, rfl⟩)

theorem owns_answerOPN (hchannel : channel = connectionChannel s c) :
    Owns c channel presented s (answerOPN env s c).1 := by
  rw [answerOPN]
  split
  · exact owns_close
  · rename_i a ha
    rw [ha] at hchannel
    subst hchannel
    have hnumber : Owns c (some a) presented s (nextSequenceNumber s (some a)) := .single (.sequenceNumber s)
    dsimp only
    split
    · exact hnumber
    split
    · exact hnumber.trans owns_close
    · exact hnumber
    · exact hnumber.trans owns_close

theorem owns_extended {session : Option Nat} (hsession : ∀ i, session = some i → OnOwn s channel i) :
    Owns c channel presented s (extended env s session) := by
  cases session with
  | none => exact .refl
  | some i => exact .single (.lifetime s _ i (hsession i rfl))

theorem bind_of_onOwn (h : Linked s) {i : Nat} (hi : OnOwn s channel i) :
    (s.sessions i).bind (·.channel) = channel := by
  obtain ⟨a, rfl, y, hy, hmem⟩ := hi
  obtain ⟨x, hx, hxa⟩ := h.attached hy hmem
  exact Option.bind_eq_some_iff.mpr ⟨x, hx, hxa⟩

theorem owns_callService (h : Linked s) {service : Service} {session : Option Nat} {request : Any}
    (hsession : ∀ i, session = some i → OnOwn s channel i)
    (hlive : ∀ a, channel = some a → ∃ y, s.channels a = some y)
    (hpresented : service = .activateSession → presented (tokenOf request)) :
    Owns c channel presented s (callService env s ⟨service, c, channel, session, request⟩) := by
  have hactivate : ∀ a, channel = some a → service = .activateSession → Owns c channel presented s
      (activateSession env s a (tokenOf request) (userIdentityToken request)).2 := by
    intro a ha hservice
    obtain ⟨y, hy⟩ := hlive a ha
    exact .single (.activateSession s env a y _ _ ha hy (hpresented hservice))
  unfold callService
  cases session with
  | none =>
      dsimp only
      split
      · exact .single (.createSession s env _)
      · split
        · exact .refl
        · exact hactivate _ rfl rfl
      · exact .refl
      · exact .refl
  | some i =>
      dsimp only
      rw [bind_of_onOwn h (hsession i rfl)]
      split
      · exact .single (.createSession s env _)
      · split
        · exact .refl
        · exact hactivate _ rfl rfl
      · exact .single (.closeSession s i (hsession i rfl))
      · exact .refl

theorem onOwn_of_channelSession {token : NodeId} {i : Nat} (hi : channel.bind (channelSession s · token) = some i) :
    OnOwn s channel i := by
  obtain ⟨a, ha, hi⟩ := Option.bind_eq_some_iff.mp hi
  rw [channelSession] at hi
  split at hi
  · cases hi
  · rename_i y hy
    exact ⟨a, ha, y, hy, List.mem_of_find?_eq_some hi⟩

/-- The tokens of the sessions that the outputs activate. -/
def Presents (outputs : List Output) (token : NodeId) : Prop :=
  ∃ call, Output.call call ∈ outputs ∧ call.service = .activateSession ∧ token = tokenOf call.request

theorem owns_serve (h : Linked s) (hlive : ∀ a, channel = some a → ∃ y, s.channels a = some y) {requestId : UInt32}
    {service : Service} {request : Any} {oldpos : Nat}
    (hpresented : ∀ token, Presents (serve b env s c channel requestId service request oldpos st).outputs token →
      presented token) :
    Owns c channel presented s (serve b env s c channel requestId service request oldpos st).server := by
  unfold serve at hpresented ⊢
  dsimp only at hpresented ⊢
  split
  · exact owns_sendError
  rename_i hactivated
  rw [if_neg hactivated] at hpresented
  split
  · exact owns_sendError
  rename_i hsession
  rw [if_neg hsession] at hpresented
  generalize hfound : channel.bind (channelSession s · (tokenOf request)) = session at hpresented ⊢
  have hown : ∀ i, session = some i → OnOwn s channel i := by
    rintro i rfl
    exact onOwn_of_channelSession hfound
  have hextended : Owns c channel presented s (extended env s session) := owns_extended hown
  have hchannels : (extended env s session).channels = s.channels := extended_channels
  have hservice : service = .activateSession → presented (tokenOf request) := by
    rintro rfl
    refine hpresented _ ⟨⟨_, c, channel, session, request⟩, ?_, rfl, rfl⟩
    split
    · exact List.mem_singleton.mpr rfl
    split <;> exact List.mem_cons_self
  have hcalled : Owns c channel presented s
      (callService env (extended env s session) ⟨service, c, channel, session, request⟩) := by
    refine hextended.trans (owns_callService (linked_acts h acts_extended) ?_ ?_ hservice)
    · intro i hi
      obtain ⟨a, ha, y, hy, hmem⟩ := hown i hi
      exact ⟨a, ha, y, by rw [hchannels]; exact hy, hmem⟩
    · rw [hchannels]
      exact hlive
  split
  · exact hcalled
  split
  · exact (hcalled.trans owns_sendBinaryMessage).trans owns_sendError
  · exact hcalled.trans owns_sendBinaryMessage

theorem owns_processRequest (h : Linked s) (hlive : ∀ a, channel = some a → ∃ y, s.channels a = some y)
    {requestId : UInt32} {requestTypeId : NodeId}
    (hpresented : ∀ token,
      Presents (processRequest b env s c channel requestId requestTypeId st).outputs token → presented token) :
    Owns c channel presented s (processRequest b env s c channel requestId requestTypeId st).server := by
  unfold processRequest at hpresented ⊢
  split
  · exact owns_sendError
  rename_i hnumeric
  rw [if_neg hnumeric] at hpresented
  split
  · exact owns_sendError
  rename_i service hservice
  rw [hservice] at hpresented
  dsimp only at hpresented
  split
  · exact owns_sendError
  rename_i hanonymous
  rw [if_neg hanonymous] at hpresented
  split
  · exact owns_sendError
  · rename_i request st' hdecode
    rw [hdecode] at hpresented
    exact owns_serve h hlive hpresented

def ownId (s : Server) (c : Nat) : UInt32 := (channelToken s (connectionChannel s c)).channelId

theorem processMSG_owns (h : Linked s)
    (hpresented : ∀ token, Presents (processMSG b env s c st).outputs token → presented token) :
    Owns c (connectionChannel s c) presented s (processMSG b env s c st).server ∨
      (processMSG b env s c st).server = closeSecureChannel s (ownId s c) ∨
      ∃ a, connectionChannel s c = some a ∧
        Owns c (some a) presented (s.setChannel a revolveTokens) (processMSG b env s c st).server := by
  have hlive : ∀ a, connectionChannel s c = some a → ∃ y, s.channels a = some y := fun a ha =>
    (Linked.channel_live h ha).imp (fun _ hy => hy.1)
  unfold processMSG at hpresented ⊢
  dsimp only at hpresented ⊢
  split
  · exact .inl .refl
  rename_i requestTypeId st' hdecode
  rw [hdecode] at hpresented
  dsimp only at hpresented
  unfold processChecked at hpresented ⊢
  dsimp only at hpresented ⊢
  split
  · exact .inl .refl
  rename_i hid
  rw [if_neg hid] at hpresented
  split
  · rename_i hcurrent
    rw [if_pos hcurrent] at hpresented
    split
    · exact .inr (.inl rfl)
    · rename_i hnext
      rw [if_neg hnext] at hpresented
      cases hchannel : connectionChannel s c with
      | none =>
          rw [hchannel] at hpresented
          refine .inl (owns_processRequest h ?_ hpresented)
          rintro a ⟨⟩
      | some a =>
          rw [hchannel] at hpresented
          have hrevolved : Linked (revolved s (some a)) := h.congr (sameLinks_setChannel links_revolveTokens)
          refine .inr (.inr ⟨a, rfl, owns_processRequest hrevolved ?_ hpresented⟩)
          rintro a' ⟨⟩
          obtain ⟨y, hy⟩ := hlive a hchannel
          exact revolved_live hy
  · rename_i hcurrent
    rw [if_neg hcurrent] at hpresented
    exact .inl (owns_processRequest h hlive hpresented)

theorem processCLO_owns : (processCLO s c st).server = s ∨
    (processCLO s c st).server = closeSecureChannel s (ownId s c) := by
  rw [processCLO]
  split
  · exact .inl rfl
  · dsimp only
    split
    · exact .inl rfl
    · rename_i hmatch
      obtain ⟨_, hid⟩ := not_or.mp hmatch
      rw [ownId, not_not.mp hid]
      exact .inr rfl

/-- The opening or the renewal that a message asks for, if it is an OPN message. -/
def Asks (b : Build) (s : Server) (c : Nat) (env : Environment) (st : Dec) (request : OpenRequest) : Prop :=
  TokenChecks.OpensWith b s (.message c env st) c env request

theorem pass_owns (h : Linked s)
    (hpresented : ∀ token, Presents (pass b env s c st).outputs token → presented token) :
    Owns c (connectionChannel s c) presented s (pass b env s c st).server ∨
      Owns c none presented (closeSecureChannel s (ownId s c)) (pass b env s c st).server ∨
      (∃ a, connectionChannel s c = some a ∧
        Owns c (some a) presented (s.setChannel a revolveTokens) (pass b env s c st).server) ∨
      ∃ request, Asks b s c env st request ∧
        Owns c (connectionChannel (openSecureChannel env s c request).2 c) presented
          (openSecureChannel env s c request).2 (pass b env s c st).server := by
  unfold MessageHandlers.pass at hpresented ⊢
  split
  · exact .inl owns_close
  · rename_i messageTypeAndFinal messageSize st' hheader
    rw [hheader] at hpresented
    dsimp only at hpresented
    cases htype : messageType messageTypeAndFinal with
    | none => exact .inl .refl
    | some t =>
        rw [htype] at hpresented
        unfold dispatch at hpresented ⊢
        cases t with
        | hel => exact .inl owns_processHEL
        | ack => exact .inl .refl
        | clo =>
            rcases (processCLO_owns : (processCLO s c st').server = s ∨ _) with hsame | hclose
            · refine .inl ?_
              dsimp only
              rw [hsame]
              exact owns_close
            · refine .inr (.inl ?_)
              dsimp only
              rw [hclose]
              exact owns_close
        | msg =>
            dsimp only at hpresented ⊢
            split
            · exact .inl owns_close
            · rename_i hestablished
              rw [if_neg hestablished] at hpresented
              rw [skipTo_server]
              rcases processMSG_owns h hpresented with howns | hclose | hrevolve
              · exact .inl howns
              · refine .inr (.inl ?_)
                rw [hclose]
              · exact .inr (.inr (.inl hrevolve))
        | opn =>
            dsimp only
            rw [skipTo_server, processOPN]
            split
            · exact .inl owns_close
            rename_i hestablished
            split
            · exact .inl owns_close
            rename_i channelId asymmetric sequence requestType request st'' hdecode
            split
            · exact .inl owns_close
            rename_i hnumeric
            refine .inr (.inr (.inr ⟨openRequest ⟨_, request⟩, ?_, owns_answerOPN rfl⟩))
            exact ⟨st, _, st', _, st'', rfl, hheader, htype, by simpa using hestablished, hdecode,
              not_not.mp hnumeric, rfl⟩

end OpcUa.OwnSteps
