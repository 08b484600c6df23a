import OpcUa.FaultAnswers

namespace OpcUa.ExpiredSessions

open StatusCodes NodeIds Connections Heaps DataTypes TypeTable Values Readers Decoding Servers
open SecureChannels Sessions ServiceTable MessageHandlers LinkedOperations
open LoopDispatch SessionGating TokenChecks FaultAnswers

variable {b : Build} {env : Environment} {s s' s'' : Server} {c a i j : Nat} {channel : Option Nat}
  {st : Dec} {x : Session}

def Unextended (i : Nat) (s s' : Server) : Prop :=
  ∀ x', s'.sessions i = some x' → ∃ x, s.sessions i = some x ∧ x'.validTill = x.validTill

/-- No service is run on the session, and it is not extended. -/
def StaysExpired (i : Nat) (s : Server) (h : Handled) : Prop :=
  (∀ call, Output.call call ∈ h.outputs → call.session ≠ some i) ∧ Unextended i s h.server

section Effects

theorem Unextended.refl (i : Nat) (s : Server) : Unextended i s s := fun x h => ⟨x, h, rfl⟩

theorem Unextended.trans (h : Unextended i s s') (h' : Unextended i s' s'') : Unextended i s s'' := by
  intro x'' hx''
  obtain ⟨x', hx', hvalid'⟩ := h' x'' hx''
  obtain ⟨x, hx, hvalid⟩ := h x' hx'
  exact ⟨x, hx, hvalid'.trans hvalid⟩

theorem unextended_of_eq (h : s'.sessions = s.sessions) : Unextended i s s' := by
  intro x' hx'
  rw [h] at hx'
  exact ⟨x', hx', rfl⟩

theorem unextended_setSession {f : Session → Session} (hf : ∀ x, (f x).validTill = x.validTill) :
    Unextended i s (s.setSession j f) := by
  intro x' hx'
  rcases modify_eq_some.mp hx' with ⟨rfl, x, hx, rfl⟩ | ⟨_, hx⟩
  · exact ⟨x, hx, hf x⟩
  · exact ⟨x', hx, rfl⟩

theorem unextended_setOther {f : Session → Session} (hne : i ≠ j) : Unextended i s (s.setSession j f) := by
  intro x' hx'
  rw [Server.setSession_sessions, modify_of_ne hne] at hx'
  exact ⟨x', hx', rfl⟩

theorem unextended_detachSession : Unextended i s (detachSession s a j) :=
  (unextended_setSession (f := fun x => { x with channel := none }) (fun _ => rfl)).trans (unextended_of_eq rfl)

theorem unextended_attachSession {entry : Bool} : Unextended i s (attachSession entry s a j) := by
  rw [attachSession]
  split
  · exact .refl i s
  split
  · exact .refl i s
  · exact (unextended_setSession (f := fun x => { x with channel := some a }) (fun _ => rfl)).trans
      (unextended_of_eq rfl)

theorem unextended_freeSession : Unextended i s (freeSession s j) := by
  have hmembers : Unextended i s (deleteSessionMembers s j) := by
    rw [deleteSessionMembers]
    split
    · exact .refl i s
    · exact unextended_detachSession
  refine hmembers.trans ?_
  intro x' hx'
  exact ⟨x', (free_eq_some.mp hx').2, rfl⟩

theorem unextended_removeSession (token : NodeId) : Unextended i s (removeSession s token).2 := by
  rw [removeSession]
  split
  · exact .refl i s
  · exact unextended_freeSession

theorem unextended_removeChannel : Unextended i s (removeChannel s a) := by
  cases hy : s.channels a with
  | none => exact unextended_of_eq (removeChannel_of_none hy).2.2.1
  | some y =>
      intro x' hx'
      rw [(removeChannel_spec hy).2.2.1 i] at hx'
      split at hx'
      · obtain ⟨x, hx, rfl⟩ := Option.map_eq_some_iff.mp hx'
        exact ⟨x, hx, rfl⟩
      · exact ⟨x', hx', rfl⟩

theorem unextended_closeSecureChannel (channelId : UInt32) : Unextended i s (closeSecureChannel s channelId) := by
  rw [closeSecureChannel, closeChannel]
  split
  · exact .refl i s
  · exact unextended_removeChannel

theorem unextended_createSession (hx : s.sessions i = some x) (channel : Option Nat) (requested : UInt64) :
    Unextended i s (createSession env s channel requested).2 := by
  rw [createSession]
  split
  · exact .refl i s
  split
  · exact .refl i s
  split
  · exact .refl i s
  · rename_i j s' hcreated
    have hs' : Unextended i s s' := by
      rw [createManagedSession] at hcreated
      split at hcreated
      · cases hcreated
      split at hcreated
      · cases hcreated
      · rename_i j' hj'
        obtain ⟨rfl, rfl⟩ := Prod.mk.inj (Except.ok.inj hcreated)
        intro x' hx'
        rcases store_eq_some.mp hx' with ⟨rfl, _⟩ | ⟨_, hx'⟩
        · rw [(allocate_eq_some.mp hj').2] at hx
          cases hx
        · exact ⟨x', hx', rfl⟩
    split
    · exact hs'
    split
    · exact hs'
    · exact hs'.trans (unextended_removeSession _)

theorem unextended_activateSession (hx : s.sessions i = some x) (hlate : ∀ k, x.validTill < env.now k)
    (token : NodeId) (identity : IdentityToken) : Unextended i s (activateSession env s a token identity).2 := by
  rw [activateSession]
  split
  · exact .refl i s
  rename_i j hj
  have hne : i ≠ j := by
    rintro rfl
    rw [managerSession] at hj
    split at hj
    · cases hj
    rename_i i' _
    split at hj
    · cases hj
    rename_i x' hx'
    split at hj
    · cases hj
    rename_i hvalid
    obtain rfl := Option.some.inj hj
    obtain rfl := Option.some.inj (hx'.symm.trans hx)
    exact hvalid (hlate 1)
  split
  · exact .refl i s
  split
  · exact .refl i s
  split
  · exact .refl i s
  · refine .trans ?_ (unextended_setOther hne)
    refine .trans ?_ (unextended_setSession (fun _ => rfl))
    refine .trans ?_ unextended_attachSession
    split
    · exact .refl i s
    split
    · exact unextended_detachSession
    · exact .refl i s

theorem unextended_closeSession : Unextended i s (closeSession s j).2 := by
  rw [closeSession]
  split
  · exact .refl i s
  · exact unextended_removeSession _

theorem unextended_callService (hx : s.sessions i = some x) (hlate : ∀ k, x.validTill < env.now k) (call : Call) :
    Unextended i s (callService env s call) := by
  rw [callService]
  split
  · exact unextended_createSession hx _ _
  · split
    · exact .refl i s
    · exact unextended_activateSession hx hlate _ _
  · split
    · exact .refl i s
    · exact unextended_closeSession
  · exact .refl i s

theorem sendBinaryMessage_sessions (sending : Sending) :
    (sendBinaryMessage sending s c channel).2.sessions = s.sessions := by
  unfold sendBinaryMessage
  cases channelConnection s c channel with
  | none => rfl
  | some c' => cases sending <;> cases channel <;> rfl

theorem sendError_sessions {requestId : UInt32} {code : StatusCode} {pos : Nat} :
    (sendError b env s c channel requestId code pos st).server.sessions = s.sessions := by
  rw [sendError]
  split
  · rfl
  · exact sendBinaryMessage_sessions _

theorem stays_sendError {requestId : UInt32} {code : StatusCode} {pos : Nat} :
    StaysExpired i s (sendError b env s c channel requestId code pos st) :=
  ⟨fun _ hcall => absurd hcall not_call_of_sendError, unextended_of_eq sendError_sessions⟩

end Effects

section Lookups

variable {service : Service} {requestTypeId : NodeId}

/-- The list of the channel has the session for the token of the request, and
the session is activated or about to be. -/
def Serves (b : Build) (s : Server) (channel : Option Nat) (service : Service) (request : Any) (i : Nat) : Prop :=
  channel.bind (channelSession s · (tokenOf request)) = some i ∧
    (activated s (some i) = true ∨
      typeIndex b.subscriptions service.requestType = typeIndex b.subscriptions activateSessionRequest)

/-- The request of a known service can be decoded and gets to the session. -/
def Requests (b : Build) (s : Server) (channel : Option Nat) (requestTypeId : NodeId) (start : Dec) (i : Nat) : Prop :=
  requestTypeId.identifier.isNumeric = true ∧ requestTypeId.namespaceIndex = 0 ∧
    ∃ service, getServicePointers b (numericBits requestTypeId) = some service ∧
      ∃ request, (attempt (b.decode service.requestType) start).1 = .ok request ∧
        Serves b s channel service ⟨_, request⟩ i

/-- The message has a token of its channel and a request that gets to the
session. -/
def Finds (b : Build) (s : Server) (c : Nat) (st : Dec) (i : Nat) : Prop :=
  Admitted s c st ∧
    ∃ requestTypeId start, attempt nodeIdDecodeBinary (securityHeaders st).2 = (.ok requestTypeId, start) ∧
      Requests b s (connectionChannel s c) requestTypeId start i

theorem stays_serve_iff (hx : s.sessions i = some x) (hlate : ∀ k, x.validTill < env.now k) {requestId : UInt32}
    {request : Any} {oldpos : Nat} :
    StaysExpired i s (serve b env s c channel requestId service request oldpos st) ↔
      ¬ Serves b s channel service request i := by
  unfold serve
  dsimp only
  generalize hsession : channel.bind (channelSession s · (tokenOf request)) = session
  split
  · rename_i hrefused
    refine iff_of_true stays_sendError ?_
    rintro ⟨hfound, hflag⟩
    obtain rfl := hsession.symm.trans hfound
    rcases hflag with hflag | hflag
    · rw [hflag] at hrefused
      cases hrefused.1
    · exact hrefused.2 hflag
  rename_i hflag
  split
  · rename_i hrefused
    refine iff_of_true stays_sendError ?_
    rintro ⟨hfound, _⟩
    cases hrefused.1.symm.trans (hsession.symm.trans hfound)
  rename_i hanonymous
  by_cases hi : session = some i
  · subst hi
    refine iff_of_false ?_ ?_
    · rintro ⟨hcalls, _⟩
      refine hcalls ⟨service, c, channel, some i, request⟩ ?_ rfl
      split
      · exact List.mem_singleton_self _
      split
      · exact List.mem_cons_self
      · exact List.mem_cons_self
    · intro hnot
      refine hnot ⟨hsession, ?_⟩
      by_contra hneither
      rw [not_or, Bool.not_eq_true] at hneither
      exact hflag hneither
  · have hsame : (extended env s session).sessions i = s.sessions i := by
      cases session with
      | none => rfl
      | some j => exact modify_of_ne (fun heq => hi (heq ▸ rfl))
    have hcalled : Unextended i s
        (callService env (extended env s session) ⟨service, c, channel, session, request⟩) := by
      intro x' hx'
      obtain ⟨y, hy, hvalid⟩ := unextended_callService (hsame.trans hx) hlate _ x' hx'
      exact ⟨y, hsame.symm.trans hy, hvalid⟩
    refine iff_of_true ?_ (fun hserves => hi (hsession.symm.trans hserves.1))
    split
    · refine ⟨?_, hcalled⟩
      intro call hcall
      obtain rfl := Output.call.inj (List.mem_singleton.mp hcall)
      exact hi
    split
    · refine ⟨?_, hcalled.trans (unextended_of_eq (sendError_sessions.trans (sendBinaryMessage_sessions _)))⟩
      intro call hcall
      rcases List.mem_cons.mp hcall with hcall | hcall
      · obtain rfl := Output.call.inj hcall
        exact hi
      · exact absurd hcall not_call_of_sendError
    · refine ⟨?_, hcalled.trans (unextended_of_eq (sendBinaryMessage_sessions _))⟩
      intro call hcall
      rcases List.mem_cons.mp hcall with hcall | hcall
      · obtain rfl := Output.call.inj hcall
        exact hi
      · cases List.mem_singleton.mp hcall

theorem stays_processRequest_iff (hx : s.sessions i = some x) (hlate : ∀ k, x.validTill < env.now k)
    {requestId : UInt32} :
    StaysExpired i s (processRequest b env s c channel requestId requestTypeId st) ↔
      ¬ Requests b s channel requestTypeId st i := by
  unfold processRequest Requests
  by_cases htype : requestTypeId.identifier.isNumeric = false ∨ requestTypeId.namespaceIndex ≠ 0
  · rw [if_pos htype]
    refine iff_of_true stays_sendError ?_
    rintro ⟨hnumeric, hindex, _⟩
    rcases htype with hnot | hnot
    · rw [hnot] at hnumeric
      cases hnumeric
    · exact hnot hindex
  rw [if_neg htype]
  rw [not_or, Bool.not_eq_false, not_not] at htype
  cases hservice : getServicePointers b (numericBits requestTypeId) with
  | none =>
      refine iff_of_true stays_sendError ?_
      rintro ⟨_, _, service, hsome, _⟩
      cases hsome
  | some service =>
      dsimp only
      by_cases hanonymous : channel = none ∧ typeIndex b.subscriptions service.requestType >
          typeIndex b.subscriptions openSecureChannelRequest
      · rw [if_pos hanonymous]
        refine iff_of_true stays_sendError ?_
        rintro ⟨_, _, service', _, request, _, hfound, _⟩
        rw [hanonymous.1] at hfound
        cases hfound
      rw [if_neg hanonymous]
      cases hbody : attempt (b.decode service.requestType) st with
      | mk r stop =>
          cases r with
          | error code =>
              refine iff_of_true ?_ ?_
              · exact stays_sendError
              · rintro ⟨_, _, service', hsome, request, hrequest, _⟩
                cases hsome
                rw [hbody] at hrequest
                cases hrequest
          | ok request =>
              refine (stays_serve_iff hx hlate).trans (not_congr ?_)
              constructor
              · intro hserves
                exact ⟨htype.1, htype.2, service, rfl, request, congrArg Prod.fst hbody, hserves⟩
              · rintro ⟨_, _, service', hsome, request', hrequest, hserves⟩
                cases hsome
                rw [hbody] at hrequest
                cases hrequest
                exact hserves

theorem channelSession_revolved (a : Nat) (token : NodeId) :
    channelSession (revolved s channel) a token = channelSession s a token := by
  cases channel with
  | none => rfl
  | some a' =>
      have htoken : hasToken (revolved s (some a')) token = hasToken s token := rfl
      rw [channelSession, channelSession, htoken]
      by_cases ha : a = a'
      · subst ha
        rw [revolved, Server.setChannel_channels, modify_self]
        cases s.channels a with
        | none => rfl
        | some y =>
            rw [Option.map_some, revolveTokens]
            dsimp only
            split <;> rfl
      · rw [revolved, Server.setChannel_channels, modify_of_ne ha]

theorem requests_revolved {start : Dec} :
    Requests b (revolved s channel) channel requestTypeId start i ↔ Requests b s channel requestTypeId start i := by
  have hsessions : (revolved s channel).sessions = s.sessions := by cases channel <;> rfl
  have hflag : activated (revolved s channel) (some i) = activated s (some i) := by
    rw [activated, activated, hsessions]
  simp only [Requests, Serves, channelSession_revolved, hflag]

/-- A message stays without effect on an expired session if and only if the list
of its channel does not give the session to an accepted request. -/
theorem processMSG_staysExpired_iff (b : Build) (env : Environment) (s : Server) (c : Nat) (st : Dec) (i : Nat)
    (x : Session) (hx : s.sessions i = some x) (hlate : ∀ k, x.validTill < env.now k) :
    StaysExpired i s (processMSG b env s c st) ↔ ¬ Finds b s c st i := by
  unfold processMSG Finds
  dsimp only
  cases htype : attempt nodeIdDecodeBinary (securityHeaders st).2 with
  | mk r start =>
      cases r with
      | error code =>
          refine iff_of_true ⟨fun _ h => (List.not_mem_nil h).elim, .refl i s⟩ ?_
          rintro ⟨_, _, _, hok, _⟩
          cases hok
      | ok requestTypeId =>
          have hfinds : ∀ {P : Prop}, P → ((P ∧ ∃ requestTypeId' start',
              ((.ok requestTypeId, start) : Except StatusCode NodeId × Dec) = (.ok requestTypeId', start') ∧
                Requests b s (connectionChannel s c) requestTypeId' start' i) ↔
              Requests b s (connectionChannel s c) requestTypeId start i) := by
            intro P hP
            constructor
            · rintro ⟨_, requestTypeId', start', heq, hrequests⟩
              cases heq
              exact hrequests
            · exact fun hrequests => ⟨hP, _, _, rfl, hrequests⟩
          unfold processChecked
          dsimp only
          split
          · rename_i hchannel
            exact iff_of_true ⟨fun _ h => (List.not_mem_nil h).elim, .refl i s⟩ (fun h => hchannel h.1.1)
          rename_i hchannel
          split
          · rename_i htoken
            split
            · rename_i hnext
              refine iff_of_true ⟨fun _ h => (List.not_mem_nil h).elim, unextended_closeSecureChannel _⟩ ?_
              rintro ⟨⟨_, h | h⟩, _⟩
              · exact htoken h
              · exact hnext h
            · rename_i hnext
              rw [hfinds ⟨not_not.mp hchannel, .inr (not_not.mp hnext)⟩, ← requests_revolved]
              have hsessions : (revolved s (connectionChannel s c)).sessions = s.sessions := by
                cases connectionChannel s c <;> rfl
              rw [← stays_processRequest_iff (by rw [hsessions]; exact hx) hlate]
              unfold StaysExpired Unextended
              rw [hsessions]
          · rename_i htoken
            rw [hfinds ⟨not_not.mp hchannel, .inl (not_not.mp htoken)⟩]
            exact stays_processRequest_iff hx hlate

end Lookups

section Samples

def lateEnvironment : Environment := { sampleEnvironment with now := fun _ => 10000000000 }

def sampleActivated : Server := run standardBuild (newServer ⟨true, false, []⟩) sampleEvents

theorem sampleActivated_session : ∃ x, sampleActivated.sessions 0 = some x ∧ ∀ k,
    x.validTill < lateEnvironment.now k := by
  have hvalid : (sampleActivated.sessions 0).any (fun x => x.validTill < 10000000000) = true := by decide +kernel
  cases hx : sampleActivated.sessions 0 with
  | none =>
      rw [hx] at hvalid
      cases hvalid
  | some x =>
      rw [hx] at hvalid
      exact ⟨x, rfl, fun _ => of_decide_eq_true hvalid⟩

/-- A message on another connection. -/
theorem processMSG_staysExpired_sample :
    StaysExpired 0 sampleActivated (processMSG standardBuild lateEnvironment sampleActivated 1
      ⟨sampleRead, 8, [], []⟩) := by
  obtain ⟨x, hx, hlate⟩ := sampleActivated_session
  refine (processMSG_staysExpired_iff standardBuild lateEnvironment sampleActivated 1 ⟨sampleRead, 8, [], []⟩ 0 x hx
    hlate).mpr ?_
  rintro ⟨_, _, _, _, _, _, _, _, _, _, hfound, _⟩
  rw [show connectionChannel sampleActivated 1 = none by decide +kernel] at hfound
  cases hfound

def calledSession : Output → Option Nat
  | .call call => call.session
  | _ => none

/-- The Read request of an expired session is served. -/
theorem processMSG_servesExpired :
    (∃ x, sampleActivated.sessions 0 = some x ∧ ∀ k, x.validTill < lateEnvironment.now k) ∧
    ¬ StaysExpired 0 sampleActivated
      (processMSG standardBuild lateEnvironment sampleActivated 0 ⟨sampleRead, 8, [], []⟩) := by
  refine ⟨sampleActivated_session, ?_⟩
  rintro ⟨hcalls, _⟩
  have hcalled : (processMSG standardBuild lateEnvironment sampleActivated 0 ⟨sampleRead, 8, [], []⟩).outputs.head?.bind
      calledSession = some 0 := by
    decide +kernel
  obtain ⟨o, ho, hsession⟩ := Option.bind_eq_some_iff.mp hcalled
  cases o with
  | call call => exact hcalls call (List.mem_of_mem_head? ho) hsession
  | _ => cases hsession

end Samples

end OpcUa.ExpiredSessions
