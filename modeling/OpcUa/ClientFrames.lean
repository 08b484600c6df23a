import OpcUa.OwnSteps

namespace OpcUa.ClientFrames

open StatusCodes NodeIds Connections Heaps DataTypes Values Readers Decoding Servers SecureChannels
open Sessions ServiceTable MessageHandlers ServerLinks LinkedOperations HandlerSteps
open SessionGating ChannelTokens LoopDispatch TokenChecks ChannelConnections OwnSteps Relation

/-- The connection, its channel and the sessions on the channel are as before. -/
structure Spares (c a : Nat) (y : SecureChannel) (s s' : Server) : Prop where
  connection : s'.connections c = s.connections c
  channel : s'.channels a = s.channels a
  sessions : ∀ i ∈ y.sessions, s'.sessions i = s.sessions i

def Tokened (s : Server) (i : Nat) (token : NodeId) : Prop :=
  ∃ x, s.sessions i = some x ∧ x.authenticationToken = token

def Apart (s : Server) (a : Nat) (token : NodeId) : Prop :=
  ∀ i token', On s a i → Tokened s i token' → nodeIdEqual token' token = false

/-- No session on another channel has a token of a session on this one. -/
def TokensApart (s : Server) (a : Nat) : Prop :=
  ∀ a' i token, a' ≠ a → On s a' i → Tokened s i token → Apart s a token

/-- A client with its connection and its channel. -/
structure Client (c a : Nat) (y : SecureChannel) (s : Server) : Prop where
  linked : Linked s
  backed : Backed s
  connected : connectionChannel s c = some a
  channel : s.channels a = some y
  tokens : TokensApart s a

variable {b : Build} {s s' s'' : Server} {e : Event} {c a c' : Nat} {y : SecureChannel} {channel : Option Nat}
  {presented : NodeId → Prop} {env : Environment} {request : OpenRequest} {i j : Nat} {token : NodeId}

section Clients

theorem Spares.refl (s : Server) : Spares c a y s s := ⟨rfl, rfl, fun _ _ => rfl⟩

theorem Spares.trans (h : Spares c a y s s') (h' : Spares c a y s' s'') : Spares c a y s s'' :=
  ⟨h'.connection.trans h.connection, h'.channel.trans h.channel,
    fun i hi => (h'.sessions i hi).trans (h.sessions i hi)⟩

theorem Client.connection (h : Client c a y s) : y.connection = some c := by
  obtain ⟨x, hx, hxa⟩ := Option.bind_eq_some_iff.mp h.connected
  exact h.linked.connection_unique hx hxa h.channel

theorem Client.other (h : Client c a y s) (hne : c ≠ c') : connectionChannel s c' ≠ some a := by
  intro ha
  obtain ⟨x, hx, hxa⟩ := Option.bind_eq_some_iff.mp ha
  have hconnection := h.linked.connection_unique hx hxa h.channel
  exact hne (Option.some.inj (h.connection.symm.trans hconnection))

theorem Client.not_mem (h : Client c a y s) (hchannel : (s.sessions i).bind (·.channel) ≠ some a) :
    i ∉ y.sessions := by
  intro hi
  obtain ⟨x, hx, hxa⟩ := h.linked.attached h.channel hi
  exact hchannel (Option.bind_eq_some_iff.mpr ⟨x, hx, hxa⟩)

theorem Client.not_channel (h : Client c a y s) (hi : i ∉ y.sessions) : (s.sessions i).bind (·.channel) ≠ some a := by
  intro hchannel
  obtain ⟨x, hx, hxa⟩ := Option.bind_eq_some_iff.mp hchannel
  exact hi (h.linked.mem_sessions hx hxa h.channel)

theorem Client.onOwn (h : Client c a y s) (hne : channel ≠ some a) (hi : OnOwn s channel i) : i ∉ y.sessions := by
  apply h.not_mem
  rw [bind_of_onOwn h.linked hi]
  exact hne

theorem hasToken_iff : hasToken s token i = true ↔ ∃ token', Tokened s i token' ∧ nodeIdEqual token' token = true := by
  rw [hasToken]
  constructor
  · intro hi
    split at hi
    · cases hi
    · rename_i x hx
      exact ⟨_, ⟨x, hx, rfl⟩, hi⟩
  · rintro ⟨_, ⟨x, hx, rfl⟩, hsame⟩
    rw [hx]
    exact hsame

theorem Client.not_mem_of_token (h : Client c a y s) (htoken : Apart s a token) (hi : hasToken s token i = true) :
    i ∉ y.sessions := by
  intro hmem
  obtain ⟨token', htoken', hsame⟩ := hasToken_iff.mp hi
  rw [htoken i token' ⟨y, h.channel, hmem⟩ htoken'] at hsame
  cases hsame

theorem apart_congr (hy : s.channels a = some y) (h : Spares c a y s s') : Apart s' a token ↔ Apart s a token := by
  have hon : ∀ i, On s' a i ↔ On s a i := fun i => by rw [On, On, h.channel]
  have hsession : ∀ i, On s a i → s'.sessions i = s.sessions i := by
    rintro i ⟨y', hy', hi⟩
    obtain rfl := Option.some.inj (hy.symm.trans hy')
    exact h.sessions i hi
  constructor
  · intro hapart i token' hi htoken
    exact hapart i token' ((hon i).mpr hi) (by rw [Tokened, hsession i hi]; exact htoken)
  · intro hapart i token' hi htoken
    have hi := (hon i).mp hi
    exact hapart i token' hi (by rw [Tokened, ← hsession i hi]; exact htoken)

/-- A session that is on a channel was there before, or it has no token of the
client. -/
def Kept (a : Nat) (s s' : Server) : Prop :=
  ∀ a' i token, On s' a' i → Tokened s' i token → On s a' i ∧ Tokened s i token ∨ Apart s a token

theorem Client.next (h : Client c a y s) (hspares : Spares c a y s s') (hkept : Kept a s s') (hlinked : Linked s')
    (hbacked : Backed s') : Client c a y s' := by
  refine ⟨hlinked, hbacked, (connectionChannel_congr hspares.connection).trans h.connected,
    hspares.channel.trans h.channel, ?_⟩
  intro a' i token hne hon htoken
  rw [apart_congr h.channel hspares]
  rcases hkept a' i token hon htoken with ⟨hon, htoken⟩ | hapart
  · exact h.tokens a' i token hne hon htoken
  · exact hapart

end Clients

section Lists

/-- Every session had its token before, and apart from new ones the sessions
were on their channels. -/
structure NoMore (new : Nat → Prop) (s s' : Server) : Prop where
  tokens : ∀ i token, Tokened s' i token → Tokened s i token
  listed : ∀ a i, On s' a i → new i ∨ On s a i

variable {new : Nat → Prop}

theorem NoMore.refl (s : Server) : NoMore new s s := ⟨fun _ _ => id, fun _ _ => .inr⟩

theorem NoMore.trans (h : NoMore new s s') (h' : NoMore new s' s'') : NoMore new s s'' :=
  ⟨fun i token htoken => h.tokens i token (h'.tokens i token htoken),
    fun a i hi => (h'.listed a i hi).elim .inl (h.listed a i)⟩

theorem noMore_of_lists (hsessions : s'.sessions = s.sessions)
    (hlists : ∀ a, (s'.channels a).map (·.sessions) = (s.channels a).map (·.sessions)) : NoMore new s s' := by
  constructor
  · intro i token htoken
    rw [Tokened, hsessions] at htoken
    exact htoken
  · rintro a i ⟨y, hy, hi⟩
    obtain ⟨y', hy', hlist⟩ := map_eq_some_of (hlists a) hy
    exact .inr ⟨y', hy', by rw [hlist]; exact hi⟩

theorem noMore_setConnection {f : Connection → Connection} : NoMore new s (s.setConnection c f) :=
  ⟨fun _ _ => id, fun _ _ => .inr⟩

theorem noMore_setChannel {f : SecureChannel → SecureChannel}
    (hf : ∀ y i, i ∈ (f y).sessions → new i ∨ i ∈ y.sessions) : NoMore new s (s.setChannel a f) := by
  refine ⟨fun _ _ => id, ?_⟩
  rintro a' i ⟨y, hy, hi⟩
  rcases modify_eq_some.mp hy with ⟨rfl, y', hy', rfl⟩ | ⟨_, hy⟩
  · exact (hf y' i hi).imp_right (fun hi => ⟨y', hy', hi⟩)
  · exact .inr ⟨y, hy, hi⟩

theorem noMore_setSession {f : Session → Session} (hf : ∀ x, (f x).authenticationToken = x.authenticationToken) :
    NoMore new s (s.setSession j f) := by
  refine ⟨?_, fun _ _ => .inr⟩
  rintro i token ⟨x, hx, rfl⟩
  rcases modify_eq_some.mp hx with ⟨rfl, x', hx', rfl⟩ | ⟨_, hx⟩
  · exact ⟨x', hx', (hf x').symm⟩
  · exact ⟨x, hx, rfl⟩

theorem noMore_detachSession : NoMore new s (detachSession s a j) := by
  have hsession : NoMore new s (s.setSession j (fun x => { x with channel := none })) :=
    noMore_setSession (fun _ => rfl)
  exact hsession.trans (noMore_setChannel (fun y i hi => .inr (List.mem_of_mem_erase hi)))

theorem noMore_freeSession : NoMore new s (freeSession s j) := by
  have hmembers : NoMore new s (deleteSessionMembers s j) := by
    rw [deleteSessionMembers]
    split
    · exact .refl s
    · exact noMore_detachSession
  refine hmembers.trans ⟨?_, fun _ _ => .inr⟩
  rintro i token ⟨x, hx, htoken⟩
  exact ⟨x, (free_eq_some.mp hx).2, htoken⟩

theorem noMore_removeSession : NoMore new s (removeSession s token).2 := by
  rw [removeSession]
  split
  · exact .refl s
  · exact noMore_freeSession

theorem noMore_activate : NoMore (· = i) s (activate env s a i) := by
  have hattach : ∀ s : Server, NoMore (· = i) s (attachSession env.newSessionEntry s a i) := by
    intro s
    rw [attachSession]
    split
    · exact .refl s
    split
    · exact .refl s
    · have hsession : NoMore (· = i) s (s.setSession i (fun x => { x with channel := some a })) :=
        noMore_setSession (fun _ => rfl)
      exact hsession.trans (noMore_setChannel (fun y j hj => List.mem_cons.mp hj))
  rw [activate]
  refine NoMore.trans ?_ (noMore_setSession (fun _ => rfl))
  refine NoMore.trans ?_ (noMore_setSession (fun _ => rfl))
  refine NoMore.trans ?_ (hattach _)
  split
  · exact .refl s
  split
  · exact noMore_detachSession
  · exact .refl s

theorem noMore_detachSecureChannel : NoMore new s (detachSecureChannel s c) :=
  noMore_of_lists detach_sessions detach_lists

theorem noMore_removeChannel : NoMore new s (removeChannel s a) := by
  cases hy : s.channels a with
  | none =>
      obtain ⟨_, hchannels, hsessions, _⟩ := removeChannel_of_none hy
      refine ⟨fun i token htoken => ?_, fun a' i hi => .inr ?_⟩
      · rw [Tokened, hsessions] at htoken
        exact htoken
      · rw [On, hchannels] at hi
        exact hi
  | some y =>
      obtain ⟨_, hchannels, hsessions, _⟩ := removeChannel_spec hy
      have hdisconnect : NoMore new s (disconnect s y) := by
        rw [disconnect]
        split
        · exact .refl s
        · exact noMore_detachSecureChannel.trans noMore_setConnection
      constructor
      · rintro i token ⟨x, hx, rfl⟩
        rw [hsessions] at hx
        split at hx
        · obtain ⟨x', hx', rfl⟩ := Option.map_eq_some_iff.mp hx
          exact ⟨x', hx', rfl⟩
        · exact ⟨x, hx, rfl⟩
      · rintro a' i ⟨y', hy', hi⟩
        have hne : a' ≠ a := by
          rintro rfl
          rw [removeChannel_self] at hy'
          cases hy'
        rw [hchannels a' hne] at hy'
        exact hdisconnect.listed a' i ⟨y', hy', hi⟩

theorem NoMore.kept (h : NoMore new s s') (hnew : ∀ i token, new i → Tokened s i token → Apart s a token) :
    Kept a s s' := by
  intro a' i token hon htoken
  have htoken := h.tokens i token htoken
  rcases h.listed a' i hon with hi | hon
  · exact .inr (hnew i token hi htoken)
  · exact .inl ⟨hon, htoken⟩

theorem NoMore.keeps (h : NoMore (fun _ => False) s s') : Kept a s s' := h.kept (fun _ _ hnew => hnew.elim)

end Lists

section Sparing

theorem spares_setConnection {f : Connection → Connection} (hne : c ≠ c') : Spares c a y s (s.setConnection c' f) :=
  ⟨modify_of_ne hne, rfl, fun _ _ => rfl⟩

theorem spares_setChannel {f : SecureChannel → SecureChannel} {a' : Nat} (hne : a ≠ a') :
    Spares c a y s (s.setChannel a' f) := ⟨rfl, modify_of_ne hne, fun _ _ => rfl⟩

theorem spares_setSession {f : Session → Session} (hi : i ∉ y.sessions) : Spares c a y s (s.setSession i f) := by
  refine ⟨rfl, rfl, fun j hj => modify_of_ne ?_⟩
  rintro rfl
  exact hi hj

theorem spares_detachSession {a' : Nat} (hne : a ≠ a') (hi : i ∉ y.sessions) :
    Spares c a y s (detachSession s a' i) := (spares_setSession hi).trans (spares_setChannel hne)

theorem spares_freeSession (h : Client c a y s) (hi : i ∉ y.sessions) : Spares c a y s (freeSession s i) := by
  have hmembers : Spares c a y s (deleteSessionMembers s i) := by
    rw [deleteSessionMembers]
    split
    · exact .refl s
    · rename_i a' ha'
      refine spares_detachSession ?_ hi
      rintro rfl
      exact h.not_channel hi ha'
  refine ⟨hmembers.connection, hmembers.channel, fun j hj => ?_⟩
  have hne : j ≠ i := by
    rintro rfl
    exact hi hj
  exact Eq.trans (if_neg hne) (hmembers.sessions j hj)

theorem spares_removeSession (h : Client c a y s) (htoken : Apart s a token) :
    Spares c a y s (removeSession s token).2 := by
  rw [removeSession]
  split
  · exact .refl s
  · rename_i j hj
    have hj : hasToken s token j = true := List.find?_some hj
    exact spares_freeSession h (h.not_mem_of_token htoken hj)

theorem spares_activate {a' : Nat} (h : Client c a y s) (hne : a ≠ a') (hi : i ∉ y.sessions) :
    Spares c a y s (activate env s a' i) := by
  have hattach : ∀ s : Server, Spares c a y s (attachSession env.newSessionEntry s a' i) := by
    intro s
    rw [attachSession]
    split
    · exact .refl s
    split
    · exact .refl s
    · exact (spares_setSession hi).trans (spares_setChannel hne)
  rw [activate]
  refine .trans ?_ (spares_setSession hi)
  refine .trans ?_ (spares_setSession hi)
  refine .trans ?_ (hattach _)
  split
  · exact .refl s
  · rename_i a'' ha''
    split
    · refine spares_detachSession ?_ hi
      rintro rfl
      exact h.not_channel hi ha''
    · exact .refl s

theorem spares_detachSecureChannel (h : Client c a y s) (hne : c ≠ c') : Spares c a y s (detachSecureChannel s c') := by
  refine ⟨?_, detach_channels_of_ne (h.other hne), fun i _ => congrFun detach_sessions i⟩
  rw [detach_connections, modify_of_ne hne]

theorem spares_removeChannel {a' : Nat} (h : Client c a y s) (hne : a ≠ a') : Spares c a y s (removeChannel s a') := by
  cases hy' : s.channels a' with
  | none =>
      obtain ⟨hconnections, hchannels, hsessions, _⟩ := removeChannel_of_none hy'
      exact ⟨by rw [hconnections], by rw [hchannels], fun i _ => by rw [hsessions]⟩
  | some y' =>
      obtain ⟨hconnections, hchannels, hsessions, _⟩ := removeChannel_spec hy'
      have hdisconnect : Spares c a y s (disconnect s y') := by
        rw [disconnect]
        split
        · exact .refl s
        · rename_i c' hc'
          have hother : c ≠ c' := by
            rintro rfl
            have hback := h.backed a' y' c hy' hc'
            exact hne (Option.some.inj (h.connected.symm.trans hback))
          exact (spares_detachSecureChannel h hother).trans (spares_setConnection hother)
      refine ⟨?_, ?_, fun i hi => ?_⟩
      · rw [hconnections]
        exact hdisconnect.connection
      · rw [hchannels a hne]
        exact hdisconnect.channel
      · rw [hsessions, if_neg]
        intro hi'
        obtain ⟨x, hx, hxa⟩ := h.linked.attached h.channel hi
        have hxa' := h.linked.session_channel hy' hi' hx
        exact hne (Option.some.inj (hxa.symm.trans hxa'))

end Sparing

section Messages

theorem managerSession_token {now : DateTime} (hi : managerSession now s token = some i) :
    hasToken s token i = true := by
  rw [managerSession] at hi
  split at hi
  · cases hi
  rename_i j hj
  have hj : hasToken s token j = true := List.find?_some hj
  split at hi
  · cases hi
  split at hi
  · cases hi
  · obtain rfl := Option.some.inj hi
    exact hj

theorem activateSession_cases (env : Environment) (s : Server) (a : Nat) (token : NodeId) (identity : IdentityToken) :
    (activateSession env s a token identity).2 = s ∨
      ∃ i, hasToken s token i = true ∧ (activateSession env s a token identity).2 = activate env s a i := by
  rw [activateSession]
  split
  · exact .inl rfl
  rename_i i hi
  split
  · exact .inl rfl
  split
  · exact .inl rfl
  split
  · exact .inl rfl
  · exact .inr ⟨i, managerSession_token hi, rfl⟩

/-- A new session is first in the list of the manager. If the answer cannot be
completed, the first session with its token is removed. -/
theorem createSession_cases (env : Environment) (s : Server) (channel : Option Nat) (requested : UInt64) :
    (createSession env s channel requested).2 = s ∨
      ∃ i x s', s.sessions i = none ∧ x.channel = none ∧ s'.sessions = s.sessions.store i x ∧
        s'.channels = s.channels ∧ s'.connections = s.connections ∧
        s'.sessionManager.sessions = i :: s.sessionManager.sessions ∧
        ((createSession env s channel requested).2 = s' ∨
          (createSession env s channel requested).2 = (removeSession s' x.authenticationToken).2) := by
  rw [createSession]
  split
  · exact .inl rfl
  split
  · exact .inl rfl
  split
  · exact .inl rfl
  · rename_i i s' hcreated
    rw [createManagedSession] at hcreated
    split at hcreated
    · cases hcreated
    split at hcreated
    · cases hcreated
    · rename_i i' hi'
      obtain ⟨hi, hs'⟩ := Prod.mk.inj (Except.ok.inj hcreated)
      subst hi
      have hnew : s'.sessions i' = some (createdSession env s.sessionManager requested) := by
        rw [← hs']
        exact if_pos rfl
      refine .inr ⟨i', createdSession env s.sessionManager requested, s', (allocate_eq_some.mp hi').2, rfl, ?_, ?_, ?_,
        ?_, ?_⟩
      · rw [← hs']
      · rw [← hs']
      · rw [← hs']
      · rw [← hs']
      split
      · exact .inl rfl
      · rw [hnew]
        exact .inr rfl

theorem spares_createSession (h : Client c a y s) (requested : UInt64) :
    Spares c a y s (createSession env s channel requested).2 ∧ Kept a s (createSession env s channel requested).2 := by
  rcases createSession_cases env s channel requested with
    hrefused | ⟨i, x, s₁, hnone, hfree, hsessions, hchannels, hconnections, hlist, hlast⟩
  · rw [hrefused]
    exact ⟨.refl s, (NoMore.refl s).keeps⟩
  · have hoff : ∀ a', ¬ On s a' i := by
      rintro a' ⟨y', hy', hi⟩
      obtain ⟨x', hx', _⟩ := h.linked.attached hy' hi
      rw [hnone] at hx'
      cases hx'
    have hnew : i ∉ y.sessions := fun hi => hoff a ⟨y, h.channel, hi⟩
    have hspares : Spares c a y s s₁ := by
      refine ⟨by rw [hconnections], by rw [hchannels], fun j hj => ?_⟩
      rw [hsessions]
      refine if_neg ?_
      rintro rfl
      exact hnew hj
    have hkept : ∀ a' j token, On s₁ a' j → Tokened s₁ j token → On s a' j ∧ Tokened s j token := by
      rintro a' j token ⟨y', hy', hj⟩ ⟨x', hx', htoken⟩
      rw [hchannels] at hy'
      have hon : On s a' j := ⟨y', hy', hj⟩
      refine ⟨hon, x', ?_, htoken⟩
      rw [hsessions] at hx'
      rcases store_eq_some.mp hx' with ⟨rfl, _⟩ | ⟨_, hx'⟩
      · exact absurd hon (hoff a')
      · exact hx'
    have hcreated : s₁.sessions i = some x := by
      rw [hsessions]
      exact if_pos rfl
    have hfirst : hasToken s₁ x.authenticationToken i = true :=
      hasToken_iff.mpr ⟨_, ⟨x, hcreated, rfl⟩, nodeIdEqual_refl _⟩
    have hfreed : (removeSession s₁ x.authenticationToken).2 = freeSession s₁ i := by
      rw [removeSession, hlist, List.find?_cons_of_pos hfirst]
    have hmembers : deleteSessionMembers s₁ i = s₁ := by
      rw [deleteSessionMembers, hcreated, Option.bind_some, hfree]
    have hsparesFreed : Spares c a y s₁ (freeSession s₁ i) := by
      rw [freeSession, hmembers]
      refine ⟨rfl, rfl, fun j hj => if_neg ?_⟩
      rintro rfl
      exact hnew hj
    rcases hlast with heq | heq
    · rw [heq]
      exact ⟨hspares, fun a' j token hon htoken => .inl (hkept a' j token hon htoken)⟩
    · rw [heq, hfreed]
      refine ⟨hspares.trans hsparesFreed, fun a' j token hon htoken => .inl ?_⟩
      have hless : NoMore (fun _ => False) s₁ (freeSession s₁ i) := noMore_freeSession
      exact hkept a' j token ((hless.listed a' j hon).resolve_left id) (hless.tokens j token htoken)

theorem spares_own (h : Client c a y s) (hne : c ≠ c') (hchannel : channel ≠ some a)
    (hpresented : ∀ token, presented token → Apart s a token) (hown : Own c' channel presented s s') :
    Spares c a y s s' ∧ Kept a s s' := by
  cases hown with
  | connection f hf =>
      have hless : NoMore (fun _ => False) s (s.setConnection c' f) := noMore_setConnection
      exact ⟨spares_setConnection hne, hless.keeps⟩
  | broken c'' hc =>
      have hless : NoMore (fun _ => False) s (close s c'') := noMore_setConnection
      refine ⟨spares_setConnection ?_, hless.keeps⟩
      rintro rfl
      cases channel with
      | none => exact hne (Option.some.inj hc).symm
      | some a' =>
          obtain ⟨y', hy', hyc⟩ := Option.bind_eq_some_iff.mp hc
          exact hchannel ((h.backed a' y' c hy' hyc).symm.trans h.connected)
  | sequenceNumber =>
      cases channel with
      | none => exact ⟨.refl s, (NoMore.refl s).keeps⟩
      | some a' =>
          have hless : NoMore (fun _ => False) s (nextSequenceNumber s (some a')) :=
            noMore_setChannel (fun _ _ => .inr)
          exact ⟨spares_setChannel (fun heq => hchannel (congrArg some heq.symm)), hless.keeps⟩
  | lifetime now i hi =>
      have hless : NoMore (fun _ => False) s (updateLifetime now s i) := noMore_setSession (fun _ => rfl)
      exact ⟨spares_setSession (h.onOwn hchannel hi), hless.keeps⟩
  | closeSession i hi =>
      rw [closeSession]
      split
      · exact ⟨.refl s, (NoMore.refl s).keeps⟩
      · rename_i x hx
        obtain ⟨a', ha', hon⟩ := hi
        have hother : a' ≠ a := by
          rintro rfl
          exact hchannel ha'
        have htoken : Apart s a x.authenticationToken := h.tokens a' i _ hother hon ⟨x, hx, rfl⟩
        have hless : NoMore (fun _ => False) s (removeSession s x.authenticationToken).2 := noMore_removeSession
        exact ⟨spares_removeSession h htoken, hless.keeps⟩
  | activateSession env a' y' token identity ha hy htoken =>
      rcases activateSession_cases env s a' token identity with hrefused | ⟨i, hi, hactivated⟩
      · rw [hrefused]
        exact ⟨.refl s, (NoMore.refl s).keeps⟩
      · rw [hactivated]
        have hapart := hpresented token htoken
        have hmem := h.not_mem_of_token hapart hi
        have hother : a ≠ a' := by
          rintro rfl
          exact hchannel ha
        refine ⟨spares_activate h hother hmem, noMore_activate.kept ?_⟩
        rintro j token' rfl ⟨x, hx, rfl⟩ k token'' hk htoken''
        obtain ⟨_, ⟨x', hx', rfl⟩, hsame⟩ := hasToken_iff.mp hi
        obtain rfl := Option.some.inj (hx.symm.trans hx')
        rw [nodeIdEqual_congr_right hsame]
        exact hapart k token'' hk htoken''
  | createSession env requested => exact spares_createSession h requested

theorem spares_owns (h : Client c a y s) (hne : c ≠ c') (hchannel : channel ≠ some a)
    (hpresented : ∀ token, presented token → Apart s a token) (howns : Owns c' channel presented s s') :
    Spares c a y s s' ∧ Client c a y s' := by
  induction howns with
  | refl => exact ⟨.refl s, h⟩
  | tail _ hown ih =>
      obtain ⟨hspares, hclient⟩ := ih
      have hapart : ∀ token, presented token → Apart _ a token := fun token htoken =>
        (apart_congr h.channel hspares).mpr (hpresented token htoken)
      obtain ⟨hlast, hkept⟩ := spares_own hclient hne hchannel hapart hown
      refine ⟨hspares.trans hlast, hclient.next hlast hkept (linked_acts hclient.linked hown.acts) ?_⟩
      exact hclient.backed.congr (sameTies_acts hown.acts)

end Messages

section Channels

theorem Client.spared (h : Client c a y s) (hspares : Spares c a y s s') (hless : NoMore (fun _ => False) s s')
    (hlinked : Linked s') (hbacked : Backed s') : Spares c a y s s' ∧ Client c a y s' :=
  ⟨hspares, h.next hspares hless.keeps hlinked hbacked⟩

theorem spared_removeChannel {a' : Nat} (h : Client c a y s) (hne : a ≠ a') :
    Spares c a y s (removeChannel s a') ∧ Client c a y (removeChannel s a') :=
  h.spared (spares_removeChannel h hne) noMore_removeChannel (linked_removeChannel h.linked)
    (backed_removeChannel h.backed)

theorem spared_revolve {a' : Nat} (h : Client c a y s) (hne : a ≠ a') :
    Spares c a y s (s.setChannel a' revolveTokens) ∧ Client c a y (s.setChannel a' revolveTokens) := by
  refine h.spared (spares_setChannel hne) (noMore_setChannel ?_)
    (h.linked.congr (sameLinks_setChannel links_revolveTokens))
    (h.backed.congr (sameTies_setChannel connection_revolveTokens))
  intro y' i hi
  have hlist : (revolveTokens y').sessions = y'.sessions := congrArg Prod.snd (links_revolveTokens y')
  exact .inr (by rw [← hlist]; exact hi)

theorem spared_opened {a' : Nat} (h : Client c a y s) (hne : c ≠ c') (hfree : s.channels a' = none)
    (hlinked : Linked (Opened env s c' request a')) (hbacked : Backed (Opened env s c' request a')) :
    Spares c a y s (Opened env s c' request a') ∧ Client c a y (Opened env s c' request a') := by
  have hother : a ≠ a' := by
    rintro rfl
    rw [h.channel] at hfree
    cases hfree
  refine h.spared ⟨modify_of_ne hne, if_neg hother, fun _ _ => rfl⟩ ⟨fun _ _ => id, ?_⟩ hlinked hbacked
  rintro a'' i ⟨y', hy', hi⟩
  rcases store_eq_some.mp hy' with ⟨_, rfl⟩ | ⟨_, hy'⟩
  · cases hi
  · exact .inr ⟨y', hy', hi⟩

theorem spared_renewChannel (h : Client c a y s) (hne : c ≠ c') (hlinked : Linked (renewChannel env s c' request).2) :
    Spares c a y s (renewChannel env s c' request).2 ∧ Client c a y (renewChannel env s c' request).2 := by
  have hbacked := h.backed.congr (sameTies_renewChannel env s c' request)
  refine h.spared ?_ ?_ hlinked hbacked
  · rw [renewChannel]
    split
    · exact .refl s
    rename_i a' ha'
    dsimp only
    split
    · exact .refl s
    split
    · exact .refl s
    · refine ⟨rfl, modify_of_ne ?_, fun _ _ => rfl⟩
      rintro rfl
      exact h.other hne ha'
  · rw [renewChannel]
    split
    · exact .refl s
    dsimp only
    split
    · exact .refl s
    split
    · exact .refl s
    · exact noMore_of_lists rfl (modify_part _ (fun _ => rfl))

theorem spared_openSecureChannel (h : Client c a y s) (hne : c ≠ c') (hestablished : established s c' = true)
    (hnone : Grants env s request → connectionChannel s c' = none) :
    Spares c a y s (openSecureChannel env s c' request).2 ∧ Client c a y (openSecureChannel env s c' request).2 := by
  have hlinked : Linked (openSecureChannel env s c' request).2 := linked_openSecureChannel h.linked request
  rw [openSecureChannel] at hlinked ⊢
  split
  · rename_i hissue
    rw [if_pos hissue] at hlinked
    rcases openChannel_cases env s c' request hissue with ⟨_, hsame⟩ | ⟨hgrants, a', hfree, hopened⟩
    · rw [hsame]
      exact ⟨.refl s, h⟩
    · rw [hopened] at hlinked ⊢
      exact spared_opened h hne hfree hlinked (backed_opened h.backed hestablished (hnone hgrants) hfree)
  · rename_i hrenew
    rw [if_neg hrenew] at hlinked
    exact spared_renewChannel h hne hlinked

theorem spared_cleanupSession {now : DateTime} (h : Client c a y s)
    (hdue : ∀ i ∈ y.sessions, ∀ x, s.sessions i = some x → now ≤ x.validTill) :
    Spares c a y s (cleanupSession now s i) ∧ Client c a y (cleanupSession now s i) := by
  have hlinked := linked_cleanupSession now h.linked i
  rw [cleanupSession] at hlinked ⊢
  split at hlinked
  · exact ⟨.refl s, h⟩
  · rename_i x hx
    split at hlinked
    · rename_i hlate
      rw [if_pos hlate]
      have hmem : i ∉ y.sessions := fun hi => absurd hlate (not_lt.mpr (hdue i hi x hx))
      exact h.spared (spares_freeSession h hmem) noMore_freeSession hlinked
        (h.backed.congr (sameTies_of_onlySessions onlySessions_freeSession))
    · rename_i hlate
      rw [if_neg hlate]
      exact ⟨.refl s, h⟩

theorem spared_cleanupSessions {now : DateTime} (h : Client c a y s)
    (hdue : ∀ i ∈ y.sessions, ∀ x, s.sessions i = some x → now ≤ x.validTill) :
    Spares c a y s (cleanupSessions s now) ∧ Client c a y (cleanupSessions s now) := by
  rw [cleanupSessions]
  generalize s.sessionManager.sessions = l
  induction l generalizing s with
  | nil => exact ⟨.refl s, h⟩
  | cons i l ih =>
      obtain ⟨hspares, hclient⟩ := spared_cleanupSession (i := i) h hdue
      have hlater : ∀ j ∈ y.sessions, ∀ x, (cleanupSession now s i).sessions j = some x → now ≤ x.validTill := by
        intro j hj x hx
        rw [hspares.sessions j hj] at hx
        exact hdue j hj x hx
      obtain ⟨hrest, hlast⟩ := ih hclient hlater
      exact ⟨hspares.trans hrest, hlast⟩

theorem spared_cleanupChannels {now : DateTime} (h : Client c a y s) (hfresh : expired now y.securityToken = false)
    (hcurrent : y.nextSecurityToken.tokenId = 0) :
    Spares c a y s (cleanupChannels s now) ∧ Client c a y (cleanupChannels s now) := by
  rw [cleanupChannels]
  generalize s.secureChannelManager.channels = l
  induction l generalizing s with
  | nil => exact ⟨.refl s, h⟩
  | cons a' l ih =>
      have hfirst : Spares c a y s (cleanupChannel now s a') ∧ Client c a y (cleanupChannel now s a') := by
        rw [cleanupChannel]
        by_cases ha : a = a'
        · subst ha
          rw [h.channel]
          dsimp only
          rw [hfresh, h.connection, hcurrent, if_neg (by simp), if_neg (by decide)]
          exact ⟨.refl s, h⟩
        · split
          · exact ⟨.refl s, h⟩
          split
          · exact spared_removeChannel h ha
          split
          · exact spared_revolve h ha
          · exact ⟨.refl s, h⟩
      obtain ⟨hrest, hlast⟩ := ih hfirst.2
      exact ⟨hfirst.1.trans hrest, hlast⟩

end Channels

end OpcUa.ClientFrames
