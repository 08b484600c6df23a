import OpcUa.ClientAccounts

namespace OpcUa.ClientRuns

open StatusCodes Connections Servers ServiceTable Ledgers Waiting ClientLifecycles ClientAccounts
open ClientCalls (sendOpening sendRequest acceptOpening retrieveResponse)

variable {b : Build} {w w' w'' : World} {status : StatusCode}

section Disconnecting

/-- A session that the client has asked to close is closed, or nothing has become of it and the client goes on or is
in error. -/
structure Closes (w w' : World) : Prop where
  kept : Kept w w'
  state : w'.client.state = w.client.state ∨ w'.client.state = .errored
  confirmed : w'.ended ≠ w.ended → w'.activated = false
  otherwise : w'.ended = w.ended → w'.activated = w.activated ∧
    (w'.client.state = w.client.state ∧ StaysOpen w w' ∨ w'.client.state = .errored)

theorem closeSession_spec (h : Accounted w) : Ends (closeSession b) w Accounted (fun status w' =>
    Closes w w' ∧ (status = good → w'.ended = w.ended + 1 ∧ w'.activated = false)) := by
  rw [closeSession]
  refine Ends.bind (clientService_spec h _) ?_
  intro answer w' hserves
  refine Ends.bind (R := fun _ x => Closes w x ∧
    (resultOf answer = good → x.ended = w.ended + 1 ∧ x.activated = false)) ?_ (fun _ _ hx => hx)
  rw [ends_onlyIf_iff]
  constructor
  · intro _
    have hended : w'.ended + 1 = w.ended + 1 := congrArg (· + 1) hserves.exchanges.ended
    refine ⟨⟨⟨?_, hserves.exchanges.stage⟩, hserves.state, fun _ => rfl, fun hsame => ?_⟩, fun _ => ⟨hended, rfl⟩⟩
    · exact hserves.exchanges.accounted.congr rfl rfl rfl rfl rfl hserves.exchanges.accounted.socket
    · exact absurd (hended.symm.trans hsame) (Nat.succ_ne_self _)
  · intro hbad
    exact ⟨⟨hserves.exchanges.kept, hserves.state, fun hne => absurd hserves.exchanges.ended hne, fun _ =>
       ⟨hserves.exchanges.activated, hserves.outcome⟩⟩, fun hgood => absurd hgood hbad⟩

theorem disconnect_spec (h : Accounted w) : Ends (disconnect b) w Accounted (fun _ w' =>
    (w.client.connectionState = .established → Closes w w') ∧ (w.client.connectionState ≠ .established → w' = w)) := by
  rw [disconnect, ends_get_bind_iff]
  split
  · rename_i hestablished
    refine Ends.bind (closeSession_spec h) ?_
    rintro retval w' ⟨hcloses, hconfirmed⟩
    split
    · rename_i hgood
      obtain ⟨hended, hactivated⟩ := hconfirmed hgood
      refine (transmit_spec sends_sendOpening hcloses.kept.1).imp ?_
      rintro status w'' ⟨⟨hexchanges, hstate⟩, _⟩
      refine ⟨fun _ => ⟨hcloses.kept.trans hexchanges.kept, hcloses.state.imp hstate.trans hstate.trans,
        fun _ => hexchanges.activated.trans hactivated, fun hsame => ?_⟩, fun hne => absurd hestablished hne⟩
      rw [hexchanges.ended, hended] at hsame
      exact absurd hsame (Nat.succ_ne_self _)
    · exact ⟨fun _ => hcloses, fun hne => absurd hestablished hne⟩
  · rename_i hne
    exact ⟨fun hestablished => absurd hestablished hne, fun _ => rfl⟩

theorem disconnect_kept (h : Accounted w) : Ends (disconnect b) w Accounted (fun _ w' => Kept w w') :=
  (disconnect_spec h).imp (fun _ _ hw' => by
    by_cases hestablished : w.client.connectionState = .established
    · exact (hw'.1 hestablished).kept
    · rw [hw'.2 hestablished]
      exact ⟨h, rfl⟩)

theorem kept_withClient (h : Accounted w) {c : Client} (hconnection : c.connectionState = w.client.connectionState)
    (hsockfd : c.sockfd = w.client.sockfd) : Kept w { w with client := c } :=
  (exchanges_withClient h hconnection hsockfd : Exchanges w (withClient w c w.script)).kept

theorem deleteMembers_spec (h : Accounted w) : Ends (deleteMembers b) w Accounted (fun _ w' =>
    Kept w w' ∧ w'.client.connectionState = .closed) := by
  rw [deleteMembers]
  refine Ends.bind (disconnect_kept h) ?_
  intro _ w' hkept
  refine Ends.bind (setClient_spec (Q := fun _ x => Kept w x) (hkept.trans (kept_withClient hkept.1 rfl rfl))) ?_
  intro _ x hx
  refine Ends.bind (R := fun _ y => Kept w y ∧ y.client.connectionState = .closed) ?_ ?_
  · by_cases hclosed : x.client.connectionState = .closed
    · exact clientClose_closed hclosed ⟨hx, hclosed⟩
    · exact clientClose_open hclosed ⟨⟨accounted_socketClosed hx.1 hclosed, hx.2⟩, rfl⟩
  · rintro _ y ⟨hy, hclosed⟩
    exact ⟨hy.trans (kept_withClient hy.1 rfl rfl), hclosed⟩

/-- The client is as `UA_Client_init` leaves it. -/
def Fresh (w : World) : Prop := w.client = .init w.client.config

theorem Fresh.closed (h : Fresh w) : w.client.connectionState = .closed := congrArg (·.connectionState) h

theorem Fresh.ready (h : Fresh w) : w.client.state = .ready := congrArg (·.state) h

theorem reset_spec (h : Accounted w) : Ends (reset b) w Accounted (fun _ w' => Kept w w' ∧ Fresh w') := by
  rw [reset]
  refine Ends.bind (deleteMembers_spec h) ?_
  rintro _ w' ⟨hkept, hclosed⟩
  refine ⟨⟨hkept.1.congr rfl rfl rfl rfl ?_ (fun hne => absurd rfl hne), hkept.2⟩, rfl⟩
  rw [held_closed hclosed]
  exact held_closed rfl

end Disconnecting

section Calls

/-- The world after `socket`. -/
def socketOpened (w : World) : World :=
  { w with opened := w.opened + 1, client := { w.client with sockfd := some w.opened } }

theorem ends_openSocket_bind_iff {β : Type} {W : World → Prop} {T : β → World → Prop} {g : PUnit → Run β} :
    Ends (openSocket >>= g) w W T ↔ Ends (g ⟨⟩) (socketOpened w) W T := Iff.rfl

theorem not_held_opened (h : Accounted w) : w.opened ∉ w.unresolved ∧ w.opened ∉ w.broken := by
  constructor
  · exact fun hmem => absurd (h.lt_opened (List.mem_append_right _ hmem)) (lt_irrefl _)
  · exact fun hmem => absurd (h.given _ hmem) (lt_irrefl _)

theorem accounted_unresolved (h : Accounted w) (hclosed : w.client.connectionState = .closed) :
    Accounted { socketOpened w with unresolved := w.opened :: w.unresolved } where
  balance := by
    have hbalance := h.balance
    rw [held_closed hclosed, List.nil_append] at hbalance
    rw [held_closed (w := { socketOpened w with unresolved := _ }) hclosed, List.nil_append]
    change (blocksOf w.closings ++ w.opened :: w.unresolved).Perm (List.range (w.opened + 1) ++ w.broken)
    rw [List.range_succ, List.append_assoc, List.singleton_append]
    exact List.perm_middle.trans ((hbalance.cons _).trans List.perm_middle.symm)
  own := h.own
  apart := by
    rw [held_closed (w := { socketOpened w with unresolved := _ }) hclosed]
    intro fd hmem
    refine ⟨List.not_mem_nil, ?_⟩
    rcases List.mem_cons.mp hmem with rfl | hmem
    · exact (not_held_opened h).2
    · exact (h.apart fd hmem).2
  given := fun fd hmem => Nat.lt_succ_of_lt (h.given fd hmem)
  socket := fun hne => absurd hclosed hne

def socketOpening (w : World) : World :=
  { socketOpened w with client := (socketOpened w).client.setConnectionState .opening }

theorem accounted_socketOpening (h : Accounted w) (hclosed : w.client.connectionState = .closed) :
    Accounted (socketOpening w) where
  balance := by
    have hbalance := h.balance
    rw [held_closed hclosed, List.nil_append] at hbalance
    change (blocksOf w.closings ++ ([w.opened] ++ w.unresolved)).Perm (List.range (w.opened + 1) ++ w.broken)
    rw [List.range_succ, List.append_assoc, List.singleton_append, List.singleton_append]
    exact List.perm_middle.trans ((hbalance.cons _).trans List.perm_middle.symm)
  own := h.own
  apart := by
    change ∀ fd ∈ w.unresolved, fd ∉ [w.opened] ∧ fd ∉ w.broken
    intro fd hmem
    refine ⟨fun hheld => ?_, (h.apart fd hmem).2⟩
    rw [List.mem_singleton.mp hheld] at hmem
    exact (not_held_opened h).1 hmem
  given := fun fd hmem => Nat.lt_succ_of_lt (h.given fd hmem)
  socket := fun _ => rfl

theorem clientConnect_spec (h : Accounted w) (hclosed : w.client.connectionState = .closed) (attempt : Attempt) :
    Ends (clientConnect attempt) w Accounted (fun _ w' => Kept w w') := by
  rw [clientConnect]
  refine Ends.bind (setClient_spec (Q := fun _ x => Kept w x ∧ x.client.connectionState = .closed) ⟨⟨?_, rfl⟩, rfl⟩) ?_
  · refine h.congr rfl rfl rfl rfl ?_ (fun hne => absurd rfl hne)
    rw [held_closed hclosed]
    exact held_closed rfl
  · rintro _ x ⟨hx, hclosed⟩
    have hopening := accounted_socketOpening hx.1 hclosed
    split
    · exact hx
    · split
      · exact hx
      · rw [ends_openSocket_bind_iff]
        exact ⟨accounted_unresolved hx.1 hclosed, hx.2⟩
      · rw [ends_openSocket_bind_iff, ends_setClient_bind_iff]
        exact clientClose_open opening_ne_closed ⟨accounted_socketClosed hopening opening_ne_closed, hx.2⟩
      · rw [ends_openSocket_bind_iff]
        exact ⟨hopening, hx.2⟩

theorem cleanup_spec (h : Accounted w) (status : StatusCode) :
    Ends (cleanup b status) w Accounted (fun status' w' => Kept w w' ∧ Fresh w' ∧ status' = status) := by
  rw [cleanup]
  refine Ends.bind (setClient_spec (Q := fun _ x => Kept w x) (kept_withClient h rfl rfl)) ?_
  intro _ x hx
  refine Ends.bind (reset_spec hx.1) ?_
  rintro _ y ⟨hy, hfresh⟩
  exact ⟨hx.trans hy, hfresh, rfl⟩

/-- A client that connects is connected with a session, or as it was created. -/
structure Connects (w : World) (status : StatusCode) (w' : World) : Prop where
  kept : Kept w w'
  outcome :
    status = good ∧ w'.client.state = .connected ∧ w'.client.connectionState = .established ∧ w'.activated = true ∨
      status ≠ good ∧ Fresh w'

theorem connect_spec (h : Accounted w) (hready : w.client.state = .ready → Fresh w) (attempt : Attempt) :
    Ends (connect b attempt) w Accounted (fun status w' =>
      (w.client.state = .connected → status = good ∧ w' = w) ∧
        (w.client.state ≠ .connected → Connects w status w')) := by
  rw [connect, ends_get_bind_iff]
  split
  · rename_i hconnected
    exact ⟨fun _ => ⟨rfl, rfl⟩, fun hne => absurd hconnected hne⟩
  · rename_i hne
    rw [ends_get_bind_iff]
    refine Ends.bind (R := fun _ x => Kept w x ∧ x.client.connectionState = .closed) ?_ ?_
    · rw [ends_onlyIf_iff]
      constructor
      · intro _
        exact (reset_spec h).imp (fun _ _ hx => ⟨hx.1, hx.2.closed⟩)
      · intro hnot
        refine ⟨⟨h, rfl⟩, (hready ?_).closed⟩
        cases hstate : w.client.state with
        | ready => rfl
        | connected => exact absurd hstate hne
        | errored => exact absurd hstate hnot
    · rintro _ x ⟨hx, hclosed⟩
      refine Ends.bind (clientConnect_spec hx.1 hclosed attempt) ?_
      intro _ y hy
      have hkept := hx.trans hy
      have hcleanup {z : World} {status : StatusCode} (hz : Kept w z) (hbad : status ≠ good) :
          Ends (cleanup b status) z Accounted (fun status' w' =>
            (w.client.state = .connected → status' = good ∧ w' = w) ∧
              (w.client.state ≠ .connected → Connects w status' w')) := by
        refine (cleanup_spec hz.1 status).imp ?_
        rintro _ w' ⟨hw', hfresh, rfl⟩
        exact ⟨fun hconnected => absurd hconnected hne, fun _ => ⟨hz.trans hw', .inr ⟨hbad, hfresh⟩⟩⟩
      rw [ends_get_bind_iff]
      split
      · exact hcleanup hkept closed_ne_good
      · rename_i hopening
        split
        · exact hcleanup hkept (by decide)
        · refine Ends.bind (setClient_spec (Q := fun _ z => Kept w z ∧ z.client.connectionState = .opening)
            ⟨hkept.trans (kept_withClient hy.1 rfl rfl), not_not.mp hopening⟩) ?_
          rintro _ z ⟨hz, hopening⟩
          refine Ends.bind (setClient_spec (Q := fun _ z => Kept w z ∧ z.client.connectionState = .opening)
            ⟨hz.trans (kept_withClient hz.1 rfl rfl), hopening⟩) ?_
          rintro _ z ⟨hz, hopening⟩
          refine Ends.bind (handshakes_spec hz.1 hopening) ?_
          rintro retval z' ⟨hgoes, hactivated⟩
          have hz' : Kept w z' := hz.trans ⟨hgoes.accounted, hgoes.stage⟩
          split
          · rename_i hgood
            refine Ends.bind (setClient_spec (Q := fun _ u => Kept w u ∧ u.client.connectionState = .established ∧
              u.activated = true) ⟨hz'.trans (kept_withClient hz'.1 (hgoes.established hgood).symm rfl), rfl,
                hactivated hgood⟩) ?_
            rintro _ u ⟨hu, hestablished, hactive⟩
            refine ⟨fun hconnected => absurd hconnected hne, fun _ => ⟨hu.trans (kept_withClient hu.1 rfl rfl), ?_⟩⟩
            exact .inl ⟨hgood, rfl, hestablished, hactive⟩
          · rename_i hbad
            exact hcleanup hz' hbad

end Calls

section Runs

open Loops hiding Ends

variable {call : Call}

def Performs (w : World) : Event → World → Prop
  | .connect _, w' =>
      ∃ status, (w.client.state = .connected → w' = w) ∧ (w.client.state ≠ .connected → Connects w status w')
  | .service _, w' => ∃ status, Serves w status w'
  | .renew, w' => Talks w w' ∧ (w.client.connectionState ≠ .established → w'.client = w.client)
  | .disconnect, w' =>
      (w.client.connectionState = .established → Closes w w') ∧ (w.client.connectionState ≠ .established → w' = w)
  | .reset, w' => Kept w w' ∧ Fresh w'
  | .delete, w' => w'.stage = .deleted ∧ Accounted w' ∧ w'.client.connectionState = .closed

theorem perform_spec (h : Accounted w) (hready : w.client.state = .ready → Fresh w) (e : Event) :
    Ends (perform b e) w Accounted (fun _ w' => Performs w e w') := by
  cases e with
  | connect attempt =>
      rw [perform]
      refine Ends.bind (connect_spec h hready attempt) ?_
      rintro status w' ⟨hsame, hconnects⟩
      exact ⟨status, fun hconnected => (hsame hconnected).2, hconnects⟩
  | service responseType =>
      rw [perform]
      refine Ends.bind (clientService_spec h responseType) ?_
      exact fun answer w' hserves => ⟨resultOf answer, hserves⟩
  | renew =>
      rw [perform]
      refine Ends.bind (secureChannelHandshake_spec h true) ?_
      rintro status w' ⟨htalks, _, hsame⟩
      exact ⟨htalks, hsame⟩
  | disconnect =>
      rw [perform]
      exact Ends.bind (disconnect_spec h) (fun _ _ hw' => hw')
  | reset => exact reset_spec h
  | delete =>
      rw [perform, delete, ends_get_bind_iff]
      refine Ends.bind (R := fun _ x => Accounted x ∧ x.client.connectionState = .closed) ?_ ?_
      · rw [ends_onlyIf_iff]
        constructor
        · exact fun _ => (deleteMembers_spec h).imp (fun _ _ hx => ⟨hx.1.1, hx.2⟩)
        · exact fun hstate => ⟨h, (hready (not_not.mp hstate)).closed⟩
      · rintro _ x ⟨hx, hclosed⟩
        exact ⟨rfl, hx.congr rfl rfl rfl rfl rfl hx.socket, hclosed⟩

structure Orderly (w : World) : Prop where
  accounted : Accounted w
  ready : w.stage = .idle → w.client.state = .ready → Fresh w
  deleted : w.stage = .deleted → w.client.connectionState = .closed

def given (w : World) (script : Script) : World := { w with script := script }

theorem step_cases (b : Build) (h : Orderly w) (call : Call) :
    w.stage ≠ .idle ∧ step b w call = w ∨
      w.stage = .idle ∧ (step b w call).stage = .waiting ∧ Accounted (step b w call) ∨
      w.stage = .idle ∧ Performs (given w call.script) call.event (step b w call) := by
  rw [step]
  split
  · rename_i hstage
    exact .inl ⟨by rw [hstage]; decide, rfl⟩
  · rename_i hstage
    exact .inl ⟨by rw [hstage]; decide, rfl⟩
  · rename_i hidle
    have hgiven : Accounted (given w call.script) := h.accounted.congr rfl rfl rfl rfl rfl h.accounted.socket
    have hends := perform_spec (b := b) hgiven (h.ready hidle) call.event
    rw [Ends] at hends
    split
    · rename_i result w' hexec
      rw [given, hexec] at hends
      exact .inr (.inr ⟨hidle, hends⟩)
    · rename_i w' hexec
      rw [given, hexec] at hends
      exact .inr (.inl ⟨hidle, rfl, hends.congr rfl rfl rfl rfl rfl hends.socket⟩)

theorem orderly_waiting (h : Accounted w) (hstage : w.stage = .waiting) : Orderly w where
  accounted := h
  ready := fun hidle => by
    rw [hstage] at hidle
    cases hidle
  deleted := fun hdeleted => by
    rw [hstage] at hdeleted
    cases hdeleted

theorem orderly_idle (h : Accounted w) (hidle : w.stage = .idle) (hready : w.client.state = .ready → Fresh w) :
    Orderly w where
  accounted := h
  ready := fun _ => hready
  deleted := fun hdeleted => by
    rw [hidle] at hdeleted
    cases hdeleted

theorem Performs.orderly {e : Event} (h : Accounted w) (hidle : w.stage = .idle)
    (hready : w.client.state = .ready → Fresh w) (hperforms : Performs w e w') : Orderly w' := by
  cases e with
  | connect attempt =>
      obtain ⟨status, hsame, hconnects⟩ := hperforms
      by_cases hconnected : w.client.state = .connected
      · rw [hsame hconnected]
        exact orderly_idle h hidle hready
      · obtain ⟨hkept, houtcome⟩ := hconnects hconnected
        refine orderly_idle hkept.1 (hkept.2.trans hidle) (fun hstate => ?_)
        rcases houtcome with ⟨_, hconnected', _⟩ | ⟨_, hfresh⟩
        · rw [hconnected'] at hstate
          cases hstate
        · exact hfresh
  | service responseType =>
      obtain ⟨status, hserves⟩ := hperforms
      refine orderly_idle hserves.exchanges.accounted (hserves.exchanges.stage.trans hidle) (fun hstate => ?_)
      rcases hserves.outcome with ⟨hsame, hstays⟩ | herrored
      · exact absurd (hready (hsame.symm.trans hstate)).closed hstays.2
      · rw [herrored] at hstate
        cases hstate
  | renew =>
      obtain ⟨⟨hexchanges, hsame⟩, hclient⟩ := hperforms
      refine orderly_idle hexchanges.accounted (hexchanges.stage.trans hidle) (fun hstate => ?_)
      have hfresh := hready (hsame.symm.trans hstate)
      have hw' : w'.client = w.client := hclient (fun hestablished => by
        rw [hfresh.closed] at hestablished
        cases hestablished)
      rw [Fresh, hw']
      exact hfresh
  | disconnect =>
      obtain ⟨hcloses, hsame⟩ := hperforms
      by_cases hestablished : w.client.connectionState = .established
      · have hw' := hcloses hestablished
        refine orderly_idle hw'.kept.1 (hw'.kept.2.trans hidle) (fun hstate => ?_)
        rcases hw'.state with hkept | herrored
        · rw [(hready (hkept.symm.trans hstate)).closed] at hestablished
          cases hestablished
        · rw [herrored] at hstate
          cases hstate
      · rw [hsame hestablished]
        exact orderly_idle h hidle hready
  | reset =>
      obtain ⟨hkept, hfresh⟩ := hperforms
      exact orderly_idle hkept.1 (hkept.2.trans hidle) (fun _ => hfresh)
  | delete =>
      obtain ⟨hdeleted, haccounted, hclosed⟩ := hperforms
      refine ⟨haccounted, fun hidle' => ?_, fun _ => hclosed⟩
      rw [hdeleted] at hidle'
      cases hidle'

theorem step_orderly (b : Build) (h : Orderly w) (call : Call) : Orderly (step b w call) := by
  rcases step_cases b h call with ⟨_, hsame⟩ | ⟨_, hstage, haccounted⟩ | ⟨hidle, hperforms⟩
  · rw [hsame]
    exact h
  · exact orderly_waiting haccounted hstage
  · have hgiven : Accounted (given w call.script) := h.accounted.congr rfl rfl rfl rfl rfl h.accounted.socket
    exact hperforms.orderly hgiven hidle (h.ready hidle)

theorem orderly_new (config : ClientConfig) : Orderly (new config) where
  accounted :=
    ⟨.refl _, List.not_mem_nil, List.forall_mem_nil _, List.forall_mem_nil _, fun hne => absurd rfl hne⟩
  ready := fun _ _ => rfl
  deleted := fun hdeleted => by cases hdeleted

theorem orderly_run (b : Build) (h : Orderly w) (calls : List Call) : Orderly (run (step b) w calls) := by
  induction calls generalizing w with
  | nil => exact h
  | cons call calls ih => exact ih (step_orderly b h call)

/-- Every descriptor that was given out is in use or has been closed once, and
nothing else has been closed. -/
def Sound (w : World) : Prop := Ledgers.Balanced 0 [] w.opened w.closings (held w) 0

theorem sound_iff (h : Accounted w) : Sound w ↔ w.unresolved = [] ∧ w.broken = [] := by
  have hsound : Sound w ↔ (blocksOf w.closings ++ held w).Perm (List.range w.opened) := by
    rw [Sound, Ledgers.Balanced, List.range_eq_range']
    constructor
    · rintro ⟨_, new, hlog, hperm, _⟩
      rw [List.append_nil] at hlog
      rw [hlog]
      exact hperm
    · exact fun hperm => ⟨Nat.zero_le _, w.closings, (List.append_nil _).symm, hperm, List.count_eq_zero.mpr h.own⟩
  have hbalance := h.balance
  rw [← List.append_assoc] at hbalance
  rw [hsound]
  constructor
  · intro hperm
    -- the descriptors that leak are those that are closed twice, and there are none of both kinds
    have hsame : w.unresolved.Perm w.broken :=
      (List.perm_append_left_iff _).mp ((hperm.append_right w.unresolved).symm.trans hbalance)
    have hnone : w.unresolved = [] :=
      List.eq_nil_iff_forall_not_mem.mpr (fun fd hfd => (h.apart fd hfd).2 (hsame.subset hfd))
    rw [hnone] at hsame
    exact ⟨hnone, hsame.symm.eq_nil⟩
  · rintro ⟨hunresolved, hbroken⟩
    rw [hunresolved, hbroken, List.append_nil, List.append_nil] at hbalance
    exact hbalance

/-- The run of the calls of a client from its creation on. -/
def lifetime (b : Build) (config : ClientConfig) (calls : List Call) : World := run (step b) (new config) calls

/-- In every run from the creation of a client on, the descriptors are closed
as they should be exactly as long as no name lookup fails once there is a
socket, and no message breaks off. Only its own descriptors are ever closed, and
a client that is deleted keeps none. -/
theorem descriptors_closed_once_iff (b : Build) (config : ClientConfig) (calls : List Call) :
    let w := lifetime b config calls
    (Sound w ↔ w.unresolved = [] ∧ w.broken = []) ∧
      (∀ r ∈ w.closings, ∃ fd < w.opened, r = .block fd) ∧
      (w.stage = .deleted → held w = []) := by
  intro w
  have horderly : Orderly w := orderly_run b (orderly_new config) calls
  refine ⟨sound_iff horderly.accounted, fun r hr => ?_, fun hdeleted => held_closed (horderly.deleted hdeleted)⟩
  cases r with
  | unset => exact absurd hr horderly.accounted.own
  | block fd =>
      have hfd : fd ∈ blocksOf w.closings := List.mem_filterMap.mpr ⟨_, hr, rfl⟩
      rcases List.mem_append.mp (horderly.accounted.balance.subset (List.mem_append_left _ hfd)) with hrange | hbroken
      · exact ⟨fd, List.mem_range.mp hrange, rfl⟩
      · exact ⟨fd, horderly.accounted.given fd hbroken, rfl⟩

/-- A client that takes itself for connected is, and has a session. -/
def Truthful (w : World) : Prop :=
  w.stage = .idle → w.client.state = .connected → w.client.connectionState = .established ∧ w.activated = true

/-- A renewal in which the connection breaks off, or a disconnecting that the
server confirms, and the client still takes itself for connected. -/
def Misleads (b : Build) (w : World) (call : Call) : Prop :=
  (step b w call).stage = .idle ∧ (step b w call).client.state = .connected ∧
    (call.event = .renew ∧ breaks w < breaks (step b w call) ∨
      call.event = .disconnect ∧ (step b w call).ended ≠ w.ended)

theorem not_misleads {e : Event} (hrenew : e ≠ .renew) (hdisconnect : e ≠ .disconnect) :
    ¬ (w'.stage = .idle ∧ w'.client.state = .connected ∧
      (e = .renew ∧ breaks w < breaks w' ∨ e = .disconnect ∧ w'.ended ≠ w.ended)) := by
  rintro ⟨_, _, ⟨heq, _⟩ | ⟨heq, _⟩⟩
  · exact hrenew heq
  · exact hdisconnect heq

theorem truthful_of_serves (hserves : Serves w status w') (hidle : w.stage = .idle) (h : Truthful w) : Truthful w' := by
  intro _ hconnected
  rcases hserves.outcome with ⟨hsame, hstays⟩ | herrored
  · obtain ⟨hestablished, hactivated⟩ := h hidle (hsame.symm.trans hconnected)
    exact ⟨hstays.1.trans hestablished, hserves.exchanges.activated.trans hactivated⟩
  · rw [herrored] at hconnected
    cases hconnected

theorem truthful_iff_of_talks (htalks : Talks w w') (hidle : w.stage = .idle) (h : Truthful w) :
    Truthful w' ↔ ¬ (w'.stage = .idle ∧ w'.client.state = .connected ∧ breaks w < breaks w') := by
  obtain ⟨hexchanges, hsame⟩ := htalks
  rcases hexchanges.connection with ⟨hconnection, hbreaks⟩ | ⟨hclosed, hbreaks⟩
  · refine ⟨fun _ hmisleads => absurd hmisleads.2.2 (hbreaks ▸ lt_irrefl _), fun _ _ hconnected => ?_⟩
    obtain ⟨hestablished, hactivated⟩ := h hidle (hsame.symm.trans hconnected)
    exact ⟨hconnection.trans hestablished, hexchanges.activated.trans hactivated⟩
  · constructor
    · intro htruthful hmisleads
      have hestablished := (htruthful hmisleads.1 hmisleads.2.1).1
      rw [hclosed] at hestablished
      cases hestablished
    · exact fun hnot hidle' hconnected => absurd ⟨hidle', hconnected, hbreaks⟩ hnot

theorem Closes.truthful_iff (hcloses : Closes w w') (hidle : w.stage = .idle) (h : Truthful w) :
    Truthful w' ↔ ¬ (w'.stage = .idle ∧ w'.client.state = .connected ∧ w'.ended ≠ w.ended) := by
  by_cases hended : w'.ended = w.ended
  · refine ⟨fun _ hmisleads => hmisleads.2.2 hended, fun _ _ hconnected => ?_⟩
    obtain ⟨hactive, hsame, hstays⟩ | ⟨_, herrored⟩ := and_or_left.mp (hcloses.otherwise hended)
    · obtain ⟨hestablished, hactivated⟩ := h hidle (hsame.symm.trans hconnected)
      exact ⟨hstays.1.trans hestablished, hactive.trans hactivated⟩
    · rw [herrored] at hconnected
      cases hconnected
  · have hended' := hcloses.confirmed hended
    constructor
    · intro htruthful hmisleads
      have hactivated := (htruthful hmisleads.1 hmisleads.2.1).2
      rw [hended'] at hactivated
      cases hactivated
    · exact fun hnot hidle' hconnected => absurd ⟨hidle', hconnected, hended⟩ hnot

theorem Performs.truthful_iff {e : Event} (hidle : w.stage = .idle) (h : Truthful w) (hperforms : Performs w e w') :
    Truthful w' ↔ ¬ (w'.stage = .idle ∧ w'.client.state = .connected ∧
      (e = .renew ∧ breaks w < breaks w' ∨ e = .disconnect ∧ w'.ended ≠ w.ended)) := by
  cases e with
  | connect attempt =>
      refine iff_of_true ?_ (not_misleads (by simp) (by simp))
      obtain ⟨status, hsame, hconnects⟩ := hperforms
      by_cases hconnected : w.client.state = .connected
      · rw [hsame hconnected]
        exact h
      · rcases (hconnects hconnected).outcome with ⟨_, _, hsession⟩ | ⟨_, hfresh⟩
        · exact fun _ _ => hsession
        · intro _ hconnected'
          rw [hfresh.ready] at hconnected'
          cases hconnected'
  | service responseType =>
      obtain ⟨status, hserves⟩ := hperforms
      exact iff_of_true (truthful_of_serves hserves hidle h) (not_misleads (by simp) (by simp))
  | renew =>
      refine (truthful_iff_of_talks hperforms.1 hidle h).trans (not_congr ?_)
      simp only [true_and, reduceCtorEq, false_and, or_false]
  | disconnect =>
      have hmisleads : w'.ended ≠ w.ended ↔
          Event.disconnect = .renew ∧ breaks w < breaks w' ∨ Event.disconnect = .disconnect ∧ w'.ended ≠ w.ended := by
        simp only [true_and, reduceCtorEq, false_and, false_or]
      rw [← hmisleads]
      by_cases hestablished : w.client.connectionState = .established
      · exact (hperforms.1 hestablished).truthful_iff hidle h
      · rw [hperforms.2 hestablished]
        exact iff_of_true h (fun hmisleads => hmisleads.2.2 rfl)
  | reset =>
      refine iff_of_true (fun _ hconnected => ?_) (not_misleads (by simp) (by simp))
      rw [hperforms.2.ready] at hconnected
      cases hconnected
  | delete =>
      refine iff_of_true (fun hidle' => ?_) (not_misleads (by simp) (by simp))
      rw [hperforms.1] at hidle'
      cases hidle'

theorem step_truthful_iff (b : Build) (h : Orderly w) (htruthful : Truthful w) (call : Call) :
    Truthful (step b w call) ↔ ¬ Misleads b w call := by
  rw [Misleads]
  rcases step_cases b h call with ⟨hstage, hsame⟩ | ⟨_, hstage, _⟩ | ⟨hidle, hperforms⟩
  · rw [hsame]
    exact ⟨fun _ hmisleads => hstage hmisleads.1, fun _ => htruthful⟩
  · constructor
    · intro _ hmisleads
      rw [hstage] at hmisleads
      cases hmisleads.1
    · intro _ hidle
      rw [hstage] at hidle
      cases hidle
  · exact Performs.truthful_iff (w := given w call.script) hidle htruthful hperforms

/-- Whenever a client takes itself for connected, it has a connection and a
session, exactly if no renewal that its user asked for meets a break of the
connection and none of its sessions is closed by disconnecting. -/
theorem connected_truthful_iff (b : Build) (config : ClientConfig) (calls : List Call) :
    (∀ k, Truthful (lifetime b config (calls.take k))) ↔
      Throughout (step b) (fun w call => ¬ Misleads b w call) (new config) calls := by
  have hstep (w : World) (call : Call) (hw : Orderly w ∧ Truthful w) :
      Orderly (step b w call) ∧ Truthful (step b w call) ↔ ¬ Misleads b w call :=
    (and_iff_right (step_orderly b hw.1 call)).trans (step_truthful_iff b hw.1 hw.2 call)
  have hruns := always_iff_throughout hstep (new config) calls
  have htruthful : Truthful (new config) := fun _ hconnected => by cases hconnected
  rw [and_iff_right ⟨orderly_new config, htruthful⟩] at hruns
  rw [← hruns]
  exact forall_congr' (fun k => (and_iff_right (orderly_run b (orderly_new config) _)).symm)

def sampleResponse (length requestId typeId : UInt8) (body : List UInt8) : List UInt8 :=
  [77, 83, 71, 70, length, 0, 0, 0, 1, 0, 0, 0, 1, 0, 0, 0, 1, 0, 0, 0, requestId, 0, 0, 0, 1, 0, typeId, 1] ++
    [0, 0, 0, 0, 0, 0, 0, 0, 1, 0, 0, 0, 0, 0, 0, 0, 0, 255, 255, 255, 255, 0, 0, 0] ++ body

def sampleAcknowledge : List UInt8 :=
  [65, 67, 75, 70, 28, 0, 0, 0, 0, 0, 0, 0, 0, 0, 1, 0, 0, 0, 1, 0, 0, 0, 1, 0, 1, 0, 0, 0]

def sampleOpened : List UInt8 :=
  [79, 80, 78, 70, 88, 0, 0, 0, 1, 0, 0, 0] ++ List.replicate 12 255 ++ [1, 0, 0, 0, 1, 0, 0, 0, 1, 0, 193, 1] ++
    [0, 0, 0, 0, 0, 0, 0, 0, 1, 0, 0, 0, 0, 0, 0, 0, 0, 255, 255, 255, 255, 0, 0, 0] ++
    [0, 0, 0, 0, 1, 0, 0, 0, 1, 0, 0, 0, 0, 0, 0, 0, 0, 0, 0, 0, 48, 117, 0, 0, 255, 255, 255, 255]

def sampleEndpoints : List UInt8 :=
  [1, 0, 0, 0] ++ List.replicate 12 255 ++ [0, 0, 0, 0, 0] ++ List.replicate 16 255 ++ [1, 0, 0, 0, 47, 0, 0, 0] ++
    securityNone ++ [1, 0, 0, 0, 1, 0, 0, 0, 97, 0, 0, 0, 0] ++ List.replicate 16 255 ++ [0]

def sampleSession : List UInt8 := [0, 7, 0, 8, 0, 0, 0, 0, 0, 0, 0, 0] ++ List.replicate 24 255 ++ [0, 0, 0, 0]

def sampleArrival (bytes : List UInt8) : Arrival where
  status := good
  bytes := some bytes
  closes := false
  memory := .succeeds
  heap := []
  now := 1000
  closes_status := fun hcloses => absurd hcloses Bool.false_ne_true

/-- The url `opc.tcp://h:4840`. -/
def sampleAttempt : Attempt :=
  ⟨ServerUrls.scheme ++ [104, 58, 52, 56, 52, 48], false, fun _ _ => .connected, true⟩

def sampleCalls : List Call :=
  [⟨.connect sampleAttempt, [1001, 1002, 1003], [.sent, .sent, .sent, .sent, .sent],
    [sampleAcknowledge, sampleOpened, sampleResponse 174 2 175 sampleEndpoints, sampleResponse 92 3 208 sampleSession,
      sampleResponse 64 4 214 (List.replicate 12 255)].map sampleArrival⟩,
   ⟨.disconnect, [1004], [.sent, .sent], [sampleArrival (sampleResponse 52 5 220 [])]⟩]

/-- A client that has connected and disconnected takes itself for connected. -/
example :
    let w := lifetime standardBuild ⟨30000, 2000, standardConfig⟩ sampleCalls
    w.client.state = .connected ∧ w.activated = false ∧ w.ended = 1 := by
  decide +kernel

end Runs

end OpcUa.ClientRuns
