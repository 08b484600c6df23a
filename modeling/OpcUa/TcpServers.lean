import OpcUa.TcpRuns
import Mathlib.Data.Finset.Lattice.Fold

namespace OpcUa.TcpServers

open StatusCodes NodeIds Connections Heaps Readers Servers SecureChannels Sessions ServiceTable
open ServerLinks LinkedOperations HandlerSteps ChannelConnections ChannelTokens TokenChecks TcpLayers TcpRuns
open MessageHandlers hiding start

variable {b : Build} {x : MainLoop} {e : Event} {held : List Nat} {c : Nat} {h : Host} {s s' : Server}
  {jobs : List Job} {config : Config} {conf : ConnectionConfig} {serversockfd : Int}

section Deafness

/-- Whatever happens on the sockets, no connection is accepted and nothing is read. -/
def Deaf (h : Host) : Prop := ∀ p, getJobs p h = (h, [])

/-- A write fails on a connection that is mapped, or the layer is stopped. -/
def Deafens (x : MainLoop) (e : Event) : Prop :=
  (∃ c, e = .writeFails c ∧ (x.connections c).isSome = true ∧ c ∈ mapped x.host.layer) ∨
    ∃ itemsAllocated, e = .stop itemsAllocated ∧ x.idle = true

theorem not_listening_step (hx : ¬ Listening x.host) (e : Event) : ¬ Listening (step b x e).host := by
  have hshrinks : ∀ {h' : Host}, h'.layer = x.host.layer → h'.opened ⊆ x.host.opened → ¬ Listening h' := by
    intro h' hlayer hopened hlisten
    refine hx (fun fd hfd => hopened (hlisten fd ?_))
    rw [hlayer]
    exact hfd
  cases e with
  | poll p =>
      dsimp only [step]
      split
      · rw [getJobs_silent hx]
        exact hx
      · exact hx
  | cleanup now =>
      dsimp only [step]
      split
      · exact hx
      · exact hx
  | execute env heap =>
      obtain ⟨hlayer, hopened⟩ := execute_host (b := b) env heap x
      exact hshrinks hlayer (hopened ▸ List.Subset.refl _)
  | writeFails c => exact hshrinks (writeFails_layer x.host c) (writeFails_opened x.host c)
  | stop itemsAllocated =>
      dsimp only [step]
      split
      · cases itemsAllocated with
        | false => exact hshrinks (stop_refused x.host).2.1 (stop_refused x.host).2.2.1
        | true =>
            intro hlisten
            obtain ⟨_, hlayer, hclosed, _⟩ := stop_spec x.host
            refine hclosed (hlisten _ ?_)
            rw [hlayer]
            exact List.mem_cons_self
      · exact hx

theorem deafens_step (he : Deafens x e) : ¬ Listening (step b x e).host := by
  rcases he with ⟨c, rfl, hlive, hc⟩ | ⟨itemsAllocated, rfl, hidle⟩
  · intro hlisten
    obtain ⟨connection, hconnection⟩ := Option.isSome_iff_exists.mp hlive
    obtain ⟨m, hm, rfl⟩ := List.mem_map.mp hc
    have hfound : (x.host.layer.mappings.find? (·.connection == m.connection)).isSome = true :=
      List.find?_isSome.mpr ⟨m, hm, by simp⟩
    obtain ⟨m', hm'⟩ := Option.isSome_iff_exists.mp hfound
    have hfailed : writeFails x.host m.connection = socketClose x.host m' := by
      unfold writeFails
      rw [show x.host.server.connections m.connection = some connection from hconnection, hm']
    have hopen := hlisten m'.sockfd (by
      change m'.sockfd ∈ watched (writeFails x.host m.connection).layer
      rw [writeFails_layer]
      exact List.mem_cons_of_mem _ (List.mem_map_of_mem (List.mem_of_find?_eq_some hm')))
    change m'.sockfd ∈ (writeFails x.host m.connection).opened at hopen
    rw [hfailed] at hopen
    simp [socketClose] at hopen
  · dsimp only [step]
    rw [if_pos hidle]
    intro hlisten
    have hopen := hlisten x.host.layer.serversockfd
    cases itemsAllocated with
    | false =>
        have hmem := hopen List.mem_cons_self
        simp [TcpLayers.stop] at hmem
    | true =>
        obtain ⟨_, hlayer, hclosed, _⟩ := stop_spec x.host
        refine hclosed (hopen ?_)
        rw [hlayer]
        exact List.mem_cons_self

theorem listening_step (hx : Running x) (hlisten : Listening x.host) (he : ¬ Deafens x e) :
    Running (step b x e) ∧ Listening (step b x e).host := by
  have hkept : ¬ Releases x e := fun hreleases => he (.inr ⟨true, hreleases.1, hreleases.2.1⟩)
  refine ⟨running_step hx hkept, ?_⟩
  cases e with
  | poll p =>
      dsimp only [step]
      split
      · rename_i hidle
        have howned := hx.sound.owned
        rw [(idle_iff.mp hidle).1] at howned
        have hlayered : Layered x.host [] := ⟨howned, hx.nodup, hx.sockets⟩
        have hboth := getJobs_invariant (P := fun y => Layered y.host y.jobs ∧ Listening y.host) p x.host
          ⟨hlayered, hlisten⟩ (fun hopen => ⟨layered_accept hlayered hopen p, listening_accept hopen p⟩)
          (fun hy hm hreads => ⟨layered_reads hy.1 hm hreads, listening_reads hy.1 hy.2 hm hreads⟩)
        exact hboth.2
      · exact hlisten
  | cleanup now =>
      dsimp only [step]
      split
      · exact hlisten
      · exact hlisten
  | execute env heap =>
      obtain ⟨hlayer, hopened⟩ := execute_host (b := b) env heap x
      intro fd hfd
      change fd ∈ (execute b env heap x).host.opened
      rw [hopened]
      refine hlisten fd ?_
      rw [← hlayer]
      exact hfd
  | writeFails c =>
      have hsame : (writeFails x.host c).opened = x.host.opened := by
        unfold writeFails
        split
        · rfl
        · rfl
        · rename_i connection m hconnection hm
          refine absurd (.inl ⟨c, rfl, by rw [MainLoop.connections, hconnection]; rfl, ?_⟩) he
          have hc := List.find?_some hm
          rw [← eq_of_beq hc]
          exact List.mem_map_of_mem (List.mem_of_find?_eq_some hm)
      intro fd hfd
      change fd ∈ (writeFails x.host c).opened
      rw [hsame]
      refine hlisten fd ?_
      rw [← writeFails_layer x.host c]
      exact hfd
  | stop itemsAllocated =>
      dsimp only [step]
      split
      · rename_i hidle
        exact absurd (.inr ⟨itemsAllocated, rfl, hidle⟩) he
      · exact hlisten

theorem exists_descriptor (opened : List Int) : ∃ fd, 0 ≤ fd ∧ fd ∉ opened := by
  obtain ⟨n, hn⟩ := Infinite.exists_notMem_finset (opened.map Int.toNat).toFinset
  refine ⟨n, Int.natCast_nonneg n, fun hmem => hn ?_⟩
  exact List.mem_toFinset.mpr (List.mem_map.mpr ⟨n, hmem, Int.toNat_natCast n⟩)

theorem exists_place {connections : Heap Connection} (howned : Owned held connections jobs) :
    ∃ c, connections c = none := by
  obtain ⟨c, hc⟩ := Infinite.exists_notMem_finset (held ++ jobs.map Job.connection).toFinset
  refine ⟨c, Option.not_isSome_iff_eq_none.mp (fun hlive => hc ?_)⟩
  rw [List.mem_toFinset, List.mem_append]
  rcases (howned.live c).mp hlive with hheld | hjob
  · exact .inl hheld
  · exact .inr (List.mem_map.mpr ⟨_, hjob, rfl⟩)

theorem not_deaf (hx : Running x) (hlisten : Listening x.host) : ¬ Deaf x.host := by
  intro hdeaf
  obtain ⟨fd, hle, hfd⟩ := exists_descriptor x.host.opened
  obtain ⟨c, hc⟩ := exists_place hx.sound.owned
  have hpoll := hdeaf (accepting x.host.layer.serversockfd fd c)
  rcases getJobs_cases (accepting x.host.layer.serversockfd fd c) x.host with
    ⟨hfailed | hclosed, _⟩ | ⟨_, ready, h', resultsize, hready, hh', hjobs⟩
  · cases hfailed
  · exact hclosed hlisten
  · have hserver : x.host.layer.serversockfd ∈ ready := (hready _).mpr ⟨List.mem_cons_self, by simp [accepting]⟩
    rcases hh' with ⟨hnot, _⟩ | ⟨_, rfl⟩
    · exact hnot hserver
    rcases hjobs with hjobs | ⟨hallocated, _⟩
    · have hsame : acceptConnection (accepting x.host.layer.serversockfd fd c) x.host = x.host :=
        congrArg Prod.fst (hjobs.symm.trans hpoll)
      have hnone : x.host.server.connections c = none := hc
      have hgrown := congrArg (fun h => h.layer.mappings.length) hsame
      simp [acceptConnection, addConnection, accepting, Heap.allocate, Option.filter_some, hnone, hle, hfd] at hgrown
    · cases hallocated

theorem listening_boot : Listening (boot config conf serversockfd).host := by
  intro fd hfd
  simpa [boot, watched] using hfd

/-- The layer is deaf if and only if a write has failed on a connection that
was mapped, or the layer has been stopped. -/
theorem deaf_iff (b : Build) (config : Config) (conf : ConnectionConfig) (serversockfd : Int) (events : List Event) :
    Deaf (run b (boot config conf serversockfd) events).host ↔
      ∃ before e, before ++ [e] <+: events ∧ Deafens (run b (boot config conf serversockfd) before) e := by
  constructor
  · intro hdeaf
    by_contra hnone
    have hkept : Running (run b (boot config conf serversockfd) events) ∧
        Listening (run b (boot config conf serversockfd) events).host := by
      clear hdeaf
      induction events using List.reverseRecOn with
      | nil => exact ⟨running_boot, listening_boot⟩
      | append_singleton events e ih =>
          have hbefore : ¬ ∃ before e', before ++ [e'] <+: events ∧
              Deafens (run b (boot config conf serversockfd) before) e' := by
            rintro ⟨before, e', hinitial, he'⟩
            exact hnone ⟨before, e', hinitial.trans (List.prefix_append events [e]), he'⟩
          obtain ⟨hrunning, hlisten⟩ := ih hbefore
          rw [run_concat]
          exact listening_step hrunning hlisten (fun he => hnone ⟨events, e, List.prefix_rfl, he⟩)
    exact not_deaf hkept.1 hkept.2 hdeaf
  · rintro ⟨before, e, ⟨after, rfl⟩, he⟩
    have hclosed : ¬ Listening (run b (boot config conf serversockfd) (before ++ [e] ++ after)).host := by
      induction after using List.reverseRecOn with
      | nil =>
          rw [List.append_nil, run_concat]
          exact deafens_step he
      | append_singleton after e' ih =>
          rw [← List.append_assoc, run_concat]
          exact not_listening_step ih e'
    exact fun p => getJobs_silent hclosed p

end Deafness

section Composition

/-- The steps of the server that the main loop makes. -/
inductive Moves (b : Build) (x : MainLoop) (e : Event) : Server → Server → Prop
  | only {s s' : Server} (honly : OnlyConnections s s') : Moves b x e s s'
  | connect {s : Server} (c : Nat) (connection : Connection) :
      Moves b x e s (SessionGating.step b s (.connect c connection))
  | detach {s : Server} (c : Nat) : Moves b x e s (SessionGating.step b s (.detach c))
  | free {s : Server} (c : Nat) (hnone : connectionChannel s c = none) :
      Moves b x e s (SessionGating.step b s (.free c))
  | cleanup {s : Server} (now : DateTime) : Moves b x e s (SessionGating.step b s (.cleanup now))
  | message (c : Nat) (env : Environment) (heap : List Bool) (st : Dec) (he : e = .execute env heap)
      (hcurrent : x.current = some (c, st)) :
      Moves b x e x.server (SessionGating.step b x.server (.message c env st))

theorem accept_moves (p : Poll) (h : Host) : Moves b x e h.server (acceptConnection p h).server := by
  rcases acceptConnection_cases p h with hsame | ⟨fd, _, _, hopened | ⟨c, connection, hnone, hchannel, hadded⟩⟩
  · rw [hsame]
    exact .only (.refl _)
  · rw [hopened]
    exact .only (.refl _)
  · have hconnect : Moves b x e h.server (SessionGating.step b h.server (.connect c connection)) :=
      .connect c connection
    rw [SessionGating.step, SessionGating.connect, hnone] at hconnect
    rw [hadded]
    rwa [← hchannel] at hconnect

theorem step_invariant {P : Server → Prop} (hx : P x.server) (hdetached : Detached x)
    (hmoves : ∀ {s s'}, P s → Moves b x e s s' → P s') : P (step b x e).server := by
  cases e with
  | poll p =>
      dsimp only [step]
      split
      · refine getJobs_invariant (P := fun y => P y.host.server) p x.host hx ?_ ?_
        · exact fun _ => hmoves hx (accept_moves p x.host)
        · exact fun hy _ hreads => hmoves hy (.only (only_reads hreads))
      · exact hx
  | cleanup now =>
      dsimp only [step]
      split
      · exact hmoves hx (.cleanup now)
      · exact hx
  | writeFails c => exact hmoves hx (.only (onlyConnections_writeFails x.host c))
  | stop itemsAllocated =>
      dsimp only [step]
      split
      · cases itemsAllocated with
        | false => exact hx
        | true => exact hmoves hx (.only (stop_spec x.host).1)
      · exact hx
  | execute env heap =>
      change P (execute b env heap x).server
      unfold execute
      split
      · rename_i c st hcur
        exact hmoves hx (.message c env heap st rfl hcur)
      · exact hx
      · exact hmoves hx (.detach _)
      · exact hx
      · rename_i c jobs hcur hjobs
        refine hmoves hx (.free c ?_)
        rcases hdetached with hpaired | ⟨_, c', jobs', hjobs', _, hchannel⟩
        · rw [hjobs] at hpaired
          cases hpaired
        · obtain ⟨heq, _⟩ := List.cons.inj (hjobs.symm.trans hjobs')
          obtain rfl : c = c' := Job.freeConnection.inj heq
          exact hchannel

theorem listed_serverStep (hlinked : Linked s) (hlisted : Listed s) (e : SessionGating.Event) :
    Listed (SessionGating.step b s e) := by
  rcases step_cases hlinked e with hkeeps | ⟨c, env, request, _, hkeeps⟩
  · exact hkeeps.listed hlisted
  · exact hkeeps.listed (listed_openSecureChannel hlisted)

theorem linked_moves (h : Linked s ∧ Listed s) (hmoves : Moves b x e s s') : Linked s' ∧ Listed s' := by
  have hserver : ∀ e', Linked (SessionGating.step b s e') ∧ Listed (SessionGating.step b s e') := fun e' =>
    ⟨SessionGating.linked_step h.1 e', listed_serverStep h.1 h.2 e'⟩
  cases hmoves with
  | only honly => exact ⟨h.1.congr honly.links, honly.tokens.keeps.listed h.2⟩
  | connect c connection => exact hserver _
  | detach c => exact hserver _
  | free c hnone => exact hserver _
  | cleanup now => exact hserver _
  | message c env heap st he hcurrent => exact hserver _

theorem linked_run (events : List Event) :
    Linked (run b (boot config conf serversockfd) events).server ∧
      Listed (run b (boot config conf serversockfd) events).server := by
  induction events using List.reverseRecOn with
  | nil =>
      refine ⟨SessionGating.linked_newServer config, ?_⟩
      intro a y hy
      cases hy
  | append_singleton events e ih =>
      rw [run_concat]
      exact step_invariant ih (detached_run events) (fun h hmoves => linked_moves h hmoves)

def OpensOn (b : Build) (x : MainLoop) (e : Event) (c : Nat) : Prop :=
  ∃ env heap st request, e = .execute env heap ∧ x.current = some (c, st) ∧
    OpensWith b x.server (.message c env st) c env request ∧ Grants env x.server request

theorem orderly_of_not_message {e' : SessionGating.Event} (hmessage : ∀ c env st, e' ≠ .message c env st)
    (hfree : ∀ c, e' = .free c → connectionChannel s c = none) : Orderly b s e' := by
  refine ⟨?_, hfree⟩
  rintro c env request ⟨st, x, st', r, st'', rfl, _⟩
  exact absurd rfl (hmessage c env st)

theorem backed_moves (h : Linked s ∧ Backed s) (hopens : ∀ c, OpensOn b x e c → connectionChannel x.server c = none)
    (hmoves : Moves b x e s s') : Linked s' ∧ Backed s' := by
  have hserver : ∀ e', Orderly b s e' → Linked (SessionGating.step b s e') ∧ Backed (SessionGating.step b s e') :=
    fun e' horderly => ⟨SessionGating.linked_step h.1 e', backed_step h.1 h.2 horderly⟩
  cases hmoves with
  | only honly => exact ⟨h.1.congr honly.links, h.2.congr honly.ties⟩
  | connect c connection => exact hserver _ (orderly_of_not_message (by rintro _ _ _ ⟨⟩) (by rintro _ ⟨⟩))
  | detach c => exact hserver _ (orderly_of_not_message (by rintro _ _ _ ⟨⟩) (by rintro _ ⟨⟩))
  | free c hnone =>
      refine hserver _ (orderly_of_not_message (by rintro _ _ _ ⟨⟩) ?_)
      rintro c' ⟨⟩
      exact hnone
  | cleanup now => exact hserver _ (orderly_of_not_message (by rintro _ _ _ ⟨⟩) (by rintro _ ⟨⟩))
  | message c env heap st he hcurrent =>
      refine hserver _ ⟨?_, by rintro _ ⟨⟩⟩
      intro c' env' request hwith hgrants
      obtain ⟨st', y, st₁, r, st₂, hevent, _⟩ := id hwith
      obtain ⟨rfl, rfl, rfl⟩ := SessionGating.Event.message.inj hevent
      exact hopens c ⟨env, heap, st, request, he, hcurrent, hwith, hgrants⟩

/-- Over the network layer, channels and connections agree in every state of a
run if and only if no channel is opened on a connection that has one. -/
theorem channels_agree_iff_opened_once (b : Build) (config : Config) (conf : ConnectionConfig) (serversockfd : Int)
    (events : List Event) :
    (∀ before, before <+: events → Agreement (run b (boot config conf serversockfd) before).server) ↔
      ∀ before e c, before ++ [e] <+: events → OpensOn b (run b (boot config conf serversockfd) before) e c →
        connectionChannel (run b (boot config conf serversockfd) before).server c = none := by
  constructor
  · rintro hagree before e c hinitial ⟨env, heap, st, request, rfl, hcurrent, hwith, hgrants⟩
    have hlast := hagree (before ++ [.execute env heap]) hinitial
    rw [run_concat] at hlast
    have hserver : (step b (run b (boot config conf serversockfd) before) (.execute env heap)).server =
        SessionGating.step b (run b (boot config conf serversockfd) before).server (.message c env st) := by
      change (execute b env heap _).server = _
      unfold execute
      rw [hcurrent]
      rfl
    rw [hserver] at hlast
    have hkept : Linked (run b (boot config conf serversockfd) before).server ∧
        Listed (run b (boot config conf serversockfd) before).server := linked_run before
    obtain ⟨hlinked, hlisted⟩ := hkept
    exact (hlast.orderly hlinked hlisted).1 c env request hwith hgrants
  · intro hopens before hinitial
    have hbacked : Linked (run b (boot config conf serversockfd) before).server ∧
        Backed (run b (boot config conf serversockfd) before).server := by
      induction before using List.reverseRecOn with
      | nil =>
          refine ⟨SessionGating.linked_newServer config, ?_⟩
          intro a y c hy
          cases hy
      | append_singleton before e ih =>
          have hbefore := ih ((List.prefix_append before [e]).trans hinitial)
          rw [run_concat]
          exact step_invariant hbefore (detached_run before)
            (fun h hmoves => backed_moves h (fun c => hopens before e c hinitial) hmoves)
    exact hbacked.2.agreement hbacked.1

end Composition

end OpcUa.TcpServers
