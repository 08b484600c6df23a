import OpcUa.TcpLayers

namespace OpcUa.TcpRuns

open StatusCodes NodeIds Connections Heaps Readers Servers SecureChannels Sessions ServiceTable
open ServerLinks LinkedOperations HandlerSteps ChannelConnections ChannelTokens TokenChecks TcpLayers
open MessageHandlers hiding start

/-- The main loop with the jobs it still has to process. A message is processed
in passes; `current` is what is left of it. -/
structure MainLoop where
  host : Host
  jobs : List Job
  current : Option (Nat × Dec)

/-- The steps of the main loop. A message job starts with the heap for its
decoding, and each of its passes is a step. Writing to a connection can fail at
any time, and `stop` is called by the main loop or at its end. -/
inductive Event
  | poll (p : Poll)
  | cleanup (now : DateTime)
  | execute (env : Environment) (heap : List Bool)
  | writeFails (c : Nat)
  | stop (itemsAllocated : Bool)

namespace MainLoop

def server (x : MainLoop) : Server := x.host.server

def connections (x : MainLoop) : Heap Connection := x.host.server.connections

def idle (x : MainLoop) : Bool := x.jobs.isEmpty && x.current.isNone

def setServer (x : MainLoop) (s : Server) : MainLoop := { x with host := { x.host with server := s } }

end MainLoop

/-- `socket_write` closes the socket of the connection, and the mapping stays. -/
def writeFails (h : Host) (c : Nat) : Host :=
  match h.server.connections c, h.layer.mappings.find? (·.connection == c) with
  | none, _ => h
  | some _, none => { h with server := close h.server c }
  | some _, some m => socketClose h m

/-- The next step of `processJobs`. -/
def execute (b : Build) (env : Environment) (heap : List Bool) (x : MainLoop) : MainLoop :=
  match x.current, x.jobs with
  | some (c, st), _ =>
      let r := pass b env x.server c st
      { x.setServer r.server with current := if r.again then some (c, r.dec) else none }
  | none, [] => x
  | none, .detachConnection c :: jobs => { x.setServer (detachSecureChannel x.server c) with jobs := jobs }
  | none, .binaryMessage c message _ :: jobs =>
      { x with jobs := jobs, current := some (c, (MessageHandlers.start x.server message heap).2) }
  | none, .freeConnection c :: jobs =>
      { x.setServer { x.server with connections := x.connections.free c } with jobs := jobs }

/-- The network layer is asked for jobs, or the timers run, when the jobs of
the last call are done. -/
def step (b : Build) (x : MainLoop) : Event → MainLoop
  | .poll p => if x.idle then { x with host := (getJobs p x.host).1, jobs := (getJobs p x.host).2 } else x
  | .cleanup now => if x.idle then x.setServer (cleanupChannels (cleanupSessions x.server now) now) else x
  | .execute env heap => execute b env heap x
  | .writeFails c => { x with host := writeFails x.host c }
  | .stop itemsAllocated =>
      if x.idle then
        { x with host := (TcpLayers.stop itemsAllocated x.host).1, jobs := (TcpLayers.stop itemsAllocated x.host).2 }
      else x

def run (b : Build) (x : MainLoop) (events : List Event) : MainLoop := events.foldl (step b) x

def boot (config : Config) (conf : ConnectionConfig) (serversockfd : Int) : MainLoop :=
  ⟨⟨newServer config, ⟨serversockfd, conf, []⟩, [serversockfd]⟩, [], none⟩

/-- A new connection at this place, with this descriptor. -/
def accepting (serversockfd fd : Int) (c : Nat) : Poll where
  interrupted := false
  ready := (· == serversockfd)
  accepted := some fd
  newConnection := some c
  mappingsGrown := true
  jobsAllocated := false
  reading := fun _ => ⟨true, true, .again⟩
  memory := fun _ => .succeeds

variable {b : Build} {x x' : MainLoop} {e : Event} {events : List Event} {held : List Nat} {c : Nat} {h : Host}

theorem run_concat : run b x (events ++ [e]) = step b (run b x events) e := by
  rw [run, List.foldl_append]
  rfl

theorem idle_iff : x.idle = true ↔ x.jobs = [] ∧ x.current = none := by
  simp [MainLoop.idle]

section Ownership

/-- The held connections and those that wait to be freed are there, and the
message that is processed belongs to one of them. -/
structure Sound (held : List Nat) (x : MainLoop) : Prop where
  owned : Owned held x.connections x.jobs
  current : ∀ c st, x.current = some (c, st) → (x.connections c).isSome = true
  linked : Linked x.server

theorem onlyConnections_writeFails (h : Host) (c : Nat) : OnlyConnections h.server (writeFails h c).server := by
  unfold writeFails
  split
  · exact .refl _
  · exact onlyConnections_close
  · exact onlyConnections_close

theorem writeFails_layer (h : Host) (c : Nat) : (writeFails h c).layer = h.layer := by
  unfold writeFails
  split <;> rfl

theorem Sound.only {s : Server} (hx : Sound held x) (honly : OnlyConnections x.server s) :
    Sound held (x.setServer s) := by
  have hplaces := samePlaces_of_ties honly.ties
  refine ⟨hx.owned.congr hplaces, fun c st hc => ?_, hx.linked.congr honly.links⟩
  exact (hplaces c).trans (hx.current c st hc)

theorem sound_writeFails (hx : Sound held x) (c : Nat) : Sound held (step b x (.writeFails c)) := by
  have honly : Sound held (x.setServer (writeFails x.host c).server) := hx.only (onlyConnections_writeFails x.host c)
  exact ⟨honly.owned, honly.current, honly.linked⟩

theorem sound_cleanup (hx : Sound held x) (now : DateTime) : Sound held (step b x (.cleanup now)) := by
  dsimp only [step]
  split
  · have hplaces : SamePlaces x.server (cleanupChannels (cleanupSessions x.server now) now) := samePlaces_cleanup now
    refine ⟨hx.owned.congr hplaces, fun c st hc => ?_, ?_⟩
    · exact (hplaces c).trans (hx.current c st hc)
    · exact linked_cleanupChannels now (linked_cleanupSessions now hx.linked)
  · exact hx

theorem sound_execute (hx : Sound held x) (env : Environment) (heap : List Bool) :
    Sound held (execute b env heap x) := by
  obtain ⟨howned, hcurrent, hlinked⟩ := hx
  unfold execute
  split
  · rename_i c st hcur
    have hplaces : SamePlaces x.server (pass b env x.server c st).server := samePlaces_pass hlinked
    refine ⟨howned.congr hplaces, ?_, linked_pass hlinked⟩
    intro c' st' hc'
    dsimp only at hc'
    split at hc'
    · obtain ⟨rfl, rfl⟩ := Prod.mk.inj (Option.some.inj hc')
      exact (hplaces c).trans (hcurrent c st hcur)
    · cases hc'
  · exact ⟨howned, hcurrent, hlinked⟩
  · rename_i c jobs hcur hjobs
    rw [hjobs] at howned
    have hdone : Owned held x.connections jobs := howned.done (by simp)
    refine ⟨hdone.congr samePlaces_detach, ?_, linked_detachSecureChannel hlinked⟩
    intro c' st' hc'
    cases hcur.symm.trans hc'
  · rename_i c message realloced jobs hcur hjobs
    rw [hjobs] at howned
    refine ⟨howned.done (by simp), ?_, hlinked⟩
    intro c' st' hc'
    obtain ⟨rfl, rfl⟩ := Prod.mk.inj (Option.some.inj hc')
    exact howned.names _ List.mem_cons_self
  · rename_i c jobs hcur hjobs
    rw [hjobs] at howned
    refine ⟨howned.free, ?_, SessionGating.linked_free hlinked c⟩
    intro c' st' hc'
    cases hcur.symm.trans hc'

/-- What `poll` and `stop` hand to the main loop. -/
def handed (x : MainLoop) (r : Host × List Job) : MainLoop := { x with host := r.1, jobs := r.2 }

theorem sound_handed (hidle : x.idle = true) {held' : List Nat} {r : Host × List Job}
    (howned : Owned held' r.1.server.connections r.2) (hlinked : Linked r.1.server) :
    Sound held' (handed x r) := by
  refine ⟨howned, fun c st hc => ?_, hlinked⟩
  cases (idle_iff.mp hidle).2.symm.trans hc

theorem linked_accept (hlinked : Linked h.server) (p : Poll) : Linked (acceptConnection p h).server := by
  rcases acceptConnection_cases p h with hsame | ⟨fd, _, _, hopened | ⟨c, connection, hnone, hchannel, hadded⟩⟩
  · rw [hsame]
    exact hlinked
  · rw [hopened]
    exact hlinked
  · have hconnect := SessionGating.linked_connect hlinked c connection
    rw [SessionGating.connect, hnone] at hconnect
    rw [hadded]
    rwa [← hchannel] at hconnect

theorem only_reads {y z : Collected} {m : ConnectionMapping} {i : Nat} (hy : Reads y m i z) :
    OnlyConnections y.host.server z.host.server := by
  cases hy with
  | nothing => exact .refl _
  | kept honly => exact honly
  | message honly message realloced => exact honly
  | closing => exact onlyConnections_close

theorem linked_getJobs (hlinked : Linked h.server) (p : Poll) : Linked (getJobs p h).1.server := by
  refine getJobs_invariant (P := fun y => Linked y.host.server) p h hlinked ?_ ?_
  · exact fun _ => linked_accept hlinked p
  · exact fun hy _ hreads => hy.congr (only_reads hreads).links

theorem foldl_socketClose (mappings : List ConnectionMapping) (h : Host) :
    OnlyConnections h.server (mappings.foldl socketClose h).server ∧
      (mappings.foldl socketClose h).layer = h.layer ∧ (mappings.foldl socketClose h).opened ⊆ h.opened := by
  induction mappings generalizing h with
  | nil => exact ⟨.refl _, rfl, List.Subset.refl _⟩
  | cons m mappings ih =>
      obtain ⟨honly, hlayer, hopened⟩ := ih (socketClose h m)
      refine ⟨.trans onlyConnections_close honly, hlayer, ?_⟩
      exact List.Subset.trans hopened (List.filter_subset_self _)

theorem owned_releases {connections : Heap Connection} (l : List Nat) {jobs : List Job}
    (howned : Owned (l ++ held) connections jobs) (hnodup : (l ++ held).Nodup) :
    Owned held connections (jobs ++ l.flatMap (fun c => [.detachConnection c, .freeConnection c])) := by
  induction l generalizing jobs with
  | nil => simpa using howned
  | cons c l ih =>
      obtain ⟨hc, hnodup⟩ := List.nodup_cons.mp hnodup
      have hrest := ih (howned.close hc) hnodup
      rwa [List.append_assoc] at hrest

/-- `stop` closes every socket and hands over every mapped connection. -/
theorem stop_spec (h : Host) :
    OnlyConnections h.server (TcpLayers.stop true h).1.server ∧ (TcpLayers.stop true h).1.layer = h.layer ∧
      h.layer.serversockfd ∉ (TcpLayers.stop true h).1.opened ∧
      (TcpLayers.stop true h).2 = (mapped h.layer).flatMap (fun c => [.detachConnection c, .freeConnection c]) := by
  obtain ⟨honly, hlayer, hopened⟩ := foldl_socketClose h.layer.mappings
    { h with opened := h.opened.filter (· ≠ h.layer.serversockfd) }
  refine ⟨honly, hlayer, fun hmem => ?_, ?_⟩
  · have hfiltered := hopened hmem
    simp at hfiltered
  · simp [TcpLayers.stop, mapped, List.flatMap_map]

end Ownership

section Phases

theorem execute_host (env : Environment) (heap : List Bool) (x : MainLoop) :
    (execute b env heap x).host.layer = x.host.layer ∧ (execute b env heap x).host.opened = x.host.opened := by
  unfold execute
  split <;> exact ⟨rfl, rfl⟩

theorem writeFails_opened (h : Host) (c : Nat) : (writeFails h c).opened ⊆ h.opened := by
  unfold writeFails
  split
  · exact List.Subset.refl _
  · exact List.Subset.refl _
  · exact List.filter_subset_self _

/-- The layer has not given its connections back. -/
structure Running (x : MainLoop) : Prop where
  sound : Sound (mapped x.host.layer) x
  nodup : (mapped x.host.layer).Nodup
  sockets : (watched x.host.layer).Nodup

/-- The layer has given its connections back. Its mappings are still there. -/
structure Stopped (x : MainLoop) : Prop where
  sound : Sound [] x
  silent : x.host.layer.serversockfd ∉ x.host.opened

/-- The network layer is stopped while connections are mapped. -/
def Releases (x : MainLoop) (e : Event) : Prop :=
  e = .stop true ∧ x.idle = true ∧ x.host.layer.mappings ≠ []

theorem stop_refused (h : Host) : (TcpLayers.stop false h).1.server = h.server ∧
    (TcpLayers.stop false h).1.layer = h.layer ∧ (TcpLayers.stop false h).1.opened ⊆ h.opened ∧
    (TcpLayers.stop false h).2 = [] := ⟨rfl, rfl, List.filter_subset_self _, rfl⟩

/-- `stop` gives every held connection back. -/
theorem sound_stop (hx : Running x) (hidle : x.idle = true) : Sound [] (handed x (TcpLayers.stop true x.host)) := by
  obtain ⟨honly, hlayer, _, hjobs⟩ := stop_spec x.host
  have howned := hx.sound.owned
  rw [(idle_iff.mp hidle).1] at howned
  have hreleased : Owned [] x.connections
      ([] ++ (mapped x.host.layer).flatMap (fun c => [Job.detachConnection c, .freeConnection c])) :=
    owned_releases _ (by simpa using howned) (by simpa using hx.nodup)
  refine sound_handed hidle ?_ (hx.sound.linked.congr honly.links)
  rw [hjobs]
  exact hreleased.congr (samePlaces_of_ties honly.ties)

theorem running_step (hx : Running x) (hkept : ¬ Releases x e) : Running (step b x e) := by
  cases e with
  | poll p =>
      dsimp only [step]
      split
      · rename_i hidle
        have howned := hx.sound.owned
        rw [(idle_iff.mp hidle).1] at howned
        have hlayered : Layered (getJobs p x.host).1 (getJobs p x.host).2 :=
          layered_getJobs ⟨howned, hx.nodup, hx.sockets⟩ p
        exact ⟨sound_handed hidle hlayered.owned (linked_getJobs hx.sound.linked p), hlayered.nodup, hlayered.sockets⟩
      · exact hx
  | cleanup now =>
      have hsound : Sound _ (step b x (.cleanup now)) := sound_cleanup hx.sound now
      dsimp only [step] at hsound ⊢
      split
      · rename_i hidle
        rw [if_pos hidle] at hsound
        exact ⟨hsound, hx.nodup, hx.sockets⟩
      · exact hx
  | execute env heap =>
      have hlayer : (step b x (.execute env heap)).host.layer = x.host.layer := (execute_host env heap x).1
      have hsound : Sound _ (step b x (.execute env heap)) := sound_execute hx.sound env heap
      refine ⟨?_, ?_, ?_⟩ <;> rw [hlayer]
      · exact hsound
      · exact hx.nodup
      · exact hx.sockets
  | writeFails c =>
      have hlayer : (step b x (.writeFails c)).host.layer = x.host.layer := writeFails_layer x.host c
      have hsound : Sound _ (step b x (.writeFails c)) := sound_writeFails hx.sound c
      refine ⟨?_, ?_, ?_⟩ <;> rw [hlayer]
      · exact hsound
      · exact hx.nodup
      · exact hx.sockets
  | stop itemsAllocated =>
      dsimp only [step]
      split
      · rename_i hidle
        cases itemsAllocated with
        | false =>
            have howned := hx.sound.owned
            rw [(idle_iff.mp hidle).1] at howned
            exact ⟨sound_handed hidle howned hx.sound.linked, hx.nodup, hx.sockets⟩
        | true =>
            have hnone : x.host.layer.mappings = [] := by
              by_contra hne
              exact hkept ⟨rfl, hidle, hne⟩
            have hlayer : (TcpLayers.stop true x.host).1.layer = x.host.layer := (stop_spec x.host).2.1
            have hsound : Sound [] (handed x (TcpLayers.stop true x.host)) := sound_stop hx hidle
            have hmapped : mapped (TcpLayers.stop true x.host).1.layer = [] := by rw [hlayer, mapped, hnone]; rfl
            refine ⟨?_, ?_, ?_⟩
            · rw [hmapped]
              exact hsound
            · rw [hmapped]
              exact List.nodup_nil
            · rw [hlayer]
              exact hx.sockets
      · exact hx

theorem stopped_of_releases (hx : Running x) (he : Releases x e) : Stopped (step b x e) := by
  obtain ⟨rfl, hidle, _⟩ := he
  obtain ⟨_, hlayer, hclosed, _⟩ := stop_spec x.host
  dsimp only [step]
  rw [if_pos hidle]
  refine ⟨sound_stop hx hidle, ?_⟩
  rw [hlayer]
  exact hclosed

theorem getJobs_silent (hsilent : ¬ Listening h) (p : Poll) : getJobs p h = (h, []) := by
  rcases getJobs_cases p h with ⟨_, hfailed⟩ | ⟨hopen, _⟩
  · exact hfailed
  · exact absurd hopen hsilent

theorem Stopped.deaf (hx : Stopped x) : ¬ Listening x.host := fun hopen => hx.silent (hopen _ List.mem_cons_self)

theorem stopped_step (hx : Stopped x) (hkept : ¬ Releases x e) : Stopped (step b x e) := by
  cases e with
  | poll p =>
      dsimp only [step]
      split
      · rename_i hidle
        have hsame : handed x (getJobs p x.host) = x := by
          rw [handed, getJobs_silent hx.deaf, ← (idle_iff.mp hidle).1]
        have hkept : Stopped (handed x (getJobs p x.host)) := by rwa [hsame]
        exact hkept
      · exact hx
  | cleanup now =>
      have hsound : Sound _ (step b x (.cleanup now)) := sound_cleanup hx.sound now
      refine ⟨hsound, ?_⟩
      dsimp only [step]
      split
      · exact hx.silent
      · exact hx.silent
  | execute env heap =>
      obtain ⟨hlayer, hopened⟩ := execute_host (b := b) env heap x
      refine ⟨sound_execute hx.sound env heap, ?_⟩
      change (execute b env heap x).host.layer.serversockfd ∉ (execute b env heap x).host.opened
      rw [hlayer, hopened]
      exact hx.silent
  | writeFails c =>
      refine ⟨sound_writeFails hx.sound c, fun hmem => hx.silent ?_⟩
      have hbefore := writeFails_opened x.host c hmem
      rw [show (step b x (.writeFails c)).host.layer = x.host.layer from writeFails_layer x.host c] at hbefore
      exact hbefore
  | stop itemsAllocated =>
      dsimp only [step]
      split
      · rename_i hidle
        have howned := hx.sound.owned
        rw [(idle_iff.mp hidle).1] at howned
        cases itemsAllocated with
        | false =>
            refine ⟨sound_handed hidle howned hx.sound.linked, fun hmem => hx.silent ?_⟩
            exact List.mem_of_mem_filter hmem
        | true =>
            have hnone : x.host.layer.mappings = [] := by
              by_contra hne
              exact hkept ⟨rfl, hidle, hne⟩
            obtain ⟨honly, hlayer, hclosed, hjobs⟩ := stop_spec x.host
            have hno : (TcpLayers.stop true x.host).2 = [] := by rw [hjobs, mapped, hnone]; rfl
            refine ⟨sound_handed hidle ?_ (hx.sound.linked.congr honly.links), ?_⟩
            · rw [hno]
              exact howned.congr (samePlaces_of_ties honly.ties)
            · rw [hlayer]
              exact hclosed
      · exact hx

end Phases

variable {jobs : List Job} {config : Config} {conf : ConnectionConfig} {serversockfd : Int}

section Order

/-- A connection is freed right after it has been detached. -/
inductive Paired : List Job → Prop
  | nil : Paired []
  | message (c : Nat) (message : List UInt8) (realloced : Bool) {jobs : List Job} (h : Paired jobs) :
      Paired (.binaryMessage c message realloced :: jobs)
  | closing (c : Nat) {jobs : List Job} (h : Paired jobs) :
      Paired (.detachConnection c :: .freeConnection c :: jobs)

theorem Paired.append {jobs' : List Job} (h : Paired jobs) (h' : Paired jobs') : Paired (jobs ++ jobs') := by
  induction h with
  | nil => exact h'
  | message c message realloced _ ih => exact .message c message realloced ih
  | closing c _ ih => exact .closing c ih

/-- The jobs are paired, or the first of them has been detached already. -/
def Detached (x : MainLoop) : Prop :=
  Paired x.jobs ∨ x.current = none ∧
    ∃ c jobs, x.jobs = .freeConnection c :: jobs ∧ Paired jobs ∧ connectionChannel x.server c = none

theorem paired_getJobs (p : Poll) (h : Host) : Paired (getJobs p h).2 := by
  refine getJobs_invariant (P := fun y => Paired y.jobs) p h .nil (fun _ => .nil) ?_
  intro y z m i hy _ hreads
  cases hreads with
  | nothing => exact hy
  | kept honly => exact hy
  | message honly message realloced => exact hy.append (.message _ _ _ .nil)
  | closing => exact hy.append (.closing _ .nil)

theorem paired_releases (l : List Nat) :
    Paired (l.flatMap (fun c => [.detachConnection c, .freeConnection c])) := by
  induction l with
  | nil => exact .nil
  | cons c l ih => exact .closing c ih

theorem paired_stop (itemsAllocated : Bool) (h : Host) : Paired (TcpLayers.stop itemsAllocated h).2 := by
  cases itemsAllocated with
  | false => exact .nil
  | true =>
      rw [(stop_spec h).2.2.2]
      exact paired_releases _

theorem paired_of_idle (hidle : x.idle = true) : Paired x.jobs := by
  rw [(idle_iff.mp hidle).1]
  exact .nil

theorem detached_step (hx : Detached x) : Detached (step b x e) := by
  cases e with
  | poll p =>
      dsimp only [step]
      split
      · exact .inl (paired_getJobs p x.host)
      · exact hx
  | cleanup now =>
      dsimp only [step]
      split
      · rename_i hidle
        exact .inl (paired_of_idle hidle)
      · exact hx
  | stop itemsAllocated =>
      dsimp only [step]
      split
      · exact .inl (paired_stop itemsAllocated x.host)
      · exact hx
  | writeFails c =>
      rcases hx with hpaired | ⟨hcurrent, c', jobs, hjobs, hpaired, hchannel⟩
      · exact .inl hpaired
      · refine .inr ⟨hcurrent, c', jobs, hjobs, hpaired, ?_⟩
        exact ((onlyConnections_writeFails x.host c).ties.connectionChannel_eq c').trans hchannel
  | execute env heap =>
      change Detached (execute b env heap x)
      unfold execute
      split
      · rename_i c st hcur
        rcases hx with hpaired | ⟨hcurrent, _⟩
        · exact .inl hpaired
        · cases hcurrent.symm.trans hcur
      · exact hx
      · rename_i c jobs hcur hjobs
        rcases hx with hpaired | ⟨_, c', jobs', hjobs', _⟩
        · rw [hjobs] at hpaired
          cases hpaired with
          | closing _ hrest => exact .inr ⟨hcur, c, _, rfl, hrest, detach_connectionChannel⟩
        · cases hjobs.symm.trans hjobs'
      · rename_i c message realloced jobs hcur hjobs
        rcases hx with hpaired | ⟨_, c', jobs', hjobs', _⟩
        · rw [hjobs] at hpaired
          cases hpaired with
          | message _ _ _ hrest => exact .inl hrest
        · cases hjobs.symm.trans hjobs'
      · rename_i c jobs hcur hjobs
        rcases hx with hpaired | ⟨_, c', jobs', hjobs', hrest, _⟩
        · rw [hjobs] at hpaired
          cases hpaired
        · obtain ⟨_, rfl⟩ := List.cons.inj (hjobs.symm.trans hjobs')
          exact .inl hrest

theorem detached_run (events : List Event) : Detached (run b (boot config conf serversockfd) events) := by
  induction events using List.reverseRecOn with
  | nil => exact .inl .nil
  | append_singleton events e ih =>
      rw [run_concat]
      exact detached_step ih

end Order

section Lifecycle

/-- The layer has been stopped before while connections were mapped. -/
def Released (b : Build) (x : MainLoop) (events : List Event) : Prop :=
  ∃ before e, before ++ [e] <+: events ∧ Releases (run b x before) e

/-- Every connection is mapped or waits to be freed. Every job is about a
connection that is there, none about one that an earlier job frees, and what
is freed has no channel any more. -/
structure Safe (x : MainLoop) : Prop where
  kept : ∀ c, (x.connections c).isSome = true → c ∈ mapped x.host.layer ∨ .freeConnection c ∈ x.jobs
  live : ∀ job ∈ x.jobs, (x.connections job.connection).isSome = true
  current : ∀ c st, x.current = some (c, st) → (x.connections c).isSome = true
  after : x.jobs.Pairwise (fun job job' => ∀ c, job = .freeConnection c → job'.connection ≠ c)
  detached : ∀ c jobs, x.current = none → x.jobs = .freeConnection c :: jobs → connectionChannel x.server c = none

theorem Sound.safe (hx : Sound held x) (hheld : ∀ c ∈ held, c ∈ mapped x.host.layer) (hdetached : Detached x) :
    Safe x := by
  refine ⟨fun c hc => ?_, hx.owned.names, hx.current, hx.owned.after, ?_⟩
  · exact ((hx.owned.live c).mp hc).imp (hheld c) id
  · intro c jobs _ hjobs
    rcases hdetached with hpaired | ⟨_, c', jobs', hjobs', _, hchannel⟩
    · rw [hjobs] at hpaired
      cases hpaired
    · obtain ⟨heq, _⟩ := List.cons.inj (hjobs.symm.trans hjobs')
      obtain rfl : c = c' := Job.freeConnection.inj heq
      exact hchannel

theorem running_boot : Running (boot config conf serversockfd) := by
  refine ⟨⟨⟨?_, ?_, ?_, .nil⟩, ?_, SessionGating.linked_newServer config⟩, List.nodup_nil, List.nodup_singleton _⟩
  · intro c
    simp [boot, MainLoop.connections, newServer, Heap.empty, mapped]
  · intro c hc
    cases hc
  · intro job hjob
    cases hjob
  · intro c st hc
    cases hc

theorem prefix_concat {α : Type} {before l : List α} {a : α} (h : before <+: l ++ [a]) :
    before = l ++ [a] ∨ before <+: l := by
  rcases List.prefix_concat_iff.mp h with heq | hinitial
  · exact .inl heq
  · exact .inr hinitial

theorem Released.mono {events' : List Event} (h : Released b x events) (hinitial : events <+: events') :
    Released b x events' := by
  obtain ⟨before, e, hbefore, hreleases⟩ := h
  exact ⟨before, e, hbefore.trans hinitial, hreleases⟩

theorem phases (events : List Event)
    (honce : ∀ before e, before ++ [e] <+: events → Released b (boot config conf serversockfd) before →
      ¬ Releases (run b (boot config conf serversockfd) before) e) :
    let x := run b (boot config conf serversockfd) events
    ¬ Released b (boot config conf serversockfd) events ∧ Running x ∨
      Released b (boot config conf serversockfd) events ∧ Stopped x := by
  induction events using List.reverseRecOn with
  | nil =>
      refine .inl ⟨?_, running_boot⟩
      rintro ⟨before, e, hinitial, _⟩
      simp at hinitial
  | append_singleton events e ih =>
      have hbefore := ih (fun before e' hinitial => honce before e' (hinitial.trans (List.prefix_append events [e])))
      dsimp only at hbefore ⊢
      rw [run_concat]
      rcases hbefore with ⟨hnot, hrunning⟩ | ⟨hreleased, hstopped⟩
      · by_cases he : Releases (run b (boot config conf serversockfd) events) e
        · exact .inr ⟨⟨events, e, List.prefix_rfl, he⟩, stopped_of_releases hrunning he⟩
        · refine .inl ⟨?_, running_step hrunning he⟩
          rintro ⟨before, e', hinitial, hreleases⟩
          rcases prefix_concat hinitial with heq | hinitial
          · obtain ⟨rfl, hlast⟩ := List.append_inj' heq rfl
            obtain rfl := (List.cons.inj hlast).1
            exact he hreleases
          · exact hnot ⟨before, e', hinitial, hreleases⟩
      · have hkept := honce events e List.prefix_rfl hreleased
        exact .inr ⟨hreleased.mono (List.prefix_append events [e]), stopped_step hstopped hkept⟩

theorem stopped_restop (hx : Stopped x) (he : Releases x e) : ¬ Safe (step b x e) := by
  obtain ⟨rfl, hidle, hne⟩ := he
  intro hsafe
  obtain ⟨m, hm⟩ := List.exists_mem_of_ne_nil _ hne
  have hjob : Job.detachConnection m.connection ∈ (step b x (.stop true)).jobs := by
    dsimp only [step]
    rw [if_pos hidle]
    dsimp only
    rw [(stop_spec x.host).2.2.2]
    exact List.mem_flatMap.mpr ⟨m.connection, List.mem_map_of_mem hm, by simp⟩
  have hlive := hsafe.live _ hjob
  have hplaces : SamePlaces x.server (step b x (.stop true)).server := by
    dsimp only [step]
    rw [if_pos hidle]
    exact samePlaces_of_ties (stop_spec x.host).1.ties
  have hdead := (hx.sound.owned.live m.connection).mp ((hplaces m.connection).symm.trans hlive)
  rw [(idle_iff.mp hidle).1] at hdead
  simp at hdead

/-- In every state of a run all jobs are safe if and only if the layer gives
its connections back at most once. -/
theorem connections_safe_iff (b : Build) (config : Config) (conf : ConnectionConfig) (serversockfd : Int)
    (events : List Event) :
    (∀ before, before <+: events → Safe (run b (boot config conf serversockfd) before)) ↔
      ∀ before e, before ++ [e] <+: events → Released b (boot config conf serversockfd) before →
        ¬ Releases (run b (boot config conf serversockfd) before) e := by
  constructor
  · intro hsafe
    induction events using List.reverseRecOn with
    | nil =>
        intro before e hinitial
        simp at hinitial
    | append_singleton events e ih =>
        have honce := ih (fun before hinitial => hsafe before (hinitial.trans (List.prefix_append events [e])))
        intro before e' hinitial hreleased hreleases
        rcases prefix_concat hinitial with heq | hinitial
        · obtain ⟨rfl, hlast⟩ := List.append_inj' heq rfl
          obtain rfl := (List.cons.inj hlast).1
          have hphases := phases before honce
          rcases hphases with ⟨hnot, _⟩ | ⟨_, hstopped⟩
          · exact hnot hreleased
          · have hlast := hsafe (before ++ [e']) hinitial
            rw [run_concat] at hlast
            exact stopped_restop hstopped hreleases hlast
        · exact honce before e' hinitial hreleased hreleases
  · intro honce before hinitial
    have hphases := phases before (fun before' e hinitial' => honce before' e (hinitial'.trans hinitial))
    rcases hphases with ⟨_, hrunning⟩ | ⟨_, hstopped⟩
    · exact hrunning.sound.safe (fun _ hc => hc) (detached_run before)
    · exact hstopped.sound.safe (fun c hc => absurd hc (by simp)) (detached_run before)

/-- The connection that the second stop hands over has been freed. -/
example :
    let x := run standardBuild (boot ⟨true, false, []⟩ standardConfig 3)
      [.poll (accepting 3 4 0), .stop true, .execute LoopDispatch.sampleEnvironment [],
        .execute LoopDispatch.sampleEnvironment [], .stop true]
    x.jobs = [.detachConnection 0, .freeConnection 0] ∧ x.connections 0 = none := by
  decide +kernel

end Lifecycle

end OpcUa.TcpRuns
