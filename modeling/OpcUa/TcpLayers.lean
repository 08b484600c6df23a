import OpcUa.ChannelConnections
import Mathlib.Data.List.Nodup

namespace OpcUa.TcpLayers

open StatusCodes NodeIds Connections Heaps Readers Servers SecureChannels Sessions SessionGating MessageHandlers
open ServiceTable ServerLinks LinkedOperations HandlerSteps ChannelConnections ChannelTokens

/-- What `recv` answers. No bytes at all are the end of the stream. -/
inductive Received
  | bytes (data : List UInt8)
  | again
  | failed
deriving DecidableEq, Repr

structure Reading where
  malloc : Bool
  setsockopt : Bool
  recv : Received
deriving DecidableEq, Repr

/-- The status, the buffer, and whether the socket has been closed. -/
def socketRecv (reading : Reading) (timeout : UInt32) : StatusCode × UaString × Bool :=
  if !reading.malloc then (badOutOfMemory, none, false)
  else if timeout > 0 ∧ !reading.setsockopt then (badConnectionClosed, none, true)
  else match reading.recv with
    | .bytes [] => (badConnectionClosed, none, true)
    | .failed => (badConnectionClosed, none, true)
    | .again => (good, none, false)
    | .bytes (x :: data) => (good, some (x :: data), false)

structure ConnectionMapping where
  connection : Nat
  sockfd : Int
deriving DecidableEq, Repr

structure Layer where
  serversockfd : Int
  conf : ConnectionConfig
  mappings : List ConnectionMapping
deriving DecidableEq, Repr

/-- The jobs of this layer. The delayed call is that of `FreeConnectionCallback`. -/
inductive Job
  | detachConnection (c : Nat)
  | binaryMessage (c : Nat) (message : List UInt8) (realloced : Bool)
  | freeConnection (c : Nat)
deriving DecidableEq, Repr

/-- The server, its network layer and the descriptors that are open in the
process. The descriptor of a connection is that of its mapping. -/
structure Host where
  server : Server
  layer : Layer
  opened : List Int

/-- What a call of `getJobs` meets: the answers of `select` and `accept`, of
the allocator, and of the sockets it reads. -/
structure Poll where
  interrupted : Bool
  ready : Int → Bool
  accepted : Option Int
  newConnection : Option Nat
  mappingsGrown : Bool
  jobsAllocated : Bool
  reading : Nat → Reading
  memory : Nat → Allocator

/-- The descriptors to listen on, and the highest of them. -/
def setFDSet (layer : Layer) : List Int × Int :=
  layer.mappings.foldl
    (fun set m => (m.sockfd :: set.1, if m.sockfd > set.2 then m.sockfd else set.2))
    ([layer.serversockfd], layer.serversockfd)

/-- The descriptors below `nfds` that are ready. A descriptor that is not open
is an error. -/
def select (p : Poll) (opened : List Int) (nfds : Int) (fdset : List Int) : Option (List Int) :=
  let watched := (fdset.filter (· < nfds)).dedup
  if p.interrupted ∨ ∃ fd ∈ watched, fd ∉ opened then none else some (watched.filter p.ready)

def socketClose (h : Host) (m : ConnectionMapping) : Host :=
  { h with server := close h.server m.connection, opened := h.opened.filter (· ≠ m.sockfd) }

def addConnection (p : Poll) (h : Host) (newsockfd : Int) : StatusCode × Host :=
  match h.server.connections.allocate p.newConnection with
  | none => (badInternalError, h)
  | some c =>
      if !p.mappingsGrown then (badInternalError, h)
      else
        (good,
          { h with
            server := connect h.server c { init with localConf := h.layer.conf, state := .opening }
            layer := { h.layer with mappings := h.layer.mappings ++ [⟨c, newsockfd⟩] } })

/-- A descriptor that `accept` returns is a new one. -/
def acceptConnection (p : Poll) (h : Host) : Host :=
  match p.accepted.filter (fun fd => decide (0 ≤ fd ∧ fd ∉ h.opened)) with
  | none => h
  | some newsockfd => (addConnection p { h with opened := newsockfd :: h.opened } newsockfd).2

/-- The last mapping takes the place of the one that is removed. -/
def removeMapping (mappings : List ConnectionMapping) (i : Nat) : List ConnectionMapping :=
  match mappings.getLast? with
  | none => mappings
  | some last => (mappings.set i last).dropLast

/-- The jobs are the array up to `j`. -/
structure Collected where
  host : Host
  jobs : List Job

/-- What arrived is appended to the message that is not complete yet. -/
def readMessage (p : Poll) (x : Collected) (c : Nat) (buf : UaString) : Collected :=
  match x.host.server.connections c with
  | none => x
  | some connection =>
      let done := completeMessages (p.memory c) connection buf
      let host := { x.host with server := x.host.server.setConnection c (fun _ => done.connection) }
      if done.status ≠ good ∨ done.message.length = 0 then { x with host := host }
      else ⟨host, x.jobs ++ [.binaryMessage c done.message.bytes done.realloced]⟩

/-- The body of the loop over the mappings with its condition. -/
def readSocket (p : Poll) (ready : List Int) (resultsize : Nat) (x : Collected) (i : Nat) : Collected :=
  match x.host.layer.mappings[i]? with
  | none => x
  | some m =>
      if ¬ x.jobs.length < resultsize ∨ m.sockfd ∉ ready then x
      else
        let received := socketRecv (p.reading m.connection) 0
        let host := if received.2.2 then socketClose x.host m else x.host
        if received.1 = good then readMessage p { x with host := host } m.connection received.2.1
        else if received.1 = badConnectionClosed then
          ⟨{ host with layer := { host.layer with mappings := removeMapping host.layer.mappings i } },
            x.jobs ++ [.detachConnection m.connection, .freeConnection m.connection]⟩
        else { x with host := host }

/-- `ServerNetworkLayerTCP_getJobs`. The loop is over the mappings at its
beginning; where it has ended, `readSocket` does nothing. -/
def getJobs (p : Poll) (h : Host) : Host × List Job :=
  let set := setFDSet h.layer
  match select p h.opened (set.2 + 1) set.1 with
  | none => (h, [])
  | some ready =>
      let listening := decide (h.layer.serversockfd ∈ ready)
      let h' := if listening then acceptConnection p h else h
      let resultsize := if listening then ready.length - 1 else ready.length
      if resultsize = 0 ∨ !p.jobsAllocated then (h', [])
      else
        let x := (List.range h'.layer.mappings.length).foldl (readSocket p ready resultsize) ⟨h', []⟩
        (x.host, x.jobs)

/-- `ServerNetworkLayerTCP_stop`. The mappings stay as they are. -/
def stop (itemsAllocated : Bool) (h : Host) : Host × List Job :=
  let h' := { h with opened := h.opened.filter (· ≠ h.layer.serversockfd) }
  if !itemsAllocated then (h', [])
  else
    (h'.layer.mappings.foldl socketClose h',
      h'.layer.mappings.flatMap (fun m => [.detachConnection m.connection, .freeConnection m.connection]))

variable {p : Poll} {h : Host} {layer : Layer} {mappings : List ConnectionMapping} {m : ConnectionMapping}
  {fd : Int} {i c : Nat} {s s' s'' : Server}

section Descriptors

theorem removeMapping_perm (hm : mappings[i]? = some m) : (m :: removeMapping mappings i).Perm mappings := by
  obtain ⟨before, after, rfl, rfl⟩ : ∃ before after, mappings = before ++ m :: after ∧ before.length = i := by
    obtain ⟨hi, rfl⟩ := List.getElem?_eq_some_iff.mp hm
    exact ⟨mappings.take i, mappings.drop (i + 1), by simp, by simp; omega⟩
  induction after using List.reverseRecOn with
  | nil =>
      simp only [removeMapping, List.getLast?_append, List.getLast?_singleton, Option.some_or]
      simpa using (List.perm_append_singleton m before).symm
  | append_singleton after last _ =>
      have hend : (before ++ m :: (after ++ [last])).getLast? = some last := by
        simp [List.getLast?_append, List.getLast?_cons]
      have hremoved : removeMapping (before ++ m :: (after ++ [last])) before.length = before ++ last :: after := by
        rw [removeMapping, hend]
        simp only [List.set_append_right _ _ (Nat.le_refl _), Nat.sub_self, List.set_cons_zero]
        rw [List.dropLast_append_of_ne_nil (by simp), ← List.cons_append, List.dropLast_concat]
      have hmoved : (last :: after).Perm (after ++ [last]) := (List.perm_append_singleton last after).symm
      rw [hremoved]
      exact List.perm_middle.symm.trans ((hmoved.cons m).append_left before)

def watched (layer : Layer) : List Int := layer.serversockfd :: layer.mappings.map (·.sockfd)

theorem foldl_fdset (mappings : List ConnectionMapping) (set : List Int × Int) (hset : ∀ fd ∈ set.1, fd ≤ set.2) :
    let set' := mappings.foldl
      (fun set m => (m.sockfd :: set.1, if m.sockfd > set.2 then m.sockfd else set.2)) set
    (∀ fd, fd ∈ set'.1 ↔ fd ∈ set.1 ∨ fd ∈ mappings.map (·.sockfd)) ∧ ∀ fd ∈ set'.1, fd ≤ set'.2 := by
  induction mappings generalizing set with
  | nil => simpa using hset
  | cons m mappings ih =>
      have hnext : ∀ fd ∈ m.sockfd :: set.1, fd ≤ if m.sockfd > set.2 then m.sockfd else set.2 := by
        intro fd hfd
        rcases List.mem_cons.mp hfd with rfl | hfd
        · split <;> omega
        · have := hset fd hfd
          split <;> omega
      obtain ⟨hmem, hle⟩ := ih (m.sockfd :: set.1, if m.sockfd > set.2 then m.sockfd else set.2) hnext
      refine ⟨?_, hle⟩
      intro fd
      rw [List.foldl_cons, hmem]
      simp only [List.mem_cons, List.map_cons]
      tauto

theorem mem_setFDSet : fd ∈ (setFDSet layer).1 ↔ fd ∈ watched layer := by
  have hset := (foldl_fdset layer.mappings ([layer.serversockfd], layer.serversockfd) (by simp)).1 fd
  rw [setFDSet, hset]
  simp [watched]

theorem le_setFDSet (hfd : fd ∈ (setFDSet layer).1) : fd ≤ (setFDSet layer).2 :=
  (foldl_fdset layer.mappings ([layer.serversockfd], layer.serversockfd) (by simp)).2 fd hfd

/-- All descriptors of the set are below `nfds`. -/
theorem select_setFDSet (p : Poll) (opened : List Int) (layer : Layer) :
    (select p opened ((setFDSet layer).2 + 1) (setFDSet layer).1 = none ↔
        p.interrupted ∨ ∃ fd ∈ watched layer, fd ∉ opened) ∧
      ∀ ready, select p opened ((setFDSet layer).2 + 1) (setFDSet layer).1 = some ready →
        ready.Nodup ∧ ∀ fd, fd ∈ ready ↔ fd ∈ watched layer ∧ p.ready fd := by
  have hmem : ∀ fd, fd ∈ ((setFDSet layer).1.filter (· < (setFDSet layer).2 + 1)).dedup ↔ fd ∈ watched layer := by
    intro fd
    simp only [List.mem_dedup, List.mem_filter, decide_eq_true_eq, mem_setFDSet]
    refine ⟨And.left, fun hfd => ⟨hfd, ?_⟩⟩
    have := le_setFDSet (mem_setFDSet.mpr hfd)
    omega
  constructor
  · simp only [select, hmem]
    split <;> simp_all
  · intro ready hready
    simp only [select] at hready
    split at hready
    · cases hready
    · obtain rfl := Option.some.inj hready
      refine ⟨(List.nodup_dedup _).filter _, fun fd => ?_⟩
      rw [List.mem_filter, hmem]

end Descriptors

section Places

def SamePlaces (s s' : Server) : Prop := ∀ c, (s'.connections c).isSome = (s.connections c).isSome

theorem SamePlaces.trans (h : SamePlaces s s') (h' : SamePlaces s' s'') : SamePlaces s s'' :=
  fun c => (h' c).trans (h c)

theorem samePlaces_of_eq (h : s'.connections = s.connections) : SamePlaces s s' := fun c => by rw [h]

theorem samePlaces_modify {f : Connection → Connection} (h : s'.connections = s.connections.modify c f) :
    SamePlaces s s' := by
  intro c'
  rw [h, Heap.modify]
  split <;> simp

theorem samePlaces_setConnection {f : Connection → Connection} : SamePlaces s (s.setConnection c f) :=
  samePlaces_modify rfl

theorem samePlaces_of_ties (h : SameTies s s') : SamePlaces s s' := by
  intro c
  have hc := congrArg Option.isSome (h.connections c)
  simpa using hc

theorem samePlaces_detach : SamePlaces s (detachSecureChannel s c) := samePlaces_modify detach_connections

theorem samePlaces_removeChannel {a : Nat} : SamePlaces s (removeChannel s a) := by
  cases hy : s.channels a with
  | none => exact samePlaces_of_eq (removeChannel_of_none hy).1
  | some y =>
      have hdisconnect : SamePlaces s (disconnect s y) := by
        rw [disconnect]
        split
        · exact fun _ => rfl
        · exact samePlaces_detach.trans samePlaces_setConnection
      exact hdisconnect.trans (samePlaces_of_eq (removeChannel_spec hy).1)

theorem samePlaces_closeSecureChannel {channelId : UInt32} : SamePlaces s (closeSecureChannel s channelId) := by
  rw [closeSecureChannel, closeChannel]
  split
  · exact fun _ => rfl
  · exact samePlaces_removeChannel

theorem samePlaces_cleanup (now : DateTime) : SamePlaces s (cleanupChannels (cleanupSessions s now) now) := by
  have hsessions : SamePlaces s (cleanupSessions s now) :=
    samePlaces_of_eq (onlySessions_cleanupSessions now s).connections
  refine hsessions.trans ?_
  rw [cleanupChannels]
  generalize (cleanupSessions s now).secureChannelManager.channels = l
  generalize cleanupSessions s now = s
  induction l generalizing s with
  | nil => exact fun _ => rfl
  | cons a l ih =>
      refine SamePlaces.trans ?_ (ih _)
      rw [cleanupChannel]
      split
      · exact fun _ => rfl
      split
      · exact samePlaces_removeChannel
      split
      · exact samePlaces_of_eq rfl
      · exact fun _ => rfl

theorem samePlaces_openSecureChannel (env : Environment) (request : OpenRequest) :
    SamePlaces s (openSecureChannel env s c request).2 := by
  rw [openSecureChannel]
  split
  · rename_i hissue
    rcases openChannel_cases env s c request hissue with ⟨_, hsame⟩ | ⟨_, a, _, hopened⟩
    · exact samePlaces_of_eq (by rw [hsame])
    · rw [hopened]
      exact samePlaces_modify rfl
  · exact samePlaces_of_ties (sameTies_renewChannel env s c request)

theorem samePlaces_pass {b : Build} {env : Environment} {st : Dec} (h : Linked s) :
    SamePlaces s (MessageHandlers.pass b env s c st).server := by
  rcases pass_cases b env c st h with hacts | ⟨channelId, hacts⟩ | ⟨st', a, _, _, hacts⟩ | ⟨st', _, hopn⟩
  · exact samePlaces_of_ties (sameTies_acts hacts)
  · exact samePlaces_closeSecureChannel.trans (samePlaces_of_ties (sameTies_acts hacts))
  · have hrevolved : SamePlaces s (s.setChannel a revolveTokens) := samePlaces_of_eq rfl
    exact hrevolved.trans (samePlaces_of_ties (sameTies_acts hacts))
  · rw [hopn]
    rcases processOPN_cases b env s c st' with hclose | ⟨r, st'', _, _, _, hacts⟩
    · rw [hclose]
      exact samePlaces_setConnection
    · exact (samePlaces_openSecureChannel env _).trans (samePlaces_of_ties (sameTies_acts hacts))

end Places

@[simp] def Job.connection : Job → Nat
  | .detachConnection c => c
  | .binaryMessage c _ _ => c
  | .freeConnection c => c

def mapped (layer : Layer) : List Nat := layer.mappings.map (·.connection)

/-- The connections are those that are held and those that a job frees. No
connection is both, and no job is about one that an earlier job has freed. -/
structure Owned (held : List Nat) (connections : Heap Connection) (jobs : List Job) : Prop where
  live : ∀ c, (connections c).isSome = true ↔ c ∈ held ∨ .freeConnection c ∈ jobs
  apart : ∀ c ∈ held, .freeConnection c ∉ jobs
  names : ∀ job ∈ jobs, (connections job.connection).isSome = true
  after : jobs.Pairwise (fun job job' => ∀ c, job = .freeConnection c → job'.connection ≠ c)

variable {x y : Collected} {held : List Nat} {connections connections' : Heap Connection} {jobs : List Job}

section Owning

theorem Owned.congr (h : Owned held connections jobs) (hsame : ∀ c, (connections' c).isSome = (connections c).isSome) :
    Owned held connections' jobs := by
  refine ⟨fun c => ?_, h.apart, fun job hjob => ?_, h.after⟩
  · rw [hsame]
    exact h.live c
  · rw [hsame]
    exact h.names job hjob

theorem Owned.perm {held' : List Nat} (h : Owned held connections jobs) (hperm : ∀ c, c ∈ held' ↔ c ∈ held) :
    Owned held' connections jobs :=
  ⟨fun c => by rw [hperm]; exact h.live c, fun c hc => h.apart c ((hperm c).mp hc), h.names, h.after⟩

theorem Owned.message (h : Owned held connections jobs) (hc : c ∈ held) (message : List UInt8) (realloced : Bool) :
    Owned held connections (jobs ++ [.binaryMessage c message realloced]) := by
  have hfree : ∀ c', Job.freeConnection c' ∈ jobs ++ [.binaryMessage c message realloced] ↔
      .freeConnection c' ∈ jobs := by simp
  refine ⟨fun c' => ?_, fun c' hc' => ?_, ?_, ?_⟩
  · rw [hfree]
    exact h.live c'
  · rw [hfree]
    exact h.apart c' hc'
  · intro job hjob
    rcases List.mem_append.mp hjob with hjob | hjob
    · exact h.names job hjob
    · obtain rfl := List.mem_singleton.mp hjob
      exact (h.live c).mpr (.inl hc)
  · refine List.pairwise_append.mpr ⟨h.after, List.pairwise_singleton _ _, ?_⟩
    intro job hjob job' hjob' c' hjobc hc'
    obtain rfl := List.mem_singleton.mp hjob'
    obtain rfl : c = c' := hc'
    exact h.apart c hc (hjobc ▸ hjob)

theorem Owned.close (h : Owned (c :: held) connections jobs) (hnodup : c ∉ held) :
    Owned held connections (jobs ++ [.detachConnection c, .freeConnection c]) := by
  have hfree : ∀ c', Job.freeConnection c' ∈ jobs ++ [.detachConnection c, .freeConnection c] ↔
      .freeConnection c' ∈ jobs ∨ c' = c := by simp
  have hlive : (connections c).isSome = true := (h.live c).mpr (.inl List.mem_cons_self)
  have hnew : ∀ job ∈ [Job.detachConnection c, .freeConnection c], job.connection = c := by simp
  refine ⟨fun c' => ?_, fun c' hc' => ?_, ?_, ?_⟩
  · rw [hfree, h.live, List.mem_cons]
    tauto
  · rw [hfree]
    rintro (hmem | rfl)
    · exact h.apart c' (List.mem_cons_of_mem c hc') hmem
    · exact hnodup hc'
  · intro job hjob
    rcases List.mem_append.mp hjob with hjob | hjob
    · exact h.names job hjob
    · rw [hnew job hjob]
      exact hlive
  · refine List.pairwise_append.mpr ⟨h.after, by simp, ?_⟩
    intro job hjob job' hjob' c' hjobc hc'
    rw [hnew job' hjob'] at hc'
    subst hc'
    exact h.apart c List.mem_cons_self (hjobc ▸ hjob)

theorem Owned.add (h : Owned held connections jobs) (hnone : connections c = none) (connection : Connection) :
    Owned (held ++ [c]) (connections.store c connection) jobs := by
  have hc : c ∉ held ∧ .freeConnection c ∉ jobs := by
    have hdead := (h.live c).not.mp (by simp [hnone])
    exact not_or.mp hdead
  have hstore : ∀ c', ((connections.store c connection) c').isSome = true ↔
      (connections c').isSome = true ∨ c' = c := by
    intro c'
    by_cases hcc : c' = c <;> simp [Heap.store, hcc]
  refine ⟨fun c' => ?_, fun c' hc' => ?_, fun job hjob => (hstore _).mpr (.inl (h.names job hjob)), h.after⟩
  · rw [hstore, h.live, List.mem_append, List.mem_singleton]
    tauto
  · rcases List.mem_append.mp hc' with hc' | hc'
    · exact h.apart c' hc'
    · rw [List.mem_singleton.mp hc']
      exact hc.2

theorem Owned.done {job : Job} (h : Owned held connections (job :: jobs)) (hjob : ∀ c, job ≠ .freeConnection c) :
    Owned held connections jobs := by
  have hfree : ∀ c, .freeConnection c ∈ job :: jobs ↔ .freeConnection c ∈ jobs := by
    intro c
    rw [List.mem_cons, or_iff_right]
    exact fun heq => hjob c heq.symm
  refine ⟨fun c => ?_, fun c hc => ?_, fun job' hjob' => h.names job' (List.mem_cons_of_mem job hjob'),
    h.after.of_cons⟩
  · rw [h.live, hfree]
  · rw [← hfree]
    exact h.apart c hc

theorem Owned.free (h : Owned held connections (.freeConnection c :: jobs)) :
    Owned held (connections.free c) jobs := by
  have hlater : ∀ job ∈ jobs, job.connection ≠ c := fun job hjob =>
    List.rel_of_pairwise_cons h.after hjob c rfl
  have hheld : c ∉ held := fun hc => h.apart c hc List.mem_cons_self
  refine ⟨fun c' => ?_, fun c' hc' hmem => h.apart c' hc' (List.mem_cons_of_mem _ hmem), ?_, h.after.of_cons⟩
  · by_cases hcc : c' = c
    · subst hcc
      have hdone : Job.freeConnection c' ∉ jobs := fun hmem => hlater _ hmem rfl
      simp [Heap.free, hheld, hdone]
    · have hlive := h.live c'
      rw [List.mem_cons, Job.freeConnection.injEq, or_iff_right hcc] at hlive
      simpa [Heap.free, hcc] using hlive
  · intro job hjob
    have hne := hlater job hjob
    have hkept : connections.free c job.connection = connections job.connection := if_neg hne
    rw [hkept]
    exact h.names job (List.mem_cons_of_mem _ hjob)

end Owning

section Reading

/-- Only parts of connections change that point to nothing. -/
structure OnlyConnections (s s' : Server) : Prop where
  server : s' = { s with connections := s'.connections }
  channel : ∀ c, (s'.connections c).map (·.channel) = (s.connections c).map (·.channel)

theorem OnlyConnections.refl (s : Server) : OnlyConnections s s := ⟨rfl, fun _ => rfl⟩

theorem OnlyConnections.trans (h : OnlyConnections s s') (h' : OnlyConnections s' s'') : OnlyConnections s s'' := by
  refine ⟨?_, fun c => (h'.channel c).trans (h.channel c)⟩
  rw [h'.server, h.server]

theorem OnlyConnections.ties (h : OnlyConnections s s') : SameTies s s' :=
  ⟨h.channel, fun a => by rw [h.server]⟩

theorem OnlyConnections.links (h : OnlyConnections s s') : SameLinks s s' :=
  ⟨h.channel, fun a => by rw [h.server], fun i => by rw [h.server], by rw [h.server]⟩

theorem OnlyConnections.tokens (h : OnlyConnections s s') : SameTokens s s' :=
  ⟨fun a => by rw [h.server], by rw [h.server]⟩

theorem onlyConnections_replace {old new : Connection} (hold : s.connections c = some old)
    (hchannel : new.channel = old.channel) : OnlyConnections s (s.setConnection c (fun _ => new)) := by
  refine ⟨rfl, fun c' => ?_⟩
  by_cases hc : c' = c
  · subst hc
    have hnew : (s.setConnection c' (fun _ => new)).connections c' = some new := by
      change (s.connections.modify c' _) c' = _
      rw [modify_self, hold]
      rfl
    rw [hnew, hold, Option.map_some, Option.map_some, hchannel]
  · exact congrArg _ (modify_of_ne hc)

theorem onlyConnections_close : OnlyConnections s (close s c) := ⟨rfl, modify_part _ (fun _ => rfl)⟩

theorem deliver_channel (mem : Allocator) (connection : Connection) (message : UaString) (realloced : Bool) :
    (deliver mem connection message realloced).connection.channel = connection.channel := by
  unfold deliver
  extract_lets current scanned pos deleteAt
  split_ifs <;> rfl

theorem completeMessages_channel (mem : Allocator) (connection : Connection) (message : UaString) :
    (completeMessages mem connection message).connection.channel = connection.channel := by
  unfold completeMessages
  split
  · split
    · rfl
    · exact deliver_channel _ _ _ _
  · exact deliver_channel _ _ _ _

/-- The socket of the mapping is closed and the mapping removed. -/
def closed (h : Host) (m : ConnectionMapping) (i : Nat) : Host :=
  { socketClose h m with layer := { h.layer with mappings := removeMapping h.layer.mappings i } }

inductive Reads (x : Collected) (m : ConnectionMapping) (i : Nat) : Collected → Prop
  | nothing : Reads x m i x
  | kept {s : Server} (honly : OnlyConnections x.host.server s) : Reads x m i ⟨{ x.host with server := s }, x.jobs⟩
  | message {s : Server} (honly : OnlyConnections x.host.server s) (message : List UInt8) (realloced : Bool) :
      Reads x m i ⟨{ x.host with server := s }, x.jobs ++ [.binaryMessage m.connection message realloced]⟩
  | closing : Reads x m i
      ⟨closed x.host m i, x.jobs ++ [.detachConnection m.connection, .freeConnection m.connection]⟩

theorem reads_readMessage (buf : UaString) : Reads x m i (readMessage p x m.connection buf) := by
  unfold readMessage
  split
  · exact .nothing
  · rename_i connection hconnection
    have honly : OnlyConnections x.host.server (x.host.server.setConnection m.connection
        (fun _ => (completeMessages (p.memory m.connection) connection buf).connection)) :=
      onlyConnections_replace hconnection (completeMessages_channel _ _ _)
    dsimp only
    split
    · exact .kept honly
    · exact .message honly _ _

theorem readSocket_cases (p : Poll) (ready : List Int) (resultsize : Nat) (x : Collected) (i : Nat) :
    readSocket p ready resultsize x i = x ∨ ∃ m, x.host.layer.mappings[i]? = some m ∧ m.sockfd ∈ ready ∧
      x.jobs.length < resultsize ∧ Reads x m i (readSocket p ready resultsize x i) := by
  unfold readSocket
  split
  · exact .inl rfl
  · rename_i m hm
    split
    · exact .inl rfl
    · rename_i hguard
      obtain ⟨hroom, hready⟩ := not_or.mp hguard
      refine .inr ⟨m, hm, not_not.mp hready, not_not.mp hroom, ?_⟩
      unfold socketRecv
      split
      · exact .nothing
      split
      · rename_i htimeout
        exact absurd htimeout.1 (by decide)
      split
      · exact .closing
      · exact .closing
      · exact reads_readMessage none
      · exact reads_readMessage _

end Reading

section Polling

/-- The layer owns the connections of its mappings, and no connection and no
descriptor is in two of them. -/
structure Layered (h : Host) (jobs : List Job) : Prop where
  owned : Owned (mapped h.layer) h.server.connections jobs
  nodup : (mapped h.layer).Nodup
  sockets : (watched h.layer).Nodup

def Listening (h : Host) : Prop := ∀ fd ∈ watched h.layer, fd ∈ h.opened

theorem nodup_concat {α : Type} {l : List α} {a : α} (hl : l.Nodup) (ha : a ∉ l) : (l ++ [a]).Nodup := by
  simpa using hl.concat ha

theorem mem_mapped (hm : layer.mappings[i]? = some m) : m.connection ∈ mapped layer :=
  List.mem_map_of_mem (List.mem_of_getElem? hm)

theorem layered_only (hx : Layered h jobs) (honly : OnlyConnections h.server s) :
    Layered { h with server := s } jobs :=
  ⟨hx.owned.congr (samePlaces_of_ties honly.ties), hx.nodup, hx.sockets⟩

theorem mapped_closed (hm : h.layer.mappings[i]? = some m) :
    (m.connection :: mapped (closed h m i).layer).Perm (mapped h.layer) :=
  (removeMapping_perm hm).map ConnectionMapping.connection

theorem watched_closed (hm : h.layer.mappings[i]? = some m) :
    (m.sockfd :: watched (closed h m i).layer).Perm (watched h.layer) :=
  (List.Perm.swap _ _ _).trans (((removeMapping_perm hm).map ConnectionMapping.sockfd).cons h.layer.serversockfd)

theorem layered_reads (hx : Layered x.host x.jobs) (hm : x.host.layer.mappings[i]? = some m) (hy : Reads x m i y) :
    Layered y.host y.jobs := by
  cases hy with
  | nothing => exact hx
  | kept honly => exact layered_only hx honly
  | message honly message realloced =>
      have hkept := layered_only hx honly
      exact ⟨hkept.owned.message (mem_mapped hm) message realloced, hkept.nodup, hkept.sockets⟩
  | closing =>
      have hmapped := mapped_closed (h := x.host) hm
      have hnodup := hmapped.nodup_iff.mpr hx.nodup
      have howned : Owned (m.connection :: mapped (closed x.host m i).layer) x.host.server.connections x.jobs :=
        hx.owned.perm (fun c => hmapped.mem_iff)
      refine ⟨?_, hnodup.of_cons, ((watched_closed hm).nodup_iff.mpr hx.sockets).of_cons⟩
      exact (howned.close (List.nodup_cons.mp hnodup).1).congr (samePlaces_of_ties onlyConnections_close.ties)

theorem listening_reads (hx : Layered x.host x.jobs) (hopen : Listening x.host)
    (hm : x.host.layer.mappings[i]? = some m) (hy : Reads x m i y) : Listening y.host := by
  cases hy with
  | nothing => exact hopen
  | kept honly => exact hopen
  | message honly message realloced => exact hopen
  | closing =>
      intro fd hfd
      have hwatched := watched_closed (h := x.host) hm
      have hnodup := hwatched.nodup_iff.mpr hx.sockets
      have hne : fd ≠ m.sockfd := by
        rintro rfl
        exact (List.nodup_cons.mp hnodup).1 hfd
      have hbefore : fd ∈ x.host.opened := hopen fd (hwatched.mem_iff.mp (List.mem_cons_of_mem _ hfd))
      exact List.mem_filter.mpr ⟨hbefore, by simpa using hne⟩

theorem collected_invariant {P : Collected → Prop} (p : Poll) (ready : List Int) (resultsize : Nat) (l : List Nat)
    (hx : P x) (hreads : ∀ {x y m i}, P x → x.host.layer.mappings[i]? = some m → x.jobs.length < resultsize →
      Reads x m i y → P y) : P (l.foldl (readSocket p ready resultsize) x) := by
  refine List.foldlRecOn l _ hx ?_
  intro x hx i _
  rcases readSocket_cases p ready resultsize x i with hsame | ⟨m, hm, _, hroom, hy⟩
  · rw [hsame]
    exact hx
  · exact hreads hx hm hroom hy

theorem acceptConnection_cases (p : Poll) (h : Host) :
    acceptConnection p h = h ∨ ∃ fd, 0 ≤ fd ∧ fd ∉ h.opened ∧
      (acceptConnection p h = { h with opened := fd :: h.opened } ∨
        ∃ c connection, h.server.connections c = none ∧ connection.channel = none ∧
          acceptConnection p h =
            { server := { h.server with connections := h.server.connections.store c connection }
              layer := { h.layer with mappings := h.layer.mappings ++ [⟨c, fd⟩] }
              opened := fd :: h.opened }) := by
  unfold acceptConnection
  split
  · exact .inl rfl
  · rename_i fd hfd
    obtain ⟨_, hfd⟩ := Option.filter_eq_some_iff.mp hfd
    obtain ⟨hle, hnew⟩ := of_decide_eq_true hfd
    refine .inr ⟨fd, hle, hnew, ?_⟩
    unfold addConnection
    split
    · exact .inl rfl
    · rename_i c hc
      have hnone : h.server.connections c = none := (allocate_eq_some.mp hc).2
      split
      · exact .inl rfl
      · refine .inr ⟨c, { init with localConf := h.layer.conf, state := .opening }, hnone, rfl, ?_⟩
        dsimp only
        rw [connect, hnone]
        rfl

theorem layered_accept (hx : Layered h []) (hopen : Listening h) (p : Poll) : Layered (acceptConnection p h) [] := by
  rcases acceptConnection_cases p h with hsame | ⟨fd, _, hnew, hopened | ⟨c, connection, hnone, _, hadded⟩⟩
  · rw [hsame]
    exact hx
  · rw [hopened]
    exact ⟨hx.owned, hx.nodup, hx.sockets⟩
  · rw [hadded]
    have hmapped : mapped { h.layer with mappings := h.layer.mappings ++ [⟨c, fd⟩] } = mapped h.layer ++ [c] := by
      simp [mapped]
    have hwatched : watched { h.layer with mappings := h.layer.mappings ++ [⟨c, fd⟩] } = watched h.layer ++ [fd] := by
      simp [watched]
    have howned := hx.owned.add hnone connection
    refine ⟨?_, ?_, ?_⟩
    · rw [hmapped]
      exact howned
    · have hc : c ∉ mapped h.layer := by
        intro hc
        have hlive := (hx.owned.live c).mpr (.inl hc)
        simp [hnone] at hlive
      rw [hmapped]
      exact nodup_concat hx.nodup hc
    · rw [hwatched]
      exact nodup_concat hx.sockets (fun hfd => hnew (hopen fd hfd))

theorem listening_accept (hopen : Listening h) (p : Poll) : Listening (acceptConnection p h) := by
  rcases acceptConnection_cases p h with hsame | ⟨fd, _, _, hopened | ⟨c, connection, _, _, hadded⟩⟩
  · rw [hsame]
    exact hopen
  · rw [hopened]
    exact fun fd' hfd' => List.mem_cons_of_mem fd (hopen fd' hfd')
  · rw [hadded]
    intro fd' hfd'
    simp only [watched, List.map_append, List.mem_cons, List.mem_append] at hfd'
    rcases hfd' with rfl | hfd' | hfd'
    · exact List.mem_cons_of_mem fd (hopen _ List.mem_cons_self)
    · exact List.mem_cons_of_mem fd (hopen fd' (List.mem_cons_of_mem _ hfd'))
    · simp_all

/-- The loop over the mappings after a new connection has been accepted or not. -/
def collect (p : Poll) (ready : List Int) (resultsize : Nat) (h : Host) : Collected :=
  (List.range h.layer.mappings.length).foldl (readSocket p ready resultsize) ⟨h, []⟩

theorem getJobs_cases (p : Poll) (h : Host) :
    ((p.interrupted = true ∨ ¬ Listening h) ∧ getJobs p h = (h, [])) ∨
      Listening h ∧ ∃ ready h' resultsize,
        (∀ fd, fd ∈ ready ↔ fd ∈ watched h.layer ∧ p.ready fd = true) ∧
        (h.layer.serversockfd ∉ ready ∧ h' = h ∨ h.layer.serversockfd ∈ ready ∧ h' = acceptConnection p h) ∧
        (getJobs p h = (h', []) ∨ p.jobsAllocated = true ∧
          getJobs p h = ((collect p ready resultsize h').host, (collect p ready resultsize h').jobs)) := by
  obtain ⟨hnone, hsome⟩ := select_setFDSet p h.opened h.layer
  unfold getJobs
  extract_lets set
  split
  · rename_i hselect
    refine .inl ⟨?_, rfl⟩
    rcases hnone.mp hselect with hinterrupted | ⟨fd, hfd, hclosed⟩
    · exact .inl hinterrupted
    · exact .inr (fun hopen => hclosed (hopen fd hfd))
  · rename_i ready hselect
    have hopen : Listening h := by
      intro fd hfd
      by_contra hclosed
      have hfailed := hnone.mpr (.inr ⟨fd, hfd, hclosed⟩)
      rw [hselect] at hfailed
      cases hfailed
    extract_lets listening h' resultsize
    refine .inr ⟨hopen, ready, h', resultsize, (hsome ready hselect).2, ?_, ?_⟩
    · by_cases hlisten : h.layer.serversockfd ∈ ready
      · exact .inr ⟨hlisten, by simp [h', listening, hlisten]⟩
      · exact .inl ⟨hlisten, by simp [h', listening, hlisten]⟩
    · split
      · exact .inl rfl
      · rename_i hguard
        exact .inr ⟨by simpa using (not_or.mp hguard).2, rfl⟩

/-- `getJobs` accepts a connection or not, and then it reads. -/
theorem getJobs_invariant {P : Collected → Prop} (p : Poll) (h : Host) (hstart : P ⟨h, []⟩)
    (haccept : Listening h → P ⟨acceptConnection p h, []⟩)
    (hreads : ∀ {x y m i}, P x → x.host.layer.mappings[i]? = some m → Reads x m i y → P y) :
    P ⟨(getJobs p h).1, (getJobs p h).2⟩ := by
  rcases getJobs_cases p h with ⟨_, hfailed⟩ | ⟨hopen, ready, h', resultsize, _, hh', hjobs⟩
  · rw [hfailed]
    exact hstart
  · have hbegin : P ⟨h', []⟩ := by
      rcases hh' with ⟨_, rfl⟩ | ⟨_, rfl⟩
      · exact hstart
      · exact haccept hopen
    rcases hjobs with hjobs | ⟨_, hjobs⟩
    · rw [hjobs]
      exact hbegin
    · rw [hjobs]
      exact collected_invariant p ready resultsize _ hbegin (fun hx hm _ hy => hreads hx hm hy)

theorem layered_getJobs (hx : Layered h []) (p : Poll) : Layered (getJobs p h).1 (getJobs p h).2 := by
  refine getJobs_invariant (P := fun x => Layered x.host x.jobs) p h hx ?_ ?_
  · exact fun hopen => layered_accept hx hopen p
  · exact fun hx hm hy => layered_reads hx hm hy

end Polling

end OpcUa.TcpLayers
