import OpcUa.TcpServers
import OpcUa.OwnSteps
import OpcUa.ChunkIndependence

namespace OpcUa.TcpStreams

open StatusCodes NodeIds Connections Heaps Readers Servers SecureChannels Sessions ServiceTable
open ServerLinks LinkedOperations HandlerSteps ChannelConnections OwnSteps TcpLayers TcpRuns
open ChunkIndependence Relation
open MessageHandlers hiding start

def stream (x : Connection) : List UInt8 × UInt32 := (x.incompleteMessage.bytes, x.localConf.maxMessageSize)

/-- Both servers have the same connections with the same bytes waiting. -/
def SameStreams (s s' : Server) : Prop := ∀ c, (s'.connections c).map stream = (s.connections c).map stream

variable {b : Build} {s s' s'' : Server} {c c' i : Nat} {channel : Option Nat} {presented : NodeId → Prop}
  {env : Environment} {st : Dec} {x : MainLoop} {e : Event} {p : Poll} {h : Host} {max : UInt32} {stored : List UInt8}
  {jobs : List Job}

section Streams

theorem SameStreams.refl (s : Server) : SameStreams s s := fun _ => rfl

theorem SameStreams.trans (h : SameStreams s s') (h' : SameStreams s' s'') : SameStreams s s'' :=
  fun c => (h' c).trans (h c)

theorem sameStreams_of_eq (h : s'.connections = s.connections) : SameStreams s s' := fun c => by rw [h]

theorem sameStreams_modify {f : Connection → Connection} (h : s'.connections = s.connections.modify c f)
    (hf : ∀ x, stream (f x) = stream x) : SameStreams s s' := by
  intro c'
  rw [h]
  exact modify_part _ hf c'

theorem sameStreams_close : SameStreams s (close s c) := sameStreams_modify rfl (fun _ => rfl)

theorem sameStreams_detach : SameStreams s (detachSecureChannel s c) :=
  sameStreams_modify detach_connections (fun _ => rfl)

theorem sameStreams_own (hown : Own c channel presented s s') : SameStreams s s' := by
  cases hown with
  | connection f hf =>
      refine sameStreams_modify rfl (fun x => ?_)
      rw [stream, (hf x).2.1, (hf x).2.2]
      rfl
  | broken c' hc => exact sameStreams_close
  | sequenceNumber =>
      cases channel with
      | none => exact .refl s
      | some a => exact sameStreams_of_eq rfl
  | lifetime now i hi => exact sameStreams_of_eq rfl
  | createSession env requested => exact sameStreams_of_eq (onlySessions_createSession channel requested).connections
  | activateSession env a y token identity ha hy htoken =>
      exact sameStreams_of_eq (onlySessions_activateSession token identity).connections
  | closeSession i hi => exact sameStreams_of_eq onlySessions_closeSession.connections

theorem sameStreams_owns (howns : Owns c channel presented s s') : SameStreams s s' := by
  induction howns with
  | refl => exact .refl s
  | tail _ hown ih => exact ih.trans (sameStreams_own hown)

theorem sameStreams_removeChannel {a : Nat} : SameStreams s (removeChannel s a) := by
  cases hy : s.channels a with
  | none => exact sameStreams_of_eq (removeChannel_of_none hy).1
  | some y =>
      have hdisconnect : SameStreams s (disconnect s y) := by
        rw [disconnect]
        split
        · exact .refl s
        · exact sameStreams_detach.trans sameStreams_close
      exact hdisconnect.trans (sameStreams_of_eq (removeChannel_spec hy).1)

theorem sameStreams_closeSecureChannel (channelId : UInt32) : SameStreams s (closeSecureChannel s channelId) := by
  rw [closeSecureChannel, closeChannel]
  split
  · exact .refl s
  · exact sameStreams_removeChannel

theorem sameStreams_openSecureChannel (request : OpenRequest) :
    SameStreams s (openSecureChannel env s c request).2 := by
  rw [openSecureChannel]
  split
  · rename_i hissue
    rcases openChannel_cases env s c request hissue with ⟨_, hsame⟩ | ⟨_, a, _, hopened⟩
    · exact sameStreams_of_eq (by rw [hsame])
    · rw [hopened]
      exact sameStreams_modify rfl (fun _ => rfl)
  · rw [renewChannel]
    split
    · exact .refl s
    dsimp only
    split
    · exact .refl s
    split <;> exact sameStreams_of_eq rfl

theorem sameStreams_pass (h : Linked s) : SameStreams s (pass b env s c st).server := by
  have hany : ∀ token, Presents (pass b env s c st).outputs token → True := fun _ _ => trivial
  rcases pass_owns h hany with howns | howns | ⟨a, _, howns⟩ | ⟨request, _, howns⟩
  · exact sameStreams_owns howns
  · exact (sameStreams_closeSecureChannel _).trans (sameStreams_owns howns)
  · exact (sameStreams_of_eq rfl : SameStreams s (s.setChannel a revolveTokens)).trans (sameStreams_owns howns)
  · exact (sameStreams_openSecureChannel request).trans (sameStreams_owns howns)

theorem sameStreams_cleanup (now : DateTime) : SameStreams s (cleanupChannels (cleanupSessions s now) now) := by
  have hsessions : SameStreams s (cleanupSessions s now) :=
    sameStreams_of_eq (onlySessions_cleanupSessions now s).connections
  refine hsessions.trans ?_
  rw [cleanupChannels]
  generalize (cleanupSessions s now).secureChannelManager.channels = l
  generalize cleanupSessions s now = s
  induction l generalizing s with
  | nil => exact .refl s
  | cons a l ih =>
      refine SameStreams.trans ?_ (ih _)
      rw [cleanupChannel]
      split
      · exact .refl s
      split
      · exact sameStreams_removeChannel
      split
      · exact sameStreams_of_eq rfl
      · exact .refl s

theorem sameStreams_socketClose (m : ConnectionMapping) : SameStreams h.server (socketClose h m).server :=
  sameStreams_close

theorem sameStreams_writeFails (h : Host) (c : Nat) : SameStreams h.server (writeFails h c).server := by
  unfold writeFails
  split
  · exact .refl _
  · exact sameStreams_close
  · exact sameStreams_close

theorem sameStreams_stop (itemsAllocated : Bool) (h : Host) :
    SameStreams h.server (TcpLayers.stop itemsAllocated h).1.server := by
  have hclosed : ∀ (mappings : List ConnectionMapping) (h : Host),
      SameStreams h.server (mappings.foldl socketClose h).server := by
    intro mappings
    induction mappings with
    | nil => exact fun h => .refl _
    | cons m mappings ih => exact fun h => (sameStreams_socketClose m).trans (ih _)
  unfold TcpLayers.stop
  dsimp only
  split
  · exact .refl _
  · exact hclosed _ _

end Streams

section Reading

/-- What one pass of the loop over the mappings reads from the connection. -/
def readFrom (p : Poll) (ready : List Int) (resultsize : Nat) (c : Nat) (x : Collected) (i : Nat) : List (List UInt8) :=
  match x.host.layer.mappings[i]? with
  | none => []
  | some m =>
      if ¬ x.jobs.length < resultsize ∨ m.sockfd ∉ ready ∨ m.connection ≠ c then []
      else if (socketRecv (p.reading c) 0).1 = good then [(socketRecv (p.reading c) 0).2.1.bytes]
      else []

def readLoop (p : Poll) (ready : List Int) (resultsize : Nat) (c : Nat) : Collected → List Nat → List (List UInt8)
  | _, [] => []
  | x, i :: l =>
      readFrom p ready resultsize c x i ++ readLoop p ready resultsize c (readSocket p ready resultsize x i) l

/-- What a call of `getJobs` reads from the connection. -/
def received (p : Poll) (h : Host) (c : Nat) : List (List UInt8) :=
  let set := setFDSet h.layer
  match select p h.opened (set.2 + 1) set.1 with
  | none => []
  | some ready =>
      let listening := decide (h.layer.serversockfd ∈ ready)
      let h' := if listening then acceptConnection p h else h
      let resultsize := if listening then ready.length - 1 else ready.length
      if resultsize = 0 ∨ !p.jobsAllocated then []
      else readLoop p ready resultsize c ⟨h', []⟩ (List.range h'.layer.mappings.length)

def messageFor (c : Nat) : Job → Option (List UInt8)
  | .binaryMessage c' message _ => if c' = c then some message else none
  | .detachConnection _ => none
  | .freeConnection _ => none

/-- The messages of the connection that wait for the main loop. -/
def waiting (c : Nat) (jobs : List Job) : List (List UInt8) := jobs.filterMap (messageFor c)

def buffers (outs : List (List UInt8)) : List (List UInt8) := outs.filter (· ≠ [])

theorem waiting_append (c : Nat) (jobs jobs' : List Job) :
    waiting c (jobs ++ jobs') = waiting c jobs ++ waiting c jobs' := List.filterMap_append

theorem feed_append (max : UInt32) (stored : List UInt8) (chunks chunks' : List (List UInt8)) :
    feed max stored (chunks ++ chunks') =
      ((feed max stored chunks).1 ++ (feed max (feed max stored chunks).2 chunks').1,
        (feed max (feed max stored chunks).2 chunks').2) := by
  induction chunks generalizing stored with
  | nil => rfl
  | cons chunk chunks ih =>
      simp only [List.cons_append, feed, ih]

theorem deliver_status (connection : Connection) (message : UaString) (realloced : Bool) :
    (deliver .succeeds connection message realloced).status = good := by
  unfold deliver
  extract_lets current scanned pos deleteAt
  split_ifs <;> first | rfl | simp_all [Allocator.succeeds]

/-- `completeMessages_advance` for every buffer, also for none. -/
theorem completeMessages_bytes (connection : Connection) (message : UaString) :
    let r := completeMessages .succeeds connection message
    let taken := advance connection.localConf.maxMessageSize (connection.incompleteMessage.bytes ++ message.bytes)
    r.status = good ∧ r.message.bytes = taken.1 ∧
      stream r.connection = (taken.2, connection.localConf.maxMessageSize) := by
  unfold completeMessages
  by_cases hstored : connection.incompleteMessage.length > 0
  · rw [if_pos hstored, if_neg (by decide)]
    obtain ⟨hmessage, hleft, hconf⟩ := deliver_advance
      { connection with incompleteMessage := some (connection.incompleteMessage.bytes ++ message.bytes) }
      (releaseRecvBuffer message) true (fun _ => rfl) (fun h => by cases h)
    exact ⟨deliver_status _ _ _, hmessage, Prod.ext hleft (congrArg ConnectionConfig.maxMessageSize hconf)⟩
  · have hnil : connection.incompleteMessage.bytes = [] :=
      List.eq_nil_of_length_eq_zero (Nat.eq_zero_of_not_pos hstored)
    rw [if_neg hstored, hnil, List.nil_append]
    obtain ⟨hmessage, hleft, hconf⟩ := deliver_advance connection message false (fun h => by cases h) (fun _ => hnil)
    exact ⟨deliver_status _ _ _, hmessage, Prod.ext hleft (congrArg ConnectionConfig.maxMessageSize hconf)⟩

/-- Between two states these chunks are read from the connection, and what they
complete is put behind the jobs. -/
def Feeds (c : Nat) (chunks : List (List UInt8)) (s : Server) (jobs : List Job) (s' : Server) (jobs' : List Job) :
    Prop :=
  ∀ stored max, (s.connections c).map stream = some (stored, max) →
    waiting c jobs' = waiting c jobs ++ buffers (feed max stored chunks).1 ∧
      (s'.connections c).map stream = some ((feed max stored chunks).2, max)

variable {chunks chunks' : List (List UInt8)} {jobs' jobs'' : List Job}

theorem feeds_of_same (hsame : (s'.connections c).map stream = (s.connections c).map stream)
    (hjobs : waiting c jobs' = waiting c jobs) : Feeds c [] s jobs s' jobs' := by
  intro stored max hstream
  refine ⟨?_, hsame.trans hstream⟩
  rw [hjobs]
  exact (List.append_nil _).symm

theorem Feeds.trans (h : Feeds c chunks s jobs s' jobs') (h' : Feeds c chunks' s' jobs' s'' jobs'') :
    Feeds c (chunks ++ chunks') s jobs s'' jobs'' := by
  intro stored max hstream
  obtain ⟨hjobs, hstored⟩ := h stored max hstream
  obtain ⟨hjobs', hstored'⟩ := h' _ max hstored
  rw [feed_append]
  refine ⟨?_, hstored'⟩
  rw [hjobs', hjobs, List.append_assoc]
  exact congrArg _ (List.filter_append _ _).symm

theorem feeds_readMessage {x : Collected} {buf : UaString} (hmemory : p.memory c = .succeeds) :
    Feeds c [buf.bytes] x.host.server x.jobs (readMessage p x c buf).host.server (readMessage p x c buf).jobs := by
  intro stored max hstream
  obtain ⟨connection, hconnection, hparts⟩ := Option.map_eq_some_iff.mp hstream
  obtain ⟨rfl, rfl⟩ := Prod.mk.inj hparts
  obtain ⟨hstatus, hmessage, hleft⟩ := completeMessages_bytes connection buf
  have hstored : (((x.host.server.setConnection c
      (fun _ => (completeMessages .succeeds connection buf).connection)).connections c).map stream) =
        some ((feed connection.localConf.maxMessageSize connection.incompleteMessage.bytes [buf.bytes]).2,
          connection.localConf.maxMessageSize) := by
    change ((x.host.server.connections.modify c _) c).map stream = _
    rw [modify_self, hconnection]
    exact congrArg some hleft
  unfold readMessage
  rw [hconnection, hmemory]
  dsimp only
  split
  · rename_i hnothing
    have hempty : (completeMessages .succeeds connection buf).message.bytes = [] :=
      List.eq_nil_of_length_eq_zero (hnothing.resolve_left (not_not.mpr hstatus))
    refine ⟨?_, hstored⟩
    rw [hmessage] at hempty
    simp [feed, hempty, buffers]
  · rename_i hsomething
    have hfull : (completeMessages .succeeds connection buf).message.bytes ≠ [] := by
      intro hempty
      exact hsomething (.inr (by rw [UaString.length, hempty]; rfl))
    refine ⟨?_, hstored⟩
    rw [waiting_append]
    rw [hmessage] at hfull ⊢
    simp [feed, buffers, waiting, messageFor, hfull]

theorem feeds_readMessage_other {x : Collected} {buf : UaString} (hne : c' ≠ c) :
    Feeds c [] x.host.server x.jobs (readMessage p x c' buf).host.server (readMessage p x c' buf).jobs := by
  unfold readMessage
  split
  · exact feeds_of_same rfl rfl
  · dsimp only
    have hkept : ∀ connection', ((x.host.server.setConnection c' (fun _ => connection')).connections c).map stream =
        (x.host.server.connections c).map stream := fun _ => congrArg _ (modify_of_ne (Ne.symm hne))
    split
    · exact feeds_of_same (hkept _) rfl
    · refine feeds_of_same (hkept _) ?_
      rw [waiting_append]
      simp [waiting, messageFor, hne]

theorem waiting_closing (m : ConnectionMapping) (jobs : List Job) :
    waiting c (jobs ++ [.detachConnection m.connection, .freeConnection m.connection]) = waiting c jobs := by
  rw [waiting_append]
  exact List.append_nil _

theorem socketRecv_cases (reading : Reading) : socketRecv reading 0 = (badOutOfMemory, none, false) ∨
    (∃ buf, socketRecv reading 0 = (good, buf, false)) ∨ socketRecv reading 0 = (badConnectionClosed, none, true) := by
  unfold socketRecv
  split
  · exact .inl rfl
  split
  · exact .inr (.inr rfl)
  split
  · exact .inr (.inr rfl)
  · exact .inr (.inr rfl)
  · exact .inr (.inl ⟨none, rfl⟩)
  · exact .inr (.inl ⟨_, rfl⟩)

theorem feeds_readSocket (hmemory : p.memory c = .succeeds) (ready : List Int) (resultsize : Nat) (x : Collected)
    (i : Nat) : Feeds c (readFrom p ready resultsize c x i) x.host.server x.jobs
      (readSocket p ready resultsize x i).host.server (readSocket p ready resultsize x i).jobs := by
  unfold readFrom readSocket
  cases hmapping : x.host.layer.mappings[i]? with
  | none => exact feeds_of_same rfl rfl
  | some m =>
      dsimp only
      by_cases hguard : ¬ x.jobs.length < resultsize ∨ m.sockfd ∉ ready
      · rw [if_pos hguard, if_pos (hguard.imp_right .inl)]
        exact feeds_of_same rfl rfl
      rw [if_neg hguard]
      obtain ⟨hroom, hready⟩ := not_or.mp hguard
      by_cases hm : m.connection = c
      · subst hm
        rw [if_neg (by simp [not_not.mp hroom, not_not.mp hready])]
        rcases socketRecv_cases (p.reading m.connection) with hread | ⟨buf, hread⟩ | hread
        · rw [hread]
          exact feeds_of_same rfl rfl
        · rw [hread]
          exact feeds_readMessage hmemory
        · rw [hread]
          exact feeds_of_same (sameStreams_socketClose m m.connection) (waiting_closing m x.jobs)
      · rw [if_pos (.inr (.inr hm))]
        rcases socketRecv_cases (p.reading m.connection) with hread | ⟨buf, hread⟩ | hread
        · rw [hread]
          exact feeds_of_same rfl rfl
        · rw [hread]
          exact feeds_readMessage_other hm
        · rw [hread]
          exact feeds_of_same (sameStreams_socketClose m c) (waiting_closing m x.jobs)

theorem feeds_readLoop (hmemory : p.memory c = .succeeds) (ready : List Int) (resultsize : Nat) (l : List Nat)
    (x : Collected) : Feeds c (readLoop p ready resultsize c x l) x.host.server x.jobs
      (l.foldl (readSocket p ready resultsize) x).host.server (l.foldl (readSocket p ready resultsize) x).jobs := by
  induction l generalizing x with
  | nil => exact feeds_of_same rfl rfl
  | cons i l ih => exact (feeds_readSocket hmemory ready resultsize x i).trans (ih _)

theorem stream_accept (hlive : (h.server.connections c).isSome = true) (p : Poll) :
    (((acceptConnection p h).server.connections c).map stream) = (h.server.connections c).map stream := by
  rcases acceptConnection_cases p h with hsame | ⟨fd, _, _, hopened | ⟨c', connection, hnone, _, hadded⟩⟩
  · rw [hsame]
  · rw [hopened]
  · rw [hadded]
    refine congrArg _ (if_neg ?_)
    rintro rfl
    rw [hnone] at hlive
    cases hlive

/-- What `getJobs` reads from a connection is what its jobs are made of. -/
theorem feeds_getJobs (hmemory : p.memory c = .succeeds) (hlive : (h.server.connections c).isSome = true) :
    Feeds c (received p h c) h.server [] (getJobs p h).1.server (getJobs p h).2 := by
  unfold received getJobs
  extract_lets set
  cases hselect : select p h.opened (set.2 + 1) set.1 with
  | none => exact feeds_of_same rfl rfl
  | some ready =>
      dsimp only
      have haccepted : ∀ listening : Bool,
          Feeds c [] h.server [] (if listening then acceptConnection p h else h).server [] := by
        intro listening
        cases listening with
        | false => exact feeds_of_same rfl rfl
        | true => exact feeds_of_same (stream_accept hlive p) rfl
      have hloop : ∀ (h' : Host) (resultsize : Nat), Feeds c [] h.server [] h'.server [] →
          Feeds c
            (if resultsize = 0 ∨ !p.jobsAllocated then []
              else readLoop p ready resultsize c ⟨h', []⟩ (List.range h'.layer.mappings.length))
            h.server []
            (if resultsize = 0 ∨ !p.jobsAllocated then (h', [])
              else ((collect p ready resultsize h').host, (collect p ready resultsize h').jobs)).1.server
            (if resultsize = 0 ∨ !p.jobsAllocated then (h', [])
              else ((collect p ready resultsize h').host, (collect p ready resultsize h').jobs)).2 := by
        intro h' resultsize hfirst
        split
        · exact hfirst
        · exact hfirst.trans (feeds_readLoop hmemory ready resultsize _ ⟨h', []⟩)
      exact hloop _ _ (haccepted _)

end Reading

section Running

def reads (x : MainLoop) (c : Nat) : Event → List (List UInt8)
  | .poll p => if x.idle then received p x.host c else []
  | _ => []

/-- The message of the connection that a step begins to process. -/
def starts (x : MainLoop) (c : Nat) : Event → List (List UInt8)
  | .execute _ _ => if x.current = none then (x.jobs.head?.bind (messageFor c)).toList else []
  | _ => []

def allReads (b : Build) (x : MainLoop) (c : Nat) : List Event → List (List UInt8)
  | [] => []
  | e :: events => reads x c e ++ allReads b (step b x e) c events

def allStarts (b : Build) (x : MainLoop) (c : Nat) : List Event → List (List UInt8)
  | [] => []
  | e :: events => starts x c e ++ allStarts b (step b x e) c events

theorem waiting_stop (itemsAllocated : Bool) (h : Host) : waiting c (TcpLayers.stop itemsAllocated h).2 = [] := by
  unfold TcpLayers.stop
  dsimp only
  split
  · rfl
  · refine List.filterMap_eq_nil_iff.mpr ?_
    intro job hjob
    obtain ⟨m, _, hjob⟩ := List.mem_flatMap.mp hjob
    rcases List.mem_cons.mp hjob with rfl | hjob
    · rfl
    · rw [List.mem_singleton.mp hjob]
      rfl

/-- One step puts what it reads behind the messages that wait, and takes away
the one that it begins with. -/
theorem stream_step (hlinked : Linked x.server) (hlive : ((step b x e).connections c).isSome = true)
    (hmemory : ∀ p, e = .poll p → p.memory c = .succeeds) :
    ∀ stored max, (x.connections c).map stream = some (stored, max) →
      starts x c e ++ waiting c (step b x e).jobs = waiting c x.jobs ++ buffers (feed max stored (reads x c e)).1 ∧
        ((step b x e).connections c).map stream = some ((feed max stored (reads x c e)).2, max) := by
  intro stored max hstream
  have hnothing : ∀ {s : Server} {jobs : List Job}, SameStreams x.server s → waiting c jobs = waiting c x.jobs →
      waiting c jobs = waiting c x.jobs ++ buffers (feed max stored []).1 ∧
        (s.connections c).map stream = some ((feed max stored []).2, max) := fun hsame hjobs =>
    feeds_of_same (hsame c) hjobs stored max hstream
  cases e with
  | poll p =>
      dsimp only [step, reads, starts]
      split
      · rename_i hidle
        have hbefore : (x.connections c).isSome = true := by
          rw [← Option.isSome_map, hstream]
          rfl
        have hfeeds := feeds_getJobs (hmemory p rfl) hbefore stored max hstream
        rw [(idle_iff.mp hidle).1]
        exact hfeeds
      · exact hnothing (.refl _) rfl
  | cleanup now =>
      dsimp only [step, reads, starts]
      split
      · exact hnothing (sameStreams_cleanup now) rfl
      · exact hnothing (.refl _) rfl
  | execute env heap =>
      dsimp only [step, reads, starts] at hlive ⊢
      unfold execute at hlive ⊢
      cases hcurrent : x.current with
      | some current =>
          obtain ⟨c', st⟩ := current
          rw [if_neg (by simp)]
          exact hnothing (sameStreams_pass hlinked) rfl
      | none =>
          rw [if_pos rfl]
          rw [hcurrent] at hlive
          have htaken : ∀ {s : Server} {job : Job} {jobs : List Job},
              (s.connections c).map stream = (x.connections c).map stream →
              ((job :: jobs).head?.bind (messageFor c)).toList ++ waiting c jobs =
                  waiting c (job :: jobs) ++ buffers (feed max stored []).1 ∧
                (s.connections c).map stream = some ((feed max stored []).2, max) := by
            intro s job jobs hsame
            refine ⟨?_, hsame.trans hstream⟩
            refine Eq.trans ?_ (List.append_nil _).symm
            cases hmessage : messageFor c job <;> simp [waiting, hmessage]
          cases hjobs : x.jobs with
          | nil =>
              dsimp only
              rw [hjobs]
              exact ⟨rfl, hstream⟩
          | cons job jobs =>
              rw [hjobs] at hlive
              cases job with
              | detachConnection c' => exact htaken (sameStreams_detach c)
              | binaryMessage c' message realloced => exact htaken rfl
              | freeConnection c' =>
                  refine htaken (congrArg _ (if_neg ?_))
                  rintro rfl
                  have hgone : (x.connections.free c) c = none := if_pos rfl
                  change ((x.connections.free c) c).isSome = true at hlive
                  rw [hgone] at hlive
                  cases hlive
  | writeFails c' => exact hnothing (sameStreams_writeFails x.host c') rfl
  | stop itemsAllocated =>
      dsimp only [step, reads, starts]
      split
      · rename_i hidle
        refine hnothing (sameStreams_stop itemsAllocated x.host) ?_
        rw [(idle_iff.mp hidle).1]
        exact waiting_stop itemsAllocated x.host
      · exact hnothing (.refl _) rfl

theorem stream_run {config : Config} {conf : ConnectionConfig} {serversockfd : Int} (before events : List Event)
    (hlive : ∀ initial, initial <+: events →
      ((run b (boot config conf serversockfd) (before ++ initial)).connections c).isSome = true)
    (hmemory : ∀ p, .poll p ∈ events → p.memory c = .succeeds)
    (hstream : ((run b (boot config conf serversockfd) before).connections c).map stream = some (stored, max)) :
    let x := run b (boot config conf serversockfd) before
    let x' := run b (boot config conf serversockfd) (before ++ events)
    allStarts b x c events ++ waiting c x'.jobs =
        waiting c x.jobs ++ buffers (feed max stored (allReads b x c events)).1 ∧
      (x'.connections c).map stream = some ((feed max stored (allReads b x c events)).2, max) := by
  induction events generalizing before stored with
  | nil =>
      rw [List.append_nil]
      exact ⟨(List.append_nil _).symm, hstream⟩
  | cons e events ih =>
      extract_lets x x'
      have hnext : run b (boot config conf serversockfd) (before ++ [e]) = step b x e := run_concat
      have hlinked : Linked x.server := (TcpServers.linked_run before).1
      have hfirst := hlive [e] ⟨events, rfl⟩
      rw [hnext] at hfirst
      obtain ⟨hmessages, hstored⟩ := stream_step hlinked hfirst
        (fun p hp => hmemory p (hp ▸ List.mem_cons_self)) stored max hstream
      have hmoved : ((run b (boot config conf serversockfd) (before ++ [e])).connections c).map stream =
          some ((feed max stored (reads x c e)).2, max) := by
        rw [hnext]
        exact hstored
      have hrest := ih (before ++ [e]) ?_ ?_ hmoved
      · rw [hnext, List.append_assoc] at hrest
        obtain ⟨hlater, hlast⟩ := hrest
        have hreads : allReads b x c (e :: events) = reads x c e ++ allReads b (step b x e) c events := rfl
        have hstarts : allStarts b x c (e :: events) = starts x c e ++ allStarts b (step b x e) c events := rfl
        rw [hreads, hstarts, feed_append]
        refine ⟨?_, hlast⟩
        rw [List.append_assoc]
        refine (congrArg _ hlater).trans ?_
        rw [← List.append_assoc, hmessages, List.append_assoc]
        exact congrArg _ (List.filter_append _ _).symm
      · intro initial hinitial
        rw [List.append_assoc]
        obtain ⟨rest, rfl⟩ := hinitial
        exact hlive (e :: initial) ⟨rest, rfl⟩
      · exact fun p hp => hmemory p (List.mem_cons_of_mem e hp)

theorem take_buffers (outs : List (List UInt8)) :
    (∀ k, ∃ n, ((buffers outs).take k).flatten = (outs.take n).flatten) ∧
      ∀ n, ∃ k, (outs.take n).flatten = ((buffers outs).take k).flatten := by
  induction outs with
  | nil => exact ⟨fun _ => ⟨0, by simp [buffers]⟩, fun _ => ⟨0, by simp⟩⟩
  | cons out outs ih =>
      obtain ⟨hshorter, hlonger⟩ := ih
      by_cases hempty : out = []
      · subst hempty
        have hskip : buffers ([] :: outs) = buffers outs := List.filter_cons_of_neg (by simp)
        rw [hskip]
        refine ⟨fun k => ?_, fun n => ?_⟩
        · obtain ⟨n, hn⟩ := hshorter k
          exact ⟨n + 1, by simpa using hn⟩
        · cases n with
          | zero => exact ⟨0, rfl⟩
          | succ n =>
              obtain ⟨k, hk⟩ := hlonger n
              exact ⟨k, by simpa using hk⟩
      · have hkeep : buffers (out :: outs) = out :: buffers outs := List.filter_cons_of_pos (by simpa using hempty)
        rw [hkeep]
        refine ⟨fun k => ?_, fun n => ?_⟩
        · cases k with
          | zero => exact ⟨0, rfl⟩
          | succ k =>
              obtain ⟨n, hn⟩ := hshorter k
              exact ⟨n + 1, by simpa using hn⟩
        · cases n with
          | zero => exact ⟨0, rfl⟩
          | succ n =>
              obtain ⟨k, hk⟩ := hlonger n
              exact ⟨k + 1, by simpa using hk⟩

theorem delivered_buffers {msgs outs : List (List UInt8)} {rest stored : List UInt8} :
    Delivered msgs rest (buffers outs) stored ↔ Delivered msgs rest outs stored := by
  have hflat : (buffers outs).flatten = outs.flatten := by
    induction outs with
    | nil => rfl
    | cons out outs ih =>
        by_cases hempty : out = []
        · simpa [buffers, hempty] using ih
        · simpa [buffers, hempty] using ih
  obtain ⟨hshorter, hlonger⟩ := take_buffers outs
  rw [Delivered, Delivered, hflat]
  refine and_congr_right (fun _ => and_congr_left (fun _ => ⟨fun h n => ?_, fun h k => ?_⟩))
  · obtain ⟨k, hk⟩ := hlonger n
    rw [hk]
    exact h k
  · obtain ⟨n, hn⟩ := hshorter k
    rw [hn]
    exact h n

/-- From a moment on when nothing is unfinished and nothing waits, the messages
that arrive on a connection are processed or wait in order, complete and once,
if and only if no read, also none that gets nothing, comes to a single byte of
a message (and the size limit is positive as `UA_Int32`). What happens on the
other connections, and what the server does, makes no difference. -/
theorem messages_delivered_iff (b : Build) (config : Config) (conf : ConnectionConfig) (serversockfd : Int)
    (before after : List Event) (c : Nat) (connection : Connection) (msgs : List (List UInt8)) (rest : List UInt8)
    (hconnection : (run b (boot config conf serversockfd) before).connections c = some connection)
    (hfresh : connection.incompleteMessage.bytes = [])
    (hidle : waiting c (run b (boot config conf serversockfd) before).jobs = [])
    (hlive : ∀ initial, initial <+: after →
      ((run b (boot config conf serversockfd) (before ++ initial)).connections c).isSome = true)
    (hmemory : ∀ p, .poll p ∈ after → p.memory c = .succeeds)
    (hcut : Cut connection.localConf.maxMessageSize msgs rest
      (allReads b (run b (boot config conf serversockfd) before) c after)) :
    let x := run b (boot config conf serversockfd) before
    let x' := run b (boot config conf serversockfd) (before ++ after)
    (∃ connection', x'.connections c = some connection' ∧
        Delivered msgs rest (allStarts b x c after ++ waiting c x'.jobs) connection'.incompleteMessage.bytes) ↔
      SizeFits connection.localConf.maxMessageSize (allReads b x c after).flatten.length ∧
        EndsApart msgs 0 (allReads b x c after) := by
  extract_lets x x'
  have hstart : (x.connections c).map stream = some ([], connection.localConf.maxMessageSize) := by
    rw [hconnection, ← hfresh]
    rfl
  have hrun : allStarts b x c after ++ waiting c x'.jobs = waiting c x.jobs ++
        buffers (feed connection.localConf.maxMessageSize [] (allReads b x c after)).1 ∧
      (x'.connections c).map stream = some ((feed connection.localConf.maxMessageSize [] (allReads b x c after)).2,
        connection.localConf.maxMessageSize) := stream_run before after hlive hmemory hstart
  obtain ⟨hmessages, hstored⟩ := hrun
  obtain ⟨connection', hconnection', hparts⟩ := Option.map_eq_some_iff.mp hstored
  have hleft : connection'.incompleteMessage.bytes = _ := congrArg Prod.fst hparts
  rw [hidle, List.nil_append] at hmessages
  have hfed : (∃ connection', x'.connections c = some connection' ∧
      Delivered msgs rest (allStarts b x c after ++ waiting c x'.jobs) connection'.incompleteMessage.bytes) ↔
        Delivered msgs rest (feed connection.localConf.maxMessageSize [] (allReads b x c after)).1
          (feed connection.localConf.maxMessageSize [] (allReads b x c after)).2 := by
    rw [hmessages, hconnection']
    simp only [Option.some.injEq, exists_eq_left', hleft, delivered_buffers]
  rw [hfed]
  have halone := receive_delivers_iff (c := { connection with incompleteMessage := none }) rfl hcut
  obtain ⟨houts, hlast⟩ := receive_feed (allReads b x c after) { connection with incompleteMessage := none }
  rw [houts, hlast] at halone
  exact halone

def arriving (first second : Received) : Poll where
  interrupted := false
  ready := fun fd => fd == 4 || fd == 5
  accepted := none
  newConnection := none
  mappingsGrown := true
  jobsAllocated := true
  reading := fun c => ⟨true, true, if c = 0 then first else second⟩
  memory := fun _ => .succeeds

/-- A second connection is accepted, and two HEL messages arrive. The first one
is cut after the third byte, with a read in between that finds nothing. -/
def sampleArrivals : List Event :=
  [.poll (accepting 3 5 1), .poll (arriving (.bytes (hello.take 3)) (.bytes hello)),
   .execute LoopDispatch.sampleEnvironment [], .execute LoopDispatch.sampleEnvironment [],
   .poll (arriving .again .again), .poll (arriving (.bytes (hello.drop 3)) (.bytes (hello.take 5))),
   .execute LoopDispatch.sampleEnvironment []]

/-- Sixteen bytes lie between the two boundaries, and three of them are there
when nothing is read. -/
theorem endsApart_sampleReads : EndsApart [hello] 0 [hello.take 3, [], hello.drop 3] := by
  intro before chunk after hsplit hlen n hn
  have hn : n = 0 ∨ n = 16 := by
    obtain ⟨j, hj, rfl⟩ := hn
    rcases Nat.le_one_iff_eq_zero_or_eq_one.mp hj with rfl | rfl
    · exact .inl rfl
    · exact .inr rfl
  have hend : (before ++ [chunk]).flatten.length = 3 := by
    match before, hsplit with
    | [], hsplit =>
        obtain ⟨rfl, _⟩ := List.cons.inj hsplit
        exact absurd hlen (by decide)
    | [first], hsplit =>
        obtain ⟨hfirst, hsplit⟩ := List.cons.inj hsplit
        obtain ⟨hchunk, _⟩ := List.cons.inj hsplit
        rw [← hfirst, ← hchunk]
        rfl
    | first :: second :: before, hsplit =>
        obtain ⟨_, hsplit⟩ := List.cons.inj hsplit
        obtain ⟨_, hsplit⟩ := List.cons.inj hsplit
        have hmem : chunk ∈ [hello.drop 3] := hsplit ▸ List.mem_append_right before List.mem_cons_self
        rw [List.mem_singleton.mp hmem] at hlen
        exact absurd hlen (by decide)
  rw [hend]
  omega

theorem messages_delivered_sampleArrivals :
    let x := run standardBuild (boot ⟨true, false, []⟩ standardConfig 3) [.poll (accepting 3 4 0)]
    let x' := run standardBuild (boot ⟨true, false, []⟩ standardConfig 3) ([.poll (accepting 3 4 0)] ++ sampleArrivals)
    allReads standardBuild x 0 sampleArrivals = [hello.take 3, [], hello.drop 3] ∧
      ∃ connection', x'.connections 0 = some connection' ∧
        Delivered [hello] [] (allStarts standardBuild x 0 sampleArrivals ++ waiting 0 x'.jobs)
          connection'.incompleteMessage.bytes := by
  extract_lets x x'
  have hreads : allReads standardBuild x 0 sampleArrivals = [hello.take 3, [], hello.drop 3] := by decide +kernel
  have hlive : ∀ k ≤ sampleArrivals.length, ((run standardBuild (boot ⟨true, false, []⟩ standardConfig 3)
      ([.poll (accepting 3 4 0)] ++ sampleArrivals.take k)).connections 0).isSome = true := by
    decide +kernel
  have hcut : Cut 65536 [hello] [] (allReads standardBuild x 0 sampleArrivals) := by
    rw [hreads]
    exact hello_cut _ (by decide)
  refine ⟨hreads, (messages_delivered_iff standardBuild ⟨true, false, []⟩ standardConfig 3 [.poll (accepting 3 4 0)]
    sampleArrivals 0 { init with state := .opening } [hello] [] (by decide +kernel) rfl (by decide +kernel) ?_ ?_
    hcut).mpr ⟨.inl (by decide), ?_⟩⟩
  · intro initial hinitial
    rw [List.prefix_iff_eq_take.mp hinitial]
    exact hlive _ hinitial.length_le
  · intro p hp
    simp only [sampleArrivals, List.mem_cons, Event.poll.injEq, reduceCtorEq, List.not_mem_nil, or_false,
      false_or] at hp
    rcases hp with rfl | rfl | rfl | rfl <;> rfl
  · change EndsApart [hello] 0 (allReads standardBuild x 0 sampleArrivals)
    rw [hreads]
    exact endsApart_sampleReads

end Running

end OpcUa.TcpStreams
