import OpcUa.HandlerSteps
import OpcUa.LoopDispatch

namespace OpcUa.SessionGating

open Connections Heaps Readers Servers SecureChannels Sessions ServiceTable MessageHandlers ServerLinks
open LinkedOperations HandlerSteps Loops StatusCodes NodeIds DataTypes TypeTable Values Decoding
open LoopDispatch

section Runs

/-- What the network layer and the main loop hand to the server. A message is
one pass of the loop over a received buffer. -/
inductive Event
  | connect (c : Nat) (connection : Connection)
  | detach (c : Nat)
  | free (c : Nat)
  | message (c : Nat) (env : Environment) (st : Dec)
  | cleanup (now : DateTime)

/-- A new connection has no channel. A place that is in use is not given to it. -/
def connect (s : Server) (c : Nat) (connection : Connection) : Server :=
  match s.connections c with
  | none => { s with connections := s.connections.store c { connection with channel := none } }
  | some _ => s

def step (b : Build) (s : Server) : Event → Server
  | .connect c connection => connect s c connection
  | .detach c => detachSecureChannel s c
  | .free c => { s with connections := s.connections.free c }
  | .message c env st => (pass b env s c st).server
  | .cleanup now => cleanupChannels (cleanupSessions s now) now

def run (b : Build) (s : Server) (events : List Event) : Server := events.foldl (step b) s

variable {b : Build} {s s' : Server} {events : List Event} {e : Event}

theorem run_concat : run b s (events ++ [e]) = step b (run b s events) e := by
  rw [run, List.foldl_append]
  rfl

theorem run_invariant {P : Server → Prop} (hstart : P s) (hstep : ∀ s e, P s → P (step b s e))
    (events : List Event) : P (run b s events) := by
  induction events using List.reverseRecOn with
  | nil => exact hstart
  | append_singleton events e ih =>
      rw [run_concat]
      exact hstep _ e ih

theorem linked_newServer (config : Config) : Linked (newServer config) := by
  constructor
  · intro c x a h
    cases h
  · intro a y i h
    cases h
  · intro i x a h
    cases h
  · intro a y h
    cases h
  · intro i x h
    cases h

theorem linked_connect (h : Linked s) (c : Nat) (connection : Connection) : Linked (connect s c connection) := by
  rw [connect]
  split
  · refine ⟨?_, h.attached, h.known, h.nodup, h.managed⟩
    intro c' x a hx ha
    rcases store_eq_some.mp hx with ⟨_, rfl⟩ | ⟨_, hx⟩
    · cases ha
    · exact h.connected hx ha
  · exact h

theorem linked_free (h : Linked s) (c : Nat) : Linked { s with connections := s.connections.free c } := by
  refine ⟨?_, h.attached, h.known, h.nodup, h.managed⟩
  intro c' x a hx ha
  exact h.connected (free_eq_some.mp hx).2 ha

theorem linked_step (h : Linked s) (e : Event) : Linked (step b s e) := by
  cases e with
  | connect c connection => exact linked_connect h c connection
  | detach c => exact linked_detachSecureChannel h
  | free c => exact linked_free h c
  | message c env st => exact linked_pass h
  | cleanup now => exact linked_cleanupChannels now (linked_cleanupSessions now h)

theorem linked_run (config : Config) (events : List Event) : Linked (run b (newServer config) events) :=
  run_invariant (linked_newServer config) (fun _ e h => linked_step h e) events

end Runs

section Gates

def OnChannel (s : Server) (call : Call) (a : Nat) : Prop :=
  call.channel = some a ∧ connectionChannel s call.connection = some a ∧
    ∃ y, s.channels a = some y ∧ y.connection = some call.connection

/-- The token of the request is that of an activated session of the channel. -/
def InSession (s : Server) (call : Call) (a : Nat) : Prop :=
  ∃ i session token y, call.session = some i ∧ s.sessions i = some session ∧
    s.channels a = some y ∧ i ∈ y.sessions ∧ session.channel = some a ∧ session.activated = true ∧
    i ∈ s.sessionManager.sessions ∧ authenticationToken call.request = some token ∧
    nodeIdEqual session.authenticationToken token = true

/-- Only the discovery services are open to everyone, and only the services to
get a session are open to everyone on a channel. -/
def Gated (s : Server) (call : Call) : Prop :=
  call.service.discovery = true ∨
    ∃ a, OnChannel s call a ∧ (call.service.establishing = true ∨ InSession s call a)

variable {b : Build} {env : Environment} {s : Server} {c : Nat} {channel : Option Nat} {st : Dec}
  {call : Call}

theorem not_call_of_sendError {requestId : UInt32} {error : StatusCode} {pos : Nat} :
    Output.call call ∉ (sendError b env s c channel requestId error pos st).outputs := by
  rw [sendError]
  split
  · exact List.not_mem_nil
  · dsimp only
    split
    · intro h
      cases List.mem_singleton.mp h
    · exact List.not_mem_nil

theorem call_of_serve {requestId : UInt32} {service : Service} {request : Any} {oldpos : Nat}
    (h : Output.call call ∈ (serve b env s c channel requestId service request oldpos st).outputs) :
    call = ⟨service, c, channel, channel.bind (channelSession s · (tokenOf request)), request⟩ ∧
      (activated s call.session = true ∨
        typeIndex b.subscriptions service.requestType = typeIndex b.subscriptions activateSessionRequest) ∧
      (call.session ≠ none ∨
        typeIndex b.subscriptions service.requestType ≤ typeIndex b.subscriptions activateSessionRequest) := by
  unfold serve at h
  dsimp only at h
  split at h
  · exact absurd h not_call_of_sendError
  split at h
  · exact absurd h not_call_of_sendError
  · rename_i hactivated hsession
    have hcall : call = ⟨service, c, channel, channel.bind (channelSession s · (tokenOf request)), request⟩ := by
      split at h
      · exact Output.call.inj (List.mem_singleton.mp h)
      split at h
      · rcases List.mem_cons.mp h with h | h
        · exact Output.call.inj h
        · exact absurd h not_call_of_sendError
      · rcases List.mem_cons.mp h with h | h
        · exact Output.call.inj h
        · cases List.mem_singleton.mp h
    refine ⟨hcall, ?_, ?_⟩
    · rw [hcall]
      by_contra hnot
      rw [not_or, Bool.not_eq_true] at hnot
      exact hactivated hnot
    · rw [hcall]
      by_contra hnot
      rw [not_or, not_not, not_le] at hnot
      exact hsession hnot

theorem token_of_request (service : Service) (request : Val service.requestType) :
    ∃ token, authenticationToken ⟨_, request⟩ = some token := by
  obtain ⟨info, rest, htype⟩ := requestType_header service
  revert request
  rw [htype]
  exact request_token

theorem session_of_channelSession {a i : Nat} {token : NodeId} {y : SecureChannel} (h : Linked s)
    (hy : s.channels a = some y) (hi : channelSession s a token = some i) :
    i ∈ y.sessions ∧ ∃ session, s.sessions i = some session ∧ session.channel = some a ∧
      nodeIdEqual session.authenticationToken token = true := by
  rw [channelSession, hy] at hi
  have hmem := List.mem_of_find?_eq_some hi
  obtain ⟨session, hsession, hchannel⟩ := h.attached hy hmem
  refine ⟨hmem, session, hsession, hchannel, ?_⟩
  have htoken := List.find?_some hi
  rw [hasToken, hsession] at htoken
  exact htoken

/-- The call of `serve` is gated, whatever the order of the checks leaves of
the anonymous channel and of the anonymous session. -/
theorem gated_serve (h : Linked s) (hchannel : channel = connectionChannel s c) {requestId : UInt32}
    {service : Service} {request : Val service.requestType} {oldpos : Nat}
    (hopen : channel ≠ none ∨ service.discovery = true)
    (hcall : Output.call call ∈ (serve b env s c channel requestId service ⟨_, request⟩ oldpos st).outputs) :
    Gated s call := by
  obtain ⟨heq, hactivated, hsession⟩ := call_of_serve hcall
  rcases hopen with hopen | hdiscovery
  swap
  · refine .inl ?_
    rw [heq]
    exact hdiscovery
  obtain ⟨a, ha⟩ := Option.ne_none_iff_exists'.mp hopen
  obtain ⟨y, hy, hc⟩ := Linked.channel_live h (hchannel.symm.trans ha)
  have hon : OnChannel s call a := by
    rw [heq]
    exact ⟨ha, hchannel.symm.trans ha, y, hy, hc⟩
  have hlow : typeIndex b.subscriptions service.requestType ≤ typeIndex b.subscriptions activateSessionRequest →
      Gated s call := by
    intro hle
    rcases establishing_of_index_le hle with hdiscovery | hestablishing
    · refine .inl ?_
      rw [heq]
      exact hdiscovery
    · refine .inr ⟨a, hon, .inl ?_⟩
      rw [heq]
      exact hestablishing
  rcases hsession with hsome | hle
  swap
  · exact hlow hle
  rcases hactivated with hflag | hactivate
  swap
  · exact hlow (le_of_eq hactivate)
  obtain ⟨i, hi⟩ := Option.ne_none_iff_exists'.mp hsome
  have hfound : channelSession s a (tokenOf ⟨_, request⟩) = some i := by
    rw [heq, ha] at hi
    exact hi
  obtain ⟨hmem, session, hstored, hback, hequal⟩ := session_of_channelSession h hy hfound
  obtain ⟨token, htoken⟩ := token_of_request service request
  rw [hi, activated, hstored] at hflag
  rw [tokenOf, htoken] at hequal
  refine .inr ⟨a, hon, .inr ⟨i, session, token, y, hi, hstored, hy, hmem, hback, hflag, h.managed hstored, ?_, hequal⟩⟩
  rw [heq]
  exact htoken

theorem gated_processRequest (h : Linked s) (hchannel : channel = connectionChannel s c) {requestId : UInt32}
    {requestTypeId : NodeId}
    (hcall : Output.call call ∈ (processRequest b env s c channel requestId requestTypeId st).outputs) :
    Gated s call := by
  unfold processRequest at hcall
  split at hcall
  · exact absurd hcall not_call_of_sendError
  split at hcall
  · exact absurd hcall not_call_of_sendError
  · rename_i service _
    split at hcall
    · exact absurd hcall not_call_of_sendError
    · rename_i hanonymous
      have hopen : channel ≠ none ∨ service.discovery = true := by
        by_cases hnone : channel = none
        · exact .inr (discovery_of_index_le (not_lt.mp (fun hlt => hanonymous ⟨hnone, hlt⟩)))
        · exact .inl hnone
      split at hcall
      · exact absurd hcall not_call_of_sendError
      · exact gated_serve h hchannel hopen hcall

theorem connectionChannel_revolved : connectionChannel (revolved s channel) c = connectionChannel s c := by
  cases channel <;> rfl

theorem sameLinks_revolved : SameLinks s (revolved s channel) := by
  cases channel with
  | none => exact .refl s
  | some a => exact sameLinks_setChannel links_revolveTokens

theorem gated_of_revolved (h : Gated (revolved s channel) call) : Gated s call := by
  have hsessions : (revolved s channel).sessions = s.sessions := by cases channel <;> rfl
  have hmanager : (revolved s channel).sessionManager = s.sessionManager := by cases channel <;> rfl
  rcases h with hdiscovery | ⟨a, ⟨hcall, hconnection, y, hy, hc⟩, hrest⟩
  · exact .inl hdiscovery
  rw [connectionChannel_revolved] at hconnection
  obtain ⟨y', hy', hlinks⟩ := map_eq_some_of (sameLinks_revolved.channels a) hy
  refine .inr ⟨a, ⟨hcall, hconnection, y', hy', (congrArg Prod.fst hlinks).trans hc⟩, ?_⟩
  rcases hrest with hestablishing | ⟨i, session, token, z, hi, hstored, hz, hmem, hback, hflag, hknown, htoken⟩
  · exact .inl hestablishing
  · rw [hz] at hy
    obtain rfl := Option.some.inj hy
    have hlist : y'.sessions = z.sessions := congrArg Prod.snd hlinks
    rw [hsessions] at hstored
    rw [hmanager] at hknown
    exact .inr ⟨i, session, token, y', hi, hstored, hy', by rw [hlist]; exact hmem, hback, hflag, hknown, htoken⟩

theorem gated_processChecked (h : Linked s) {secureChannelId tokenId requestId : UInt32} {requestTypeId : NodeId}
    (hcall : Output.call call ∈
      (processChecked b env s c secureChannelId tokenId requestId requestTypeId st).outputs) : Gated s call := by
  unfold processChecked at hcall
  dsimp only at hcall
  split at hcall
  · cases hcall
  split at hcall
  · split at hcall
    · cases hcall
    · refine gated_of_revolved (gated_processRequest (h.congr sameLinks_revolved) ?_ hcall)
      rw [connectionChannel_revolved]
  · exact gated_processRequest h rfl hcall

theorem gated_processMSG (h : Linked s) (hcall : Output.call call ∈ (processMSG b env s c st).outputs) :
    Gated s call := by
  unfold processMSG at hcall
  dsimp only at hcall
  split at hcall
  · cases hcall
  · exact gated_processChecked h hcall

theorem not_call_of_processHEL : Output.call call ∉ (processHEL env s c st).outputs := by
  rw [processHEL]
  split
  · exact List.not_mem_nil
  · dsimp only
    split
    · exact List.not_mem_nil
    · intro h
      cases List.mem_singleton.mp h

theorem not_call_of_processOPN : Output.call call ∉ (processOPN b env s c st).outputs := by
  intro h
  rw [processOPN] at h
  split at h
  · cases h
  split at h
  · cases h
  split at h
  · cases h
  dsimp only at h
  rw [answerOPN] at h
  split at h
  · cases h
  dsimp only at h
  split at h
  · cases h
  split at h
  · cases h
  · cases List.mem_singleton.mp h
  · cases List.mem_singleton.mp h

theorem not_call_of_processCLO : Output.call call ∉ (processCLO s c st).outputs := by
  rw [processCLO]
  split
  · exact List.not_mem_nil
  · dsimp only
    split
    · exact List.not_mem_nil
    · exact List.not_mem_nil

theorem gated_pass (h : Linked s) (hcall : Output.call call ∈ (pass b env s c st).outputs) : Gated s call := by
  rw [MessageHandlers.pass] at hcall
  split at hcall
  · cases hcall
  · rename_i messageTypeAndFinal messageSize st' hheader
    unfold dispatch at hcall
    split at hcall
    · exact absurd hcall not_call_of_processHEL
    · exact absurd hcall not_call_of_processOPN
    · split at hcall
      · cases hcall
      · rw [skipTo_outputs] at hcall
        exact gated_processMSG h hcall
    · exact absurd hcall not_call_of_processCLO
    · cases hcall

/-- In every state that a run reaches, every service that is called for a
message is gated. -/
theorem calls_gated (b : Build) (config : Config) (events : List Event) (env : Environment) (c : Nat)
    (st : Dec) (call : Call)
    (hcall : .call call ∈ (pass b env (run b (newServer config) events) c st).outputs) :
    Gated (run b (newServer config) events) call :=
  gated_pass (linked_run config events) hcall

def framed (type body : List UInt8) : List UInt8 := type ++ [UInt8.ofNat (body.length + 8), 0, 0, 0] ++ body

def nullString : List UInt8 := List.replicate 4 255

def headerBytes (token : List UInt8) : List UInt8 :=
  token ++ List.replicate 16 0 ++ nullString ++ List.replicate 7 0

def sampleOpen : List UInt8 :=
  framed [79, 80, 78, 70] (List.replicate 4 0 ++ List.replicate 12 255 ++ List.replicate 8 0 ++ [1, 0, 190, 1] ++
    headerBytes [0, 0] ++ List.replicate 8 0 ++ [1, 0, 0, 0] ++ nullString ++ List.replicate 4 0)

def requestBytes (tokenId : UInt8) (type token body : List UInt8) : List UInt8 :=
  framed [77, 83, 71, 70] ([1, 0, 0, 0, tokenId, 0, 0, 0] ++ List.replicate 8 0 ++ [1, 0] ++ type ++
    headerBytes token ++ body)

def sampleToken : List UInt8 := [4, 1, 0] ++ List.replicate 16 0

def sampleCreate : List UInt8 :=
  requestBytes 1 [205, 1] [0, 0]
    (List.replicate 8 255 ++ List.replicate 5 0 ++ List.replicate 32 255 ++ List.replicate 12 0)

def sampleActivate : List UInt8 :=
  requestBytes 1 [211, 1] sampleToken
    (List.replicate 16 255 ++ [1, 0, 65, 1, 1, 4, 0, 0, 0] ++ List.replicate 12 255)

def sampleRead : List UInt8 := requestBytes 1 [119, 2] sampleToken (List.replicate 12 0 ++ nullString)

def sampleMessage (bytes : List UInt8) : Event := .message 0 sampleEnvironment ⟨bytes, 0, [], []⟩

def sampleEvents : List Event :=
  [.connect 0 Connections.init, sampleMessage sampleHello, sampleMessage sampleOpen, sampleMessage sampleCreate,
   sampleMessage sampleActivate]

def calledService : Output → Option Service
  | .call call => some call.service
  | _ => none

theorem call_of_calledService {outputs : List Output} {service : Service}
    (h : outputs.head?.bind calledService = some service) :
    ∃ call, .call call ∈ outputs ∧ call.service = service := by
  obtain ⟨o, ho, hservice⟩ := Option.bind_eq_some_iff.mp h
  cases o with
  | call call => exact ⟨call, List.mem_of_mem_head? ho, Option.some.inj hservice⟩
  | _ => cases hservice

theorem calls_gated_sampleRead : ∃ call, call.service = .read ∧
    Gated (run standardBuild (newServer ⟨true, false, []⟩) sampleEvents) call := by
  have hread : ((pass standardBuild sampleEnvironment
      (run standardBuild (newServer ⟨true, false, []⟩) sampleEvents) 0 ⟨sampleRead, 0, [], []⟩).outputs.head?.bind
        calledService) = some .read := by
    decide +kernel
  obtain ⟨call, hcall, hservice⟩ := call_of_calledService hread
  exact ⟨call, hservice, calls_gated standardBuild ⟨true, false, []⟩ sampleEvents sampleEnvironment 0
    ⟨sampleRead, 0, [], []⟩ call hcall⟩

end Gates

end OpcUa.SessionGating
