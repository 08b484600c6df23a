import OpcUa.DecodeFrames
import OpcUa.HeaderFailures

namespace OpcUa.FaultAnswers

open StatusCodes NodeIds Connections DataTypes TypeTable Values Readers Decoding ValueDecoding Servers
open SecureChannels Sessions ServiceTable MessageHandlers ServerLinks HandlerSteps
open BoundedReading DecodeBounds HandlerMoves ReadBack LeafReading ConsumedBytes MinimalSizes DecodeFrames
open LoopDispatch SessionGating TokenChecks HeaderFailures

variable {α β : Type} {d : DecM α} {e : DecM β} {b : Build} {env : Environment} {s : Server} {c : Nat}
variable {st st' mark : Dec}

section Rejections

/-- The places at which a request is rejected. -/
inductive Rejection
  | unsupported | noChannel | undecodable | notActivated | noSession | tooLarge
deriving DecidableEq, Repr

/-- Where `processMSG` rejects a request, and the state of the decoding there. -/
def rejection (b : Build) (env : Environment) (s : Server) (channel : Option Nat) (requestTypeId : NodeId) (st : Dec) :
    Option (Rejection × Dec) :=
  if requestTypeId.identifier.isNumeric = false ∨ requestTypeId.namespaceIndex ≠ 0 then some (.unsupported, st)
  else match getServicePointers b (numericBits requestTypeId) with
    | none => some (.unsupported, st)
    | some service =>
        let index := typeIndex b.subscriptions service.requestType
        let activateIndex := typeIndex b.subscriptions activateSessionRequest
        if channel = none ∧ index > typeIndex b.subscriptions openSecureChannelRequest then some (.noChannel, st)
        else match attempt (b.decode service.requestType) st with
          | (.error _, st') => some (.undecodable, st')
          | (.ok request, st') =>
              let session := channel.bind (channelSession s · (tokenOf ⟨_, request⟩))
              if activated s session = false ∧ index ≠ activateIndex then some (.notActivated, st')
              else if session = none ∧ index > activateIndex then some (.noSession, st')
              else if service = .publish then none
              else match env.response with
                | .refused code => if code = good then none else some (.tooLarge, st')
                | _ => none

/-- The offset from which the header is decoded for the fault. -/
def Rejection.faultOffset (start stop : Dec) : Rejection → Nat
  | .notActivated | .noSession => stop.offset
  | _ => start.offset

/-- The message has the channel id and a token of its channel. -/
def Admitted (s : Server) (c : Nat) (st : Dec) : Prop :=
  (securityHeaders st).1.1 = (channelToken s (connectionChannel s c)).channelId ∧
    ((securityHeaders st).1.2.1 = (channelToken s (connectionChannel s c)).tokenId ∨
      (securityHeaders st).1.2.1 = (nextToken s (connectionChannel s c)).tokenId)

def admittedServer (s : Server) (c : Nat) (st : Dec) : Server :=
  if (securityHeaders st).1.2.1 ≠ (channelToken s (connectionChannel s c)).tokenId then
    revolved s (connectionChannel s c)
  else s

/-- A message whose type id and RequestHeader can be decoded, and which is
rejected. -/
structure RejectedRequest (b : Build) (env : Environment) (s : Server) (c : Nat) (st : Dec) where
  requestTypeId : NodeId
  start : Dec
  header : Val requestHeader
  kind : Rejection
  stop : Dec
  admitted : Admitted s c st
  typeId_eq : attempt nodeIdDecodeBinary (securityHeaders st).2 = (.ok requestTypeId, start)
  header_eq : (attempt (b.decode requestHeader) start).1 = .ok header
  rejected : rejection b env (admittedServer s c st) (connectionChannel s c) requestTypeId start = some (kind, stop)

def isFault : Output → Bool
  | .fault .. => true
  | _ => false

/-- Exactly one fault is sent, with this request id and this handle. -/
def Faults (requestId handle : UInt32) (outputs : List Output) : Prop :=
  ∃ code, outputs.filter isFault = [.fault requestId handle code]

/-- A fault can be handed over. Where the header is decoded once more behind
the body, it still can be; where it is looked for behind the request, another
one is there with the same handle. -/
def Answerable (request : RejectedRequest b env s c st) : Prop :=
  handed env.fault s c (connectionChannel s c) = true ∧
    match request.kind with
    | .unsupported | .noChannel => True
    | .undecodable | .tooLarge =>
        (attempt (b.decode requestHeader) { request.stop with offset := request.start.offset }).1.isOk = true
    | .notActivated | .noSession =>
        ∃ header, (attempt (b.decode requestHeader) request.stop).1 = .ok header ∧
          requestHandle ⟨_, header⟩ = requestHandle ⟨_, request.header⟩

end Rejections

section Handles

/-- Whatever comes out, the run from `st` has come through `mark` and has
changed nothing in front of it since. -/
def Passes (mark : Dec) (d : DecM α) (st : Dec) : Prop :=
  ∀ r st', d st = some (r, st') → Leaves mark.offset mark st'

theorem passes_of_run {r : Except StatusCode α} (h : d st = some (r, mark)) : Passes mark d st := by
  intro r' st' h'
  obtain ⟨_, rfl⟩ := Prod.mk.inj (Option.some.inj (h.symm.trans h'))
  exact .refl (le_refl _)

theorem Passes.map {f : α → β} (h : Passes mark d st) : Passes mark (map f d) st := by
  intro r st' hrun
  rw [Readers.map, andThen] at hrun
  split at hrun
  · cases hrun
  · rename_i code st₁ hd
    obtain ⟨_, rfl⟩ := Prod.mk.inj (Option.some.inj hrun)
    exact h _ _ hd
  · rename_i a st₁ hd
    obtain ⟨_, rfl⟩ := Prod.mk.inj (Option.some.inj hrun)
    exact h _ _ hd

theorem Passes.both (h : Passes mark d st) (he : Frames mark.offset e) : Passes mark (both d e) st := by
  intro r st' hrun
  rw [Readers.both] at hrun
  split at hrun
  · cases hrun
  · rename_i q st₁ hd
    have hleaves := h _ _ hd
    split at hrun
    · cases hrun
    · rename_i q' st₂ hsecond
      obtain ⟨_, rfl⟩ := Prod.mk.inj (Option.some.inj hrun)
      exact hleaves.trans (he st₁ _ _ hleaves.low_le hsecond)

theorem passes_second {r : Except StatusCode α} (hd : d st = some (r, st')) (h : Passes mark e st') :
    Passes mark (both d e) st := by
  intro q st'' hrun
  rw [Readers.both, hd] at hrun
  dsimp only at hrun
  split at hrun
  · cases hrun
  · rename_i q' st₂ hsecond
    obtain ⟨_, rfl⟩ := Prod.mk.inj (Option.some.inj hrun)
    exact h _ _ hsecond

/-- Authentication token, timestamp and handle, with which a request begins. -/
def handleDecodeBinary : DecM (NodeId × UInt64 × UInt32) :=
  both nodeIdDecodeBinary (both uint64DecodeBinary uint32DecodeBinary)

theorem keeps_handle : Keeps handleDecodeBinary :=
  keeps_both keeps_nodeId (keeps_both (keeps_map _ (keeps_take 8)) keeps_uint32)

theorem repeats_handle : Repeats handleDecodeBinary :=
  repeats_both repeats_nodeId keeps_nodeId
    (repeats_both repeats_uint64 (keeps_map _ (keeps_take 8)) repeats_uint32 (spends_zero spends_uint32))
    (spends_zero (spends_both spends_uint64 spends_uint32))

variable {fuel : Nat} {jump : (t : DataType) → DecM (Val t)} {header header' : Val requestHeader}

section Members

variable {t : DataType} {rest : Members}

theorem members_ok {slots : Slots (.scalar t rest)}
    (h : membersDecodeBinary fuel jump (.scalar t rest) st = some (.ok slots, st')) :
    ∃ v more st₁, typeDecodeBinary fuel jump t st = some (.ok v, st₁) ∧
      membersDecodeBinary fuel jump rest st₁ = some (.ok more, st') ∧ Slots.scalar v more = slots := by
  obtain ⟨⟨v, more⟩, hboth, rfl⟩ := map_ok h
  obtain ⟨st₁, hv, hmore⟩ := both_ok hboth
  exact ⟨v, more, st₁, hv, hmore, rfl⟩

theorem passes_first (hjump : ∀ low t, Frames low (jump t)) (h : Passes mark (typeDecodeBinary fuel jump t) st) :
    Passes mark (membersDecodeBinary fuel jump (.scalar t rest)) st :=
  (h.both (frames_members fuel (hjump _) rest)).map

theorem passes_rest {r : Except StatusCode (Val t)} (h : typeDecodeBinary fuel jump t st = some (r, st'))
    (hrest : Passes mark (membersDecodeBinary fuel jump rest) st') :
    Passes mark (membersDecodeBinary fuel jump (.scalar t rest)) st :=
  (passes_second h hrest).map

end Members

/-- A header that is decoded has been decoded up to its handle, and from there
on. -/
theorem header_passes (hjump : ∀ low t, Frames low (jump t))
    (h : typeDecodeBinary fuel jump requestHeader st = some (.ok header, st')) :
    ∃ id time mark, handleDecodeBinary st = some (.ok (id, time, requestHandle ⟨_, header⟩), mark) ∧
      Passes mark (typeDecodeBinary fuel jump requestHeader) st := by
  obtain ⟨slots, hslots, rfl⟩ := map_ok h
  obtain ⟨v, slots₁, st₁, hv, hslots₁, rfl⟩ := members_ok hslots
  obtain ⟨v₁, slots₂, st₂, hv₁, hslots₂, rfl⟩ := members_ok hslots₁
  obtain ⟨v₂, slots₃, mark, hv₂, _, rfl⟩ := members_ok hslots₂
  obtain ⟨id, hid, rfl⟩ := map_ok hv
  obtain ⟨time, htime, rfl⟩ := map_ok hv₁
  obtain ⟨handle, hhandle, rfl⟩ := map_ok hv₂
  refine ⟨id, time, mark, ?_, ?_⟩
  · have hid : nodeIdDecodeBinary st = some (.ok id, st₁) := hid
    have htime : uint64DecodeBinary st₁ = some (.ok time, st₂) := htime
    have hhandle : uint32DecodeBinary st₂ = some (.ok handle, mark) := hhandle
    simp only [handleDecodeBinary, both, hid, htime, hhandle, joined]
    rfl
  · apply Passes.map (f := Val.struct)
    exact passes_rest hv (passes_rest hv₁ (passes_first hjump (passes_of_run hv₂)))

theorem structure_run (hb : b.decode = standardBuild.decode) (info : StructInfo) (members : Members) (st : Dec) :
    b.decode (.structure info members) st =
      typeDecodeBinary (st.data.length + 1) (decodeBinary st.data.length) (.structure info members) st := by
  rw [hb]
  rfl

/-- The header that is decoded once more behind the body of its request has
the same handle. -/
theorem handle_again (hb : b.decode = standardBuild.decode) (service : Service) (hst : Valid st)
    (hheader : (attempt (b.decode requestHeader) st).1 = .ok header)
    (hbody : (attempt (b.decode service.requestType) st).2 = st')
    (hagain : (attempt (b.decode requestHeader) { st' with offset := st.offset }).1 = .ok header') :
    requestHandle ⟨_, header'⟩ = requestHandle ⟨_, header⟩ := by
  have hjump : ∀ low t, Frames low (decodeBinary st.data.length t) := fun _ t => frames_decode _ t
  have hfirst := ok_of_attempt (Prod.ext hheader rfl : attempt (b.decode requestHeader) st = (.ok header, _))
  have hsecond := ok_of_attempt
    (Prod.ext hagain rfl : attempt (b.decode requestHeader) { st' with offset := st.offset } = (.ok header', _))
  rw [show b.decode requestHeader st = _ from structure_run hb _ _ st] at hfirst
  rw [show b.decode requestHeader { st' with offset := st.offset } = _ from structure_run hb _ _ _] at hsecond
  obtain ⟨id, time, mark, hmark, hpasses⟩ := header_passes hjump hfirst
  obtain ⟨id', time', mark', hmark', _⟩ := header_passes (fun _ t => frames_decode _ t) hsecond
  -- the body begins with the same header
  obtain ⟨r, st₁, hrun, _⟩ := b.decode_moves service.requestType st hst
  obtain rfl : st₁ = st' := by
    rw [attempt, hrun] at hbody
    exact hbody
  obtain ⟨info, rest, htype⟩ := requestType_header service
  have hleaves : Leaves mark.offset mark st₁ := by
    have hrequest : Passes mark (b.decode service.requestType) st := by
      rw [htype, Passes]
      intro r st' h
      rw [structure_run hb] at h
      apply Passes.map (f := Val.struct) (passes_first hjump hpasses) r st' h
    exact hrequest _ _ hrun
  have hsame := repeats_handle st _ mark _ _ mark' hmark hmark' rfl (by
    intro i hi
    rw [← keeps_handle _ _ _ hmark]
    exact hleaves.bytes i hi)
  exact congrArg (fun p => p.2.2) hsame.1

end Handles

section Faults

variable {channel : Option Nat} {requestId handle : UInt32} {code : StatusCode} {pos : Nat}

theorem faults_sendError : Faults requestId handle (sendError b env s c channel requestId code pos st).outputs ↔
    handed env.fault s c channel = true ∧
      ∃ header, (attempt (b.decode requestHeader) { st with offset := pos }).1 = .ok header ∧
        requestHandle ⟨_, header⟩ = handle := by
  unfold sendError
  cases hheader : attempt (b.decode requestHeader) { st with offset := pos } with
  | mk r st' =>
      cases r with
      | error code => simp [Faults]
      | ok header =>
          cases hhanded : handed env.fault s c channel with
          | false => simp [Faults]
          | true =>
              have hfilter : ∀ handle', [Output.fault requestId handle' code].filter isFault =
                  [.fault requestId handle' code] := fun _ => rfl
              simp [Faults, hfilter]

theorem channelConnection_of_part {s' : Server}
    (h : ∀ a, (s'.channels a).map (·.connection) = (s.channels a).map (·.connection)) :
    channelConnection s' c channel = channelConnection s c channel := by
  cases channel with
  | none => rfl
  | some a =>
      rw [channelConnection, channelConnection]
      have hpart := h a
      cases hy : s.channels a with
      | none =>
          rw [hy, Option.map_none, Option.map_eq_none_iff] at hpart
          rw [hpart]
      | some y =>
          rw [hy, Option.map_some, Option.map_eq_some_iff] at hpart
          obtain ⟨y', hy', hconnection⟩ := hpart
          rw [hy', Option.bind_some, Option.bind_some, hconnection]

theorem handed_of_part {s' : Server} (sending : Sending)
    (h : ∀ a, (s'.channels a).map (·.connection) = (s.channels a).map (·.connection)) :
    handed sending s' c channel = handed sending s c channel := by
  unfold handed
  rw [channelConnection_of_part h]

theorem revolved_connection (channel : Option Nat) (a : Nat) :
    ((revolved s channel).channels a).map (·.connection) = (s.channels a).map (·.connection) := by
  cases channel with
  | none => rfl
  | some a' =>
      apply Heaps.modify_part
      intro y
      rw [revolveTokens]
      split <;> rfl

theorem sendBinaryMessage_refused (code : StatusCode) :
    (sendBinaryMessage (.refused code) s c channel).2 = s ∧
      (code ≠ good → (sendBinaryMessage (.refused code) s c channel).1 ≠ good) := by
  unfold sendBinaryMessage
  cases channelConnection s c channel with
  | none => exact ⟨rfl, fun _ h => absurd h (show badInternalError ≠ good by decide)⟩
  | some c' => exact ⟨rfl, id⟩

theorem faults_cons_call (call : Call) (outputs : List Output) :
    Faults requestId handle (.call call :: outputs) ↔ Faults requestId handle outputs := Iff.rfl

/-- What a request meets that is turned down after its body has been decoded. -/
inductive TurnedDown (b : Build) (env : Environment) (s : Server) (service : Service) (session : Option Nat) :
    Rejection → Prop
  | notActivated (hactivated : activated s session = false ∧ typeIndex b.subscriptions service.requestType ≠
      typeIndex b.subscriptions activateSessionRequest) : TurnedDown b env s service session .notActivated
  | noSession (hactivated : ¬ (activated s session = false ∧ typeIndex b.subscriptions service.requestType ≠
      typeIndex b.subscriptions activateSessionRequest)) (hsession : session = none ∧
        typeIndex b.subscriptions service.requestType > typeIndex b.subscriptions activateSessionRequest) :
      TurnedDown b env s service session .noSession
  | tooLarge (hactivated : ¬ (activated s session = false ∧ typeIndex b.subscriptions service.requestType ≠
      typeIndex b.subscriptions activateSessionRequest)) (hsession : ¬ (session = none ∧
        typeIndex b.subscriptions service.requestType > typeIndex b.subscriptions activateSessionRequest))
      (hpublish : service ≠ .publish) {code : StatusCode} (hresponse : env.response = .refused code)
      (hcode : code ≠ good) : TurnedDown b env s service session .tooLarge

/-- What a rejected request meets, check by check. -/
inductive Rejects (b : Build) (env : Environment) (s : Server) (channel : Option Nat) (requestTypeId : NodeId)
    (st : Dec) : Rejection → Dec → Prop
  | foreign (hid : requestTypeId.identifier.isNumeric = false ∨ requestTypeId.namespaceIndex ≠ 0) :
      Rejects b env s channel requestTypeId st .unsupported st
  | unknown (hid : ¬ (requestTypeId.identifier.isNumeric = false ∨ requestTypeId.namespaceIndex ≠ 0))
      (hservice : getServicePointers b (numericBits requestTypeId) = none) :
      Rejects b env s channel requestTypeId st .unsupported st
  | noChannel (hid : ¬ (requestTypeId.identifier.isNumeric = false ∨ requestTypeId.namespaceIndex ≠ 0))
      {service : Service} (hservice : getServicePointers b (numericBits requestTypeId) = some service)
      (hchannel : channel = none ∧ typeIndex b.subscriptions service.requestType >
        typeIndex b.subscriptions openSecureChannelRequest) : Rejects b env s channel requestTypeId st .noChannel st
  | undecodable (hid : ¬ (requestTypeId.identifier.isNumeric = false ∨ requestTypeId.namespaceIndex ≠ 0))
      {service : Service} (hservice : getServicePointers b (numericBits requestTypeId) = some service)
      (hchannel : ¬ (channel = none ∧ typeIndex b.subscriptions service.requestType >
        typeIndex b.subscriptions openSecureChannelRequest)) {code : StatusCode} {st' : Dec}
      (hbody : attempt (b.decode service.requestType) st = (.error code, st')) :
      Rejects b env s channel requestTypeId st .undecodable st'
  | turnedDown (hid : ¬ (requestTypeId.identifier.isNumeric = false ∨ requestTypeId.namespaceIndex ≠ 0))
      {service : Service} (hservice : getServicePointers b (numericBits requestTypeId) = some service)
      (hchannel : ¬ (channel = none ∧ typeIndex b.subscriptions service.requestType >
        typeIndex b.subscriptions openSecureChannelRequest)) {request : Val service.requestType} {st' : Dec}
      (hbody : attempt (b.decode service.requestType) st = (.ok request, st')) {kind : Rejection}
      (hserve : TurnedDown b env s service (channel.bind (channelSession s · (tokenOf ⟨_, request⟩))) kind) :
      Rejects b env s channel requestTypeId st kind st'

theorem rejection_cases {requestTypeId : NodeId} {kind : Rejection} {stop : Dec}
    (h : rejection b env s channel requestTypeId st = some (kind, stop)) :
    Rejects b env s channel requestTypeId st kind stop := by
  unfold rejection at h
  split at h
  · rename_i hid
    obtain ⟨rfl, rfl⟩ := Prod.mk.inj (Option.some.inj h)
    exact .foreign hid
  rename_i hid
  split at h
  · rename_i hservice
    obtain ⟨rfl, rfl⟩ := Prod.mk.inj (Option.some.inj h)
    exact .unknown hid hservice
  rename_i service hservice
  dsimp only at h
  split at h
  · rename_i hchannel
    obtain ⟨rfl, rfl⟩ := Prod.mk.inj (Option.some.inj h)
    exact .noChannel hid hservice hchannel
  rename_i hchannel
  split at h
  · rename_i code st' hbody
    obtain ⟨rfl, rfl⟩ := Prod.mk.inj (Option.some.inj h)
    exact .undecodable hid hservice hchannel hbody
  rename_i request st' hbody
  split at h
  · rename_i hactivated
    obtain ⟨rfl, rfl⟩ := Prod.mk.inj (Option.some.inj h)
    exact .turnedDown hid hservice hchannel hbody (.notActivated hactivated)
  rename_i hactivated
  split at h
  · rename_i hsession
    obtain ⟨rfl, rfl⟩ := Prod.mk.inj (Option.some.inj h)
    exact .turnedDown hid hservice hchannel hbody (.noSession hactivated hsession)
  rename_i hsession
  split at h
  · cases h
  rename_i hpublish
  split at h
  · rename_i code hresponse
    split at h
    · cases h
    · rename_i hcode
      obtain ⟨rfl, rfl⟩ := Prod.mk.inj (Option.some.inj h)
      exact .turnedDown hid hservice hchannel hbody (.tooLarge hactivated hsession hpublish hresponse hcode)
  · cases h

theorem faults_serve {service : Service} {request : Any} {start : Dec} {kind : Rejection}
    (h : TurnedDown b env s service (channel.bind (channelSession s · (tokenOf request))) kind) :
    Faults requestId handle (serve b env s c channel requestId service request start.offset st).outputs ↔
      handed env.fault s c channel = true ∧
        ∃ header, (attempt (b.decode requestHeader) { st with offset := kind.faultOffset start st }).1 = .ok header ∧
          requestHandle ⟨_, header⟩ = handle := by
  unfold serve
  dsimp only
  cases h with
  | notActivated hactivated =>
      rw [if_pos hactivated]
      exact faults_sendError
  | noSession hactivated hsession =>
      rw [if_neg hactivated, if_pos hsession]
      exact faults_sendError
  | @tooLarge hactivated hsession hpublish code hresponse hcode =>
      rw [if_neg hactivated, if_neg hsession, if_neg hpublish, hresponse,
        if_pos ((sendBinaryMessage_refused code).2 hcode), (sendBinaryMessage_refused code).1]
      dsimp only
      rw [faults_cons_call, faults_sendError]
      let session := channel.bind (channelSession s · (tokenOf request))
      have hsessions : OnlySessions s
          (callService env (extended env s session) ⟨service, c, channel, session, request⟩) :=
        (onlySessions_extended session).trans (onlySessions_callService _)
      rw [handed_of_part env.fault (hsessions.part (·.connection) (fun _ => rfl))]
      rfl

/-- A rejected request is answered as `sendError` answers from the offset of
its place. -/
theorem faults_processRequest {requestTypeId : NodeId} {kind : Rejection} {stop : Dec}
    (h : rejection b env s channel requestTypeId st = some (kind, stop)) :
    Faults requestId handle (processRequest b env s c channel requestId requestTypeId st).outputs ↔
      handed env.fault s c channel = true ∧
        ∃ header, (attempt (b.decode requestHeader) { stop with offset := kind.faultOffset st stop }).1 = .ok header ∧
          requestHandle ⟨_, header⟩ = handle := by
  unfold processRequest
  cases rejection_cases h with
  | foreign hid =>
      rw [if_pos hid]
      exact faults_sendError
  | unknown hid hservice =>
      rw [if_neg hid, hservice]
      exact faults_sendError
  | noChannel hid hservice hchannel =>
      rw [if_neg hid, hservice]
      dsimp only
      rw [if_pos hchannel]
      exact faults_sendError
  | undecodable hid hservice hchannel hbody =>
      rw [if_neg hid, hservice]
      dsimp only
      rw [if_neg hchannel, hbody]
      exact faults_sendError
  | turnedDown hid hservice hchannel hbody hserve =>
      rw [if_neg hid, hservice]
      dsimp only
      rw [if_neg hchannel, hbody]
      exact faults_serve hserve

theorem processMSG_of_admitted {requestTypeId : NodeId} {start : Dec} (hadmitted : Admitted s c st)
    (hid : attempt nodeIdDecodeBinary (securityHeaders st).2 = (.ok requestTypeId, start)) :
    processMSG b env s c st =
      processRequest b env (admittedServer s c st) c (connectionChannel s c) (securityHeaders st).1.2.2
        requestTypeId start := by
  unfold processMSG
  dsimp only
  rw [hid]
  dsimp only
  unfold processChecked admittedServer
  dsimp only
  rw [if_neg (not_not.mpr hadmitted.1)]
  split
  · rename_i hcurrent
    rw [if_neg (not_not.mpr (hadmitted.2.resolve_left hcurrent))]
  · rfl

theorem handed_admitted (sending : Sending) :
    handed sending (admittedServer s c st) c channel = handed sending s c channel := by
  rw [admittedServer]
  split
  · exact handed_of_part sending (revolved_connection _)
  · rfl

theorem rejection_stop {requestTypeId : NodeId} {kind : Rejection} {stop : Dec}
    (h : rejection b env s channel requestTypeId st = some (kind, stop)) :
    match kind with
    | .unsupported | .noChannel => stop = st
    | _ => ∃ service : Service, (attempt (b.decode service.requestType) st).2 = stop := by
  cases rejection_cases h with
  | foreign | unknown | noChannel => rfl
  | @undecodable _ service _ _ _ _ hbody => exact ⟨service, congrArg Prod.snd hbody⟩
  | @turnedDown _ service _ _ _ _ hbody kind hserve =>
      cases hserve <;> exact ⟨service, congrArg Prod.snd hbody⟩

/-- From the start of the request the header has the right handle whenever it
can be decoded. -/
theorem header_iff (hb : b.decode = standardBuild.decode) (request : RejectedRequest b env s c st)
    (hstart : Valid request.start) :
    (∃ header, (attempt (b.decode requestHeader)
        { request.stop with offset := request.kind.faultOffset request.start request.stop }).1 = .ok header ∧
      requestHandle ⟨_, header⟩ = requestHandle ⟨_, request.header⟩) ↔
      match request.kind with
      | .unsupported | .noChannel => True
      | .undecodable | .tooLarge =>
          (attempt (b.decode requestHeader) { request.stop with offset := request.start.offset }).1.isOk = true
      | .notActivated | .noSession =>
          ∃ header, (attempt (b.decode requestHeader) request.stop).1 = .ok header ∧
            requestHandle ⟨_, header⟩ = requestHandle ⟨_, request.header⟩ := by
  obtain ⟨requestTypeId, start, header, kind, stop, _, _, hheader, hrejected⟩ := request
  dsimp only at hstart ⊢
  have hstop := rejection_stop hrejected
  have hagain : ∀ service : Service, (attempt (b.decode service.requestType) start).2 = stop →
      ((∃ header', (attempt (b.decode requestHeader) { stop with offset := start.offset }).1 = .ok header' ∧
        requestHandle ⟨_, header'⟩ = requestHandle ⟨_, header⟩) ↔
        (attempt (b.decode requestHeader) { stop with offset := start.offset }).1.isOk = true) := by
    intro service hservice
    constructor
    · rintro ⟨header', hheader', _⟩
      rw [hheader']
      rfl
    · intro hok
      cases hr : (attempt (b.decode requestHeader) { stop with offset := start.offset }).1 with
      | error code =>
          rw [hr] at hok
          cases hok
      | ok header' => exact ⟨header', rfl, handle_again hb service hstart hheader hservice hr⟩
  cases kind with
  | unsupported | noChannel =>
      obtain rfl : stop = start := hstop
      exact ⟨fun _ => trivial, fun _ => ⟨header, hheader, rfl⟩⟩
  | undecodable | tooLarge =>
      obtain ⟨service, hservice⟩ := hstop
      exact hagain service hservice
  | notActivated | noSession => exact Iff.rfl

end Faults

/-- A rejected request gets exactly one fault, with its request id and the
handle of its own header, if and only if it is `Answerable`. -/
theorem rejected_faults_iff (b : Build) (hb : b.decode = standardBuild.decode) (env : Environment) (s : Server)
    (c : Nat) (st : Dec) (hst : Valid st) (request : RejectedRequest b env s c st) :
    Faults (securityHeaders st).1.2.2 (requestHandle ⟨_, request.header⟩) (processMSG b env s c st).outputs ↔
      Answerable request := by
  have hheaders := (securityHeaders_moves hst).valid
  have hstart : Valid request.start := by
    have hmoves := attempt_moves (fun _ => agree_nodeId) hheaders
    rw [request.typeId_eq] at hmoves
    exact hmoves.valid
  rw [processMSG_of_admitted request.admitted request.typeId_eq, faults_processRequest request.rejected,
    handed_admitted, header_iff hb request hstart]
  rfl

def sampleRequest (type body : List UInt8) : Dec := ⟨(requestBytes 1 type sampleToken body).drop 8, 0, [], []⟩

theorem rejected_of_checks {kind : Rejection} (hadmitted : Admitted s c st)
    (hid : (attempt nodeIdDecodeBinary (securityHeaders st).2).1.isOk = true)
    (hheader : (attempt (b.decode requestHeader)
      (attempt nodeIdDecodeBinary (securityHeaders st).2).2).1.isOk = true)
    (hkind : (rejection b env (admittedServer s c st) (connectionChannel s c)
      ((attempt nodeIdDecodeBinary (securityHeaders st).2).1.toOption.getD (numericId 0 0))
      (attempt nodeIdDecodeBinary (securityHeaders st).2).2).map (·.1) = some kind) :
    ∃ request : RejectedRequest b env s c st, request.kind = kind := by
  cases htypeId : attempt nodeIdDecodeBinary (securityHeaders st).2 with
  | mk r start =>
      rw [htypeId] at hid hheader hkind
      cases r with
      | error code => cases hid
      | ok requestTypeId =>
          cases hr : (attempt (b.decode requestHeader) start).1 with
          | error code =>
              rw [hr] at hheader
              cases hheader
          | ok header =>
              obtain ⟨⟨_, stop⟩, hrejected, rfl⟩ := Option.map_eq_some_iff.mp hkind
              exact ⟨⟨requestTypeId, start, header, _, stop, hadmitted, htypeId, hr, hrejected⟩, rfl⟩

/-- A request of an unknown type. -/
theorem rejected_faults_unsupported :
    ∃ request : RejectedRequest standardBuild sampleEnvironment
        (run standardBuild (newServer ⟨true, false, []⟩) sampleOpening) 0 (sampleRequest [1, 0] []),
      request.kind = .unsupported ∧
        Faults (securityHeaders (sampleRequest [1, 0] [])).1.2.2 (requestHandle ⟨_, request.header⟩)
          (processMSG standardBuild sampleEnvironment
            (run standardBuild (newServer ⟨true, false, []⟩) sampleOpening) 0 (sampleRequest [1, 0] [])).outputs := by
  obtain ⟨request, hkind⟩ : ∃ request : RejectedRequest standardBuild sampleEnvironment
      (run standardBuild (newServer ⟨true, false, []⟩) sampleOpening) 0 (sampleRequest [1, 0] []),
      request.kind = .unsupported := by
    refine rejected_of_checks ⟨by decide +kernel, .inl (by decide +kernel)⟩ ?_ ?_ ?_ <;> decide +kernel
  refine ⟨request, hkind, (rejected_faults_iff standardBuild rfl sampleEnvironment
    (run standardBuild (newServer ⟨true, false, []⟩) sampleOpening) 0 (sampleRequest [1, 0] [])
    ⟨Nat.zero_le _, by simp [sampleRequest]⟩ request).mpr ⟨by decide +kernel, ?_⟩⟩
  rw [hkind]
  trivial

/-- A Read request without a session is rejected, and there is no answer: the
header is looked for behind the request. -/
theorem rejected_unanswered :
    ∃ request : RejectedRequest standardBuild sampleEnvironment
        (run standardBuild (newServer ⟨true, false, []⟩) sampleOpening) 0
        (sampleRequest [119, 2] (List.replicate 12 0 ++ nullString)),
      request.kind = .noSession ∧
        (processMSG standardBuild sampleEnvironment
          (run standardBuild (newServer ⟨true, false, []⟩) sampleOpening) 0
          (sampleRequest [119, 2] (List.replicate 12 0 ++ nullString))).outputs.isEmpty = true ∧
        ¬ Faults (securityHeaders (sampleRequest [119, 2] (List.replicate 12 0 ++ nullString))).1.2.2
          (requestHandle ⟨_, request.header⟩)
          (processMSG standardBuild sampleEnvironment
            (run standardBuild (newServer ⟨true, false, []⟩) sampleOpening) 0
            (sampleRequest [119, 2] (List.replicate 12 0 ++ nullString))).outputs := by
  obtain ⟨request, hkind⟩ : ∃ request : RejectedRequest standardBuild sampleEnvironment
      (run standardBuild (newServer ⟨true, false, []⟩) sampleOpening) 0
      (sampleRequest [119, 2] (List.replicate 12 0 ++ nullString)), request.kind = .noSession := by
    refine rejected_of_checks ⟨by decide +kernel, .inl (by decide +kernel)⟩ ?_ ?_ ?_ <;> decide +kernel
  have hempty : (processMSG standardBuild sampleEnvironment
      (run standardBuild (newServer ⟨true, false, []⟩) sampleOpening) 0
      (sampleRequest [119, 2] (List.replicate 12 0 ++ nullString))).outputs.isEmpty = true := by
    decide +kernel
  refine ⟨request, hkind, hempty, ?_⟩
  rintro ⟨code, hfault⟩
  rw [List.isEmpty_iff.mp hempty] at hfault
  cases hfault

end OpcUa.FaultAnswers
