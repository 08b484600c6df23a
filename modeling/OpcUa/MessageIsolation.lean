import OpcUa.HandlerMoves
import OpcUa.ProgramLocality
import OpcUa.SessionGating

namespace OpcUa.MessageIsolation

open StatusCodes NodeIds Connections DataTypes TypeTable Values Readers Decoding ValueDecoding Servers
open SecureChannels Sessions ServiceTable MessageHandlers BoundedReading DecodeBounds HandlerMoves
open ReadPrograms DecoderPrograms PureDecoding ProgramLocality LoopTermination LoopDispatch SessionGating

section Programs

/-- The server after a message and what was sent out for it. -/
abbrev Handling := Server × List Output

variable {α : Type}

def readOrProg (zero : α) (p : Prog α) : Prog α :=
  p.bind fun
    | .ok x => .succeed x
    | .error _ => .succeed zero

/-- `sendError`. Where the message ends, at `high`, there is no request header. -/
def sendErrorProg (fuel high : Nat) (env : Environment) (s : Server) (c : Nat) (channel : Option Nat)
    (requestId : UInt32) (error : StatusCode) (pos : Nat) : Prog Handling :=
  if pos = high then .succeed (s, [])
  else .offset fun here => .seek pos ((uaDecodeProg fuel requestHeader).bind fun
    | .error _ => .seek here (.succeed (s, []))
    | .ok header => .seek here (.succeed ((sendBinaryMessage env.fault s c channel).2,
        if handed env.fault s c channel then [.fault requestId (requestHandle ⟨_, header⟩) error] else [])))

def helloProg : Prog (UInt32 × UInt32 × UInt32 × UInt32 × UInt32 × UaString) :=
  .both uint32Prog (.both uint32Prog (.both uint32Prog (.both uint32Prog (.both uint32Prog stringProg))))

/-- `processHEL` after the decoding. -/
def answerHEL (env : Environment) (s : Server) (c : Nat) :
    Except StatusCode (UInt32 × UInt32 × UInt32 × UInt32 × UInt32 × UaString) → Handling
  | .error _ => (close s c, [])
  | .ok (protocolVersion, receiveBufferSize, sendBufferSize, maxMessageSize, maxChunkCount, _) =>
      let s' := s.setConnection c (fun x =>
        { x with
          remoteConf := ⟨protocolVersion, sendBufferSize, receiveBufferSize, maxMessageSize, maxChunkCount⟩
          localConf :=
            { x.localConf with
              sendBufferSize := min x.localConf.sendBufferSize receiveBufferSize
              recvBufferSize := min x.localConf.recvBufferSize sendBufferSize }
          state := .established })
      if !env.buffer then (s', [])
      else (if env.response = .broken then close s' c else s', [.acknowledged])

def processHELProg (env : Environment) (s : Server) (c : Nat) : Prog Handling :=
  helloProg.bind (fun r => .succeed (answerHEL env s c r))

def openProg (fuel : Nat) : Prog (UInt32 × (UaString × UaString × UaString) × (UInt32 × UInt32) × NodeId ×
    Val openSecureChannelRequest) :=
  .both uint32Prog (.both (.both stringProg (.both stringProg stringProg)) (.both (.both uint32Prog uint32Prog)
    (.both nodeIdProg (uaDecodeProg fuel openSecureChannelRequest))))

def processOPNProg (fuel : Nat) (env : Environment) (s : Server) (c : Nat) : Prog Handling :=
  if !established s c then .succeed (close s c, [])
  else (openProg fuel).bind fun
    | .error _ => .succeed (close s c, [])
    | .ok (_, _, _, requestType, request) =>
        if numericBits requestType ≠ 446 then .succeed (close s c, [])
        else .succeed (answerOPN env (openSecureChannel env s c (openRequest ⟨_, request⟩)).2 c)

def serveProg (fuel high : Nat) (b : Build) (env : Environment) (s : Server) (c : Nat) (channel : Option Nat)
    (requestId : UInt32) (service : Service) (request : Any) (oldpos : Nat) : Prog Handling :=
  let session := channel.bind (channelSession s · (tokenOf request))
  let index := typeIndex b.subscriptions service.requestType
  let activateIndex := typeIndex b.subscriptions activateSessionRequest
  if activated s session = false ∧ index ≠ activateIndex then
    .offset (sendErrorProg fuel high env s c channel requestId badSessionNotActivated)
  else if session = none ∧ index > activateIndex then
    .offset (sendErrorProg fuel high env s c channel requestId badSessionIdInvalid)
  else
    let call : Call := ⟨service, c, channel, session, request⟩
    let s' := callService env (extended env s session) call
    if service = .publish then .succeed (s', [.call call])
    else
      let r := sendBinaryMessage env.response s' c channel
      if r.1 ≠ good then
        .map (fun h => (h.1, .call call :: h.2)) (sendErrorProg fuel high env r.2 c channel requestId r.1 oldpos)
      else .succeed (r.2, [.call call, .response requestId])

def processRequestProg (fuel high : Nat) (b : Build) (env : Environment) (s : Server) (c : Nat)
    (channel : Option Nat) (requestId : UInt32) (requestTypeId : NodeId) : Prog Handling :=
  if requestTypeId.identifier.isNumeric = false ∨ requestTypeId.namespaceIndex ≠ 0 then
    .offset (sendErrorProg fuel high env s c channel requestId badServiceUnsupported)
  else match getServicePointers b (numericBits requestTypeId) with
    | none => .offset (sendErrorProg fuel high env s c channel requestId badServiceUnsupported)
    | some service =>
        if channel = none ∧ typeIndex b.subscriptions service.requestType >
            typeIndex b.subscriptions openSecureChannelRequest then
          .offset (sendErrorProg fuel high env s c channel requestId badSecureChannelIdInvalid)
        else .offset fun oldpos => (uaDecodeProg fuel service.requestType).bind fun
          | .error code => sendErrorProg fuel high env s c channel requestId code oldpos
          | .ok request => serveProg fuel high b env s c channel requestId service ⟨_, request⟩ oldpos

def processCheckedProg (fuel high : Nat) (b : Build) (env : Environment) (s : Server) (c : Nat)
    (secureChannelId tokenId requestId : UInt32) (requestTypeId : NodeId) : Prog Handling :=
  let channel := connectionChannel s c
  if secureChannelId ≠ (channelToken s channel).channelId then .succeed (s, [])
  else if tokenId ≠ (channelToken s channel).tokenId then
    if tokenId ≠ (nextToken s channel).tokenId then
      .succeed (closeSecureChannel s (channelToken s channel).channelId, [])
    else processRequestProg fuel high b env (revolved s channel) c channel requestId requestTypeId
  else processRequestProg fuel high b env s c channel requestId requestTypeId

def processMSGProg (fuel high : Nat) (b : Build) (env : Environment) (s : Server) (c : Nat) : Prog Handling :=
  .andThen (readOrProg 0 uint32Prog) fun secureChannelId =>
    .andThen (readOrProg 0 uint32Prog) fun tokenId =>
      .andThen (readOrProg (0, 0) (.both uint32Prog uint32Prog)) fun sequenceHeader =>
        nodeIdProg.bind fun
          | .error _ => .succeed (s, [])
          | .ok requestTypeId =>
              processCheckedProg fuel high b env s c secureChannelId tokenId sequenceHeader.2 requestTypeId

def processCLOProg (s : Server) (c : Nat) : Prog Handling :=
  uint32Prog.bind fun
    | .error _ => .succeed (s, [])
    | .ok secureChannelId =>
        let channel := connectionChannel s c
        if channel = none ∨ (channelToken s channel).channelId ≠ secureChannelId then .succeed (s, [])
        else .succeed (closeSecureChannel s secureChannelId, [])

/-- The handling of a message that ends at `high`, behind its header. -/
def messageProg (fuel high : Nat) (b : Build) (env : Environment) (s : Server) (c : Nat) :
    Option MessageType → Prog Handling
  | some .hel => processHELProg env s c
  | some .opn => processOPNProg fuel env s c
  | some .msg =>
      if !established s c then .succeed (close s c, []) else processMSGProg fuel high b env s c
  | some .clo => .map (fun h => (close h.1 c, h.2)) (processCLOProg s c)
  | _ => .succeed (s, [])

end Programs

variable {α β : Type} {fuel low high : Nat} {st : Dec} {b : Build} {env : Environment} {s : Server} {c : Nat}

/-- A place in a buffer in which a message ends at `high`, with nothing or
with another message behind it, which does not begin like a NodeId. -/
structure Placed (fuel high : Nat) (st : Dec) : Prop where
  valid : Valid st
  fuel : st.data.length < fuel
  high_le : high ≤ st.data.length
  ends : high = st.data.length ∨ 5 < st.data.getD high 0

theorem Placed.seek (h : Placed fuel high st) {pos : Nat} (hpos : pos ≤ st.data.length) :
    Placed fuel high { st with offset := pos } :=
  ⟨⟨hpos, h.valid.reads_le⟩, h.fuel, h.high_le, h.ends⟩

theorem placed_of_moves {p : Prog α} {st' : Dec} {r : Except StatusCode α} (h : Placed fuel high st)
    (hin : inside low high p st = true) (hrun : p.run st = some (r, st')) (hmoves : Moves st st') :
    Placed fuel high st' := by
  refine ⟨hmoves.valid, ?_, ?_, ?_⟩
  · rw [hmoves.length_eq]
    exact h.fuel
  · rw [hmoves.length_eq]
    exact h.high_le
  · rw [hmoves.length_eq, run_frame p hin hrun h.high_le (le_refl high)]
    exact h.ends

theorem placed_step {p : Prog α} {d : DecM α} (hagree : Agree (st.data.length - st.offset) p.run d)
    (h : Placed fuel high st) (hin : inside low high p st = true) :
    ∃ r st', p.run st = some (r, st') ∧ attempt d st = (r, st') ∧ Placed fuel high st' ∧
      st'.data.length = st.data.length := by
  obtain ⟨r, st', hprog, hrun, hmoves⟩ := hagree st h.valid (le_refl _)
  refine ⟨r, st', hprog, ?_, placed_of_moves h hin hprog hmoves, hmoves.length_eq⟩
  rw [attempt, hrun]
  rfl

theorem agree_decode (hb : b.decode = standardBuild.decode) (t : DataType) {most : Nat} (h : most < fuel) :
    Agree most (uaDecodeProg fuel t).run (b.decode t) := by
  intro st hst hleft
  have hleft' : st.data.length - st.offset < fuel := by omega
  rw [uaDecode_run, hb]
  exact agree_ua hleft' (show st.data.length - st.offset < st.data.length + 1 by omega) t st hst (le_refl _)

theorem Placed.left_lt (h : Placed fuel high st) : st.data.length - st.offset < fuel := by
  have := h.fuel
  omega

section EndOfMessage

theorem nodeId_fails (h : Placed fuel high st) (hoffset : st.offset = high) :
    ∀ id st', nodeIdDecodeBinary st ≠ some (.ok id, st') := by
  intro id st' hrun
  rw [nodeIdDecodeBinary, andThen, byteDecodeBinary, map, andThen, take] at hrun
  rcases h.ends with hend | hkind
  · rw [if_pos (by omega)] at hrun
    cases hrun
  · by_cases hover : st.offset + 1 > st.data.length
    · rw [if_pos hover] at hrun
      cases hrun
    · rw [if_neg hover] at hrun
      have hbyte : UInt8.ofNat (LittleEndian.ofBytes ((st.data.drop st.offset).take 1)) =
          st.data.getD high 0 := by
        rw [hoffset] at hover ⊢
        rw [List.getD_eq_getElem _ _ (by omega), List.drop_eq_getElem_cons (by omega), List.take_succ_cons,
          List.take_zero]
        simp only [LittleEndian.ofBytes, Nat.mul_zero, Nat.add_zero, UInt8.ofNat_toNat]
      simp only [succeed, hbyte] at hrun
      have hne : ∀ k : UInt8, k ≤ 5 → st.data.getD high 0 ≠ k := by
        intro k hk heq
        rw [heq] at hkind
        exact absurd (UInt8.lt_of_lt_of_le hkind hk) (UInt8.lt_irrefl _)
      rw [nodeIdBodyDecodeBinary, if_neg (hne 0 (by decide)), if_neg (hne 1 (by decide)),
        if_neg (hne 2 (by decide)), if_neg (hne 3 (by decide)), if_neg (hne 4 (by decide)),
        if_neg (hne 5 (by decide))] at hrun
      cases hrun

theorem ok_of_both {d : DecM α} {e : DecM β} {x : α × β} {st' : Dec} (h : both d e st = some (.ok x, st')) :
    ∃ st₁, d st = some (.ok x.1, st₁) := by
  rw [both] at h
  split at h
  · cases h
  · rename_i r st₁ hd
    split at h
    · cases h
    · rename_i q st₂ he
      obtain ⟨hjoined, _⟩ := Prod.mk.inj (Option.some.inj h)
      cases r with
      | error code => cases q <;> cases hjoined
      | ok a =>
          cases q with
          | error code => cases hjoined
          | ok b' =>
              obtain rfl := Except.ok.inj hjoined
              exact ⟨st₁, hd⟩

theorem ok_of_map {d : DecM α} {f : α → β} {y : β} {st' : Dec} (h : map f d st = some (.ok y, st')) :
    ∃ x st₁, d st = some (.ok x, st₁) := by
  rw [map, andThen] at h
  split at h
  · cases h
  · cases h
  · rename_i a st₁ hd
    exact ⟨a, st₁, hd⟩

theorem header_fails (h : Placed (fuel + 1) high st) (hoffset : st.offset = high) :
    ∀ header st', uaDecodeBinary (fuel + 1) requestHeader st ≠ some (.ok header, st') := by
  intro header st' hrun
  have hmembers : ∃ rest f, uaDecodeBinary (fuel + 1) requestHeader =
      map Val.struct (map f (both (map (fun id => (Val.simple id : Val TypeTable.nodeId)) nodeIdDecodeBinary)
        (membersDecodeBinary (fuel + 1) (decodeBinary fuel) rest))) := ⟨_, _, rfl⟩
  obtain ⟨rest, f, hmembers⟩ := hmembers
  rw [hmembers] at hrun
  obtain ⟨slots, st₁, hslots⟩ := ok_of_map hrun
  obtain ⟨x, st₂, hboth⟩ := ok_of_map hslots
  obtain ⟨st₃, hfirst⟩ := ok_of_both hboth
  obtain ⟨id, st₄, hid⟩ := ok_of_map hfirst
  exact nodeId_fails h hoffset id st₄ hid

end EndOfMessage

section Handlers

/-- The program does to the server what the handler does, and sends the same. -/
def Handles (p : Prog Handling) (st : Dec) (h : Handled) : Prop :=
  ∃ st', p.run st = some (.ok (h.server, h.outputs), st')

variable {channel : Option Nat} {requestId : UInt32}

theorem handles_bind {p : Prog α} {f : Except StatusCode α → Prog Handling} {r : Except StatusCode α} {st' : Dec}
    {h : Handled} (hrun : p.run st = some (r, st')) (hrest : Handles (f r) st' h) : Handles (p.bind f) st h := by
  obtain ⟨st'', hlast⟩ := hrest
  refine ⟨st'', ?_⟩
  rw [run_bind, hrun]
  exact hlast

theorem handles_sendError (hb : b.decode = standardBuild.decode) {error : StatusCode} {pos : Nat}
    (hst : Placed fuel high st) (hpos : pos ≤ st.data.length)
    (hin : inside low high (sendErrorProg fuel high env s c channel requestId error pos) st = true) :
    Handles (sendErrorProg fuel high env s c channel requestId error pos) st
      (sendError b env s c channel requestId error pos st) := by
  have hplaced := hst.seek hpos
  rw [sendErrorProg] at hin ⊢
  by_cases hend : pos = high
  · -- nothing but the beginning of another message is there
    obtain ⟨r, st', hrun, hmoves⟩ := b.decode_moves requestHeader { st with offset := pos } hplaced.valid
    have hfails : ∃ code, r = .error code := by
      cases r with
      | error code => exact ⟨code, rfl⟩
      | ok header =>
          obtain ⟨n, rfl⟩ : ∃ n, fuel = n + 1 := ⟨fuel - 1, by have := hst.fuel; omega⟩
          obtain ⟨_, _, hprog, hrun', _⟩ := agree_decode hb requestHeader hplaced.left_lt _ hplaced.valid (le_refl _)
          rw [uaDecode_run, ← hrun', hrun] at hprog
          exact absurd hprog (header_fails hplaced hend header st')
    obtain ⟨code, rfl⟩ := hfails
    rw [if_pos hend, sendError, attempt, hrun]
    exact ⟨st, rfl⟩
  · rw [if_neg hend] at hin ⊢
    rw [inside, inside, Bool.and_eq_true] at hin
    obtain ⟨hdecode, _⟩ := inside_bind hplaced.high_le hin.2
    obtain ⟨r, st', hrun, hattempt, _⟩ := 
      placed_step (agree_decode hb requestHeader hplaced.left_lt) hplaced hdecode
    rw [sendError, hattempt, Handles, Prog.run, Prog.run, run_bind, hrun]
    cases r with
    | error code => exact ⟨_, rfl⟩
    | ok header => exact ⟨_, rfl⟩

theorem handles_serve (hb : b.decode = standardBuild.decode) {service : Service} {request : Any} {oldpos : Nat}
    (hst : Placed fuel high st) (hpos : oldpos ≤ st.data.length)
    (hin : inside low high (serveProg fuel high b env s c channel requestId service request oldpos) st = true) :
    Handles (serveProg fuel high b env s c channel requestId service request oldpos) st
      (serve b env s c channel requestId service request oldpos st) := by
  unfold serveProg at hin ⊢
  unfold serve
  dsimp only at hin ⊢
  split
  · rename_i h
    rw [if_pos h] at hin
    exact handles_sendError hb hst hst.valid.offset_le hin
  rename_i hactivated
  rw [if_neg hactivated] at hin
  split
  · rename_i h
    rw [if_pos h] at hin
    exact handles_sendError hb hst hst.valid.offset_le hin
  rename_i hsession
  rw [if_neg hsession] at hin
  split
  · exact ⟨st, rfl⟩
  rename_i hpublish
  rw [if_neg hpublish] at hin
  split
  · rename_i h
    rw [if_pos h] at hin
    obtain ⟨herror, _⟩ := inside_bind hst.high_le hin
    obtain ⟨st', hrun⟩ := handles_sendError hb hst hpos herror
    refine ⟨st', ?_⟩
    rw [run_map, Readers.map, andThen, hrun]
    rfl
  · exact ⟨st, rfl⟩

theorem handles_processRequest (hb : b.decode = standardBuild.decode) {requestTypeId : NodeId}
    (hst : Placed fuel high st)
    (hin : inside low high (processRequestProg fuel high b env s c channel requestId requestTypeId) st = true) :
    Handles (processRequestProg fuel high b env s c channel requestId requestTypeId) st
      (processRequest b env s c channel requestId requestTypeId st) := by
  unfold processRequestProg at hin ⊢
  unfold processRequest
  split
  · rename_i h
    rw [if_pos h] at hin
    exact handles_sendError hb hst hst.valid.offset_le hin
  rename_i hnumeric
  rw [if_neg hnumeric] at hin
  cases hservice : getServicePointers b (numericBits requestTypeId) with
  | none =>
      rw [hservice] at hin
      exact handles_sendError hb hst hst.valid.offset_le hin
  | some service =>
      rw [hservice] at hin
      dsimp only at hin ⊢
      split
      · rename_i h
        rw [if_pos h] at hin
        exact handles_sendError hb hst hst.valid.offset_le hin
      rename_i hanonymous
      rw [if_neg hanonymous, inside] at hin
      obtain ⟨hdecode, hrest⟩ := inside_bind hst.high_le hin
      obtain ⟨r, st', hrun, hattempt, hplaced, hlength⟩ := 
        placed_step (agree_decode hb service.requestType hst.left_lt) hst hdecode
      have hin' := hrest r st' hrun
      have hpos : st.offset ≤ st'.data.length := by
        rw [hlength]
        exact hst.valid.offset_le
      rw [hattempt]
      cases r with
      | error code => exact handles_bind hrun (handles_sendError hb hplaced hpos hin')
      | ok request => exact handles_bind hrun (handles_serve hb hplaced hpos hin')

theorem handles_processChecked (hb : b.decode = standardBuild.decode) {secureChannelId tokenId : UInt32}
    {requestTypeId : NodeId} (hst : Placed fuel high st)
    (hin : inside low high
      (processCheckedProg fuel high b env s c secureChannelId tokenId requestId requestTypeId) st = true) :
    Handles (processCheckedProg fuel high b env s c secureChannelId tokenId requestId requestTypeId) st
      (processChecked b env s c secureChannelId tokenId requestId requestTypeId st) := by
  unfold processCheckedProg at hin ⊢
  unfold processChecked
  dsimp only at hin ⊢
  split
  · exact ⟨st, rfl⟩
  rename_i hid
  rw [if_neg hid] at hin
  split
  · rename_i hcurrent
    rw [if_pos hcurrent] at hin
    split
    · exact ⟨st, rfl⟩
    · rename_i hnext
      rw [if_neg hnext] at hin
      exact handles_processRequest hb hst hin
  · rename_i hcurrent
    rw [if_neg hcurrent] at hin
    exact handles_processRequest hb hst hin

theorem handles_readOr {zero : α} {p : Prog α} {d : DecM α} {f : α → Prog Handling} {h : Handled} 
    (hagree : Agree (st.data.length - st.offset) p.run d) (hst : Placed fuel high st)
    (hin : inside low high (.andThen (readOrProg zero p) f) st = true)
    (hrest : Placed fuel high (readOr zero d st).2 →
      inside low high (f (readOr zero d st).1) (readOr zero d st).2 = true →
        Handles (f (readOr zero d st).1) (readOr zero d st).2 h) :
    Handles (.andThen (readOrProg zero p) f) st h := by
  obtain ⟨hfirst, hsecond⟩ := inside_bind hst.high_le hin
  obtain ⟨hread, _⟩ := inside_bind hst.high_le hfirst
  obtain ⟨r, st', hrun, hattempt, hplaced, _⟩ := placed_step hagree hst hread
  have hor : (readOrProg zero p).run st = some (.ok (readOr zero d st).1, (readOr zero d st).2) := by
    rw [readOrProg, run_bind, hrun, readOr, hattempt]
    cases r with
    | error code => rfl
    | ok x => rfl
  have hplaced' : Placed fuel high (readOr zero d st).2 := by
    rw [readOr, hattempt]
    cases r with
    | error code => exact hplaced
    | ok x => exact hplaced
  exact handles_bind hor (hrest hplaced' (hsecond _ _ hor))

theorem handles_processMSG (hb : b.decode = standardBuild.decode) (hst : Placed fuel high st)
    (hin : inside low high (processMSGProg fuel high b env s c) st = true) :
    Handles (processMSGProg fuel high b env s c) st (processMSG b env s c st) := by
  have hword : ∀ most, Agree most uint32Prog.run uint32DecodeBinary := by
    intro most
    rw [uint32_run]
    exact agree_uint32
  have hwords : ∀ most, Agree most (Prog.both uint32Prog uint32Prog).run
    (both uint32DecodeBinary uint32DecodeBinary) := by
    intro most
    rw [run_both]
    exact agree_both (hword most) (hword most)
  have hnode : ∀ most, Agree most nodeIdProg.run nodeIdDecodeBinary := by
    intro most
    rw [nodeId_run]
    exact agree_nodeId
  unfold processMSG securityHeaders
  refine handles_readOr (hword _) hst hin (fun hst₁ hin₁ => ?_)
  refine handles_readOr (hword _) hst₁ hin₁ (fun hst₂ hin₂ => ?_)
  refine handles_readOr (hwords _) hst₂ hin₂ (fun hst₃ hin₃ => ?_)
  obtain ⟨hid, hrest⟩ := inside_bind hst₃.high_le hin₃
  obtain ⟨r, st', hrun, hattempt, hplaced, _⟩ := placed_step (hnode _) hst₃ hid
  dsimp only
  rw [hattempt]
  cases r with
  | error code => exact handles_bind hrun ⟨_, rfl⟩
  | ok requestTypeId => exact handles_bind hrun (handles_processChecked hb hplaced (hrest _ _ hrun))

theorem handles_processHEL (hst : Placed fuel high st) (hin : inside low high (processHELProg env s c) st = true) :
    Handles (processHELProg env s c) st (processHEL env s c st) := by
  have hagree : ∀ most, Agree most helloProg.run helloDecodeBinary := by
    intro most
    simp only [helloProg, run_both, uint32_run, string_run]
    exact agree_hello most
  obtain ⟨hhello, _⟩ := inside_bind hst.high_le hin
  obtain ⟨r, st', hread, hattempt, _⟩ := placed_step (hagree _) hst hhello
  rw [processHEL, hattempt]
  refine handles_bind hread ⟨st', ?_⟩
  cases r with
  | error code => rfl
  | ok hello =>
      obtain ⟨protocolVersion, receiveBufferSize, sendBufferSize, maxMessageSize, maxChunkCount, endpoint⟩ := hello
      cases hbuffer : env.buffer with
      | false => simp [answerHEL, hbuffer, Prog.succeed, Prog.run]
      | true => simp [answerHEL, hbuffer, Prog.succeed, Prog.run]

theorem agree_openProg (hb : b.decode = standardBuild.decode) {most : Nat} (h : most < fuel) :
    Agree most (openProg fuel).run (openDecodeBinary b) := by
  simp only [openProg, run_both, uint32_run, string_run, nodeId_run]
  exact agree_both agree_uint32
    (agree_both (agree_both agree_string (agree_both agree_string agree_string))
      (agree_both (agree_both agree_uint32 agree_uint32)
        (agree_both agree_nodeId (agree_decode hb openSecureChannelRequest h))))

theorem handles_processOPN (hb : b.decode = standardBuild.decode) (hst : Placed fuel high st)
    (hin : inside low high (processOPNProg fuel env s c) st = true) :
    Handles (processOPNProg fuel env s c) st (processOPN b env s c st) := by
  unfold processOPNProg at hin ⊢
  unfold processOPN
  split
  · exact ⟨st, rfl⟩
  rename_i hestablished
  rw [if_neg hestablished] at hin
  obtain ⟨hopen, _⟩ := inside_bind hst.high_le hin
  obtain ⟨r, st', hread, hattempt, _⟩ := placed_step (agree_openProg hb hst.left_lt) hst hopen
  rw [hattempt]
  refine handles_bind hread ⟨st', ?_⟩
  cases r with
  | error code => rfl
  | ok message =>
      obtain ⟨channelId, header, sequenceHeader, requestType, request⟩ := message
      by_cases htype : numericBits requestType ≠ 446
      · simp [htype, Prog.succeed, Prog.run]
      · simp [htype, Prog.succeed, Prog.run]

theorem handles_processCLO (hst : Placed fuel high st) (hin : inside low high (processCLOProg s c) st = true) :
    Handles (processCLOProg s c) st (processCLO s c st) := by
  have hagree : ∀ most, Agree most uint32Prog.run uint32DecodeBinary := by
    intro most
    rw [uint32_run]
    exact agree_uint32
  obtain ⟨hid, _⟩ := inside_bind hst.high_le hin
  obtain ⟨r, st', hread, hattempt, _⟩ := placed_step (hagree _) hst hid
  rw [processCLO, hattempt]
  refine handles_bind hread ⟨st', ?_⟩
  cases r with
  | error code => rfl
  | ok secureChannelId =>
      dsimp only
      split
      · rfl
      · rfl

theorem handles_dispatch (hb : b.decode = standardBuild.decode) {type : Option MessageType}
    (hst : Placed fuel high st) (hin : inside low high (messageProg fuel high b env s c type) st = true)
    (targetpos : Nat) :
    ∃ st', (messageProg fuel high b env s c type).run st =
      some (.ok ((dispatch b env s c targetpos type st).server, (dispatch b env s c targetpos type st).outputs),
        st') := by
  rcases type with _ | _ | _ | _ | _ | _
  · exact ⟨st, rfl⟩
  · by_cases hestablished : (!established s c) = true
    · refine ⟨st, ?_⟩
      rw [messageProg, dispatch, if_pos hestablished, if_pos hestablished]
      rfl
    · rw [messageProg, if_neg hestablished] at hin
      rw [messageProg, dispatch, if_neg hestablished, if_neg hestablished]
      dsimp only [skipTo]
      exact handles_processMSG hb hst hin
  · dsimp only [messageProg, dispatch, skipTo] at hin ⊢
    exact handles_processOPN hb hst hin
  · dsimp only [messageProg, dispatch, skipTo] at hin ⊢
    exact handles_processHEL hst hin
  · exact ⟨st, rfl⟩
  · obtain ⟨hclo, _⟩ := inside_bind hst.high_le hin
    obtain ⟨st', hrun⟩ := handles_processCLO hst hclo
    refine ⟨st', ?_⟩
    rw [messageProg, run_map, Readers.map, andThen, hrun]
    rfl

end Handlers

section Isolation

variable {maxMessageSize : UInt32} {before before' m : List UInt8} {after after' : List (List UInt8)}
variable {heap : List Bool}

/-- The buffer when the loop has come to the message `m`. -/
def atMessage (before m : List UInt8) (after : List (List UInt8)) (heap : List Bool) : Dec :=
  ⟨before ++ m ++ after.flatten, before.length, [], heap⟩

/-- While the message is handled nothing outside of it is asked for. -/
def Contained (fuel : Nat) (b : Build) (env : Environment) (s : Server) (c : Nat) (m : List UInt8) (st : Dec) : Prop :=
  inside st.offset (st.offset + m.length) (messageProg fuel (st.offset + m.length) b env s c (typeAt m 0))
    ((st.advance 4).advance 4) = true

/-- Two passes that do the same to the server, send the same and go on at the
same position. -/
structure SameHandling (target : Nat) (r r' : Pass) : Prop where
  server : r'.server = r.server
  outputs : r'.outputs = r.outputs
  type : r'.type = r.type
  returned : r'.returned = r.returned
  offset : r.returned = false → r.dec.offset = target ∧ r'.dec.offset = target

theorem lt_head_of_wellFormed (h : WellFormed maxMessageSize m) : 5 < m.getD 0 0 := by
  obtain ⟨hrecognized, -, hlen, -⟩ := h
  obtain ⟨first, rest, rfl⟩ := List.exists_cons_of_length_pos (show 0 < m.length by omega)
  have hcode : msgtypeAt (first :: rest) 0 % 256 = first.toNat := by
    rw [msgtypeAt, List.drop_zero, List.take_succ_cons, LittleEndian.ofBytes]
    have := first.toNat_lt
    omega
  have hlarge : 5 < msgtypeAt (first :: rest) 0 % 256 := by
    simp only [recognized, Bool.or_eq_true, beq_iff_eq, MessageType.code] at hrecognized
    omega
  rw [hcode] at hlarge
  exact UInt8.lt_iff_toNat_lt.mpr hlarge

theorem placed_atMessage (hm : WellFormed maxMessageSize m) (hafter : ∀ n ∈ after, WellFormed maxMessageSize n)
    (hfuel : (before ++ m ++ after.flatten).length < fuel) :
    Placed fuel (before.length + m.length) (((atMessage before m after heap).advance 4).advance 4) := by
  have hlen := hm.2.2.1
  have hlength : (before ++ m ++ after.flatten).length = before.length + m.length + after.flatten.length := by
    rw [List.length_append, List.length_append]
  refine ⟨?_, hfuel, ?_, ?_⟩
  · refine (header_moves ?_ ⟨?_, ?_⟩).valid
    · change before.length + 8 ≤ (before ++ m ++ after.flatten).length
      omega
    · change before.length ≤ (before ++ m ++ after.flatten).length
      omega
    · intro x hx
      cases hx
  · change before.length + m.length ≤ (before ++ m ++ after.flatten).length
    omega
  · change _ = (before ++ m ++ after.flatten).length ∨ 5 < (before ++ m ++ after.flatten).getD _ 0
    cases after with
    | nil =>
        left
        rw [hlength]
        rfl
    | cons n after =>
        right
        have hn := hafter n (List.mem_cons_self ..)
        have hpos := hn.2.2.1
        rw [List.getD_append_right _ _ _ _ (by rw [List.length_append]), List.length_append, Nat.sub_self,
          List.flatten_cons, List.getD_append _ _ _ _ (by omega)]
        exact lt_head_of_wellFormed hn

theorem getD_atMessage {i : Nat} (hlow : before.length ≤ i) (hhigh : i < before.length + m.length) :
    (before ++ m ++ after.flatten).getD i 0 = m.getD (i - before.length) 0 := by
  rw [List.getD_append _ _ _ _ (by rw [List.length_append]; exact hhigh), List.getD_append_right _ _ _ _ hlow]

theorem shares_atMessage (hbefore : before'.length = before.length) :
    Shares before.length (before.length + m.length) (((atMessage before m after heap).advance 4).advance 4)
      (((atMessage before' m after' heap).advance 4).advance 4) := by
  refine ⟨?_, ?_, rfl, ?_, ?_, ?_⟩
  · change before'.length + 4 + 4 = before.length + 4 + 4
    rw [hbefore]
  · change before.length ≤ before.length + 4 + 4
    omega
  · change before.length + m.length ≤ (before ++ m ++ after.flatten).length
    rw [List.length_append, List.length_append]
    omega
  · change before.length + m.length ≤ (before' ++ m ++ after'.flatten).length
    rw [List.length_append, List.length_append]
    omega
  · intro i hlow hhigh
    change (before' ++ m ++ after'.flatten).getD i 0 = (before ++ m ++ after.flatten).getD i 0
    rw [getD_atMessage (by omega) (by omega), getD_atMessage hlow hhigh, hbefore]

theorem pass_atMessage (hm : WellFormed maxMessageSize m) :
    pass b env s c (atMessage before m after heap) =
      dispatch b env s c (before.length + m.length) (typeAt m 0)
        (((atMessage before m after heap).advance 4).advance 4) := by
  have hlen := hm.2.2.1
  have hroom : (atMessage before m after heap).offset + 8 ≤ (atMessage before m after heap).data.length := by
    change before.length + 8 ≤ (before ++ m ++ after.flatten).length
    rw [List.length_append, List.length_append]
    omega
  have hsize : sizeAt (before ++ m ++ after.flatten) before.length = m.length := by
    rw [sizeAt_append _ _ _ (by omega), sizeAt_wellFormed hm]
  have htype : typeAt (before ++ m ++ after.flatten) before.length = typeAt m 0 :=
    typeAt_append _ _ _ (by omega)
  rw [pass_eq hroom]
  change dispatch b env s c (before.length + sizeAt (before ++ m ++ after.flatten) before.length)
    (typeAt (before ++ m ++ after.flatten) before.length) _ = _
  rw [hsize, htype]

/-- A message that is contained in its own bytes is handled in the same way
whatever is in front of it and whatever follows. -/
theorem pass_isolated_of_contained (b : Build) (hb : b.decode = standardBuild.decode) (env : Environment) (s : Server)
    (c : Nat) (maxMessageSize : UInt32) (before before' m : List UInt8) (after after' : List (List UInt8))
    (heap : List Bool) (fuel : Nat) (hm : WellFormed maxMessageSize m)
    (hafter : ∀ n ∈ after, WellFormed maxMessageSize n) (hafter' : ∀ n ∈ after', WellFormed maxMessageSize n)
    (hbefore : before'.length = before.length) (hfuel : (before ++ m ++ after.flatten).length < fuel)
    (hfuel' : (before' ++ m ++ after'.flatten).length < fuel)
    (hcontained : Contained fuel b env s c m (atMessage before m after heap)) :
    SameHandling (before.length + m.length) (pass b env s c (atMessage before m after heap))
      (pass b env s c (atMessage before' m after' heap)) := by
  have hshares : Shares before.length (before.length + m.length)
      (((atMessage before m after heap).advance 4).advance 4)
      (((atMessage before' m after' heap).advance 4).advance 4) := shares_atMessage hbefore
  have hplaced : Placed fuel (before.length + m.length) (((atMessage before m after heap).advance 4).advance 4) :=
    placed_atMessage hm hafter hfuel
  have hplaced' : Placed fuel (before.length + m.length) (((atMessage before' m after' heap).advance 4).advance 4) := by
    rw [← hbefore]
    exact placed_atMessage hm hafter' hfuel'
  have hin : inside before.length (before.length + m.length)
      (messageProg fuel (before.length + m.length) b env s c (typeAt m 0))
      (((atMessage before m after heap).advance 4).advance 4) = true := hcontained
  obtain ⟨st, hrun⟩ := handles_dispatch hb hplaced hin (before.length + m.length)
  obtain ⟨st', hrun'⟩ := handles_dispatch hb hplaced' (inside_shares _ hin hshares) (before.length + m.length)
  rw [pass_atMessage hm, pass_atMessage hm, hbefore]
  obtain ⟨hnone, _⟩ | ⟨r, st₁, st₂, hr, hr', _⟩ := run_alike _ hin hshares
  · rw [hnone] at hrun
    cases hrun
  · rw [hrun] at hr
    rw [hrun', ← (Prod.mk.inj (Option.some.inj hr)).1] at hr'
    have hsame := Except.ok.inj (Prod.mk.inj (Option.some.inj hr')).1
    obtain ⟨hserver, houtputs⟩ := Prod.mk.inj hsame
    refine ⟨hserver, houtputs, ?_, ?_, ?_⟩
    · rw [dispatch_type, dispatch_type]
    · rw [dispatch_returned, dispatch_returned]
    · intro hreturned
      rw [dispatch_returned] at hreturned
      exact ⟨dispatch_offset hreturned, dispatch_offset hreturned⟩

def sampleEndpoints (size : UInt8) (rest : List UInt8) : List UInt8 :=
  [77, 83, 71, 70, size, 0, 0, 0] ++ List.replicate 16 0 ++ [1, 0, 172, 1, 0, 0] ++ List.replicate 16 0 ++
    [255, 255, 255, 255] ++ List.replicate 7 0 ++ rest

def sampleComplete : List UInt8 := sampleEndpoints 69 ([255, 255, 255, 255] ++ List.replicate 8 0)

def sampleLying : List UInt8 := sampleEndpoints 61 [16, 0, 0, 0]

theorem pass_isolated_sampleComplete :
    SameHandling 69 (pass standardBuild sampleEnvironment sampleEstablished 0 (atMessage [] sampleComplete [] []))
      (pass standardBuild sampleEnvironment sampleEstablished 0
        (atMessage [] sampleComplete [sampleVictim] [])) :=
  pass_isolated_of_contained standardBuild rfl sampleEnvironment sampleEstablished 0 65536 [] [] sampleComplete []
    [sampleVictim] [] 134 (by decide) (by decide) (by decide) rfl (by decide +kernel) (by decide +kernel)
    (by unfold Contained; decide +kernel)

/-- Alone, the message is refused. In front of another message it is taken
for a request for the endpoints at an URL of 16 bytes, which are those of the
other message. -/
theorem pass_absorbs_successor :
    (∀ m ∈ [sampleLying, sampleVictim], WellFormed 65536 m) ∧
      ((pass standardBuild sampleEnvironment sampleEstablished 0
        (atMessage [] sampleLying [] [])).outputs.head?.bind calledService = none) ∧
      ((pass standardBuild sampleEnvironment sampleEstablished 0
        (atMessage [] sampleLying [sampleVictim] [])).outputs.head?.bind calledService = some .getEndpoints) ∧
      ¬ SameHandling 61 (pass standardBuild sampleEnvironment sampleEstablished 0 (atMessage [] sampleLying [] []))
        (pass standardBuild sampleEnvironment sampleEstablished 0 (atMessage [] sampleLying [sampleVictim] [])) := by
  have halone : (pass standardBuild sampleEnvironment sampleEstablished 0
      (atMessage [] sampleLying [] [])).outputs.head?.bind calledService = none := by
    decide +kernel
  have hfollowed : (pass standardBuild sampleEnvironment sampleEstablished 0
      (atMessage [] sampleLying [sampleVictim] [])).outputs.head?.bind calledService = some .getEndpoints := by
    decide +kernel
  refine ⟨by decide, halone, hfollowed, ?_⟩
  intro hsame
  rw [hsame.outputs, halone] at hfollowed
  cases hfollowed

end Isolation

end OpcUa.MessageIsolation
