import OpcUa.MinimalSizes
import OpcUa.TokenChecks

namespace OpcUa.HeaderFailures

open StatusCodes NodeIds Connections DataTypes TypeTable Values Readers Decoding ValueDecoding Servers
open SecureChannels Sessions ServiceTable MessageHandlers
open BoundedReading DecodeBounds HandlerMoves ReadBack ConsumedBytes MinimalSizes LoopDispatch SessionGating TokenChecks

variable {α : Type} {d : DecM α} {b : Build} {env : Environment} {s : Server} {c : Nat} {st : Dec}

/-- One of the headers, read one after the other, is refused. -/
def Undecodable (st : Dec) : Prop :=
  let secureChannelId := attempt uint32DecodeBinary st
  let tokenId := attempt uint32DecodeBinary secureChannelId.2
  let sequenceHeader := attempt (both uint32DecodeBinary uint32DecodeBinary) tokenId.2
  let requestTypeId := attempt nodeIdDecodeBinary sequenceHeader.2
  secureChannelId.1.isOk = false ∨ tokenId.1.isOk = false ∨ sequenceHeader.1.isOk = false ∨
    requestTypeId.1.isOk = false

/-- The message has changed nothing, and nothing has been called or sent. -/
def NoEffect (s : Server) (h : Handled) : Prop := h.server = s ∧ h.outputs = []

/-- The message stops at its type id, at another channel id or at an unknown
token of a channel that is not in the list, or its token changes nothing. -/
def Harmless (s : Server) (c : Nat) (st : Dec) : Prop :=
  let headers := securityHeaders st
  let token := channelToken s (connectionChannel s c)
  let next := nextToken s (connectionChannel s c)
  (attempt nodeIdDecodeBinary headers.2).1.isOk = false ∨ headers.1.1 ≠ token.channelId ∨
    headers.1.2.1 = token.tokenId ∨ (headers.1.2.1 = next.tokenId ∧ next.tokenId = 0) ∨
    (headers.1.2.1 ≠ next.tokenId ∧
      s.secureChannelManager.channels.find? (hasChannelId s token.channelId) = none)

section Truncated

def Short (st : Dec) : Prop := st.data.length < st.offset + 4

theorem readOr_state (zero : α) (d : DecM α) (st : Dec) : (readOr zero d st).2 = (attempt d st).2 := by
  rw [readOr]
  split
  · rename_i h
    rw [h]
  · rename_i h
    rw [h]

theorem uint32_of_short (h : Short st) : uint32DecodeBinary st = some (.error badDecodingError, st) := by
  have hover : st.offset + 4 > st.data.length := h
  simp [uint32DecodeBinary, map, andThen, take, hover]

theorem uint32_of_room (h : ¬ Short st) :
    ∃ x, uint32DecodeBinary st = some (.ok x, st.advance 4) := by
  have hover : ¬ st.offset + 4 > st.data.length := h
  simp [uint32DecodeBinary, map, andThen, take, hover, succeed]

theorem short_of_uint32 (h : (attempt uint32DecodeBinary st).1.isOk = false) :
    Short (attempt uint32DecodeBinary st).2 := by
  by_cases hshort : Short st
  · rw [attempt, uint32_of_short hshort]
    exact hshort
  · obtain ⟨x, hx⟩ := uint32_of_room hshort
    rw [attempt, hx] at h
    cases h

theorem short_attempt_uint32 (h : Short st) : Short (attempt uint32DecodeBinary st).2 := by
  rw [attempt, uint32_of_short h]
  exact h

theorem short_attempt_words (h : Short st) :
    Short (attempt (both uint32DecodeBinary uint32DecodeBinary) st).2 := by
  rw [attempt, both, uint32_of_short h]
  dsimp only
  rw [uint32_of_short h]
  exact h

theorem short_of_words (h : (attempt (both uint32DecodeBinary uint32DecodeBinary) st).1.isOk = false) :
    Short (attempt (both uint32DecodeBinary uint32DecodeBinary) st).2 := by
  by_cases hshort : Short st
  · exact short_attempt_words hshort
  obtain ⟨x, hx⟩ := uint32_of_room hshort
  by_cases hshort' : Short (st.advance 4)
  · rw [attempt, both, hx]
    dsimp only
    rw [uint32_of_short hshort']
    exact hshort'
  · obtain ⟨y, hy⟩ := uint32_of_room hshort'
    rw [attempt, both, hx] at h
    dsimp only at h
    rw [hy] at h
    cases h

theorem short_headers (h : Undecodable st) :
    (attempt nodeIdDecodeBinary (securityHeaders st).2).1.isOk = false ∨ Short (securityHeaders st).2 := by
  unfold securityHeaders
  simp only [readOr_state]
  rcases h with h | h | h | h
  · exact .inr (short_attempt_words (short_attempt_uint32 (short_of_uint32 h)))
  · exact .inr (short_attempt_words (short_of_uint32 h))
  · exact .inr (short_of_words h)
  · exact .inl h

end Truncated

section LastByte

variable {t : DataType} {channel : Option Nat} {requestId : UInt32}

theorem ok_of_attempt {a : α} {st' : Dec} (h : attempt d st = (.ok a, st')) : d st = some (.ok a, st') := by
  rw [attempt] at h
  cases hrun : d st with
  | none => simp [hrun] at h
  | some r =>
      rw [hrun, Option.getD_some] at h
      rw [h]

theorem ends_of_spends {k : Nat} {a : α} {st' : Dec} (hspends : Spends d (fun _ => k))
    (hagree : ∀ most, Agree most d d) (hst : Valid st) (h : attempt d st = (.ok a, st')) :
    st.offset + k ≤ st'.offset ∧ st'.data.length = st.data.length ∧ Valid st' := by
  have hmoves := attempt_moves hagree hst
  rw [h] at hmoves
  exact ⟨hspends st a st' (ok_of_attempt h), hmoves.length_eq, hmoves.valid⟩

/-- Behind a type id that was read without room for a UInt32 there is at most
one byte. -/
theorem left_of_nodeId {id : NodeId} {st' : Dec} (hst : Valid st) (hshort : Short st)
    (h : attempt nodeIdDecodeBinary st = (.ok id, st')) :
    Valid st' ∧ st'.data.length < st'.offset + 2 := by
  obtain ⟨hoffset, hlength, hvalid⟩ :=
    ends_of_spends (spends_nodeId.mono two_le_nodeId) (fun _ => agree_nodeId) hst h
  have hover : st.data.length < st.offset + 4 := hshort
  exact ⟨hvalid, by omega⟩

theorem spends_build (hb : b.decode = standardBuild.decode) (info : StructInfo) (members : Members) :
    Spends (b.decode (.structure info members)) (fun _ => minMembers members) := by
  intro st v st' h
  rw [hb] at h
  exact spends_decodeBinary (st.data.length + 1) (.structure info members) st v st' h

theorem decode_fails (hb : b.decode = standardBuild.decode) (info : StructInfo) {members : Members}
    (hsize : 2 ≤ minMembers members) (hst : Valid st) (hend : st.data.length < st.offset + 2) :
    ∃ code st', attempt (b.decode (.structure info members)) st = (.error code, st') ∧ Valid st' := by
  have hmoves := attempt_moves (agree_build b (.structure info members)) hst
  cases h : attempt (b.decode (.structure info members)) st with
  | mk r st' =>
      rw [h] at hmoves
      cases r with
      | error code => exact ⟨code, st', rfl, hmoves.valid⟩
      | ok v =>
          obtain ⟨hoffset, hlength, hvalid⟩ :=
            ends_of_spends (spends_build hb info members) (agree_build b _) hst h
          have hle := hvalid.offset_le
          omega

theorem two_le_header : 2 ≤ minSize requestHeader := by decide +kernel

theorem sendError_noEffect (hb : b.decode = standardBuild.decode) {code : StatusCode} {pos : Nat} (hst : Valid st)
    (hpos : pos ≤ st.data.length) (hend : st.data.length < pos + 2) :
    NoEffect s (sendError b env s c channel requestId code pos st) := by
  obtain ⟨code', st', hfails, _⟩ := decode_fails hb _ two_le_header
    (show Valid { st with offset := pos } from ⟨hpos, hst.reads_le⟩) hend
  unfold sendError
  rw [show attempt (b.decode requestHeader) { st with offset := pos } = (.error code', st') from hfails]
  exact ⟨rfl, rfl⟩

/-- With at most one byte behind the type id nothing is called, and no fault
can be sent. -/
theorem processRequest_noEffect (hb : b.decode = standardBuild.decode) {requestTypeId : NodeId} (hst : Valid st)
    (hend : st.data.length < st.offset + 2) :
    NoEffect s (processRequest b env s c channel requestId requestTypeId st) := by
  have herror : ∀ code, NoEffect s (sendError b env s c channel requestId code st.offset st) :=
    fun code => sendError_noEffect hb hst hst.offset_le hend
  unfold processRequest
  split
  · exact herror _
  cases getServicePointers b (numericBits requestTypeId) with
  | none => exact herror _
  | some service =>
      dsimp only
      split
      · exact herror _
      obtain ⟨info, rest, htype⟩ := requestType_header service
      have hsize : 2 ≤ minMembers (.scalar requestHeader rest) := two_le_header.trans (Nat.le_add_right _ _)
      have hmoves := attempt_moves (agree_build b service.requestType) hst
      obtain ⟨code, st', hfails, hst'⟩ := decode_fails hb info hsize hst hend
      rw [← htype] at hfails
      rw [hfails] at hmoves ⊢
      have hlength : st'.data.length = st.data.length := hmoves.length_eq
      exact sendError_noEffect hb hst' (by have := hst.offset_le; omega) (by omega)

end LastByte

section Tokens

theorem setChannel_eq_iff (a : Nat) (f : SecureChannel → SecureChannel) :
    s.setChannel a f = s ↔ ∀ y, s.channels a = some y → f y = y := by
  constructor
  · intro h y hy
    have hchannels := congrArg (fun s : Server => s.channels a) h
    simp only [Server.setChannel, Heaps.modify_self, hy, Option.map_some, Option.some.injEq] at hchannels
    exact hchannels
  · intro h
    have hchannels : s.channels.modify a f = s.channels := by
      funext a'
      by_cases ha : a' = a
      · subst ha
        rw [Heaps.modify_self]
        cases hy : s.channels a' with
        | none => rfl
        | some y => rw [Option.map_some, h y hy]
      · exact Heaps.modify_of_ne ha
    rw [Server.setChannel, hchannels]

theorem revolveTokens_eq_iff (y : SecureChannel) : revolveTokens y = y ↔ y.nextSecurityToken.tokenId = 0 := by
  by_cases hid : y.nextSecurityToken.tokenId = 0
  · simp [revolveTokens, hid]
  · refine ⟨fun h => absurd ?_ hid, fun h => absurd h hid⟩
    rw [revolveTokens, if_neg hid] at h
    have hnext := congrArg (fun y : SecureChannel => y.nextSecurityToken.tokenId) h
    exact hnext.symm

theorem revolved_eq_iff (channel : Option Nat) : revolved s channel = s ↔ (nextToken s channel).tokenId = 0 := by
  cases channel with
  | none => exact ⟨fun _ => rfl, fun _ => rfl⟩
  | some a =>
      rw [revolved, setChannel_eq_iff]
      cases hy : s.channels a with
      | none =>
          rw [nextToken, Option.bind_some, hy]
          exact ⟨fun _ => rfl, fun _ y h => absurd h (by simp)⟩
      | some y =>
          rw [nextToken_eq hy]
          constructor
          · intro h
            exact (revolveTokens_eq_iff y).mp (h y rfl)
          · intro h y' hy'
            obtain rfl := Option.some.inj hy'
            exact (revolveTokens_eq_iff y).mpr h

theorem closeSecureChannel_eq_iff (channelId : UInt32) : closeSecureChannel s channelId = s ↔
    s.secureChannelManager.channels.find? (hasChannelId s channelId) = none := by
  rw [closeSecureChannel, closeChannel]
  cases hfind : s.secureChannelManager.channels.find? (hasChannelId s channelId) with
  | none => exact ⟨fun _ => rfl, fun _ => rfl⟩
  | some a =>
      have hid : hasChannelId s channelId a = true := List.find?_some hfind
      refine ⟨fun h => ?_, fun h => by cases h⟩
      have hnone : s.channels a = none := by
        rw [← removeChannel_channels s a]
        exact congrArg (fun s : Server => s.channels a) h.symm
      rw [hasChannelId, hnone] at hid
      cases hid

end Tokens

/-- A message whose headers cannot be decoded has no effect, exactly if its
type id is missing too or the rest of its headers is harmless. -/
theorem undecodable_noEffect_iff (b : Build) (hb : b.decode = standardBuild.decode) (env : Environment) (s : Server)
    (c : Nat) (st : Dec) (hst : Valid st) (hundecodable : Undecodable st) :
    NoEffect s (processMSG b env s c st) ↔ Harmless s c st := by
  have hmoves := securityHeaders_moves hst
  have hshort := short_headers hundecodable
  unfold processMSG Harmless
  dsimp only
  cases hid : attempt nodeIdDecodeBinary (securityHeaders st).2 with
  | mk r st' =>
      rw [hid] at hshort
      cases r with
      | error code => exact ⟨fun _ => .inl rfl, fun _ => ⟨rfl, rfl⟩⟩
      | ok requestTypeId =>
          have hshort : Short (securityHeaders st).2 := hshort.resolve_left (by simp [Except.isOk, Except.toBool])
          obtain ⟨hst', hend⟩ := left_of_nodeId hmoves.valid hshort hid
          have hrequest : ∀ s', NoEffect s' (processRequest b env s' c (connectionChannel s c)
              (securityHeaders st).1.2.2 requestTypeId st') :=
            fun s' => processRequest_noEffect hb hst' hend
          unfold processChecked
          dsimp only
          by_cases hchannel : (securityHeaders st).1.1 = (channelToken s (connectionChannel s c)).channelId
          · rw [if_neg (not_not.mpr hchannel)]
            by_cases hcurrent : (securityHeaders st).1.2.1 = (channelToken s (connectionChannel s c)).tokenId
            · rw [if_neg (not_not.mpr hcurrent)]
              exact ⟨fun _ => .inr (.inr (.inl hcurrent)), fun _ => hrequest s⟩
            rw [if_pos hcurrent]
            by_cases hnext : (securityHeaders st).1.2.1 = (nextToken s (connectionChannel s c)).tokenId
            · rw [if_neg (not_not.mpr hnext), NoEffect, (hrequest _).1, revolved_eq_iff]
              constructor
              · rintro ⟨hzero, _⟩
                exact .inr (.inr (.inr (.inl ⟨hnext, hzero⟩)))
              · rintro (h | h | h | ⟨_, hzero⟩ | ⟨h, _⟩)
                · cases h
                · exact absurd hchannel h
                · exact absurd h hcurrent
                · exact ⟨hzero, (hrequest _).2⟩
                · exact absurd hnext h
            · rw [if_pos hnext, NoEffect, closeSecureChannel_eq_iff]
              constructor
              · rintro ⟨hnone, _⟩
                exact .inr (.inr (.inr (.inr ⟨hnext, hnone⟩)))
              · rintro (h | h | h | ⟨h, _⟩ | ⟨_, hnone⟩)
                · cases h
                · exact absurd hchannel h
                · exact absurd h hcurrent
                · exact absurd h hnext
                · exact ⟨hnone, rfl⟩
          · rw [if_pos hchannel]
            exact ⟨fun _ => .inr (.inl hchannel), fun _ => ⟨rfl, rfl⟩⟩

/-- A channel id and a token id, and two of the eight bytes of the sequence
header. -/
def sampleTruncated (tokenId : UInt8) : Dec := ⟨[1, 0, 0, 0, tokenId, 0, 0, 0, 0, 0], 0, [], []⟩

theorem undecodable_noEffect_sampleOpening :
    NoEffect (run standardBuild (newServer ⟨true, false, []⟩) sampleOpening)
      (processMSG standardBuild sampleEnvironment
        (run standardBuild (newServer ⟨true, false, []⟩) sampleOpening) 0 (sampleTruncated 1)) :=
  (undecodable_noEffect_iff standardBuild rfl sampleEnvironment
    (run standardBuild (newServer ⟨true, false, []⟩) sampleOpening) 0 (sampleTruncated 1)
    ⟨by decide, by simp [sampleTruncated]⟩ (by unfold Undecodable; decide +kernel)).mpr
    (.inr (.inr (.inl (by decide +kernel))))

/-- The two bytes of the sequence header are read once more as a type id, and
the wrong token closes the channel. -/
theorem undecodable_closes_channel :
    Valid (sampleTruncated 7) ∧ Undecodable (sampleTruncated 7) ∧
      (run standardBuild (newServer ⟨true, false, []⟩) sampleOpening).channels 0 = some sampleChannel ∧
      (processMSG standardBuild sampleEnvironment
        (run standardBuild (newServer ⟨true, false, []⟩) sampleOpening) 0 (sampleTruncated 7)).server.channels 0 =
          none ∧
      ¬ NoEffect (run standardBuild (newServer ⟨true, false, []⟩) sampleOpening)
        (processMSG standardBuild sampleEnvironment
          (run standardBuild (newServer ⟨true, false, []⟩) sampleOpening) 0 (sampleTruncated 7)) := by
  have hchannel := sampleOpening_channel.2
  have hclosed : (processMSG standardBuild sampleEnvironment
      (run standardBuild (newServer ⟨true, false, []⟩) sampleOpening) 0 (sampleTruncated 7)).server.channels 0 =
        none := by
    decide +kernel
  refine ⟨⟨by decide, by simp [sampleTruncated]⟩, by unfold Undecodable; decide +kernel, hchannel, hclosed, ?_⟩
  rintro ⟨hsame, _⟩
  rw [hsame, hchannel] at hclosed
  cases hclosed

end OpcUa.HeaderFailures
