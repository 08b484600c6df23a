import OpcUa.EncoderRuns
import OpcUa.Servers
import OpcUa.WrittenBytes

namespace OpcUa.SendBuffers

open StatusCodes LittleEndian NodeIds Connections DataTypes TypeTable Values Buffers Writers ValueEncoding
open WritePrograms EncoderPrograms EncoderRuns WriteBounds WrittenBytes Servers

section Headers

structure TcpMessageHeader where
  messageTypeAndFinal : UInt32
  messageSize : UInt32

def messageTypeAndFinalAckf : UInt32 := 1179337537
def messageTypeAndFinalMsgf : UInt32 := 1179079501
def messageTypeAndFinalOpnf : UInt32 := 1179537487

def tcpMessageHeaderEncodeBinary (src : TcpMessageHeader) : EncM :=
  orThen (uint32EncodeBinary src.messageTypeAndFinal) (uint32EncodeBinary src.messageSize)

structure TcpAcknowledgeMessage where
  protocolVersion : UInt32
  receiveBufferSize : UInt32
  sendBufferSize : UInt32
  maxMessageSize : UInt32
  maxChunkCount : UInt32

def tcpAcknowledgeMessageEncodeBinary (src : TcpAcknowledgeMessage) : EncM :=
  orThen (uint32EncodeBinary src.protocolVersion) <| orThen (uint32EncodeBinary src.receiveBufferSize) <|
    orThen (uint32EncodeBinary src.sendBufferSize) <| orThen (uint32EncodeBinary src.maxMessageSize) <|
      uint32EncodeBinary src.maxChunkCount

structure SecureConversationMessageHeader where
  messageHeader : TcpMessageHeader
  secureChannelId : UInt32

def secureConversationMessageHeaderEncodeBinary (src : SecureConversationMessageHeader) : EncM :=
  orThen (tcpMessageHeaderEncodeBinary src.messageHeader) (uint32EncodeBinary src.secureChannelId)

structure AsymmetricAlgorithmSecurityHeader where
  securityPolicyUri : UaString
  senderCertificate : UaString
  receiverCertificateThumbprint : UaString

def asymmetricAlgorithmSecurityHeaderEncodeBinary (src : AsymmetricAlgorithmSecurityHeader) : EncM :=
  orThen (stringEncodeBinary src.securityPolicyUri) <| orThen (stringEncodeBinary src.senderCertificate) <|
    stringEncodeBinary src.receiverCertificateThumbprint

structure SequenceHeader where
  sequenceNumber : UInt32
  requestId : UInt32

def sequenceHeaderEncodeBinary (src : SequenceHeader) : EncM :=
  orThen (uint32EncodeBinary src.sequenceNumber) (uint32EncodeBinary src.requestId)

def uaNodeIdEncodeBinary (n : NodeId) : EncM := uaEncodeBinary (.simple n : Val TypeTable.nodeId)

end Headers

section Senders

/-- The size of the buffer from `getSendBuffer`, the length of the message
that `send` is given in it, and what has been written. -/
structure SentMessage where
  size : Nat
  length : Nat
  writes : List (Nat × Nat)

/-- `UA_TcpHelloMessage` without the endpoint url, which nothing reads. -/
structure TcpHelloMessage where
  protocolVersion : UInt32
  receiveBufferSize : UInt32
  sendBufferSize : UInt32
  maxMessageSize : UInt32
  maxChunkCount : UInt32

/-- What `processHEL` makes of the connection. -/
def acceptHello (helloMessage : TcpHelloMessage) (connection : Connection) : Connection :=
  { connection with
    state := .established
    remoteConf := ⟨helloMessage.protocolVersion, helloMessage.sendBufferSize, helloMessage.receiveBufferSize,
      helloMessage.maxMessageSize, helloMessage.maxChunkCount⟩
    localConf := { connection.localConf with
      sendBufferSize := min connection.localConf.sendBufferSize helloMessage.receiveBufferSize
      recvBufferSize := min connection.localConf.recvBufferSize helloMessage.sendBufferSize } }

/-- The end of `processHEL`. The length is fixed, and the status of the
encoders is not looked at. -/
def sendAcknowledge (connection : Connection) (buffer : List UInt8) : SentMessage :=
  let ackMessage : TcpAcknowledgeMessage :=
    ⟨connection.localConf.protocolVersion, connection.localConf.recvBufferSize, connection.localConf.sendBufferSize,
      connection.localConf.maxMessageSize, connection.localConf.maxChunkCount⟩
  let ackHeader : TcpMessageHeader := ⟨messageTypeAndFinalAckf, 8 + 20⟩
  let r := orThen (tcpMessageHeaderEncodeBinary ackHeader) (tcpAcknowledgeMessageEncodeBinary ackMessage)
    ⟨buffer, 0, []⟩
  ⟨buffer.length, ackHeader.messageSize.toNat, r.2.writes⟩

/-- The body is encoded first, behind the place of the header. If this
succeeds, the header is written with the size, in 32 bits, and its status is
not looked at. -/
def sendBehind (place : Nat) (header : UInt32 → EncM) (body : EncM) (buffer : List UInt8) : Option SentMessage :=
  let r := body ⟨buffer, place, []⟩
  if r.1 ≠ good then none
  else
    let messageSize := UInt32.ofNat r.2.offset
    some ⟨buffer.length, messageSize.toNat, (header messageSize { r.2 with offset := 0 }).2.writes⟩

/-- The end of `processOPN`. -/
def sendOpened (secureChannelId : UInt32) (asymHeader : AsymmetricAlgorithmSecurityHeader) (seqHeader : SequenceHeader)
    (p : Val openSecureChannelResponse) : List UInt8 → Option SentMessage :=
  let responseType := numericId 0 (447 + encodingOffsetBinary)
  sendBehind 12
    (fun messageSize =>
      secureConversationMessageHeaderEncodeBinary ⟨⟨messageTypeAndFinalOpnf, messageSize⟩, secureChannelId⟩)
    (orThen (asymmetricAlgorithmSecurityHeaderEncodeBinary asymHeader) <|
      orThen (sequenceHeaderEncodeBinary seqHeader) <| orThen (uaNodeIdEncodeBinary responseType) <| uaEncodeBinary p)

def sendBinaryMessage (channel : SecureChannel) (requestId : UInt32) {t : DataType} (content : Val t)
    (buffer : List UInt8) : Option SentMessage :=
  if t.typeId.identifier.isNumeric = false then none
  else
    let typeId := binaryId t.typeId
    sendBehind 24
      (fun messageSize =>
        orThen (secureConversationMessageHeaderEncodeBinary
          ⟨⟨messageTypeAndFinalMsgf, messageSize⟩, channel.securityToken.channelId⟩) <|
        orThen (uint32EncodeBinary channel.securityToken.tokenId) <|
        sequenceHeaderEncodeBinary ⟨channel.sequenceNumber + 1, requestId⟩)
      (orThen (uaNodeIdEncodeBinary typeId) (uaEncodeBinary content)) buffer

/-- What is sent on a connection: the answer to a HEL message, that to an OPN
message, and the responses, faults and publish responses. -/
inductive Reply
  | acknowledge
  | opened (secureChannelId : UInt32) (asymHeader : AsymmetricAlgorithmSecurityHeader) (seqHeader : SequenceHeader)
      (p : Val openSecureChannelResponse)
  | message (channel : SecureChannel) (requestId : UInt32) {t : DataType} (content : Val t)

def Reply.send (connection : Connection) (buffer : List UInt8) : Reply → Option SentMessage
  | .acknowledge => some (sendAcknowledge connection buffer)
  | .opened secureChannelId asymHeader seqHeader p => sendOpened secureChannelId asymHeader seqHeader p buffer
  | .message channel requestId content => sendBinaryMessage channel requestId content buffer

/-- The message lies in the buffer, and every byte of it has been written. -/
structure Inside (m : SentMessage) : Prop where
  length_le : m.length ≤ m.size
  written : ∀ i < m.length, ∃ w ∈ m.writes, w.1 ≤ i ∧ i < w.1 + w.2

end Senders

section Bodies

def openedProg (asymHeader : AsymmetricAlgorithmSecurityHeader) (seqHeader : SequenceHeader)
    (p : Val openSecureChannelResponse) : Prog :=
  .seq (.seq (stringProg asymHeader.securityPolicyUri) <| .seq (stringProg asymHeader.senderCertificate) <|
      stringProg asymHeader.receiverCertificateThumbprint) <|
    .seq (.seq (plain (toBytes 4 seqHeader.sequenceNumber.toNat)) (plain (toBytes 4 seqHeader.requestId.toNat))) <|
    .seq (nodeIdProg (numericId 0 (447 + encodingOffsetBinary))) <| uaProg p

def messageProg {t : DataType} (content : Val t) : Prog :=
  .seq (nodeIdProg (binaryId t.typeId)) (uaProg content)

/-- The last check of the body lets it pass although it reaches over the end
of the buffer. This takes a string at its end that is not empty. -/
def Overhangs (size place : Nat) (body : Prog) : Prop :=
  accepted body = true ∧ size < place + (wire body).length ∧ place + (wire body).length < 2 ^ 32 ∧
    Passes size (slack body) place (wire body).length

def Reply.Contained (size : Nat) : Reply → Prop
  | .acknowledge => 28 ≤ size
  | .opened _ asymHeader seqHeader p => ¬ Overhangs size 12 (openedProg asymHeader seqHeader p)
  | .message (t := t) _ _ content =>
      t.typeId.identifier.isNumeric = true → ¬ Overhangs size 24 (messageProg content)

end Bodies

section Stamps

variable {place size : Nat} {header : UInt32 → Prog} {body : Prog} {buffer : List UInt8}

/-- The header has its place in front of the body. -/
structure Stamp (place : Nat) (header : UInt32 → Prog) : Prop where
  length : ∀ n, (wire (header n)).length = place
  accepted : ∀ n, accepted (header n) = true
  four_le : 4 ≤ place
  lt : place < 2 ^ 32

theorem covers_wire {p : Prog} {e : Enc} (hok : (walk e.data.length p e.offset).1 = true) {i : Nat}
    (hlow : e.offset ≤ i) (hhigh : i < e.offset + (wire p).length) :
    ∃ w ∈ (p.run e).2.writes, w.1 ≤ i ∧ i < w.1 + w.2 := by
  have heffect := effect_run (e := e) p
  apply covers_run p (heffect.status.mpr hok) i hlow
  rw [heffect.offset, walk_end hok]
  exact hhigh

theorem header_covers (h : Stamp place header) (n : UInt32) {e : Enc} (hplace : place ≤ e.data.length)
    (hoffset : e.offset = 0) {i : Nat} (hi : i < place) :
    ∃ w ∈ ((header n).run e).2.writes, w.1 ≤ i ∧ i < w.1 + w.2 := by
  apply covers_wire
  · refine (walk_iff _).mpr ⟨h.accepted n, fun k _ => ?_⟩
    rw [h.length n, hoffset]
    omega
  · rw [hoffset]
    exact Nat.zero_le i
  · rw [h.length n, hoffset, Nat.zero_add]
    exact hi

/-- Without an overhang the header fits, and so does what the size in the
header counts. A length from 2^32 on wraps to less than the header has. -/
theorem fits_of_not_overhangs (h : Stamp place header) (hsize : size < 2 ^ 32)
    (haccepted : WrittenBytes.accepted body = true) (hpass : Passes size (slack body) place (wire body).length)
    (hno : ¬ Overhangs size place body) :
    place ≤ size ∧ (place + (wire body).length ≤ size ∨
      (UInt32.ofNat (place + (wire body).length)).toNat < place) := by
  have hplace := h.lt
  have hfour := h.four_le
  have hover : size < place + (wire body).length → 2 ^ 32 ≤ place + (wire body).length := by
    intro hlong
    by_contra hlt
    exact hno ⟨haccepted, hlong, Nat.lt_of_not_le hlt, hpass⟩
  cases hslack : slack body with
  | none =>
      have hnil := (trailing_slack body).nil hslack
      rw [hnil, List.length_nil] at hover ⊢
      omega
  | some k =>
      have hk := (trailing_slack body).le k hslack
      have hle := hpass k hslack
      refine ⟨by omega, ?_⟩
      by_cases hlong : size < place + (wire body).length
      · right
        rw [UInt32.toNat_ofNat']
        have := hover hlong
        omega
      · left
        omega

theorem sendBehind_inside_iff (h : Stamp place header) (hsize : buffer.length < 2 ^ 32) :
    (∀ m, sendBehind place (fun n => (header n).run) body.run buffer = some m → Inside m) ↔
      ¬ Overhangs buffer.length place body := by
  have heffect := effect_run (e := ⟨buffer, place, []⟩) body
  dsimp only at heffect
  unfold sendBehind
  dsimp only
  constructor
  · rintro hinside ⟨haccepted, hover, hlt, hpass⟩
    have hok := (walk_iff body).mpr ⟨haccepted, hpass⟩
    rw [if_neg (not_not.mpr (heffect.status.mpr hok))] at hinside
    have hle := (hinside _ rfl).length_le
    dsimp only at hle
    rw [heffect.offset, walk_end hok, UInt32.toNat_ofNat_of_lt' hlt] at hle
    omega
  · intro hno m hm
    split at hm
    · cases hm
    rename_i hgood
    obtain rfl := Option.some.inj hm
    have hok := heffect.status.mp (not_not.mp hgood)
    obtain ⟨haccepted, hpass⟩ := (walk_iff body).mp hok
    obtain ⟨hplace, hfits⟩ := fits_of_not_overhangs h hsize haccepted hpass hno
    have hend : (body.run ⟨buffer, place, []⟩).2.offset = place + (wire body).length := by
      rw [heffect.offset, walk_end hok]
    have hsizeLe : (UInt32.ofNat (place + (wire body).length)).toNat ≤ place + (wire body).length := by
      rw [UInt32.toNat_ofNat']
      exact Nat.mod_le _ _
    let e : Enc := { (body.run ⟨buffer, place, []⟩).2 with offset := 0 }
    have hdata : e.data.length = buffer.length := heffect.length
    refine ⟨?_, fun i hi => ?_⟩
    · dsimp only
      rw [hend]
      omega
    · dsimp only at hi ⊢
      by_cases hfront : i < place
      · exact header_covers h _ (e := e) (hdata ▸ hplace) rfl hfront
      · rw [hend] at hi
        obtain ⟨w, hw, hin⟩ := covers_run body (not_not.mp hgood) i (Nat.le_of_not_lt hfront) (by omega)
        exact ⟨w, writes_mono (effect_run (e := e) (header _)) w hw, hin⟩

end Stamps

section Messages

variable {buffer : List UInt8}

def stampProg (messageTypeAndFinal secureChannelId : UInt32) (messageSize : UInt32) : Prog :=
  .seq (.seq (plain (toBytes 4 messageTypeAndFinal.toNat)) (plain (toBytes 4 messageSize.toNat)))
    (plain (toBytes 4 secureChannelId.toNat))

def messageStampProg (channel : SecureChannel) (requestId : UInt32) (messageSize : UInt32) : Prog :=
  .seq (stampProg messageTypeAndFinalMsgf channel.securityToken.channelId messageSize) <|
    .seq (plain (toBytes 4 channel.securityToken.tokenId.toNat)) <|
      .seq (plain (toBytes 4 (channel.sequenceNumber + 1).toNat)) (plain (toBytes 4 requestId.toNat))

theorem stamp_opened (messageTypeAndFinal secureChannelId : UInt32) :
    Stamp 12 (stampProg messageTypeAndFinal secureChannelId) := by
  refine ⟨fun n => ?_, fun _ => rfl, by decide, by decide⟩
  simp [stampProg, plain, wire, Write.wire, length_toBytes]

theorem stamp_message (channel : SecureChannel) (requestId : UInt32) :
    Stamp 24 (messageStampProg channel requestId) := by
  refine ⟨fun n => ?_, fun _ => rfl, by decide, by decide⟩
  simp [messageStampProg, stampProg, plain, wire, Write.wire, length_toBytes]

theorem typeId_run (n : NodeId) : uaNodeIdEncodeBinary n = (nodeIdProg n).run :=
  uaEncodeBinary_run (.simple n : Val TypeTable.nodeId)

theorem sendOpened_eq (secureChannelId : UInt32) (asymHeader : AsymmetricAlgorithmSecurityHeader)
    (seqHeader : SequenceHeader) (p : Val openSecureChannelResponse) :
    sendOpened secureChannelId asymHeader seqHeader p =
      sendBehind 12 (fun n => (stampProg messageTypeAndFinalOpnf secureChannelId n).run)
        (openedProg asymHeader seqHeader p).run := by
  unfold sendOpened asymmetricAlgorithmSecurityHeaderEncodeBinary
  dsimp only
  rw [typeId_run, uaEncodeBinary_run p, string_run, string_run, string_run]
  rfl

theorem sendBinaryMessage_eq (channel : SecureChannel) (requestId : UInt32) {t : DataType} (content : Val t)
    (hid : t.typeId.identifier.isNumeric = true) :
    sendBinaryMessage channel requestId content buffer =
      sendBehind 24 (fun n => (messageStampProg channel requestId n).run) (messageProg content).run buffer := by
  unfold sendBinaryMessage
  rw [hid, if_neg Bool.noConfusion]
  dsimp only
  rw [typeId_run, uaEncodeBinary_run content]
  rfl

def acknowledgeProg (connection : Connection) : Prog :=
  .seq (.seq (plain (toBytes 4 messageTypeAndFinalAckf.toNat)) (plain (toBytes 4 (8 + 20 : UInt32).toNat))) <|
    .seq (plain (toBytes 4 connection.localConf.protocolVersion.toNat)) <|
    .seq (plain (toBytes 4 connection.localConf.recvBufferSize.toNat)) <|
    .seq (plain (toBytes 4 connection.localConf.sendBufferSize.toNat)) <|
    .seq (plain (toBytes 4 connection.localConf.maxMessageSize.toNat)) <|
      plain (toBytes 4 connection.localConf.maxChunkCount.toNat)

theorem acknowledgeProg_run (connection : Connection) :
    orThen (tcpMessageHeaderEncodeBinary ⟨messageTypeAndFinalAckf, 8 + 20⟩)
      (tcpAcknowledgeMessageEncodeBinary
        ⟨connection.localConf.protocolVersion, connection.localConf.recvBufferSize,
          connection.localConf.sendBufferSize, connection.localConf.maxMessageSize,
          connection.localConf.maxChunkCount⟩) = (acknowledgeProg connection).run := rfl

theorem sendAcknowledge_eq (connection : Connection) (buffer : List UInt8) :
    sendAcknowledge connection buffer =
      ⟨buffer.length, (8 + 20 : UInt32).toNat, ((acknowledgeProg connection).run ⟨buffer, 0, []⟩).2.writes⟩ := by
  rw [← acknowledgeProg_run, sendAcknowledge]

theorem sendAcknowledge_inside_iff (connection : Connection) (buffer : List UInt8) :
    Inside (sendAcknowledge connection buffer) ↔ 28 ≤ buffer.length := by
  rw [sendAcknowledge_eq]
  constructor
  · intro h
    exact h.length_le
  · intro h
    have hlength : (wire (acknowledgeProg connection)).length = 28 := by
      simp [acknowledgeProg, plain, wire, Write.wire, length_toBytes]
    refine ⟨h, fun i hi => ?_⟩
    apply covers_wire (e := ⟨buffer, 0, []⟩)
    · refine (walk_iff _).mpr ⟨rfl, fun k _ => ?_⟩
      rw [hlength]
      dsimp only
      omega
    · exact Nat.zero_le i
    · rw [hlength]
      exact hi

/-- An acknowledge message stays in its buffer exactly if the client allows
28 bytes, and any other message exactly if its body does not overhang. -/
theorem reply_inside_iff (helloMessage : TcpHelloMessage) (connection : Connection) (buffer : List UInt8)
    (hbuffer : buffer.length = (acceptHello helloMessage connection).remoteConf.recvBufferSize.toNat) (reply : Reply) :
    (∀ m, reply.send (acceptHello helloMessage connection) buffer = some m → Inside m) ↔
      reply.Contained helloMessage.receiveBufferSize.toNat := by
  have hsize : buffer.length = helloMessage.receiveBufferSize.toNat := hbuffer
  have hlt : buffer.length < 2 ^ 32 := by
    rw [hsize]
    exact helloMessage.receiveBufferSize.toNat_lt
  rw [← hsize]
  cases reply with
  | acknowledge =>
      rw [Reply.Contained, ← sendAcknowledge_inside_iff (acceptHello helloMessage connection)]
      constructor
      · intro h
        exact h _ rfl
      · rintro h _ ⟨⟩
        exact h
  | opened secureChannelId asymHeader seqHeader p =>
      rw [Reply.Contained, Reply.send, sendOpened_eq]
      exact sendBehind_inside_iff (stamp_opened _ _) hlt
  | message channel requestId content =>
      rename_i t
      rw [Reply.Contained, Reply.send]
      cases hid : t.typeId.identifier.isNumeric with
      | false =>
          rw [sendBinaryMessage, hid, if_pos rfl]
          constructor
          · rintro _ ⟨⟩
          · rintro _ _ ⟨⟩
      | true =>
          rw [sendBinaryMessage_eq channel requestId content hid, sendBehind_inside_iff (stamp_message _ _) hlt]
          constructor
          · intro h _
            exact h
          · intro h
            exact h rfl

def sampleHello (receiveBufferSize : UInt32) : TcpHelloMessage := ⟨0, receiveBufferSize, 65536, 65536, 1⟩

def sampleTitle : Val TypeTable.localizedText := .simple ⟨none, some [0x65, 0x6e, 0x2d, 0x55, 0x53]⟩

/-- The text ends three bytes behind the buffer, and is sent. -/
theorem reply_inside_sampleTitle :
    (List.replicate 36 (0 : UInt8)).length = (acceptHello (sampleHello 36) init).remoteConf.recvBufferSize.toNat ∧
      ((∀ m, (Reply.message SecureChannel.init 1 sampleTitle).send (acceptHello (sampleHello 36) init)
          (List.replicate 36 0) = some m → Inside m) ↔
        (Reply.message SecureChannel.init 1 sampleTitle).Contained (sampleHello 36).receiveBufferSize.toNat) ∧
      Overhangs 36 24 (messageProg sampleTitle) :=
  ⟨rfl, reply_inside_iff (sampleHello 36) init (List.replicate 36 0) rfl (.message SecureChannel.init 1 sampleTitle),
    rfl, by decide, by decide, by unfold Passes; decide⟩

/-- A client that allows eight bytes is sent twenty-eight. -/
theorem acknowledge_leaves_buffer :
    ¬ ∀ (helloMessage : TcpHelloMessage) (connection : Connection) (buffer : List UInt8),
      buffer.length = (acceptHello helloMessage connection).remoteConf.recvBufferSize.toNat → ∀ (reply : Reply) m,
        reply.send (acceptHello helloMessage connection) buffer = some m → Inside m := by
  intro h
  have hle := (h (sampleHello 8) init (List.replicate 8 0) rfl .acknowledge _ rfl).length_le
  change 28 ≤ 8 at hle
  exact absurd hle (by decide)

end Messages

end OpcUa.SendBuffers
