import OpcUa.ChunkIndependence
import OpcUa.SendBuffers

namespace OpcUa.ReplyStreams

open StatusCodes LittleEndian NodeIds Connections DataTypes Values Writers ValueEncoding
open WritePrograms EncoderPrograms EncoderRuns WriteBounds WrittenBytes SendBuffers
open ChunkIndependence

section Bytes

/-- The bytes that `sendBehind` gives to `send`. -/
def bytesBehind (place : Nat) (header : UInt32 → EncM) (body : EncM) (buffer : List UInt8) : Option (List UInt8) :=
  let r := body ⟨buffer, place, []⟩
  if r.1 ≠ good then none
  else
    let messageSize := UInt32.ofNat r.2.offset
    some ((header messageSize { r.2 with offset := 0 }).2.data.take messageSize.toNat)

/-- The bytes of a message, as far as they lie in its buffer. -/
def bytes (connection : Connection) (buffer : List UInt8) : Reply → Option (List UInt8)
  | .acknowledge =>
      let conf := connection.localConf
      let ackHeader : TcpMessageHeader := ⟨messageTypeAndFinalAckf, 8 + 20⟩
      let r := orThen (tcpMessageHeaderEncodeBinary ackHeader)
        (tcpAcknowledgeMessageEncodeBinary
          ⟨conf.protocolVersion, conf.recvBufferSize, conf.sendBufferSize, conf.maxMessageSize, conf.maxChunkCount⟩)
        ⟨buffer, 0, []⟩
      some (r.2.data.take ackHeader.messageSize.toNat)
  | .opened secureChannelId asymHeader seqHeader p =>
      bytesBehind 12
        (fun messageSize =>
          secureConversationMessageHeaderEncodeBinary ⟨⟨messageTypeAndFinalOpnf, messageSize⟩, secureChannelId⟩)
        (orThen (asymmetricAlgorithmSecurityHeaderEncodeBinary asymHeader) <|
          orThen (sequenceHeaderEncodeBinary seqHeader) <|
          orThen (uaNodeIdEncodeBinary (numericId 0 (447 + encodingOffsetBinary))) <| uaEncodeBinary p)
        buffer
  | .message channel requestId (t := t) content =>
      if t.typeId.identifier.isNumeric = false then none
      else
        bytesBehind 24
          (fun messageSize =>
            orThen (secureConversationMessageHeaderEncodeBinary
              ⟨⟨messageTypeAndFinalMsgf, messageSize⟩, channel.securityToken.channelId⟩) <|
            orThen (uint32EncodeBinary channel.securityToken.tokenId) <|
            sequenceHeaderEncodeBinary ⟨channel.sequenceNumber + 1, requestId⟩)
          (orThen (uaNodeIdEncodeBinary (binaryId t.typeId)) (uaEncodeBinary content)) buffer

theorem bytes_opened (connection : Connection) (buffer : List UInt8) (secureChannelId : UInt32)
    (asymHeader : AsymmetricAlgorithmSecurityHeader) (seqHeader : SequenceHeader)
    (p : Val TypeTable.openSecureChannelResponse) :
    bytes connection buffer (.opened secureChannelId asymHeader seqHeader p) =
      bytesBehind 12 (fun n => (stampProg messageTypeAndFinalOpnf secureChannelId n).run)
        (openedProg asymHeader seqHeader p).run buffer := by
  unfold bytes asymmetricAlgorithmSecurityHeaderEncodeBinary
  dsimp only
  rw [typeId_run, uaEncodeBinary_run p, string_run, string_run, string_run]
  rfl

theorem bytes_message (connection : Connection) (buffer : List UInt8) (channel : Servers.SecureChannel)
    (requestId : UInt32) {t : DataType} (content : Val t) (hid : t.typeId.identifier.isNumeric = true) :
    bytes connection buffer (.message channel requestId content) =
      bytesBehind 24 (fun n => (messageStampProg channel requestId n).run) (messageProg content).run buffer := by
  rw [bytes, hid, if_neg Bool.noConfusion, typeId_run, uaEncodeBinary_run content]
  rfl

/-- The bytes are those of the message: so many, from the buffer with what has
been written to it. -/
def Carries (m : SentMessage) (msg : List UInt8) : Prop :=
  ∃ e : Enc, e.data.length = m.size ∧ e.writes = m.writes ∧ msg = e.data.take m.length

theorem carries_behind (place : Nat) (header : UInt32 → Prog) (body : Prog) (buffer : List UInt8) :
    Option.Rel Carries (sendBehind place (fun n => (header n).run) body.run buffer)
      (bytesBehind place (fun n => (header n).run) body.run buffer) := by
  unfold sendBehind bytesBehind
  dsimp only
  split
  · exact .none
  · exact .some ⟨_, (effect_run (header _)).length.trans (effect_run body).length, rfl, rfl⟩

/-- What is sent of a reply are its bytes, and nothing is sent where it has
none. -/
theorem send_carries (connection : Connection) (buffer : List UInt8) (reply : Reply) :
    Option.Rel Carries (reply.send connection buffer) (bytes connection buffer reply) := by
  cases reply with
  | acknowledge =>
      have hlength : ((acknowledgeProg connection).run ⟨buffer, 0, []⟩).2.data.length = buffer.length :=
        (effect_run (acknowledgeProg connection)).length
      rw [Reply.send, sendAcknowledge_eq, bytes]
      dsimp only
      rw [acknowledgeProg_run]
      generalize (acknowledgeProg connection).run ⟨buffer, 0, []⟩ = r at hlength ⊢
      exact .some ⟨r.2, hlength, rfl, rfl⟩
  | opened secureChannelId asymHeader seqHeader p =>
      rw [Reply.send, sendOpened_eq, bytes_opened]
      exact carries_behind 12 (stampProg messageTypeAndFinalOpnf secureChannelId)
        (openedProg asymHeader seqHeader p) buffer
  | @message channel requestId t content =>
      rw [Reply.send]
      cases hid : t.typeId.identifier.isNumeric with
      | false =>
          rw [sendBinaryMessage, bytes, hid, if_pos rfl, if_pos rfl]
          exact .none
      | true =>
          rw [sendBinaryMessage_eq channel requestId content hid, bytes_message _ _ _ _ _ hid]
          exact carries_behind 24 (messageStampProg channel requestId) (messageProg content) buffer

end Bytes

section Framing

variable {maxMessageSize type n : UInt32} {p body : Prog} {header : UInt32 → Prog} {buffer msg : List UInt8}
  {place : Nat}

/-- The program starts with the type of a message and its size. -/
structure Heads (type n : UInt32) (p : Prog) : Prop where
  encodable : Encodable p
  untagged : Untagged p
  starts : ∃ rest, wire p = toBytes 4 type.toNat ++ (toBytes 4 n.toNat ++ rest)

def Known (type : UInt32) : Prop := recognized (ofBytes ((toBytes 4 type.toNat).take 3)) = true

theorem wellFormed_take {data rest : List UInt8} (hdata : data = toBytes 4 type.toNat ++ (toBytes 4 n.toNat ++ rest))
    (htype : Known type) (hmin : 16 ≤ n.toNat) (hlength : n.toNat ≤ data.length)
    (hmax : n.toNat ≤ maxMessageSize.toNat) : WellFormed maxMessageSize (data.take n.toNat) := by
  have hlen : (data.take n.toNat).length = n.toNat := List.length_take_of_le hlength
  have hsplit : data.take n.toNat = toBytes 4 type.toNat ++ toBytes 4 n.toNat ++ rest.take (n.toNat - 8) := by
    have height : (toBytes 4 type.toNat ++ toBytes 4 n.toNat).length = 8 := by
      rw [List.length_append, length_toBytes, length_toBytes]
    rw [hdata, ← List.append_assoc, List.take_append, List.take_of_length_le (by omega), height]
  refine ⟨?_, ?_, hlen.symm ▸ hmin, hlen.symm ▸ hmax⟩
  · rw [hsplit, List.append_assoc, msgtypeAt, List.drop_zero, List.take_append_of_le_length (by simp)]
    exact htype
  · have hread := read_append 4 (toBytes 4 type.toNat) (toBytes 4 n.toNat) (rest.take (n.toNat - 8)) 0 (by simp)
    rw [length_toBytes, Nat.add_zero] at hread
    rw [hlen, hsplit, hread, LittleEndian.read, if_neg (by simp), List.drop_zero,
      List.take_of_length_le (by simp), ofBytes_toBytes]
    exact congrArg some (Nat.mod_eq_of_lt n.toNat_lt)

theorem header_data (h : Heads type n p) {e : Enc} (hroom : (wire p).length ≤ e.data.length) (hoffset : e.offset = 0) :
    ∃ rest, (p.run e).2.data = toBytes 4 type.toNat ++ (toBytes 4 n.toNat ++ rest) := by
  have hwrites : Writes e.data.length p.run (wire p) := run_writes p h.encodable (Or.inr h.untagged)
  obtain ⟨st, hrun, hdata, _⟩ := hwrites [] (e.data.take (wire p).length) (e.data.drop (wire p).length) e (by simp)
    hoffset (List.length_take_of_le hroom) (Nat.le_refl _)
  obtain ⟨rest, hstarts⟩ := h.starts
  refine ⟨rest ++ e.data.drop (wire p).length, ?_⟩
  rw [hrun, hdata, hstarts]
  simp only [List.nil_append, List.append_assoc]

theorem room_of_not_overhangs (hplace : place < 2 ^ 32) (hsize : buffer.length < 2147483648)
    (haccepted : accepted body = true) (hpass : Passes buffer.length (slack body) place (wire body).length)
    (hno : ¬ Overhangs buffer.length place body) : place + (wire body).length ≤ buffer.length := by
  by_contra hlong
  refine hno ⟨haccepted, Nat.lt_of_not_le hlong, ?_, hpass⟩
  cases hslack : slack body with
  | none =>
      rw [(trailing_slack body).nil hslack]
      exact hplace
  | some k =>
      have hk := (trailing_slack body).le k hslack
      have hle := hpass k hslack
      omega

theorem bytesBehind_wellFormed (hstamp : Stamp place header) (h : ∀ n, Heads type n (header n)) (htype : Known type)
    (hsize : buffer.length < 2147483648) (hmax : buffer.length ≤ maxMessageSize.toNat)
    (hmin : 16 ≤ place + (wire body).length) (hno : ¬ Overhangs buffer.length place body)
    (hmsg : bytesBehind place (fun n => (header n).run) body.run buffer = some msg) :
    WellFormed maxMessageSize msg := by
  have heffect := effect_run (e := ⟨buffer, place, []⟩) body
  dsimp only at heffect
  unfold bytesBehind at hmsg
  dsimp only at hmsg
  split at hmsg
  · cases hmsg
  · rename_i hgood
    have hok := heffect.status.mp (not_not.mp hgood)
    obtain ⟨haccepted, hpass⟩ := (walk_iff body).mp hok
    have hroom := room_of_not_overhangs hstamp.lt hsize haccepted hpass hno
    have hend : (body.run ⟨buffer, place, []⟩).2.offset = place + (wire body).length := by
      rw [heffect.offset, walk_end hok]
    rw [hend] at hmsg
    let e : Enc := { (body.run ⟨buffer, place, []⟩).2 with offset := 0 }
    have hlength : e.data.length = buffer.length := heffect.length
    generalize hsent : UInt32.ofNat (place + (wire body).length) = messageSize at hmsg
    have hn : messageSize.toNat = place + (wire body).length := by
      rw [← hsent]
      exact UInt32.toNat_ofNat_of_lt' (show _ < 4294967296 by omega)
    have hplace : (wire (header messageSize)).length ≤ e.data.length := by
      rw [hstamp.length, hlength]
      omega
    obtain ⟨rest, hdata⟩ := header_data (h messageSize) hplace rfl
    have hlong : messageSize.toNat ≤ ((header messageSize).run e).2.data.length := by
      rw [(effect_run (e := e) (header messageSize)).length, hlength, hn]
      exact hroom
    rw [← Option.some.inj hmsg]
    exact wellFormed_take hdata htype (by omega) hlong (by omega)

theorem heads_opened (type secureChannelId n : UInt32) : Heads type n (stampProg type secureChannelId n) :=
  ⟨⟨⟨trivial, trivial⟩, trivial⟩, ⟨⟨trivial, trivial⟩, trivial⟩, toBytes 4 secureChannelId.toNat,
    List.append_assoc _ _ _⟩

theorem heads_message (channel : Servers.SecureChannel) (requestId n : UInt32) :
    Heads messageTypeAndFinalMsgf n (messageStampProg channel requestId n) := by
  obtain ⟨hencodable, huntagged, rest, hstarts⟩ :=
    heads_opened messageTypeAndFinalMsgf channel.securityToken.channelId n
  refine ⟨⟨hencodable, trivial, trivial, trivial⟩, ⟨huntagged, trivial, trivial, trivial⟩, ?_⟩
  rw [messageStampProg, wire, hstarts, List.append_assoc, List.append_assoc]
  exact ⟨_, rfl⟩

end Framing

section Streams

variable {maxMessageSize : UInt32} {connection : Connection} {buffer msg : List UInt8}

theorem bytes_wellFormed (reply : Reply) (hroom : 28 ≤ buffer.length) (hsize : buffer.length < 2147483648)
    (hmax : buffer.length ≤ maxMessageSize.toNat) (hno : reply.Contained buffer.length)
    (hmsg : bytes connection buffer reply = some msg) : WellFormed maxMessageSize msg := by
  cases reply with
  | acknowledge =>
      have hheads : Heads messageTypeAndFinalAckf (8 + 20) (acknowledgeProg connection) :=
        ⟨⟨⟨trivial, trivial⟩, trivial, trivial, trivial, trivial, trivial⟩,
          ⟨⟨trivial, trivial⟩, trivial, trivial, trivial, trivial, trivial⟩, _, List.append_assoc _ _ _⟩
      have hlength : (wire (acknowledgeProg connection)).length = 28 := by
        simp [acknowledgeProg, plain, wire, Write.wire, length_toBytes]
      have hkept := (effect_run (e := ⟨buffer, 0, []⟩) (acknowledgeProg connection)).length
      unfold bytes at hmsg
      dsimp only at hmsg
      rw [acknowledgeProg_run] at hmsg
      rw [← Option.some.inj hmsg]
      obtain ⟨rest, hdata⟩ := header_data hheads (e := ⟨buffer, 0, []⟩) (hlength.trans_le hroom) rfl
      apply wellFormed_take hdata (by rw [Known]; decide) (by decide)
      · rw [hkept]
        exact hroom
      · exact hroom.trans hmax
  | opened secureChannelId asymHeader seqHeader p =>
      rw [bytes_opened] at hmsg
      refine bytesBehind_wellFormed (stamp_opened _ _) (heads_opened _ _) (by rw [Known]; decide) hsize hmax ?_ hno hmsg
      simp only [openedProg, wire, plain, Write.wire, List.length_append, length_toBytes]
      omega
  | @message channel requestId t content =>
      cases hid : t.typeId.identifier.isNumeric with
      | false =>
          rw [bytes, hid, if_pos rfl] at hmsg
          cases hmsg
      | true =>
          rw [bytes_message _ _ _ _ _ hid] at hmsg
          exact bytesBehind_wellFormed (stamp_message channel requestId) (heads_message channel requestId)
            (by rw [Known]; decide) hsize hmax (by omega) (hno hid) hmsg

def hello (client : ConnectionConfig) : TcpHelloMessage :=
  ⟨client.protocolVersion, client.recvBufferSize, client.sendBufferSize, client.maxMessageSize, client.maxChunkCount⟩

/-- The messages that a server sends to the client, each with the memory of its
buffer. -/
def sent (client : ConnectionConfig) (server : Connection) (replies : List (Reply × List UInt8)) : List (List UInt8) :=
  replies.filterMap (fun r => bytes (acceptHello (hello client) server) r.2 r.1)

/-- Whatever a server sends to a client, it comes apart into the same messages
again, unless a chunk of the stream is the first byte of a message alone. -/
theorem replies_received_iff {client : Connection} (server : Connection) {replies : List (Reply × List UInt8)}
    (hfresh : client.incompleteMessage = none) (hmax : client.localConf.maxMessageSize.toNat < 2147483648)
    (hack : 28 ≤ client.localConf.recvBufferSize.toNat)
    (hrecv : client.localConf.recvBufferSize.toNat ≤ client.localConf.maxMessageSize.toNat)
    (hbuffers : ∀ r ∈ replies,
      r.2.length = (acceptHello (hello client.localConf) server).remoteConf.recvBufferSize.toNat)
    (hcontained : ∀ r ∈ replies, r.1.Contained client.localConf.recvBufferSize.toNat) {chunks : List (List UInt8)}
    (hchunks : ∀ c ∈ chunks, c ≠ []) (hstream : chunks.flatten = (sent client.localConf server replies).flatten) :
    Delivered (sent client.localConf server replies) [] (receive .succeeds client chunks).1
        (receive .succeeds client chunks).2.incompleteMessage.bytes ↔
      StartsApart (sent client.localConf server replies) 0 chunks := by
  have hwell : ∀ m ∈ sent client.localConf server replies, WellFormed client.localConf.maxMessageSize m := by
    intro m hm
    obtain ⟨r, hr, hbytes⟩ := List.mem_filterMap.mp hm
    have hlength : r.2.length = client.localConf.recvBufferSize.toNat := hbuffers r hr
    apply bytes_wellFormed r.1 (hlength.symm ▸ hack) (by omega) (by omega) _ hbytes
    rw [hlength]
    exact hcontained r hr
  obtain ⟨houts, hstored⟩ := receive_feed chunks client
  have hnil : client.incompleteMessage.bytes = [] := by
    rw [hfresh]
    rfl
  rw [houts, hstored, hnil]
  have hbytes : bytes init (List.replicate 28 0) .acknowledge = some _ := rfl
  have hrest : Unfinished client.localConf.maxMessageSize [] :=
    ⟨_, by decide, bytes_wellFormed .acknowledge (by decide) (by decide)
      (List.length_replicate.trans_le (hack.trans hrecv)) (by rw [Reply.Contained]; decide) hbytes⟩
  rw [startsApart_iff_endsApart hchunks]
  exact feed_delivered_iff chunks hwell hrest hrest (hstream.trans (List.append_nil _).symm) (Or.inl hmax)

/-- A client that allows for 64 bytes. -/
def narrowClient : Connection := { init with localConf := ⟨0, 64, 64, 64, 1⟩ }

/-- An acknowledge message and a service fault. -/
def sampleReplies : List (Reply × List UInt8) :=
  [(.acknowledge, List.replicate 64 0),
    (.message Servers.SecureChannel.init 1 (ofImage TypeTable.serviceFault []), List.replicate 64 0)]

/-- The first chunk ends two bytes behind the first message. -/
def sampleChunks : List (List UInt8) :=
  [[65, 67, 75, 70, 28, 0, 0, 0, 0, 0, 0, 0, 64, 0, 0, 0, 64, 0, 0, 0, 0, 0, 1, 0, 1, 0, 0, 0, 77, 83],
    [71, 70, 52, 0, 0, 0] ++ List.replicate 8 0 ++ [1, 0, 0, 0, 1, 0, 0, 0, 1, 0, 141, 1] ++ List.replicate 17 0 ++
      [255, 255, 255, 255, 0, 0, 0]]

theorem replies_received_sampleReplies : (sent narrowClient.localConf init sampleReplies).length = 2 ∧
    Delivered (sent narrowClient.localConf init sampleReplies) [] (receive .succeeds narrowClient sampleChunks).1
      (receive .succeeds narrowClient sampleChunks).2.incompleteMessage.bytes := by
  refine ⟨by decide +kernel, (replies_received_iff init rfl (by decide) (by decide) (by decide) (by decide) ?_
    (by decide) (by decide +kernel)).mpr ?_⟩
  · intro r hr
    rcases List.mem_cons.mp hr with rfl | hr
    · rw [Reply.Contained]
      decide
    · obtain rfl := List.mem_singleton.mp hr
      exact fun _ hoverhangs => absurd hoverhangs.2.1 (by decide +kernel)
  · intro before chunk after hsplit hone
    have hmem : chunk ∈ sampleChunks := hsplit ▸ List.mem_append_right _ List.mem_cons_self
    have hlong : ∀ c ∈ sampleChunks, c.length ≠ 1 := by decide
    exact absurd hone (hlong chunk hmem)

end Streams

end OpcUa.ReplyStreams
