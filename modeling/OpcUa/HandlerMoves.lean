import OpcUa.MessageHandlers

namespace OpcUa.HandlerMoves

open StatusCodes NodeIds DataTypes TypeTable Values Readers Decoding Servers ServiceTable
open MessageHandlers BoundedReading DecodeBounds

variable {α : Type} {d : DecM α} {b : Build} {env : Environment} {s : Server} {c : Nat} {st : Dec}

theorem attempt_moves (h : ∀ most, Agree most d d) (hst : Valid st) : Moves st (attempt d st).2 := by
  obtain ⟨r, st', hrun, _, hmoves⟩ := h _ st hst (le_refl _)
  rw [attempt, hrun]
  exact hmoves

theorem readOr_moves (zero : α) (h : ∀ most, Agree most d d) (hst : Valid st) :
    Moves st (readOr zero d st).2 := by
  have hmoves := attempt_moves h hst
  rw [readOr]
  split
  · rename_i heq
    rw [heq] at hmoves
    exact hmoves
  · rename_i heq
    rw [heq] at hmoves
    exact hmoves

theorem agree_build (b : Build) (t : DataType) (most : Nat) : Agree most (b.decode t) (b.decode t) := by
  intro st hst _
  obtain ⟨r, st', hrun, hmoves⟩ := b.decode_moves t st hst
  exact ⟨r, st', hrun, hrun, hmoves⟩

theorem moves_elsewhere {st' : Dec} {pos : Nat} (hst : Valid st) (h : Moves { st with offset := pos } st') :
    Moves st { st' with offset := st.offset } := by
  refine ⟨⟨?_, h.valid.reads_le⟩, h.cleared, le_refl _⟩
  rw [show ({ st' with offset := st.offset } : Dec).data.length = st.data.length from h.length_eq]
  exact hst.offset_le

theorem sendError_moves {channel : Option Nat} {requestId : UInt32} {error : StatusCode} {pos : Nat}
    (hst : Valid st) (hpos : pos ≤ st.data.length) :
    Moves st (sendError b env s c channel requestId error pos st).dec := by
  have hvalid : Valid { st with offset := pos } := ⟨hpos, hst.reads_le⟩
  have hmoves := attempt_moves (agree_build b requestHeader) hvalid
  rw [sendError]
  split
  · rename_i heq
    rw [heq] at hmoves
    exact moves_elsewhere hst hmoves
  · rename_i heq
    rw [heq] at hmoves
    exact moves_elsewhere hst hmoves

theorem agree_hello (most : Nat) : Agree most helloDecodeBinary helloDecodeBinary :=
  agree_both agree_uint32 (agree_both agree_uint32 (agree_both agree_uint32
    (agree_both agree_uint32 (agree_both agree_uint32 agree_string))))

theorem processHEL_moves (hst : Valid st) : Moves st (processHEL env s c st).dec := by
  have hmoves := attempt_moves agree_hello hst
  rw [processHEL]
  split
  · rename_i heq
    rw [heq] at hmoves
    exact hmoves
  · rename_i heq
    rw [heq] at hmoves
    dsimp only
    split
    · exact hmoves
    · exact hmoves

theorem agree_open (b : Build) (most : Nat) : Agree most (openDecodeBinary b) (openDecodeBinary b) :=
  agree_both agree_uint32
    (agree_both (agree_both agree_string (agree_both agree_string agree_string))
      (agree_both (agree_both agree_uint32 agree_uint32)
        (agree_both agree_nodeId (agree_build b openSecureChannelRequest most))))

theorem processOPN_moves (hst : Valid st) : Moves st (processOPN b env s c st).dec := by
  rw [processOPN]
  split
  · exact Moves.refl hst
  have hmoves := attempt_moves (agree_open b) hst
  split
  · rename_i heq
    rw [heq] at hmoves
    exact hmoves
  · rename_i heq
    rw [heq] at hmoves
    dsimp only
    split
    · exact hmoves
    · exact hmoves

theorem serve_moves {channel : Option Nat} {requestId : UInt32} {service : Service} {request : Any}
    {oldpos : Nat} (hst : Valid st) (hpos : oldpos ≤ st.data.length) :
    Moves st (serve b env s c channel requestId service request oldpos st).dec := by
  rw [serve]
  split
  · exact sendError_moves hst hst.offset_le
  split
  · exact sendError_moves hst hst.offset_le
  dsimp only
  split
  · exact Moves.refl hst
  split
  · exact sendError_moves hst hpos
  · exact Moves.refl hst

theorem processRequest_moves {channel : Option Nat} {requestId : UInt32} {requestTypeId : NodeId}
    (hst : Valid st) : Moves st (processRequest b env s c channel requestId requestTypeId st).dec := by
  rw [processRequest]
  split
  · exact sendError_moves hst hst.offset_le
  split
  · exact sendError_moves hst hst.offset_le
  rename_i service _
  split
  · exact sendError_moves hst hst.offset_le
  have hmoves := attempt_moves (agree_build b service.requestType) hst
  split
  · rename_i heq
    rw [heq] at hmoves
    exact hmoves.trans (sendError_moves hmoves.valid (by rw [hmoves.length_eq]; exact hst.offset_le))
  · rename_i heq
    rw [heq] at hmoves
    exact hmoves.trans (serve_moves hmoves.valid (by rw [hmoves.length_eq]; exact hst.offset_le))

theorem processChecked_moves {secureChannelId tokenId requestId : UInt32} {requestTypeId : NodeId}
    (hst : Valid st) :
    Moves st (processChecked b env s c secureChannelId tokenId requestId requestTypeId st).dec := by
  rw [processChecked]
  split
  · exact Moves.refl hst
  split
  · split
    · exact Moves.refl hst
    · exact processRequest_moves hst
  · exact processRequest_moves hst

theorem securityHeaders_moves (hst : Valid st) : Moves st (securityHeaders st).2 := by
  have hchannel : Moves st (readOr 0 uint32DecodeBinary st).2 :=
    readOr_moves 0 (fun _ => agree_uint32) hst
  have htoken := hchannel.trans (readOr_moves 0 (fun _ => agree_uint32) hchannel.valid)
  have hsequence := htoken.trans (readOr_moves (0, 0) (fun _ => agree_both agree_uint32 agree_uint32) htoken.valid)
  rw [securityHeaders]
  exact hsequence

theorem processMSG_moves (hst : Valid st) : Moves st (processMSG b env s c st).dec := by
  have hheaders := securityHeaders_moves hst
  have hid := hheaders.trans (attempt_moves (fun _ => agree_nodeId) hheaders.valid)
  unfold processMSG
  dsimp only
  split
  · rename_i heq
    rw [heq] at hid
    exact hid
  · rename_i heq
    rw [heq] at hid
    exact hid.trans (processChecked_moves hid.valid)

end OpcUa.HandlerMoves
