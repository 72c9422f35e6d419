import CekyP2P.Dht.Storage
import CekyP2P.Nat.Stun
import CekyP2P.Protocol.Codec
import CekyP2P.Protocol.Dht
import CekyP2P.Protocol.TransferCodec

/-!
# Bytes from the network

A node in release mode aborts on a panic, so no decoder may panic on what a peer sends.
-/

namespace CekyP2P.Node

open Protocol

/-- A call of the frame decoder ends, and does not panic, whatever it remembers. -/
theorem decode_returned (crc : Crc32c) (d : FrameCodec.Decoding) :
    Exec.Returned (FrameCodec.decode crc d) := by
  have hcall := FrameCodec.decode_call crc d
  generalize FrameCodec.decode crc d = result at hcall
  cases hcall <;> trivial

/-- Every decoder gives a value or an error value on every byte string. -/
theorem wire_input_answered (crc : Crc32c) (data : List UInt8) (txnId : Vector UInt8 12) :
    (∀ state, Exec.Returned (FrameCodec.decode crc ⟨state, data⟩)) ∧
      Reader.Answered (FileOffer.decode data) ∧ Reader.Answered (FileAccept.decode data) ∧
      Reader.Answered (FileReject.decode data) ∧ Reader.Answered (FileChunk.decode data) ∧
      Reader.Answered (FileChunkAck.decode data) ∧ Reader.Answered (FileComplete.decode data) ∧
      Reader.Answered (FileCancel.decode data) ∧ Reader.Answered (FindNode.decode data) ∧
      Reader.Answered (FindNodeResp.decode data) ∧
      Reader.Answered (Dht.StoredEntry.decode data) ∧
      Exec.Returned (Stun.parseBindingResponse data txnId ()) :=
  ⟨fun state => decode_returned crc ⟨state, data⟩, FileOffer.decode_answered data,
    FileAccept.decode_answered data, FileReject.decode_answered data,
    FileChunk.decode_answered data, FileChunkAck.decode_answered data,
    FileComplete.decode_answered data, FileCancel.decode_answered data,
    FindNode.decode_answered data, FindNodeResp.decode_answered data,
    Dht.StoredEntry.decode_answered data, Stun.parseBindingResponse_returned data txnId⟩

end CekyP2P.Node
