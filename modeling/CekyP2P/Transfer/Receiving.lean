import CekyP2P.Transfer.Handlers
import CekyP2P.Transfer.Tiling

/-!
# Progress of a receiving transfer

A transfer that is fed the pieces of one file, no index twice, has written exactly the
blocks it has counted. Nothing else links the counter that decides completion to
the content of the map.
-/

namespace CekyP2P.Transfer

open Protocol TransferManager

/-- Chunks below the total lie inside the file, at offsets that do not wrap. -/
structure Layout (file : List UInt8) (chunkSize totalChunks : UInt32) : Prop where
  chunkSize_ne_zero : chunkSize ≠ 0
  offset_lt : ∀ i < totalChunks.toNat, i * chunkSize.toNat < 2 ^ 32
  inside : ∀ i < totalChunks.toNat, i * chunkSize.toNat < file.length

/-- The chunk is a counted piece of the file, under its own index. -/
structure IsPiece (file : List UInt8) (chunkSize totalChunks : UInt32) (chunk : FileChunk) :
    Prop where
  index_lt : chunk.chunkIndex.toNat < totalChunks.toNat
  data_eq : chunk.data = block file chunkSize.toNat chunk.chunkIndex.toNat

/-- The map holds the given blocks of the file, and the counter is their number. -/
structure Progress (file : List UInt8) (chunkSize totalChunks : UInt32) (blocks : Finset Nat)
    (s : ReceivingState) : Prop where
  chunkSize_eq : s.chunkSize = chunkSize
  totalChunks_eq : s.totalChunks = totalChunks
  holds : Holds file chunkSize.toNat blocks s.fileMap
  card_eq : s.receivedChunks.toNat = blocks.card
  lt_total : ∀ i ∈ blocks, i < totalChunks.toNat

section

variable {file : List UInt8} {chunkSize totalChunks : UInt32} {blocks : Finset Nat}
  {s : ReceivingState} {chunk : FileChunk}

/-- An offer starts a download without chunks. -/
theorem progress_received {offer : FileOffer} (hsize : offer.fileSize.toNat = file.length)
    (m : TransferManager) (peer : SocketAddr) (content : List UInt8) :
    Progress file offer.chunkSize offer.totalChunks ∅ (m.received peer offer content) where
  chunkSize_eq := rfl
  totalChunks_eq := rfl
  holds := .empty ((length_setLen _ _).trans hsize)
  card_eq := rfl
  lt_total := by simp

namespace Layout

/-- A product in 32 bits is the offset of the piece. -/
theorem chunkStart_eq (hlayout : Layout file chunkSize totalChunks)
    (hpiece : IsPiece file chunkSize totalChunks chunk) :
    chunkStart chunk.chunkIndex chunkSize = chunk.chunkIndex.toNat * chunkSize.toNat :=
  chunkStart_of_lt (hlayout.offset_lt _ hpiece.index_lt)

/-- A piece ends inside the file. -/
theorem piece_end_le (hlayout : Layout file chunkSize totalChunks)
    (hpiece : IsPiece file chunkSize totalChunks chunk) :
    chunk.chunkIndex.toNat * chunkSize.toNat + chunk.data.length ≤ file.length := by
  have hin := hlayout.inside _ hpiece.index_lt
  rw [hpiece.data_eq, length_block]
  omega

end Layout

namespace Progress

/-- Pieces pass the range check. -/
theorem in_range (h : Progress file chunkSize totalChunks blocks s)
    (hlayout : Layout file chunkSize totalChunks)
    (hpiece : IsPiece file chunkSize totalChunks chunk) :
    chunkStart chunk.chunkIndex s.chunkSize + chunk.data.length ≤ s.fileMap.length := by
  rw [h.chunkSize_eq, hlayout.chunkStart_eq hpiece, h.holds.length_eq]
  exact hlayout.piece_end_le hpiece

/-- The blocks counted are some of those below the total. -/
theorem subset_range (h : Progress file chunkSize totalChunks blocks s) :
    blocks ⊆ Finset.range totalChunks.toNat :=
  fun i hi => Finset.mem_range.mpr (h.lt_total i hi)

/-- A piece that is new adds its block, and the counter does not wrap. -/
theorem written (h : Progress file chunkSize totalChunks blocks s)
    (hlayout : Layout file chunkSize totalChunks)
    (hpiece : IsPiece file chunkSize totalChunks chunk)
    (hnew : chunk.chunkIndex.toNat ∉ blocks) :
    Progress file chunkSize totalChunks (insert chunk.chunkIndex.toNat blocks)
      (written s chunk) where
  chunkSize_eq := h.chunkSize_eq
  totalChunks_eq := h.totalChunks_eq
  holds := by
    rw [TransferManager.written, h.chunkSize_eq, hlayout.chunkStart_eq hpiece, hpiece.data_eq]
    exact h.holds.overwrite (hlayout.inside _ hpiece.index_lt).le
  card_eq := by
    have hlt : blocks.card < totalChunks.toNat := by
      have hsub : insert chunk.chunkIndex.toNat blocks ⊆ Finset.range totalChunks.toNat :=
        Finset.insert_subset (Finset.mem_range.mpr hpiece.index_lt) h.subset_range
      have := Finset.card_le_card hsub
      rw [Finset.card_insert_of_notMem hnew, Finset.card_range] at this
      omega
    have hbound := totalChunks.toNat_lt
    rw [Finset.card_insert_of_notMem hnew, TransferManager.written, UInt32.toNat_add, h.card_eq,
      UInt32.toNat_one, Nat.mod_eq_of_lt (by omega)]
  lt_total := by
    intro i hi
    rcases Finset.mem_insert.mp hi with rfl | hold
    · exact hpiece.index_lt
    · exact h.lt_total i hold

/-- When the counter reaches the total, every counted block is there. -/
theorem eq_range (h : Progress file chunkSize totalChunks blocks s)
    (hlast : s.receivedChunks = s.totalChunks) : blocks = Finset.range totalChunks.toNat := by
  refine Finset.eq_of_subset_of_card_le h.subset_range ?_
  rw [Finset.card_range, ← h.card_eq, hlast, h.totalChunks_eq]

end Progress

/-- The map is the file once all its blocks are there, if they reach to its end. -/
theorem eq_of_holds_range {map : List UInt8} (hc : chunkSize ≠ 0)
    (h : Holds file chunkSize.toNat (Finset.range totalChunks.toNat) map)
    (hcover : file.length ≤ totalChunks.toNat * chunkSize.toNat) : map = file := by
  refine h.eq_of_forall_mem (toNat_pos_of_ne_zero hc) fun i hi => ?_
  exact Finset.mem_range.mpr (Nat.lt_of_mul_lt_mul_right (hi.trans_le hcover))

end

end CekyP2P.Transfer
