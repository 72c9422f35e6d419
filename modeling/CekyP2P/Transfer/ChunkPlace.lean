import CekyP2P.Core.Sha256
import CekyP2P.Transfer.Guards

/-!
# Where a chunk is written

The place of chunk `i` of a file are the bytes from `i * chunk_size` to the start of the next
chunk. The handler writes as many bytes as the chunk has, at a product taken in 32 bits, and
checks neither the length of the data nor the index against the offer.
-/

namespace CekyP2P.Transfer

open Protocol TransferManager

/-- The bytes of the mapped file after a call: those of the entry, or those that were flushed
when the transfer was completed. -/
def mapAfter (id : TransferId) (m : TransferManager) : Option (List UInt8) :=
  match m.activeTransfers id with
  | some (.receiving s) => some s.fileMap
  | _ => m.flushed.getLast?.map (·.2)

/-- The byte `x` belongs to a chunk; nothing wraps around here. -/
def InPlace (s : ReceivingState) (chunkIndex : UInt32) (x : Nat) : Prop :=
  chunkIndex.toNat * s.chunkSize.toNat ≤ x ∧
    x < min ((chunkIndex.toNat + 1) * s.chunkSize.toNat) s.fileMap.length

/-- What a call of `handle_chunk` may change: `m` is the manager before it and `s` the transfer in
it. Frames may be sent in any case. -/
structure WritesOwnPlace (chunk : FileChunk) (s : ReceivingState) (m : TransferManager)
    (result : EStateM.Result (Stop TransferError) TransferManager Unit) : Prop where
  outside : ∀ map ∈ mapAfter chunk.transferId (Exec.stateAfter result),
    ∀ x, ¬InPlace s chunk.chunkIndex x → map[x]? = s.fileMap[x]?
  nothing : s.totalChunks ≤ chunk.chunkIndex ∨ Exec.isOk result = false →
    (Exec.stateAfter result).activeTransfers = m.activeTransfers ∧
      (Exec.stateAfter result).flushed = m.flushed

/-- The chunk is refused, or it has an index of the file and puts nothing new outside its
place. -/
def KeepsPlace (sha256 : List UInt8 → Vector UInt8 32) (s : ReceivingState) (chunk : FileChunk) :
    Prop :=
  hashChunk sha256 chunk.data ≠ chunk.chunkHash ∨
    s.fileMap.length < chunkStart chunk.chunkIndex s.chunkSize + chunk.data.length ∨
    (chunk.chunkIndex < s.totalChunks ∧ ∀ k < chunk.data.length,
      InPlace s chunk.chunkIndex (chunkStart chunk.chunkIndex s.chunkSize + k) ∨
        s.fileMap[chunkStart chunk.chunkIndex s.chunkSize + k]? = chunk.data[k]?)

variable {sha256 : List UInt8 → Vector UInt8 32} {g : Guards} {m : TransferManager}
  {chunk : FileChunk} {s : ReceivingState}

/-- A refused chunk changes nothing. -/
theorem writesOwnPlace_of_same
    {result : EStateM.Result (Stop TransferError) TransferManager Unit}
    (hs : m.activeTransfers chunk.transferId = some (.receiving s))
    (hentries : (Exec.stateAfter result).activeTransfers = m.activeTransfers)
    (hflushed : (Exec.stateAfter result).flushed = m.flushed) :
    WritesOwnPlace chunk s m result := by
  refine ⟨?_, fun _ => ⟨hentries, hflushed⟩⟩
  intro map hmap x _
  rw [mapAfter, hentries, hs] at hmap
  cases hmap
  rfl

/-- A written chunk shows in the map, and in the counter at least. -/
theorem writesOwnPlace_of_written
    {result : EStateM.Result (Stop TransferError) TransferManager Unit}
    (hs : m.activeTransfers chunk.transferId = some (.receiving s))
    (hrange : chunkStart chunk.chunkIndex s.chunkSize + chunk.data.length ≤ s.fileMap.length)
    (hok : Exec.isOk result = true)
    (hmap : mapAfter chunk.transferId (Exec.stateAfter result) = some (written s chunk).fileMap)
    (hentry : (Exec.stateAfter result).activeTransfers chunk.transferId ≠
      some (.receiving s)) :
    WritesOwnPlace chunk s m result ↔ chunk.chunkIndex < s.totalChunks ∧
      ∀ k < chunk.data.length,
        InPlace s chunk.chunkIndex (chunkStart chunk.chunkIndex s.chunkSize + k) ∨
          s.fileMap[chunkStart chunk.chunkIndex s.chunkSize + k]? = chunk.data[k]? := by
  rw [← overwrite_outside_iff (InPlace s chunk.chunkIndex) hrange]
  constructor
  · intro h
    refine ⟨UInt32.not_le.mp fun hle => ?_, h.outside _ hmap⟩
    refine hentry ?_
    rw [(h.nothing (Or.inl hle)).1, hs]
  · rintro ⟨hindex, houtside⟩
    refine ⟨?_, ?_⟩
    · intro map hmem x hx
      rw [hmap] at hmem
      cases hmem
      exact houtside x hx
    · rintro (hle | herror)
      · exact absurd hindex (UInt32.not_lt.mpr hle)
      · rw [hok] at herror
        cases herror

/-- The file after a chunk was stored. -/
theorem mapAfter_stored (m : TransferManager) (chunk : FileChunk) (s : ReceivingState) :
    mapAfter chunk.transferId (m.stored chunk s) = some (written s chunk).fileMap := by
  simp [mapAfter, stored]

/-- Storing a chunk changes the state, as it is counted. -/
theorem written_ne (s : ReceivingState) (chunk : FileChunk) : written s chunk ≠ s := by
  intro heq
  have hcount : s.receivedChunks + 1 = s.receivedChunks := congrArg (·.receivedChunks) heq
  simp at hcount

/-- A chunk writes only its own place exactly when it is refused, or has an index of the file and
puts outside its place only what is there already. -/
theorem handleChunk_own_place_iff (hg : ¬g.Blocks chunk.transferId)
    (hs : m.activeTransfers chunk.transferId = some (.receiving s)) :
    WritesOwnPlace chunk s m (handleChunk sha256 g chunk m) ↔ KeepsPlace sha256 s chunk := by
  by_cases hhash : hashChunk sha256 chunk.data = chunk.chunkHash
  · by_cases hrange : chunkStart chunk.chunkIndex s.chunkSize + chunk.data.length ≤ s.fileMap.length
    · have hkeeps : KeepsPlace sha256 s chunk ↔ chunk.chunkIndex < s.totalChunks ∧
          ∀ k < chunk.data.length,
            InPlace s chunk.chunkIndex (chunkStart chunk.chunkIndex s.chunkSize + k) ∨
              s.fileMap[chunkStart chunk.chunkIndex s.chunkSize + k]? = chunk.data[k]? := by
        simp only [KeepsPlace, hhash, ne_eq, not_true_eq_false, false_or, Nat.not_lt.mpr hrange]
      rw [hkeeps]
      by_cases hlast : s.receivedChunks + 1 = s.totalChunks
      · rw [handleChunk_of_completed hg hs hhash hrange hlast]
        refine writesOwnPlace_of_written hs hrange rfl ?_ ?_
        · simp [mapAfter, Exec.stateAfter, withSent, without]
        · simp [Exec.stateAfter]
      · rw [handleChunk_of_stored hg hs hhash hrange hlast]
        refine writesOwnPlace_of_written hs hrange rfl ?_ ?_
        · exact mapAfter_stored m chunk s
        · simp [Exec.stateAfter, stored, written_ne]
    · rw [handleChunk_of_out_of_range hg hs hhash hrange]
      exact iff_of_true (writesOwnPlace_of_same hs rfl rfl)
        (Or.inr (Or.inl (Nat.lt_of_not_le hrange)))
  · rw [handleChunk_of_bad_hash hg hs hhash]
    exact iff_of_true (writesOwnPlace_of_same hs rfl rfl) (Or.inl hhash)

/-! ## Two chunks of one file -/

/-- A file of four bytes in two chunks of which nothing has arrived. -/
def twoChunkDownload : ReceivingState where
  peer := ⟨.v4 (Vector.replicate 4 127), 9000⟩
  fileMap := [0, 0, 0, 0]
  expectedRoot := Vector.replicate 32 0
  bitfield := [0xff]
  chunkSize := 2
  totalChunks := 2
  receivedChunks := 0
  filePath := ⟨"downloads/a"⟩

/-- A receiver of a file with two chunks. -/
def twoChunkReceiver : TransferManager :=
  (new ⟨"downloads"⟩).withEntry ⟨Vector.replicate 16 7⟩ (.receiving twoChunkDownload)

/-- The download of the receiver. -/
theorem twoChunkReceiver_entry : twoChunkReceiver.activeTransfers ⟨Vector.replicate 16 7⟩ =
    some (.receiving twoChunkDownload) := by
  rw [twoChunkReceiver, withEntry_activeTransfers, Function.update_self]

/-- A chunk of the file with an intact hash. -/
def intactChunk (chunkIndex : UInt32) (data : List UInt8) : FileChunk :=
  ⟨⟨Vector.replicate 16 7⟩, chunkIndex, hashChunk Sha256.digest data, data⟩

/-- The second chunk goes to its place. -/
theorem keepsPlace_second : KeepsPlace Sha256.digest twoChunkDownload (intactChunk 1 [1, 1]) := by
  refine Or.inr (Or.inr ⟨by decide, ?_⟩)
  unfold InPlace
  decide

/-- The second chunk is written where it belongs. -/
theorem handleChunk_own_place_second : KeepsPlace Sha256.digest twoChunkDownload
      (intactChunk 1 [1, 1]) ∧
    WritesOwnPlace (intactChunk 1 [1, 1]) twoChunkDownload twoChunkReceiver
      (handleChunk Sha256.digest .dashMap (intactChunk 1 [1, 1]) twoChunkReceiver) :=
  ⟨keepsPlace_second, (handleChunk_own_place_iff (Guards.not_dashMap_blocks _)
    twoChunkReceiver_entry).mpr keepsPlace_second⟩

/-- A first chunk of four bytes is written over the second one. -/
theorem handleChunk_overwrites_neighbour :
    ¬WritesOwnPlace (intactChunk 0 [1, 1, 1, 1]) twoChunkDownload twoChunkReceiver
      (handleChunk Sha256.digest .dashMap (intactChunk 0 [1, 1, 1, 1]) twoChunkReceiver) := by
  rw [handleChunk_of_stored (Guards.not_dashMap_blocks _) twoChunkReceiver_entry rfl (by decide)
    (by decide)]
  intro h
  have hbyte := h.outside _ (mapAfter_stored twoChunkReceiver _ _) 2 (by unfold InPlace; decide)
  exact absurd hbyte (by decide)

end CekyP2P.Transfer
