import CekyP2P.Transfer.Guards
import CekyP2P.Transfer.Receiving

/-!
# The offered root

The root of an offer is stored with the transfer and never compared with anything. What
a completed transfer holds is decided by the chunks alone, each of which is checked
only against the hash that it carries itself.
-/

namespace CekyP2P.Transfer

open Protocol TransferManager

namespace TransferManager

variable (sha256 : List UInt8 → Vector UInt8 32)

/-- The manager after some chunks, one after another. -/
def handleChunks (g : Guards) (chunks : List FileChunk) (m : TransferManager) : TransferManager :=
  chunks.foldl (fun m chunk => Exec.stateAfter (handleChunk sha256 g chunk m)) m

/-- One more chunk is handled. -/
theorem handleChunks_concat (g : Guards) (chunks : List FileChunk) (chunk : FileChunk)
    (m : TransferManager) : handleChunks sha256 g (chunks ++ [chunk]) m =
      Exec.stateAfter (handleChunk sha256 g chunk (handleChunks sha256 g chunks m)) := by
  simp [handleChunks]

/-- The chunk removes an active transfer, announces its completion, and leaves `map` as the
mapped file. -/
structure Completes (g : Guards) (chunk : FileChunk) (m : TransferManager) (map : List UInt8) :
    Prop where
  active : m.activeTransfers chunk.transferId ≠ none
  removed : (Exec.stateAfter (handleChunk sha256 g chunk m)).activeTransfers chunk.transferId = none
  announced : ∃ peer complete,
    (Exec.stateAfter (handleChunk sha256 g chunk m)).outbox.getLast? =
      some (peer, .fileComplete complete)
  flushed : ∃ path, (Exec.stateAfter (handleChunk sha256 g chunk m)).flushed =
    m.flushed ++ [(path, map)]

variable {sha256} {g : Guards} {chunk : FileChunk} {m : TransferManager} {map : List UInt8}

/-- What a chunk does to the entry of its transfer: nothing, one more chunk written, or
the last chunk written and the entry removed. -/
theorem handleChunk_entry_cases (sha256 : List UInt8 → Vector UInt8 32)
    (hg : ¬g.Blocks chunk.transferId) (m : TransferManager) :
    ((Exec.stateAfter (handleChunk sha256 g chunk m)).activeTransfers chunk.transferId =
        m.activeTransfers chunk.transferId ∧
      ∀ s, m.activeTransfers chunk.transferId = some (.receiving s) →
        hashChunk sha256 chunk.data = chunk.chunkHash →
        ¬chunkStart chunk.chunkIndex s.chunkSize + chunk.data.length ≤ s.fileMap.length) ∨
      ∃ s, m.activeTransfers chunk.transferId = some (.receiving s) ∧
        hashChunk sha256 chunk.data = chunk.chunkHash ∧
        chunkStart chunk.chunkIndex s.chunkSize + chunk.data.length ≤ s.fileMap.length ∧
        (s.receivedChunks + 1 ≠ s.totalChunks ∧
            (Exec.stateAfter (handleChunk sha256 g chunk m)).activeTransfers chunk.transferId =
              some (.receiving (written s chunk)) ∨
          s.receivedChunks + 1 = s.totalChunks ∧
            (Exec.stateAfter (handleChunk sha256 g chunk m)).activeTransfers chunk.transferId =
              none ∧
            (Exec.stateAfter (handleChunk sha256 g chunk m)).flushed =
              m.flushed ++ [(s.filePath, (written s chunk).fileMap)]) := by
  obtain ⟨-, houtcome⟩ := handleChunk_outcome sha256 hg m
  generalize Exec.stateAfter (handleChunk sha256 g chunk m) = m' at houtcome ⊢
  cases houtcome with
  | ignored hentry => exact Or.inl ⟨rfl, fun s hs => absurd hs (hentry s)⟩
  | badHash hentry hhash => exact Or.inl ⟨rfl, fun _ _ h => absurd h hhash⟩
  | outOfRange hentry hhash hrange =>
    refine Or.inl ⟨rfl, fun s hs _ => ?_⟩
    cases hentry.symm.trans hs
    exact hrange
  | stored hentry hhash hrange hopen =>
    exact Or.inr ⟨_, hentry, hhash, hrange, Or.inl ⟨hopen, Function.update_self _ _ _⟩⟩
  | completed hentry hhash hrange hlast =>
    exact Or.inr ⟨_, hentry, hhash, hrange, Or.inr ⟨hlast, Function.update_self _ _ _, rfl⟩⟩

/-- A chunk leaves the entries of other transfers alone. -/
theorem handleChunk_entry_of_ne {id : TransferId} (hg : ¬g.Blocks chunk.transferId)
    (hne : id ≠ chunk.transferId) (m : TransferManager) :
    (Exec.stateAfter (handleChunk sha256 g chunk m)).activeTransfers id = m.activeTransfers id := by
  obtain ⟨-, houtcome⟩ := handleChunk_outcome sha256 hg m
  generalize Exec.stateAfter (handleChunk sha256 g chunk m) = m' at houtcome ⊢
  cases houtcome with
  | ignored | badHash | outOfRange => rfl
  | stored => exact Function.update_of_ne hne _ _
  | completed => exact (Function.update_of_ne hne _ _).trans (Function.update_of_ne hne _ _)

/-- A chunk completes a transfer by being the last one counted. -/
theorem Completes.exists_state (h : Completes sha256 g chunk m map)
    (hg : ¬g.Blocks chunk.transferId) :
    ∃ s, m.activeTransfers chunk.transferId = some (.receiving s) ∧
      hashChunk sha256 chunk.data = chunk.chunkHash ∧
      chunkStart chunk.chunkIndex s.chunkSize + chunk.data.length ≤ s.fileMap.length ∧
      s.receivedChunks + 1 = s.totalChunks ∧ map = (written s chunk).fileMap := by
  rcases handleChunk_entry_cases sha256 hg m with
    ⟨hsame, -⟩ | ⟨s, hentry, hhash, hrange, ⟨-, hkept⟩ | ⟨hlast, -, hflushed⟩⟩
  · rw [h.removed] at hsame
    exact absurd hsame.symm h.active
  · rw [h.removed] at hkept
    cases hkept
  · obtain ⟨path, hmap⟩ := h.flushed
    rw [hflushed, List.append_right_inj] at hmap
    simp only [List.cons.injEq, Prod.mk.injEq, and_true] at hmap
    exact ⟨s, hentry, hhash, hrange, hlast, hmap.2.symm⟩

/-- The chunk that brings the counter to the total completes the transfer. -/
theorem completes_of_last {s : ReceivingState} (hg : ¬g.Blocks chunk.transferId)
    (hentry : m.activeTransfers chunk.transferId = some (.receiving s))
    (hhash : hashChunk sha256 chunk.data = chunk.chunkHash)
    (hrange : chunkStart chunk.chunkIndex s.chunkSize + chunk.data.length ≤ s.fileMap.length)
    (hlast : s.receivedChunks + 1 = s.totalChunks) :
    Completes sha256 g chunk m (written s chunk).fileMap := by
  have hstep := handleChunk_of_completed hg hentry hhash hrange hlast
  refine ⟨?_, ?_, ⟨s.peer, ⟨chunk.transferId, Vector.replicate 32 0⟩, ?_⟩, ⟨s.filePath, ?_⟩⟩
  · rw [hentry]
    exact Option.some_ne_none _
  · rw [hstep]
    exact Function.update_self _ _ _
  · rw [hstep]
    exact List.getLast?_concat
  · rw [hstep]
    rfl

end TransferManager

variable (sha256 : List UInt8 → Vector UInt8 32)

/-- The offer is accepted by some manager, and the chunks, all of them for its transfer,
complete it with `map` as the mapped file. -/
def CompletesWith (offer : FileOffer) (chunks : List FileChunk) (map : List UInt8) : Prop :=
  ∃ m peer content init last, chunks = init ++ [last] ∧
    (∀ chunk ∈ chunks, chunk.transferId = offer.transferId) ∧
    Completes sha256 .dashMap last (handleChunks sha256 .dashMap init
      (Exec.stateAfter (handleOffer .dashMap peer offer (some content) m))) map

variable {sha256} {offer : FileOffer}

/-- The entry that an accepted offer leaves. -/
theorem handleOffer_entry (m : TransferManager) (peer : SocketAddr) (offer : FileOffer)
    (content : List UInt8) :
    (Exec.stateAfter (handleOffer .dashMap peer offer (some content) m)).activeTransfers
      offer.transferId = some (.receiving (m.received peer offer content)) := by
  rw [handleOffer_of_some (Guards.not_dashMap_blocks _)]
  exact Function.update_self _ _ _

/-- Invariant rule for an active transfer: what holds at first, and is kept by every chunk
that is skipped or written, holds as long as the transfer is active. Chunks of other
transfers are skipped. -/
theorem invariant_of_active {P : List FileChunk → ReceivingState → Prop} {start : TransferManager}
    {id : TransferId} (hstart : ∀ s, start.activeTransfers id = some (.receiving s) → P [] s)
    (hskip : ∀ chunks chunk s,
      (handleChunks sha256 .dashMap chunks start).activeTransfers id = some (.receiving s) →
      P chunks s → (chunk.transferId = id → hashChunk sha256 chunk.data = chunk.chunkHash →
        ¬chunkStart chunk.chunkIndex s.chunkSize + chunk.data.length ≤ s.fileMap.length) →
      P (chunks ++ [chunk]) s)
    (hwrite : ∀ chunks chunk s,
      (handleChunks sha256 .dashMap chunks start).activeTransfers id = some (.receiving s) →
      P chunks s → chunk.transferId = id → hashChunk sha256 chunk.data = chunk.chunkHash →
      chunkStart chunk.chunkIndex s.chunkSize + chunk.data.length ≤ s.fileMap.length →
      s.receivedChunks + 1 ≠ s.totalChunks → P (chunks ++ [chunk]) (written s chunk))
    (chunks : List FileChunk) :
    ∀ s, (handleChunks sha256 .dashMap chunks start).activeTransfers id = some (.receiving s) →
      P chunks s := by
  induction chunks using List.reverseRecOn with
  | nil => exact hstart
  | append_singleton chunks chunk ih =>
    intro s hentry
    rw [handleChunks_concat] at hentry
    by_cases hid : chunk.transferId = id
    · subst hid
      rcases handleChunk_entry_cases sha256 (Guards.not_dashMap_blocks _) _ with
        ⟨hsame, hskipped⟩ | ⟨s', hbefore, hhash, hrange, ⟨hopen, hkept⟩ | ⟨-, hgone, -⟩⟩
      · have hbefore := hsame.symm.trans hentry
        exact hskip chunks chunk s hbefore (ih s hbefore) fun _ => hskipped s hbefore
      · have hwritten := hkept.symm.trans hentry
        cases hwritten
        exact hwrite chunks chunk s' hbefore (ih s' hbefore) rfl hhash hrange hopen
      · rw [hgone] at hentry
        cases hentry
    · rw [handleChunk_entry_of_ne (Guards.not_dashMap_blocks _) (Ne.symm hid)] at hentry
      exact hskip chunks chunk s hentry (ih s hentry) fun h => absurd h hid

/-- The rule for an accepted transfer that is sent only its own chunks. -/
theorem invariant_handleChunks {P : List FileChunk → ReceivingState → Prop} (m : TransferManager)
    (peer : SocketAddr) (content : List UInt8) (hstart : P [] (m.received peer offer content))
    (hskip : ∀ chunks chunk s, P chunks s →
      (hashChunk sha256 chunk.data = chunk.chunkHash →
        ¬chunkStart chunk.chunkIndex s.chunkSize + chunk.data.length ≤ s.fileMap.length) →
      P (chunks ++ [chunk]) s)
    (hwrite : ∀ chunks chunk s, P chunks s → hashChunk sha256 chunk.data = chunk.chunkHash →
      chunkStart chunk.chunkIndex s.chunkSize + chunk.data.length ≤ s.fileMap.length →
      P (chunks ++ [chunk]) (written s chunk))
    {chunks : List FileChunk} (hids : ∀ chunk ∈ chunks, chunk.transferId = offer.transferId) :
    ∀ s, (handleChunks sha256 .dashMap chunks (Exec.stateAfter
      (handleOffer .dashMap peer offer (some content) m))).activeTransfers offer.transferId =
        some (.receiving s) → P chunks s := by
  intro s hentry
  refine invariant_of_active
    (P := fun chunks s => (∀ chunk ∈ chunks, chunk.transferId = offer.transferId) → P chunks s)
    ?_ ?_ ?_ chunks s hentry hids
  · intro s hfirst _
    have hreceived := (handleOffer_entry m peer offer content).symm.trans hfirst
    cases hreceived
    exact hstart
  · intro chunks chunk s _ hinit hskipped hids
    have hid : chunk.transferId = offer.transferId := hids chunk (by simp)
    exact hskip chunks chunk s (hinit fun c hc => hids c (List.mem_append_left _ hc))
      (hskipped hid)
  · intro chunks chunk s _ hinit _ hhash hrange _ hids
    exact hwrite chunks chunk s (hinit fun c hc => hids c (List.mem_append_left _ hc)) hhash hrange

/-! ## Arbitrary chunks -/

/-- Chunks do not change the length of the map. -/
theorem length_fileMap_handleChunks (m : TransferManager) (peer : SocketAddr)
    (content : List UInt8) {chunks : List FileChunk}
    (hids : ∀ chunk ∈ chunks, chunk.transferId = offer.transferId) :
    ∀ s, (handleChunks sha256 .dashMap chunks (Exec.stateAfter
      (handleOffer .dashMap peer offer (some content) m))).activeTransfers offer.transferId =
        some (.receiving s) → s.fileMap.length = offer.fileSize.toNat := by
  refine invariant_handleChunks (P := fun _ s => s.fileMap.length = offer.fileSize.toNat) m peer
    content (length_setLen content _) ?_ ?_ hids
  · intro chunks chunk s hlen _
    exact hlen
  · intro chunks chunk s hlen _ hrange
    exact (length_overwrite hrange).trans hlen

/-- A complete file has the size of its offer. -/
theorem CompletesWith.length_eq {chunks : List FileChunk} {map : List UInt8}
    (h : CompletesWith sha256 offer chunks map) : map.length = offer.fileSize.toNat := by
  obtain ⟨m, peer, content, init, last, rfl, hids, hcompletes⟩ := h
  have hid : last.transferId = offer.transferId := hids last (by simp)
  obtain ⟨s, hentry, -, hrange, -, rfl⟩ :=
    hcompletes.exists_state (Guards.not_dashMap_blocks _)
  rw [hid] at hentry
  exact (length_overwrite hrange).trans
    (length_fileMap_handleChunks m peer content (fun c hc => hids c (List.mem_append_left _ hc))
      s hentry)

/-- A chunk with the whole content, under index 0. -/
def wholeChunk (sha256 : List UInt8 → Vector UInt8 32) (offer : FileOffer) (content : List UInt8) :
    FileChunk :=
  ⟨offer.transferId, 0, hashChunk sha256 content, content⟩

/-- A chunk with the whole file lies in it. -/
theorem wholeChunk_in_range (sha256 : List UInt8 → Vector UInt8 32) (offer : FileOffer)
    {content : List UInt8} {s : ReceivingState} (hlen : s.fileMap.length = content.length) :
    chunkStart (wholeChunk sha256 offer content).chunkIndex s.chunkSize +
      (wholeChunk sha256 offer content).data.length ≤ s.fileMap.length := by
  have hzero : chunkStart 0 s.chunkSize = 0 := by simp [chunkStart]
  change chunkStart 0 s.chunkSize + content.length ≤ _
  omega

/-- A chunk with the whole file replaces it. -/
theorem written_wholeChunk (sha256 : List UInt8 → Vector UInt8 32) (offer : FileOffer)
    {content : List UInt8} {s : ReceivingState} (hlen : s.fileMap.length = content.length) :
    (written s (wholeChunk sha256 offer content)).fileMap = content := by
  have hzero : chunkStart 0 s.chunkSize = 0 := by simp [chunkStart]
  change overwrite s.fileMap (chunkStart 0 s.chunkSize) content = content
  rw [hzero, overwrite, List.take_zero, Nat.zero_add, List.drop_of_length_le hlen.le,
    List.nil_append, List.append_nil]

/-- How many chunks bring the counter to the total; a total of 0 is reached by wrapping. -/
def chunksToComplete (totalChunks : UInt32) : Nat :=
  if totalChunks = 0 then 2 ^ 32 else totalChunks.toNat

/-- At least one chunk is needed. -/
theorem chunksToComplete_pos (totalChunks : UInt32) : 0 < chunksToComplete totalChunks := by
  rw [chunksToComplete]
  split
  case isTrue => decide
  case isFalse h => exact toNat_pos_of_ne_zero h

/-- The counter meets the number of chunks once. -/
theorem ofNat_eq_iff_of_le {totalChunks : UInt32} {k : Nat} (hpos : 0 < k)
    (hle : k ≤ chunksToComplete totalChunks) :
    UInt32.ofNat k = totalChunks ↔ k = chunksToComplete totalChunks := by
  have hbound := totalChunks.toNat_lt
  rw [← UInt32.toNat_inj, UInt32.toNat_ofNat']
  rw [chunksToComplete] at hle ⊢
  split at hle
  case isTrue hzero =>
    rw [if_pos hzero, hzero, UInt32.toNat_zero]
    omega
  case isFalse hne =>
    rw [if_neg hne, Nat.mod_eq_of_lt (by omega)]

/-- Copies of one chunk with the whole content are counted as if they were all chunks. -/
theorem handleChunks_copies (sha256 : List UInt8 → Vector UInt8 32) (m : TransferManager)
    (peer : SocketAddr) {content : List UInt8} (hlen : content.length = offer.fileSize.toNat)
    {k : Nat} (hk : k < chunksToComplete offer.totalChunks) :
    ∃ s, (handleChunks sha256 .dashMap (List.replicate k (wholeChunk sha256 offer content))
        (Exec.stateAfter (handleOffer .dashMap peer offer (some []) m))).activeTransfers
          offer.transferId = some (.receiving s) ∧
      s.receivedChunks + 1 = UInt32.ofNat (k + 1) ∧ s.totalChunks = offer.totalChunks ∧
      s.fileMap.length = content.length := by
  induction k with
  | zero =>
    exact ⟨_, handleOffer_entry m peer offer [], rfl, rfl, (length_setLen [] _).trans hlen.symm⟩
  | succ k ih =>
    obtain ⟨s, hentry, hcount, htotal, hmap⟩ := ih (by omega)
    have hopen : s.receivedChunks + 1 ≠ s.totalChunks := by
      rw [hcount, htotal, Ne, ofNat_eq_iff_of_le (Nat.succ_pos k) hk.le]
      omega
    have hrange := wholeChunk_in_range sha256 offer hmap
    rw [List.replicate_succ', handleChunks_concat,
      handleChunk_of_stored (Guards.not_dashMap_blocks _) hentry rfl hrange hopen]
    refine ⟨_, Function.update_self _ _ _, ?_, htotal, (length_overwrite hrange).trans hmap⟩
    change s.receivedChunks + 1 + 1 = _
    rw [hcount]
    exact (UInt32.ofNat_add (k + 1) 1).symm

/-- Any content of the offered size can be made to complete the transfer. -/
theorem exists_completesWith (sha256 : List UInt8 → Vector UInt8 32) {content : List UInt8}
    (hlen : content.length = offer.fileSize.toNat) :
    ∃ chunks, CompletesWith sha256 offer chunks content := by
  obtain ⟨k, hk⟩ := Nat.exists_eq_add_one_of_ne_zero (chunksToComplete_pos offer.totalChunks).ne'
  obtain ⟨s, hentry, hcount, htotal, hmap⟩ := handleChunks_copies sha256 (.new ⟨"downloads"⟩)
    ⟨.v4 (Vector.replicate 4 127), 9000⟩ hlen (k := k) (by omega)
  have hlast : s.receivedChunks + 1 = s.totalChunks := by
    rw [hcount, htotal, ofNat_eq_iff_of_le (Nat.succ_pos k) hk.ge, hk]
  have hcompletes := completes_of_last (Guards.not_dashMap_blocks _) hentry rfl
    (wholeChunk_in_range sha256 offer hmap) hlast
  rw [written_wholeChunk sha256 offer hmap] at hcompletes
  refine ⟨_, _, _, _, _, _, rfl, ?_, hcompletes⟩
  intro chunk hchunk
  rw [← List.replicate_succ'] at hchunk
  rw [List.eq_of_mem_replicate hchunk]
  rfl

/-! ## Pieces of the offered file -/

/-- The chunks that pass the hash check. -/
def intactChunks (sha256 : List UInt8 → Vector UInt8 32) (chunks : List FileChunk) :
    List FileChunk :=
  chunks.filter fun chunk => hashChunk sha256 chunk.data = chunk.chunkHash

section

variable {chunks : List FileChunk} {chunk : FileChunk}

/-- An intact chunk is kept. -/
theorem intactChunks_concat_of_eq (h : hashChunk sha256 chunk.data = chunk.chunkHash) :
    intactChunks sha256 (chunks ++ [chunk]) = intactChunks sha256 chunks ++ [chunk] := by
  simp [intactChunks, h]

/-- A chunk with a wrong hash is dropped. -/
theorem intactChunks_concat_of_ne (h : ¬hashChunk sha256 chunk.data = chunk.chunkHash) :
    intactChunks sha256 (chunks ++ [chunk]) = intactChunks sha256 chunks := by
  simp [intactChunks, h]

end

/-- The offer describes `file` without loss, and the chunks that pass the hash check are
pieces of it, no index twice. -/
structure Genuine (sha256 : List UInt8 → Vector UInt8 32) (offer : FileOffer) (file : List UInt8)
    (chunks : List FileChunk) : Prop where
  chunkSize_ne_zero : offer.chunkSize ≠ 0
  size_eq : offer.fileSize.toNat = file.length
  total_eq : offer.totalChunks.toNat = chunkCount file.length offer.chunkSize.toNat
  offsets : OffsetsFit file.length offer.chunkSize.toNat
  root_eq : calculateFileHash sha256 file offer.chunkSize = offer.fileHash
  pieces : ∀ chunk ∈ intactChunks sha256 chunks,
    IsPiece file offer.chunkSize offer.totalChunks chunk
  nodup : ((intactChunks sha256 chunks).map (·.chunkIndex.toNat)).Nodup

namespace Genuine

variable {file : List UInt8} {chunks : List FileChunk} {chunk : FileChunk}

/-- The chunks of a genuine transfer tile its file. -/
theorem layout (h : Genuine sha256 offer file chunks) :
    Layout file offer.chunkSize offer.totalChunks where
  chunkSize_ne_zero := h.chunkSize_ne_zero
  offset_lt := by
    intro i hi
    rw [h.total_eq] at hi
    exact (Nat.mul_le_mul_right _ (by omega)).trans_lt h.offsets.2
  inside := by
    intro i hi
    rw [h.total_eq] at hi
    exact mul_lt_of_lt_chunkCount (toNat_pos_of_ne_zero h.chunkSize_ne_zero) hi

/-- The beginning of a genuine transfer is genuine. -/
theorem of_concat (h : Genuine sha256 offer file (chunks ++ [chunk])) :
    Genuine sha256 offer file chunks where
  chunkSize_ne_zero := h.chunkSize_ne_zero
  size_eq := h.size_eq
  total_eq := h.total_eq
  offsets := h.offsets
  root_eq := h.root_eq
  pieces := fun c hc => h.pieces c (by
    rw [intactChunks, List.filter_append]
    exact List.mem_append_left _ hc)
  nodup := by
    have hnodup := h.nodup
    rw [intactChunks, List.filter_append, List.map_append] at hnodup
    exact (List.nodup_append.mp hnodup).1

/-- A last chunk that passes the check is a piece that was not there before. -/
theorem last (h : Genuine sha256 offer file (chunks ++ [chunk]))
    (hhash : hashChunk sha256 chunk.data = chunk.chunkHash) :
    IsPiece file offer.chunkSize offer.totalChunks chunk ∧
      chunk.chunkIndex.toNat ∉
        ((intactChunks sha256 chunks).map (·.chunkIndex.toNat)).toFinset := by
  refine ⟨h.pieces chunk (by simp [intactChunks_concat_of_eq hhash]), ?_⟩
  have hnodup := h.nodup
  rw [intactChunks_concat_of_eq hhash, List.map_append, List.nodup_append] at hnodup
  intro hmem
  exact hnodup.2.2 _ (List.mem_toFinset.mp hmem) _ (List.mem_singleton_self _) rfl

/-- As long as the transfer is active, it has written every intact chunk. -/
theorem progress (h : Genuine sha256 offer file chunks) (m : TransferManager) (peer : SocketAddr)
    (content : List UInt8) (hids : ∀ chunk ∈ chunks, chunk.transferId = offer.transferId) :
    ∀ s, (handleChunks sha256 .dashMap chunks (Exec.stateAfter
      (handleOffer .dashMap peer offer (some content) m))).activeTransfers offer.transferId =
        some (.receiving s) →
      Progress file offer.chunkSize offer.totalChunks
        ((intactChunks sha256 chunks).map (·.chunkIndex.toNat)).toFinset s := by
  refine fun s hentry => invariant_handleChunks
    (P := fun chunks s => Genuine sha256 offer file chunks → Progress file offer.chunkSize
      offer.totalChunks ((intactChunks sha256 chunks).map (·.chunkIndex.toNat)).toFinset s)
    m peer content ?_ ?_ ?_ hids s hentry h
  · intro hgenuine
    exact progress_received hgenuine.size_eq m peer content
  · intro chunks chunk s hinit hskipped hgenuine
    have hprogress := hinit hgenuine.of_concat
    have hbad : ¬hashChunk sha256 chunk.data = chunk.chunkHash := fun hhash =>
      hskipped hhash (hprogress.in_range hgenuine.layout (hgenuine.last hhash).1)
    rw [intactChunks_concat_of_ne hbad]
    exact hprogress
  · intro chunks chunk s hinit hhash _ hgenuine
    obtain ⟨hpiece, hnew⟩ := hgenuine.last hhash
    have hnext := (hinit hgenuine.of_concat).written hgenuine.layout hpiece hnew
    rwa [intactChunks_concat_of_eq hhash, List.map_append, List.toFinset_append, Finset.union_comm]

/-- The pieces of a file complete its transfer with that file. -/
theorem eq_of_completesWith (h : Genuine sha256 offer file chunks) {map : List UInt8}
    (hcompletes : CompletesWith sha256 offer chunks map) : map = file := by
  obtain ⟨m, peer, content, init, last, rfl, hids, hlast⟩ := hcompletes
  have hid : last.transferId = offer.transferId := hids last (by simp)
  obtain ⟨s, hentry, hhash, -, hcount, rfl⟩ := hlast.exists_state (Guards.not_dashMap_blocks _)
  rw [hid] at hentry
  have hbefore := h.of_concat.progress m peer content
    (fun c hc => hids c (List.mem_append_left _ hc)) s hentry
  obtain ⟨hpiece, hnew⟩ := h.last hhash
  have hafter := hbefore.written h.layout hpiece hnew
  have hcover := le_chunkCount_mul file.length (toNat_pos_of_ne_zero h.chunkSize_ne_zero)
  rw [← h.total_eq] at hcover
  have hholds := hafter.holds
  rw [hafter.eq_range hcount] at hholds
  exact eq_of_holds_range h.chunkSize_ne_zero hholds hcover

end Genuine

/-- An offer can complete only with its root exactly when every content of its size has that
root. In runs whose intact chunks are the pieces of a file that the offer describes,
no index twice, it always does. -/
theorem completes_with_offered_root_iff (sha256 : List UInt8 → Vector UInt8 32)
    (offer : FileOffer) :
    ((∀ chunks map, CompletesWith sha256 offer chunks map →
        calculateFileHash sha256 map offer.chunkSize = offer.fileHash) ↔
      ∀ content, content.length = offer.fileSize.toNat →
        calculateFileHash sha256 content offer.chunkSize = offer.fileHash) ∧
    ∀ file chunks map, Genuine sha256 offer file chunks → CompletesWith sha256 offer chunks map →
      calculateFileHash sha256 map offer.chunkSize = offer.fileHash := by
  refine ⟨⟨?_, ?_⟩, ?_⟩
  · intro hroot content hlen
    obtain ⟨chunks, hcompletes⟩ := exists_completesWith sha256 hlen
    exact hroot chunks content hcompletes
  · intro hall chunks map hcompletes
    exact hall map hcompletes.length_eq
  · intro file chunks map hgenuine hcompletes
    rw [hgenuine.eq_of_completesWith hcompletes]
    exact hgenuine.root_eq

/-- A file of one byte has one chunk. -/
theorem calculateFileHash_singleton (sha256 : List UInt8 → Vector UInt8 32) (b : UInt8) :
    calculateFileHash sha256 [b] 1 = sha256 (sha256 [b]).toList := by
  have hchunks : chunkHashes sha256 1 [b] = (sha256 [b]).toList := by
    rw [chunkHashes, chunkHashes]
    simp [hashChunk]
  rw [calculateFileHash]
  exact congrArg sha256 hchunks

/-- The offer of a file that holds the byte 1. -/
def sampleOffer : FileOffer where
  transferId := ⟨Vector.replicate 16 7⟩
  fileName := "a"
  fileSize := 1
  chunkSize := 1
  totalChunks := 1
  fileHash := calculateFileHash Sha256.digest [1] 1

/-- Any single byte completes the offered transfer. -/
theorem sampleOffer_completesWith (b : UInt8) :
    CompletesWith Sha256.digest sampleOffer [wholeChunk Sha256.digest sampleOffer [b]] [b] := by
  have hentry := handleOffer_entry (.new ⟨"downloads"⟩) ⟨.v4 (Vector.replicate 4 127), 9000⟩
    sampleOffer []
  have hhash : hashChunk Sha256.digest (wholeChunk Sha256.digest sampleOffer [b]).data =
      (wholeChunk Sha256.digest sampleOffer [b]).chunkHash := rfl
  have hcompletes := completes_of_last (Guards.not_dashMap_blocks _) hentry hhash
    (wholeChunk_in_range Sha256.digest sampleOffer rfl) rfl
  exact ⟨_, _, _, [], _, rfl, by simp [wholeChunk], hcompletes⟩

/-- The byte 1 arrives as offered. -/
theorem sampleOffer_completes_with_root :
    Genuine Sha256.digest sampleOffer [1] [wholeChunk Sha256.digest sampleOffer [1]] ∧
      CompletesWith Sha256.digest sampleOffer [wholeChunk Sha256.digest sampleOffer [1]] [1] ∧
      calculateFileHash Sha256.digest [1] sampleOffer.chunkSize = sampleOffer.fileHash := by
  have hgenuine :
      Genuine Sha256.digest sampleOffer [1] [wholeChunk Sha256.digest sampleOffer [1]] :=
    { chunkSize_ne_zero := by decide
      size_eq := rfl
      total_eq := rfl
      offsets := by unfold OffsetsFit; decide
      root_eq := rfl
      pieces := by
        intro chunk hchunk
        rw [List.mem_singleton.mp (List.mem_of_mem_filter hchunk)]
        exact ⟨by decide, rfl⟩
      nodup := (List.nodup_singleton _).sublist (List.filter_sublist.map _) }
  have hcompletes := sampleOffer_completesWith 1
  exact ⟨hgenuine, hcompletes,
    (completes_with_offered_root_iff Sha256.digest sampleOffer).2 _ _ _ hgenuine hcompletes⟩

/-- The byte 2 completes the transfer just as well, with another root. -/
theorem sampleOffer_completes_with_other_root :
    CompletesWith Sha256.digest sampleOffer [wholeChunk Sha256.digest sampleOffer [2]] [2] ∧
      calculateFileHash Sha256.digest [2] sampleOffer.chunkSize ≠ sampleOffer.fileHash := by
  refine ⟨sampleOffer_completesWith 2, ?_⟩
  change calculateFileHash Sha256.digest [2] 1 ≠ calculateFileHash Sha256.digest [1] 1
  rw [calculateFileHash_singleton, calculateFileHash_singleton]
  decide +kernel

end CekyP2P.Transfer
