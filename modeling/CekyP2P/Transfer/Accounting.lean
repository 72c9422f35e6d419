import CekyP2P.Transfer.Root

/-!
# Accounting of received chunks

A receiving transfer keeps a bitmap of missing chunks and, apart from it, a counter
that decides completion. Every chunk that passes the two checks is counted, whatever its
index, while the bitmap notices only the first chunk under an index below the total.
-/

namespace CekyP2P.Transfer

open Protocol TransferManager

/-! ## The bitmap -/

/-- Marking a chunk changes its own bit and no other, and of the bitmap that is made for an offer
every bit is set. -/
theorem bitmap_marks_one_chunk (n : UInt32) (bitmap : List UInt8)
    (hlength : bitmapLen n ≤ bitmap.length) (i j : UInt32) (hi : i < n) (hj : j < n)
    (missing : Bool) :
    bitmapIsMissing (bitmapSetMissing bitmap i missing) j =
        (if j = i then missing else bitmapIsMissing bitmap j) ∧
      ∀ (g : Guards) (m : TransferManager) (peer : SocketAddr) (offer : FileOffer)
        (content : List UInt8), ¬g.Blocks offer.transferId → offer.totalChunks = n →
        ∃ s : ReceivingState,
          (Exec.stateAfter (handleOffer g peer offer (some content) m)).activeTransfers
            offer.transferId = some (.receiving s) ∧
          s.bitfield = List.replicate (bitmapLen n) 0xff ∧ bitmapIsMissing s.bitfield j = true := by
  constructor
  · split
    case isTrue heq =>
      subst heq
      exact bitmapIsMissing_set_self (div_lt_length_of_lt hlength hi) missing
    case isFalse hne => exact bitmapIsMissing_set_of_ne bitmap hne missing
  · rintro g m peer offer content hg rfl
    refine ⟨m.received peer offer content, ?_, rfl, bitmapIsMissing_allMissing hj⟩
    rw [handleOffer_of_some hg]
    exact Function.update_self _ _ _

/-- A mark in two bytes for three chunks, and an offer of three chunks. -/
theorem bitmap_marks_one_chunk_of_three :
    bitmapIsMissing (bitmapSetMissing [0x02, 0x00] 2 true) 1 = true ∧
      ∃ s : ReceivingState,
        (Exec.stateAfter (handleOffer .plain ⟨.v4 #v[10, 0, 0, 2], 7000⟩
          ⟨⟨Vector.replicate 16 7⟩, "a", 3, 1, 3, Vector.replicate 32 0⟩ (some [])
          (.new ⟨"downloads"⟩))).activeTransfers ⟨Vector.replicate 16 7⟩ = some (.receiving s) ∧
        s.bitfield = [0xff] ∧ bitmapIsMissing s.bitfield 1 = true := by
  have h := bitmap_marks_one_chunk 3 [0x02, 0x00] (by decide) 2 1 (by decide) (by decide) true
  exact ⟨h.1, h.2 .plain _ _ _ _ not_false rfl⟩

/-! ## Cleared bits -/

/-- The indices below the total whose bit in the bitmap has been cleared. -/
def clearedIndices (s : ReceivingState) : Finset Nat :=
  (Finset.range s.totalChunks.toNat).filter fun i =>
    bitmapIsMissing s.bitfield (UInt32.ofNat i) = false

section

variable {s : ReceivingState} {chunk : FileChunk}

/-- The chunks whose bits are cleared. -/
theorem mem_clearedIndices {i : Nat} : i ∈ clearedIndices s ↔
    i < s.totalChunks.toNat ∧ bitmapIsMissing s.bitfield (UInt32.ofNat i) = false := by
  rw [clearedIndices, Finset.mem_filter, Finset.mem_range]

/-- A written chunk clears its own bit. -/
theorem mem_clearedIndices_written {i : Nat} : i ∈ clearedIndices (written s chunk) ↔
    i ∈ clearedIndices s ∨ i < s.totalChunks.toNat ∧ i = chunk.chunkIndex.toNat := by
  have hbound := s.totalChunks.toNat_lt
  rw [mem_clearedIndices, mem_clearedIndices]
  change i < s.totalChunks.toNat ∧
    bitmapIsMissing (bitmapSetMissing s.bitfield chunk.chunkIndex false) (UInt32.ofNat i) =
      false ↔ _
  rw [bitmapIsMissing_set_false]
  have hindex : i < s.totalChunks.toNat → (UInt32.ofNat i = chunk.chunkIndex ↔
      i = chunk.chunkIndex.toNat) := by
    intro hi
    rw [← UInt32.toNat_inj, UInt32.toNat_ofNat', Nat.mod_eq_of_lt (by omega)]
  constructor
  · rintro ⟨hi, hbit⟩
    by_cases heq : UInt32.ofNat i = chunk.chunkIndex
    · exact Or.inr ⟨hi, (hindex hi).mp heq⟩
    · exact Or.inl ⟨hi, by simpa [heq] using hbit⟩
  · rintro (⟨hi, hbit⟩ | ⟨hi, heq⟩)
    · exact ⟨hi, by simp [hbit]⟩
    · exact ⟨hi, by simp [(hindex hi).mpr heq]⟩

/-- A first chunk under an index below the total clears one more bit. -/
theorem card_clearedIndices_written_of_new (hlt : chunk.chunkIndex < s.totalChunks)
    (hnew : chunk.chunkIndex.toNat ∉ clearedIndices s) :
    (clearedIndices (written s chunk)).card = (clearedIndices s).card + 1 := by
  have hlt' := UInt32.lt_iff_toNat_lt.mp hlt
  have hinsert : clearedIndices (written s chunk) =
      insert chunk.chunkIndex.toNat (clearedIndices s) := by
    ext i
    rw [mem_clearedIndices_written, Finset.mem_insert]
    constructor
    · rintro (hold | ⟨-, rfl⟩)
      · exact Or.inr hold
      · exact Or.inl rfl
    · rintro (rfl | hold)
      · exact Or.inr ⟨hlt', rfl⟩
      · exact Or.inl hold
  rw [hinsert, Finset.card_insert_of_notMem hnew]

/-- No more bits are cleared than there are chunks. -/
theorem card_clearedIndices_le (s : ReceivingState) :
    (clearedIndices s).card ≤ s.totalChunks.toNat :=
  (Finset.card_le_card (Finset.filter_subset _ _)).trans_eq (Finset.card_range _)

/-- An exact counter stays exact, and does not wrap, when such a chunk is written. -/
theorem toNat_receivedChunks_written (hcount : s.receivedChunks.toNat = (clearedIndices s).card)
    (hlt : chunk.chunkIndex < s.totalChunks)
    (hnew : chunk.chunkIndex.toNat ∉ clearedIndices s) :
    (written s chunk).receivedChunks.toNat = (clearedIndices (written s chunk)).card := by
  have hcard := card_clearedIndices_written_of_new hlt hnew
  have hle := card_clearedIndices_le (written s chunk)
  have hbound := (written s chunk).totalChunks.toNat_lt
  change (s.receivedChunks + 1).toNat = _
  rw [UInt32.toNat_add, UInt32.toNat_one, hcount, hcard, Nat.mod_eq_of_lt (by omega)]

/-- All chunks are counted exactly if each of them was received. -/
theorem card_eq_iff_forall {cleared : Finset Nat} {total : Nat} {Received : Nat → Prop}
    (h : ∀ i, i ∈ cleared ↔ i < total ∧ Received i) :
    cleared.card = total ↔ ∀ i < total, Received i := by
  have hsub : cleared ⊆ Finset.range total := fun i hi => Finset.mem_range.mpr ((h i).mp hi).1
  constructor
  · intro hcard i hi
    have hall : cleared = Finset.range total :=
      Finset.eq_of_subset_of_card_le hsub (by rw [Finset.card_range, hcard])
    exact ((h i).mp (hall ▸ Finset.mem_range.mpr hi)).2
  · intro hall
    have hrange : cleared = Finset.range total :=
      Finset.Subset.antisymm hsub fun i hi =>
        (h i).mpr ⟨Finset.mem_range.mp hi, hall i (Finset.mem_range.mp hi)⟩
    rw [hrange, Finset.card_range]

/-- Any other chunk clears none. -/
theorem clearedIndices_written_of_old
    (hold : chunk.chunkIndex < s.totalChunks → chunk.chunkIndex.toNat ∈ clearedIndices s) :
    clearedIndices (written s chunk) = clearedIndices s := by
  ext i
  rw [mem_clearedIndices_written]
  refine ⟨?_, Or.inl⟩
  rintro (h | ⟨hi, rfl⟩)
  · exact h
  · exact hold (UInt32.lt_iff_toNat_lt.mpr hi)

end

/-! ## Runs of one transfer -/

variable (sha256 : List UInt8 → Vector UInt8 32)

/-- The chunk belongs to the transfer, carries the hash of its data and ends inside the file:
the checks of `handle_chunk`. -/
structure Accepted (offer : FileOffer) (chunk : FileChunk) : Prop where
  id_eq : chunk.transferId = offer.transferId
  hash_eq : hashChunk sha256 chunk.data = chunk.chunkHash
  in_range : chunkStart chunk.chunkIndex offer.chunkSize + chunk.data.length ≤
    offer.fileSize.toNat

/-- A chunk with this index has been accepted. -/
def IsReceived (offer : FileOffer) (chunks : List FileChunk) (i : Nat) : Prop :=
  ∃ chunk ∈ chunks, Accepted sha256 offer chunk ∧ chunk.chunkIndex.toNat = i

/-- A manager that has accepted an offer and is sent chunks, of this and other transfers. -/
structure Download where
  manager : TransferManager
  peer : SocketAddr
  offer : FileOffer
  content : List UInt8

namespace Download

/-- The manager after some chunks. -/
def after (d : Download) (chunks : List FileChunk) : TransferManager :=
  handleChunks sha256 .dashMap chunks
    (Exec.stateAfter (handleOffer .dashMap d.peer d.offer (some d.content) d.manager))

/-- The transfer is active in this state after the chunks. -/
def ActiveIn (d : Download) (chunks : List FileChunk) (s : ReceivingState) : Prop :=
  (d.after sha256 chunks).activeTransfers d.offer.transferId = some (.receiving s)

/-- The next chunk declares the transfer complete. -/
def DeclaresComplete (d : Download) (chunks : List FileChunk) (chunk : FileChunk) : Prop :=
  ∃ map, Completes sha256 .dashMap chunk (d.after sha256 chunks) map

/-- In every state of the run the counter is the number of cleared bits, and a chunk of the
transfer declares it complete exactly when with it every index is received. -/
structure Accounts (d : Download) (chunks : List FileChunk) : Prop where
  counted : ∀ earlier s, earlier <+: chunks → d.ActiveIn sha256 earlier s →
    s.receivedChunks.toNat = (clearedIndices s).card
  completed : ∀ earlier chunk s, earlier ++ [chunk] <+: chunks →
    chunk.transferId = d.offer.transferId → d.ActiveIn sha256 earlier s →
    (d.DeclaresComplete sha256 earlier chunk ↔
      ∀ i < d.offer.totalChunks.toNat, IsReceived sha256 d.offer (earlier ++ [chunk]) i)

/-- No chunk is sent for an empty transfer, and every accepted chunk is the first one under an
index below the total, as long as the transfer is active. -/
def SendsEachOnce (d : Download) (chunks : List FileChunk) : Prop :=
  ∀ earlier chunk s, earlier ++ [chunk] <+: chunks → chunk.transferId = d.offer.transferId →
    d.ActiveIn sha256 earlier s →
    d.offer.totalChunks ≠ 0 ∧ (Accepted sha256 d.offer chunk →
      chunk.chunkIndex < d.offer.totalChunks ∧
        ¬IsReceived sha256 d.offer earlier chunk.chunkIndex.toNat)

end Download

variable {sha256} {offer : FileOffer} {chunks : List FileChunk} {chunk : FileChunk}

/-- One more chunk is received. -/
theorem isReceived_concat {i : Nat} : IsReceived sha256 offer (chunks ++ [chunk]) i ↔
    IsReceived sha256 offer chunks i ∨
      Accepted sha256 offer chunk ∧ chunk.chunkIndex.toNat = i := by
  simp only [IsReceived, List.mem_append, List.mem_singleton]
  constructor
  · rintro ⟨c, hc | rfl, haccepted⟩
    · exact Or.inl ⟨c, hc, haccepted⟩
    · exact Or.inr haccepted
  · rintro (⟨c, hc, haccepted⟩ | haccepted)
    · exact ⟨c, Or.inl hc, haccepted⟩
    · exact ⟨chunk, Or.inr rfl, haccepted⟩

/-- The state agrees with the offer and its bitmap with the chunks accepted so far. -/
structure Tracks (sha256 : List UInt8 → Vector UInt8 32) (offer : FileOffer)
    (chunks : List FileChunk) (s : ReceivingState) : Prop where
  chunkSize_eq : s.chunkSize = offer.chunkSize
  totalChunks_eq : s.totalChunks = offer.totalChunks
  length_eq : s.fileMap.length = offer.fileSize.toNat
  cleared : ∀ i, i ∈ clearedIndices s ↔
    i < offer.totalChunks.toNat ∧ IsReceived sha256 offer chunks i
  not_full : offer.totalChunks ≠ 0 → s.receivedChunks ≠ s.totalChunks

namespace Tracks

variable {s : ReceivingState}

/-- A chunk is accepted by what the state shows. -/
theorem accepted_iff (h : Tracks sha256 offer chunks s) : Accepted sha256 offer chunk ↔
    chunk.transferId = offer.transferId ∧ hashChunk sha256 chunk.data = chunk.chunkHash ∧
      chunkStart chunk.chunkIndex s.chunkSize + chunk.data.length ≤ s.fileMap.length := by
  rw [h.chunkSize_eq, h.length_eq]
  exact ⟨fun ha => ⟨ha.id_eq, ha.hash_eq, ha.in_range⟩, fun ⟨hid, hhash, hrange⟩ =>
    ⟨hid, hhash, hrange⟩⟩

/-- An offer starts a download without chunks. -/
theorem received (m : TransferManager) (peer : SocketAddr) (content : List UInt8) :
    Tracks sha256 offer [] (m.received peer offer content) where
  chunkSize_eq := rfl
  totalChunks_eq := rfl
  length_eq := length_setLen content _
  cleared := by
    intro i
    have hbound := offer.totalChunks.toNat_lt
    constructor
    · intro hi
      obtain ⟨hlt, hbit⟩ := mem_clearedIndices.mp hi
      change i < offer.totalChunks.toNat at hlt
      have hmissing : bitmapIsMissing (allMissing offer.totalChunks) (UInt32.ofNat i) = true := by
        apply bitmapIsMissing_allMissing
        rw [UInt32.lt_iff_toNat_lt, UInt32.toNat_ofNat', Nat.mod_eq_of_lt (by omega)]
        exact hlt
      exact absurd (hmissing.symm.trans hbit) (by decide)
    · rintro ⟨-, c, hc, -⟩
      cases hc
  not_full := fun hne hzero => hne hzero.symm

/-- A chunk that is not accepted changes nothing. -/
theorem skip (h : Tracks sha256 offer chunks s) (hskip : ¬Accepted sha256 offer chunk) :
    Tracks sha256 offer (chunks ++ [chunk]) s where
  chunkSize_eq := h.chunkSize_eq
  totalChunks_eq := h.totalChunks_eq
  length_eq := h.length_eq
  cleared := by
    intro i
    rw [h.cleared, isReceived_concat]
    simp [hskip]
  not_full := h.not_full

/-- A stored chunk clears its bit. -/
theorem mem_cleared_written (h : Tracks sha256 offer chunks s)
    (haccepted : Accepted sha256 offer chunk) (i : Nat) :
    i ∈ clearedIndices (TransferManager.written s chunk) ↔
      i < offer.totalChunks.toNat ∧ IsReceived sha256 offer (chunks ++ [chunk]) i := by
  rw [mem_clearedIndices_written, h.cleared, isReceived_concat, h.totalChunks_eq]
  constructor
  · rintro (⟨hi, hold⟩ | ⟨hi, rfl⟩)
    · exact ⟨hi, Or.inl hold⟩
    · exact ⟨hi, Or.inr ⟨haccepted, rfl⟩⟩
  · rintro ⟨hi, hold | ⟨-, rfl⟩⟩
    · exact Or.inl ⟨hi, hold⟩
    · exact Or.inr ⟨hi, rfl⟩

/-- A stored chunk that does not complete the download is tracked. -/
theorem written (h : Tracks sha256 offer chunks s) (haccepted : Accepted sha256 offer chunk)
    (hopen : s.receivedChunks + 1 ≠ s.totalChunks) :
    Tracks sha256 offer (chunks ++ [chunk]) (written s chunk) where
  chunkSize_eq := h.chunkSize_eq
  totalChunks_eq := h.totalChunks_eq
  length_eq := (length_overwrite (h.accepted_iff.mp haccepted).2.2).trans h.length_eq
  cleared := h.mem_cleared_written haccepted
  not_full := fun _ => hopen

end Tracks

namespace Download

variable {d : Download} {s : ReceivingState}

/-- The download after one more chunk. -/
theorem after_concat : d.after sha256 (chunks ++ [chunk]) =
    Exec.stateAfter (handleChunk sha256 .dashMap chunk (d.after sha256 chunks)) :=
  handleChunks_concat sha256 _ chunks chunk _

/-- An active download is tracked. -/
theorem tracks (h : d.ActiveIn sha256 chunks s) : Tracks sha256 d.offer chunks s := by
  refine invariant_of_active (P := Tracks sha256 d.offer) ?_ ?_ ?_ chunks s h
  · intro s hfirst
    have hreceived := (handleOffer_entry d.manager d.peer d.offer d.content).symm.trans hfirst
    cases hreceived
    exact .received d.manager d.peer d.content
  · intro chunks chunk s _ hinit hskipped
    refine hinit.skip fun haccepted => ?_
    obtain ⟨hid, hhash, hrange⟩ := hinit.accepted_iff.mp haccepted
    exact hskipped hid hhash hrange
  · intro chunks chunk s _ hinit hid hhash hrange hopen
    exact hinit.written (hinit.accepted_iff.mpr ⟨hid, hhash, hrange⟩) hopen

/-- Completion is declared by an accepted chunk that brings the counter to the total. -/
theorem declaresComplete_iff (h : d.ActiveIn sha256 chunks s)
    (hid : chunk.transferId = d.offer.transferId) :
    d.DeclaresComplete sha256 chunks chunk ↔
      Accepted sha256 d.offer chunk ∧ s.receivedChunks + 1 = s.totalChunks := by
  have htracks := d.tracks h
  rw [htracks.accepted_iff]
  rw [ActiveIn, ← hid] at h
  constructor
  · rintro ⟨map, hcompletes⟩
    obtain ⟨s', hentry, hhash, hrange, hlast, -⟩ :=
      hcompletes.exists_state (Guards.not_dashMap_blocks _)
    have hsame := h.symm.trans hentry
    cases hsame
    exact ⟨⟨hid, hhash, hrange⟩, hlast⟩
  · rintro ⟨⟨-, hhash, hrange⟩, hlast⟩
    exact ⟨_, completes_of_last (Guards.not_dashMap_blocks _) h hhash hrange hlast⟩

/-- An accepted chunk short of the total leaves the transfer active. -/
theorem activeIn_concat (h : d.ActiveIn sha256 chunks s)
    (haccepted : Accepted sha256 d.offer chunk) (hopen : s.receivedChunks + 1 ≠ s.totalChunks) :
    d.ActiveIn sha256 (chunks ++ [chunk]) (written s chunk) := by
  obtain ⟨hid, hhash, hrange⟩ := (d.tracks h).accepted_iff.mp haccepted
  rw [ActiveIn, ← hid] at h
  rw [ActiveIn, after_concat, ← hid,
    handleChunk_of_stored (Guards.not_dashMap_blocks _) h hhash hrange hopen]
  exact Function.update_self _ _ _

/-- The counter is exact as long as every accepted chunk is new. -/
theorem SendsEachOnce.counted (honce : d.SendsEachOnce sha256 chunks)
    (h : d.ActiveIn sha256 chunks s) : s.receivedChunks.toNat = (clearedIndices s).card := by
  refine invariant_of_active (P := fun chunks s => d.SendsEachOnce sha256 chunks →
    s.receivedChunks.toNat = (clearedIndices s).card) ?_ ?_ ?_ chunks s h honce
  · intro s hfirst _
    have hreceived := (handleOffer_entry d.manager d.peer d.offer d.content).symm.trans hfirst
    cases hreceived
    symm
    apply Finset.card_eq_zero.mpr
    apply Finset.eq_empty_of_forall_notMem
    intro i hi
    have htracks : Tracks sha256 d.offer [] (d.manager.received d.peer d.offer d.content) :=
      .received d.manager d.peer d.content
    obtain ⟨-, c, hc, -⟩ := (htracks.cleared i).mp hi
    cases hc
  · intro chunks chunk s _ hinit _ honce
    exact hinit fun earlier c s' hle => honce earlier c s' (hle.trans (List.prefix_append _ _))
  · intro chunks chunk s hactive hinit hid hhash hrange hopen honce
    have htracks := d.tracks hactive
    have hbefore := hinit fun earlier c s' hle =>
      honce earlier c s' (hle.trans (List.prefix_append _ _))
    obtain ⟨-, hnew⟩ := honce chunks chunk s List.prefix_rfl hid hactive
    obtain ⟨hlt, hfirst⟩ := hnew (htracks.accepted_iff.mpr ⟨hid, hhash, hrange⟩)
    exact toNat_receivedChunks_written hbefore (htracks.totalChunks_eq ▸ hlt)
      fun hmem => hfirst ((htracks.cleared _).mp hmem).2

/-- What holds for a download holds for its beginning. -/
theorem SendsEachOnce.mono (honce : d.SendsEachOnce sha256 chunks) {earlier : List FileChunk}
    (hle : earlier <+: chunks) : d.SendsEachOnce sha256 earlier :=
  fun earlier' c s h => honce earlier' c s (h.trans hle)

/-- With exact counts, completion is declared when the last index arrives. -/
theorem SendsEachOnce.completed (honce : d.SendsEachOnce sha256 (chunks ++ [chunk]))
    (hid : chunk.transferId = d.offer.transferId) (h : d.ActiveIn sha256 chunks s) :
    d.DeclaresComplete sha256 chunks chunk ↔
      ∀ i < d.offer.totalChunks.toNat, IsReceived sha256 d.offer (chunks ++ [chunk]) i := by
  have htracks := d.tracks h
  have hcount := (honce.mono (List.prefix_append _ _)).counted h
  obtain ⟨hne, hnew⟩ := honce chunks chunk s List.prefix_rfl hid h
  rw [declaresComplete_iff h hid]
  by_cases haccepted : Accepted sha256 d.offer chunk
  · obtain ⟨hlt, hfirst⟩ := hnew haccepted
    have hafter := toNat_receivedChunks_written hcount (htracks.totalChunks_eq ▸ hlt)
      fun hmem => hfirst ((htracks.cleared _).mp hmem).2
    rw [← card_eq_iff_forall (htracks.mem_cleared_written haccepted), ← hafter,
      ← htracks.totalChunks_eq, UInt32.toNat_inj]
    exact and_iff_right haccepted
  · refine ⟨fun hlast => absurd hlast.1 haccepted, fun hall => ?_⟩
    have hfull := (card_eq_iff_forall htracks.cleared).mpr fun i hi =>
      (isReceived_concat.mp (hall i hi)).resolve_right fun hnow => haccepted hnow.1
    refine absurd ?_ (htracks.not_full hne)
    rw [← UInt32.toNat_inj, hcount, hfull, htracks.totalChunks_eq]

/-- An exact account shows that an accepted chunk is new. -/
theorem Accounts.new (haccounts : d.Accounts sha256 (chunks ++ [chunk]))
    (h : d.ActiveIn sha256 chunks s) (haccepted : Accepted sha256 d.offer chunk) :
    chunk.chunkIndex < d.offer.totalChunks ∧
      ¬IsReceived sha256 d.offer chunks chunk.chunkIndex.toNat := by
  have htracks := d.tracks h
  have hcount := haccounts.counted chunks s (List.prefix_append _ _) h
  by_contra hnot
  have hsame : clearedIndices (written s chunk) = clearedIndices s := by
    refine clearedIndices_written_of_old fun hlt => ?_
    rw [htracks.totalChunks_eq] at hlt
    have hreceived := not_not.mp fun hno => hnot ⟨hlt, hno⟩
    exact (htracks.cleared _).mpr ⟨UInt32.lt_iff_toNat_lt.mp hlt, hreceived⟩
  have hstep : s.receivedChunks + 1 ≠ s.receivedChunks := by simp
  by_cases hlast : s.receivedChunks + 1 = s.totalChunks
  · have hall := (haccounts.completed chunks chunk s List.prefix_rfl haccepted.id_eq h).mp
      ((declaresComplete_iff h haccepted.id_eq).mpr ⟨haccepted, hlast⟩)
    have hfull := (card_eq_iff_forall (htracks.mem_cleared_written haccepted)).mpr hall
    rw [hsame, ← hcount, ← htracks.totalChunks_eq, UInt32.toNat_inj] at hfull
    exact hstep (hlast.trans hfull.symm)
  · have hafter := haccounts.counted _ _ List.prefix_rfl (activeIn_concat h haccepted hlast)
    rw [hsame, ← hcount, UInt32.toNat_inj] at hafter
    exact hstep hafter

/-- Nothing arrives for an empty transfer whose account is exact. -/
theorem Accounts.totalChunks_ne_zero (haccounts : d.Accounts sha256 (chunks ++ [chunk]))
    (h : d.ActiveIn sha256 chunks s) (hid : chunk.transferId = d.offer.transferId) :
    d.offer.totalChunks ≠ 0 := by
  intro hzero
  have htracks := d.tracks h
  have hdeclared := (haccounts.completed chunks chunk s List.prefix_rfl hid h).mpr
    (by simp [hzero])
  obtain ⟨haccepted, -⟩ := (declaresComplete_iff h hid).mp hdeclared
  obtain ⟨hlt, -⟩ := haccounts.new h haccepted
  rw [hzero, UInt32.lt_iff_toNat_lt] at hlt
  exact Nat.not_lt_zero _ hlt

end Download

/-- A download is accounted for exactly in the runs in which each accepted chunk is new and
below the total. -/
theorem accounts_iff (sha256 : List UInt8 → Vector UInt8 32) (d : Download)
    (chunks : List FileChunk) : d.Accounts sha256 chunks ↔ d.SendsEachOnce sha256 chunks := by
  constructor
  · intro haccounts earlier chunk s hle hid hactive
    have hearlier : d.Accounts sha256 (earlier ++ [chunk]) :=
      ⟨fun e s h => haccounts.counted e s (h.trans hle),
        fun e c s h => haccounts.completed e c s (h.trans hle)⟩
    exact ⟨hearlier.totalChunks_ne_zero hactive hid, hearlier.new hactive⟩
  · intro honce
    exact ⟨fun earlier s hle hactive => (honce.mono hle).counted hactive,
      fun earlier chunk s hle hid hactive => (honce.mono hle).completed hid hactive⟩

/-- A download of two chunks of one byte. -/
def sampleDownload : Download where
  manager := .new ⟨"downloads"⟩
  peer := ⟨.v4 (Vector.replicate 4 127), 9000⟩
  offer := ⟨⟨Vector.replicate 16 7⟩, "a", 2, 1, 2, Vector.replicate 32 0⟩
  content := []

/-- Its first chunk. -/
def sampleChunk : FileChunk :=
  ⟨⟨Vector.replicate 16 7⟩, 0, hashChunk Sha256.digest [1], [1]⟩

/-- The first chunk sent twice completes the download, and the second never arrives. -/
theorem sampleChunk_twice_completes :
    sampleDownload.DeclaresComplete Sha256.digest [sampleChunk] sampleChunk ∧
      ¬IsReceived Sha256.digest sampleDownload.offer [sampleChunk, sampleChunk] 1 ∧
      ¬sampleDownload.Accounts Sha256.digest [sampleChunk, sampleChunk] := by
  have haccepted : Accepted Sha256.digest sampleDownload.offer sampleChunk :=
    ⟨rfl, rfl, by decide⟩
  have hstart : sampleDownload.ActiveIn Sha256.digest [] (sampleDownload.manager.received
      sampleDownload.peer sampleDownload.offer sampleDownload.content) :=
    handleOffer_entry _ _ _ _
  have hactive := Download.activeIn_concat hstart haccepted (by decide)
  have hdeclared : sampleDownload.DeclaresComplete Sha256.digest [sampleChunk] sampleChunk :=
    (Download.declaresComplete_iff hactive rfl).mpr ⟨haccepted, rfl⟩
  have hmissing : ¬IsReceived Sha256.digest sampleDownload.offer [sampleChunk, sampleChunk] 1 := by
    rintro ⟨chunk, hchunk, -, hindex⟩
    have hsample : chunk = sampleChunk := by simpa using hchunk
    rw [hsample] at hindex
    exact absurd hindex (by decide)
  refine ⟨hdeclared, hmissing, fun haccounts => hmissing ?_⟩
  exact (haccounts.completed [sampleChunk] sampleChunk _ List.prefix_rfl rfl hactive).mp hdeclared
    1 (by decide)

end CekyP2P.Transfer
