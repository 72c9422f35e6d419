import CekyP2P.Transfer.Handlers

/-!
# What the pump sends

The pump sends the chunks from the cursor on that the bitmap marks as missing, in order,
one for each credit. Sending clears no bit, so only the cursor keeps a chunk from being
sent again.
-/

namespace CekyP2P.Transfer

open Protocol TransferManager

/-- Every chunk below the total starts inside the mapped file. -/
def SendingState.Fits (s : SendingState) : Prop :=
  ∀ i < s.totalChunks, chunkStart i s.chunkSize ≤ s.fileMap.length

/-- An index below a bound does not overflow. -/
theorem toNat_succ_of_lt {i n : UInt32} (h : i < n) : (i + 1).toNat = i.toNat + 1 := by
  have hlt := UInt32.lt_iff_toNat_lt.mp h
  have := n.toNat_lt
  rw [UInt32.toNat_add, UInt32.toNat_one, Nat.mod_eq_of_lt (by omega)]

/-- The maximum of two numbers. -/
theorem toNat_max (a b : UInt32) : (max a b).toNat = max a.toNat b.toNat := by
  by_cases hle : a ≤ b
  · have hmax : max a b = b := if_pos hle
    rw [hmax, Nat.max_eq_right (UInt32.le_iff_toNat_le.mp hle)]
  · have hmax : max a b = a := if_neg hle
    have hlt := UInt32.lt_iff_toNat_lt.mp (UInt32.not_le.mp hle)
    rw [hmax, Nat.max_eq_left hlt.le]

namespace SendingState

variable (s : SendingState)

/-- The indices from the cursor to the last chunk. -/
def remaining : List UInt32 :=
  (List.range' s.currentChunkIdx.toNat (s.totalChunks.toNat - s.currentChunkIdx.toNat)).map
    UInt32.ofNat

/-- Those of them that are marked as missing. -/
def missing : List UInt32 := s.remaining.filter (bitmapIsMissing s.bitfield)

/-- As many of these as there are credits. -/
def pumped : List UInt32 := s.missing.take s.credits.toNat

/-- Where the cursor stops: at the end if there are credits left, behind the last chunk sent
otherwise. -/
def stopIdx : UInt32 :=
  if s.missing.length < s.credits.toNat then max s.currentChunkIdx s.totalChunks
  else s.pumped.getLast?.elim s.currentChunkIdx (· + 1)

/-- The state after the loop. -/
def afterPump : SendingState :=
  { s with credits := s.credits - UInt32.ofNat s.pumped.length, currentChunkIdx := s.stopIdx }

/-- The bytes of a chunk. -/
def chunkData (i : UInt32) : List UInt8 :=
  (s.fileMap.take (chunkEnd s.fileMap.length i s.chunkSize)).drop (chunkStart i s.chunkSize)

/-- The frame of a chunk. -/
def chunkFrame (sha256 : List UInt8 → Vector UInt8 32) (id : TransferId) (i : UInt32) : Payload :=
  .fileChunk ⟨id, i, hashChunk sha256 (s.chunkData i), s.chunkData i⟩

variable {s}

/-- The chunks from the position on. -/
theorem mem_remaining {i : UInt32} :
    i ∈ s.remaining ↔ s.currentChunkIdx ≤ i ∧ i < s.totalChunks := by
  have hbound := s.totalChunks.toNat_lt
  rw [remaining, List.mem_map, UInt32.le_iff_toNat_le, UInt32.lt_iff_toNat_lt]
  constructor
  · rintro ⟨n, hn, rfl⟩
    obtain ⟨k, hk, rfl⟩ := List.mem_range'.mp hn
    rw [UInt32.toNat_ofNat', Nat.mod_eq_of_lt (by omega)]
    omega
  · rintro ⟨hle, hlt⟩
    exact ⟨i.toNat, List.mem_range'_1.mpr (by omega), UInt32.ofNat_toNat⟩

/-- Nothing remains behind the last chunk. -/
theorem remaining_of_le (h : s.totalChunks ≤ s.currentChunkIdx) : s.remaining = [] := by
  rw [remaining, Nat.sub_eq_zero_of_le (UInt32.le_iff_toNat_le.mp h)]
  rfl

/-- The state in which an iteration leaves the loop. -/
theorem remaining_cons (h : s.currentChunkIdx < s.totalChunks) (credits : UInt32) :
    s.remaining = s.currentChunkIdx ::
      { s with credits := credits, currentChunkIdx := s.currentChunkIdx + 1 }.remaining := by
  have hlt := UInt32.lt_iff_toNat_lt.mp h
  have hsub : s.totalChunks.toNat - s.currentChunkIdx.toNat =
      s.totalChunks.toNat - (s.currentChunkIdx.toNat + 1) + 1 := by omega
  rw [remaining, hsub, List.range'_succ, List.map_cons, UInt32.ofNat_toNat, remaining]
  simp only [toNat_succ_of_lt h]

section

variable (h : s.currentChunkIdx < s.totalChunks)
include h

/-- An index that is not marked is skipped. -/
theorem missing_of_skipped (hmissing : bitmapIsMissing s.bitfield s.currentChunkIdx = false) :
    s.missing = { s with currentChunkIdx := s.currentChunkIdx + 1 }.missing := by
  rw [missing, s.remaining_cons h s.credits, List.filter_cons_of_neg (by simp [hmissing])]
  rfl

/-- A missing chunk is the first of those that are sent. -/
theorem missing_of_sent (hmissing : bitmapIsMissing s.bitfield s.currentChunkIdx = true)
    (credits : UInt32) : s.missing = s.currentChunkIdx ::
      { s with credits := credits, currentChunkIdx := s.currentChunkIdx + 1 }.missing := by
  rw [missing, s.remaining_cons h credits, List.filter_cons_of_pos hmissing]
  rfl

/-- Behind an index below the total, the end is the total. -/
theorem max_succ_eq : max (s.currentChunkIdx + 1) s.totalChunks =
    max s.currentChunkIdx s.totalChunks := by
  have hlt := UInt32.lt_iff_toNat_lt.mp h
  apply UInt32.toNat_inj.mp
  rw [toNat_max, toNat_max, toNat_succ_of_lt h]
  omega

/-- The loop goes on behind a skipped index as if it had started there. -/
theorem afterPump_of_skipped (hcredits : 0 < s.credits)
    (hmissing : bitmapIsMissing s.bitfield s.currentChunkIdx = false) :
    s.pumped = { s with currentChunkIdx := s.currentChunkIdx + 1 }.pumped ∧
      s.afterPump = { s with currentChunkIdx := s.currentChunkIdx + 1 }.afterPump := by
  have hsame := missing_of_skipped h hmissing
  have hpumped : s.pumped = { s with currentChunkIdx := s.currentChunkIdx + 1 }.pumped := by
    rw [pumped, hsame]
    rfl
  have hstop : s.stopIdx = { s with currentChunkIdx := s.currentChunkIdx + 1 }.stopIdx := by
    rw [stopIdx, stopIdx, hsame, hpumped, max_succ_eq h]
    split
    case isTrue => rfl
    case isFalse hshort =>
      rw [← hsame] at hshort
      have hpos := UInt32.lt_iff_toNat_lt.mp hcredits
      have hne : s.pumped ≠ [] := by
        rw [pumped, ← List.length_pos_iff, List.length_take]
        omega
      rw [hpumped] at hne
      rw [List.getLast?_eq_some_getLast hne]
      rfl
  refine ⟨hpumped, ?_⟩
  rw [afterPump, afterPump, hpumped, hstop]

/-- Behind a chunk that was sent it goes on with a credit less. -/
theorem afterPump_of_sent (hcredits : 0 < s.credits)
    (hmissing : bitmapIsMissing s.bitfield s.currentChunkIdx = true) :
    s.pumped = s.currentChunkIdx ::
        { s with credits := s.credits - 1, currentChunkIdx := s.currentChunkIdx + 1 }.pumped ∧
      s.afterPump =
        { s with
          credits := s.credits - 1, currentChunkIdx := s.currentChunkIdx + 1 }.afterPump := by
  have hpos : 0 < s.credits.toNat := UInt32.lt_iff_toNat_lt.mp hcredits
  have hspent : (s.credits - 1).toNat = s.credits.toNat - 1 :=
    UInt32.toNat_sub_of_le _ _ (UInt32.le_iff_toNat_le.mpr hpos)
  have hsucc : s.credits.toNat = (s.credits - 1).toNat + 1 := by omega
  have hcons := missing_of_sent h hmissing (s.credits - 1)
  have hpumped : s.pumped = s.currentChunkIdx ::
      { s with credits := s.credits - 1, currentChunkIdx := s.currentChunkIdx + 1 }.pumped := by
    rw [pumped, hcons, hsucc, List.take_succ_cons]
    rfl
  have hcount : s.credits - UInt32.ofNat s.pumped.length = s.credits - 1 - UInt32.ofNat
      { s with
        credits := s.credits - 1, currentChunkIdx := s.currentChunkIdx + 1 }.pumped.length := by
    rw [hpumped, List.length_cons, UInt32.ofNat_add, UInt32.add_comm]
    exact sub_add_eq_sub_sub _ _ _
  have hstop : s.stopIdx = { s with
      credits := s.credits - 1, currentChunkIdx := s.currentChunkIdx + 1 }.stopIdx := by
    rw [stopIdx, stopIdx, hcons, hpumped, max_succ_eq h, List.length_cons]
    simp only [hsucc, Nat.add_lt_add_iff_right]
    split
    case isTrue => rfl
    case isFalse =>
      rw [List.getLast?_cons]
      cases hlast : List.getLast? _ with
      | none => rfl
      | some i => rfl
  refine ⟨hpumped, ?_⟩
  rw [afterPump, afterPump, hcount, hstop]

end

/-- Without credits or chunks nothing is sent. -/
theorem pumped_of_not_run (h : ¬(0 < s.credits ∧ s.currentChunkIdx < s.totalChunks)) :
    s.pumped = [] ∧ s.afterPump = s := by
  have hsame : s.pumped = [] → s.stopIdx = s.currentChunkIdx → s.pumped = [] ∧ s.afterPump = s := by
    intro hpumped hstop
    refine ⟨hpumped, ?_⟩
    rw [afterPump, hpumped, hstop, List.length_nil]
    exact congrArg (fun c => { s with credits := c }) (sub_zero s.credits)
  rw [Classical.not_and_iff_not_or_not] at h
  rcases h with hcredits | hcursor
  · have hzero : s.credits.toNat = 0 := by
      rw [UInt32.lt_iff_toNat_lt, UInt32.toNat_zero] at hcredits
      omega
    have hpumped : s.pumped = [] := by rw [pumped, hzero, List.take_zero]
    refine hsame hpumped ?_
    rw [stopIdx, hzero, if_neg (Nat.not_lt_zero _), hpumped]
    rfl
  · have hle : s.totalChunks ≤ s.currentChunkIdx := UInt32.not_lt.mp hcursor
    have hmissing : s.missing = [] := by rw [missing, remaining_of_le hle, List.filter_nil]
    have hpumped : s.pumped = [] := by rw [pumped, hmissing, List.take_nil]
    refine hsame hpumped ?_
    have hmax : max s.currentChunkIdx s.totalChunks = s.currentChunkIdx := by
      apply UInt32.toNat_inj.mp
      rw [toNat_max, Nat.max_eq_left (UInt32.le_iff_toNat_le.mp hle)]
    rw [stopIdx, hpumped, hmax]
    split
    · rfl
    · rfl

/-! ## The order of what is sent -/

/-- The chunks remain in order. -/
theorem remaining_pairwise (s : SendingState) : s.remaining.Pairwise (· < ·) := by
  have hbound := s.totalChunks.toNat_lt
  rw [remaining, List.pairwise_map]
  refine List.Pairwise.imp_of_mem ?_ (List.pairwise_lt_range' 1)
  intro a b ha hb hab
  have ha' := List.mem_range'_1.mp ha
  have hb' := List.mem_range'_1.mp hb
  rw [UInt32.lt_iff_toNat_lt, UInt32.toNat_ofNat', UInt32.toNat_ofNat',
    Nat.mod_eq_of_lt (by omega), Nat.mod_eq_of_lt (by omega)]
  exact hab

/-- Chunks are sent in order. -/
theorem pumped_pairwise (s : SendingState) : s.pumped.Pairwise (· < ·) :=
  (s.remaining_pairwise.filter _).sublist (List.take_sublist _ _)

/-- No chunk is sent twice. -/
theorem pumped_nodup (s : SendingState) : s.pumped.Nodup := by
  refine s.pumped_pairwise.imp ?_
  rintro i _ hlt rfl
  exact UInt32.lt_irrefl i hlt

/-- What is sent is missing. -/
theorem mem_pumped {i : UInt32} (hi : i ∈ s.pumped) :
    s.currentChunkIdx ≤ i ∧ i < s.totalChunks ∧ bitmapIsMissing s.bitfield i = true := by
  obtain ⟨hremaining, hmissing⟩ := List.mem_filter.mp (List.mem_of_mem_take hi)
  obtain ⟨hle, hlt⟩ := mem_remaining.mp hremaining
  exact ⟨hle, hlt, hmissing⟩

/-- The cursor stops behind everything that was sent. -/
theorem lt_stopIdx {i : UInt32} (hi : i ∈ s.pumped) : i < s.stopIdx := by
  have hlt := UInt32.lt_iff_toNat_lt.mp (mem_pumped hi).2.1
  rw [stopIdx]
  split
  · rw [UInt32.lt_iff_toNat_lt, toNat_max]
    omega
  · have hne : s.pumped ≠ [] := List.ne_nil_of_mem hi
    have hlast := List.getLast?_eq_some_getLast hne
    generalize s.pumped.getLast hne = last at hlast
    obtain ⟨init, hinit⟩ := List.getLast?_eq_some_iff.mp hlast
    have hmem : last ∈ s.pumped := by simp [hinit]
    have hsucc := toNat_succ_of_lt (mem_pumped hmem).2.1
    rw [hlast, Option.elim_some, UInt32.lt_iff_toNat_lt, hsucc]
    have hpairwise := s.pumped_pairwise
    rw [hinit, List.pairwise_append] at hpairwise
    rw [hinit, List.mem_append, List.mem_singleton] at hi
    rcases hi with hearlier | rfl
    · have := UInt32.lt_iff_toNat_lt.mp (hpairwise.2.2 i hearlier last List.mem_cons_self)
      omega
    · omega

/-- The position does not go back. -/
theorem le_stopIdx (s : SendingState) : s.currentChunkIdx ≤ s.stopIdx := by
  cases hpumped : s.pumped with
  | nil =>
    rw [stopIdx, hpumped]
    split
    · rw [UInt32.le_iff_toNat_le, toNat_max]
      omega
    · exact UInt32.le_refl _
  | cons i rest =>
    have hi : i ∈ s.pumped := by simp [hpumped]
    have hle := UInt32.le_iff_toNat_le.mp (mem_pumped hi).1
    have hlt := UInt32.lt_iff_toNat_lt.mp (lt_stopIdx hi)
    rw [UInt32.le_iff_toNat_le]
    omega

/-! ## Nothing sent yet -/

section

variable (hall : s.missing = s.remaining)
include hall

/-- Where every remaining chunk is marked, the next ones are sent, as many as credits and
chunks allow. -/
theorem pumped_of_all_missing : s.pumped = (List.range' s.currentChunkIdx.toNat
    (min s.credits.toNat (s.totalChunks.toNat - s.currentChunkIdx.toNat))).map UInt32.ofNat := by
  rw [pumped, hall, remaining, ← List.map_take]
  rcases Nat.le_total s.credits.toNat (s.totalChunks.toNat - s.currentChunkIdx.toNat) with h | h
  · rw [List.take_range'_of_length_ge h, Nat.min_eq_left h]
  · rw [List.take_range'_of_length_le h, Nat.min_eq_right h]

/-- If all are missing, chunks are sent as far as the credits go. -/
theorem length_pumped_of_all_missing : s.pumped.length =
    min s.credits.toNat (s.totalChunks.toNat - s.currentChunkIdx.toNat) := by
  rw [pumped_of_all_missing hall, List.length_map, List.length_range']

/-- The cursor moves by the number of chunks sent. -/
theorem toNat_stopIdx_of_all_missing :
    s.stopIdx.toNat = s.currentChunkIdx.toNat + s.pumped.length := by
  have hlength : s.missing.length = s.totalChunks.toNat - s.currentChunkIdx.toNat := by
    rw [hall, remaining, List.length_map, List.length_range']
  have hcount := length_pumped_of_all_missing hall
  rw [stopIdx]
  split
  · rw [toNat_max]
    omega
  · cases hlast : s.pumped.getLast? with
    | none => simp [List.getLast?_eq_none_iff.mp hlast]
    | some last =>
      have hsucc := toNat_succ_of_lt (mem_pumped (List.mem_of_getLast? hlast)).2.1
      have hbound := s.totalChunks.toNat_lt
      rw [pumped_of_all_missing hall, List.getLast?_map, List.getLast?_range'] at hlast
      split at hlast
      · cases hlast
      · cases hlast
        rw [Option.elim_some, hsucc, UInt32.toNat_ofNat', Nat.mod_eq_of_lt (by omega)]
        omega

end

end SendingState

/-- The pump loop, with one iteration for each remaining chunk. -/
theorem pumpLoop_eq (sha256 : List UInt8 → Vector UInt8 32) (id : TransferId) {s : SendingState}
    (hfits : s.Fits) {fuel : Nat}
    (hfuel : s.totalChunks.toNat - s.currentChunkIdx.toNat ≤ fuel) :
    pumpLoop sha256 id fuel s = some (s.afterPump, s.pumped.map (s.chunkFrame sha256 id)) := by
  induction fuel generalizing s with
  | zero =>
    have hrun : ¬(0 < s.credits ∧ s.currentChunkIdx < s.totalChunks) := by
      rw [UInt32.lt_iff_toNat_lt (a := s.currentChunkIdx)]
      omega
    obtain ⟨hpumped, hafter⟩ := SendingState.pumped_of_not_run hrun
    rw [pumpLoop, hpumped, hafter, List.map_nil]
  | succ fuel ih =>
    by_cases hrun : 0 < s.credits ∧ s.currentChunkIdx < s.totalChunks
    · have hlt := UInt32.lt_iff_toNat_lt.mp hrun.2
      have hsucc := toNat_succ_of_lt hrun.2
      have hle : chunkStart s.currentChunkIdx s.chunkSize ≤
          chunkEnd s.fileMap.length s.currentChunkIdx s.chunkSize := by
        have := hfits s.currentChunkIdx hrun.2
        rw [chunkEnd]
        omega
      cases hmissing : bitmapIsMissing s.bitfield s.currentChunkIdx with
      | true =>
        obtain ⟨hpumped, hafter⟩ := SendingState.afterPump_of_sent hrun.2 hrun.1 hmissing
        have hnext : SendingState.Fits { s with
          credits := s.credits - 1, currentChunkIdx := s.currentChunkIdx + 1 } := hfits
        have hloop := ih hnext (by simp only [hsucc]; omega)
        simp only [pumpLoop, hrun, and_self, if_true, pumpStep, hmissing, hle,
          Option.bind_eq_bind, Option.bind_some, hloop]
        rw [hpumped, hafter]
        rfl
      | false =>
        obtain ⟨hpumped, hafter⟩ := SendingState.afterPump_of_skipped hrun.2 hrun.1 hmissing
        have hnext : SendingState.Fits { s with currentChunkIdx := s.currentChunkIdx + 1 } := hfits
        have hloop := ih hnext (by simp only [hsucc]; omega)
        simp only [pumpLoop, hrun, and_self, if_true, pumpStep, hmissing, Bool.false_eq_true,
          if_false, Option.bind_eq_bind, Option.bind_some, hloop]
        rw [hpumped, hafter]
        rfl
    · obtain ⟨hpumped, hafter⟩ := SendingState.pumped_of_not_run hrun
      rw [pumpLoop, if_neg hrun, hpumped, hafter, List.map_nil]

end CekyP2P.Transfer
