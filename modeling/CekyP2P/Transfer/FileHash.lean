import CekyP2P.Core.Blocks
import CekyP2P.Core.Rounds
import CekyP2P.Core.Sha256
import CekyP2P.Transfer.State
import CekyP2P.Transfer.Tiling

/-!
# The file hash as it is read

`calculate_file_hash` fills one buffer again and again from a file whose reads may be short or
interrupted, and hashes what has arrived. The bytes of a chunk may come in many pieces, and the
buffer still holds the previous chunk behind them. Whatever the pieces, the result is the root of
the content.
-/

namespace CekyP2P.Transfer.Merkle

/-- How a call of `read` goes. -/
inductive ReadEvent
  | interrupted
  | failed
  /-- No more than `n + 1` bytes are delivered, and none only at the end of the file. -/
  | upTo (n : Nat)
  deriving DecidableEq

/-- Errors of reading. -/
inductive IoError
  | interrupted
  | other
  deriving DecidableEq

/-- An open file: the bytes from its position on, and the number of calls of `read` so far. -/
structure OpenFile where
  rest : List UInt8
  reads : Nat
  deriving DecidableEq

/-- `file.read` into a buffer with some room. -/
def OpenFile.read (schedule : Nat → ReadEvent) (room : Nat) (file : OpenFile) :
    Except IoError (List UInt8) × OpenFile :=
  match schedule file.reads with
  | .interrupted => (.error .interrupted, ⟨file.rest, file.reads + 1⟩)
  | .failed => (.error .other, ⟨file.rest, file.reads + 1⟩)
  | .upTo n =>
    let bytes := file.rest.take (min (n + 1) room)
    (.ok bytes, ⟨file.rest.drop bytes.length, file.reads + 1⟩)

/-- Computations that read a file. -/
abbrev FileM (α : Type) := Exec IoError OpenFile α

variable (sha256 : List UInt8 → Vector UInt8 32) (schedule : Nat → ReadEvent) (chunkSize : Nat)

/-- The inner loop, which fills the buffer up. -/
def fill : Nat → List UInt8 → Nat → FileM (List UInt8 × Nat)
  | 0, _, _ => throw .blocked
  | rounds + 1, buffer, readBytes =>
    if readBytes < chunkSize then do
      let window ← Exec.slice buffer readBytes buffer.length
      match ← modifyGet (OpenFile.read schedule window.length) with
      | .ok bytes =>
        if bytes.length = 0 then pure (buffer, readBytes)
        else fill rounds (overwrite buffer readBytes bytes) (readBytes + bytes.length)
      | .error .interrupted => fill rounds buffer readBytes
      | .error .other => throw (.error .other)
    else pure (buffer, readBytes)

/-- The outer loop; what the root hasher was fed so far is carried along. -/
def hashChunks : Nat → List UInt8 → List UInt8 → FileM (List UInt8)
  | 0, _, _ => throw .blocked
  | rounds + 1, buffer, hashed => do
    let (buffer, readBytes) ← fill schedule chunkSize rounds buffer 0
    if readBytes = 0 then pure hashed
    else do
      let data ← Exec.slice buffer 0 readBytes
      hashChunks rounds buffer (hashed ++ (hashChunk sha256 data).toList)

/-- `calculate_file_hash` on a file that could be opened. -/
def calculateFileHash (chunkSize : UInt32) (rounds : Nat) : FileM (Vector UInt8 32) := do
  let hashed ← hashChunks sha256 schedule chunkSize.toNat rounds
    (List.replicate chunkSize.toNat 0) []
  pure (sha256 hashed)

/-- Reads may be short or interrupted, but none fails and some call is not interrupted. -/
structure Delivers (schedule : Nat → ReadEvent) : Prop where
  not_failed : ∀ n, schedule n ≠ .failed
  goes_on : ∀ n, ∃ d, schedule (n + d) ≠ .interrupted

/-! ## The inner loop -/

section

variable {schedule} {chunkSize} {buffer : List UInt8} {readBytes : Nat} {file : OpenFile}

/-- A full buffer is returned. -/
theorem fill_of_full (hfull : ¬readBytes < chunkSize) (rounds : Nat) :
    fill schedule chunkSize (rounds + 1) buffer readBytes file = .ok (buffer, readBytes) file := by
  rw [fill, if_neg hfull]
  rfl

section

variable (hroom : readBytes < chunkSize) (hbuffer : buffer.length = chunkSize)
include hroom hbuffer

/-- A round in which bytes arrive or the end of the file is seen. -/
theorem fill_of_bytes {bytes : List UInt8} {next : OpenFile}
    (hread : file.read schedule (chunkSize - readBytes) = (.ok bytes, next)) (rounds : Nat) :
    fill schedule chunkSize (rounds + 1) buffer readBytes file =
      if bytes.length = 0 then .ok (buffer, readBytes) next
      else fill schedule chunkSize rounds (overwrite buffer readBytes bytes)
        (readBytes + bytes.length) next := by
  rw [fill, if_pos hroom, Exec.slice_eq_pure (by omega) (Nat.le_refl _), pure_bind,
    List.take_length, List.length_drop, hbuffer, Exec.modifyGet_bind_apply hread]
  simp only
  split
  · rfl
  · rfl

/-- A read that is interrupted is tried again. -/
theorem fill_of_interrupted {next : OpenFile}
    (hread : file.read schedule (chunkSize - readBytes) = (.error .interrupted, next))
    (rounds : Nat) :
    fill schedule chunkSize (rounds + 1) buffer readBytes file =
      fill schedule chunkSize rounds buffer readBytes next := by
  rw [fill, if_pos hroom, Exec.slice_eq_pure (by omega) (Nat.le_refl _), pure_bind,
    List.take_length, List.length_drop, hbuffer, Exec.modifyGet_bind_apply hread]

end

/-- What the inner loop leaves: behind what the buffer held there are the next bytes of the file,
up to the size of a chunk. -/
structure Filled (chunkSize : Nat) (buffer : List UInt8) (readBytes : Nat) (file : OpenFile)
    (buffer' : List UInt8) (readBytes' : Nat) (file' : OpenFile) : Prop where
  length_eq : buffer'.length = chunkSize
  bytes : buffer'.take readBytes' = buffer.take readBytes ++ file.rest.take (chunkSize - readBytes)
  count : readBytes' = readBytes + min (chunkSize - readBytes) file.rest.length
  rest : file'.rest = file.rest.drop (chunkSize - readBytes)

/-- Where nothing more is to be read. -/
theorem filled_self (hbuffer : buffer.length = chunkSize)
    (hnothing : chunkSize - readBytes = 0 ∨ file.rest = []) {next : OpenFile}
    (hrest : next.rest = file.rest) :
    Filled chunkSize buffer readBytes file buffer readBytes next := by
  rcases hnothing with hzero | hempty
  · exact ⟨hbuffer, by simp [hzero], by simp [hzero], by simp [hzero, hrest]⟩
  · exact ⟨hbuffer, by simp [hempty], by simp [hempty], by simp [hempty, hrest]⟩

/-- A piece that arrives first belongs to what is read in all. -/
theorem Filled.of_piece {buffer' : List UInt8} {readBytes' reads n : Nat} {file' : OpenFile}
    (hle : readBytes ≤ buffer.length)
    (hpiece : n ≤ chunkSize - readBytes) (hn : n ≤ file.rest.length)
    (h : Filled chunkSize (overwrite buffer readBytes (file.rest.take n)) (readBytes + n)
      ⟨file.rest.drop n, reads⟩ buffer' readBytes' file') :
    Filled chunkSize buffer readBytes file buffer' readBytes' file' := by
  have hlength : (file.rest.take n).length = n := List.length_take_of_le hn
  have hsplit : chunkSize - readBytes = n + (chunkSize - (readBytes + n)) := by omega
  have htake : (overwrite buffer readBytes (file.rest.take n)).take
      (readBytes + (file.rest.take n).length) = buffer.take readBytes ++ file.rest.take n :=
    take_overwrite hle
  rw [hlength] at htake
  refine ⟨h.length_eq, ?_, ?_, ?_⟩
  · rw [h.bytes, htake, hsplit, List.take_add, List.append_assoc]
  · rw [h.count, List.length_drop]
    omega
  · rw [h.rest, List.drop_drop, hsplit]

/-- The inner loop ends with the buffer filled. -/
def FillsUp (schedule : Nat → ReadEvent) (chunkSize : Nat) (buffer : List UInt8) (readBytes : Nat)
    (file : OpenFile) : Prop :=
  ∃ buffer' readBytes' file',
    Settles (fun rounds => fill schedule chunkSize rounds buffer readBytes file)
      (.ok (buffer', readBytes') file') ∧
    Filled chunkSize buffer readBytes file buffer' readBytes' file'

/-- A call that delivers leaves less room in the buffer, or it is at the end of the file. -/
theorem fillsUp_of_upTo {n : Nat} (hmore : readBytes < chunkSize)
    (hbuffer : buffer.length = chunkSize) (hevent : schedule file.reads = .upTo n)
    (ih : ∀ buffer more file, readBytes < more → more ≤ chunkSize →
      buffer.length = chunkSize → FillsUp schedule chunkSize buffer more file) :
    FillsUp schedule chunkSize buffer readBytes file := by
  have hlength : (file.rest.take (min (n + 1) (chunkSize - readBytes))).length =
      min (min (n + 1) (chunkSize - readBytes)) file.rest.length := List.length_take
  have hread : file.read schedule (chunkSize - readBytes) =
      (.ok (file.rest.take (min (n + 1) (chunkSize - readBytes))),
        ⟨file.rest.drop (file.rest.take (min (n + 1) (chunkSize - readBytes))).length,
          file.reads + 1⟩) := by
    rw [OpenFile.read, hevent]
  by_cases hend : file.rest = []
  · refine ⟨buffer, readBytes, ⟨[], file.reads + 1⟩, ?_,
      filled_self hbuffer (Or.inr hend) hend.symm⟩
    refine .of_succ (fun rounds => (fill_of_bytes hmore hbuffer hread rounds).trans ?_) (.const _)
    rw [hend, List.take_nil, List.length_nil, if_pos rfl, List.drop_zero]
  · have hpos := List.length_pos_iff.mpr hend
    generalize hcount : min (min (n + 1) (chunkSize - readBytes)) file.rest.length = count
      at hlength
    have hpiece : file.rest.take (min (n + 1) (chunkSize - readBytes)) = file.rest.take count := by
      rw [← hcount, ← List.take_eq_take_min]
    rw [hlength, hpiece] at hread
    have htaken : (file.rest.take count).length = count := by rw [← hpiece, hlength]
    have hwritten : (overwrite buffer readBytes (file.rest.take count)).length = chunkSize := by
      rw [length_overwrite (by omega), hbuffer]
    obtain ⟨buffer', readBytes', file', hsettles, hfilled⟩ :=
      ih _ (readBytes + count) ⟨file.rest.drop count, file.reads + 1⟩ (by omega) (by omega)
        hwritten
    refine ⟨buffer', readBytes', file', ?_, hfilled.of_piece (by omega) (by omega) (by omega)⟩
    refine .of_succ (fun rounds => (fill_of_bytes hmore hbuffer hread rounds).trans ?_) hsettles
    rw [htaken, if_neg (by omega)]

/-- The inner loop ends, however the reads are split. -/
theorem fillsUp (hs : Delivers schedule) (hle : readBytes ≤ chunkSize)
    (hbuffer : buffer.length = chunkSize) : FillsUp schedule chunkSize buffer readBytes file := by
  induction hroom : chunkSize - readBytes using Nat.strong_induction_on
    generalizing buffer readBytes file with
  | _ room ih =>
    by_cases hmore : readBytes < chunkSize
    case neg =>
      exact ⟨buffer, readBytes, file, .of_succ (fill_of_full hmore) (.const _),
        filled_self hbuffer (Or.inl (by omega)) rfl⟩
    have hdelivered : ∀ file : OpenFile, schedule file.reads ≠ .interrupted →
        FillsUp schedule chunkSize buffer readBytes file := by
      intro file hevent
      cases hkind : schedule file.reads with
      | interrupted => exact absurd hkind hevent
      | failed => exact absurd hkind (hs.not_failed _)
      | upTo n =>
        refine fillsUp_of_upTo hmore hbuffer hkind fun _ more _ hlt hmax hlength => ?_
        exact ih (chunkSize - more) (by omega) hmax hlength rfl
    obtain ⟨d, hd⟩ := hs.goes_on file.reads
    induction d generalizing file with
    | zero => exact hdelivered file hd
    | succ d ihd =>
      by_cases hevent : schedule file.reads = .interrupted
      · have hread : file.read schedule (chunkSize - readBytes) =
            (.error .interrupted, ⟨file.rest, file.reads + 1⟩) := by
          rw [OpenFile.read, hevent]
        obtain ⟨buffer', readBytes', file', hsettles, hfilled⟩ :=
          @ihd ⟨file.rest, file.reads + 1⟩ (by rwa [Nat.add_assoc, Nat.add_comm 1 d])
        exact ⟨buffer', readBytes', file',
          .of_succ (fill_of_interrupted hmore hbuffer hread) hsettles,
          hfilled.length_eq, hfilled.bytes, hfilled.count, hfilled.rest⟩
      · exact hdelivered file hevent

/-! ## The outer loop -/

/-- A file without bytes has no hashes. -/
theorem chunkHashes_nil (chunkSize : Nat) : chunkHashes sha256 chunkSize [] = [] := by
  rw [chunkHashes]
  simp

/-- The hash of the first chunk comes first. -/
theorem chunkHashes_of_ne_nil (hpos : 0 < chunkSize) {rest : List UInt8} (hne : rest ≠ []) :
    chunkHashes sha256 chunkSize rest =
      (hashChunk sha256 (rest.take chunkSize)).toList ++
        chunkHashes sha256 chunkSize (rest.drop chunkSize) := by
  have hlen := List.length_pos_iff.mpr hne
  rw [chunkHashes, dif_neg (by rw [List.length_take]; omega)]

variable (schedule chunkSize buffer) in
/-- One round of the loop. -/
theorem hashChunks_succ (hashed : List UInt8) (rounds : Nat) :
    hashChunks sha256 schedule chunkSize (rounds + 1) buffer hashed =
      fill schedule chunkSize rounds buffer 0 >>= fun filled =>
        if filled.2 = 0 then pure hashed
        else Exec.slice filled.1 0 filled.2 >>= fun data =>
          hashChunks sha256 schedule chunkSize rounds filled.1
            (hashed ++ (hashChunk sha256 data).toList) := by
  rw [hashChunks]

/-- The outer loop feeds the hashes of the chunks that are left. -/
theorem hashChunks_settles (hs : Delivers schedule) (hpos : 0 < chunkSize)
    (hbuffer : buffer.length = chunkSize) (hashed : List UInt8) : ∃ file',
      Settles (fun rounds => hashChunks sha256 schedule chunkSize rounds buffer hashed file)
        (.ok (hashed ++ chunkHashes sha256 chunkSize file.rest) file') := by
  induction hlen : file.rest.length using Nat.strong_induction_on
    generalizing buffer hashed file with
  | _ len ih =>
    have hfills : FillsUp schedule chunkSize buffer 0 file := fillsUp hs (Nat.zero_le _) hbuffer
    obtain ⟨buffer', readBytes', next, hfill, hfilled⟩ := hfills
    have hcount : readBytes' = min chunkSize file.rest.length := by
      rw [hfilled.count, Nat.zero_add, Nat.sub_zero]
    have hround := fun rounds =>
      congrFun (hashChunks_succ sha256 schedule chunkSize buffer hashed rounds) file
    by_cases hend : file.rest = []
    · refine ⟨next, .of_succ hround (hfill.bind ?_)⟩
      have hzero : readBytes' = 0 := by rw [hcount, hend, List.length_nil, Nat.min_zero]
      simp only [if_pos hzero, hend]
      rw [chunkHashes_nil, List.append_nil]
      exact .const _
    · have hlenpos := List.length_pos_iff.mpr hend
      have hdata : (buffer'.take readBytes').drop 0 = file.rest.take chunkSize := by
        rw [List.drop_zero, hfilled.bytes, List.take_zero, List.nil_append, Nat.sub_zero]
      have hrest : next.rest = file.rest.drop chunkSize := hfilled.rest
      obtain ⟨file', hsettles⟩ := ih next.rest.length (by rw [hrest, List.length_drop]; omega)
        hfilled.length_eq (hashed ++ (hashChunk sha256 (file.rest.take chunkSize)).toList) rfl
      refine ⟨file', .of_succ hround (hfill.bind ?_)⟩
      have hslice : (Exec.slice buffer' 0 readBytes' : FileM (List UInt8)) =
          pure (file.rest.take chunkSize) := by
        rw [Exec.slice_eq_pure (Nat.zero_le _) (by rw [hfilled.length_eq]; omega), hdata]
      simp only [if_neg (show ¬readBytes' = 0 by omega), hslice, pure_bind]
      rw [chunkHashes_of_ne_nil sha256 hpos hend, ← List.append_assoc, ← hrest]
      exact hsettles

end

/-! ## The root of the content -/

/-- An empty file has no chunks. -/
theorem chunkCount_zero (chunkSize : Nat) : chunkCount 0 chunkSize = 0 := by
  rw [chunkCount, Nat.zero_add]
  rcases Nat.eq_zero_or_pos chunkSize with rfl | hpos
  · rfl
  · exact Nat.div_eq_of_lt (by omega)

/-- One chunk more than behind the first one. -/
theorem chunkCount_of_pos {len chunkSize : Nat} (hpos : 0 < chunkSize) (hlen : 0 < len) :
    chunkCount len chunkSize = chunkCount (len - chunkSize) chunkSize + 1 := by
  rw [chunkCount, chunkCount]
  rcases Nat.le_total len chunkSize with hle | hge
  · rw [Nat.sub_eq_zero_of_le hle, Nat.zero_add, Nat.div_eq_of_lt (a := chunkSize - 1) (by omega)]
    exact Nat.div_eq_of_lt_le (by omega) (by omega)
  · have hsum : len + (chunkSize - 1) = len - chunkSize + (chunkSize - 1) + chunkSize := by omega
    rw [hsum, Nat.add_div_right _ hpos]

/-- The hashes that are fed, chunk by chunk. -/
theorem chunkHashes_eq {chunkSize : Nat} (hpos : 0 < chunkSize) (content : List UInt8) :
    chunkHashes sha256 chunkSize content =
      (List.range (chunkCount content.length chunkSize)).flatMap fun i =>
        (hashChunk sha256 (block content chunkSize i)).toList := by
  induction hlen : content.length using Nat.strong_induction_on generalizing content with
  | _ len ih =>
    by_cases hempty : content = []
    · rw [hempty, chunkHashes_nil, ← hlen, hempty, List.length_nil, chunkCount_zero]
      rfl
    · have hlenpos := List.length_pos_iff.mpr hempty
      have hfirst : block content chunkSize 0 = content.take chunkSize := by
        rw [block, Nat.zero_mul, List.drop_zero]
      have hshift : ∀ i, block (content.drop chunkSize) chunkSize i =
          block content chunkSize (i + 1) := by
        intro i
        rw [block, block, List.drop_drop, Nat.succ_mul, Nat.add_comm chunkSize]
      have hdrop : (content.drop chunkSize).length = len - chunkSize := by
        rw [List.length_drop, hlen]
      have hcount : chunkCount len chunkSize = chunkCount (len - chunkSize) chunkSize + 1 :=
        chunkCount_of_pos hpos (by omega)
      rw [chunkHashes_of_ne_nil sha256 hpos hempty, ih _ (by omega) _ hdrop, hcount,
        List.range_succ_eq_map, List.flatMap_cons, List.flatMap_map, hfirst]
      simp only [hshift]

section

variable {schedule} (hs : Delivers schedule) {chunkSize : UInt32} (hchunk : 1 ≤ chunkSize)
  (content : List UInt8)
include hs hchunk

/-- Read in pieces, a file has the hash of its content. -/
theorem calculateFileHash_settles : ∃ file,
    Settles (fun rounds => calculateFileHash sha256 schedule chunkSize rounds ⟨content, 0⟩)
      (.ok (Transfer.calculateFileHash sha256 content chunkSize) file) := by
  have hpos : 0 < chunkSize.toNat := UInt32.le_iff_toNat_le.mp hchunk
  have hhashed : ∃ file, Settles (fun rounds => hashChunks sha256 schedule chunkSize.toNat rounds
      (List.replicate chunkSize.toNat 0) [] ⟨content, 0⟩)
        (.ok (chunkHashes sha256 chunkSize.toNat content) file) :=
    hashChunks_settles sha256 hs hpos List.length_replicate []
  obtain ⟨file, hsettles⟩ := hhashed
  exact ⟨file, hsettles.bind (.const _)⟩

/-- The hash of a file does not depend on how the reads are split: it is the hash of the
concatenated hashes of its chunks. -/
theorem calculateFileHash_of_reads : ∃ file,
    Settles (fun rounds => calculateFileHash sha256 schedule chunkSize rounds ⟨content, 0⟩)
      (.ok (sha256 ((List.range (chunkCount content.length chunkSize.toNat)).flatMap fun i =>
        (hashChunk sha256 ((content.take (min ((i + 1) * chunkSize.toNat) content.length)).drop
          (i * chunkSize.toNat))).toList)) file) := by
  have hpos : 0 < chunkSize.toNat := UInt32.le_iff_toNat_le.mp hchunk
  obtain ⟨file, hsettles⟩ := calculateFileHash_settles sha256 hs hchunk content
  rw [Transfer.calculateFileHash, chunkHashes_eq sha256 hpos] at hsettles
  refine ⟨file, ?_⟩
  simp only [Nat.succ_mul, drop_take_min]
  exact hsettles

end

/-- Every other call is interrupted, and the others deliver one byte. -/
def stutter (n : Nat) : ReadEvent := if n % 2 = 0 then .interrupted else .upTo 0

/-- Reads that stutter deliver the file. -/
theorem delivers_stutter : Delivers stutter where
  not_failed n := by
    rw [stutter]
    split <;> simp
  goes_on n := by
    refine ⟨(n + 1) % 2, ?_⟩
    rw [stutter, if_neg (by omega)]
    simp

/-- Three bytes in chunks of two. -/
theorem calculateFileHash_of_stutter : Delivers stutter ∧ ∃ file,
    Settles (fun rounds => calculateFileHash Sha256.digest stutter 2 rounds ⟨[1, 2, 3], 0⟩)
      (.ok (Sha256.digest ((List.range (chunkCount 3 2)).flatMap fun i =>
        (hashChunk Sha256.digest (([1, 2, 3].take (min ((i + 1) * 2) 3)).drop (i * 2))).toList))
          file) :=
  ⟨delivers_stutter,
    calculateFileHash_of_reads Sha256.digest delivers_stutter (by decide) [1, 2, 3]⟩

end CekyP2P.Transfer.Merkle
