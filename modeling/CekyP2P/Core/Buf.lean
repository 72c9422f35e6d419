import CekyP2P.Core.Bytes
import CekyP2P.Core.Exec

/-!
# Reading from a byte buffer

The cursor operations of a decoder: each takes bytes off the front of the buffer, and
panics where fewer are left. An operation succeeds exactly on the buffers that begin with
the encoding of its value, which gives round trips and canonicity at once.
-/

namespace CekyP2P

/-- A decoder over the remaining bytes. -/
abbrev Reader (ε α : Type) := Exec ε (List UInt8) α

namespace Reader

variable {ε α : Type}

/-- Decode a payload; bytes that are left over are ignored. -/
def parse (r : Reader ε α) (payload : List UInt8) : Except (Stop ε) α :=
  match r payload with
  | .ok a _ => .ok a
  | .error e _ => .error e

/-- A parser may leave bytes unread. -/
theorem parse_eq_ok {r : Reader ε α} {payload : List UInt8} {a : α} :
    r.parse payload = .ok a ↔ ∃ rest, r payload = .ok a rest := by
  rw [parse]
  cases r payload <;> simp

/-- An error unless the buffer holds enough bytes. -/
def ensureRemaining (tooShort : Nat → Nat → ε) (needed : Nat) : Reader ε Unit := do
  let buf ← get
  if buf.length < needed then throw (.error (tooShort needed buf.length)) else pure ()

/-- `copy_to_bytes`. -/
def copyToBytes (n : Nat) : Reader ε (List UInt8) := fun buf =>
  if n ≤ buf.length then .ok (buf.take n) (buf.drop n) else .error .panicked buf

/-- `copy_to_slice` into an array of `n` bytes. -/
def copyToSlice (n : Nat) : Reader ε (Vector UInt8 n) := do
  let bytes ← copyToBytes n
  Exec.copyFromSlice n bytes

/-- Read one byte. -/
def getU8 : Reader ε UInt8 := (fun bytes => UInt8.ofNat (ofBeBytes bytes)) <$> copyToBytes 1

/-- Read a big-endian number of 16 bits. -/
def getU16 : Reader ε UInt16 := (fun bytes => UInt16.ofNat (ofBeBytes bytes)) <$> copyToBytes 2

/-- Read a big-endian number of 32 bits. -/
def getU32 : Reader ε UInt32 := (fun bytes => UInt32.ofNat (ofBeBytes bytes)) <$> copyToBytes 4

/-- Read a big-endian number of 64 bits. -/
def getU64 : Reader ε UInt64 := (fun bytes => UInt64.ofNat (ofBeBytes bytes)) <$> copyToBytes 8

variable {buf rest : List UInt8}

/-- A length check lets the rest of a parser run if enough bytes are left. -/
theorem ensureRemaining_bind_eq_ok {tooShort : Nat → Nat → ε} {needed : Nat}
    {next : Unit → Reader ε α} {a : α} :
    (ensureRemaining tooShort needed >>= next) buf = .ok a rest ↔
      needed ≤ buf.length ∧ next () buf = .ok a rest := by
  by_cases h : buf.length < needed
  · simp [ensureRemaining, h]
  · simp [ensureRemaining, h, Nat.le_of_not_lt h]

/-- The bytes that are read are the first ones of the buffer. -/
theorem copyToBytes_eq_ok {n : Nat} {bytes : List UInt8} :
    (copyToBytes n : Reader ε _) buf = .ok bytes rest ↔
      buf = bytes ++ rest ∧ bytes.length = n := by
  rw [copyToBytes]
  constructor
  · intro h
    split at h
    case isTrue hle =>
      cases h
      exact ⟨(List.take_append_drop n buf).symm, List.length_take_of_le hle⟩
    case isFalse => cases h
  · rintro ⟨rfl, rfl⟩
    simp

/-- An array is read from the first bytes of the buffer. -/
theorem copyToSlice_eq_ok {n : Nat} {v : Vector UInt8 n} :
    (copyToSlice n : Reader ε _) buf = .ok v rest ↔ buf = v.toList ++ rest := by
  rw [copyToSlice, Exec.bind_eq_ok]
  constructor
  · rintro ⟨bytes, t, hbytes, hcopy⟩
    obtain ⟨rfl, hlen⟩ := copyToBytes_eq_ok.mp hbytes
    rw [Exec.copyFromSlice_of_length hlen] at hcopy
    cases hcopy
    rfl
  · rintro rfl
    exact ⟨v.toList, rest, copyToBytes_eq_ok.mpr ⟨rfl, by simp⟩, Exec.copyFromSlice_toList v rest⟩

/-- A word read from `n` bytes is the one that these bytes encode. -/
theorem map_copyToBytes_eq_ok {n : Nat} {ofNat : Nat → α} {toNat : α → Nat}
    (hofNat : ∀ a, ofNat (toNat a) = a) (hlt : ∀ a, toNat a < 256 ^ n)
    (htoNat : ∀ v < 256 ^ n, toNat (ofNat v) = v) {a : α} :
    ((fun bytes => ofNat (ofBeBytes bytes)) <$> (copyToBytes n : Reader ε _)) buf = .ok a rest ↔
      buf = toBeBytes n (toNat a) ++ rest := by
  rw [Exec.map_eq_ok]
  constructor
  · rintro ⟨bytes, hbytes, rfl⟩
    obtain ⟨rfl, rfl⟩ := copyToBytes_eq_ok.mp hbytes
    rw [htoNat _ (ofBeBytes_lt bytes), toBeBytes_ofBeBytes]
  · rintro rfl
    refine ⟨toBeBytes n (toNat a), copyToBytes_eq_ok.mpr ⟨rfl, length_toBeBytes _ _⟩, ?_⟩
    rw [ofBeBytes_toBeBytes, Nat.mod_eq_of_lt (hlt a), hofNat]

/-- A byte is read where the buffer begins with it. -/
theorem getU8_eq_ok {v : UInt8} : (getU8 : Reader ε _) buf = .ok v rest ↔ buf = v :: rest := by
  rw [← List.singleton_append, ← toBeBytes_one]
  exact map_copyToBytes_eq_ok (fun _ => UInt8.ofNat_toNat) (fun a => a.toNat_lt)
    fun _ h => UInt8.toNat_ofNat_of_lt' h

/-- A number of 16 bits is read where the buffer begins with its encoding. -/
theorem getU16_eq_ok {v : UInt16} : (getU16 : Reader ε _) buf = .ok v rest ↔
    buf = toBeBytes 2 v.toNat ++ rest :=
  map_copyToBytes_eq_ok (fun _ => UInt16.ofNat_toNat) (fun a => a.toNat_lt)
    fun _ h => UInt16.toNat_ofNat_of_lt' h

/-- A number of 32 bits is read where the buffer begins with its encoding. -/
theorem getU32_eq_ok {v : UInt32} : (getU32 : Reader ε _) buf = .ok v rest ↔
    buf = toBeBytes 4 v.toNat ++ rest :=
  map_copyToBytes_eq_ok (fun _ => UInt32.ofNat_toNat) (fun a => a.toNat_lt)
    fun _ h => UInt32.toNat_ofNat_of_lt' h

/-- A number of 64 bits is read where the buffer begins with its encoding. -/
theorem getU64_eq_ok {v : UInt64} : (getU64 : Reader ε _) buf = .ok v rest ↔
    buf = toBeBytes 8 v.toNat ++ rest :=
  map_copyToBytes_eq_ok (fun _ => UInt64.ofNat_toNat) (fun a => a.toNat_lt)
    fun _ h => UInt64.toNat_ofNat_of_lt' h

/-- With `n` bytes to read a decoder does not panic, and it takes at most these. -/
def Fits (n : Nat) (r : Reader ε α) : Prop :=
  ∀ buf, n ≤ buf.length → Exec.Returned (r buf) ∧
    buf.length ≤ (Exec.stateAfter (r buf)).length + n

/-- A constant reads nothing. -/
theorem fits_pure (a : α) : Fits 0 (pure a : Reader ε α) := fun _ _ => ⟨trivial, Nat.le_refl _⟩

/-- An error is an answer, whatever is left. -/
theorem fits_throw (n : Nat) (e : ε) : Fits n (throw (.error e) : Reader ε α) :=
  fun _ _ => ⟨trivial, Nat.le_add_right _ _⟩

/-- A missing value is an error, not a panic. -/
theorem fits_orError (e : ε) (o : Option α) : Fits 0 (Exec.orError e o : Reader ε α) := by
  cases o with
  | none => exact fits_throw 0 e
  | some a => exact fits_pure a

/-- Reading bytes takes as many as it asks for. -/
theorem fits_copyToBytes (n : Nat) : Fits n (copyToBytes n : Reader ε _) := by
  intro buf h
  rw [copyToBytes, if_pos h]
  refine ⟨trivial, ?_⟩
  simp only [Exec.stateAfter, List.length_drop]
  omega

/-- What is done with a value does not change what is read. -/
theorem Fits.map {n : Nat} {r : Reader ε α} {β : Type} (hr : Fits n r) (f : α → β) :
    Fits n (f <$> r) := by
  intro buf h
  obtain ⟨hreturned, hlength⟩ := hr buf h
  refine ⟨(Exec.returned_map f r buf).mpr hreturned, ?_⟩
  rw [Exec.map_apply]
  cases hresult : r buf with
  | ok a rest =>
    rw [hresult] at hlength
    exact hlength
  | error e rest =>
    rw [hresult] at hlength
    exact hlength

/-- One byte is read. -/
theorem fits_getU8 : Fits 1 (getU8 : Reader ε _) := (fits_copyToBytes 1).map _

/-- Two bytes are read. -/
theorem fits_getU16 : Fits 2 (getU16 : Reader ε _) := (fits_copyToBytes 2).map _

/-- Four bytes are read. -/
theorem fits_getU32 : Fits 4 (getU32 : Reader ε _) := (fits_copyToBytes 4).map _

/-- Eight bytes are read. -/
theorem fits_getU64 : Fits 8 (getU64 : Reader ε _) := (fits_copyToBytes 8).map _

/-- Two parsers in a row read what both of them read. -/
theorem Fits.bind {m n : Nat} {r : Reader ε α} {β : Type} {f : α → Reader ε β} (hr : Fits m r)
    (hf : ∀ a, Fits n (f a)) : Fits (m + n) (r >>= f) := by
  intro buf h
  obtain ⟨hreturned, hlength⟩ := hr buf (by omega)
  rw [Exec.bind_apply]
  cases hresult : r buf with
  | ok a rest =>
    rw [hresult] at hlength
    simp only [Exec.stateAfter] at hlength
    obtain ⟨hreturned', hlength'⟩ := hf a rest (by omega)
    exact ⟨hreturned', by simp only; omega⟩
  | error e rest =>
    rw [hresult] at hreturned hlength
    simp only [Exec.stateAfter] at hlength ⊢
    refine ⟨?_, by omega⟩
    cases e <;> trivial

/-- A check before a decoder takes nothing. -/
theorem Fits.check {n : Nat} {r : Reader ε α} {c : Prop} [Decidable c] (e : ε) (hr : Fits n r) :
    Fits n (if c then throw (.error e) else r) := by
  split
  · exact fits_throw n e
  · exact hr

/-- An array is read in as many bytes as it has. -/
theorem fits_copyToSlice (n : Nat) : Fits n (copyToSlice n : Reader ε _) := by
  intro buf h
  obtain ⟨v, hv⟩ := Exec.exists_vector_of_length (List.length_take_of_le h)
  have hread : (copyToSlice n : Reader ε _) buf = .ok v (buf.drop n) := by
    rw [copyToSlice_eq_ok, ← hv, List.take_append_drop]
  rw [hread]
  refine ⟨trivial, ?_⟩
  simp only [Exec.stateAfter, List.length_drop]
  omega

/-- A length check before a decoder takes nothing. -/
theorem Fits.ensured {n : Nat} {next : Unit → Reader ε α} (hr : Fits n (next ()))
    (tooShort : Nat → Nat → ε) (needed : Nat) :
    Fits n (ensureRemaining tooShort needed >>= next) := by
  intro buf h
  by_cases hshort : buf.length < needed
  · simp [ensureRemaining, hshort, Exec.Returned, Exec.stateAfter]
  · simpa [ensureRemaining, hshort] using hr buf h

/-! ## Decoders that do not panic -/

/-- With `n` bytes to read a decoder does not panic. -/
def Safe (n : Nat) (r : Reader ε α) : Prop := ∀ buf, n ≤ buf.length → Exec.Returned (r buf)

/-- The result of a decoder that has ended without a panic. -/
def Answered (result : Except (Stop ε) α) : Prop :=
  (∃ a, result = .ok a) ∨ ∃ e, result = .error (.error e)

section

variable {m n : Nat} {β : Type} {r : Reader ε α}

/-- A parser that fits does not panic. -/
theorem Fits.safe (hr : Fits n r) : Safe n r := fun buf h => (hr buf h).1

/-- With more bytes in the buffer, a parser is still safe. -/
theorem Safe.mono (hr : Safe m r) (h : m ≤ n) : Safe n r :=
  fun buf hbuf => hr buf (h.trans hbuf)

/-- What a decoder takes is not there for the next one. -/
theorem Fits.bind_safe {f : α → Reader ε β} (hr : Fits m r) (hf : ∀ a, Safe n (f a)) :
    Safe (m + n) (r >>= f) := by
  intro buf h
  obtain ⟨hreturned, hlength⟩ := hr buf (by omega)
  rw [Exec.bind_apply]
  cases hresult : r buf with
  | ok a rest =>
    rw [hresult] at hlength
    simp only [Exec.stateAfter] at hlength
    exact hf a rest (by omega)
  | error e rest =>
    rw [hresult] at hreturned
    cases e <;> exact hreturned

/-- If every decoder checks for itself, nothing is known of what is left for the next one. -/
theorem Safe.bind {f : α → Reader ε β} (hr : Safe n r) (hf : ∀ a, Safe 0 (f a)) :
    Safe n (r >>= f) := by
  intro buf h
  have hreturned := hr buf h
  rw [Exec.bind_apply]
  cases hresult : r buf with
  | ok a rest => exact hf a rest (Nat.zero_le _)
  | error e rest =>
    rw [hresult] at hreturned
    cases e <;> exact hreturned

/-- A check may refuse, and what comes behind it may rely on the check. -/
theorem Safe.check {c : Prop} [Decidable c] (e : ε) (hr : ¬c → Safe n r) :
    Safe n (if c then throw (.error e) else r) := by
  split
  case isTrue => exact (fits_throw n e).safe
  case isFalse hc => exact hr hc

/-- Behind its length check a decoder needs nothing. -/
theorem Safe.ensured {next : Unit → Reader ε α} (hr : Safe n (next ()))
    (tooShort : Nat → Nat → ε) : Safe 0 (ensureRemaining tooShort n >>= next) := by
  intro buf _
  by_cases hshort : buf.length < n
  · simp [ensureRemaining, hshort, Exec.Returned]
  · simpa [ensureRemaining, hshort] using hr buf (Nat.le_of_not_lt hshort)

/-- A computation that has answered reads nothing. -/
theorem fits_ofExcept {result : Except (Stop ε) α} (h : Answered result) :
    Fits 0 (Exec.ofExcept result : Reader ε α) := by
  rcases h with ⟨a, rfl⟩ | ⟨e, rfl⟩
  · exact fits_pure a
  · exact fits_throw 0 e

/-- A safe parser answers on every payload that is long enough. -/
theorem Safe.parse (hr : Safe n r) {payload : List UInt8} (h : n ≤ payload.length) :
    Answered (r.parse payload) := by
  have hreturned := hr payload h
  rw [Reader.parse]
  cases hresult : r payload with
  | ok a rest => exact .inl ⟨a, rfl⟩
  | error e rest =>
    rw [hresult] at hreturned
    cases e with
    | error e => exact .inr ⟨e, rfl⟩
    | panicked => exact hreturned.elim
    | blocked => exact hreturned.elim

end

end Reader

end CekyP2P
