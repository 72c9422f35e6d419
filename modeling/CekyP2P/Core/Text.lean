import CekyP2P.Core.Exec

/-!
# Texts as bytes

The methods of a string slice count in bytes of its UTF-8 encoding. A slice that starts or ends
inside a character panics. A text of ASCII bytes has one character for each.
-/

namespace CekyP2P.Text

/-- A statement about every byte can be evaluated. -/
instance (priority := low) decidableForallByte {P : UInt8 → Prop} [DecidablePred P] :
    Decidable (∀ b, P b) :=
  decidable_of_iff (∀ i : Fin 256, P (.ofFin i))
    ⟨fun h b => h b.toFin, fun h i => h (.ofFin i)⟩

/-- The UTF-8 bytes of a text. -/
def bytes (s : String) : List UInt8 := s.toByteArray.data.toList

/-- The bytes of a text are those of its characters, one after the other. -/
theorem bytes_ofList (chars : List Char) :
    bytes (.ofList chars) = chars.flatMap String.utf8EncodeChar := by
  rw [bytes, String.toByteArray_ofList, List.utf8Encode, List.data_toByteArray]

/-- A text is known by its bytes. -/
theorem bytes_injective : Function.Injective bytes := by
  intro s t h
  rw [← String.toByteArray_inj]
  exact ByteArray.ext (Array.toList_inj.mp h)

/-- The bytes of a text are those of its characters, one after the other. -/
theorem bytes_eq_flatMap (s : String) : bytes s = s.toList.flatMap String.utf8EncodeChar := by
  rw [← bytes_ofList, String.ofList_toList]

/-! ## ASCII -/

/-- An ASCII character is encoded as itself. -/
theorem utf8EncodeChar_ofUInt8 {b : UInt8} (h : b < 0x80) :
    String.utf8EncodeChar (Char.ofUInt8 b) = [b] := by
  have hval : (Char.ofUInt8 b).val = b.toUInt32 := rfl
  have hsize : (Char.ofUInt8 b).utf8Size = 1 := by
    rw [Char.utf8Size_eq_one_iff, hval, UInt32.le_iff_toNat_le, UInt8.toNat_toUInt32]
    exact Nat.le_of_lt_succ (UInt8.lt_iff_toNat_lt.mp h)
  rw [String.utf8EncodeChar_eq_singleton hsize, hval, UInt8.toUInt8_toUInt32]

/-- ASCII bytes are the bytes of their text. -/
theorem bytes_ascii {l : List UInt8} (h : ∀ b ∈ l, b < 0x80) :
    bytes (.ofList (l.map Char.ofUInt8)) = l := by
  rw [bytes_ofList]
  induction l with
  | nil => rfl
  | cons b l ih =>
    have hb : b < 0x80 := h b List.mem_cons_self
    rw [List.map_cons, List.flatMap_cons, utf8EncodeChar_ofUInt8 hb,
      ih fun c hc => h c (List.mem_cons_of_mem b hc), List.singleton_append]

/-- A text of ASCII bytes is made of these bytes as characters. -/
theorem toList_of_ascii {s : String} (h : ∀ b ∈ bytes s, b < 0x80) :
    s.toList = (bytes s).map Char.ofUInt8 := by
  have htext : s = .ofList ((bytes s).map Char.ofUInt8) := bytes_injective (bytes_ascii h).symm
  rw [htext, String.toList_ofList, bytes_ascii h]

/-- An ASCII character is known by its byte. -/
theorem ofUInt8_toUInt8 {c : Char} (h : c.val ≤ 127) : Char.ofUInt8 c.val.toUInt8 = c := by
  apply Char.ext
  change c.val.toUInt8.toUInt32 = c.val
  have hle : c.val.toNat ≤ 127 := UInt32.le_iff_toNat_le.mp h
  rw [← UInt32.toNat_inj, UInt8.toNat_toUInt32, UInt32.toNat_toUInt8, Nat.mod_eq_of_lt (by omega)]

/-- A text of ASCII characters has them as bytes. -/
theorem bytes_of_ascii {s : String} (h : ∀ c ∈ s.toList, c.val ≤ 127) :
    bytes s = s.toList.map fun c => c.val.toUInt8 := by
  rw [bytes_eq_flatMap, List.map_eq_flatMap]
  refine List.flatMap_congr ?_
  intro c hc
  exact String.utf8EncodeChar_eq_singleton (Char.utf8Size_eq_one_iff.mpr (h c hc))

/-! ## Slices -/

/-- A byte inside the encoding of a character. -/
def isContinuation (b : UInt8) : Bool := 0x80 ≤ b ∧ b < 0xc0

/-- `str::is_char_boundary`. -/
def isCharBoundary (bytes : List UInt8) (i : Nat) : Bool :=
  i == 0 || match bytes[i]? with
    | some b => !isContinuation b
    | none => i == bytes.length

/-- The slice `&s[start..stop]`. -/
def slice {ε : Type} (bytes : List UInt8) (start stop : Nat) : Except (Stop ε) (List UInt8) :=
  if start ≤ stop ∧ isCharBoundary bytes start ∧ isCharBoundary bytes stop then
    .ok ((bytes.take stop).drop start)
  else .error .panicked

/-- A slice may end before a byte that does not continue a character. -/
theorem isCharBoundary_append (front : List UInt8) {rest : List UInt8}
    (h : ∀ c ∈ rest.head?, isContinuation c = false) :
    isCharBoundary (front ++ rest) front.length = true := by
  rw [isCharBoundary, List.getElem?_append_right (Nat.le_refl _), Nat.sub_self]
  cases rest with
  | nil => simp
  | cons c rest => simp [h c rfl]

/-- There is no boundary before a continuation byte. -/
theorem not_isCharBoundary_append {front : List UInt8} (hfront : front ≠ []) {c : UInt8}
    (hc : isContinuation c = true) (rest : List UInt8) :
    isCharBoundary (front ++ c :: rest) front.length = false := by
  rw [isCharBoundary, List.getElem?_append_right (Nat.le_refl _), Nat.sub_self]
  simp [hc, hfront]

section

variable {ε : Type} {front : List UInt8} {a b : UInt8} {rest : List UInt8}

/-- Two bytes between boundaries are a slice. -/
theorem slice_pair (hstart : isCharBoundary (front ++ a :: b :: rest) front.length = true)
    (h : ∀ c ∈ rest.head?, isContinuation c = false) :
    (slice (front ++ a :: b :: rest) front.length (front.length + 2) : Except (Stop ε) _) =
      .ok [a, b] := by
  have hstop := isCharBoundary_append (front ++ [a, b]) h
  rw [List.append_assoc, List.length_append] at hstop
  rw [slice, if_pos ⟨Nat.le_add_right _ _, hstart, hstop⟩]
  simp [List.take_append]

/-- A slice that ends inside a character panics. -/
theorem slice_cut {c : UInt8} (hc : isContinuation c = true) :
    (slice (front ++ a :: b :: c :: rest) front.length (front.length + 2) : Except (Stop ε) _) =
      .error .panicked := by
  have hstop := not_isCharBoundary_append (List.append_ne_nil_of_right_ne_nil front
    (List.cons_ne_nil a [b])) hc rest
  rw [List.append_assoc, List.length_append] at hstop
  exact if_neg fun h => Bool.false_ne_true (hstop.symm.trans h.2.2)

end

/-! ## Pairs -/

/-- A list read two elements at a time. -/
def readPairs {α β : Type} (f : α → α → Option β) : List α → Option (List β)
  | [] => some []
  | [_] => none
  | a :: b :: rest => do
    let value ← f a b
    let values ← readPairs f rest
    some (value :: values)

/-- Every two elements meet a condition, and none is left over. -/
def allPairs {α : Type} (P : α → α → Bool) : List α → Bool
  | [] => true
  | [_] => false
  | a :: b :: rest => P a b && allPairs P rest

section

variable {α β : Type} {f : α → α → Option β} {l : List α} {values : List β}

/-- A text of pairs is read pair by pair. -/
theorem readPairs_cons_eq_some {a b : α} :
    readPairs f (a :: b :: l) = some values ↔
      ∃ value rest, f a b = some value ∧ readPairs f l = some rest ∧ values = value :: rest := by
  rw [readPairs]
  cases f a b with
  | none => simp
  | some v => cases readPairs f l <;> simp [eq_comm]

/-- A text of pairs is read if every pair of it is. -/
theorem isSome_readPairs (l : List α) :
    (readPairs f l).isSome = allPairs (fun a b => (f a b).isSome) l := by
  induction l using readPairs.induct with
  | case1 => rfl
  | case2 => rfl
  | case3 a b rest ih =>
    rw [readPairs, allPairs, ← ih]
    cases f a b with
    | none => rfl
    | some v => cases readPairs f rest <;> rfl

/-- A text that was read has two characters for each value. -/
theorem length_of_readPairs (h : readPairs f l = some values) : l.length = 2 * values.length := by
  induction l using readPairs.induct generalizing values with
  | case1 =>
    cases h
    rfl
  | case2 => cases h
  | case3 a b rest ih =>
    obtain ⟨value, values, -, hrest, rfl⟩ := readPairs_cons_eq_some.mp h
    rw [List.length_cons, List.length_cons, List.length_cons, ih hrest]
    omega
end

end CekyP2P.Text
