import Mathlib.Data.List.AList

/-!
# Finite maps

A hash map is an association list without repeated keys. What is stored under a key after an
insertion or a removal, or when every value is replaced, and how many keys there are.
-/

namespace CekyP2P.FiniteMap

variable {α β : Type} [DecidableEq α] (m : AList fun _ : α => β)

/-- An insertion changes one key. -/
theorem lookup_insert (a a' : α) (b : β) :
    (m.insert a b).lookup a' = if a' = a then some b else m.lookup a' := by
  split
  case isTrue heq => rw [heq, AList.lookup_insert]
  case isFalse hne => rw [AList.lookup_insert_ne hne]

/-- An erasure changes one key. -/
theorem lookup_erase (a a' : α) :
    (m.erase a).lookup a' = if a' = a then none else m.lookup a' := by
  split
  case isTrue heq => rw [heq, AList.lookup_erase]
  case isFalse hne => rw [AList.lookup_erase_ne hne]

/-- Remove some keys one after the other. -/
def eraseAll (keys : List α) : AList fun _ : α => β := keys.foldl (fun m a => m.erase a) m

/-- The erased keys are gone, and the others are as they were. -/
theorem lookup_eraseAll (keys : List α) (a : α) :
    (eraseAll m keys).lookup a = if a ∈ keys then none else m.lookup a := by
  induction keys generalizing m with
  | nil => simp [eraseAll]
  | cons key keys ih =>
    have hcons : eraseAll m (key :: keys) = eraseAll (m.erase key) keys := rfl
    rw [hcons, ih, lookup_erase]
    by_cases hkey : a = key
    · simp [hkey]
    · simp [hkey]

/-- Every value replaced, as a loop over `values_mut` does it. -/
def mapValues (f : β → β) : AList fun _ : α => β where
  entries := m.entries.map fun entry => ⟨entry.1, f entry.2⟩
  nodupKeys := by
    rw [List.NodupKeys, List.keys, List.map_map]
    exact m.nodupKeys

/-- A function is applied to every value. -/
theorem lookup_mapValues (f : β → β) (a : α) :
    (mapValues m f).lookup a = (m.lookup a).map f :=
  @List.dlookup_map α α (fun _ => β) (fun _ => β) _ _ m.entries id Function.injective_id
    (fun _ => f) a

variable {m} {a : α}

/-- A new key counts. -/
theorem length_keys_insert_of_none (h : m.lookup a = none) (b : β) :
    (m.insert a b).keys.length = m.keys.length + 1 := by
  have hnot : a ∉ m.keys := AList.lookup_eq_none.mp h
  rw [AList.keys_insert, List.length_cons, List.erase_of_not_mem hnot]

/-- A key that is erased counts no more. -/
theorem length_keys_erase_of_some {b : β} (h : m.lookup a = some b) :
    (m.erase a).keys.length + 1 = m.keys.length := by
  have hmem : a ∈ m.keys := AList.lookup_isSome.mp (Option.isSome_iff_exists.mpr ⟨b, h⟩)
  have hpos := List.length_pos_of_mem hmem
  rw [AList.keys_erase, List.length_erase_of_mem hmem]
  omega

/-- A replaced value does not count. -/
theorem length_keys_insert_of_some {b' : β} (h : m.lookup a = some b') (b : β) :
    (m.insert a b).keys.length = m.keys.length := by
  rw [AList.keys_insert, List.length_cons, ← AList.keys_erase, length_keys_erase_of_some h]

/-- An insertion adds at most one key. -/
theorem length_keys_insert_le (a : α) (b : β) :
    (m.insert a b).keys.length ≤ m.keys.length + 1 := by
  cases h : m.lookup a with
  | none =>
    rw [length_keys_insert_of_none h]
  | some b' =>
    rw [length_keys_insert_of_some h]
    exact Nat.le_succ _

/-- Erasures add no keys. -/
theorem length_keys_eraseAll_le (m : AList fun _ : α => β) (keys : List α) :
    (eraseAll m keys).keys.length ≤ m.keys.length := by
  induction keys generalizing m with
  | nil => exact Nat.le_refl _
  | cons key keys ih =>
    refine Nat.le_trans (ih (m.erase key)) ?_
    rw [AList.keys_erase]
    exact List.length_erase_le

/-- Removing different keys of the map takes away one entry for each. -/
theorem length_keys_eraseAll {m : AList fun _ : α => β} {keys : List α} (hnodup : keys.Nodup)
    (hkeys : ∀ key ∈ keys, ∃ b, m.lookup key = some b) :
    (eraseAll m keys).keys.length + keys.length = m.keys.length := by
  induction keys generalizing m with
  | nil => rfl
  | cons key keys ih =>
    obtain ⟨hnot, hnodup⟩ := List.nodup_cons.mp hnodup
    obtain ⟨b, hb⟩ := hkeys key List.mem_cons_self
    have hrest : ∀ other ∈ keys, ∃ b, (m.erase key).lookup other = some b := by
      intro other hother
      have hne : other ≠ key := fun heq => hnot (heq ▸ hother)
      obtain ⟨b', hb'⟩ := hkeys other (List.mem_cons_of_mem key hother)
      exact ⟨b', by rw [lookup_erase, if_neg hne, hb']⟩
    have hlength := ih hnodup hrest
    have herase := length_keys_erase_of_some hb
    change (eraseAll (m.erase key) keys).keys.length + (keys.length + 1) = _
    omega

/-- A map in which no key is found is empty. -/
theorem keys_eq_nil (h : ∀ a, m.lookup a = none) : m.keys = [] := by
  rw [List.eq_nil_iff_forall_not_mem]
  exact fun a => AList.lookup_eq_none.mp (h a)

end CekyP2P.FiniteMap
