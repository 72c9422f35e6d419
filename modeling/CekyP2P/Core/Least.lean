import Mathlib.Data.Finset.Card
import Mathlib.Data.List.Sort

/-!
# The items with the least keys

A bounded list that keeps the items of a stream with the least keys. Sorting a new item in
and cutting the list off gives what sorting everything that ever came would give, because an
item that was cut off is never among the least again.
-/

namespace CekyP2P

variable {α κ : Type}

variable [LT κ]

/-- The `k` items of a set whose keys are least, in increasing order. -/
structure Least (key : α → κ) (k : Nat) (S : Finset α) (l : List α) : Prop where
  sorted : l.Pairwise fun x y => key x < key y
  subset : ∀ x ∈ l, x ∈ S
  length_eq : l.length = min k S.card
  below : ∀ x ∈ S, x ∉ l → ∀ y ∈ l, key y < key x

/-- In a list that is sorted by a relation, what is kept of it is related to what is cut off. -/
theorem rel_of_cut {R : α → α → Prop} {l : List α} (hl : l.Pairwise R) {k : Nat} {x y : α}
    (hx : x ∈ l) (hcut : x ∉ l.take k) (hy : y ∈ l.take k) : R y x := by
  rw [← List.take_append_drop k l, List.pairwise_append] at hl
  rw [← List.take_append_drop k l, List.mem_append] at hx
  exact hl.2.2 y hy x (hx.resolve_left hcut)

namespace Least

variable {key : α → κ} {k : Nat} {S S' : Finset α} {l l' : List α}

/-- Of nothing, nothing is least. -/
theorem nil (key : α → κ) (k : Nat) : Least key k ∅ [] :=
  ⟨.nil, nofun, by simp, nofun⟩

/-- An element that is in the list already may be added to the set. -/
theorem insert_of_mem [DecidableEq α] (h : Least key k S l) {a : α} (ha : a ∈ l) :
    Least key k (insert a S) l := by
  rw [Finset.insert_eq_of_mem (h.subset a ha)]
  exact h

/-- The beginning of the list has the least keys of all. -/
theorem take (h : Least key k S l) {j : Nat} (hj : j ≤ k) : Least key j S (l.take j) where
  sorted := h.sorted.sublist (List.take_sublist j l)
  subset := fun x hx => h.subset x (List.mem_of_mem_take hx)
  length_eq := by
    rw [List.length_take, h.length_eq]
    omega
  below := by
    intro x hx hnot y hy
    by_cases hxl : x ∈ l
    · exact rel_of_cut h.sorted hxl hnot hy
    · exact h.below x hx hxl y (List.mem_of_mem_take hy)

/-- More items change nothing if they are kept already or too great for a full list. -/
theorem of_superset (h : Least key k S l) (hSS' : S ⊆ S')
    (hrest : ∀ x ∈ S', x ∉ S → l.length = k ∧ ∀ y ∈ l, key y < key x) : Least key k S' l where
  sorted := h.sorted
  subset := fun x hx => hSS' (h.subset x hx)
  length_eq := by
    have hlength := h.length_eq
    have hcard := Finset.card_le_card hSS'
    by_cases hall : S' ⊆ S
    · rw [hlength, hSS'.antisymm hall]
    · obtain ⟨x, hx, hnot⟩ := Finset.not_subset.mp hall
      have hfull := (hrest x hx hnot).1
      omega
  below := by
    intro x hx hnot
    by_cases hxS : x ∈ S
    · exact h.below x hxS hnot
    · exact (hrest x hx hxS).2

/-- Another key that orders the items in the same way. -/
theorem of_key {κ' : Type} [LT κ'] {key' : α → κ'} (hkey : ∀ x y, key x < key y ↔ key' x < key' y)
    (h : Least key k S l) : Least key' k S l where
  sorted := h.sorted.imp fun hlt => (hkey _ _).mp hlt
  subset := h.subset
  length_eq := h.length_eq
  below := fun x hx hnot y hy => (hkey y x).mp (h.below x hx hnot y hy)

section

variable [LE κ] [Std.LawfulOrderLT κ]

/-- What is sorted strictly has no repetition. -/
theorem nodup_of_sorted (h : l.Pairwise fun x y => key x < key y) : l.Nodup := by
  refine h.imp ?_
  rintro x _ hlt rfl
  exact Std.lt_irrefl hlt

/-- The least elements are listed once. -/
theorem nodup (h : Least key k S l) : l.Nodup := nodup_of_sorted h.sorted

/-- A part of the set that is as long as the set is all of it. -/
theorem mem_of_card_le [DecidableEq α] (h : Least key k S l) (hcard : S.card ≤ l.length) {x : α}
    (hx : x ∈ S) : x ∈ l := by
  have hsub : l.toFinset ⊆ S := fun y hy => h.subset y (List.mem_toFinset.mp hy)
  have hall : l.toFinset = S := by
    refine Finset.eq_of_subset_of_card_le hsub ?_
    rw [List.toFinset_card_of_nodup h.nodup]
    exact hcard
  rw [← hall] at hx
  exact List.mem_toFinset.mp hx

/-- Nothing is left out before the list is full. -/
theorem length_of_not_mem [DecidableEq α] (h : Least key k S l) {x : α} (hx : x ∈ S)
    (hnot : x ∉ l) : l.length = k := by
  have hlt : l.length < S.card := Nat.lt_of_not_le fun hcard => hnot (h.mem_of_card_le hcard hx)
  have hlength := h.length_eq
  omega

/-- The length of the list that a new item is sorted into. -/
theorem length_insert [DecidableEq α] (h : Least key k S l) {a : α} (ha : a ∉ l) :
    min k (l.length + 1) = min k (insert a S).card := by
  have hlength := h.length_eq
  by_cases hmem : a ∈ S
  · have hfull := h.length_of_not_mem hmem ha
    rw [Finset.insert_eq_of_mem hmem]
    omega
  · rw [Finset.card_insert_of_notMem hmem]
    omega

/-- If all that was kept is in a smaller set, it is what that set would have kept. -/
theorem of_subset (h : Least key k S' l) (hSS' : S ⊆ S') (hsub : ∀ x ∈ l, x ∈ S) :
    Least key k S l where
  sorted := h.sorted
  subset := hsub
  length_eq := by
    classical
    have hle : l.length ≤ S.card := by
      rw [← List.toFinset_card_of_nodup h.nodup]
      exact Finset.card_le_card fun x hx => hsub x (List.mem_toFinset.mp hx)
    have hcard := Finset.card_le_card hSS'
    have hlength := h.length_eq
    omega
  below := fun x hx => h.below x (hSS' hx)

/-- The beginning of a sorted list. -/
theorem of_sorted [DecidableEq α] (h : l.Pairwise fun x y => key x < key y) (k : Nat) :
    Least key k l.toFinset (l.take k) := by
  have hall : Least key l.length l.toFinset l := by
    refine ⟨h, fun x hx => List.mem_toFinset.mpr hx, ?_, ?_⟩
    · rw [List.toFinset_card_of_nodup (nodup_of_sorted h), Nat.min_self]
    · exact fun x hx hnot => absurd (List.mem_toFinset.mp hx) hnot
  rcases Nat.le_total k l.length with hk | hk
  · exact hall.take hk
  · rw [List.take_of_length_le hk]
    refine ⟨hall.sorted, hall.subset, ?_, hall.below⟩
    rw [List.toFinset_card_of_nodup hall.nodup, Nat.min_eq_right hk]

variable [Std.IsLinearOrder κ]

/-- Items with different keys are sorted strictly. -/
theorem sorted_insertionSort [DecidableLE κ] (h : (l.map key).Nodup) :
    (l.insertionSort fun x y => key x ≤ key y).Pairwise fun x y => key x < key y := by
  have : Std.Total fun x y : α => key x ≤ key y := ⟨fun x y => Std.Total.total (key x) (key y)⟩
  have : IsTrans α fun x y => key x ≤ key y := ⟨fun _ _ _ => Std.le_trans⟩
  have hle := List.pairwise_insertionSort (fun x y : α => key x ≤ key y) l
  have hne : (l.insertionSort fun x y => key x ≤ key y).Pairwise fun x y => key x ≠ key y := by
    have hperm := (List.perm_insertionSort (fun x y : α => key x ≤ key y) l).map key
    exact List.pairwise_map.mp (hperm.nodup_iff.mpr h)
  exact (hle.and hne).imp fun ⟨hxy, hxy'⟩ => Std.lt_of_le_of_ne hxy hxy'

/-- An item is sorted in at the end, and the list cut off. -/
theorem insert [DecidableEq α] [DecidableLE κ] (hinj : Function.Injective key)
    (h : Least key k S l) {a : α} (ha : a ∉ l) : Least key k (insert a S)
      (((l ++ [a]).insertionSort fun x y => key x ≤ key y).take k) := by
  generalize hm : (l ++ [a]).insertionSort (fun x y => key x ≤ key y) = m
  have hperm : m.Perm (l ++ [a]) := hm ▸ List.perm_insertionSort _ _
  have hmem : ∀ x, x ∈ m ↔ x ∈ l ∨ x = a := fun x => by
    rw [hperm.mem_iff, List.mem_append, List.mem_singleton]
  have hnodup : m.Nodup := by
    rw [hperm.nodup_iff, List.nodup_append]
    refine ⟨h.nodup, List.nodup_singleton a, ?_⟩
    rintro x hx _ hsingle rfl
    exact ha (List.mem_singleton.mp hsingle ▸ hx)
  have hlt : m.Pairwise fun x y => key x < key y :=
    hm ▸ sorted_insertionSort ((hperm.nodup_iff.mp hnodup).map hinj)
  have hcut : ∀ x ∈ m, x ∉ m.take k → ∀ y ∈ m.take k, key y < key x :=
    fun x hx hnot y hy => rel_of_cut hlt hx hnot hy
  refine ⟨hlt.sublist (List.take_sublist k m), ?_, ?_, ?_⟩
  · intro x hx
    rcases (hmem x).mp (List.mem_of_mem_take hx) with hold | rfl
    · exact Finset.mem_insert_of_mem (h.subset x hold)
    · exact Finset.mem_insert_self x S
  · rw [List.length_take, hperm.length_eq, List.length_append, List.length_singleton,
      h.length_insert ha]
  · intro x hx hnot y hy
    by_cases hxm : x ∈ m
    · exact hcut x hxm hnot y hy
    · obtain ⟨hxl, hxa⟩ := not_or.mp fun hor => hxm ((hmem x).mpr hor)
      have hxS : x ∈ S := (Finset.mem_insert.mp hx).resolve_left hxa
      rcases (hmem y).mp (List.mem_of_mem_take hy) with hyl | rfl
      · exact h.below x hxS hxl y hyl
      · obtain ⟨z, hzl, hzcut⟩ : ∃ z ∈ l, z ∉ m.take k := by
          by_contra hall
          have hsub : l ++ [y] ⊆ m.take k := by
            intro z hz
            rcases List.mem_append.mp hz with hz | hz
            · exact not_not.mp fun hzcut => hall ⟨z, hz, hzcut⟩
            · exact List.mem_singleton.mp hz ▸ hy
          have hcount := (List.subperm_of_subset (hperm.nodup_iff.mp hnodup) hsub).length_le
          have hfull := h.length_of_not_mem hxS hxl
          rw [List.length_append, List.length_take] at hcount
          simp at hcount
          omega
        exact Std.lt_trans (hcut z ((hmem z).mpr (.inl hzl)) hzcut y hy) (h.below x hxS hxl z hzl)

/-- As many items below a bound as the list can take fill it with items below that bound. An item
above the bound would have to stand beside all of them. -/
theorem below_of_many [DecidableEq α] (h : Least key k S l) {many : List α} (hnodup : many.Nodup)
    (hlength : many.length = k) {bound : κ} (hmany : ∀ x ∈ many, x ∈ S ∧ key x < bound) :
    l.length = k ∧ ∀ y ∈ l, key y < bound := by
  have hcard : k ≤ S.card := by
    rw [← hlength, ← List.toFinset_card_of_nodup hnodup]
    exact Finset.card_le_card fun x hx => (hmany x (List.mem_toFinset.mp hx)).1
  have hfull : l.length = k := h.length_eq.trans (Nat.min_eq_left hcard)
  refine ⟨hfull, fun y hy => ?_⟩
  by_contra hnot
  have hlt : ∀ x ∈ many, key x < key y :=
    fun x hx => Std.lt_of_lt_of_le (hmany x hx).2 (Std.not_lt.mp hnot)
  have hsub : y :: many ⊆ l := by
    refine List.cons_subset.mpr ⟨hy, fun x hx => not_not.mp fun hxl => ?_⟩
    exact Std.lt_irrefl (Std.lt_trans (hlt x hx) (h.below x (hmany x hx).1 hxl y hy))
  have hnodup' : (y :: many).Nodup :=
    List.nodup_cons.mpr ⟨fun hmem => Std.lt_irrefl (hlt y hmem), hnodup⟩
  have hcount := (List.subperm_of_subset hnodup' hsub).length_le
  rw [List.length_cons, hlength, hfull] at hcount
  exact Nat.not_succ_le_self k hcount

/-- There is one such list. Lists of one length that differ each have an item that the other lacks,
and their keys contradict each other. -/
theorem unique (h : Least key k S l) (h' : Least key k S l') : l = l' := by
  have hsub : ∀ {l l' : List α}, Least key k S l → Least key k S l' → l ⊆ l' := by
    intro l l' h h' x hx
    by_contra hnot
    obtain ⟨y, hy, hynot⟩ : ∃ y ∈ l', y ∉ l := by
      by_contra hall
      have hsub : l' ⊆ l := fun y hy => not_not.mp fun hynot => hall ⟨y, hy, hynot⟩
      have hperm := (List.subperm_of_subset h'.nodup hsub).perm_of_length_le
        (h.length_eq.trans h'.length_eq.symm).le
      exact hnot (hperm.mem_iff.mpr hx)
    exact Std.lt_irrefl (Std.lt_trans (h.below y (h'.subset y hy) hynot x hx)
      (h'.below x (h.subset x hx) hnot y hy))
  have hperm := (List.perm_ext_iff_of_nodup h.nodup h'.nodup).mpr
    fun _ => ⟨fun hx => hsub h h' hx, fun hx => hsub h' h hx⟩
  refine hperm.eq_of_pairwise ?_ h.sorted h'.sorted
  intro x y _ _ hxy hyx
  exact (Std.lt_irrefl (Std.lt_trans hxy hyx)).elim

end

end Least

end CekyP2P
