import Mathlib.Data.List.Basic
import Mathlib.Data.List.Induction

/-!
# Positions in event traces

Events that carry a label are located by it when no label occurs twice. What holds after every
prefix of a trace is decided event by event.
-/

namespace CekyP2P

variable {α γ : Type}

/-- Two positions whose events carry the same label coincide when labels are not repeated. -/
theorem eq_of_nodup_filterMap {f : α → Option γ} {l : List α} (h : (l.filterMap f).Nodup)
    {i j : Nat} {x y : α} {a : γ} (hi : l[i]? = some x) (hj : l[j]? = some y)
    (hx : f x = some a) (hy : f y = some a) : i = j := by
  induction l generalizing i j with
  | nil => simp at hi
  | cons z zs ih =>
    have htail : (zs.filterMap f).Nodup := by
      cases hz : f z with
      | none => simpa only [List.filterMap_cons_none hz] using h
      | some b => exact (List.nodup_cons.mp (by simpa only [List.filterMap_cons_some hz] using h)).2
    have hhead : ∀ {k : Nat} {w : α}, zs[k]? = some w → f z = some a → f w = some a → False := by
      intro k w hw hz hfw
      rw [List.filterMap_cons_some hz] at h
      exact (List.nodup_cons.mp h).1
        (List.mem_filterMap.mpr ⟨w, List.mem_of_getElem? hw, hfw⟩)
    cases i with
    | zero =>
      cases j with
      | zero => rfl
      | succ j =>
        rw [List.getElem?_cons_zero, Option.some.injEq] at hi
        rw [List.getElem?_cons_succ] at hj
        exact (hhead hj (hi ▸ hx) hy).elim
    | succ i =>
      rw [List.getElem?_cons_succ] at hi
      cases j with
      | zero =>
        rw [List.getElem?_cons_zero, Option.some.injEq] at hj
        exact (hhead hi (hj ▸ hy) hx).elim
      | succ j =>
        rw [List.getElem?_cons_succ] at hj
        exact congrArg Nat.succ (ih htail hi hj)

/-- An event of a trace extended by one step is an old event or the new one. -/
theorem getElem?_snoc {l : List α} {x y : α} {i : Nat} (h : (l ++ [x])[i]? = some y) :
    l[i]? = some y ∨ i = l.length ∧ y = x := by
  rcases Nat.lt_trichotomy i l.length with hi | hi | hi
  · rw [List.getElem?_append_left hi] at h
    exact Or.inl h
  · subst hi
    rw [List.getElem?_concat_length, Option.some.injEq] at h
    exact Or.inr ⟨rfl, h.symm⟩
  · rw [List.getElem?_eq_none (by simp; omega)] at h
    cases h

/-- Extending a trace keeps its events in place. -/
theorem getElem?_snoc_of_some {l : List α} {x y : α} {i : Nat} (h : l[i]? = some y) :
    (l ++ [x])[i]? = some y := by
  rw [List.getElem?_append_left (List.getElem?_eq_some_iff.mp h).1, h]

/-- The labels of a trace extended by one step. -/
theorem mem_filterMap_snoc {f : α → Option γ} {l : List α} {x : α} {a : γ} :
    a ∈ (l ++ [x]).filterMap f ↔ a ∈ l.filterMap f ∨ f x = some a := by
  simp only [List.mem_filterMap, List.mem_append, List.mem_singleton]
  constructor
  · rintro ⟨y, hy | rfl, ha⟩
    · exact Or.inl ⟨y, hy, ha⟩
    · exact Or.inr ha
  · rintro (⟨y, hy, ha⟩ | ha)
    · exact ⟨y, Or.inl hy, ha⟩
    · exact ⟨x, Or.inr rfl, ha⟩

/-- A step whose label is new repeats none. -/
theorem nodup_filterMap_snoc {f : α → Option γ} {l : List α} {x : α}
    (h : (l.filterMap f).Nodup) (hx : ∀ a, f x = some a → a ∉ l.filterMap f) :
    ((l ++ [x]).filterMap f).Nodup := by
  rw [List.filterMap_append]
  cases hlabel : f x with
  | none => simpa [hlabel] using h
  | some a =>
    rw [List.filterMap_cons_some hlabel, List.filterMap_nil, List.nodup_append]
    refine ⟨h, by simp, ?_⟩
    rintro b hb _ hsingle rfl
    rw [List.mem_singleton.mp hsingle] at hb
    exact hx a hlabel hb

/-- A property holds after every prefix just if every event keeps it after what came before. -/
theorem forall_prefix_iff_forall_concat {P : List α → Prop} {Q : List α → α → Prop} (hnil : P [])
    (hstep : ∀ earlier x, P earlier → (P (earlier ++ [x]) ↔ Q earlier x)) (l : List α) :
    (∀ taken, taken <+: l → P taken) ↔ ∀ earlier x, earlier ++ [x] <+: l → Q earlier x := by
  constructor
  · intro h earlier x hx
    have hearlier : earlier <+: l := (List.prefix_append earlier [x]).trans hx
    exact (hstep earlier x (h earlier hearlier)).mp (h _ hx)
  · intro h taken
    induction taken using List.reverseRecOn with
    | nil => exact fun _ => hnil
    | append_singleton earlier x ih =>
      intro hx
      have hearlier : earlier <+: l := (List.prefix_append earlier [x]).trans hx
      exact (hstep earlier x (ih hearlier)).mpr (h earlier x hx)

end CekyP2P
