import Mathlib.Logic.Function.Basic

/-!
# Folds that notice a change of one letter

If a step can be undone, both in the state and in the letter it reads, the final state tells
apart two words that differ in one letter only.
-/

namespace CekyP2P

variable {α σ : Type} {f : σ → α → σ}

/-- If every step is injective in the state, so is a whole fold. -/
theorem foldl_injective (hstate : ∀ a, Function.Injective fun s => f s a) (l : List α) :
    Function.Injective fun s => l.foldl f s := by
  induction l with
  | nil => exact Function.injective_id
  | cons a l ih => exact ih.comp (hstate a)

/-- Up to the changed letter the states agree, there they part, and they never meet again. -/
theorem foldl_set_ne (hstate : ∀ a, Function.Injective fun s => f s a)
    (hletter : ∀ s, Function.Injective (f s)) {l : List α} {i : Nat} (hi : i < l.length) {a : α}
    (hne : a ≠ l[i]) (s : σ) : (l.set i a).foldl f s ≠ l.foldl f s := by
  have hsplit : l.take i ++ l[i] :: l.drop (i + 1) = l := by
    rw [List.getElem_cons_drop, List.take_append_drop]
  have hset : l.set i a = l.take i ++ a :: l.drop (i + 1) := by
    rw [List.set_eq_take_append_cons_drop, if_pos hi]
  have hold : l.foldl f s = (l.drop (i + 1)).foldl f (f ((l.take i).foldl f s) l[i]) := by
    rw [← List.foldl_cons, ← List.foldl_append, hsplit]
  rw [hset, hold, List.foldl_append, List.foldl_cons]
  intro heq
  exact hne (hletter _ (foldl_injective hstate _ heq))

end CekyP2P
