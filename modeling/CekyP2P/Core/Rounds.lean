import CekyP2P.Core.Exec

/-!
# Loops with a bound on their rounds

A loop of a program is a function of the number of rounds it may take. It settles on a result if
every large enough number of rounds gives this result, so the loop itself ends with it.
-/

namespace CekyP2P

/-- Every large enough number of rounds gives the result. -/
def Settles {β : Type} (loop : Nat → β) (result : β) : Prop :=
  ∃ enough, ∀ rounds, enough ≤ rounds → loop rounds = result

namespace Settles

variable {ε σ α β : Type}

/-- A constant result has settled. -/
theorem const (result : β) : Settles (fun _ => result) result := ⟨0, fun _ _ => rfl⟩

/-- A loop settles where it settles after its first round. -/
theorem of_succ {loop next : Nat → β} {result : β}
    (hstep : ∀ rounds, loop (rounds + 1) = next rounds) (h : Settles next result) :
    Settles loop result := by
  obtain ⟨enough, henough⟩ := h
  refine ⟨enough + 1, fun rounds hle => ?_⟩
  obtain ⟨n, rfl⟩ := Nat.exists_eq_add_of_le' (Nat.le_of_add_left_le hle)
  rw [hstep, henough n (Nat.le_of_add_le_add_right hle)]

/-- A loop inside of a computation, where both have the same number of rounds. -/
theorem bind {x : Nat → Exec ε σ α} {f : Nat → α → Exec ε σ β} {s s' : σ} {a : α}
    {result : EStateM.Result (Stop ε) σ β} (hx : Settles (fun rounds => x rounds s) (.ok a s'))
    (hf : Settles (fun rounds => f rounds a s') result) :
    Settles (fun rounds => (x rounds >>= f rounds) s) result := by
  obtain ⟨enough, henough⟩ := hx
  obtain ⟨enough', henough'⟩ := hf
  refine ⟨max enough enough', fun rounds hle => ?_⟩
  have hfirst := henough rounds (Nat.le_trans (Nat.le_max_left _ _) hle)
  have hsecond := henough' rounds (Nat.le_trans (Nat.le_max_right _ _) hle)
  simp only at hfirst ⊢
  rw [Exec.bind_apply, hfirst]
  exact hsecond

end Settles

end CekyP2P
