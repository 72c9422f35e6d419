import Mathlib.Algebra.GroupWithZero.Nat
import Mathlib.Algebra.Order.BigOperators.Group.Finset
import Mathlib.Data.List.Induction

/-!
# What is in flight

Messages stay in the list in which they were sent, and a set of positions records which of
them have arrived. Each message has a weight, and what was sent weighs as much as what has
arrived and what is in flight together.
-/

namespace CekyP2P

variable {β : Type} (w : β → Nat) {sent : List β} {arrived : Finset Nat}

/-- Weight of everything that was sent. -/
def sentWeight (sent : List β) : Nat := (sent.map w).sum

/-- Weight of the messages at some positions. -/
def weightAt (sent : List β) (positions : Finset Nat) : Nat :=
  ∑ p ∈ positions, (sent[p]?).elim 0 w

/-- Weight of the messages that have not arrived. -/
def inFlight (sent : List β) (arrived : Finset Nat) : Nat :=
  weightAt w sent (Finset.range sent.length \ arrived)

/-- Weights of what is sent add up. -/
theorem sentWeight_append (sent more : List β) :
    sentWeight w (sent ++ more) = sentWeight w sent + sentWeight w more := by
  rw [sentWeight, List.map_append, List.sum_append]
  rfl

/-- Messages that are sent later have later positions. -/
theorem weightAt_append (more : List β) (h : arrived ⊆ Finset.range sent.length) :
    weightAt w (sent ++ more) arrived = weightAt w sent arrived := by
  refine Finset.sum_congr rfl fun p hp => ?_
  rw [List.getElem?_append_left (Finset.mem_range.mp (h hp))]

/-- An arrival adds the weight of its message. -/
theorem weightAt_insert {p : Nat} {message : β} (hp : sent[p]? = some message)
    (hnew : p ∉ arrived) :
    weightAt w sent (insert p arrived) = weightAt w sent arrived + w message := by
  rw [weightAt, Finset.sum_insert hnew, hp, Option.elim_some, Nat.add_comm]
  rfl

/-- Once everything has arrived, all the weight has. -/
theorem weightAt_range (sent : List β) :
    weightAt w sent (Finset.range sent.length) = sentWeight w sent := by
  induction sent using List.reverseRecOn with
  | nil => rfl
  | append_singleton sent message ih =>
    have hlast : (sent ++ [message])[sent.length]? = some message := List.getElem?_concat_length
    rw [List.length_append, List.length_singleton, Finset.range_add_one,
      weightAt_insert w hlast Finset.notMem_range_self, weightAt_append w _ (Finset.Subset.refl _),
      ih, sentWeight_append]
    rfl

/-- What was sent has arrived or is in flight. -/
theorem inFlight_add_weightAt (h : arrived ⊆ Finset.range sent.length) :
    inFlight w sent arrived + weightAt w sent arrived = sentWeight w sent := by
  rw [← weightAt_range]
  exact Finset.sum_sdiff h

/-- A message that has not arrived is in flight. -/
theorem le_inFlight {p : Nat} {message : β} (hp : sent[p]? = some message) (hnew : p ∉ arrived) :
    w message ≤ inFlight w sent arrived := by
  have hlt := (List.getElem?_eq_some_iff.mp hp).1
  have hmem : p ∈ Finset.range sent.length \ arrived :=
    Finset.mem_sdiff.mpr ⟨Finset.mem_range.mpr hlt, hnew⟩
  have hle := Finset.single_le_sum (f := fun p => (sent[p]?).elim 0 w)
    (fun _ _ => Nat.zero_le _) hmem
  rw [inFlight, weightAt]
  simpa only [hp, Option.elim_some] using hle

/-- When everything has arrived nothing is in flight. -/
theorem inFlight_eq_zero (h : Finset.range sent.length ⊆ arrived) :
    inFlight w sent arrived = 0 := by
  rw [inFlight, Finset.sdiff_eq_empty_iff_subset.mpr h]
  rfl

end CekyP2P
