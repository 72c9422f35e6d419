import CekyP2P.Core.Exec

/-!
# Steps with labels

The sequences of steps of a labelled relation carry the labels of all their steps, in order. A
program whose state moves along such a sequence has a bound on what labels it can produce: a list
of tags in which those of its labels occur in order, so that the bounds of two programs are
appended when one runs after the other.
-/

namespace CekyP2P

variable {ℓ σ κ : Type} {R : List ℓ → σ → σ → Prop}

/-- Sequences of labelled steps. -/
inductive Labelled (R : List ℓ → σ → σ → Prop) : List ℓ → σ → σ → Prop
  | refl (s : σ) : Labelled R [] s s
  | head {labels rest : List ℓ} {s t u : σ} (h : R labels s t) (hrest : Labelled R rest t u) :
      Labelled R (labels ++ rest) s u

namespace Labelled

variable {labels rest : List ℓ} {s t u : σ}

/-- One step is a run. -/
theorem single (h : R labels s t) : Labelled R labels s t := by
  have hhead := head h (refl t)
  rwa [List.append_nil] at hhead

/-- Runs are put one behind the other. -/
theorem trans (h : Labelled R labels s t) (h' : Labelled R rest t u) :
    Labelled R (labels ++ rest) s u := by
  induction h with
  | refl s => exact h'
  | head hstep _ ih =>
    rw [List.append_assoc]
    exact head hstep (ih h')

/-- What every step does, and what may be done one after the other, a sequence does. -/
theorem lift {Q : List ℓ → σ → σ → Prop} (hrefl : ∀ s, Q [] s s)
    (htrans : ∀ {labels rest s t u}, Q labels s t → Q rest t u → Q (labels ++ rest) s u)
    (hstep : ∀ {labels s t}, R labels s t → Q labels s t) (h : Labelled R labels s t) :
    Q labels s t := by
  induction h with
  | refl s => exact hrefl s
  | head h _ ih => exact htrans (hstep h) ih

end Labelled

/-- A sequence of steps whose labels have their tags among some, in order. -/
def Traced (R : List ℓ → σ → σ → Prop) (tag : ℓ → κ) (tags : List κ) (s t : σ) : Prop :=
  ∃ labels, (labels.map tag).Sublist tags ∧ Labelled R labels s t

namespace Traced

variable {tag : ℓ → κ} {tags tags' : List κ} {s t u : σ}

/-- A step without labels leaves no trace. -/
theorem quiet (h : R [] s t) : Traced R tag tags s t := ⟨[], List.nil_sublist _, .single h⟩

/-- A trace may allow for more tags. -/
theorem mono (h : Traced R tag tags s t) (hsub : tags.Sublist tags') : Traced R tag tags' s t := by
  obtain ⟨labels, hlabels, hsteps⟩ := h
  exact ⟨labels, hlabels.trans hsub, hsteps⟩

/-- The traces of two runs follow each other. -/
theorem append (h : Traced R tag tags s t) (h' : Traced R tag tags' t u) :
    Traced R tag (tags ++ tags') s u := by
  obtain ⟨labels, hlabels, hsteps⟩ := h
  obtain ⟨rest, hrest, hsteps'⟩ := h'
  refine ⟨labels ++ rest, ?_, hsteps.trans hsteps'⟩
  rw [List.map_append]
  exact hlabels.append hrest

/-- A step without labels comes first. -/
theorem after_quiet (h : R [] s t) (h' : Traced R tag tags t u) : Traced R tag tags s u := by
  obtain ⟨labels, hlabels, hsteps⟩ := h'
  exact ⟨labels, hlabels, .head h hsteps⟩

/-- A step without labels comes last. -/
theorem before_quiet (h : Traced R tag tags s t) (h' : R [] t u) : Traced R tag tags s u := by
  have happend := h.append (quiet h' : Traced R tag [] t u)
  rwa [List.append_nil] at happend

instance refl_traced : Std.Refl (Traced R tag tags) where
  refl s := ⟨[], List.nil_sublist _, .refl s⟩

instance trans_traced : IsTrans σ (Traced R tag []) where
  trans _ _ _ h h' := h.append h'

end Traced

namespace Exec

variable {ε α β : Type} {tag : ℓ → κ} {tags tags' : List κ} {x : Exec ε σ α}
  {f : α → Exec ε σ β}

/-- A first call that moves one state along, before a program that moves every state. -/
theorem traced_bind {s : σ} (hx : Traced R tag tags s (stateAfter (x s)))
    (hf : ∀ a, Moves (Traced R tag tags') (f a)) :
    Traced R tag (tags ++ tags') s (stateAfter ((x >>= f) s)) := by
  rw [bind_apply]
  cases hresult : x s with
  | ok a t =>
    rw [hresult] at hx
    exact hx.append (hf a t)
  | error e t =>
    rw [hresult] at hx
    exact hx.mono (List.sublist_append_left _ _)

/-- Nothing was produced by what runs before. -/
theorem traced_quiet_bind {s : σ} (hx : Traced R tag [] s (stateAfter (x s)))
    (hf : ∀ a, Moves (Traced R tag tags) (f a)) :
    Traced R tag tags s (stateAfter ((x >>= f) s)) := traced_bind hx hf

/-- The traces of a sequence follow each other. -/
theorem Moves.append (hx : Moves (Traced R tag tags) x)
    (hf : ∀ a, Moves (Traced R tag tags') (f a)) :
    Moves (Traced R tag (tags ++ tags')) (x >>= f) := fun s => traced_bind (hx s) hf

/-- What leaves no trace may come first. -/
theorem Moves.quiet_bind (hx : Moves (Traced R tag []) x)
    (hf : ∀ a, Moves (Traced R tag tags) (f a)) : Moves (Traced R tag tags) (x >>= f) :=
  fun s => traced_quiet_bind (hx s) hf

/-- A computation may be allowed more tags. -/
theorem Moves.mono (hx : Moves (Traced R tag tags) x) (hsub : tags.Sublist tags') :
    Moves (Traced R tag tags') x := fun s => (hx s).mono hsub

end Exec

end CekyP2P
