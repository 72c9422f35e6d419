import Mathlib.Data.List.Basic

/-!
# Methods on mutable state

A method that mutates its receiver and returns a `Result` is a program over
that state: an error value ends it with the mutations made so far, and so does a
panic. Range checks of slices and the length check of `copy_from_slice` are
explicit, so that a program panics in the model where it does in the source.
-/

namespace CekyP2P

/-- How a call ends when it does not return normally. -/
inductive Stop (ε : Type)
  /-- The method returns `Err(e)`. -/
  | error (e : ε)
  | panicked
  /-- The call waits for a lock that it holds itself. -/
  | blocked
  deriving DecidableEq

/-- A method over state `σ` with errors `ε`. -/
abbrev Exec (ε σ α : Type) := EStateM (Stop ε) σ α

namespace Exec

variable {ε σ α β : Type}

@[simp] theorem pure_apply (a : α) (s : σ) : (pure a : Exec ε σ α) s = .ok a s := rfl

/-- A sequence stops at its first error. -/
@[simp] theorem bind_apply (x : Exec ε σ α) (f : α → Exec ε σ β) (s : σ) :
    (x >>= f) s = match x s with
      | .ok a s => f a s
      | .error e s => .error e s := by
  change EStateM.bind x f s = _
  unfold EStateM.bind
  cases x s <;> rfl

/-- A function is applied to the value that is returned. -/
@[simp] theorem map_apply (f : α → β) (x : Exec ε σ α) (s : σ) :
    (f <$> x) s = match x s with
      | .ok a s => .ok (f a) s
      | .error e s => .error e s := by
  change EStateM.map f x s = _
  unfold EStateM.map
  cases x s <;> rfl

/-- A mapped computation returns what the computation returns. -/
theorem map_eq_ok {f : α → β} {x : Exec ε σ α} {s s' : σ} {b : β} :
    (f <$> x) s = .ok b s' ↔ ∃ a, x s = .ok a s' ∧ f a = b := by
  rw [map_apply]
  cases x s <;> simp [and_comm]

/-- A mapped computation fails as the computation does. -/
theorem map_eq_error {f : α → β} {x : Exec ε σ α} {s s' : σ} {e : Stop ε} :
    (f <$> x) s = .error e s' ↔ x s = .error e s' := by
  rw [map_apply]
  cases x s <;> simp

/-- A sequence returns if both parts do, one after the other. -/
theorem bind_eq_ok {x : Exec ε σ α} {f : α → Exec ε σ β} {s s' : σ} {b : β} :
    (x >>= f) s = .ok b s' ↔ ∃ a t, x s = .ok a t ∧ f a t = .ok b s' := by
  rw [bind_apply]
  cases x s <;> simp

@[simp] theorem throw_apply (e : Stop ε) (s : σ) : (throw e : Exec ε σ α) s = .error e s := rfl

/-- A program behind a failing check returns only if the check passes. -/
theorem ite_throw_eq_ok {c : Prop} [Decidable c] {e : Stop ε} {x : Exec ε σ α} {a : α} {s s' : σ} :
    (if c then throw e else x) s = .ok a s' ↔ ¬c ∧ x s = .ok a s' := by
  by_cases h : c <;> simp [h]

@[simp] theorem get_apply (s : σ) : (get : Exec ε σ σ) s = .ok s s := rfl

/-- The state is read and goes on unchanged. -/
theorem get_bind_apply (f : σ → Exec ε σ β) (s : σ) : (get >>= f) s = f s s := rfl

/-- A value is taken out of the state. -/
theorem modifyGet_bind_apply {g : σ → α × σ} {s t : σ} {a : α} (h : g s = (a, t))
    (f : α → Exec ε σ β) : (modifyGet g >>= f) s = f a t := by
  have hget : (modifyGet g : Exec ε σ α) s = .ok a t := by
    change (match g s with | (a, t) => EStateM.Result.ok a t) = _
    rw [h]
  rw [bind_apply, hget]

/-- The state is replaced. -/
theorem set_bind_apply (t : σ) (f : PUnit → Exec ε σ β) (s : σ) : (set t >>= f) s = f ⟨⟩ t := rfl

/-- The value of an optional result, or the given error. -/
def orError (e : ε) : Option α → Exec ε σ α
  | some a => pure a
  | none => throw (.error e)

@[simp] theorem orError_some (e : ε) (a : α) (s : σ) :
    (orError e (some a) : Exec ε σ α) s = .ok a s := rfl

@[simp] theorem orError_none (e : ε) (s : σ) :
    (orError e none : Exec ε σ α) s = .error (.error e) s := rfl

/-- A value that is there is returned, and the state is as it was. -/
theorem orError_eq_ok {e : ε} {o : Option α} {a : α} {s s' : σ} :
    (orError e o : Exec ε σ α) s = .ok a s' ↔ o = some a ∧ s = s' := by
  cases o <;> simp

/-- The value of a call that does not touch the state, or its failure (`?`). -/
def ofExcept : Except (Stop ε) α → Exec ε σ α
  | .ok a => pure a
  | .error e => throw e

@[simp] theorem ofExcept_ok (a : α) (s : σ) :
    (ofExcept (.ok a) : Exec ε σ α) s = .ok a s := rfl

@[simp] theorem ofExcept_error (e : Stop ε) (s : σ) :
    (ofExcept (.error e) : Exec ε σ α) s = .error e s := rfl

/-- A method called on a local value: its result and the changed value. -/
def call {τ ε' : Type} (x : Exec ε τ α) (t : τ) : Exec ε' σ (Except ε α × τ) :=
  match x t with
  | .ok a t => pure (.ok a, t)
  | .error (.error e) t => pure (.error e, t)
  | .error .panicked _ => throw .panicked
  | .error .blocked _ => throw .blocked

/-- The value of a call whose error value is dropped (`if let Ok`). -/
def okValue {ε' : Type} : Except (Stop ε) α → Exec ε' σ (Option α)
  | .ok a => pure (some a)
  | .error (.error _) => pure none
  | .error .panicked => throw .panicked
  | .error .blocked => throw .blocked

/-- The slice `l[start..stop]`. -/
def slice (l : List β) (start stop : Nat) : Exec ε σ (List β) :=
  if start ≤ stop ∧ stop ≤ l.length then pure ((l.take stop).drop start) else throw .panicked

/-- The element `l[i]`. -/
def index (l : List β) (i : Nat) : Exec ε σ β :=
  match l[i]? with
  | some b => pure b
  | none => throw .panicked

/-- An element that is there is returned. -/
theorem index_of_eq_some {l : List β} {i : Nat} {b : β} (h : l[i]? = some b) (s : σ) :
    (index l i : Exec ε σ β) s = .ok b s := by
  rw [index, h]
  rfl

/-- Indexing returns if there is an element. -/
theorem index_eq_ok {l : List β} {i : Nat} {b : β} {s s' : σ} :
    (index l i : Exec ε σ β) s = .ok b s' ↔ l[i]? = some b ∧ s = s' := by
  rw [index]
  cases l[i]? <;> simp

/-- Indexing within the bounds is total. -/
theorem index_of_lt {l : List β} {i : Nat} (h : i < l.length) :
    (index l i : Exec ε σ β) = pure l[i] := by
  rw [index, List.getElem?_eq_getElem h]

/-- `a - b`, which must not underflow. -/
def checkedSub (a b : Nat) : Exec ε σ Nat := if b ≤ a then pure (a - b) else throw .panicked

/-- A difference that is no underflow is returned. -/
theorem checkedSub_of_le {a b : Nat} (h : b ≤ a) (s : σ) :
    (checkedSub a b : Exec ε σ Nat) s = .ok (a - b) s := by
  rw [checkedSub, if_pos h]
  rfl

/-- `copy_from_slice` into an array of length `n`. -/
def copyFromSlice (n : Nat) (l : List β) : Exec ε σ (Vector β n) :=
  if h : l.length = n then pure ⟨l.toArray, by simpa using h⟩ else throw .panicked

/-- A slice within the bounds is total. -/
theorem slice_eq_pure {l : List β} {start stop : Nat} (h : start ≤ stop) (hl : stop ≤ l.length) :
    (slice l start stop : Exec ε σ (List β)) = pure ((l.take stop).drop start) :=
  if_pos ⟨h, hl⟩

/-- A slice within the bounds is returned. -/
theorem slice_of_le {l : List β} {start stop : Nat} (h : start ≤ stop) (hl : stop ≤ l.length)
    (s : σ) : (slice l start stop : Exec ε σ (List β)) s = .ok ((l.take stop).drop start) s := by
  rw [slice_eq_pure h hl]
  rfl

/-- A list of the length of an array is the list of one. -/
theorem exists_vector_of_length {n : Nat} {l : List β} (h : l.length = n) :
    ∃ v : Vector β n, l = v.toList :=
  ⟨⟨l.toArray, by simpa using h⟩, rfl⟩

/-- Bytes of the right length are copied. -/
theorem copyFromSlice_of_length {n : Nat} {l : List β} (h : l.length = n) (s : σ) :
    (copyFromSlice n l : Exec ε σ (Vector β n)) s = .ok ⟨l.toArray, by simpa using h⟩ s := by
  rw [copyFromSlice, dif_pos h]
  rfl

/-- An array is copied from its own bytes. -/
theorem copyFromSlice_toList {n : Nat} (v : Vector β n) (s : σ) :
    (copyFromSlice n v.toList : Exec ε σ (Vector β n)) s = .ok v s := by
  rw [copyFromSlice_of_length (by simp)]
  rfl

/-- A copy between different lengths panics. -/
theorem copyFromSlice_of_ne {n : Nat} {l : List β} (h : l.length ≠ n) (s : σ) :
    (copyFromSlice n l : Exec ε σ (Vector β n)) s = .error .panicked s := by
  rw [copyFromSlice, dif_neg h]
  rfl

/-- A copy that returns has copied all bytes. -/
theorem copyFromSlice_eq_ok {n : Nat} {l : List β} {v : Vector β n} {s s' : σ} :
    (copyFromSlice n l : Exec ε σ (Vector β n)) s = .ok v s' ↔ l = v.toList ∧ s = s' := by
  constructor
  · intro h
    rw [copyFromSlice] at h
    split at h
    · cases h
      exact ⟨rfl, rfl⟩
    · cases h
  · rintro ⟨rfl, rfl⟩
    exact copyFromSlice_toList v s

/-- The state a call leaves, however it ends. -/
def stateAfter : EStateM.Result (Stop ε) σ α → σ
  | .ok _ s => s
  | .error _ s => s

/-- The call ends normally. -/
def isOk : EStateM.Result (Stop ε) σ α → Bool
  | .ok _ _ => true
  | .error _ _ => false

/-- A computation without a value that succeeds is known by its state. -/
theorem eq_ok_of_isOk {result : EStateM.Result (Stop ε) σ Unit} (h : isOk result = true) :
    result = .ok () (stateAfter result) := by
  cases result with
  | ok a s => rfl
  | error e s => cases h

/-- A sequence succeeds if its parts do. -/
theorem isOk_bind {x : Exec ε σ α} {f : α → Exec ε σ β} {s : σ} (hx : isOk (x s) = true)
    (hf : ∀ a t, isOk (f a t) = true) : isOk ((x >>= f) s) = true := by
  rw [bind_apply]
  cases hresult : x s with
  | ok a t => exact hf a t
  | error e t =>
    rw [hresult] at hx
    cases hx

/-- The call returns a value or an error value. -/
def Returned : EStateM.Result (Stop ε) σ α → Prop
  | .ok _ _ => True
  | .error (.error _) _ => True
  | .error .panicked _ => False
  | .error .blocked _ => False

instance (result : EStateM.Result (Stop ε) σ α) : Decidable (Returned result) :=
  match result with
  | .ok _ _ | .error (.error _) _ => .isTrue trivial
  | .error .panicked _ | .error .blocked _ => .isFalse id

/-- Whether a call returns is not changed by mapping its value. -/
theorem returned_map (f : α → β) (x : Exec ε σ α) (s : σ) :
    Returned ((f <$> x) s) ↔ Returned (x s) := by
  rw [map_apply]
  cases x s with
  | ok a s' => rfl
  | error e s' => cases e <;> rfl

/-- Mapping the value keeps the state. -/
theorem stateAfter_map (f : α → β) (x : Exec ε σ α) (s : σ) :
    stateAfter ((f <$> x) s) = stateAfter (x s) := by
  rw [map_apply]
  cases x s <;> rfl

/-- Every call moves the state along a relation, however it ends. -/
def Moves (R : σ → σ → Prop) (x : Exec ε σ α) : Prop := ∀ s, R s (stateAfter (x s))

section Moves

variable {R : σ → σ → Prop} {x : Exec ε σ α} {f : α → Exec ε σ β}

/-- Returning a value moves nothing. -/
theorem moves_pure [Std.Refl R] (a : α) : Moves R (pure a : Exec ε σ α) :=
  fun s => Std.Refl.refl s

/-- An error moves nothing. -/
theorem moves_throw [Std.Refl R] (e : Stop ε) : Moves R (throw e : Exec ε σ α) :=
  fun s => Std.Refl.refl s

/-- A change of the state moves it as the change does. -/
theorem moves_modify {g : σ → σ} (h : ∀ s, R s (g s)) : Moves R (modify g : Exec ε σ PUnit) := h

/-- A first call that moves one state along, before a program that moves every state. -/
theorem stateAfter_bind_of_moves [IsTrans σ R] {s : σ} (hx : R s (stateAfter (x s)))
    (hf : ∀ a, Moves R (f a)) : R s (stateAfter ((x >>= f) s)) := by
  rw [bind_apply]
  cases hresult : x s with
  | ok a t =>
    rw [hresult] at hx
    exact IsTrans.trans _ _ _ hx (hf a t)
  | error e t =>
    rw [hresult] at hx
    exact hx

/-- A sequence moves as its parts do. -/
theorem Moves.bind [IsTrans σ R] (hx : Moves R x) (hf : ∀ a, Moves R (f a)) :
    Moves R (x >>= f) := fun s => stateAfter_bind_of_moves (hx s) hf

/-- What follows may look at the state. -/
theorem moves_get_bind {f : σ → Exec ε σ β} (h : ∀ s, R s (stateAfter (f s s))) :
    Moves R (get >>= f) := by
  intro s
  rw [get_bind_apply]
  exact h s

/-- A call on another state moves nothing here. -/
theorem moves_call [Std.Refl R] {τ ε' : Type} (x : Exec ε τ α) (t : τ) :
    Moves R (call x t : Exec ε' σ _) := by
  intro s
  rw [call]
  cases x t with
  | ok a t => exact Std.Refl.refl s
  | error e t => cases e <;> exact Std.Refl.refl s

/-- Looking at a result moves nothing. -/
theorem moves_okValue [Std.Refl R] {ε' : Type} (result : Except (Stop ε) α) :
    Moves R (okValue result : Exec ε' σ _) := by
  cases result with
  | ok a => exact moves_pure _
  | error e =>
    cases e with
    | error e => exact moves_pure _
    | panicked => exact moves_throw _
    | blocked => exact moves_throw _

end Moves

end Exec

section

variable {σ κ : Type}

/-- A property of the state and the call, at every call of a run. -/
def Along (P : σ → κ → Prop) (next : σ → κ → σ) : σ → List κ → Prop
  | _, [] => True
  | s, call :: calls => P s call ∧ Along P next (next s call) calls

instance Along.decidable {P : σ → κ → Prop} [∀ s call, Decidable (P s call)] (next : σ → κ → σ) :
    ∀ s calls, Decidable (Along P next s calls)
  | _, [] => .isTrue trivial
  | s, call :: calls =>
    have := Along.decidable (P := P) next (next s call) calls
    inferInstanceAs (Decidable (_ ∧ _))

/-- Properties that agree at every step agree along every run. The invariant may speak of the
calls to come. -/
theorem along_congr_of {I : σ → List κ → Prop} {P Q : σ → κ → Prop} {next : σ → κ → σ}
    (hI : ∀ s call calls, I s (call :: calls) → I (next s call) calls)
    (hstep : ∀ s call calls, I s (call :: calls) → (P s call ↔ Q s call)) {s : σ} {calls : List κ}
    (hs : I s calls) : Along P next s calls ↔ Along Q next s calls := by
  induction calls generalizing s with
  | nil => rfl
  | cons call calls ih => exact and_congr (hstep s call calls hs) (ih (hI s call calls hs))

/-- Properties that agree at every step agree along every run. -/
theorem along_congr {P Q : σ → κ → Prop} (next : σ → κ → σ) (hstep : ∀ s call, P s call ↔ Q s call)
    (s : σ) (calls : List κ) : Along P next s calls ↔ Along Q next s calls :=
  along_congr_of (I := fun _ _ => True) (fun _ _ _ _ => trivial) (fun s call _ _ => hstep s call)
    trivial

/-- A property of a part of the state, along the runs of that part. -/
theorem along_part {τ : Type} {P : σ → κ → Prop} {next : σ → κ → σ} {next' : τ → κ → τ}
    (part : τ → σ) (hpart : ∀ t call, part (next' t call) = next (part t) call) (t : τ)
    (calls : List κ) :
    Along (fun t => P (part t)) next' t calls ↔ Along P next (part t) calls := by
  induction calls generalizing t with
  | nil => rfl
  | cons call calls ih => rw [Along, Along, ih, hpart]

/-- A run in two parts has a property if both parts have it. -/
theorem along_append {P : σ → κ → Prop} {next : σ → κ → σ} {s : σ} {first rest : List κ} :
    Along P next s (first ++ rest) ↔
      Along P next s first ∧ Along P next (first.foldl next s) rest := by
  induction first generalizing s with
  | nil => exact (iff_of_eq (true_and _)).symm
  | cons call first ih => rw [List.cons_append, Along, Along, ih, and_assoc, List.foldl_cons]

/-- What every call that meets a condition keeps holds at the end of a run of such calls. -/
theorem Along.invariant {I : σ → Prop} {Q : σ → κ → Prop} {next : σ → κ → σ}
    (hstep : ∀ s call, I s → Q s call → I (next s call)) {s : σ} {calls : List κ}
    (h : Along Q next s calls) (hs : I s) : I (calls.foldl next s) := by
  induction calls generalizing s with
  | nil => exact hs
  | cons call calls ih => exact ih h.2 (hstep s call hs h.1)

/-- Under an invariant, a condition on the calls of a run turns into another one. -/
theorem Along.imp {I : σ → Prop} {P Q : σ → κ → Prop} {next : σ → κ → σ}
    (hstep : ∀ s call, I s → Q s call → I (next s call))
    (himp : ∀ s call, I s → Q s call → P s call) {s : σ} {calls : List κ}
    (h : Along Q next s calls) (hs : I s) : Along P next s calls := by
  induction calls generalizing s with
  | nil => trivial
  | cons call calls ih => exact ⟨himp s call hs h.1, ih h.2 (hstep s call hs h.1)⟩

/-- A property holds in every state of a run just if every call has what it takes to keep it. The
invariant may speak of the calls to come. -/
theorem forall_prefix_iff_along_of {I : σ → List κ → Prop} {P : σ → Prop} {Q : σ → κ → Prop}
    {next : σ → κ → σ} (hI : ∀ s call calls, I s (call :: calls) → I (next s call) calls)
    (hstep : ∀ s call calls, I s (call :: calls) → P s → (P (next s call) ↔ Q s call)) {s : σ}
    {calls : List κ} (hs : I s calls) (hp : P s) :
    (∀ taken, taken <+: calls → P (taken.foldl next s)) ↔ Along Q next s calls := by
  induction calls generalizing s with
  | nil =>
    refine ⟨fun _ => trivial, fun _ taken htaken => ?_⟩
    rw [List.prefix_nil.mp htaken]
    exact hp
  | cons call calls ih =>
    have hkept : (∀ taken, taken <+: call :: calls → P (taken.foldl next s)) ↔
        P (next s call) ∧ ∀ taken, taken <+: calls → P (taken.foldl next (next s call)) := by
      constructor
      · intro h
        refine ⟨h [call] (List.prefix_append [call] calls), fun taken htaken => ?_⟩
        exact h (call :: taken) (List.cons_prefix_cons.mpr ⟨rfl, htaken⟩)
      · rintro ⟨-, h⟩ taken htaken
        rcases List.prefix_cons_iff.mp htaken with rfl | ⟨rest, rfl, hrest⟩
        · exact hp
        · exact h rest hrest
    rw [hkept, Along]
    constructor
    · rintro ⟨hnext, hrest⟩
      exact ⟨(hstep s call calls hs hp).mp hnext, (ih (hI s call calls hs) hnext).mp hrest⟩
    · rintro ⟨hcall, hrest⟩
      have hnext := (hstep s call calls hs hp).mpr hcall
      exact ⟨hnext, (ih (hI s call calls hs) hnext).mpr hrest⟩

/-- A property of all states of a run, as a condition on each of its steps. -/
theorem forall_prefix_iff_along {I P : σ → Prop} {Q : σ → κ → Prop} {next : σ → κ → σ}
    (hI : ∀ s call, I s → I (next s call))
    (hstep : ∀ s call, I s → P s → (P (next s call) ↔ Q s call)) {s : σ} (hs : I s) (hp : P s)
    (calls : List κ) :
    (∀ taken, taken <+: calls → P (taken.foldl next s)) ↔ Along Q next s calls :=
  forall_prefix_iff_along_of (I := fun s _ => I s) (fun s call _ => hI s call)
    (fun s call _ => hstep s call) hs hp

end

end CekyP2P
