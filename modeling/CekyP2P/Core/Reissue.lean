import Mathlib.Data.List.Basic

/-!
# Issuing items again

A log records when items are issued and when they are recalled. It is selective if no item
is issued while it is outstanding, that is, issued and not recalled since.
-/

namespace CekyP2P

/-- What a log records. -/
inductive IssueEvent (ι : Type)
  | issued (item : ι)
  | recalled (item : ι)
  deriving DecidableEq

/-- The items that were issued, in order. -/
def issues {ι : Type} (log : List (IssueEvent ι)) : List ι :=
  log.filterMap fun
    | .issued item => some item
    | .recalled _ => none

variable {ι : Type} {log : List (IssueEvent ι)} {i : ι}

/-- The item was issued, and not recalled since. -/
def Outstanding (log : List (IssueEvent ι)) (i : ι) : Prop :=
  ∃ before after, log = before ++ .issued i :: after ∧ .recalled i ∉ after

/-- No item is issued again without having been recalled. -/
def Selective (log : List (IssueEvent ι)) : Prop :=
  ∀ before after i, log = before ++ .issued i :: after → ¬Outstanding before i

/-- The items of two logs, one after the other. -/
theorem issues_append (log more : List (IssueEvent ι)) :
    issues (log ++ more) = issues log ++ issues more := List.filterMap_append

/-- Items that are issued together. -/
theorem issues_map_issued (items : List ι) : issues (items.map .issued) = items := by
  rw [issues, List.filterMap_map]
  exact List.filterMap_some

/-- A recall issues nothing. -/
theorem issues_map_recalled (items : List ι) : issues (items.map .recalled) = [] := by
  rw [issues, List.filterMap_map]
  exact List.filterMap_eq_nil_iff.mpr fun _ _ => rfl

/-- An outstanding item was issued. -/
theorem Outstanding.mem_issues (h : Outstanding log i) : i ∈ issues log := by
  obtain ⟨before, after, rfl, -⟩ := h
  rw [issues_append]
  exact List.mem_append_right _ List.mem_cons_self

/-- A log that issues no item twice is selective. -/
theorem selective_of_nodup (h : (issues log).Nodup) : Selective log := by
  rintro before after i rfl hout
  rw [issues_append] at h
  exact (List.nodup_append.mp h).2.2 i hout.mem_issues i List.mem_cons_self rfl

end CekyP2P
