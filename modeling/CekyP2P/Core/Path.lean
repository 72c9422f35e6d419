import Mathlib.Data.List.Basic

/-!
# Lexical paths

What a path names when `.` and `..` are resolved by looking at the text alone. The
result is a place: names below the root, or names below some number of steps up.
Entering a second path from a place is what joining the texts amounts to.
-/

namespace CekyP2P.LexicalPath

/-! ## Components -/

/-- A component of a path; empty components and `.` are dropped. -/
inductive Component
  | parentDir
  | normal (name : String)
  deriving DecidableEq

/-- Cut a text at its separators. -/
def segments : List Char → List (List Char)
  | [] => [[]]
  | c :: text =>
    if c = '/' then [] :: segments text
    else match segments text with
      | [] => [[c]]
      | first :: rest => (c :: first) :: rest

/-- What a segment of a path stands for. Empty segments and single dots stand for nothing. -/
def component : List Char → Option Component
  | [] => none
  | ['.'] => none
  | ['.', '.'] => some .parentDir
  | name => some (.normal (String.ofList name))

/-- The components of a path. -/
def components (text : List Char) : List Component := (segments text).filterMap component

/-- The path starts at the root. -/
def IsAbsolute (text : List Char) : Prop := text.head? = some '/'

instance (text : List Char) : Decidable (IsAbsolute text) :=
  inferInstanceAs (Decidable (text.head? = some '/'))

/-- What is appended to a path does not make it absolute. -/
theorem isAbsolute_append {base : List Char} (h : base ≠ []) (name : List Char) :
    IsAbsolute (base ++ name) ↔ IsAbsolute base := by
  obtain ⟨c, rest, rfl⟩ := List.exists_cons_of_ne_nil h
  rfl

/-- Every text has a segment. -/
theorem segments_ne_nil (text : List Char) : segments text ≠ [] := by
  cases text with
  | nil => exact List.cons_ne_nil _ _
  | cons c text =>
    rw [segments]
    split
    · exact List.cons_ne_nil _ _
    · split
      · exact List.cons_ne_nil _ _
      · exact List.cons_ne_nil _ _

/-- A separator ends a segment. -/
theorem segments_append_separator (base name : List Char) :
    segments (base ++ '/' :: name) = segments base ++ segments name := by
  induction base with
  | nil => simp [segments]
  | cons c base ih =>
    by_cases hc : c = '/'
    · simp [segments, hc, ih]
    · obtain ⟨first, rest, hbase⟩ := List.exists_cons_of_ne_nil (segments_ne_nil base)
      simp [segments, hc, ih, hbase]

/-- The components behind a separator follow those before it. -/
theorem components_append_separator (base name : List Char) :
    components (base ++ '/' :: name) = components base ++ components name := by
  rw [components, segments_append_separator, List.filterMap_append]
  rfl

/-- A separator at the end adds no component. -/
theorem components_concat_separator (base : List Char) :
    components (base ++ ['/']) = components base := by
  rw [components_append_separator]
  exact List.append_nil _

/-! ## Places -/

/-- Where a path leads: names below the root, or below `ups` steps up from the start. -/
inductive Place
  | absolute (names : List String)
  | relative (ups : Nat) (names : List String)
  deriving DecidableEq

namespace Place

/-- The names on the way to a place. -/
def names : Place → List String
  | absolute names => names
  | relative _ names => names

/-- One component further; the root is its own parent. -/
def step : Place → Component → Place
  | absolute names, .parentDir => absolute names.dropLast
  | absolute names, .normal name => absolute (names ++ [name])
  | relative ups names, .parentDir =>
    if names = [] then relative (ups + 1) [] else relative ups names.dropLast
  | relative ups names, .normal name => relative ups (names ++ [name])

/-- Some steps up. -/
def climb : Place → Nat → Place
  | absolute names, k => absolute (names.take (names.length - k))
  | relative ups names, k => relative (ups + (k - names.length)) (names.take (names.length - k))

/-- Some names down. -/
def descend : Place → List String → Place
  | absolute names, more => absolute (names ++ more)
  | relative ups names, more => relative ups (names ++ more)

/-- Follow a second path from a place. -/
def enter : Place → Place → Place
  | _, absolute names => absolute names
  | place, relative ups names => (place.climb ups).descend names

/-- The steps up stay below the start of a relative place. -/
def ClimbsWithin : Place → Nat → Prop
  | absolute _, _ => True
  | relative _ names, k => k ≤ names.length

/-- A name leads one level down. -/
theorem step_descend (place : Place) (names : List String) (name : String) :
    (place.descend names).step (.normal name) = place.descend (names ++ [name]) := by
  cases place <;> simp [descend, step]

/-- Two dots lead one level up, as long as there is one. -/
theorem step_descend_parent (place : Place) {names : List String} (h : names ≠ []) :
    (place.descend names).step .parentDir = place.descend names.dropLast := by
  cases place <;> simp [descend, step, h, List.dropLast_append_of_ne_nil h]

/-- No names lead nowhere. -/
@[simp] theorem descend_nil (place : Place) : place.descend [] = place := by
  cases place <;> simp [descend]

/-- Two dots above the start lead further up. -/
theorem step_climb (place : Place) (k : Nat) :
    (place.climb k).step .parentDir = place.climb (k + 1) := by
  have hdrop : ∀ names : List String,
      (names.take (names.length - k)).dropLast = names.take (names.length - (k + 1)) := by
    intro names
    rw [List.dropLast_eq_take, List.take_take, List.length_take]
    congr 1
    omega
  cases place with
  | absolute names => rw [climb, step, hdrop, climb]
  | relative ups names =>
    rw [climb, step]
    by_cases hk : k < names.length
    · have hne : names.take (names.length - k) ≠ [] := by
        rw [← List.length_pos_iff, List.length_take]
        omega
      rw [if_neg hne, hdrop, climb]
      congr 1
      omega
    · have hzero : names.length - k = 0 := by omega
      have hzero' : names.length - (k + 1) = 0 := by omega
      rw [hzero, List.take_zero, if_pos rfl, climb, hzero', List.take_zero]
      congr 1
      omega

/-- Entering commutes with following one more component. -/
theorem step_enter (place : Place) (ups : Nat) (names : List String) (c : Component) :
    (place.enter (relative ups names)).step c = place.enter ((relative ups names).step c) := by
  cases c with
  | normal name => exact step_descend _ names name
  | parentDir =>
    by_cases hnames : names = []
    · subst hnames
      change ((place.climb ups).descend []).step .parentDir = (place.climb (ups + 1)).descend []
      rw [descend_nil, descend_nil, step_climb]
    · rw [enter, step_descend_parent _ hnames, step, if_neg hnames, enter]

/-- A relative path may be followed by itself and entered afterwards. -/
theorem foldl_step_enter (place : Place) (ups : Nat) (names : List String)
    (path : List Component) :
    path.foldl step (place.enter (relative ups names)) =
      place.enter (path.foldl step (relative ups names)) := by
  induction path generalizing ups names with
  | nil => rfl
  | cons c path ih =>
    rw [List.foldl_cons, List.foldl_cons, step_enter]
    cases c with
    | normal name => exact ih ups (names ++ [name])
    | parentDir =>
      rw [step]
      split
      · exact ih (ups + 1) []
      · exact ih ups names.dropLast

/-- The start of a relative path is where it is entered. -/
theorem enter_start (place : Place) : place.enter (relative 0 []) = place := by
  cases place <;> simp [enter, climb, descend]

/-- From the root, one stays at or below the root. -/
theorem foldl_step_absolute (names : List String) (path : List Component) :
    ∃ names', path.foldl step (absolute names) = absolute names' := by
  induction path generalizing names with
  | nil => exact ⟨names, rfl⟩
  | cons c path ih =>
    cases c with
    | normal name => exact ih (names ++ [name])
    | parentDir => exact ih names.dropLast

/-- A relative path leads from a place to a child of it when it climbs no further than the
place allows and comes down again the same way, with one name more. -/
theorem enter_relative_eq_child_iff {place : Place} {ups : Nat} {names : List String}
    {name : String} : place.enter (relative ups names) = place.descend [name] ↔
      place.ClimbsWithin ups ∧
        names = place.names.drop (place.names.length - ups) ++ [name] := by
  have hsplit : ∀ all : List String, all.take (all.length - ups) ++ names = all ++ [name] ↔
      names = all.drop (all.length - ups) ++ [name] := by
    intro all
    conv_lhs => rw [← List.take_append_drop (all.length - ups) all, List.append_assoc]
    rw [List.take_append_drop, List.append_right_inj]
  cases place with
  | absolute all => simp [enter, climb, descend, ClimbsWithin, Place.names, hsplit]
  | relative base all =>
    simp only [enter, climb, descend, relative.injEq, ClimbsWithin, Place.names, hsplit]
    refine and_congr_left fun _ => ?_
    omega

end Place

/-! ## The place of a text -/

/-- Lexical normalisation. -/
def place (text : List Char) : Place :=
  (components text).foldl Place.step
    (if IsAbsolute text then .absolute [] else .relative 0 [])

/-- An absolute path has an absolute place. -/
theorem place_of_absolute {text : List Char} (h : IsAbsolute text) :
    ∃ names, place text = .absolute names := by
  rw [place, if_pos h]
  exact Place.foldl_step_absolute [] _

/-- A path whose components are those of a base followed by those of a relative name, and
which starts as the base does, leads where the name leads from the base. -/
theorem place_eq_enter {text base name : List Char}
    (hcomponents : components text = components base ++ components name)
    (habsolute : IsAbsolute text ↔ IsAbsolute base) (hname : ¬IsAbsolute name) :
    place text = (place base).enter (place name) := by
  rw [place, hcomponents, List.foldl_append, if_congr habsolute rfl rfl]
  rw [place.eq_1 name, if_neg hname, ← Place.foldl_step_enter, Place.enter_start]
  rfl

end CekyP2P.LexicalPath
