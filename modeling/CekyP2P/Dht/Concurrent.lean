import CekyP2P.Dht.Removal

/-!
# The store under concurrency

Every operation is cut into the steps that others can come between. A `put` caches its
entry and queues it afterwards. A garbage collection pass evicts key by key from the cache
while its transaction is open; until it commits, no other transaction can begin.
-/

namespace CekyP2P.Dht

/-- A `put` that has cached its entry and not queued it. -/
structure PendingPut where
  id : Nat
  entry : StoredEntry
  deriving DecidableEq

/-- A pass with its transaction open: the rows it has found, and those of them whose keys
are still to be evicted from the cache. -/
structure Collection where
  rows : List (UInt64 × Key)
  left : List (UInt64 × Key)

/-- The store with its tasks, between their atomic steps. -/
structure Concurrent extends Runtime where
  nextPut : Nat
  puts : List PendingPut
  collecting : Option Collection

/-- A step that nothing can come between; tasks are picked by their position. -/
inductive AtomicStep
  /-- A `put` starts and caches its entry. -/
  | insert (entry : StoredEntry)
  /-- A `put` queues its entry and returns. -/
  | enqueue (task : Nat)
  | remove (key : Key)
  | delete (task : Nat)
  | commit (n : Nat)
  /-- A garbage collection pass opens its transaction and finds the rows that are due. -/
  | collect
  | evict
  | finishCollect
  | tick (now : UInt64)
  | lookup (key : Key)
  | read (task : Nat)
  | fill (task : Nat)

namespace Concurrent

/-- The steps that begin a transaction wait for the one that is open. -/
def step (c : Concurrent) : AtomicStep → Concurrent
  | .insert entry =>
    { c with
      store := c.store.fill entry.key entry
      nextPut := c.nextPut + 1
      puts := c.puts ++ [⟨c.nextPut, entry⟩] }
  | .enqueue task =>
    match c.puts[task]? with
    | some p => { c with store := c.store.enqueue p.entry, puts := c.puts.eraseIdx task }
    | none => c
  | .remove key => { c with toRuntime := c.toRuntime.step (.remove key) }
  | .delete task =>
    match c.collecting with
    | some _ => c
    | none => { c with toRuntime := c.toRuntime.step (.delete task) }
  | .commit n =>
    match c.collecting with
    | some _ => c
    | none => { c with toRuntime := c.toRuntime.step (.commit n) }
  | .collect =>
    match c.collecting with
    | some _ => c
    | none => { c with collecting := some ⟨c.store.dueRows c.clock, c.store.dueRows c.clock⟩ }
  | .evict =>
    match c.collecting with
    | some ⟨rows, row :: left⟩ =>
      { c with store := c.store.remove row.2, collecting := some ⟨rows, left⟩ }
    | _ => c
  | .finishCollect =>
    match c.collecting with
    | some ⟨rows, []⟩ =>
      { c with store := rows.foldl PersistentStore.deleteDue c.store, collecting := none }
    | _ => c
  | .tick now => { c with toRuntime := c.toRuntime.step (.tick now) }
  | .lookup key => { c with toRuntime := c.toRuntime.step (.lookup key) }
  | .read task => { c with toRuntime := c.toRuntime.step (.read task) }
  | .fill task => { c with toRuntime := c.toRuntime.step (.fill task) }

/-- Several steps, one after the other. -/
def run (c : Concurrent) (steps : List AtomicStep) : Concurrent := steps.foldl step c

/-- A store opened over the tables of a database, with nothing under way. -/
def opened (dhtData : Key → Option (List UInt8)) (expireIndex : List (UInt64 × Key))
    (clock : UInt64) : Concurrent :=
  ⟨.opened dhtData expireIndex clock, 0, [], none⟩

/-- The last step of a run. -/
theorem run_concat (c : Concurrent) (steps : List AtomicStep) (last : AtomicStep) :
    c.run (steps ++ [last]) = (c.run steps).step last :=
  List.foldl_concat ..

/-- A run in two parts. -/
theorem run_append (c : Concurrent) (steps rest : List AtomicStep) :
    c.run (steps ++ rest) = (c.run steps).run rest :=
  List.foldl_append ..

/-! ## Operations without interruption -/

/-- A pass may clear the cache first and the tables in one transaction behind it. -/
theorem foldl_evict_eq (rows : List (UInt64 × Key)) (s : PersistentStore) :
    rows.foldl PersistentStore.evict s =
      rows.foldl PersistentStore.deleteDue (rows.foldl (fun s row => s.remove row.2) s) := by
  have hcomm : ∀ (rows : List (UInt64 × Key)) (s : PersistentStore) (row : UInt64 × Key),
      rows.foldl (fun s row => s.remove row.2) (s.deleteDue row) =
        (rows.foldl (fun s row => s.remove row.2) s).deleteDue row := by
    intro rows
    induction rows with
    | nil => exact fun s row => rfl
    | cons first rows ih => exact fun s row => ih (s.remove first.2) row
  induction rows generalizing s with
  | nil => rfl
  | cons row rows ih =>
    rw [List.foldl_cons, List.foldl_cons, List.foldl_cons, ← hcomm]
    exact ih _

/-- A pass is under way. -/
def withCollection (c : Concurrent) (rows left : List (UInt64 × Key)) : Concurrent :=
  { c with collecting := some ⟨rows, left⟩ }

/-- The cache is cleared row by row. -/
theorem run_evict (rows left : List (UInt64 × Key)) (c : Concurrent) :
    (c.withCollection rows left).run (List.replicate left.length .evict) =
      ({ c with store := left.foldl (fun s row => s.remove row.2) c.store } :
        Concurrent).withCollection rows [] := by
  induction left generalizing c with
  | nil => rfl
  | cons row left ih => exact ih { c with store := c.store.remove row.2 }

/-- A step of the runtime in atomic steps. -/
def atomicSteps (w : Runtime) : Action → List AtomicStep
  | .put entry => [.insert entry, .enqueue 0]
  | .remove key => [.remove key]
  | .delete task => [.delete task]
  | .commit n => [.commit n]
  | .gc => .collect :: (List.replicate (w.store.dueRows w.clock).length .evict ++
      [.finishCollect])
  | .tick now => [.tick now]
  | .lookup key => [.lookup key]
  | .read task => [.read task]
  | .fill task => [.fill task]

/-- No `put` and no pass is under way. -/
def Idle (c : Concurrent) : Prop := c.puts = [] ∧ c.collecting = none

/-- A pass without interruption is the pass of the model. -/
theorem run_gc {c : Concurrent} (hidle : c.collecting = none) :
    c.run (atomicSteps c.toRuntime .gc) = { c with store := c.store.gc c.clock } := by
  have hcollect : c.step .collect =
      c.withCollection (c.store.dueRows c.clock) (c.store.dueRows c.clock) := by
    rw [step, hidle]
    rfl
  have hevict := run_evict (c.store.dueRows c.clock) (c.store.dueRows c.clock) c
  rw [atomicSteps, ← List.cons_append, run_concat, run, List.foldl_cons, hcollect, ← run, hevict,
    PersistentStore.gc, foldl_evict_eq, hidle]
  rfl

/-- What the runtime does in one step, the atomic steps do when nothing comes between. -/
theorem run_atomicSteps {c : Concurrent} (hidle : c.Idle) (action : Action) :
    (c.run (atomicSteps c.toRuntime action)).toRuntime = c.toRuntime.step action ∧
      (c.run (atomicSteps c.toRuntime action)).Idle := by
  obtain ⟨hputs, hcollecting⟩ := hidle
  cases action with
  | put entry =>
    have hstep : c.run (atomicSteps c.toRuntime (.put entry)) =
        { c with store := c.store.put entry, nextPut := c.nextPut + 1 } := by
      simp only [atomicSteps, run, List.foldl_cons, List.foldl_nil, step, hputs]
      rfl
    rw [hstep]
    exact ⟨rfl, hputs, hcollecting⟩
  | gc =>
    rw [run_gc hcollecting]
    exact ⟨rfl, hputs, hcollecting⟩
  | delete task | commit n =>
    simp [atomicSteps, run, step, Idle, hputs, hcollecting]
  | remove key | tick now | lookup key | read task | fill task =>
    exact ⟨rfl, hputs, hcollecting⟩

/-- Every run of the runtime is a run in atomic steps. -/
theorem exists_run_toRuntime_eq (dhtData : Key → Option (List UInt8))
    (expireIndex : List (UInt64 × Key)) (clock : UInt64) (actions : List Action) :
    ∃ steps, ((opened dhtData expireIndex clock).run steps).toRuntime =
        (Runtime.opened dhtData expireIndex clock).run actions ∧
      ((opened dhtData expireIndex clock).run steps).Idle := by
  induction actions using List.reverseRecOn with
  | nil => exact ⟨[], rfl, rfl, rfl⟩
  | append_singleton actions last ih =>
    obtain ⟨steps, hruntime, hidle⟩ := ih
    obtain ⟨hstep, hnext⟩ := run_atomicSteps hidle last
    refine ⟨steps ++ atomicSteps ((opened dhtData expireIndex clock).run steps).toRuntime last,
      ?_, ?_⟩
    · rw [run_append, hstep, hruntime, Runtime.run_concat]
    · rw [run_append]
      exact hnext

/-! ## Copies of entries -/

/-- Every entry in the store, held by a read or about to be queued has the property. -/
structure Holds (c : Concurrent) (P : Key → StoredEntry → Prop) : Prop where
  runtime : c.toRuntime.Holds P
  pending : ∀ p ∈ c.puts, P p.entry.key p.entry

namespace Holds

variable {c : Concurrent} {P : Key → StoredEntry → Prop}

/-- A weaker property holds as well. -/
theorem mono (h : c.Holds P) {Q : Key → StoredEntry → Prop}
    (hle : ∀ key entry, P key entry → Q key entry) : c.Holds Q where
  runtime := h.runtime.mono hle
  pending := fun p hp => hle p.entry.key p.entry (h.pending p hp)

/-- A put brings its entry into the cache. -/
theorem insert (h : c.Holds P) {entry : StoredEntry} (hentry : P entry.key entry) :
    (c.step (.insert entry)).Holds P where
  runtime := ⟨h.runtime.store.fill hentry, h.runtime.held⟩
  pending := List.forall_mem_append.mpr ⟨h.pending, List.forall_mem_singleton.mpr hentry⟩

/-- A put sends its entry to the writer. -/
theorem enqueue (h : c.Holds P) (task : Nat) : (c.step (.enqueue task)).Holds P := by
  rw [Concurrent.step]
  split
  case h_1 p hp =>
    have hentry : P p.entry.key p.entry := h.pending p (List.mem_of_getElem? hp)
    exact ⟨⟨h.runtime.store.enqueue hentry, h.runtime.held⟩,
      fun q hq => h.pending q (List.mem_of_mem_eraseIdx hq)⟩
  case h_2 => exact h

/-- What a step does to the entries does not depend on whether it has to wait. -/
theorem step (h : c.Holds P) (htruncated : ∀ key entry, P key entry → P key entry.truncated)
    {action : AtomicStep} (hput : ∀ entry, action = .insert entry → P entry.key entry) :
    (c.step action).Holds P := by
  have hruntime : ∀ action, (∀ entry, action ≠ .put entry) →
      (c.toRuntime.step action).Holds P := fun action hne =>
    h.runtime.step htruncated fun entry heq => absurd heq (hne entry)
  cases action with
  | insert entry => exact h.insert (hput entry rfl)
  | enqueue task => exact h.enqueue task
  | remove key => exact ⟨hruntime (.remove key) nofun, h.pending⟩
  | delete task =>
    rw [Concurrent.step]
    split
    · exact h
    · exact ⟨hruntime (.delete task) nofun, h.pending⟩
  | commit n =>
    rw [Concurrent.step]
    split
    · exact h
    · exact ⟨hruntime (.commit n) nofun, h.pending⟩
  | collect =>
    rw [Concurrent.step]
    split
    · exact h
    · exact ⟨h.runtime, h.pending⟩
  | evict =>
    rw [Concurrent.step]
    split
    case h_1 row _ _ => exact ⟨⟨h.runtime.store.remove row.2, h.runtime.held⟩, h.pending⟩
    case h_2 => exact h
  | finishCollect =>
    rw [Concurrent.step]
    split
    case h_1 rows _ =>
      exact ⟨⟨h.runtime.store.foldl_deleteDue rows, h.runtime.held⟩, h.pending⟩
    case h_2 => exact h
  | tick now => exact ⟨hruntime (.tick now) nofun, h.pending⟩
  | lookup key => exact ⟨hruntime (.lookup key) nofun, h.pending⟩
  | read task => exact ⟨hruntime (.read task) nofun, h.pending⟩
  | fill task => exact ⟨hruntime (.fill task) nofun, h.pending⟩

end Holds

/-! ## Reads -/

/-- The step is the expiry check of a `get` on an entry: of the cached one when the `get`
starts, or of the row it reads. -/
def ChecksExpiry (c : Concurrent) (action : AtomicStep) (id : Nat) (key : Key)
    (entry : StoredEntry) : Prop :=
  (action = .lookup key ∧ id = c.nextGet ∧ c.store.hotCache key = some entry) ∨
    ∃ task row, action = .read task ∧ c.gets[task]? = some ⟨id, key, .read⟩ ∧
      c.store.dhtData key = some row ∧ StoredEntry.decode row = .ok entry

/-- What the steps of a `get` do. -/
inductive GetStep (c : Concurrent) : AtomicStep → Concurrent → Prop
  | hit {key : Key} {entry : StoredEntry} (hcached : c.store.hotCache key = some entry) :
      GetStep c (.lookup key)
        { c with
          nextGet := c.nextGet + 1
          finished := c.finished ++
            [⟨c.nextGet, key, if entry.IsExpired c.clock then none else some entry⟩] }
  | miss {key : Key} (hcached : c.store.hotCache key = none) :
      GetStep c (.lookup key)
        { c with nextGet := c.nextGet + 1, gets := c.gets ++ [⟨c.nextGet, key, .read⟩] }
  | found {task id : Nat} {key : Key} {entry : StoredEntry}
      (hget : c.gets[task]? = some ⟨id, key, .read⟩)
      (hread : c.store.readDb c.clock key = some entry) :
      GetStep c (.read task) { c with gets := c.gets.set task ⟨id, key, .fill entry⟩ }
  | absent {task id : Nat} {key : Key} (hget : c.gets[task]? = some ⟨id, key, .read⟩) :
      GetStep c (.read task)
        { c with
          gets := c.gets.eraseIdx task
          finished := c.finished ++ [⟨id, key, none⟩] }
  | filled {task id : Nat} {key : Key} {entry : StoredEntry}
      (hget : c.gets[task]? = some ⟨id, key, .fill entry⟩) :
      GetStep c (.fill task)
        { c with
          store := c.store.fill key entry
          gets := c.gets.eraseIdx task
          finished := c.finished ++ [⟨id, key, some entry⟩] }
  | noTask {action : AtomicStep} : GetStep c action c

/-- All but the cache and the reads is the same. -/
structure SameOutside (c next : Concurrent) : Prop where
  clock : next.clock = c.clock
  puts : next.puts = c.puts
  dhtData : next.store.dhtData = c.store.dhtData
  writeQueue : next.store.writeQueue = c.store.writeQueue

/-- A step of a get leaves the rest alone. -/
theorem GetStep.same {c next : Concurrent} {action : AtomicStep} (h : c.GetStep action next) :
    c.SameOutside next := by
  cases h with
  | hit | miss | found | absent | filled | noTask => exact ⟨rfl, rfl, rfl, rfl⟩

/-- Gets are numbered upwards. -/
theorem GetStep.nextGet_le {c next : Concurrent} {action : AtomicStep}
    (h : c.GetStep action next) : c.nextGet ≤ next.nextGet := by
  cases h with
  | hit | miss => exact Nat.le_succ _
  | found | absent | filled | noTask => exact Nat.le_refl _

section

variable (c : Concurrent)

/-- The first step of a get. -/
theorem getStep_lookup (key : Key) : c.GetStep (.lookup key) (c.step (.lookup key)) := by
  simp only [step, Runtime.step]
  split
  case h_1 entry hcached => exact .hit hcached
  case h_2 hcached => exact .miss hcached

/-- The cold lookup of a get. -/
theorem getStep_read (task : Nat) : c.GetStep (.read task) (c.step (.read task)) := by
  simp only [step, Runtime.step]
  split
  case h_1 id key hget =>
    split
    case h_1 entry hread => exact .found hget hread
    case h_2 => exact .absent hget
  case h_2 => exact .noTask

/-- The last step of a get that has read. -/
theorem getStep_fill (task : Nat) : c.GetStep (.fill task) (c.step (.fill task)) := by
  simp only [step, Runtime.step]
  split
  case h_1 id key entry hget => exact .filled hget
  case h_2 => exact .noTask

/-- All other steps leave the reads alone. -/
theorem getStep_or_same (action : AtomicStep) : c.GetStep action (c.step action) ∨
    ((c.step action).gets = c.gets ∧ (c.step action).finished = c.finished ∧
      (c.step action).nextGet = c.nextGet) := by
  cases action with
  | lookup key => exact .inl (c.getStep_lookup key)
  | read task => exact .inl (c.getStep_read task)
  | fill task => exact .inl (c.getStep_fill task)
  | insert entry | remove key | tick now => exact .inr ⟨rfl, rfl, rfl⟩
  | enqueue task | commit n | collect | evict | finishCollect =>
    refine .inr ?_
    rw [step]
    split
    · exact ⟨rfl, rfl, rfl⟩
    · exact ⟨rfl, rfl, rfl⟩
  | delete task =>
    refine .inr ?_
    simp only [step, Runtime.step]
    split
    · exact ⟨rfl, rfl, rfl⟩
    · split
      · exact ⟨rfl, rfl, rfl⟩
      · exact ⟨rfl, rfl, rfl⟩

end

/-! ## Only what was put -/

/-- In the course of the steps a `get` has checked the entry, and it had not expired. -/
def Checked (start : Concurrent) (steps : List AtomicStep) (id : Nat) (key : Key)
    (entry : StoredEntry) : Prop :=
  ∃ before check after, steps = before ++ check :: after ∧
    (start.run before).ChecksExpiry check id key entry ∧
    ¬entry.IsExpired (start.run before).clock

variable {start : Concurrent} {steps : List AtomicStep}

/-- A check stays made. -/
theorem Checked.concat {id : Nat} {key : Key} {entry : StoredEntry}
    (h : start.Checked steps id key entry) (last : AtomicStep) :
    start.Checked (steps ++ [last]) id key entry := by
  obtain ⟨before, check, after, rfl, hcheck, hlive⟩ := h
  refine ⟨before, check, after ++ [last], ?_, hcheck, hlive⟩
  rw [List.append_assoc, List.cons_append]

/-- The entries that the reads hold and have returned were checked. -/
structure ReadsChecked (start : Concurrent) (steps : List AtomicStep) (c : Concurrent) :
    Prop where
  held : ∀ g ∈ c.gets, ∀ entry, g.phase = .fill entry → start.Checked steps g.id g.key entry
  returned : ∀ g ∈ c.finished, ∀ entry, g.result = some entry →
    start.Checked steps g.id g.key entry

namespace ReadsChecked

variable {c : Concurrent}

/-- What was read and checked stays so. -/
theorem concat (h : start.ReadsChecked steps c) (last : AtomicStep) :
    start.ReadsChecked (steps ++ [last]) c where
  held := fun g hg entry hphase => (h.held g hg entry hphase).concat last
  returned := fun g hg entry hresult => (h.returned g hg entry hresult).concat last

/-- One more `get` has returned. -/
theorem finish (h : start.ReadsChecked steps c) {g : FinishedGet}
    (hg : ∀ entry, g.result = some entry → start.Checked steps g.id g.key entry) :
    ∀ f ∈ c.finished ++ [g], ∀ entry, f.result = some entry →
      start.Checked steps f.id f.key entry :=
  List.forall_mem_append.mpr ⟨h.returned, List.forall_mem_singleton.mpr hg⟩

/-- Entries come to the reads through the check of the step itself. -/
theorem getStep {last : AtomicStep} (h : start.ReadsChecked steps (start.run steps))
    (hstep : (start.run steps).GetStep last c) : start.ReadsChecked (steps ++ [last]) c := by
  have hnow : ∀ {id key entry}, (start.run steps).ChecksExpiry last id key entry →
      ¬entry.IsExpired (start.run steps).clock →
      start.Checked (steps ++ [last]) id key entry :=
    fun hcheck hlive => ⟨steps, last, [], rfl, hcheck, hlive⟩
  replace h := h.concat last
  cases hstep with
  | hit hcached =>
    refine ⟨h.held, h.finish ?_⟩
    intro entry hresult
    obtain ⟨hlive, heq⟩ := Option.ite_none_left_eq_some.mp hresult
    cases heq
    exact hnow (.inl ⟨rfl, rfl, hcached⟩) hlive
  | miss =>
    refine ⟨List.forall_mem_append.mpr ⟨h.held, List.forall_mem_singleton.mpr ?_⟩, h.returned⟩
    rintro entry ⟨⟩
  | found hget hread =>
    obtain ⟨row, hrow, hdecode, hlive⟩ := PersistentStore.readDb_eq_some.mp hread
    refine ⟨fun g hg => ?_, h.returned⟩
    rcases List.mem_or_eq_of_mem_set hg with hold | rfl
    · exact h.held g hold
    · rintro entry ⟨⟩
      exact hnow (.inr ⟨_, row, rfl, hget, hrow, hdecode⟩) hlive
  | absent hget =>
    refine ⟨fun g hg => h.held g (List.mem_of_mem_eraseIdx hg), h.finish ?_⟩
    rintro entry ⟨⟩
  | filled hget =>
    refine ⟨fun g hg => h.held g (List.mem_of_mem_eraseIdx hg), h.finish ?_⟩
    rintro entry ⟨⟩
    exact h.held _ (List.mem_of_getElem? hget) _ rfl
  | noTask => exact h

/-- Every step keeps what is read checked. -/
theorem step (h : start.ReadsChecked steps (start.run steps)) (last : AtomicStep) :
    start.ReadsChecked (steps ++ [last]) ((start.run steps).step last) := by
  rcases (start.run steps).getStep_or_same last with hstep | ⟨hgets, hfinished, -⟩
  · exact h.getStep hstep
  · refine ⟨?_, ?_⟩
    · rw [hgets]
      exact (h.concat last).held
    · rw [hfinished]
      exact (h.concat last).returned

end ReadsChecked

section

variable (dhtData : Key → Option (List UInt8)) (expireIndex : List (UInt64 × Key))
  (clock : UInt64)

/-- In every run, what a get has read was checked. -/
theorem readsChecked_run (steps : List AtomicStep) :
    (opened dhtData expireIndex clock).ReadsChecked steps
      ((opened dhtData expireIndex clock).run steps) := by
  induction steps using List.reverseRecOn with
  | nil => exact ⟨nofun, nofun⟩
  | append_singleton steps last ih =>
    rw [run_concat]
    exact ih.step last

/-- The database was written by earlier runs: each row is an entry put by one of them, under
its own key. -/
def WrittenBefore (earlier : List StoredEntry) : Prop :=
  ∀ key row, dhtData key = some row →
    ∃ entry ∈ earlier, entry.key = key ∧ entry.value.length < 2 ^ 32 ∧ row = entry.encode

/-- The entry was put, before the store was opened or since, and is short enough to be kept
whole. -/
def WasPut (earlier : List StoredEntry) (steps : List AtomicStep) (key : Key)
    (entry : StoredEntry) : Prop :=
  entry.key = key ∧ entry.value.length < 2 ^ 32 ∧ (entry ∈ earlier ∨ .insert entry ∈ steps)

/-- Every entry in the store was put, or was in the database before. -/
theorem holds_wasPut {earlier : List StoredEntry} (hdb : WrittenBefore dhtData earlier)
    {steps : List AtomicStep}
    (hshort : ∀ entry, .insert entry ∈ steps → entry.value.length < 2 ^ 32) :
    ((opened dhtData expireIndex clock).run steps).Holds (WasPut earlier steps) := by
  induction steps using List.reverseRecOn with
  | nil =>
    refine ⟨⟨⟨nofun, nofun, ?_⟩, nofun⟩, nofun⟩
    intro key row entry hrow hdecode
    obtain ⟨put, hput, hkey, hlength, rfl⟩ := hdb key row hrow
    rw [StoredEntry.decode_encode, StoredEntry.truncated_eq hlength] at hdecode
    cases hdecode
    exact ⟨hkey, hlength, .inl hput⟩
  | append_singleton steps last ih =>
    have hbefore := ih fun entry hmem => hshort entry (List.mem_append_left _ hmem)
    have hmono : ((opened dhtData expireIndex clock).run steps).Holds
        (WasPut earlier (steps ++ [last])) := by
      refine hbefore.mono ?_
      rintro key entry ⟨hkey, hlength, hput⟩
      exact ⟨hkey, hlength, hput.imp_right (List.mem_append_left _)⟩
    rw [run_concat]
    refine hmono.step ?_ ?_
    · rintro key entry ⟨hkey, hlength, hput⟩
      rw [StoredEntry.truncated_eq hlength]
      exact ⟨hkey, hlength, hput⟩
    · rintro entry rfl
      exact ⟨rfl, hshort entry (by simp), .inr (by simp)⟩

/-- What a `get` returns has its key and was put before, and it had not expired when the
`get` checked it. -/
theorem finished_get_was_put {earlier : List StoredEntry} (hdb : WrittenBefore dhtData earlier)
    {steps : List AtomicStep}
    (hshort : ∀ entry, .insert entry ∈ steps → entry.value.length < 2 ^ 32) {g : FinishedGet}
    (hg : g ∈ ((opened dhtData expireIndex clock).run steps).finished) {entry : StoredEntry}
    (hresult : g.result = some entry) :
    entry.key = g.key ∧ ∃ before check after, steps = before ++ check :: after ∧
      ((opened dhtData expireIndex clock).run before).ChecksExpiry check g.id g.key entry ∧
      (entry ∈ earlier ∨ .insert entry ∈ before) ∧
      ((opened dhtData expireIndex clock).run before).clock < entry.expiresAt := by
  obtain ⟨before, check, after, rfl, hcheck, hlive⟩ :=
    (readsChecked_run dhtData expireIndex clock steps).returned g hg entry hresult
  have hholds := holds_wasPut dhtData expireIndex clock hdb
    fun e hmem => hshort e (List.mem_append_left _ hmem)
  have hput : WasPut earlier before g.key entry := by
    rcases hcheck with ⟨-, -, hcached⟩ | ⟨task, row, -, -, hrow, hdecode⟩
    · exact hholds.runtime.store.cached g.key entry hcached
    · exact hholds.runtime.store.stored g.key row entry hrow hdecode
  exact ⟨hput.1, before, check, after, rfl, hcheck, hput.2.2, UInt64.not_le.mp hlive⟩

/-- An entry that is read back from the database after it was dropped from the cache. -/
theorem removedEntry_was_put :
    ∃ before check after, ([.insert removedEntry, .enqueue 0, .commit 1, .remove removedEntry.key,
        .lookup removedEntry.key, .read 0, .tick 7, .fill 0] : List AtomicStep) =
        before ++ check :: after ∧
      ((opened (fun _ => none) [] 3).run before).ChecksExpiry check 0 removedEntry.key
        removedEntry ∧
      (removedEntry ∈ [] ∨ .insert removedEntry ∈ before) ∧
      ((opened (fun _ => none) [] 3).run before).clock < 1000 :=
  (finished_get_was_put (fun _ => none) [] 3 (by rintro key row ⟨⟩)
    (by simp [removedEntry]) (g := ⟨0, removedEntry.key, some removedEntry⟩) (by decide) rfl).2

end

end Concurrent

end CekyP2P.Dht
