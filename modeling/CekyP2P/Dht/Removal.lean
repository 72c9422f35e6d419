import CekyP2P.Dht.Storage

/-!
# Removal under concurrency

`remove` clears the cache and returns; the row is deleted by a task of its own, and the
write queue is left alone. A `get` that misses the cache reads the database in a second
step and fills the cache in a third, so a copy of the entry can also be on its way.
-/

namespace CekyP2P.Dht

/-! ## Stores without a live entry -/

namespace PersistentStore

/-- The cache, the queue and the table hold no live entry under the key. -/
structure Dead (s : PersistentStore) (now : UInt64) (key : Key) : Prop where
  cached : ∀ entry, s.hotCache key = some entry → entry.IsExpired now
  queued : ∀ entry ∈ s.writeQueue, entry.key = key → entry.IsExpired now
  stored : s.readDb now key = none

/-- A dead key as a property of all copies of entries. -/
theorem dead_iff_holds {s : PersistentStore} {now : UInt64} {key : Key} :
    s.Dead now key ↔ s.Holds fun other entry => other = key → entry.IsExpired now := by
  constructor
  · intro h
    refine ⟨?_, h.queued, ?_⟩
    · rintro other entry hcached rfl
      exact h.cached entry hcached
    · rintro other row entry hrow hdecode rfl
      exact readDb_eq_none.mp h.stored row hrow entry hdecode
  · intro h
    refine ⟨fun entry hcached => h.cached key entry hcached rfl, h.queued, ?_⟩
    exact readDb_eq_none.mpr fun row hrow entry hdecode => h.stored key row entry hrow hdecode rfl

namespace Dead

variable {s : PersistentStore} {now : UInt64} {key : Key}

/-- What is dead stays dead. -/
theorem mono (h : s.Dead now key) {later : UInt64} (hle : now ≤ later) : s.Dead later key :=
  dead_iff_holds.mpr <| (dead_iff_holds.mp h).mono fun _ _ hexpired hkey =>
    (hexpired hkey).mono hle

/-- A put of another key. -/
theorem put (h : s.Dead now key) {entry : StoredEntry} (hne : entry.key ≠ key) :
    (s.put entry).Dead now key :=
  dead_iff_holds.mpr <| (dead_iff_holds.mp h).put fun hkey => absurd hkey hne

/-- Clearing a key of the cache brings no entry back. -/
theorem remove (h : s.Dead now key) (other : Key) : (s.remove other).Dead now key :=
  dead_iff_holds.mpr <| (dead_iff_holds.mp h).remove other

/-- The deletion of any row. -/
theorem deleteRow (h : s.Dead now key) (other : Key) : (s.deleteRow other).Dead now key :=
  dead_iff_holds.mpr <| (dead_iff_holds.mp h).deleteRow other

/-- What a batch commits under the key has expired. -/
theorem commit (h : s.Dead now key) (n : Nat) : (s.commit n).Dead now key :=
  dead_iff_holds.mpr <| (dead_iff_holds.mp h).commit (fun _ _ hexpired => hexpired) n

/-- A pass of the garbage collection. -/
theorem gc (h : s.Dead now key) (time : UInt64) : (s.gc time).Dead now key :=
  dead_iff_holds.mpr <| (dead_iff_holds.mp h).gc time

/-- A late fill brings back only what has expired. -/
theorem fill (h : s.Dead now key) {other : Key} {entry : StoredEntry}
    (hexpired : other = key → entry.IsExpired now) : (s.fill other entry).Dead now key :=
  dead_iff_holds.mpr <| (dead_iff_holds.mp h).fill hexpired

end Dead

end PersistentStore

/-! ## Tasks -/

/-- How far a `get` that missed the cache has come. -/
inductive GetPhase
  | read
  | fill (entry : StoredEntry)
  deriving DecidableEq

/-- A `get` that has started and not returned. -/
structure PendingGet where
  id : Nat
  key : Key
  phase : GetPhase
  deriving DecidableEq

/-- A `get` that has returned. -/
structure FinishedGet where
  id : Nat
  key : Key
  result : Option StoredEntry
  deriving DecidableEq

/-- The store with its tasks: deletions not yet run and reads not yet finished, numbered in
the order in which they start. -/
structure Runtime where
  store : PersistentStore
  clock : UInt64
  deletes : List Key
  nextGet : Nat
  gets : List PendingGet
  finished : List FinishedGet

/-- An atomic step; tasks are picked by their position. -/
inductive Action
  | put (entry : StoredEntry)
  | remove (key : Key)
  | delete (task : Nat)
  | commit (n : Nat)
  | gc
  | tick (now : UInt64)
  /-- A `get` starts and looks into the cache. -/
  | lookup (key : Key)
  | read (task : Nat)
  | fill (task : Nat)

namespace Runtime

/-- What an action makes of the runtime. -/
def step (w : Runtime) : Action → Runtime
  | .put entry => { w with store := w.store.put entry }
  | .remove key => { w with store := w.store.remove key, deletes := w.deletes ++ [key] }
  | .delete task =>
    match w.deletes[task]? with
    | some key => { w with store := w.store.deleteRow key, deletes := w.deletes.eraseIdx task }
    | none => w
  | .commit n => { w with store := w.store.commit n }
  | .gc => { w with store := w.store.gc w.clock }
  | .tick now => { w with clock := if w.clock ≤ now then now else w.clock }
  | .lookup key =>
    match w.store.hotCache key with
    | some entry =>
      { w with
        nextGet := w.nextGet + 1
        finished := w.finished ++
          [⟨w.nextGet, key, if entry.IsExpired w.clock then none else some entry⟩] }
    | none => { w with nextGet := w.nextGet + 1, gets := w.gets ++ [⟨w.nextGet, key, .read⟩] }
  | .read task =>
    match w.gets[task]? with
    | some ⟨id, key, .read⟩ =>
      match w.store.readDb w.clock key with
      | some entry => { w with gets := w.gets.set task ⟨id, key, .fill entry⟩ }
      | none =>
        { w with gets := w.gets.eraseIdx task, finished := w.finished ++ [⟨id, key, none⟩] }
    | _ => w
  | .fill task =>
    match w.gets[task]? with
    | some ⟨id, key, .fill entry⟩ =>
      { w with
        store := w.store.fill key entry
        gets := w.gets.eraseIdx task
        finished := w.finished ++ [⟨id, key, some entry⟩] }
    | _ => w

/-- Several actions, one after the other. -/
def run (w : Runtime) (actions : List Action) : Runtime := actions.foldl step w

/-- A store opened over the tables of a database, with nothing under way. -/
def opened (dhtData : Key → Option (List UInt8)) (expireIndex : List (UInt64 × Key))
    (clock : UInt64) : Runtime :=
  ⟨.new dhtData expireIndex, clock, [], 0, [], []⟩

/-- The actions put nothing under the key. -/
def NoPut (key : Key) (actions : List Action) : Prop :=
  ∀ entry, Action.put entry ∈ actions → entry.key ≠ key

/-- Whatever follows a removal now, as long as nothing is put under the key, no `get` of it
that starts later returns an entry. -/
def RemovalIsFinal (w : Runtime) (key : Key) : Prop :=
  ∀ actions, NoPut key actions →
    ∀ g ∈ ((w.step (.remove key)).run actions).finished,
      w.nextGet ≤ g.id → g.key = key → g.result = none

/-- No live entry under the key is queued, found in the database or about to be cached. -/
structure NoLiveCopy (w : Runtime) (key : Key) : Prop where
  queued : ∀ entry ∈ w.store.writeQueue, entry.key = key → entry.IsExpired w.clock
  stored : w.store.readDb w.clock key = none
  inFlight : ∀ g ∈ w.gets, g.key = key → ∀ entry, g.phase = .fill entry →
    entry.IsExpired w.clock

/-- The last action of a run. -/
theorem run_concat (w : Runtime) (actions : List Action) (last : Action) :
    w.run (actions ++ [last]) = (w.run actions).step last :=
  List.foldl_concat ..

/-! ## Copies of entries -/

/-- Every entry in the store or held by a read has the property, with the key under which
it is found. -/
structure Holds (w : Runtime) (P : Key → StoredEntry → Prop) : Prop where
  store : w.store.Holds P
  held : ∀ g ∈ w.gets, ∀ entry, g.phase = .fill entry → P g.key entry

namespace Holds

variable {w : Runtime} {P : Key → StoredEntry → Prop}

/-- A weaker property holds as well. -/
theorem mono (h : w.Holds P) {Q : Key → StoredEntry → Prop}
    (hle : ∀ key entry, P key entry → Q key entry) : w.Holds Q where
  store := h.store.mono hle
  held := fun g hg entry hphase => hle g.key entry (h.held g hg entry hphase)

/-- A lookup starts. -/
theorem lookup (h : w.Holds P) (key : Key) : (w.step (.lookup key)).Holds P := by
  rw [Runtime.step]
  split
  · exact ⟨h.store, h.held⟩
  · refine ⟨h.store, List.forall_mem_append.mpr ⟨h.held, List.forall_mem_singleton.mpr ?_⟩⟩
    rintro entry ⟨⟩

/-- A lookup reads the database. -/
theorem read (h : w.Holds P) (task : Nat) : (w.step (.read task)).Holds P := by
  rw [Runtime.step]
  split
  case h_1 id key hget =>
    split
    case h_1 entry hread =>
      refine ⟨h.store, fun g hg => ?_⟩
      rcases List.mem_or_eq_of_mem_set hg with hold | rfl
      · exact h.held g hold
      · rintro held ⟨⟩
        obtain ⟨row, hrow, hdecode, -⟩ := PersistentStore.readDb_eq_some.mp hread
        exact h.store.stored key row entry hrow hdecode
    case h_2 => exact ⟨h.store, fun g hg => h.held g (List.mem_of_mem_eraseIdx hg)⟩
  case h_2 => exact h

/-- A lookup fills the cache. -/
theorem fill (h : w.Holds P) (task : Nat) : (w.step (.fill task)).Holds P := by
  rw [Runtime.step]
  split
  case h_1 id key entry hget =>
    have hheld : P key entry := h.held _ (List.mem_of_getElem? hget) entry rfl
    exact ⟨h.store.fill hheld, fun g hg => h.held g (List.mem_of_mem_eraseIdx hg)⟩
  case h_2 => exact h

/-- Every action keeps a property that its put has. -/
theorem step (h : w.Holds P) (htruncated : ∀ key entry, P key entry → P key entry.truncated)
    {action : Action} (hput : ∀ entry, action = .put entry → P entry.key entry) :
    (w.step action).Holds P := by
  cases action with
  | put entry => exact ⟨h.store.put (hput entry rfl), h.held⟩
  | remove key => exact ⟨h.store.remove key, h.held⟩
  | delete task =>
    rw [Runtime.step]
    split
    case h_1 key _ => exact ⟨h.store.deleteRow key, h.held⟩
    case h_2 => exact h
  | commit n => exact ⟨h.store.commit htruncated n, h.held⟩
  | gc => exact ⟨h.store.gc _, h.held⟩
  | tick now => exact ⟨h.store, h.held⟩
  | lookup key => exact h.lookup key
  | read task => exact h.read task
  | fill task => exact h.fill task

end Holds

/-! ## Numbers of reads -/

/-- Reads that have started have a number below the next one. -/
structure Numbered (w : Runtime) : Prop where
  pending : ∀ g ∈ w.gets, g.id < w.nextGet
  finished : ∀ g ∈ w.finished, g.id < w.nextGet

/-- Every action keeps the lookups numbered. -/
theorem Numbered.step {w : Runtime} (h : w.Numbered) (action : Action) :
    (w.step action).Numbered := by
  cases action with
  | put entry => exact ⟨h.pending, h.finished⟩
  | remove key => exact ⟨h.pending, h.finished⟩
  | commit n => exact ⟨h.pending, h.finished⟩
  | gc => exact ⟨h.pending, h.finished⟩
  | tick now => exact ⟨h.pending, h.finished⟩
  | delete task =>
    rw [Runtime.step]
    split
    · exact ⟨h.pending, h.finished⟩
    · exact h
  | lookup key =>
    have hlt : w.nextGet < w.nextGet + 1 := Nat.lt_succ_self _
    have hpending : ∀ g ∈ w.gets, g.id < w.nextGet + 1 := fun g hg => (h.pending g hg).trans hlt
    have hfinished : ∀ g ∈ w.finished, g.id < w.nextGet + 1 :=
      fun g hg => (h.finished g hg).trans hlt
    rw [Runtime.step]
    split
    · exact ⟨hpending, List.forall_mem_append.mpr ⟨hfinished, List.forall_mem_singleton.mpr hlt⟩⟩
    · exact ⟨List.forall_mem_append.mpr ⟨hpending, List.forall_mem_singleton.mpr hlt⟩, hfinished⟩
  | read task =>
    rw [Runtime.step]
    split
    case h_1 id key hget =>
      have hid : id < w.nextGet := h.pending _ (List.mem_of_getElem? hget)
      split
      · refine ⟨fun g hg => ?_, h.finished⟩
        rcases List.mem_or_eq_of_mem_set hg with hold | rfl
        · exact h.pending g hold
        · exact hid
      · exact ⟨fun g hg => h.pending g (List.mem_of_mem_eraseIdx hg),
          List.forall_mem_append.mpr ⟨h.finished, List.forall_mem_singleton.mpr hid⟩⟩
    case h_2 => exact h
  | fill task =>
    rw [Runtime.step]
    split
    case h_1 id key entry hget =>
      have hid : id < w.nextGet := h.pending _ (List.mem_of_getElem? hget)
      exact ⟨fun g hg => h.pending g (List.mem_of_mem_eraseIdx hg),
        List.forall_mem_append.mpr ⟨h.finished, List.forall_mem_singleton.mpr hid⟩⟩
    case h_2 => exact h

/-- The lookups are numbered in every run. -/
theorem numbered_run (dhtData : Key → Option (List UInt8)) (expireIndex : List (UInt64 × Key))
    (clock : UInt64) (actions : List Action) :
    ((opened dhtData expireIndex clock).run actions).Numbered := by
  induction actions using List.reverseRecOn with
  | nil => exact ⟨nofun, nofun⟩
  | append_singleton actions last ih =>
    rw [run_concat]
    exact ih.step last

/-! ## After a removal -/

/-- Nothing live is left under the key, reads of it that hold an entry started before
`first`, and those from `first` on have returned nothing. -/
structure Purged (w : Runtime) (key : Key) (first : Nat) : Prop where
  dead : w.store.Dead w.clock key
  inFlight : ∀ g ∈ w.gets, g.key = key → ∀ entry, g.phase = .fill entry →
    g.id < first ∧ entry.IsExpired w.clock
  finished : ∀ g ∈ w.finished, first ≤ g.id → g.key = key → g.result = none

namespace Purged

variable {w : Runtime} {key : Key} {first : Nat}

/-- Another state of the store, as long as it is dead. -/
theorem withStore (h : w.Purged key first) {store : PersistentStore}
    (hdead : store.Dead w.clock key) : ({ w with store := store } : Runtime).Purged key first :=
  ⟨hdead, h.inFlight, h.finished⟩

/-- Time passes. -/
theorem tick (h : w.Purged key first) (now : UInt64) : (w.step (.tick now)).Purged key first := by
  have hle : w.clock ≤ (w.step (.tick now)).clock := by
    change w.clock ≤ if w.clock ≤ now then now else w.clock
    split
    case isTrue hle => exact hle
    case isFalse => exact UInt64.le_refl _
  refine ⟨h.dead.mono hle, fun g hg hkey entry hphase => ?_, h.finished⟩
  obtain ⟨hid, hexpired⟩ := h.inFlight g hg hkey entry hphase
  exact ⟨hid, hexpired.mono hle⟩

/-- One more read has returned, with nothing if it counts. -/
theorem mem_finished_concat (h : w.Purged key first) {last : FinishedGet}
    (hlast : first ≤ last.id → last.key = key → last.result = none) :
    ∀ g ∈ w.finished ++ [last], first ≤ g.id → g.key = key → g.result = none :=
  List.forall_mem_append.mpr ⟨h.finished, List.forall_mem_singleton.mpr hlast⟩

/-- A lookup that starts after the removal finds nothing. -/
theorem lookup (h : w.Purged key first) (other : Key) :
    (w.step (.lookup other)).Purged key first := by
  rw [Runtime.step]
  split
  case h_1 entry hcached =>
    refine ⟨h.dead, h.inFlight, h.mem_finished_concat ?_⟩
    rintro - rfl
    exact if_pos (h.dead.cached entry hcached)
  case h_2 =>
    refine ⟨h.dead, List.forall_mem_append.mpr ⟨h.inFlight, ?_⟩, h.finished⟩
    refine List.forall_mem_singleton.mpr ?_
    rintro - entry ⟨⟩

/-- A lookup that reads after the removal finds nothing. -/
theorem read (h : w.Purged key first) (task : Nat) : (w.step (.read task)).Purged key first := by
  rw [Runtime.step]
  split
  case h_1 id other hget =>
    split
    case h_1 entry hread =>
      refine ⟨h.dead, fun g hg hkey => ?_, h.finished⟩
      rcases List.mem_or_eq_of_mem_set hg with hold | rfl
      · exact h.inFlight g hold hkey
      · subst hkey
        cases hread.symm.trans h.dead.stored
    case h_2 =>
      exact ⟨h.dead, fun g hg => h.inFlight g (List.mem_of_mem_eraseIdx hg),
        h.mem_finished_concat fun _ _ => rfl⟩
  case h_2 => exact h

/-- A lookup that has found something began before the removal. -/
theorem fill (h : w.Purged key first) (task : Nat) : (w.step (.fill task)).Purged key first := by
  rw [Runtime.step]
  split
  case h_1 id other entry hget =>
    have hheld : other = key → id < first ∧ entry.IsExpired w.clock := fun hkey =>
      h.inFlight _ (List.mem_of_getElem? hget) hkey entry rfl
    refine ⟨h.dead.fill fun hkey => (hheld hkey).2,
      fun g hg => h.inFlight g (List.mem_of_mem_eraseIdx hg), h.mem_finished_concat ?_⟩
    intro hle hkey
    exact absurd (hheld hkey).1 (Nat.not_lt.mpr hle)
  case h_2 => exact h

/-- Every action but a put of the key keeps it purged. -/
theorem step (h : w.Purged key first) {action : Action}
    (hput : ∀ entry, action = .put entry → entry.key ≠ key) :
    (w.step action).Purged key first := by
  cases action with
  | put entry => exact h.withStore (h.dead.put (hput entry rfl))
  | remove other => exact ⟨h.dead.remove other, h.inFlight, h.finished⟩
  | delete task =>
    rw [Runtime.step]
    split
    case h_1 other _ => exact ⟨h.dead.deleteRow other, h.inFlight, h.finished⟩
    case h_2 => exact h
  | commit n => exact h.withStore (h.dead.commit n)
  | gc => exact h.withStore (h.dead.gc _)
  | tick now => exact h.tick now
  | lookup other => exact h.lookup other
  | read task => exact h.read task
  | fill task => exact h.fill task

/-- Without a put of the key, it stays purged. -/
theorem run (h : w.Purged key first) {actions : List Action} (hput : NoPut key actions) :
    (w.run actions).Purged key first := by
  induction actions using List.reverseRecOn with
  | nil => exact h
  | append_singleton actions last ih =>
    rw [run_concat]
    refine (ih fun entry hmem => hput entry (List.mem_append_left _ hmem)).step ?_
    rintro entry rfl
    exact hput entry (by simp)

end Purged

/-- A removal with no live copy around purges the key. -/
theorem NoLiveCopy.purged {w : Runtime} {key : Key} (h : w.NoLiveCopy key) (hids : w.Numbered) :
    (w.step (.remove key)).Purged key w.nextGet where
  dead := by
    refine ⟨fun entry hcached => ?_, h.queued, h.stored⟩
    change Function.update w.store.hotCache key none key = some entry at hcached
    rw [Function.update_self] at hcached
    cases hcached
  inFlight := fun g hg hkey entry hphase => ⟨hids.pending g hg, h.inFlight g hg hkey entry hphase⟩
  finished := fun g hg hle => absurd (hids.finished g hg) (Nat.not_lt.mpr hle)

/-! ## Ways back -/

/-- A read of a key that is only in the table runs through and returns its entry. -/
theorem exists_finished_of_readDb {w : Runtime} {key : Key} {entry : StoredEntry}
    (hcache : w.store.hotCache key = none) (hread : w.store.readDb w.clock key = some entry) :
    (⟨w.nextGet, key, some entry⟩ : FinishedGet) ∈
      (w.run [.lookup key, .read w.gets.length, .fill w.gets.length]).finished := by
  simp [Runtime.run, Runtime.step, hcache, hread]

/-- So does a read of a key that is cached. -/
theorem finished_lookup_of_cached {w : Runtime} {key : Key} {entry : StoredEntry}
    (hcache : w.store.hotCache key = some entry) (hlive : ¬entry.IsExpired w.clock) :
    (⟨w.nextGet, key, some entry⟩ : FinishedGet) ∈ (w.step (.lookup key)).finished := by
  simp [Runtime.step, hcache, hlive]

namespace RemovalIsFinal

variable {w : Runtime} {key : Key}

/-- Without a put, no later read of the key returns an entry. -/
theorem not_finished (h : w.RemovalIsFinal key) {actions : List Action} (hput : NoPut key actions)
    {entry : StoredEntry} : (⟨w.nextGet, key, some entry⟩ : FinishedGet) ∉
      ((w.step (.remove key)).run actions).finished := by
  intro hmem
  cases h actions hput _ hmem (Nat.le_refl _) rfl

/-- A row is found until the delete task runs. -/
theorem stored (h : w.RemovalIsFinal key) : w.store.readDb w.clock key = none := by
  cases hread : w.store.readDb w.clock key with
  | none => rfl
  | some entry =>
    have hfound : (⟨w.nextGet, key, some entry⟩ : FinishedGet) ∈ ((w.step (.remove key)).run
        [.lookup key, .read w.gets.length, .fill w.gets.length]).finished :=
      exists_finished_of_readDb (Function.update_self _ _ _) hread
    exact absurd hfound (h.not_finished (by simp [NoPut]))

/-- A queued entry is committed after the removal. -/
theorem queued (h : w.RemovalIsFinal key) {entry : StoredEntry}
    (hmem : entry ∈ w.store.writeQueue) (hkey : entry.key = key) : entry.IsExpired w.clock := by
  by_contra hlive
  subst hkey
  obtain ⟨before, after, hqueue⟩ := List.append_of_mem hmem
  have hcache : ((w.step (.remove entry.key)).step (.commit (before.length + 1))).store.hotCache
      entry.key = none := by
    change ((w.store.remove entry.key).commit (before.length + 1)).hotCache entry.key = none
    rw [PersistentStore.hotCache_commit]
    exact Function.update_self _ _ _
  have hdata : ((w.step (.remove entry.key)).step (.commit (before.length + 1))).store.dhtData
      entry.key = some entry.encode :=
    PersistentStore.dhtData_commit_of_split hqueue
  have hread : ((w.step (.remove entry.key)).step (.commit (before.length + 1))).store.readDb
      w.clock entry.key = some entry.truncated := by
    rw [PersistentStore.readDb, hdata]
    simp only [StoredEntry.decode_encode]
    exact if_neg hlive
  have hfound : (⟨w.nextGet, entry.key, some entry.truncated⟩ : FinishedGet) ∈
      ((w.step (.remove entry.key)).run [.commit (before.length + 1), .lookup entry.key,
        .read w.gets.length, .fill w.gets.length]).finished :=
    exists_finished_of_readDb hcache hread
  exact absurd hfound (h.not_finished (by simp [NoPut]))

/-- An entry that a read holds is cached after the removal. -/
theorem inFlight (h : w.RemovalIsFinal key) {g : PendingGet} (hmem : g ∈ w.gets)
    (hkey : g.key = key) {entry : StoredEntry} (hphase : g.phase = .fill entry) :
    entry.IsExpired w.clock := by
  by_contra hlive
  obtain ⟨task, hget⟩ := List.mem_iff_getElem?.mp hmem
  obtain ⟨id, other, phase⟩ := g
  subst hkey hphase
  have hstep : ((w.step (.remove other)).step (.fill task)).store =
        (w.store.remove other).fill other entry ∧
      ((w.step (.remove other)).step (.fill task)).clock = w.clock ∧
      ((w.step (.remove other)).step (.fill task)).nextGet = w.nextGet := by
    simp [Runtime.step, hget]
  obtain ⟨hstore, hclock, hnext⟩ := hstep
  have hcache : ((w.step (.remove other)).step (.fill task)).store.hotCache other = some entry := by
    rw [hstore]
    exact Function.update_self _ _ _
  have hfound := finished_lookup_of_cached hcache (hclock.symm ▸ hlive)
  rw [hnext] at hfound
  have hput : NoPut other [.fill task, .lookup other] := by simp [NoPut]
  exact absurd hfound (h.not_finished hput)

end RemovalIsFinal

end Runtime

/-- Removing a key is final exactly when no live copy of its entry is in the write queue, in
the table or held by a read that has yet to fill the cache. -/
theorem removalIsFinal_iff (dhtData : Key → Option (List UInt8))
    (expireIndex : List (UInt64 × Key)) (clock : UInt64) (actions : List Action) (key : Key) :
    ((Runtime.opened dhtData expireIndex clock).run actions).RemovalIsFinal key ↔
      ((Runtime.opened dhtData expireIndex clock).run actions).NoLiveCopy key := by
  constructor
  · intro hfinal
    exact ⟨fun entry hmem hkey => hfinal.queued hmem hkey, hfinal.stored,
      fun g hmem hkey entry hphase => hfinal.inFlight hmem hkey hphase⟩
  · intro hclean rest hput g hg
    exact ((hclean.purged (Runtime.numbered_run _ _ _ _)).run hput).finished g hg

/-- An entry under a key, alive for good. -/
def removedEntry : StoredEntry :=
  ⟨Vector.replicate 32 1, [42], ⟨Vector.replicate 32 2⟩, 1000⟩

/-- Put, removed and deleted before the batch writer commits it, the entry comes back. -/
theorem removedEntry_comes_back :
    (⟨0, Vector.replicate 32 1, some removedEntry⟩ : FinishedGet) ∈
        ((((Runtime.opened (fun _ => none) [] 0).run [.put removedEntry]).step
          (.remove (Vector.replicate 32 1))).run
            [.delete 0, .commit 1, .lookup (Vector.replicate 32 1), .read 0, .fill 0]).finished ∧
      ¬((Runtime.opened (fun _ => none) [] 0).run [.put removedEntry]).RemovalIsFinal
        (Vector.replicate 32 1) := by
  have hback : (⟨0, Vector.replicate 32 1, some removedEntry⟩ : FinishedGet) ∈
      ((((Runtime.opened (fun _ => none) [] 0).run [.put removedEntry]).step
        (.remove (Vector.replicate 32 1))).run
          [.delete 0, .commit 1, .lookup (Vector.replicate 32 1), .read 0, .fill 0]).finished := by
    decide
  refine ⟨hback, fun hfinal => ?_⟩
  exact absurd hback (hfinal.not_finished (by simp [Runtime.NoPut]))

end CekyP2P.Dht
