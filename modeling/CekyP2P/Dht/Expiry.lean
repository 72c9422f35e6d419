import CekyP2P.Dht.Storage

/-!
# Expiry and refreshed entries

The index keeps a row for every committed entry, also for those that were replaced
since. A garbage collection pass deletes the keys of the rows that are due without asking
what is stored under them by then.
-/

namespace CekyP2P.Dht

/-- An atomic step of the store, of one of its background tasks or of the clock. -/
inductive StoreStep
  | put (entry : StoredEntry)
  | get (key : Key)
  | commit (n : Nat)
  | gc
  | tick (now : UInt64)

/-- The store and the clock. -/
structure TimedStore where
  store : PersistentStore
  clock : UInt64

namespace TimedStore

/-- The clock never goes back. -/
def step (s : TimedStore) : StoreStep → TimedStore
  | .put entry => { s with store := s.store.put entry }
  | .get key => { s with store := (s.store.get s.clock key).2 }
  | .commit n => { s with store := s.store.commit n }
  | .gc => { s with store := s.store.gc s.clock }
  | .tick now => { s with clock := if s.clock ≤ now then now else s.clock }

/-- Several steps, one after the other. -/
def run (start : TimedStore) (steps : List StoreStep) : TimedStore := steps.foldl step start

/-- A store opened over the tables of a database. -/
def opened (dhtData : Key → Option (List UInt8)) (expireIndex : List (UInt64 × Key))
    (clock : UInt64) : TimedStore :=
  ⟨.new dhtData expireIndex, clock⟩

/-- The last step of a run. -/
theorem run_concat (start : TimedStore) (steps : List StoreStep) (last : StoreStep) :
    start.run (steps ++ [last]) = (start.run steps).step last :=
  List.foldl_concat ..

end TimedStore

/-- The entry of a put. -/
def StoreStep.entry? : StoreStep → Option StoredEntry
  | .put entry => some entry
  | _ => none

/-- The last entry put under a key. -/
def lastPut (steps : List StoreStep) (key : Key) : Option StoredEntry :=
  ((steps.filterMap StoreStep.entry?).filter fun entry => entry.key = key).getLast?

/-- A put is the last one for its key. -/
theorem lastPut_concat_put (steps : List StoreStep) (entry : StoredEntry) (key : Key) :
    lastPut (steps ++ [.put entry]) key =
      if entry.key = key then some entry else lastPut steps key := by
  by_cases hkey : entry.key = key
  · simp [lastPut, StoreStep.entry?, hkey]
  · simp [lastPut, StoreStep.entry?, hkey]

/-- Other steps do not change what was put last. -/
theorem lastPut_concat_of_none (steps : List StoreStep) {last : StoreStep}
    (hlast : last.entry? = none) (key : Key) :
    lastPut (steps ++ [last]) key = lastPut steps key := by
  simp [lastPut, hlast]

namespace TimedStore

variable (start : TimedStore) (steps : List StoreStep)

/-- In every state of the run, the last entry put under a key is found until it expires. -/
def KeepsLive : Prop :=
  ∀ earlier, earlier <+: steps → ∀ key entry, lastPut earlier key = some entry →
    (start.run earlier).clock < entry.expiresAt →
    ((start.run earlier).store.get (start.run earlier).clock key).1 = some entry

/-- Whenever a garbage collection pass runs, the keys of the rows that are due have no live
entry put last. -/
def CollectsOnlyDead : Prop :=
  ∀ earlier, earlier ++ [.gc] <+: steps →
    ∀ row ∈ (start.run earlier).store.dueRows (start.run earlier).clock,
      ∀ entry, lastPut earlier row.2 = some entry → entry.IsExpired (start.run earlier).clock

/-- Live entries are in the cache. -/
def CachesLive : Prop :=
  ∀ key entry, lastPut steps key = some entry → (start.run steps).clock < entry.expiresAt →
    (start.run steps).store.hotCache key = some entry

variable {start steps}

/-- A live entry that was put last is what a get returns. -/
theorem CachesLive.get_eq (h : start.CachesLive steps) {key : Key} {entry : StoredEntry}
    (hlast : lastPut steps key = some entry)
    (hlive : (start.run steps).clock < entry.expiresAt) :
    (start.run steps).store.get (start.run steps).clock key =
      (some entry, (start.run steps).store) := by
  have hfresh : ¬entry.IsExpired (start.run steps).clock := UInt64.not_le.mpr hlive
  rw [PersistentStore.get, h key entry hlast hlive]
  simp only [if_neg hfresh]

/-- A put brings its entry into the cache. -/
theorem CachesLive.put (h : start.CachesLive steps) (e : StoredEntry) :
    start.CachesLive (steps ++ [.put e]) := by
  intro key entry hlast hlive
  rw [run_concat] at hlive ⊢
  rw [lastPut_concat_put] at hlast
  change Function.update (start.run steps).store.hotCache e.key (some e) key = some entry
  by_cases hkey : e.key = key
  · rw [if_pos hkey] at hlast
    rw [hkey, Function.update_self, hlast]
  · rw [if_neg hkey] at hlast
    rw [Function.update_of_ne (Ne.symm hkey)]
    exact h key entry hlast hlive

/-- A miss is never on a key with a live entry. -/
theorem CachesLive.get (h : start.CachesLive steps) (k : Key) :
    start.CachesLive (steps ++ [.get k]) := by
  intro key entry hlast hlive
  rw [run_concat] at hlive ⊢
  rw [lastPut_concat_of_none steps rfl] at hlast
  have hcached := h key entry hlast hlive
  change ((start.run steps).store.get (start.run steps).clock k).2.hotCache key = some entry
  by_cases hkey : key = k
  · subst hkey
    rw [h.get_eq hlast hlive]
    exact hcached
  · rw [PersistentStore.get]
    split
    · exact hcached
    · split
      · exact (Function.update_of_ne hkey _ _).trans hcached
      · exact hcached

/-- Commits leave the cache alone. -/
theorem CachesLive.commit (h : start.CachesLive steps) (n : Nat) :
    start.CachesLive (steps ++ [.commit n]) := by
  intro key entry hlast hlive
  rw [run_concat] at hlive ⊢
  rw [lastPut_concat_of_none steps rfl] at hlast
  exact (congrFun (PersistentStore.hotCache_commit n _) key).trans (h key entry hlast hlive)

/-- With time, fewer entries are live. -/
theorem CachesLive.tick (h : start.CachesLive steps) (now : UInt64) :
    start.CachesLive (steps ++ [.tick now]) := by
  intro key entry hlast hlive
  rw [run_concat] at hlive ⊢
  rw [lastPut_concat_of_none steps rfl] at hlast
  have hbefore : (start.run steps).clock < entry.expiresAt := by
    change (if (start.run steps).clock ≤ now then now else (start.run steps).clock) < _ at hlive
    split at hlive
    case isTrue hle => exact UInt64.lt_of_le_of_lt hle hlive
    case isFalse => exact hlive
  exact h key entry hlast hbefore

/-- A pass that finds no live key keeps them all. -/
theorem CachesLive.gc (h : start.CachesLive steps)
    (hdead : ∀ row ∈ (start.run steps).store.dueRows (start.run steps).clock,
      ∀ entry, lastPut steps row.2 = some entry → entry.IsExpired (start.run steps).clock) :
    start.CachesLive (steps ++ [.gc]) := by
  intro key entry hlast hlive
  rw [run_concat] at hlive ⊢
  rw [lastPut_concat_of_none steps rfl] at hlast
  have hspared : ∀ row ∈ (start.run steps).store.dueRows (start.run steps).clock,
      row.2 ≠ key := by
    rintro row hrow rfl
    exact UInt64.not_le.mpr hlive (hdead row hrow entry hlast)
  exact (PersistentStore.foldl_evict_of_forall_ne hspared _).1.trans (h key entry hlast hlive)

/-- As long as passes collect what is dead, live entries stay in the cache. -/
theorem CollectsOnlyDead.cachesLive (h : start.CollectsOnlyDead steps) :
    start.CachesLive steps := by
  induction steps using List.reverseRecOn with
  | nil =>
    intro key entry hlast
    cases hlast
  | append_singleton steps last ih =>
    have hinit : start.CachesLive steps :=
      ih fun earlier hle => h earlier (hle.trans (List.prefix_append _ _))
    cases last with
    | put entry => exact hinit.put entry
    | get key => exact hinit.get key
    | commit n => exact hinit.commit n
    | gc => exact hinit.gc (h steps List.prefix_rfl)
    | tick now => exact hinit.tick now

/-- After a pass nothing is found under the keys that were due. -/
theorem get_gc_of_due {row : UInt64 × Key} (s : PersistentStore) (now : UInt64)
    (hrow : row ∈ s.dueRows now) : ((s.gc now).get now row.2).1 = none := by
  obtain ⟨hcache, hdata⟩ := PersistentStore.foldl_evict_of_mem hrow s
  rw [PersistentStore.gc, PersistentStore.get, hcache]
  simp only [PersistentStore.readDb, hdata]

end TimedStore

/-- Live entries are kept exactly in the runs whose garbage collection passes find no row
due for a key with a live entry. -/
theorem keepsLive_iff (dhtData : Key → Option (List UInt8)) (expireIndex : List (UInt64 × Key))
    (clock : UInt64) (steps : List StoreStep) :
    (TimedStore.opened dhtData expireIndex clock).KeepsLive steps ↔
      (TimedStore.opened dhtData expireIndex clock).CollectsOnlyDead steps := by
  constructor
  · intro hkeeps earlier hle row hrow entry hlast
    by_contra hlive
    have hfound := hkeeps (earlier ++ [.gc]) hle row.2 entry
      ((lastPut_concat_of_none earlier rfl row.2).trans hlast)
    rw [TimedStore.run_concat] at hfound
    have hnone := TimedStore.get_gc_of_due _ _ hrow
    have hsome := hfound (UInt64.not_le.mp hlive)
    exact absurd (hnone.symm.trans hsome) (by simp)
  · intro hdead earlier hle key entry hlast hlive
    have hcaches : (TimedStore.opened dhtData expireIndex clock).CachesLive earlier :=
      TimedStore.CollectsOnlyDead.cachesLive fun e he => hdead e (he.trans hle)
    rw [hcaches.get_eq hlast hlive]

/-- An entry of one key that expires at the given time. -/
def sampleEntry (expiresAt : UInt64) : StoredEntry :=
  ⟨Vector.replicate 32 1, [42], ⟨Vector.replicate 32 2⟩, expiresAt⟩

/-- The key is put, put again with a later expiration, committed, and collected when the
first expiration has passed. -/
def refreshSteps : List StoreStep :=
  [.put (sampleEntry 10), .put (sampleEntry 100), .commit 2, .tick 10, .gc]

/-- The refreshed entry is lost at time 10, long before it expires. -/
theorem refreshSteps_lose_live_entry :
    lastPut refreshSteps (Vector.replicate 32 1) = some (sampleEntry 100) ∧
      ((TimedStore.opened (fun _ => none) [] 0).run refreshSteps).clock = 10 ∧
      (((TimedStore.opened (fun _ => none) [] 0).run refreshSteps).store.get 10
        (Vector.replicate 32 1)).1 = none ∧
      ¬(TimedStore.opened (fun _ => none) [] 0).KeepsLive refreshSteps := by
  have hlast : lastPut refreshSteps (Vector.replicate 32 1) = some (sampleEntry 100) := by decide
  have hclock : ((TimedStore.opened (fun _ => none) [] 0).run refreshSteps).clock = 10 := by decide
  have hnone : (((TimedStore.opened (fun _ => none) [] 0).run refreshSteps).store.get 10
      (Vector.replicate 32 1)).1 = none := by decide
  refine ⟨hlast, hclock, hnone, fun hkeeps => ?_⟩
  have hfound := hkeeps refreshSteps List.prefix_rfl _ _ hlast
  rw [hclock, hnone] at hfound
  exact absurd (hfound (by decide)) (by simp)

end CekyP2P.Dht
