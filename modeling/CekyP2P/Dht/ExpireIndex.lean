import CekyP2P.Dht.Storage

/-!
# The expiry index covers the data table

Three kinds of transactions write the database. A batch inserts into both tables, the task
of a removal deletes from the data table only, and a garbage collection pass deletes what
the index lists from both.
-/

namespace CekyP2P.Dht

/-- A transaction of the background tasks. -/
inductive Transaction
  | batch (entries : List StoredEntry)
  | delete (key : Key)
  | gc (now : UInt64)

namespace PersistentStore

/-- What a transaction does to the tables. -/
def transact (s : PersistentStore) : Transaction → PersistentStore
  | .batch entries => entries.foldl commitEntry s
  | .delete key => s.deleteRow key
  | .gc now => s.gc now

/-- A database just created, after a sequence of transactions. -/
def afterTransactions (transactions : List Transaction) : PersistentStore :=
  transactions.foldl transact (new (fun _ => none) [])

/-- Every row of the data table has the pair of its expiration and its key in the index. -/
def IndexCoversData (s : PersistentStore) : Prop :=
  ∀ key row entry, s.dhtData key = some row → StoredEntry.decode row = .ok entry →
    (entry.expiresAt, key) ∈ s.expireIndex

/-- No row of the data table has expired. -/
def NothingDue (s : PersistentStore) (now : UInt64) : Prop :=
  ∀ key row entry, s.dhtData key = some row → StoredEntry.decode row = .ok entry →
    ¬entry.IsExpired now

variable {s : PersistentStore}

/-- A pass takes only its own rows from the index. -/
theorem mem_expireIndex_foldl_evict {rows : List (UInt64 × Key)} {row : UInt64 × Key}
    (hspared : row ∉ rows) (hmem : row ∈ s.expireIndex) :
    row ∈ (rows.foldl evict s).expireIndex := by
  induction rows generalizing s with
  | nil => exact hmem
  | cons first rows ih =>
    have hne : row ≠ first := List.ne_of_not_mem_cons hspared
    exact ih (List.not_mem_of_not_mem_cons hspared) ((List.mem_erase_of_ne hne).mpr hmem)

/-- The rows that a pass leaves in the data table were there before, under keys for which
nothing was due. -/
theorem dhtData_gc {now : UInt64} {key : Key} {row : List UInt8}
    (hrow : (s.gc now).dhtData key = some row) :
    s.dhtData key = some row ∧ ∀ time, time ≤ now → (time, key) ∉ s.expireIndex := by
  have hspared : ∀ due ∈ s.dueRows now, due.2 ≠ key := by
    rintro due hdue rfl
    cases (foldl_evict_of_mem hdue s).2.symm.trans hrow
  refine ⟨(foldl_evict_of_forall_ne hspared s).2.symm.trans hrow, fun time hle hmem => ?_⟩
  exact hspared (time, key) (List.mem_filter.mpr ⟨hmem, decide_eq_true hle⟩) rfl

namespace IndexCoversData

/-- An entry is stored with its index row; the rows of other keys keep theirs. -/
theorem commitEntry (h : s.IndexCoversData) (entry : StoredEntry) :
    (s.commitEntry entry).IndexCoversData := by
  intro key row stored hrow hdecode
  by_cases hkey : key = entry.key
  · rw [dhtData_commitEntry, hkey, Function.update_self] at hrow
    cases hrow
    rw [StoredEntry.decode_encode] at hdecode
    cases hdecode
    rw [hkey]
    exact List.mem_insert_self
  · rw [dhtData_commitEntry, Function.update_of_ne hkey] at hrow
    exact List.mem_insert_of_mem (h key row stored hrow hdecode)

/-- A batch writes the index with the data. -/
theorem batch (h : s.IndexCoversData) (entries : List StoredEntry) :
    (entries.foldl PersistentStore.commitEntry s).IndexCoversData := by
  induction entries generalizing s with
  | nil => exact h
  | cons entry entries ih => exact ih (h.commitEntry entry)

/-- Index rows without a data row are allowed. -/
theorem deleteRow (h : s.IndexCoversData) (key : Key) : (s.deleteRow key).IndexCoversData := by
  intro other row entry hrow hdecode
  by_cases hkey : other = key
  · rw [dhtData_deleteRow, hkey, Function.update_self] at hrow
    cases hrow
  · rw [dhtData_deleteRow, Function.update_of_ne hkey] at hrow
    exact h other row entry hrow hdecode

/-- After a pass, nothing that is due is left. -/
theorem nothingDue_gc (h : s.IndexCoversData) (now : UInt64) : (s.gc now).NothingDue now := by
  intro key row entry hrow hdecode hexpired
  obtain ⟨hold, hfree⟩ := dhtData_gc hrow
  exact hfree entry.expiresAt hexpired (h key row entry hold hdecode)

/-- A pass deletes the index with the data. -/
theorem gc (h : s.IndexCoversData) (now : UInt64) : (s.gc now).IndexCoversData := by
  intro key row entry hrow hdecode
  have hold : s.dhtData key = some row := (dhtData_gc hrow).1
  refine mem_expireIndex_foldl_evict ?_ (h key row entry hold hdecode)
  intro hdue
  have hexpired : entry.IsExpired now := of_decide_eq_true (List.mem_filter.mp hdue).2
  exact h.nothingDue_gc now key row entry hrow hdecode hexpired

/-- Every transaction keeps the index complete. -/
theorem transact (h : s.IndexCoversData) (transaction : Transaction) :
    (s.transact transaction).IndexCoversData := by
  cases transaction with
  | batch entries => exact h.batch entries
  | delete key => exact h.deleteRow key
  | gc now => exact h.gc now

end IndexCoversData

/-- The index is complete after any transactions. -/
theorem indexCoversData_afterTransactions (transactions : List Transaction) :
    (afterTransactions transactions).IndexCoversData := by
  induction transactions using List.reverseRecOn with
  | nil =>
    intro key row entry hrow
    cases hrow
  | append_singleton transactions last ih =>
    rw [afterTransactions, List.foldl_concat]
    exact ih.transact last

/-- The index covers the data table after any sequence of transactions, and so a pass leaves
no expired row behind. -/
theorem expireIndex_covers_dhtData (transactions : List Transaction) :
    (afterTransactions transactions).IndexCoversData ∧
      ∀ now, ((afterTransactions transactions).gc now).NothingDue now := by
  have hcovers := indexCoversData_afterTransactions transactions
  exact ⟨hcovers, fun now => hcovers.nothingDue_gc now⟩

end PersistentStore

end CekyP2P.Dht
