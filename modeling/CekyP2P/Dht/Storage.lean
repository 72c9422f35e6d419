import CekyP2P.Dht.Error
import CekyP2P.Core.Buf
import CekyP2P.Crypto.Identity

/-!
# Persistent store

A hot cache over a database with two tables: the encoded entries under their keys, and
an index of keys under expiration times. Writes reach the database through a queue and are
committed in batches; a background pass deletes what the index says has expired.
Transactions succeed, and the clock is an input.
-/

namespace CekyP2P.Dht

open Crypto Reader

/-- The key of an entry. -/
abbrev Key := Vector UInt8 32

/-- An entry of the store. -/
structure StoredEntry where
  key : Key
  value : List UInt8
  publisher : PeerId
  expiresAt : UInt64
  deriving DecidableEq

namespace StoredEntry

/-- The time of the entry has come. -/
def IsExpired (entry : StoredEntry) (now : UInt64) : Prop := entry.expiresAt ≤ now

instance (entry : StoredEntry) (now : UInt64) : Decidable (entry.IsExpired now) :=
  inferInstanceAs (Decidable (entry.expiresAt ≤ now))

/-- What is expired stays expired. -/
theorem IsExpired.mono {entry : StoredEntry} {now later : UInt64} (h : entry.IsExpired now)
    (hle : now ≤ later) : entry.IsExpired later :=
  UInt64.le_trans h hle

/-- An entry as a row of the database. -/
def encode (entry : StoredEntry) : List UInt8 :=
  entry.key.toList ++ entry.publisher.bytes.toList ++ toBeBytes 8 entry.expiresAt.toNat ++
    toBeBytes 4 (UInt32.ofNat entry.value.length).toNat ++ entry.value

/-- The fields of an entry, after the length checks. -/
def read : Reader DhtError StoredEntry := do
  let payload ← get
  if payload.length < 76 then
    throw (.error (.invalidKey "payload too short for stored entry"))
  else do
    let key ← copyToSlice 32
    let publisher ← copyToSlice 32
    let expiresAt ← getU64
    let valLen ← getU32
    if payload.length < 76 + valLen.toNat then
      throw (.error (.invalidKey "payload too short for value"))
    else do
      let value ← copyToBytes valLen.toNat
      pure ⟨key, value, ⟨publisher⟩, expiresAt⟩

/-- The entry in a row of the database. -/
def decode (payload : List UInt8) : Except (Stop DhtError) StoredEntry := read.parse payload

/-- Both lengths are checked before the bytes are read. -/
theorem safe_read : Safe 0 read := by
  intro payload _
  rw [read, Exec.get_bind_apply]
  split
  case isTrue => trivial
  case isFalse hlen =>
    have hsum : 32 + (32 + (8 + (4 + (payload.length - 76)))) ≤ payload.length := by omega
    refine Safe.mono ?_ hsum payload (Nat.le_refl _)
    refine (fits_copyToSlice 32).bind_safe fun _ => (fits_copyToSlice 32).bind_safe fun _ => ?_
    refine fits_getU64.bind_safe fun _ => fits_getU32.bind_safe fun valLen => ?_
    refine .check _ fun hvalue => ?_
    have hle : valLen.toNat ≤ payload.length - 76 := by omega
    exact ((fits_copyToBytes valLen.toNat).safe.bind fun _ => (fits_pure _).safe).mono hle

/-- Decoding never panics. -/
theorem decode_answered (payload : List UInt8) : Answered (decode payload) :=
  safe_read.parse (Nat.zero_le _)

/-- What an entry becomes in the database: the length of its value is kept in 32 bits. -/
def truncated (entry : StoredEntry) : StoredEntry :=
  { entry with value := entry.value.take (UInt32.ofNat entry.value.length).toNat }

/-- Values shorter than 4 GiB are kept whole. -/
theorem truncated_eq {entry : StoredEntry} (hshort : entry.value.length < 2 ^ 32) :
    entry.truncated = entry := by
  rw [truncated, UInt32.toNat_ofNat', Nat.mod_eq_of_lt hshort, List.take_length]

/-- A row gives back its entry, but for values that are too long. -/
theorem decode_encode (entry : StoredEntry) : decode entry.encode = .ok entry.truncated := by
  have hlen : (UInt32.ofNat entry.value.length).toNat ≤ entry.value.length := by
    rw [UInt32.toNat_ofNat']
    exact Nat.mod_le _ _
  have hencode : entry.encode.length = 76 + entry.value.length := by
    simp only [encode, List.length_append, Vector.length_toList, length_toBeBytes]
  have hsplit : entry.encode = entry.key.toList ++ (entry.publisher.bytes.toList ++
      (toBeBytes 8 entry.expiresAt.toNat ++
        (toBeBytes 4 (UInt32.ofNat entry.value.length).toNat ++ entry.value))) := by
    simp only [encode, List.append_assoc]
  rw [decode, parse_eq_ok]
  refine ⟨entry.value.drop (UInt32.ofNat entry.value.length).toNat, ?_⟩
  rw [read, Exec.bind_apply, Exec.get_apply]
  simp only
  rw [if_neg (by omega)]
  refine Exec.bind_eq_ok.mpr ⟨_, _, copyToSlice_eq_ok.mpr hsplit, ?_⟩
  refine Exec.bind_eq_ok.mpr ⟨_, _, copyToSlice_eq_ok.mpr rfl, ?_⟩
  refine Exec.bind_eq_ok.mpr ⟨_, _, getU64_eq_ok.mpr rfl, ?_⟩
  refine Exec.bind_eq_ok.mpr ⟨_, _, getU32_eq_ok.mpr rfl, ?_⟩
  rw [if_neg (by omega)]
  refine Exec.bind_eq_ok.mpr ⟨_, _, copyToBytes_eq_ok.mpr
    ⟨(List.take_append_drop _ _).symm, List.length_take_of_le hlen⟩, rfl⟩

end StoredEntry

/-- The cache, the queue of the batch writer and the tables of the database. -/
structure PersistentStore where
  hotCache : Key → Option StoredEntry
  /-- Entries sent to the batch writer and not yet committed. -/
  writeQueue : List StoredEntry
  /-- The table `DHT_DATA`. -/
  dhtData : Key → Option (List UInt8)
  /-- The rows of the multimap table `EXPIRE_INDEX`, each once. -/
  expireIndex : List (UInt64 × Key)

namespace PersistentStore

/-- A store opened over the tables of a database. -/
def new (dhtData : Key → Option (List UInt8)) (expireIndex : List (UInt64 × Key)) :
    PersistentStore where
  hotCache := fun _ => none
  writeQueue := []
  dhtData := dhtData
  expireIndex := expireIndex

/-- Put an entry into the hot cache. -/
def fill (key : Key) (entry : StoredEntry) (s : PersistentStore) : PersistentStore :=
  { s with hotCache := Function.update s.hotCache key (some entry) }

/-- Send an entry to the batch writer. -/
def enqueue (entry : StoredEntry) (s : PersistentStore) : PersistentStore :=
  { s with writeQueue := s.writeQueue ++ [entry] }

/-- An entry goes to the cache at once and to the database through the queue. -/
def put (entry : StoredEntry) (s : PersistentStore) : PersistentStore :=
  (s.fill entry.key entry).enqueue entry

/-- The cold lookup of `get`: the entry in the database, if it decodes and is not expired. -/
def readDb (now : UInt64) (key : Key) (s : PersistentStore) : Option StoredEntry :=
  match s.dhtData key with
  | none => none
  | some row =>
    match StoredEntry.decode row with
    | .error _ => none
    | .ok entry => if entry.IsExpired now then none else some entry

/-- An entry that is read from the database is put into the hot cache. -/
def get (now : UInt64) (key : Key) (s : PersistentStore) : Option StoredEntry × PersistentStore :=
  match s.hotCache key with
  | some entry => (if entry.IsExpired now then none else some entry, s)
  | none =>
    match s.readDb now key with
    | some entry => (some entry, s.fill key entry)
    | none => (none, s)

/-- The part of `remove` that runs before it returns; the rest is `deleteRow`. -/
def remove (key : Key) (s : PersistentStore) : PersistentStore :=
  { s with hotCache := Function.update s.hotCache key none }

/-- The task that `remove` spawns. -/
def deleteRow (key : Key) (s : PersistentStore) : PersistentStore :=
  { s with dhtData := Function.update s.dhtData key none }

/-- One entry of a batch. -/
def commitEntry (s : PersistentStore) (entry : StoredEntry) : PersistentStore :=
  { s with
    dhtData := Function.update s.dhtData entry.key (some entry.encode)
    expireIndex := s.expireIndex.insert (entry.expiresAt, entry.key) }

/-- The batch writer commits the first `n` entries of the queue. -/
def commit (n : Nat) (s : PersistentStore) : PersistentStore :=
  (s.writeQueue.take n).foldl commitEntry { s with writeQueue := s.writeQueue.drop n }

/-- The rows of the index up to a time. -/
def dueRows (now : UInt64) (s : PersistentStore) : List (UInt64 × Key) :=
  s.expireIndex.filter fun row => row.1 ≤ now

/-- What the transaction of a pass does for one row. -/
def deleteDue (s : PersistentStore) (row : UInt64 × Key) : PersistentStore :=
  { s.deleteRow row.2 with expireIndex := s.expireIndex.erase row }

/-- One row of a garbage collection pass. -/
def evict (s : PersistentStore) (row : UInt64 × Key) : PersistentStore :=
  (s.remove row.2).deleteDue row

/-- A pass of the garbage collection task. -/
def gc (now : UInt64) (s : PersistentStore) : PersistentStore := (s.dueRows now).foldl evict s

section

variable (s : PersistentStore) (key : Key) (entry : StoredEntry)

@[simp] theorem hotCache_put : (s.put entry).hotCache =
    Function.update s.hotCache entry.key (some entry) := rfl
@[simp] theorem hotCache_fill : (s.fill key entry).hotCache =
    Function.update s.hotCache key (some entry) := rfl
@[simp] theorem hotCache_remove : (s.remove key).hotCache =
    Function.update s.hotCache key none := rfl
@[simp] theorem dhtData_deleteRow : (s.deleteRow key).dhtData =
    Function.update s.dhtData key none := rfl
@[simp] theorem dhtData_commitEntry : (s.commitEntry entry).dhtData =
    Function.update s.dhtData entry.key (some entry.encode) := rfl

end

/-! ## What the background tasks leave -/

variable {s : PersistentStore} {key : Key}

/-- When the cold lookup finds nothing. -/
theorem readDb_eq_none {now : UInt64} : s.readDb now key = none ↔
    ∀ row, s.dhtData key = some row → ∀ entry, StoredEntry.decode row = .ok entry →
      entry.IsExpired now := by
  rw [readDb]
  cases s.dhtData key with
  | none => simp
  | some row =>
    cases hdecode : StoredEntry.decode row with
    | error e => simp [hdecode]
    | ok entry => simp [hdecode]

/-- When the cold lookup finds an entry. -/
theorem readDb_eq_some {now : UInt64} {entry : StoredEntry} : s.readDb now key = some entry ↔
    ∃ row, s.dhtData key = some row ∧ StoredEntry.decode row = .ok entry ∧
      ¬entry.IsExpired now := by
  rw [readDb]
  cases s.dhtData key with
  | none => simp
  | some row =>
    cases hdecode : StoredEntry.decode row with
    | error e => simp [hdecode]
    | ok stored =>
      simp only [hdecode, Option.ite_none_left_eq_some, Option.some.injEq, exists_eq_left',
        Except.ok.injEq]
      constructor
      · rintro ⟨hlive, rfl⟩
        exact ⟨rfl, hlive⟩
      · rintro ⟨rfl, hlive⟩
        exact ⟨hlive, rfl⟩

/-- A batch leaves the cache alone. -/
@[simp] theorem hotCache_foldl_commitEntry (entries : List StoredEntry) (s : PersistentStore) :
    (entries.foldl commitEntry s).hotCache = s.hotCache := by
  induction entries generalizing s with
  | nil => rfl
  | cons entry entries ih => exact ih (s.commitEntry entry)

/-- A commit leaves the cache alone. -/
@[simp] theorem hotCache_commit (n : Nat) (s : PersistentStore) :
    (s.commit n).hotCache = s.hotCache :=
  hotCache_foldl_commitEntry _ _

/-- A batch leaves the queue alone. -/
@[simp] theorem writeQueue_foldl_commitEntry (entries : List StoredEntry) (s : PersistentStore) :
    (entries.foldl commitEntry s).writeQueue = s.writeQueue := by
  induction entries generalizing s with
  | nil => rfl
  | cons entry entries ih => exact ih (s.commitEntry entry)

/-- A commit takes its entries out of the queue. -/
@[simp] theorem writeQueue_commit (n : Nat) (s : PersistentStore) :
    (s.commit n).writeQueue = s.writeQueue.drop n :=
  writeQueue_foldl_commitEntry _ _

/-- A committed row is an old one or an entry of the batch. -/
theorem dhtData_foldl_commitEntry (entries : List StoredEntry) (s : PersistentStore) (key : Key) :
    (entries.foldl commitEntry s).dhtData key = s.dhtData key ∨
      ∃ entry ∈ entries, entry.key = key ∧
        (entries.foldl commitEntry s).dhtData key = some entry.encode := by
  induction entries using List.reverseRecOn with
  | nil => exact Or.inl rfl
  | append_singleton entries entry ih =>
    rw [List.foldl_concat]
    by_cases hkey : key = entry.key
    · subst hkey
      exact Or.inr ⟨entry, by simp, rfl, Function.update_self _ _ _⟩
    · have hsame : ((entries.foldl commitEntry s).commitEntry entry).dhtData key =
          (entries.foldl commitEntry s).dhtData key := Function.update_of_ne hkey _ _
      rw [hsame]
      rcases ih with hold | ⟨e, he, hrow⟩
      · exact Or.inl hold
      · exact Or.inr ⟨e, List.mem_append_left _ he, hrow⟩

/-- Committing up to an entry of the queue leaves that entry in the table. -/
theorem dhtData_commit_of_split {before after : List StoredEntry} {entry : StoredEntry}
    (hqueue : s.writeQueue = before ++ entry :: after) :
    (s.commit (before.length + 1)).dhtData entry.key = some entry.encode := by
  have hbatch : s.writeQueue.take (before.length + 1) = before ++ [entry] := by
    rw [hqueue, List.take_append, List.take_of_length_le (by omega), Nat.add_sub_cancel_left]
    rfl
  rw [commit, hbatch, List.foldl_concat]
  exact Function.update_self _ _ _

/-- A pass removes the keys of its rows from the cache and the table. -/
theorem foldl_evict_of_mem {rows : List (UInt64 × Key)} {row : UInt64 × Key} (hrow : row ∈ rows)
    (s : PersistentStore) : (rows.foldl evict s).hotCache row.2 = none ∧
      (rows.foldl evict s).dhtData row.2 = none := by
  induction rows using List.reverseRecOn with
  | nil => cases hrow
  | append_singleton rows last ih =>
    rw [List.foldl_concat]
    by_cases hkey : row.2 = last.2
    · rw [hkey]
      exact ⟨Function.update_self _ _ _, Function.update_self _ _ _⟩
    · have hmem : row ∈ rows := by
        rcases List.mem_append.mp hrow with hmem | hlast
        · exact hmem
        · exact absurd (congrArg Prod.snd (List.mem_singleton.mp hlast)) hkey
      obtain ⟨hcache, hdata⟩ := ih hmem
      exact ⟨(Function.update_of_ne hkey _ _).trans hcache,
        (Function.update_of_ne hkey _ _).trans hdata⟩

/-- It leaves all other keys alone. -/
theorem foldl_evict_of_forall_ne {rows : List (UInt64 × Key)} {key : Key}
    (hne : ∀ row ∈ rows, row.2 ≠ key) (s : PersistentStore) :
    (rows.foldl evict s).hotCache key = s.hotCache key ∧
      (rows.foldl evict s).dhtData key = s.dhtData key := by
  induction rows generalizing s with
  | nil => exact ⟨rfl, rfl⟩
  | cons row rows ih =>
    have hrow : key ≠ row.2 := (hne row List.mem_cons_self).symm
    obtain ⟨hcache, hdata⟩ := ih (fun r hr => hne r (List.mem_cons_of_mem _ hr)) (s.evict row)
    exact ⟨hcache.trans (Function.update_of_ne hrow _ _),
      hdata.trans (Function.update_of_ne hrow _ _)⟩

/-! ## Copies of entries -/

/-- Every entry in the cache, in the queue or in the table has the property, with the key
under which it is found. -/
structure Holds (s : PersistentStore) (P : Key → StoredEntry → Prop) : Prop where
  cached : ∀ key entry, s.hotCache key = some entry → P key entry
  queued : ∀ entry ∈ s.writeQueue, P entry.key entry
  stored : ∀ key row entry, s.dhtData key = some row → StoredEntry.decode row = .ok entry →
    P key entry

namespace Holds

variable {P Q : Key → StoredEntry → Prop}

/-- A weaker property holds as well. -/
theorem mono (h : s.Holds P) (hle : ∀ key entry, P key entry → Q key entry) : s.Holds Q where
  cached := fun key entry hcached => hle key entry (h.cached key entry hcached)
  queued := fun entry hqueued => hle entry.key entry (h.queued entry hqueued)
  stored := fun key row entry hrow hdecode => hle key entry (h.stored key row entry hrow hdecode)

/-- An entry with the property may be put into the cache. -/
theorem fill (h : s.Holds P) {key : Key} {entry : StoredEntry} (hentry : P key entry) :
    (s.fill key entry).Holds P where
  cached := by
    intro other e hcached
    by_cases hkey : other = key
    · rw [hotCache_fill, hkey, Function.update_self] at hcached
      cases hcached
      exact hkey ▸ hentry
    · rw [hotCache_fill, Function.update_of_ne hkey] at hcached
      exact h.cached other e hcached
  queued := h.queued
  stored := h.stored

/-- An entry with the property may be sent to the writer. -/
theorem enqueue (h : s.Holds P) {entry : StoredEntry} (hentry : P entry.key entry) :
    (s.enqueue entry).Holds P where
  cached := h.cached
  queued := List.forall_mem_append.mpr ⟨h.queued, List.forall_mem_singleton.mpr hentry⟩
  stored := h.stored

/-- An entry with the property may be put. -/
theorem put (h : s.Holds P) {entry : StoredEntry} (hentry : P entry.key entry) :
    (s.put entry).Holds P :=
  (h.fill hentry).enqueue hentry

/-- A removal leaves fewer entries. -/
theorem remove (h : s.Holds P) (key : Key) : (s.remove key).Holds P where
  cached := by
    intro other e hcached
    by_cases hkey : other = key
    · rw [hotCache_remove, hkey, Function.update_self] at hcached
      cases hcached
    · rw [hotCache_remove, Function.update_of_ne hkey] at hcached
      exact h.cached other e hcached
  queued := h.queued
  stored := h.stored

/-- A deletion leaves fewer entries. -/
theorem deleteRow (h : s.Holds P) (key : Key) : (s.deleteRow key).Holds P where
  cached := h.cached
  queued := h.queued
  stored := by
    intro other row e hrow
    by_cases hkey : other = key
    · rw [dhtData_deleteRow, hkey, Function.update_self] at hrow
      cases hrow
    · rw [dhtData_deleteRow, Function.update_of_ne hkey] at hrow
      exact h.stored other row e hrow

/-- What a batch writes can be cut short by the encoding. -/
theorem commit (h : s.Holds P) (htruncated : ∀ key entry, P key entry → P key entry.truncated)
    (n : Nat) : (s.commit n).Holds P where
  cached := by
    rw [hotCache_commit]
    exact h.cached
  queued := by
    rw [writeQueue_commit]
    exact fun e hqueued => h.queued e (List.mem_of_mem_drop hqueued)
  stored := by
    intro key row entry hrow hdecode
    rcases dhtData_foldl_commitEntry (s.writeQueue.take n)
        { s with writeQueue := s.writeQueue.drop n } key with hold | ⟨e, he, hkey, hnew⟩
    · exact h.stored key row entry (hold.symm.trans hrow) hdecode
    · obtain rfl : e.encode = row := Option.some.inj (hnew.symm.trans hrow)
      rw [StoredEntry.decode_encode] at hdecode
      cases hdecode
      exact htruncated key e (hkey ▸ h.queued e (List.mem_of_mem_take he))

/-- The transaction of a pass leaves fewer entries. -/
theorem deleteDue (h : s.Holds P) (row : UInt64 × Key) : (s.deleteDue row).Holds P :=
  ⟨h.cached, h.queued, (h.deleteRow row.2).stored⟩

/-- The transaction of a pass, over all its rows. -/
theorem foldl_deleteDue (h : s.Holds P) (rows : List (UInt64 × Key)) :
    (rows.foldl PersistentStore.deleteDue s).Holds P := by
  induction rows generalizing s with
  | nil => exact h
  | cons row rows ih => exact ih (h.deleteDue row)

/-- A pass, over all its rows. -/
theorem foldl_evict (h : s.Holds P) (rows : List (UInt64 × Key)) :
    (rows.foldl evict s).Holds P := by
  induction rows generalizing s with
  | nil => exact h
  | cons row rows ih => exact ih ((h.remove row.2).deleteDue row)

/-- A pass leaves fewer entries. -/
theorem gc (h : s.Holds P) (now : UInt64) : (s.gc now).Holds P := h.foldl_evict _

end Holds

end PersistentStore

end CekyP2P.Dht
