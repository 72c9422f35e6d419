import CekyP2P.Core.FiniteMap
import CekyP2P.Transport.Connection

/-!
# The connection pool

A map of connections under the addresses of their peers, with a limit and two counters. A call
of `insert` is several steps on the shared pool: it looks at the number of connections, enters
the new one, and counts it. Calls of different tasks interleave, so the limit that one of them
has seen may be reached by another one before it enters its connection.
-/

namespace CekyP2P.Transport

open Transfer

/-- The entries by their addresses, with the limit and two counters. -/
structure ConnectionPool where
  connections : AList fun _ : SocketAddr => ConnectionInfo
  maxConnections : UInt64
  totalCreated : UInt64
  totalRemoved : UInt64

namespace ConnectionPool

/-- A pool without entries. -/
def new (maxConnections : UInt64) : ConnectionPool := ⟨∅, maxConnections, 0, 0⟩

/-- The number of entries. -/
def len (pool : ConnectionPool) : Nat := pool.connections.keys.length

/-- The entry of a peer. -/
def entry (pool : ConnectionPool) (peerAddr : SocketAddr) : Option ConnectionInfo :=
  pool.connections.lookup peerAddr

/-- The length check of `insert`. -/
def isFull (pool : ConnectionPool) : Bool := pool.maxConnections.toNat ≤ pool.len

/-- A new entry in the place of a vacant one. -/
def enter (peerAddr : SocketAddr) (pool : ConnectionPool) : ConnectionPool :=
  { pool with connections := pool.connections.insert peerAddr .new }

/-- Count an entry that was made. -/
def countCreated (pool : ConnectionPool) : ConnectionPool :=
  { pool with totalCreated := pool.totalCreated + 1 }

/-- Count an entry that was removed. -/
def countRemoved (pool : ConnectionPool) : ConnectionPool :=
  { pool with totalRemoved := pool.totalRemoved + 1 }

/-- Insert a new connection; a duplicate is silently accepted. -/
def insert (peerAddr : SocketAddr) : Exec TransportError ConnectionPool Unit := do
  let pool ← get
  if pool.isFull then throw (.error (.poolFull pool.maxConnections.toNat))
  else
    match pool.entry peerAddr with
    | some _ => pure ()
    | none => set (pool.enter peerAddr).countCreated

/-- The removal from the map. -/
def leave (peerAddr : SocketAddr) (pool : ConnectionPool) : ConnectionPool :=
  { pool with connections := pool.connections.erase peerAddr }

/-- Remove a connection from the pool. -/
def remove (peerAddr : SocketAddr) (pool : ConnectionPool) :
    Option ConnectionInfo × ConnectionPool :=
  match pool.entry peerAddr with
  | some info => (some info, (pool.leave peerAddr).countRemoved)
  | none => (none, pool)

/-- Change the entry of a peer, if it has one. -/
def withConnection (peerAddr : SocketAddr) (f : ConnectionInfo → ConnectionInfo)
    (pool : ConnectionPool) : ConnectionPool :=
  match pool.entry peerAddr with
  | some info => { pool with connections := pool.connections.insert peerAddr (f info) }
  | none => pool

section

variable {pool : ConnectionPool} {peerAddr addr : SocketAddr}

@[simp] theorem entry_new (maxConnections : UInt64) (addr : SocketAddr) :
    (new maxConnections).entry addr = none := AList.lookup_empty addr

/-- The entries after one was made. -/
theorem entry_enter (pool : ConnectionPool) (peerAddr addr : SocketAddr) :
    (pool.enter peerAddr).entry addr = if addr = peerAddr then some .new else pool.entry addr :=
  FiniteMap.lookup_insert pool.connections peerAddr addr .new

/-- The entries after one has left. -/
theorem entry_leave (pool : ConnectionPool) (peerAddr addr : SocketAddr) :
    (pool.leave peerAddr).entry addr = if addr = peerAddr then none else pool.entry addr :=
  FiniteMap.lookup_erase pool.connections peerAddr addr

/-- The entries after one was removed. -/
theorem entry_remove (pool : ConnectionPool) (peerAddr addr : SocketAddr) :
    (pool.remove peerAddr).2.entry addr = if addr = peerAddr then none else pool.entry addr := by
  unfold remove
  split
  case h_1 info hentry => exact entry_leave pool peerAddr addr
  case h_2 hentry =>
    split
    case isTrue heq => rw [heq, hentry]
    case isFalse => rfl

/-- The entries after one was changed. -/
theorem entry_withConnection (f : ConnectionInfo → ConnectionInfo) (pool : ConnectionPool)
    (peerAddr addr : SocketAddr) : (pool.withConnection peerAddr f).entry addr =
      if addr = peerAddr then (pool.entry addr).map f else pool.entry addr := by
  unfold withConnection
  split
  case h_1 info hentry =>
    refine (FiniteMap.lookup_insert pool.connections peerAddr addr (f info)).trans ?_
    split
    case isTrue heq => rw [heq, hentry, Option.map_some]
    case isFalse => rfl
  case h_2 hentry =>
    split
    case isTrue heq => rw [heq, hentry, Option.map_none]
    case isFalse => rfl

/-- Other entries are left. -/
theorem entry_withConnection_of_ne (f : ConnectionInfo → ConnectionInfo) (pool : ConnectionPool)
    (h : addr ≠ peerAddr) : (pool.withConnection peerAddr f).entry addr = pool.entry addr :=
  (entry_withConnection f pool peerAddr addr).trans (if_neg h)

/-- A changed entry was there before. -/
theorem of_entry_withConnection {f : ConnectionInfo → ConnectionInfo} {info' : ConnectionInfo}
    (h : (pool.withConnection peerAddr f).entry peerAddr = some info') :
    ∃ info, pool.entry peerAddr = some info ∧ info' = f info := by
  rw [entry_withConnection, if_pos rfl] at h
  obtain ⟨info, hinfo, heq⟩ := Option.map_eq_some_iff.mp h
  exact ⟨info, hinfo, heq.symm⟩

/-- A new entry adds one. -/
theorem len_enter (h : pool.entry peerAddr = none) : (pool.enter peerAddr).len = pool.len + 1 :=
  FiniteMap.length_keys_insert_of_none h .new

/-- An entry that leaves takes one. -/
theorem len_leave {info : ConnectionInfo} (h : pool.entry peerAddr = some info) :
    (pool.leave peerAddr).len + 1 = pool.len :=
  FiniteMap.length_keys_erase_of_some h

end

end ConnectionPool

/-- A peer on the local host. -/
def localPeer (port : UInt16) : SocketAddr := ⟨.v4 (Ipv4Addr.new 127 0 0 1), port⟩

/-! ## Tasks that share a pool -/

/-- A call in progress, between two steps on the pool. -/
inductive PoolCall
  /-- `insert` has seen room. -/
  | inserting (peerAddr : SocketAddr)
  /-- `insert` has entered its connection and has not counted it. -/
  | created
  /-- `remove` has removed a connection and has not counted it. -/
  | removed
  deriving DecidableEq

/-- A call of `insert` between its length check and its entry. -/
def PoolCall.isInserting : PoolCall → Bool
  | .inserting _ => true
  | _ => false

/-- The pool and the calls that are in progress. -/
structure PoolTasks where
  pool : ConnectionPool
  calls : List PoolCall

/-- A step of some task. -/
inductive PoolStep
  /-- A call of `insert` begins with the length check. -/
  | check (peerAddr : SocketAddr)
  /-- The entry of the map: occupied or vacant. -/
  | enter (peerAddr : SocketAddr)
  | countCreated
  /-- A call of `remove` begins with the removal. -/
  | remove (peerAddr : SocketAddr)
  | countRemoved

namespace PoolTasks

/-- A new pool, and no task that uses it. -/
def start (maxConnections : UInt64) : PoolTasks := ⟨.new maxConnections, []⟩

/-- A step that no task is at changes nothing. -/
def step (s : PoolTasks) : PoolStep → PoolTasks
  | .check peerAddr =>
    if s.pool.isFull then s else { s with calls := .inserting peerAddr :: s.calls }
  | .enter peerAddr =>
    if .inserting peerAddr ∈ s.calls then
      let calls := s.calls.erase (.inserting peerAddr)
      match s.pool.entry peerAddr with
      | some _ => { s with calls }
      | none => ⟨s.pool.enter peerAddr, .created :: calls⟩
    else s
  | .countCreated =>
    if .created ∈ s.calls then ⟨s.pool.countCreated, s.calls.erase .created⟩ else s
  | .remove peerAddr =>
    match s.pool.entry peerAddr with
    | some _ => ⟨s.pool.leave peerAddr, .removed :: s.calls⟩
    | none => s
  | .countRemoved =>
    if .removed ∈ s.calls then ⟨s.pool.countRemoved, s.calls.erase .removed⟩ else s

/-- A call of `insert` that is not interrupted is the method. -/
theorem insert_uninterrupted (pool : ConnectionPool) (peerAddr : SocketAddr) :
    [.check peerAddr, .enter peerAddr, .countCreated].foldl step ⟨pool, []⟩ =
      ⟨Exec.stateAfter (ConnectionPool.insert peerAddr pool), []⟩ := by
  simp only [List.foldl_cons, List.foldl_nil, step, ConnectionPool.insert, Exec.bind_apply,
    Exec.get_apply]
  cases hfull : pool.isFull with
  | true => simp [Exec.stateAfter]
  | false => cases hentry : pool.entry peerAddr <;> simp [hentry] <;> rfl

/-- A removal that nothing interrupts. -/
theorem remove_uninterrupted (pool : ConnectionPool) (peerAddr : SocketAddr) :
    [.remove peerAddr, .countRemoved].foldl step ⟨pool, []⟩ = ⟨(pool.remove peerAddr).2, []⟩ := by
  simp only [List.foldl_cons, List.foldl_nil, step, ConnectionPool.remove]
  cases hentry : pool.entry peerAddr <;> simp

/-! ## The limit -/

/-- The limit is kept, and the counters agree when no call is in progress. -/
def WithinLimit (s : PoolTasks) : Prop :=
  s.pool.len ≤ s.pool.maxConnections.toNat ∧
    (s.calls = [] → s.pool.len = (s.pool.totalCreated - s.pool.totalRemoved).toNat)

/-- A connection is entered only while no other call of `insert` is between its length check and
its entry. -/
def Alone (s : PoolTasks) : PoolStep → Prop
  | .enter peerAddr => .inserting peerAddr ∈ s.calls → s.pool.entry peerAddr = none →
      ∀ call ∈ s.calls.erase (.inserting peerAddr), call.isInserting = false
  | _ => True

instance aloneDecidable (s : PoolTasks) : ∀ st, Decidable (s.Alone st)
  | .enter _ => inferInstanceAs (Decidable (_ → _ → _))
  | .check _ | .countCreated | .remove _ | .countRemoved => .isTrue trivial

/-- The counters, apart from what the calls in progress have still to count. -/
def Counted (s : PoolTasks) : Prop := ∃ created removed : Nat,
  s.pool.totalCreated = UInt64.ofNat created ∧ s.pool.totalRemoved = UInt64.ofNat removed ∧
    created + s.calls.count .created = s.pool.len + removed + s.calls.count .removed

/-- Every way in which a step can go. -/
inductive Stepped (s : PoolTasks) : PoolStep → PoolTasks → Prop
  /-- The pool is full, there is nothing to remove, or no task is at this step. -/
  | idle {st : PoolStep} : Stepped s st s
  | checked (peerAddr : SocketAddr) (hroom : s.pool.len < s.pool.maxConnections.toNat) :
      Stepped s (.check peerAddr) ⟨s.pool, .inserting peerAddr :: s.calls⟩
  | occupied {peerAddr : SocketAddr} {info : ConnectionInfo}
      (hentry : s.pool.entry peerAddr = some info) :
      Stepped s (.enter peerAddr) ⟨s.pool, s.calls.erase (.inserting peerAddr)⟩
  | entered {peerAddr : SocketAddr} (hmem : .inserting peerAddr ∈ s.calls)
      (hentry : s.pool.entry peerAddr = none) : Stepped s (.enter peerAddr)
        ⟨s.pool.enter peerAddr, .created :: s.calls.erase (.inserting peerAddr)⟩
  | countedCreated (hmem : .created ∈ s.calls) :
      Stepped s .countCreated ⟨s.pool.countCreated, s.calls.erase .created⟩
  | removed {peerAddr : SocketAddr} {info : ConnectionInfo}
      (hentry : s.pool.entry peerAddr = some info) :
      Stepped s (.remove peerAddr) ⟨s.pool.leave peerAddr, .removed :: s.calls⟩
  | countedRemoved (hmem : .removed ∈ s.calls) :
      Stepped s .countRemoved ⟨s.pool.countRemoved, s.calls.erase .removed⟩

/-- Every step is one of those described. -/
theorem step_stepped (s : PoolTasks) (st : PoolStep) : s.Stepped st (s.step st) := by
  cases st with
  | check peerAddr =>
    cases hfull : s.pool.isFull with
    | true =>
      rw [step, if_pos hfull]
      exact .idle
    | false =>
      have hroom : s.pool.len < s.pool.maxConnections.toNat := by
        simpa [ConnectionPool.isFull] using hfull
      simpa [step, hfull] using Stepped.checked peerAddr hroom
  | enter peerAddr =>
    by_cases hmem : .inserting peerAddr ∈ s.calls
    · cases hentry : s.pool.entry peerAddr with
      | some info => simpa [step, hmem, hentry] using Stepped.occupied hentry
      | none => simpa [step, hmem, hentry] using Stepped.entered hmem hentry
    · rw [step, if_neg hmem]
      exact .idle
  | countCreated =>
    by_cases hmem : .created ∈ s.calls
    · rw [step, if_pos hmem]
      exact .countedCreated hmem
    · rw [step, if_neg hmem]
      exact .idle
  | remove peerAddr =>
    cases hentry : s.pool.entry peerAddr with
    | some info => simpa [step, hentry] using Stepped.removed hentry
    | none =>
      simp only [step, hentry]
      exact .idle
  | countRemoved =>
    by_cases hmem : .removed ∈ s.calls
    · rw [step, if_pos hmem]
      exact .countedRemoved hmem
    · rw [step, if_neg hmem]
      exact .idle

variable {s s' : PoolTasks} {st : PoolStep}

/-- Nothing has been counted. -/
theorem counted_start (maxConnections : UInt64) : (start maxConnections).Counted :=
  ⟨0, 0, rfl, rfl, rfl⟩

/-- The counters keep up with every step. -/
theorem Counted.step (h : s.Counted) (hstep : s.Stepped st s') : s'.Counted := by
  obtain ⟨created, removed, hcreated, hremoved, hbalance⟩ := h
  cases hstep with
  | idle => exact ⟨created, removed, hcreated, hremoved, hbalance⟩
  | checked peerAddr hroom =>
    refine ⟨created, removed, hcreated, hremoved, ?_⟩
    simpa [List.count_cons] using hbalance
  | occupied hentry =>
    refine ⟨created, removed, hcreated, hremoved, ?_⟩
    simpa [List.count_erase] using hbalance
  | entered hmem hentry =>
    refine ⟨created, removed, hcreated, hremoved, ?_⟩
    simp only [ConnectionPool.len_enter hentry, List.count_cons_self, ne_eq, reduceCtorEq,
      not_false_eq_true, List.count_erase_of_ne, List.count_cons_of_ne]
    omega
  | countedCreated hmem =>
    have hpos := List.count_pos_iff.mpr hmem
    refine ⟨created + 1, removed, ?_, hremoved, ?_⟩
    · rw [ConnectionPool.countCreated, hcreated, UInt64.ofNat_add]
      rfl
    · change created + 1 + (s.calls.erase .created).count .created =
        s.pool.len + removed + (s.calls.erase .created).count .removed
      simp only [List.count_erase_self, ne_eq, reduceCtorEq, not_false_eq_true,
        List.count_erase_of_ne]
      omega
  | removed hentry =>
    have hlen := ConnectionPool.len_leave hentry
    refine ⟨created, removed, hcreated, hremoved, ?_⟩
    simp only [ne_eq, reduceCtorEq, not_false_eq_true, List.count_cons_of_ne,
      List.count_cons_self]
    omega
  | countedRemoved hmem =>
    have hpos := List.count_pos_iff.mpr hmem
    refine ⟨created, removed + 1, hcreated, ?_, ?_⟩
    · rw [ConnectionPool.countRemoved, hremoved, UInt64.ofNat_add]
      rfl
    · change created + (s.calls.erase .removed).count .created =
        s.pool.len + (removed + 1) + (s.calls.erase .removed).count .removed
      simp only [List.count_erase_self, ne_eq, reduceCtorEq, not_false_eq_true,
        List.count_erase_of_ne]
      omega

/-- The counters agree by themselves, so that the limit is all there is to keep. -/
theorem Counted.within_iff_len_le (h : s.Counted) :
    s.WithinLimit ↔ s.pool.len ≤ s.pool.maxConnections.toNat := by
  refine and_iff_left_of_imp fun hlen hcalls => ?_
  obtain ⟨created, removed, hcreated, hremoved, hbalance⟩ := h
  rw [hcalls, List.count_nil, List.count_nil] at hbalance
  have hlt : s.pool.len < 2 ^ 64 := hlen.trans_lt s.pool.maxConnections.toNat_lt
  have hsum : created = s.pool.len + removed := by omega
  rw [hcreated, hremoved, hsum, UInt64.ofNat_add, UInt64.add_sub_cancel,
    UInt64.toNat_ofNat_of_lt' hlt]

/-- The limit is kept, and there is still room for every call of `insert` that has seen it. -/
structure Kept (s : PoolTasks) : Prop where
  len_le : s.pool.len ≤ s.pool.maxConnections.toNat
  room : ∀ call ∈ s.calls, call.isInserting = true → s.pool.len < s.pool.maxConnections.toNat

/-- A new pool keeps its limit. -/
theorem kept_start (maxConnections : UInt64) : (start maxConnections).Kept :=
  ⟨Nat.zero_le _, List.forall_mem_nil _⟩

/-- A step keeps the limit unless it enters a connection between the check and the entry of
another call. -/
theorem Kept.step (h : s.Kept) (hstep : s.Stepped st s') (halone : s.Alone st) : s'.Kept := by
  cases hstep with
  | idle => exact h
  | checked peerAddr hroom => exact ⟨h.len_le, fun _ _ _ => hroom⟩
  | occupied hentry =>
    exact ⟨h.len_le, fun call hcall hins => h.room call (List.mem_of_mem_erase hcall) hins⟩
  | @entered peerAddr hmem hentry =>
    have hroom := h.room _ hmem rfl
    have hlen := ConnectionPool.len_enter hentry
    refine ⟨?_, fun call hcall hins => ?_⟩
    · change (s.pool.enter peerAddr).len ≤ s.pool.maxConnections.toNat
      omega
    · rcases List.mem_cons.mp hcall with rfl | hcall
      · cases hins
      · rw [halone hmem hentry call hcall] at hins
        cases hins
  | countedCreated hmem | countedRemoved hmem =>
    exact ⟨h.len_le, fun call hcall hins => h.room call (List.mem_of_mem_erase hcall) hins⟩
  | @removed peerAddr info hentry =>
    have hlen := ConnectionPool.len_leave hentry
    have hle := h.len_le
    have hlt : (s.pool.leave peerAddr).len < s.pool.maxConnections.toNat := by omega
    exact ⟨hlt.le, fun _ _ _ => hlt⟩

/-- In every state of a run the limit is kept and the counters agree, if no call of `insert`
enters its connection between the check and the entry of another call. -/
theorem withinLimit_of_alone (maxConnections : UInt64) (steps : List PoolStep)
    (h : Along Alone step (start maxConnections) steps) :
    ∀ taken, taken <+: steps → (taken.foldl step (start maxConnections)).WithinLimit := by
  rintro taken ⟨rest, rfl⟩
  have hinvariant := (along_append.mp h).1.invariant (I := fun s => s.Counted ∧ s.Kept)
    (fun s st hs halone =>
      ⟨hs.1.step (step_stepped s st), hs.2.step (step_stepped s st) halone⟩)
    ⟨counted_start maxConnections, kept_start maxConnections⟩
  exact hinvariant.1.within_iff_len_le.mpr hinvariant.2.len_le

/-- Two tasks share a pool with room for one connection: the second call is refused while the
first connection is there, and enters its own when that has been removed. -/
def takingTurns : List PoolStep :=
  [.check (localPeer 1), .enter (localPeer 1), .check (localPeer 2), .countCreated,
    .remove (localPeer 1), .check (localPeer 2), .countRemoved, .enter (localPeer 2),
    .check (localPeer 3), .countCreated]

/-- Two insertions that take turns stay within a limit of one. -/
theorem withinLimit_takingTurns : (takingTurns.foldl step (start 1)).pool.len = 1 ∧
    ∀ taken, taken <+: takingTurns → (taken.foldl step (start 1)).WithinLimit :=
  ⟨by decide, withinLimit_of_alone 1 takingTurns (by decide)⟩

/-- Two tasks see room for one connection, and both enter theirs. -/
theorem two_tasks_exceed_limit :
    let s := [.check (localPeer 1), .check (localPeer 2), .enter (localPeer 1),
      .enter (localPeer 2)].foldl step (start 1)
    s.pool.maxConnections = 1 ∧ s.pool.len = 2 := by
  decide

end PoolTasks

end CekyP2P.Transport
