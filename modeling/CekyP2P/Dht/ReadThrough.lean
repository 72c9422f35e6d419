import CekyP2P.Dht.Concurrent

/-!
# Reads that hide a write

A `get` that misses the cache fills it with what it has read, whatever the cache holds by
then. The runs considered here have no removal, no garbage collection pass and no expiry:
up to some horizon, the clock does not reach the expiration of any entry.
-/

namespace CekyP2P.Dht

namespace Concurrent

/-- Steps of `put`, `get`, the batch writer and the clock before the horizon. -/
def Quiet (horizon : UInt64) : AtomicStep → Prop
  | .insert entry => horizon < entry.expiresAt
  | .tick now => now ≤ horizon
  | .enqueue _ | .commit _ | .lookup _ | .read _ | .fill _ => True
  | .remove _ | .delete _ | .collect | .evict | .finishCollect => False

/-- The steps are quiet, and no `put` of the key starts. -/
def QuietOn (horizon : UInt64) (key : Key) (steps : List AtomicStep) : Prop :=
  ∀ action ∈ steps, Quiet horizon action ∧ ∀ entry, action = .insert entry → entry.key ≠ key

/-- Whatever follows a `put` that starts now, as long as no other one of the key starts, every
`get` of the key that starts after it has returned returns its entry. -/
def PutIsVisible (c : Concurrent) (horizon : UInt64) (entry : StoredEntry) : Prop :=
  ∀ steps rest, QuietOn horizon entry.key (steps ++ rest) →
    (∀ p ∈ ((c.step (.insert entry)).run steps).puts, p.id ≠ c.nextPut) →
    (∀ g ∈ ((c.step (.insert entry)).run (steps ++ rest)).gets, g.key = entry.key →
      g.id < ((c.step (.insert entry)).run steps).nextGet) ∧
    ∀ g ∈ ((c.step (.insert entry)).run (steps ++ rest)).finished, g.key = entry.key →
      ((c.step (.insert entry)).run steps).nextGet ≤ g.id → g.result = some entry

/-- Reads of the database under the key can only find the entry, now and after the `put`s
that have started are committed. -/
structure ReadsAs (c : Concurrent) (entry : StoredEntry) : Prop where
  stored : ∀ row found, c.store.dhtData entry.key = some row →
    StoredEntry.decode row = .ok found → found = entry
  queued : ∀ e ∈ c.store.writeQueue, e.key = entry.key → e.truncated = entry
  pending : ∀ p ∈ c.puts, p.entry.key = entry.key → p.entry.truncated = entry

/-- No `get` of the key that has missed the cache holds another entry or can still read one. -/
structure NoStaleRead (c : Concurrent) (entry : StoredEntry) : Prop where
  held : ∀ g ∈ c.gets, g.key = entry.key → ∀ other, g.phase = .fill other → other = entry
  unread : ∀ g ∈ c.gets, g.key = entry.key → g.phase = .read →
    c.ReadsAs entry ∧ entry.truncated = entry

/-! ## Quiet runs -/

/-- What holds in a quiet run: no entry expires before the horizon, no pass is under way, and
the `put`s under way have a number below the next one. -/
structure Fresh (c : Concurrent) (horizon : UInt64) : Prop where
  clock : c.clock ≤ horizon
  holds : c.Holds fun _ entry => horizon < entry.expiresAt
  collecting : c.collecting = none
  puts : ∀ p ∈ c.puts, p.id < c.nextPut

namespace Fresh

variable {c : Concurrent} {horizon : UInt64}

/-- The clock stays within the horizon. -/
theorem clock_step (h : c.Fresh horizon) {action : AtomicStep} (hquiet : Quiet horizon action) :
    (c.step action).clock ≤ horizon := by
  cases action with
  | insert entry => exact h.clock
  | enqueue task | commit n =>
    rw [Concurrent.step]
    split
    · exact h.clock
    · exact h.clock
  | tick now =>
    change (if c.clock ≤ now then now else c.clock) ≤ horizon
    split
    · exact hquiet
    · exact h.clock
  | lookup key => exact (c.getStep_lookup key).same.clock.trans_le h.clock
  | read task => exact (c.getStep_read task).same.clock.trans_le h.clock
  | fill task => exact (c.getStep_fill task).same.clock.trans_le h.clock
  | remove | delete | collect | evict | finishCollect => exact hquiet.elim

/-- No pass begins. -/
theorem collecting_step (h : c.Fresh horizon) {action : AtomicStep}
    (hquiet : Quiet horizon action) : (c.step action).collecting = none := by
  cases action with
  | insert entry | tick now | lookup key | read task | fill task => exact h.collecting
  | enqueue task | commit n =>
    rw [Concurrent.step]
    split
    · exact h.collecting
    · exact h.collecting
  | remove | delete | collect | evict | finishCollect => exact hquiet.elim

/-- Puts are numbered. -/
theorem puts_step (h : c.Fresh horizon) {action : AtomicStep} (hquiet : Quiet horizon action) :
    ∀ p ∈ (c.step action).puts, p.id < (c.step action).nextPut := by
  cases action with
  | insert entry =>
    have hlt : c.nextPut < c.nextPut + 1 := Nat.lt_succ_self _
    exact List.forall_mem_append.mpr
      ⟨fun p hp => (h.puts p hp).trans hlt, List.forall_mem_singleton.mpr hlt⟩
  | enqueue task =>
    rw [Concurrent.step]
    split
    · exact fun p hp => h.puts p (List.mem_of_mem_eraseIdx hp)
    · exact h.puts
  | commit n =>
    rw [Concurrent.step]
    split
    · exact h.puts
    · exact h.puts
  | tick now | lookup key | read task | fill task => exact h.puts
  | remove | delete | collect | evict | finishCollect => exact hquiet.elim

/-- A quiet step keeps the store fresh. -/
theorem step (h : c.Fresh horizon) {action : AtomicStep} (hquiet : Quiet horizon action) :
    (c.step action).Fresh horizon where
  clock := h.clock_step hquiet
  holds := by
    refine h.holds.step (fun key entry hlive => hlive) ?_
    rintro entry rfl
    exact hquiet
  collecting := h.collecting_step hquiet
  puts := h.puts_step hquiet

/-- Quiet steps keep the store fresh. -/
theorem run (h : c.Fresh horizon) {steps : List AtomicStep}
    (hquiet : ∀ action ∈ steps, Quiet horizon action) : (c.run steps).Fresh horizon := by
  induction steps using List.reverseRecOn with
  | nil => exact h
  | append_singleton steps last ih =>
    rw [run_concat]
    obtain ⟨hbefore, hlast⟩ := List.forall_mem_append.mp hquiet
    exact (ih hbefore).step (List.forall_mem_singleton.mp hlast)

/-- An entry that lives beyond the horizon is not expired. -/
theorem not_isExpired (h : c.Fresh horizon) {entry : StoredEntry}
    (hlive : horizon < entry.expiresAt) : ¬entry.IsExpired c.clock :=
  UInt64.not_le.mpr (UInt64.lt_of_le_of_lt h.clock hlive)

end Fresh

/-! ## After a visible put -/

namespace ReadsAs

variable {c : Concurrent} {entry : StoredEntry}

/-- A step of a get keeps what the key reads as. -/
theorem getStep (h : c.ReadsAs entry) {action : AtomicStep} {next : Concurrent}
    (hstep : c.GetStep action next) : next.ReadsAs entry := by
  obtain ⟨-, hputs, hdata, hqueue⟩ := hstep.same
  refine ⟨?_, ?_, ?_⟩
  · rw [hdata]
    exact h.stored
  · rw [hqueue]
    exact h.queued
  · rw [hputs]
    exact h.pending

/-- Sending an entry to the writer keeps what the key reads as. -/
theorem enqueue (h : c.ReadsAs entry) (task : Nat) :
    (c.step (.enqueue task)).ReadsAs entry := by
  rw [Concurrent.step]
  split
  case h_1 p hp =>
    refine ⟨h.stored, List.forall_mem_append.mpr ⟨h.queued, List.forall_mem_singleton.mpr ?_⟩,
      fun q hq => h.pending q (List.mem_of_mem_eraseIdx hq)⟩
    exact h.pending p (List.mem_of_getElem? hp)
  case h_2 => exact h

/-- A batch writes what the queue held. -/
theorem commit (h : c.ReadsAs entry) (n : Nat) : (c.step (.commit n)).ReadsAs entry := by
  rw [Concurrent.step]
  split
  · exact h
  · refine ⟨fun row found hrow hdecode => ?_, ?_, h.pending⟩
    · rcases PersistentStore.dhtData_foldl_commitEntry (c.store.writeQueue.take n)
          { c.store with writeQueue := c.store.writeQueue.drop n } entry.key with
        hold | ⟨e, he, hkey, hnew⟩
      · exact h.stored row found (hold.symm.trans hrow) hdecode
      · obtain rfl : e.encode = row := Option.some.inj (hnew.symm.trans hrow)
        rw [StoredEntry.decode_encode] at hdecode
        cases hdecode
        exact h.queued e (List.mem_of_mem_take he) hkey
    · intro e hqueued
      change e ∈ (c.store.commit n).writeQueue at hqueued
      rw [PersistentStore.writeQueue_commit] at hqueued
      exact h.queued e (List.mem_of_mem_drop hqueued)

/-- One more `put`, which reads can find as well. -/
theorem insert (h : c.ReadsAs entry) {e : StoredEntry}
    (he : e.key = entry.key → e.truncated = entry) : (c.step (.insert e)).ReadsAs entry :=
  ⟨h.stored, h.queued, List.forall_mem_append.mpr ⟨h.pending, List.forall_mem_singleton.mpr he⟩⟩

end ReadsAs

/-- The entry is cached, reads of its key that are under way started before `first` and end
with it, and those from `first` on have returned it. -/
structure Settled (c : Concurrent) (entry : StoredEntry) (first : Nat) : Prop where
  cached : c.store.hotCache entry.key = some entry
  held : ∀ g ∈ c.gets, g.key = entry.key →
    g.id < first ∧ ∀ other, g.phase = .fill other → other = entry
  unread : ∀ g ∈ c.gets, g.key = entry.key → g.phase = .read → c.ReadsAs entry
  returned : ∀ g ∈ c.finished, g.key = entry.key → first ≤ g.id → g.result = some entry

namespace Settled

variable {c : Concurrent} {entry : StoredEntry} {first : Nat}

/-- One more `get` has returned, with the entry if it counts. -/
theorem finish (h : c.Settled entry first) {g : FinishedGet}
    (hg : g.key = entry.key → first ≤ g.id → g.result = some entry) :
    ∀ f ∈ c.finished ++ [g], f.key = entry.key → first ≤ f.id → f.result = some entry :=
  List.forall_mem_append.mpr ⟨h.returned, List.forall_mem_singleton.mpr hg⟩

/-- A step of a get keeps a settled entry. -/
theorem getStep (h : c.Settled entry first) (hlive : ¬entry.IsExpired c.clock)
    {action : AtomicStep} {next : Concurrent} (hstep : c.GetStep action next) :
    next.Settled entry first := by
  have hunread : ∀ g ∈ c.gets, g.key = entry.key → g.phase = .read → next.ReadsAs entry :=
    fun g hg hkey hphase => (h.unread g hg hkey hphase).getStep hstep
  cases hstep with
  | hit hcached =>
    refine ⟨h.cached, h.held, hunread, h.finish ?_⟩
    rintro rfl -
    cases h.cached.symm.trans hcached
    exact if_neg hlive
  | @miss key hcached =>
    have hne : key ≠ entry.key := by
      rintro rfl
      cases h.cached.symm.trans hcached
    refine ⟨h.cached, List.forall_mem_append.mpr ⟨h.held, List.forall_mem_singleton.mpr ?_⟩,
      List.forall_mem_append.mpr ⟨hunread, List.forall_mem_singleton.mpr ?_⟩, h.returned⟩
    · exact fun hkey => absurd hkey hne
    · exact fun hkey => absurd hkey hne
  | found hget hread =>
    obtain ⟨row, hrow, hdecode, -⟩ := PersistentStore.readDb_eq_some.mp hread
    have hmem := List.mem_of_getElem? hget
    refine ⟨h.cached, fun g hg => ?_, fun g hg => ?_, h.returned⟩
    · rcases List.mem_or_eq_of_mem_set hg with hold | rfl
      · exact h.held g hold
      · rintro rfl
        refine ⟨(h.held _ hmem rfl).1, ?_⟩
        rintro other ⟨⟩
        exact (h.unread _ hmem rfl rfl).stored row _ hrow hdecode
    · rcases List.mem_or_eq_of_mem_set hg with hold | rfl
      · exact hunread g hold
      · rintro - ⟨⟩
  | absent hget =>
    refine ⟨h.cached, fun g hg => h.held g (List.mem_of_mem_eraseIdx hg),
      fun g hg => hunread g (List.mem_of_mem_eraseIdx hg), h.finish ?_⟩
    intro hkey hle
    exact absurd (h.held _ (List.mem_of_getElem? hget) hkey).1 (Nat.not_lt.mpr hle)
  | @filled task id key other hget =>
    have hmem := List.mem_of_getElem? hget
    refine ⟨?_, fun g hg => h.held g (List.mem_of_mem_eraseIdx hg),
      fun g hg => hunread g (List.mem_of_mem_eraseIdx hg), h.finish ?_⟩
    · by_cases hkey : entry.key = key
      · rw [PersistentStore.hotCache_fill, hkey, Function.update_self,
          (h.held _ hmem hkey.symm).2 other rfl]
      · rw [PersistentStore.hotCache_fill, Function.update_of_ne hkey]
        exact h.cached
    · intro hkey hle
      exact absurd (h.held _ hmem hkey).1 (Nat.not_lt.mpr hle)
  | noTask => exact h

/-- A put of another key keeps a settled entry. -/
theorem insert (h : c.Settled entry first) {e : StoredEntry} (hne : e.key ≠ entry.key) :
    (c.step (.insert e)).Settled entry first where
  cached := (Function.update_of_ne hne.symm _ _).trans h.cached
  held := h.held
  unread := fun g hg hkey hphase =>
    (h.unread g hg hkey hphase).insert fun hsame => absurd hsame hne
  returned := h.returned

/-- Sending an entry to the writer keeps a settled entry. -/
theorem enqueue (h : c.Settled entry first) (task : Nat) :
    (c.step (.enqueue task)).Settled entry first := by
  have hreads := fun h : c.ReadsAs entry => h.enqueue task
  rw [Concurrent.step] at hreads ⊢
  split at hreads
  · exact ⟨h.cached, h.held, fun g hg hkey hphase => hreads (h.unread g hg hkey hphase),
      h.returned⟩
  · exact h

/-- A commit keeps a settled entry. -/
theorem commit (h : c.Settled entry first) (n : Nat) :
    (c.step (.commit n)).Settled entry first := by
  have hreads := fun h : c.ReadsAs entry => h.commit n
  rw [Concurrent.step] at hreads ⊢
  split at hreads
  · exact h
  · refine ⟨?_, h.held, fun g hg hkey hphase => hreads (h.unread g hg hkey hphase), h.returned⟩
    exact (congrFun (PersistentStore.hotCache_commit n c.store) entry.key).trans h.cached

/-- A quiet step keeps a settled entry. -/
theorem step (h : c.Settled entry first) (hlive : ¬entry.IsExpired c.clock) {horizon : UInt64}
    {action : AtomicStep} (hquiet : Quiet horizon action)
    (hput : ∀ e, action = .insert e → e.key ≠ entry.key) :
    (c.step action).Settled entry first := by
  cases action with
  | insert e => exact h.insert (hput e rfl)
  | enqueue task => exact h.enqueue task
  | commit n => exact h.commit n
  | tick now =>
    exact ⟨h.cached, h.held, fun g hg hkey hphase =>
      ⟨(h.unread g hg hkey hphase).stored, (h.unread g hg hkey hphase).queued,
        (h.unread g hg hkey hphase).pending⟩, h.returned⟩
  | lookup key => exact h.getStep hlive (c.getStep_lookup key)
  | read task => exact h.getStep hlive (c.getStep_read task)
  | fill task => exact h.getStep hlive (c.getStep_fill task)
  | remove | delete | collect | evict | finishCollect => exact hquiet.elim

/-- Quiet steps keep a settled entry. -/
theorem run (h : c.Settled entry first) {horizon : UInt64} (hfresh : c.Fresh horizon)
    (hlive : horizon < entry.expiresAt) {steps : List AtomicStep}
    (hquiet : QuietOn horizon entry.key steps) : (c.run steps).Settled entry first := by
  induction steps using List.reverseRecOn with
  | nil => exact h
  | append_singleton steps last ih =>
    rw [run_concat]
    obtain ⟨hbefore, hlast⟩ := List.forall_mem_append.mp hquiet
    obtain ⟨hquiet, hput⟩ := List.forall_mem_singleton.mp hlast
    have hfresh := hfresh.run fun action hmem => (hbefore action hmem).1
    exact (ih hbefore).step (hfresh.not_isExpired hlive) hquiet hput

end Settled

/-- A `put` with no stale read around settles its key. -/
theorem NoStaleRead.settled {c : Concurrent} {entry : StoredEntry} (h : c.NoStaleRead entry)
    (hids : c.toRuntime.Numbered) : (c.step (.insert entry)).Settled entry c.nextGet where
  cached := Function.update_self _ _ _
  held := fun g hg hkey => ⟨hids.pending g hg, h.held g hg hkey⟩
  unread := by
    intro g hg hkey hphase
    obtain ⟨hreads, hwhole⟩ := h.unread g hg hkey hphase
    exact hreads.insert fun _ => hwhole
  returned := fun g hg _ hle => absurd (hids.finished g hg) (Nat.not_lt.mpr hle)

/-- Gets are numbered upwards. -/
theorem nextGet_le_run (c : Concurrent) (steps : List AtomicStep) :
    c.nextGet ≤ (c.run steps).nextGet := by
  induction steps using List.reverseRecOn with
  | nil => exact Nat.le_refl _
  | append_singleton steps last ih =>
    rw [run_concat]
    rcases (c.run steps).getStep_or_same last with hstep | ⟨-, -, hsame⟩
    · exact ih.trans hstep.nextGet_le
    · exact ih.trans_eq hsame.symm

/-! ## Ways to hide a put -/

/-- A `put` that nothing comes between. -/
def afterPut (c : Concurrent) (entry : StoredEntry) : Concurrent :=
  { c with store := c.store.put entry, nextPut := c.nextPut + 1 }

/-- A put without interruption. -/
theorem step_insert_enqueue (c : Concurrent) (entry : StoredEntry) :
    (c.step (.insert entry)).run [.enqueue c.puts.length] = c.afterPut entry := by
  have hget : (c.puts ++ [(⟨c.nextPut, entry⟩ : PendingPut)])[c.puts.length]? =
      some ⟨c.nextPut, entry⟩ := by simp
  have herase : (c.puts ++ [(⟨c.nextPut, entry⟩ : PendingPut)]).eraseIdx c.puts.length =
      c.puts := by
    rw [List.eraseIdx_append_of_length_le (Nat.le_refl _), Nat.sub_self, List.eraseIdx_cons_zero,
      List.append_nil]
  simp only [run, List.foldl_cons, List.foldl_nil, step, hget, herase]
  rfl

/-- The next `get` of a cached key returns what the cache holds. -/
theorem finished_lookup {c : Concurrent} {key : Key} {entry : StoredEntry}
    (hcached : c.store.hotCache key = some entry) :
    (⟨c.nextGet, key, if entry.IsExpired c.clock then none else some entry⟩ : FinishedGet) ∈
      (c.step (.lookup key)).finished := by
  simp [step, Runtime.step, hcached]

/-- A `get` that holds an entry caches it, and the next one returns it. -/
theorem finished_fill_lookup {c : Concurrent} {task id : Nat} {key : Key} {entry : StoredEntry}
    (hget : c.gets[task]? = some ⟨id, key, .fill entry⟩) :
    (⟨c.nextGet, key, if entry.IsExpired c.clock then none else some entry⟩ : FinishedGet) ∈
      (c.run [.fill task, .lookup key]).finished := by
  have hcached : (c.step (.fill task)).store.hotCache key = some entry := by
    simp [step, Runtime.step, hget]
  have hfound := finished_lookup hcached
  have hsame : (c.step (.fill task)).nextGet = c.nextGet ∧
      (c.step (.fill task)).clock = c.clock := by
    simp [step, Runtime.step, hget]
  rwa [hsame.1, hsame.2] at hfound

/-- A `get` that reads an entry from the table passes it on to the next one. -/
theorem finished_of_readDb {c : Concurrent} {task id : Nat} {key : Key} {entry : StoredEntry}
    (hget : c.gets[task]? = some ⟨id, key, .read⟩)
    (hread : c.store.readDb c.clock key = some entry) :
    (⟨c.nextGet, key, some entry⟩ : FinishedGet) ∈
      (c.run [.read task, .fill task, .lookup key]).finished := by
  obtain ⟨-, -, -, hlive⟩ := PersistentStore.readDb_eq_some.mp hread
  have hstep : c.step (.read task) = { c with gets := c.gets.set task ⟨id, key, .fill entry⟩ } := by
    simp [step, Runtime.step, hget, hread]
  obtain ⟨hlt, -⟩ := List.getElem?_eq_some_iff.mp hget
  have hheld : (c.step (.read task)).gets[task]? = some ⟨id, key, .fill entry⟩ := by
    rw [hstep]
    exact List.getElem?_set_self hlt
  have hfound := finished_fill_lookup hheld
  rw [hstep] at hfound
  rw [run, List.foldl_cons, hstep]
  rwa [if_neg hlive] at hfound

/-- So does one that reads the table after a batch. -/
theorem exists_finished_of_queued {c : Concurrent} {task id : Nat} {key : Key}
    {entry : StoredEntry} (hcollecting : c.collecting = none)
    (hget : c.gets[task]? = some ⟨id, key, .read⟩) (hmem : entry ∈ c.store.writeQueue)
    (hkey : entry.key = key) (hlive : ¬entry.IsExpired c.clock) :
    ∃ n, (⟨c.nextGet, key, some entry.truncated⟩ : FinishedGet) ∈
      (c.run [.commit n, .read task, .fill task, .lookup key]).finished := by
  obtain ⟨before, after, hqueue⟩ := List.append_of_mem hmem
  subst hkey
  have hstep : c.step (.commit (before.length + 1)) =
      { c with store := c.store.commit (before.length + 1) } := by
    simp [step, Runtime.step, hcollecting]
  have hread : (c.store.commit (before.length + 1)).readDb c.clock entry.key =
      some entry.truncated := by
    refine PersistentStore.readDb_eq_some.mpr ⟨entry.encode, ?_, entry.decode_encode, hlive⟩
    exact PersistentStore.dhtData_commit_of_split hqueue
  refine ⟨before.length + 1, ?_⟩
  rw [run, List.foldl_cons, hstep]
  exact finished_of_readDb (c := { c with store := _ }) hget hread

namespace PutIsVisible

variable {c : Concurrent} {horizon : UInt64} {entry : StoredEntry}

/-- When the `put` returns at once, the next `get` of the key returns its entry. -/
theorem result_eq (h : c.PutIsVisible horizon entry) (hfresh : c.Fresh horizon)
    {rest : List AtomicStep} (hquiet : QuietOn horizon entry.key rest)
    {result : Option StoredEntry}
    (hmem : (⟨c.nextGet, entry.key, result⟩ : FinishedGet) ∈
      ((c.afterPut entry).run rest).finished) : result = some entry := by
  have hsteps : QuietOn horizon entry.key ([.enqueue c.puts.length] ++ rest) :=
    List.forall_mem_cons.mpr ⟨⟨trivial, nofun⟩, hquiet⟩
  have hreturned : ∀ p ∈ ((c.step (.insert entry)).run [.enqueue c.puts.length]).puts,
      p.id ≠ c.nextPut := by
    rw [step_insert_enqueue]
    exact fun p hp => (hfresh.puts p hp).ne
  obtain ⟨-, hresult⟩ := h [.enqueue c.puts.length] rest hsteps hreturned
  rw [run_append, step_insert_enqueue] at hresult
  exact hresult _ hmem rfl (Nat.le_refl _)

/-- An entry that a `get` holds covers up the one put. -/
theorem held_eq (h : c.PutIsVisible horizon entry) (hfresh : c.Fresh horizon) {g : PendingGet}
    (hmem : g ∈ c.gets) (hkey : g.key = entry.key) {other : StoredEntry}
    (hphase : g.phase = .fill other) : other = entry := by
  obtain ⟨task, hget⟩ := List.mem_iff_getElem?.mp hmem
  obtain ⟨id, key, phase⟩ := g
  subst hkey hphase
  have hfound := finished_fill_lookup (c := c.afterPut entry) hget
  have hresult := h.result_eq hfresh (by simp [QuietOn, Quiet]) hfound
  exact Option.some.inj (Option.ite_none_left_eq_some.mp hresult).2

/-- So does an entry that it reads from the table, -/
theorem stored_eq (h : c.PutIsVisible horizon entry) (hfresh : c.Fresh horizon) {task id : Nat}
    (hget : c.gets[task]? = some ⟨id, entry.key, .read⟩) {row : List UInt8}
    {found : StoredEntry} (hrow : c.store.dhtData entry.key = some row)
    (hdecode : StoredEntry.decode row = .ok found) : found = entry := by
  have hlive : ¬found.IsExpired c.clock :=
    hfresh.not_isExpired (hfresh.holds.runtime.store.stored _ row found hrow hdecode)
  have hread : (c.afterPut entry).store.readDb (c.afterPut entry).clock entry.key = some found :=
    PersistentStore.readDb_eq_some.mpr ⟨row, hrow, hdecode, hlive⟩
  have hfound := finished_of_readDb (c := c.afterPut entry) hget hread
  exact Option.some.inj (h.result_eq hfresh (by simp [QuietOn, Quiet]) hfound)

/-- or that is queued when it reads; the entry put is queued as well, -/
theorem queued_eq (h : c.PutIsVisible horizon entry) (hfresh : c.Fresh horizon)
    (hlive : horizon < entry.expiresAt) {task id : Nat}
    (hget : c.gets[task]? = some ⟨id, entry.key, .read⟩) {e : StoredEntry}
    (hmem : e ∈ c.store.writeQueue ++ [entry]) (hkey : e.key = entry.key) :
    e.truncated = entry := by
  have hfreshQueue : ∀ q ∈ c.store.writeQueue ++ [entry], horizon < q.expiresAt :=
    List.forall_mem_append.mpr
      ⟨hfresh.holds.runtime.store.queued, List.forall_mem_singleton.mpr hlive⟩
  obtain ⟨n, hfound⟩ := exists_finished_of_queued (c := c.afterPut entry) hfresh.collecting hget
    hmem hkey (hfresh.not_isExpired (hfreshQueue e hmem))
  exact Option.some.inj (h.result_eq hfresh (by simp [QuietOn, Quiet]) hfound)

/-- or that an earlier `put` has yet to queue. -/
theorem pending_eq (h : c.PutIsVisible horizon entry) (hfresh : c.Fresh horizon) {task id : Nat}
    (hget : c.gets[task]? = some ⟨id, entry.key, .read⟩) {p : PendingPut} (hp : p ∈ c.puts)
    (hkey : p.entry.key = entry.key) : p.entry.truncated = entry := by
  obtain ⟨t, hput⟩ := List.mem_iff_getElem?.mp hp
  have hstep : (c.afterPut entry).step (.enqueue t) =
      { c.afterPut entry with
        store := (c.store.put entry).enqueue p.entry
        puts := c.puts.eraseIdx t } := by
    have hget : (c.afterPut entry).puts[t]? = some p := hput
    simp only [step, hget]
    rfl
  have hmem : p.entry ∈ ((c.afterPut entry).step (.enqueue t)).store.writeQueue := by
    rw [hstep]
    exact List.mem_append_right _ List.mem_cons_self
  have hlive : ¬p.entry.IsExpired ((c.afterPut entry).step (.enqueue t)).clock := by
    rw [hstep]
    exact hfresh.not_isExpired (hfresh.holds.pending p hp)
  obtain ⟨n, hfound⟩ := exists_finished_of_queued (c := (c.afterPut entry).step (.enqueue t))
    (by rw [hstep]; exact hfresh.collecting) (by rw [hstep]; exact hget) hmem hkey hlive
  rw [hstep] at hfound
  have hquiet : QuietOn horizon entry.key
      [.enqueue t, .commit n, .read task, .fill task, .lookup entry.key] := by
    simp [QuietOn, Quiet]
  refine Option.some.inj (h.result_eq hfresh hquiet ?_)
  rw [run, List.foldl_cons, hstep]
  exact hfound

/-- If a put is visible, no read of the past is under way. -/
theorem noStaleRead (h : c.PutIsVisible horizon entry) (hfresh : c.Fresh horizon)
    (hlive : horizon < entry.expiresAt) : c.NoStaleRead entry where
  held := fun g hg hkey other hphase => h.held_eq hfresh hg hkey hphase
  unread := by
    intro g hg hkey hphase
    obtain ⟨task, hget⟩ := List.mem_iff_getElem?.mp hg
    obtain ⟨id, key, phase⟩ := g
    subst hkey hphase
    refine ⟨⟨fun row found hrow hdecode => h.stored_eq hfresh hget hrow hdecode, ?_, ?_⟩, ?_⟩
    · intro e he hkey
      exact h.queued_eq hfresh hlive hget (List.mem_append_left _ he) hkey
    · intro p hp hkey
      exact h.pending_eq hfresh hget hp hkey
    · exact h.queued_eq hfresh hlive hget (List.mem_append_right _ List.mem_cons_self) rfl

end PutIsVisible

/-- Every step keeps the gets numbered. -/
theorem numbered_step {c : Concurrent} (h : c.toRuntime.Numbered) (action : AtomicStep) :
    (c.step action).toRuntime.Numbered := by
  cases action with
  | remove key => exact h.step (.remove key)
  | tick now => exact h.step (.tick now)
  | lookup key => exact h.step (.lookup key)
  | read task => exact h.step (.read task)
  | fill task => exact h.step (.fill task)
  | insert entry => exact ⟨h.pending, h.finished⟩
  | enqueue task | collect | evict | finishCollect =>
    rw [step]
    split
    · exact ⟨h.pending, h.finished⟩
    · exact ⟨h.pending, h.finished⟩
  | commit n =>
    rw [step]
    split
    · exact h
    · exact h.step (.commit n)
  | delete task =>
    rw [step]
    split
    · exact h
    · exact h.step (.delete task)

/-- The gets are numbered in every run. -/
theorem numbered_run (dhtData : Key → Option (List UInt8)) (expireIndex : List (UInt64 × Key))
    (clock : UInt64) (steps : List AtomicStep) :
    ((opened dhtData expireIndex clock).run steps).toRuntime.Numbered := by
  induction steps using List.reverseRecOn with
  | nil => exact ⟨nofun, nofun⟩
  | append_singleton steps last ih =>
    rw [run_concat]
    exact numbered_step ih last

/-- Over a database whose entries do not expire before the horizon, the entry of a `put` is
what later reads of its key return, exactly when no read that has missed the cache holds
another entry or can still find one. -/
theorem putIsVisible_iff (dhtData : Key → Option (List UInt8))
    (expireIndex : List (UInt64 × Key)) (clock horizon : UInt64) (hclock : clock ≤ horizon)
    (hrows : ∀ key row found, dhtData key = some row → StoredEntry.decode row = .ok found →
      horizon < found.expiresAt)
    (steps : List AtomicStep) (hquiet : ∀ action ∈ steps, Quiet horizon action)
    (entry : StoredEntry) (hlive : horizon < entry.expiresAt) :
    ((opened dhtData expireIndex clock).run steps).PutIsVisible horizon entry ↔
      ((opened dhtData expireIndex clock).run steps).NoStaleRead entry := by
  have hopened : (opened dhtData expireIndex clock).Fresh horizon :=
    ⟨hclock, ⟨⟨⟨nofun, nofun, hrows⟩, nofun⟩, nofun⟩, rfl, nofun⟩
  have hfresh := hopened.run hquiet
  constructor
  · intro hvisible
    exact hvisible.noStaleRead hfresh hlive
  · intro hclean middle rest hsteps _
    have hinsert : (((opened dhtData expireIndex clock).run steps).step
        (.insert entry)).Fresh horizon := hfresh.step hlive
    have hsettled := (hclean.settled (numbered_run _ _ _ _)).run hinsert hlive hsteps
    have hle := nextGet_le_run
      (((opened dhtData expireIndex clock).run steps).step (.insert entry)) middle
    refine ⟨fun g hg hkey => (hsettled.held g hg hkey).1.trans_le hle, ?_⟩
    exact fun g hg hkey hid => hsettled.returned g hg hkey (hle.trans hid)

/-- An entry of one key, with a value of one byte. -/
def keptEntry (value : UInt8) : StoredEntry :=
  ⟨Vector.replicate 32 1, [value], ⟨Vector.replicate 32 2⟩, 1000⟩

/-- A database that holds one entry. -/
def keptData : Key → Option (List UInt8) :=
  Function.update (fun _ => none) (keptEntry 1).key (some (keptEntry 1).encode)

/-- A `get` misses the cache of the store just opened and reads the old entry. Then a new one
is put, the `put` returns, and the `get` fills the cache: the next `get` returns the old
entry. -/
theorem slow_read_hides_put :
    (⟨1, (keptEntry 1).key, some (keptEntry 1)⟩ : FinishedGet) ∈
        ((((opened keptData [(1000, (keptEntry 1).key)] 0).run
          [.lookup (keptEntry 1).key, .read 0]).step (.insert (keptEntry 2))).run
            [.enqueue 0, .fill 0, .lookup (keptEntry 1).key]).finished ∧
      ¬((opened keptData [(1000, (keptEntry 1).key)] 0).run
        [.lookup (keptEntry 1).key, .read 0]).PutIsVisible 500 (keptEntry 2) := by
  have hstale : (⟨1, (keptEntry 1).key, some (keptEntry 1)⟩ : FinishedGet) ∈
      ((((opened keptData [(1000, (keptEntry 1).key)] 0).run
        [.lookup (keptEntry 1).key, .read 0]).step (.insert (keptEntry 2))).run
          [.enqueue 0, .fill 0, .lookup (keptEntry 1).key]).finished := by
    decide
  refine ⟨hstale, fun hvisible => ?_⟩
  have hresult := (hvisible [.enqueue 0] [.fill 0, .lookup (keptEntry 1).key]
    (by simp [QuietOn, Quiet]) (by decide)).2 _ hstale rfl (by decide)
  exact absurd hresult (by decide)

/-- Once the `get` has filled the cache, a new entry covers up the old one. -/
theorem put_is_visible_after_read :
    ((opened keptData [(1000, (keptEntry 1).key)] 0).run
      [.lookup (keptEntry 1).key, .read 0, .fill 0]).PutIsVisible 500 (keptEntry 2) := by
  have hgets : ((opened keptData [(1000, (keptEntry 1).key)] 0).run
      [.lookup (keptEntry 1).key, .read 0, .fill 0]).gets = [] := by decide
  refine (putIsVisible_iff keptData _ 0 500 (by decide) ?_ _ (by simp [Quiet]) _ (by decide)).mpr
    ⟨by simp [hgets], by simp [hgets]⟩
  intro key row found hrow hdecode
  by_cases hkey : key = (keptEntry 1).key
  · rw [keptData, hkey, Function.update_self] at hrow
    cases hrow
    rw [StoredEntry.decode_encode] at hdecode
    cases hdecode
    decide
  · rw [keptData, Function.update_of_ne hkey] at hrow
    cases hrow

end Concurrent

end CekyP2P.Dht
