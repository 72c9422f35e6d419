import CekyP2P.Core.Least
import CekyP2P.Dht.SuperNode

/-!
# Pruned nodes

`prune` sorts the regular nodes by their successes and removes the first ones, as many as there
are nodes above the bound. The map is iterated over in any order, so nodes with equal successes
may be removed in any order too.
-/

namespace CekyP2P.Dht

open Crypto

variable {F : Type}

namespace SuperNodeManager

/-- The regular nodes, worst first. -/
def worstFirst (m : SuperNodeManager F) : List (PeerId × UInt64) :=
  m.regulars.insertionSort fun a b => a.2 ≤ b.2

/-- The identifiers of the `k` worst regular nodes. -/
def worst (m : SuperNodeManager F) (k : Nat) : List PeerId := (m.worstFirst.take k).map (·.1)

variable {m : SuperNodeManager F} {id : PeerId} {info : SuperNodeInfo F} {k : Nat}

/-- The regular nodes, with their successes. -/
theorem mem_regulars {successes : UInt64} : (id, successes) ∈ m.regulars ↔
    ∃ info, m.nodes.lookup id = some info ∧ info.tier = .regular ∧
      info.totalSuccesses = successes := by
  simp only [regulars, List.mem_map, List.mem_filter, decide_eq_true_eq, Prod.mk.injEq]
  constructor
  · rintro ⟨⟨id', info⟩, ⟨hmem, htier⟩, rfl, hsuccesses⟩
    exact ⟨info, AList.mem_lookup_iff.mpr hmem, htier, hsuccesses⟩
  · rintro ⟨info, hlookup, htier, hsuccesses⟩
    exact ⟨⟨id, info⟩, ⟨AList.mem_lookup_iff.mp hlookup, htier⟩, rfl, hsuccesses⟩

/-- Sorting keeps the nodes. -/
theorem perm_worstFirst (m : SuperNodeManager F) : m.worstFirst.Perm m.regulars :=
  List.perm_insertionSort _ _

/-- The nodes with the fewest successes come first. -/
theorem sorted_worstFirst (m : SuperNodeManager F) :
    m.worstFirst.Pairwise fun a b => a.2 ≤ b.2 := by
  have : Std.Total fun a b : PeerId × UInt64 => a.2 ≤ b.2 := ⟨fun a b => UInt64.le_total a.2 b.2⟩
  have : IsTrans (PeerId × UInt64) fun a b => a.2 ≤ b.2 := ⟨fun _ _ _ => UInt64.le_trans⟩
  exact List.pairwise_insertionSort _ _

/-- All regular nodes are sorted. -/
theorem length_worstFirst (m : SuperNodeManager F) :
    m.worstFirst.length = m.nodes.entries.countP fun entry => entry.2.tier = .regular := by
  rw [m.perm_worstFirst.length_eq, regulars, List.length_map, List.countP_eq_length_filter]

/-- No node is listed twice. -/
theorem nodup_worst (m : SuperNodeManager F) (k : Nat) : (m.worst k).Nodup := by
  have hregulars : (m.regulars.map (·.1)).Nodup := by
    rw [regulars, List.map_map]
    exact m.nodes.nodupKeys.sublist List.filter_sublist
  have hall := (m.perm_worstFirst.map (·.1)).nodup_iff.mpr hregulars
  exact hall.sublist ((List.take_sublist k _).map _)

/-- The worst nodes are regular ones. -/
theorem exists_of_mem_worst (h : id ∈ m.worst k) : ∃ info, m.nodes.lookup id = some info ∧
    info.tier = .regular ∧ (id, info.totalSuccesses) ∈ m.worstFirst.take k := by
  obtain ⟨⟨id', successes⟩, hmem, rfl⟩ := List.mem_map.mp h
  have hregular := m.perm_worstFirst.mem_iff.mp (List.mem_of_mem_take hmem)
  obtain ⟨info, hlookup, htier, rfl⟩ := mem_regulars.mp hregular
  exact ⟨info, hlookup, htier, hmem⟩

/-- A regular node that is not among the `k` worst has at least their successes. -/
theorem totalSuccesses_le_of_notMem_worst {id' : PeerId} {info' : SuperNodeInfo F}
    (hlookup : m.nodes.lookup id = some info) (hid : id ∈ m.worst k)
    (hlookup' : m.nodes.lookup id' = some info') (htier' : info'.tier = .regular)
    (hid' : id' ∉ m.worst k) : info.totalSuccesses ≤ info'.totalSuccesses := by
  obtain ⟨listed, hlisted, -, htake⟩ := exists_of_mem_worst hid
  obtain rfl : listed = info := Option.some.inj (hlisted.symm.trans hlookup)
  have hregular : (id', info'.totalSuccesses) ∈ m.regulars :=
    mem_regulars.mpr ⟨info', hlookup', htier', rfl⟩
  have hcut : (id', info'.totalSuccesses) ∉ m.worstFirst.take k :=
    fun h => hid' (List.mem_map_of_mem h)
  exact rel_of_cut m.sorted_worstFirst (m.perm_worstFirst.mem_iff.mpr hregular) hcut htake

/-- Every regular node is listed if the list is not cut. -/
theorem mem_worst_of_length_le (hk : m.worstFirst.length ≤ k)
    (hlookup : m.nodes.lookup id = some info) (htier : info.tier = .regular) :
    id ∈ m.worst k := by
  have hregular : (id, info.totalSuccesses) ∈ m.regulars :=
    mem_regulars.mpr ⟨info, hlookup, htier, rfl⟩
  rw [worst, List.take_of_length_le hk]
  exact List.mem_map_of_mem (m.perm_worstFirst.mem_iff.mpr hregular)

/-- As many nodes are taken as are asked for. -/
theorem length_worst (hk : k ≤ m.worstFirst.length) : (m.worst k).length = k := by
  rw [worst, List.length_map, List.length_take, Nat.min_eq_left hk]

/-- A manager within its bound removes the zero worst nodes. -/
theorem prune_eq (m : SuperNodeManager F) :
    let pruned := min m.worstFirst.length (m.nodes.keys.length - m.maxTracked)
    m.prune = (pruned, { m with nodes := FiniteMap.eraseAll m.nodes (m.worst pruned) }) := by
  intro pruned
  rw [prune]
  split
  case isTrue h =>
    have hpruned : pruned = 0 := by omega
    rw [hpruned]
    rfl
  case isFalse => rfl

/-- The manager `m'` is `m` without the nodes of a list: as many as there are nodes above the
bound, or all regular ones, and none that has more successes than a regular one that stays. -/
structure PrunesWorst (m : SuperNodeManager F) (removed : List PeerId)
    (m' : SuperNodeManager F) : Prop where
  nodup : removed.Nodup
  length_eq : removed.length = min (m.nodes.keys.length - m.maxTracked)
    (m.nodes.entries.countP fun entry => entry.2.tier = .regular)
  regular : ∀ id ∈ removed, ∃ info, m.nodes.lookup id = some info ∧ info.tier = .regular
  lookup_eq : ∀ id, m'.nodes.lookup id = if id ∈ removed then none else m.nodes.lookup id
  least : ∀ id ∈ removed, ∀ info, m.nodes.lookup id = some info →
    ∀ id' info', m'.nodes.lookup id' = some info' → info'.tier = .regular →
      info.totalSuccesses ≤ info'.totalSuccesses
  bounded : m'.nodes.keys.length ≤ m.maxTracked ∨
    ∀ id info, m'.nodes.lookup id = some info → info.tier ≠ .regular
  criteria_eq : m'.criteria = m.criteria
  maxTracked_eq : m'.maxTracked = m.maxTracked

/-- Pruning removes only the worst regular nodes, and returns how many. -/
theorem prune_removes_worst (m : SuperNodeManager F) :
    ∃ removed, m.prune.1 = removed.length ∧ PrunesWorst m removed m.prune.2 := by
  rw [prune_eq]
  set pruned := min m.worstFirst.length (m.nodes.keys.length - m.maxTracked) with hpruned
  have hlength : (m.worst pruned).length = pruned := length_worst (Nat.min_le_left _ _)
  have hkept (id info) (h : (FiniteMap.eraseAll m.nodes (m.worst pruned)).lookup id = some info) :
      id ∉ m.worst pruned ∧ m.nodes.lookup id = some info := by
    rw [FiniteMap.lookup_eraseAll] at h
    split at h
    · contradiction
    · exact ⟨‹_›, h⟩
  refine ⟨m.worst pruned, hlength.symm, ?_⟩
  exact {
    nodup := m.nodup_worst pruned
    length_eq := by rw [hlength, hpruned, Nat.min_comm, length_worstFirst]
    regular := fun id hid => by
      obtain ⟨info, hlookup, htier, -⟩ := exists_of_mem_worst hid
      exact ⟨info, hlookup, htier⟩
    lookup_eq := FiniteMap.lookup_eraseAll _ _
    least := fun id hid info hlookup id' info' hlookup' htier' => by
      obtain ⟨hnotMem, hbefore⟩ := hkept id' info' hlookup'
      exact totalSuccesses_le_of_notMem_worst hlookup hid hbefore htier' hnotMem
    bounded := by
      by_cases hall : m.worstFirst.length ≤ m.nodes.keys.length - m.maxTracked
      · right
        intro id info hlookup htier
        obtain ⟨hnotMem, hbefore⟩ := hkept id info hlookup
        exact hnotMem (mem_worst_of_length_le (by omega) hbefore htier)
      · left
        have hcount := FiniteMap.length_keys_eraseAll (m.nodup_worst pruned) fun id hid => by
          obtain ⟨info, hlookup, -⟩ := exists_of_mem_worst hid
          exact ⟨info, hlookup⟩
        change (FiniteMap.eraseAll m.nodes (m.worst pruned)).keys.length ≤ m.maxTracked
        omega
    criteria_eq := rfl
    maxTracked_eq := rfl }

end SuperNodeManager

end CekyP2P.Dht
