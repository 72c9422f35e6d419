import CekyP2P.Core.Least
import CekyP2P.Crypto.XorMetric
import CekyP2P.Dht.RoutingInvariant

/-!
# The closest peers of a table

The table looks at all its buckets, so the answer is exact wherever the target lies. It has no
ties, because no identifier stands in the table twice.
-/

namespace CekyP2P.Dht

open Crypto

variable {F : Type} {f64 : F64 F}

namespace RoutingTable

/-- The peers of a list that are closest to a target: as many as asked for, nearest first. -/
structure Closest (target : PeerId) (count : Nat) (peers closest : List (PeerInfo F)) : Prop where
  length_eq : closest.length = min count peers.length
  subset : ∀ p ∈ closest, p ∈ peers
  sorted : closest.Pairwise fun p q => p.peerId.distance target < q.peerId.distance target
  farther : ∀ p ∈ peers, p ∉ closest → ∀ q ∈ closest,
    q.peerId.distance target < p.peerId.distance target

/-- `find_closest` returns the closest of the usable peers. -/
theorem findClosest_closest {t : RoutingTable F} (h : (t.allPeers.map (·.peerId)).Nodup)
    (target : PeerId) (count : Nat) :
    Closest target count (t.allPeers.filter (·.isUsable)) (t.findClosest target count) := by
  classical
  have hids : ((t.allPeers.filter (·.isUsable)).map (·.peerId)).Nodup :=
    h.sublist (List.filter_sublist.map _)
  rw [findClosest]
  generalize t.allPeers.filter (·.isUsable) = usable at hids
  have hkeys : (usable.map fun p => (p.peerId.xorDistance target).toList).Nodup := by
    have hinj : Function.Injective fun id : PeerId => (id.xorDistance target).toList := by
      intro a b hab
      exact PeerId.distance_left_injective target (congrArg ofBeBytes hab)
    have hmap := hids.map hinj
    rw [List.map_map] at hmap
    exact hmap
  have hsorted := Least.sorted_insertionSort hkeys
  have hperm := List.perm_insertionSort (fun p q : PeerInfo F =>
    (p.peerId.xorDistance target).toList ≤ (q.peerId.xorDistance target).toList) usable
  generalize usable.insertionSort (fun p q : PeerInfo F =>
    (p.peerId.xorDistance target).toList ≤ (q.peerId.xorDistance target).toList) = sorted
    at hsorted hperm
  have hleast := Least.of_sorted hsorted count
  refine ⟨?_, ?_, ?_, ?_⟩
  · rw [List.length_take, hperm.length_eq]
  · intro p hp
    exact hperm.mem_iff.mp (List.mem_of_mem_take hp)
  · exact hleast.sorted.imp PeerId.distance_lt_distance.mpr
  · intro p hp hnot q hq
    have hmem := List.mem_toFinset.mpr (hperm.mem_iff.mpr hp)
    exact PeerId.distance_lt_distance.mpr (hleast.below p hmem hnot q hq)

/-- In every state that mutations reach, the closest usable peers are found. -/
theorem findClosest_exact (f64 : F64 F) (localId : PeerId) (now : Nat) (calls : List Mutation)
    (target : PeerId) (count : Nat) :
    ((((new localId now).run f64 calls).findClosest target count).map (·.peerId)).Nodup ∧
    (∀ p ∈ ((new localId now).run f64 calls).findClosest target count,
      p ∈ ((new localId now).run f64 calls).allPeers ∧
        (p.state = .discovered ∨ p.state = .active)) ∧
    Closest target count (((new localId now).run f64 calls).allPeers.filter (·.isUsable))
      (((new localId now).run f64 calls).findClosest target count) := by
  have hvalid := ((valid_new localId now).run f64 calls).1
  generalize (new localId now).run f64 calls = t at hvalid
  have hclosest := findClosest_closest hvalid.nodup target count
  refine ⟨?_, ?_, hclosest⟩
  · rw [List.Nodup, List.pairwise_map]
    refine hclosest.sorted.imp ?_
    intro p q hlt heq
    rw [heq] at hlt
    exact Nat.lt_irrefl _ hlt
  · intro p hp
    obtain ⟨hmem, husable⟩ := List.mem_filter.mp (hclosest.subset p hp)
    exact ⟨hmem, of_decide_eq_true husable⟩

end RoutingTable

end CekyP2P.Dht
