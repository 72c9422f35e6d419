import CekyP2P.Core.XorTree
import CekyP2P.Dht.Closest
import CekyP2P.Dht.Lookup

/-!
# Tables and lookups across a network

The buckets of a table are the blocks that the XOR distance splits off on the way to the table's
owner, in whatever order they are numbered. Where no bucket that has a member of the network is
without a usable peer, the answers of the tables lead a lookup to the closest members of all.
-/

namespace CekyP2P

/-- Bytes are combined one by one. -/
theorem ofBeBytes_zipWith_xor {a b : List UInt8} (h : a.length = b.length) :
    ofBeBytes (List.zipWith (· ^^^ ·) a b) = ofBeBytes a ^^^ ofBeBytes b := by
  induction a generalizing b with
  | nil =>
    obtain rfl := List.eq_nil_of_length_eq_zero h.symm
    rfl
  | cons x xs ih =>
    cases b with
    | nil => cases h
    | cons y ys =>
      have hlength : xs.length = ys.length := Nat.succ.inj h
      have hpow : (256 : Nat) ^ ys.length = 2 ^ (8 * ys.length) := (pow_mul 2 8 _).symm
      have hx := ofBeBytes_lt xs
      have hy := ofBeBytes_lt ys
      rw [hlength, hpow] at hx
      rw [hpow] at hy
      rw [List.zipWith_cons_cons, ofBeBytes, ofBeBytes, ofBeBytes, ih hlength, List.length_zipWith,
        hlength, Nat.min_self, UInt8.toNat_xor, hpow, XorTree.add_xor_add hx hy]

namespace Crypto.PeerId

/-- An identifier, read as a big-endian number. -/
def number (id : PeerId) : Nat := ofBeBytes id.bytes.toList

/-- An identifier is known by its number. -/
theorem number_injective : Function.Injective number := by
  intro a b h
  have hbytes : a.bytes.toList = b.bytes.toList := (ofBeBytes_inj (by simp)).mp h
  exact congrArg PeerId.mk (Vector.toList_inj.mp hbytes)

/-- The distance is the exclusive or of the numbers. -/
theorem distance_eq_xor (a b : PeerId) : a.distance b = a.number ^^^ b.number := by
  rw [distance, xorDistance, Vector.toList_zipWith]
  exact ofBeBytes_zipWith_xor (by simp)

/-- The peers of one bucket are on one side of its owner. -/
theorem sameSide_of_bucketIndex_eq {q m x : PeerId} (hne : m ≠ q)
    (h : q.bucketIndex x = q.bucketIndex m) : XorTree.SameSide number q m x := by
  obtain ⟨i, hi⟩ := exists_bucketIndex (Ne.symm hne)
  obtain ⟨-, hm, hm'⟩ := bucketIndex_eq_some_iff.mp hi
  obtain ⟨-, hx, hx'⟩ := bucketIndex_eq_some_iff.mp (h.trans hi)
  rw [distance_eq_xor] at hm hm' hx hx'
  exact XorTree.sameSide_of_bounds hx hx' hm hm'

end Crypto.PeerId

namespace Dht

open Crypto

variable {F : Type} {network : Finset PeerId} {target : PeerId}

namespace RoutingTable

variable {t : RoutingTable F}

/-- The identifiers that a table may answer with. -/
def usableIds (t : RoutingTable F) : Finset PeerId :=
  ((t.allPeers.filter (·.isUsable)).map (·.peerId)).toFinset

/-- No bucket that has a member of the network is without a usable peer. -/
def Knows (network : Finset PeerId) (t : RoutingTable F) : Prop :=
  ∀ m ∈ network, m ≠ t.localId → ∃ id ∈ t.usableIds, t.bucketIndex id = t.bucketIndex m

instance decidableKnows (network : Finset PeerId) (t : RoutingTable F) :
    Decidable (t.Knows network) :=
  inferInstanceAs (Decidable (∀ m ∈ network, m ≠ t.localId →
    ∃ id ∈ t.usableIds, t.bucketIndex id = t.bucketIndex m))

/-- The usable peers populate the tree of the node. -/
theorem Knows.populated (h : t.Knows network) :
    XorTree.Populated PeerId.number network t.localId t.usableIds := by
  intro m hm hne
  obtain ⟨id, hid, hindex⟩ := h m hm hne
  exact ⟨id, hid, PeerId.sameSide_of_bucketIndex_eq hne hindex⟩

/-- The identifiers of an answer are the closest that the table has. -/
theorem Valid.least_findClosest (h : t.Valid) (target : PeerId) (count : Nat) :
    Least (fun id : PeerId => id.number ^^^ target.number) count t.usableIds
      ((t.findClosest target count).map (·.peerId)) := by
  have hclosest := findClosest_closest h.nodup target count
  have hnodup : ((t.allPeers.filter (·.isUsable)).map (·.peerId)).Nodup :=
    h.nodup.sublist (List.filter_sublist.map _)
  have hkey : ∀ {p q : PeerInfo F}, p.peerId.distance target < q.peerId.distance target →
      p.peerId.number ^^^ target.number < q.peerId.number ^^^ target.number := by
    intro p q hlt
    rw [PeerId.distance_eq_xor, PeerId.distance_eq_xor] at hlt
    exact hlt
  refine ⟨List.pairwise_map.mpr (hclosest.sorted.imp hkey), ?_, ?_, ?_⟩
  · refine List.forall_mem_map.mpr fun p hp => ?_
    exact List.mem_toFinset.mpr (List.mem_map_of_mem (hclosest.subset p hp))
  · rw [List.length_map, hclosest.length_eq, usableIds, List.toFinset_card_of_nodup hnodup,
      List.length_map]
  · intro id hid hnot
    obtain ⟨p, hp, rfl⟩ := List.mem_map.mp (List.mem_toFinset.mp hid)
    refine List.forall_mem_map.mpr fun q hq => hkey (hclosest.farther p hp ?_ q hq)
    exact fun hmem => hnot (List.mem_map_of_mem hmem)

/-- What a table answers about a target, where everything it answers reaches the lookup. -/
theorem Valid.answered (h : t.Valid) (hknows : t.Knows network) {supplied : Finset PeerId}
    (hsupplied : ∀ p ∈ t.findClosest target K, p.peerId ∈ supplied) :
    XorTree.Answered PeerId.number target.number K network supplied t.localId :=
  ⟨_, _, hknows.populated, h.least_findClosest target K, List.forall_mem_map.mpr hsupplied⟩

end RoutingTable

namespace IterativeLookup

variable {seeds : List PeerEntry} {calls : List LookupCall}

/-- The identifiers that were ever returned for a query. -/
def returnedIds (target : PeerId) (seeds : List PeerEntry) (calls : List LookupCall) :
    List PeerId :=
  ((new target seeds).batches calls).flatten.map (·.peerId)

/-- A lookup keeps the closest of all that it was told. -/
theorem least_knownPeers (target : PeerId) (seeds : List PeerEntry) (calls : List LookupCall) :
    Least (fun id : PeerId => id.number ^^^ target.number) (K * 3) (suppliedIds seeds calls)
      ((run target seeds calls).knownPeers.map (·.peerId)) := by
  have hclosest := (tracks_run target seeds calls).closest
  rw [target_run] at hclosest
  refine hclosest.of_key fun a b => ?_
  rw [← PeerId.distance_eq_xor, ← PeerId.distance_eq_xor]
  exact PeerId.distance_lt_distance.symm

/-- Where a batch comes out empty, everybody that is known has been returned. -/
theorem mem_returnedIds_of_nextToQuery_eq_nil (hdone : (run target seeds calls).nextToQuery.1 = [])
    {id : PeerId} (hid : id ∈ (run target seeds calls).knownPeers.map (·.peerId)) :
    id ∈ returnedIds target seeds calls := by
  obtain ⟨p, hp, rfl⟩ := List.mem_map.mp hid
  rw [returnedIds, ← List.mem_toFinset, ← (tracks_run target seeds calls).queried_eq]
  by_contra hnot
  have hmem : p ∈ (run target seeds calls).unqueried :=
    List.mem_filter.mpr ⟨hp, decide_eq_true hnot⟩
  rcases List.take_eq_nil_iff.mp hdone with hzero | hnone
  · exact absurd hzero (by decide)
  · rw [show (run target seeds calls).unqueried = [] from hnone] at hmem
    exact List.not_mem_nil hmem

/-- The first peer of the result, where anything was supplied. -/
theorem exists_head_closest (target : PeerId) (calls : List LookupCall) (hseeds : seeds ≠ []) :
    ∃ p, (run target seeds calls).result.closest.head? = some p ∧
      p ∈ (run target seeds calls).knownPeers ∧
      ∀ id ∈ suppliedIds seeds calls,
        p.peerId.number ^^^ target.number ≤ id.number ^^^ target.number := by
  have hleast := least_knownPeers target seeds calls
  have hfirst : ((run target seeds calls).knownPeers.map (·.peerId)).length ≠ 0 := by
    obtain ⟨seed, hseed⟩ := List.exists_mem_of_ne_nil seeds hseeds
    have hmem : seed.peerId ∈ suppliedIds seeds calls :=
      List.mem_toFinset.mpr (List.mem_map_of_mem (List.mem_append_left _ hseed))
    have hcard := Finset.card_pos.mpr ⟨_, hmem⟩
    rw [hleast.length_eq]
    have hK : 0 < K * 3 := by decide
    omega
  simp only [result]
  cases hknown : (run target seeds calls).knownPeers with
  | nil =>
    rw [hknown] at hfirst
    exact absurd rfl hfirst
  | cons p peers =>
    refine ⟨p, rfl, List.mem_cons_self, fun id hid => ?_⟩
    rw [hknown, List.map_cons] at hleast
    by_cases hmem : id ∈ p.peerId :: peers.map (·.peerId)
    · rcases List.mem_cons.mp hmem with rfl | hrest
      · exact Nat.le_refl _
      · exact Nat.le_of_lt ((List.pairwise_cons.mp hleast.sorted).1 id hrest)
    · exact Nat.le_of_lt (hleast.below id hid hmem _ List.mem_cons_self)

end IterativeLookup

end Dht

end CekyP2P
