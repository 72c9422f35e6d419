import CekyP2P.Core.Least
import CekyP2P.Dht.Routing

/-!
# Iterative lookups

A lookup keeps the closest peers that it has heard of, queries them in batches of `ALPHA`, and
is complete when a batch comes out empty. Peers arrive as seeds and as responses, in any order
and at any time.
-/

namespace CekyP2P.Dht

open Crypto Transfer

/-- Number of parallel queries. -/
def ALPHA : Nat := 3

/-- A peer that a lookup knows, with its distance from the target. -/
structure PeerEntry where
  peerId : PeerId
  addr : SocketAddr
  distance : Vector UInt8 32
  deriving DecidableEq

/-- What a lookup has found. -/
structure FindNodeResult where
  closest : List PeerEntry
  hops : Nat
  queriedCount : Nat

/-- The state of a lookup. -/
structure IterativeLookup where
  target : PeerId
  knownPeers : List PeerEntry
  queried : Finset PeerId
  round : Nat
  converged : Bool

namespace IterativeLookup

/-- Add a newly discovered peer; the distance that comes with it is not used. -/
def addPeer (l : IterativeLookup) (peer : PeerEntry) : IterativeLookup :=
  if l.knownPeers.any (·.peerId = peer.peerId) then l
  else
    let entry : PeerEntry := ⟨peer.peerId, peer.addr, peer.peerId.xorDistance l.target⟩
    { l with
      knownPeers := ((l.knownPeers ++ [entry]).insertionSort fun a b =>
        a.distance.toList ≤ b.distance.toList).take (K * 3) }

/-- A lookup that starts from some peers. -/
def new (target : PeerId) (seedPeers : List PeerEntry) : IterativeLookup :=
  seedPeers.foldl addPeer ⟨target, [], ∅, 0, false⟩

/-- The next batch of peers to query. -/
def nextToQuery (l : IterativeLookup) : List PeerEntry × IterativeLookup :=
  let toQuery := (l.knownPeers.filter (·.peerId ∉ l.queried)).take ALPHA
  (toQuery, { l with
    converged := if toQuery.isEmpty then true else l.converged
    queried := toQuery.foldl (fun queried peer => insert peer.peerId queried) l.queried
    round := l.round + 1 })

/-- The source also compares the closest distances before and after, to no effect. -/
def processResponses (l : IterativeLookup) (newPeers : List PeerEntry) : IterativeLookup :=
  newPeers.foldl addPeer l

/-- The lookup has converged. -/
def isComplete (l : IterativeLookup) : Bool := l.converged

/-- The result of a lookup. -/
def result (l : IterativeLookup) : FindNodeResult where
  closest := l.knownPeers.take K
  hops := l.round
  queriedCount := l.queried.card

end IterativeLookup

/-- The calls on a lookup. -/
inductive LookupCall
  | addPeer (peer : PeerEntry)
  | processResponses (newPeers : List PeerEntry)
  | nextToQuery

/-- The peers that a call supplies. -/
def LookupCall.peers : LookupCall → List PeerEntry
  | addPeer peer => [peer]
  | processResponses newPeers => newPeers
  | nextToQuery => []

namespace IterativeLookup

/-- What a call makes of a lookup. -/
def step (l : IterativeLookup) : LookupCall → IterativeLookup
  | .addPeer peer => l.addPeer peer
  | .processResponses newPeers => l.processResponses newPeers
  | .nextToQuery => l.nextToQuery.2

/-- A lookup after some calls. -/
def run (target : PeerId) (seeds : List PeerEntry) (calls : List LookupCall) : IterativeLookup :=
  calls.foldl step (new target seeds)

/-- The batch that a call returns. -/
def batch (l : IterativeLookup) : LookupCall → List (List PeerEntry)
  | .nextToQuery => [l.nextToQuery.1]
  | _ => []

/-- The batches that the calls of a run return. -/
def batches : IterativeLookup → List LookupCall → List (List PeerEntry)
  | _, [] => []
  | l, call :: calls => l.batch call ++ batches (l.step call) calls

/-- The identifiers of a list of peers. -/
def idsOf (peers : List PeerEntry) : Finset PeerId := (peers.map (·.peerId)).toFinset

/-- The identifiers that were ever supplied. -/
def suppliedIds (seeds : List PeerEntry) (calls : List LookupCall) : Finset PeerId :=
  idsOf (seeds ++ calls.flatMap (·.peers))

/-- How far an identifier is from the target; distances are compared byte by byte. -/
def distanceTo (target id : PeerId) : List UInt8 := (id.xorDistance target).toList

/-- Different peers have different distances. -/
theorem distanceTo_injective (target : PeerId) : Function.Injective (distanceTo target) := by
  intro a b h
  exact PeerId.xorDistance_left_injective target (Vector.toList_inj.mp h)

/-! ## What a lookup keeps -/

/-- Every entry has its distance, the identifiers kept are the closest of all that were
supplied, and those queried are the ones returned. -/
structure Tracks (l : IterativeLookup) (supplied : Finset PeerId) (returned : List PeerId) :
    Prop where
  distance_eq : ∀ p ∈ l.knownPeers, p.distance = p.peerId.xorDistance l.target
  closest : Least (distanceTo l.target) (K * 3) supplied (l.knownPeers.map (·.peerId))
  queried_eq : l.queried = returned.toFinset
  returned_nodup : returned.Nodup
  returned_subset : ∀ id ∈ returned, id ∈ supplied

variable {l : IterativeLookup} {supplied : Finset PeerId} {returned : List PeerId}

@[simp] theorem target_addPeer (peer : PeerEntry) : (l.addPeer peer).target = l.target := by
  unfold addPeer
  split <;> rfl

@[simp] theorem queried_addPeer (peer : PeerEntry) : (l.addPeer peer).queried = l.queried := by
  unfold addPeer
  split <;> rfl

@[simp] theorem converged_addPeer (peer : PeerEntry) :
    (l.addPeer peer).converged = l.converged := by
  unfold addPeer
  split <;> rfl

/-- A new peer is entered with its distance, sorted in, and the list cut off. -/
theorem ids_addPeer_of_new (h : l.Tracks supplied returned) {peer : PeerEntry}
    (hnew : peer.peerId ∉ l.knownPeers.map (·.peerId)) :
    (∀ p ∈ (l.addPeer peer).knownPeers, p.distance = p.peerId.xorDistance l.target) ∧
      (l.addPeer peer).knownPeers.map (·.peerId) =
        ((l.knownPeers.map (·.peerId) ++ [peer.peerId]).insertionSort fun a b =>
          distanceTo l.target a ≤ distanceTo l.target b).take (K * 3) := by
  have hany : l.knownPeers.any (·.peerId = peer.peerId) = false := by
    rw [List.any_eq_false]
    intro p hp heq
    exact hnew (List.mem_map.mpr ⟨p, hp, of_decide_eq_true heq⟩)
  have hpeers : (l.addPeer peer).knownPeers =
      (List.insertionSort (fun a b : PeerEntry => a.distance.toList ≤ b.distance.toList)
        (l.knownPeers ++ [⟨peer.peerId, peer.addr, peer.peerId.xorDistance l.target⟩])).take
          (K * 3) := by
    rw [addPeer, if_neg (by simp [hany])]
  have hdistance : ∀ p ∈ l.knownPeers ++
      [⟨peer.peerId, peer.addr, peer.peerId.xorDistance l.target⟩],
      p.distance = p.peerId.xorDistance l.target := by
    intro p hp
    rcases List.mem_append.mp hp with hp | hp
    · exact h.distance_eq p hp
    · rw [List.mem_singleton.mp hp]
  rw [hpeers]
  refine ⟨fun p hp => hdistance p ?_, ?_⟩
  · exact (List.perm_insertionSort _ _).mem_iff.mp (List.mem_of_mem_take hp)
  · rw [List.map_take, List.map_insertionSort _ (fun a b =>
      distanceTo l.target a ≤ distanceTo l.target b), List.map_append]
    · rfl
    · intro p hp q hq
      rw [hdistance p hp, hdistance q hq]
      rfl

/-- A peer is added. -/
theorem Tracks.addPeer (h : l.Tracks supplied returned) (peer : PeerEntry) :
    (l.addPeer peer).Tracks (insert peer.peerId supplied) returned := by
  have hsubset : ∀ id ∈ returned, id ∈ insert peer.peerId supplied :=
    fun id hid => Finset.mem_insert_of_mem (h.returned_subset id hid)
  by_cases hknown : peer.peerId ∈ l.knownPeers.map (·.peerId)
  · have hany : l.knownPeers.any (·.peerId = peer.peerId) = true := by
      obtain ⟨p, hp, heq⟩ := List.mem_map.mp hknown
      exact List.any_eq_true.mpr ⟨p, hp, decide_eq_true heq⟩
    rw [IterativeLookup.addPeer, if_pos hany]
    exact ⟨h.distance_eq, h.closest.insert_of_mem hknown, h.queried_eq, h.returned_nodup, hsubset⟩
  · obtain ⟨hdistance, hids⟩ := ids_addPeer_of_new h hknown
    refine ⟨?_, ?_, ?_, h.returned_nodup, hsubset⟩
    · rw [target_addPeer]
      exact hdistance
    · rw [target_addPeer, hids]
      exact h.closest.insert (distanceTo_injective l.target) hknown
    · rw [queried_addPeer]
      exact h.queried_eq

/-- The identifiers of one peer more. -/
theorem idsOf_cons (peer : PeerEntry) (peers : List PeerEntry) :
    idsOf (peer :: peers) = insert peer.peerId (idsOf peers) := by
  simp [idsOf]

/-- The identifiers of two lists. -/
theorem idsOf_append (peers more : List PeerEntry) :
    idsOf (peers ++ more) = idsOf peers ∪ idsOf more := by
  simp [idsOf, List.toFinset_append]

/-- Several peers are added. -/
theorem Tracks.addPeers (h : l.Tracks supplied returned) (peers : List PeerEntry) :
    (peers.foldl IterativeLookup.addPeer l).Tracks (supplied ∪ idsOf peers) returned := by
  induction peers generalizing l supplied with
  | nil =>
    rw [show idsOf [] = ∅ from rfl, Finset.union_empty]
    exact h
  | cons peer peers ih =>
    have hrest := ih (h.addPeer peer)
    rw [Finset.insert_union, ← Finset.union_insert, ← idsOf_cons] at hrest
    exact hrest

/-- Adding peers changes nothing but the known peers. -/
theorem foldl_addPeer (l : IterativeLookup) (peers : List PeerEntry) :
    (peers.foldl addPeer l).target = l.target ∧ (peers.foldl addPeer l).queried = l.queried ∧
      (peers.foldl addPeer l).converged = l.converged := by
  induction peers generalizing l with
  | nil => exact ⟨rfl, rfl, rfl⟩
  | cons peer peers ih =>
    obtain ⟨htarget, hqueried, hconverged⟩ := ih (l.addPeer peer)
    exact ⟨htarget.trans (target_addPeer peer), hqueried.trans (queried_addPeer peer),
      hconverged.trans (converged_addPeer peer)⟩

/-- A new lookup knows its seeds. -/
theorem tracks_new (target : PeerId) (seeds : List PeerEntry) :
    (new target seeds).Tracks (idsOf seeds) [] := by
  have hempty : Tracks ⟨target, [], ∅, 0, false⟩ ∅ [] :=
    ⟨nofun, Least.nil _ _, rfl, List.nodup_nil, nofun⟩
  have h := hempty.addPeers seeds
  rw [Finset.empty_union] at h
  exact h

/-! ## What a lookup asks -/

/-- The known peers that have not been queried. -/
def unqueried (l : IterativeLookup) : List PeerEntry :=
  l.knownPeers.filter (·.peerId ∉ l.queried)

/-- What is returned to be queried is marked as queried. -/
theorem mem_queried_nextToQuery {id : PeerId} : id ∈ l.nextToQuery.2.queried ↔
    id ∈ l.queried ∨ id ∈ l.nextToQuery.1.map (·.peerId) := by
  have hfold : ∀ (peers : List PeerEntry) (queried : Finset PeerId),
      id ∈ peers.foldl (fun queried peer => insert peer.peerId queried) queried ↔
        id ∈ queried ∨ id ∈ peers.map (·.peerId) := by
    intro peers
    induction peers with
    | nil => simp
    | cons peer peers ih =>
      intro queried
      rw [List.foldl_cons, ih, Finset.mem_insert, List.map_cons, List.mem_cons]
      tauto
  exact hfold _ _

/-- The identifiers of the batch: the closest ones that are known and were not returned. -/
theorem Tracks.least_nextToQuery (h : l.Tracks supplied returned) :
    Least (distanceTo l.target) ALPHA (idsOf l.unqueried) (l.nextToQuery.1.map (·.peerId)) := by
  have hsorted : (l.unqueried.map (·.peerId)).Pairwise fun a b =>
      distanceTo l.target a < distanceTo l.target b :=
    h.closest.sorted.sublist (List.filter_sublist.map _)
  rw [show l.nextToQuery.1 = l.unqueried.take ALPHA from rfl, List.map_take]
  exact Least.of_sorted hsorted ALPHA

/-- A batch is returned. -/
theorem Tracks.nextToQuery (h : l.Tracks supplied returned) :
    l.nextToQuery.2.Tracks supplied (returned ++ l.nextToQuery.1.map (·.peerId)) := by
  have hbatch := h.least_nextToQuery
  have hunqueried : ∀ id ∈ l.nextToQuery.1.map (·.peerId),
      id ∉ l.queried ∧ id ∈ l.knownPeers.map (·.peerId) := by
    intro id hid
    obtain ⟨p, hp, rfl⟩ := List.mem_map.mp (List.mem_toFinset.mp (hbatch.subset id hid))
    obtain ⟨hknown, hnot⟩ := List.mem_filter.mp hp
    exact ⟨of_decide_eq_true hnot, List.mem_map.mpr ⟨p, hknown, rfl⟩⟩
  refine ⟨h.distance_eq, h.closest, ?_, ?_, ?_⟩
  · ext id
    rw [mem_queried_nextToQuery, h.queried_eq, List.mem_toFinset, List.mem_toFinset,
      List.mem_append]
  · rw [List.nodup_append]
    refine ⟨h.returned_nodup, hbatch.nodup, ?_⟩
    rintro id hid _ hid' rfl
    refine (hunqueried id hid').1 ?_
    rw [h.queried_eq]
    exact List.mem_toFinset.mpr hid
  · intro id hid
    rcases List.mem_append.mp hid with hid | hid
    · exact h.returned_subset id hid
    · exact h.closest.subset id (hunqueried id hid).2

/-- A call adds the peers that it supplies and the identifiers that it returns. -/
theorem Tracks.step (h : l.Tracks supplied returned) (call : LookupCall) :
    (l.step call).Tracks (supplied ∪ idsOf call.peers)
      (returned ++ (l.batch call).flatten.map (·.peerId)) := by
  cases call with
  | addPeer peer =>
    rw [show (l.batch (.addPeer peer)).flatten = [] from rfl, List.map_nil, List.append_nil]
    exact h.addPeers [peer]
  | processResponses newPeers =>
    rw [show (l.batch (.processResponses newPeers)).flatten = [] from rfl, List.map_nil,
      List.append_nil]
    exact h.addPeers newPeers
  | nextToQuery =>
    rw [show idsOf LookupCall.nextToQuery.peers = ∅ from rfl, Finset.union_empty]
    simp only [batch, List.flatten_singleton]
    exact h.nextToQuery

/-- The invariant of a lookup over several calls. -/
theorem Tracks.run (h : l.Tracks supplied returned) (calls : List LookupCall) :
    (calls.foldl IterativeLookup.step l).Tracks (supplied ∪ idsOf (calls.flatMap (·.peers)))
      (returned ++ (l.batches calls).flatten.map (·.peerId)) := by
  induction calls generalizing l supplied returned with
  | nil =>
    rw [show idsOf ([].flatMap LookupCall.peers) = ∅ from rfl, Finset.union_empty]
    simp only [batches, List.flatten_nil, List.map_nil, List.append_nil]
    exact h
  | cons call calls ih =>
    have hrest := ih (h.step call)
    rw [Finset.union_assoc, ← idsOf_append, List.append_assoc, ← List.map_append,
      ← List.flatten_append] at hrest
    exact hrest

/-- The invariant of a lookup from its start. -/
theorem tracks_run (target : PeerId) (seeds : List PeerEntry) (calls : List LookupCall) :
    (run target seeds calls).Tracks (suppliedIds seeds calls)
      (((new target seeds).batches calls).flatten.map (·.peerId)) := by
  rw [suppliedIds, idsOf_append]
  exact (tracks_new target seeds).run calls

@[simp] theorem target_step (call : LookupCall) : (l.step call).target = l.target := by
  cases call with
  | addPeer peer => exact target_addPeer peer
  | processResponses newPeers => exact (foldl_addPeer l newPeers).1
  | nextToQuery => rfl

/-- The target never changes. -/
theorem target_run (target : PeerId) (seeds : List PeerEntry) (calls : List LookupCall) :
    (run target seeds calls).target = target := by
  have hfold : ∀ (calls : List LookupCall) (l : IterativeLookup),
      (calls.foldl step l).target = l.target := by
    intro calls
    induction calls with
    | nil => exact fun _ => rfl
    | cons call calls ih => exact fun l => (ih (l.step call)).trans (target_step call)
  exact (hfold calls _).trans (foldl_addPeer _ seeds).1

/-- In every state the known peers are the closest of all that were ever supplied, in
increasing distance, and the result depends on the supplied identifiers only. -/
theorem knownPeers_closest (target : PeerId) (seeds : List PeerEntry) (calls : List LookupCall) :
    Least (distanceTo target) (K * 3) (suppliedIds seeds calls)
        ((run target seeds calls).knownPeers.map (·.peerId)) ∧
      (∀ p ∈ (run target seeds calls).knownPeers, p.distance = p.peerId.xorDistance target) ∧
      ∀ seeds' calls', suppliedIds seeds' calls' = suppliedIds seeds calls →
        (run target seeds' calls').result.closest.map (·.peerId) =
          (run target seeds calls).result.closest.map (·.peerId) := by
  have hleast : ∀ seeds calls, Least (distanceTo target) (K * 3) (suppliedIds seeds calls)
      ((run target seeds calls).knownPeers.map (·.peerId)) := by
    intro seeds calls
    have h := (tracks_run target seeds calls).closest
    rw [target_run] at h
    exact h
  refine ⟨hleast seeds calls, ?_, ?_⟩
  · have h := (tracks_run target seeds calls).distance_eq
    rw [target_run] at h
    exact h
  · intro seeds' calls' hsame
    have hother := hleast seeds' calls'
    rw [hsame] at hother
    simp only [result, List.map_take]
    rw [hother.unique (hleast seeds calls)]

/-- A peer whose identifier repeats one byte. -/
def samplePeer (byte : UInt8) : PeerEntry :=
  ⟨⟨Vector.replicate 32 byte⟩, ⟨.v4 (Ipv4Addr.new 127 0 0 1), 4000⟩, Vector.replicate 32 0⟩

/-- The order in which peers come does not matter. -/
theorem knownPeers_closest_reordered :
    (run (samplePeer 0).peerId [samplePeer 2] [.addPeer (samplePeer 1)]).result.closest.map
        (·.peerId) =
      (run (samplePeer 0).peerId []
        [.processResponses [samplePeer 1, samplePeer 2]]).result.closest.map (·.peerId) :=
  (knownPeers_closest _ _ _).2.2 _ _ (by decide +kernel)

/-- The non-empty lists are at most as many as all their elements. -/
theorem length_filter_ne_nil_le {α : Type} [DecidableEq α] (lists : List (List α)) :
    (lists.filter (· ≠ [])).length ≤ lists.flatten.length := by
  induction lists with
  | nil => simp
  | cons head lists ih =>
    cases head with
    | nil => simpa using ih
    | cons a tail =>
      simp only [ne_eq, reduceCtorEq, not_false_eq_true, decide_true, List.filter_cons_of_pos,
        List.length_cons, List.flatten_cons, List.length_append]
      simp only [ne_eq] at ih
      omega

/-- No identifier is returned twice; a batch has the closest known peers that were not
returned before; the count is that of the identifiers returned; and there are at most as many
non-empty batches as identifiers were supplied. -/
theorem queried_at_most_once (target : PeerId) (seeds : List PeerEntry)
    (calls : List LookupCall) :
    (((new target seeds).batches calls).flatten.map (·.peerId)).Nodup ∧
      (∀ p ∈ (run target seeds calls).nextToQuery.1, p ∈ (run target seeds calls).knownPeers) ∧
      Least (distanceTo target) ALPHA
        (idsOf (run target seeds calls).knownPeers \
          idsOf ((new target seeds).batches calls).flatten)
        ((run target seeds calls).nextToQuery.1.map (·.peerId)) ∧
      (run target seeds calls).result.queriedCount =
        ((new target seeds).batches calls).flatten.length ∧
      (((new target seeds).batches calls).filter (· ≠ [])).length ≤
        (suppliedIds seeds calls).card := by
  have h := tracks_run target seeds calls
  have hcount : (run target seeds calls).queried.card =
      ((new target seeds).batches calls).flatten.length := by
    rw [h.queried_eq, List.toFinset_card_of_nodup h.returned_nodup, List.length_map]
  have hsubset : (run target seeds calls).queried ⊆ suppliedIds seeds calls := by
    intro id hid
    rw [h.queried_eq] at hid
    exact h.returned_subset id (List.mem_toFinset.mp hid)
  refine ⟨h.returned_nodup, ?_, ?_, hcount, ?_⟩
  · exact fun p hp => (List.mem_filter.mp (List.mem_of_mem_take hp)).1
  · have hleast := h.least_nextToQuery
    have hids : idsOf (run target seeds calls).unqueried =
        idsOf (run target seeds calls).knownPeers \
          idsOf ((new target seeds).batches calls).flatten := by
      ext id
      simp only [idsOf, unqueried, h.queried_eq, Finset.mem_sdiff, List.mem_toFinset,
        List.mem_map, List.mem_filter, decide_eq_true_eq]
      constructor
      · rintro ⟨p, ⟨hp, hnot⟩, rfl⟩
        exact ⟨⟨p, hp, rfl⟩, hnot⟩
      · rintro ⟨⟨p, hp, rfl⟩, hnot⟩
        exact ⟨p, ⟨hp, hnot⟩, rfl⟩
    rw [target_run, hids] at hleast
    exact hleast
  · calc (((new target seeds).batches calls).filter (· ≠ [])).length
        ≤ ((new target seeds).batches calls).flatten.length := length_filter_ne_nil_le _
      _ = (run target seeds calls).queried.card := hcount.symm
      _ ≤ (suppliedIds seeds calls).card := Finset.card_le_card hsubset

/-! ## When a lookup is complete -/

/-- A complete lookup has queried every peer that it knows. -/
def NothingLeft (l : IterativeLookup) : Prop :=
  l.isComplete = true → ∀ p ∈ l.knownPeers, p.peerId ∈ l.queried

/-- The list is full of closer peers. -/
def TooFar (l : IterativeLookup) (id : PeerId) : Prop :=
  l.knownPeers.length = K * 3 ∧
    ∀ p ∈ l.knownPeers, distanceTo l.target p.peerId < distanceTo l.target id

/-- Once the lookup is complete, a call brings only peers that it knows or would not keep. -/
def BringsNothing (l : IterativeLookup) (call : LookupCall) : Prop :=
  l.isComplete = true → ∀ p ∈ call.peers,
    p.peerId ∈ l.knownPeers.map (·.peerId) ∨ l.TooFar p.peerId

/-- Nothing is added by peers that are known or too far. -/
theorem Tracks.ids_addPeers_iff (h : l.Tracks supplied returned) (peers : List PeerEntry) :
    (∀ p ∈ peers, p.peerId ∈ l.knownPeers.map (·.peerId) ∨ l.TooFar p.peerId) ↔
      (peers.foldl IterativeLookup.addPeer l).knownPeers.map (·.peerId) =
        l.knownPeers.map (·.peerId) := by
  have hnow := (h.addPeers peers).closest
  rw [(foldl_addPeer l peers).1] at hnow
  constructor
  · intro hpeers
    refine hnow.unique (h.closest.of_superset Finset.subset_union_left ?_)
    intro id hid hnot
    have hmem := (Finset.mem_union.mp hid).resolve_left hnot
    obtain ⟨p, hp, rfl⟩ := List.mem_map.mp (List.mem_toFinset.mp hmem)
    obtain ⟨hfull, hcloser⟩ :=
      (hpeers p hp).resolve_left fun hknown => hnot (h.closest.subset _ hknown)
    rw [List.length_map]
    exact ⟨hfull, List.forall_mem_map.mpr hcloser⟩
  · intro hsame p hp
    rw [hsame] at hnow
    by_cases hknown : p.peerId ∈ l.knownPeers.map (·.peerId)
    · exact .inl hknown
    · have hmem : p.peerId ∈ supplied ∪ idsOf peers :=
        Finset.mem_union_right _ (List.mem_toFinset.mpr (List.mem_map.mpr ⟨p, hp, rfl⟩))
      have hfull := hnow.length_of_not_mem hmem hknown
      rw [List.length_map] at hfull
      exact .inr ⟨hfull, List.forall_mem_map.mp (hnow.below _ hmem hknown)⟩

/-- Responses to a complete lookup leave nothing to ask just if they bring nothing. -/
theorem Tracks.nothingLeft_addPeers (h : l.Tracks supplied returned) (hleft : l.NothingLeft)
    (peers : List PeerEntry) :
    (peers.foldl IterativeLookup.addPeer l).NothingLeft ↔ (l.isComplete = true →
      ∀ p ∈ peers, p.peerId ∈ l.knownPeers.map (·.peerId) ∨ l.TooFar p.peerId) := by
  obtain ⟨htarget, hqueried, hconverged⟩ := foldl_addPeer l peers
  unfold NothingLeft isComplete
  rw [hconverged, hqueried]
  refine imp_congr_right fun hcomplete => ?_
  rw [h.ids_addPeers_iff peers]
  constructor
  · intro hall
    have hnow := (h.addPeers peers).closest
    rw [htarget] at hnow
    refine (hnow.of_subset Finset.subset_union_left ?_).unique h.closest
    refine List.forall_mem_map.mpr fun p hp => ?_
    have hp := hall p hp
    rw [h.queried_eq] at hp
    exact h.returned_subset _ (List.mem_toFinset.mp hp)
  · intro hsame
    have hids : ∀ id ∈ l.knownPeers.map (·.peerId), id ∈ l.queried :=
      List.forall_mem_map.mpr (hleft hcomplete)
    rw [← hsame] at hids
    exact List.forall_mem_map.mp hids

/-- A lookup that has nothing left to query returns nothing and stays so. -/
theorem NothingLeft.nextToQuery (hleft : l.NothingLeft) : l.nextToQuery.2.NothingLeft := by
  intro hcomplete p hp
  rw [mem_queried_nextToQuery]
  by_cases hbatch : l.nextToQuery.1 = []
  · refine .inl (not_not.mp fun hnot => ?_)
    have hmem : p ∈ l.unqueried := List.mem_filter.mpr ⟨hp, decide_eq_true hnot⟩
    rcases List.take_eq_nil_iff.mp hbatch with hzero | hnone
    · exact absurd hzero (by decide)
    · rw [show l.unqueried = [] from hnone] at hmem
      exact List.not_mem_nil hmem
  · refine .inl (hleft ?_ p hp)
    have hnonempty : (l.nextToQuery.1).isEmpty = false := by
      rw [← Bool.not_eq_true, List.isEmpty_iff]
      exact hbatch
    change (if (l.nextToQuery.1).isEmpty then true else l.converged) = true at hcomplete
    rw [hnonempty] at hcomplete
    exact hcomplete

/-- Only a new peer among the closest brings something to query. -/
theorem Tracks.nothingLeft_step (h : l.Tracks supplied returned) (hleft : l.NothingLeft)
    (call : LookupCall) : (l.step call).NothingLeft ↔ l.BringsNothing call := by
  cases call with
  | addPeer peer => exact h.nothingLeft_addPeers hleft [peer]
  | processResponses newPeers => exact h.nothingLeft_addPeers hleft newPeers
  | nextToQuery => exact ⟨fun _ _ => nofun, fun _ => hleft.nextToQuery⟩

/-- In every state of a run a complete lookup has nothing left to ask, just if whatever
arrives after completion is known or too far. -/
theorem nothingLeft_iff (target : PeerId) (seeds : List PeerEntry) (calls : List LookupCall) :
    (∀ taken, taken <+: calls → (run target seeds taken).NothingLeft) ↔
      Along BringsNothing step (new target seeds) calls := by
  refine forall_prefix_iff_along (I := fun l => ∃ supplied returned, l.Tracks supplied returned)
    ?_ ?_ ⟨_, _, tracks_new target seeds⟩ ?_ calls
  · rintro l call ⟨_, _, h⟩
    exact ⟨_, _, h.step call⟩
  · rintro l call ⟨_, _, h⟩ hleft
    exact h.nothingLeft_step hleft call
  · intro hcomplete
    rw [isComplete, new, (foldl_addPeer _ seeds).2.2] at hcomplete
    exact absurd hcomplete Bool.false_ne_true

/-- The response of the only seed comes after the batch that ended the lookup. -/
theorem late_response_left_unasked :
    let l := run (samplePeer 0).peerId [samplePeer 2]
      [.nextToQuery, .nextToQuery, .processResponses [samplePeer 1]]
    l.isComplete = true ∧ (samplePeer 1).peerId ∈ l.result.closest.map (·.peerId) ∧
      (samplePeer 1).peerId ∉ l.queried := by
  decide +kernel

end IterativeLookup

end CekyP2P.Dht
