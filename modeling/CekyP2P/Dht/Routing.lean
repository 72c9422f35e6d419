import Mathlib.Data.List.Sort
import CekyP2P.Core.Exec
import CekyP2P.Dht.Error
import CekyP2P.Dht.PeerInfo

/-!
# The routing table

256 buckets of at most `K` peers. A peer is kept in the bucket that the XOR of its identifier
with the local one decides.
-/

namespace CekyP2P.Dht

open Crypto Transfer

/-- Peers per bucket. -/
def K : Nat := 20

/-- The number of buckets. -/
def numBuckets : Nat := 256

/-- What an insertion into a bucket did. -/
inductive InsertOutcome
  | newPeer | updated | evicted
  deriving DecidableEq

/-- The peers at one distance, with new and updated ones at the end. -/
structure KBucket (F : Type) where
  peers : List (PeerInfo F)
  lastRefresh : Nat

variable {F : Type} (f64 : F64 F)

namespace KBucket

/-- An empty bucket. -/
def new (now : Nat) : KBucket F := ⟨[], now⟩

/-- The bucket has no room. -/
def isFull (b : KBucket F) : Bool := K ≤ b.peers.length

/-- The place of a peer. -/
def find (b : KBucket F) (peerId : PeerId) : Option Nat :=
  b.peers.findIdx? (·.peerId = peerId)

/-- The entry of a peer. -/
def get (b : KBucket F) (peerId : PeerId) : Option (PeerInfo F) :=
  b.peers.find? (·.peerId = peerId)

/-- A change through `get_mut`. -/
def modify (b : KBucket F) (peerId : PeerId) (f : PeerInfo F → PeerInfo F) : KBucket F :=
  match b.find peerId with
  | some idx => { b with peers := b.peers.modify idx f }
  | none => b

/-- One iteration of the search for an eviction candidate, with the best index and score. -/
def considerEviction (best : Option Nat × F) (entry : PeerInfo F × Nat) : Option Nat × F :=
  let (peer, i) := entry
  match peer.state with
  | .dead =>
    let score := peer.score.compositeScore f64
    if f64.lt score best.2 then (some i, score) else best
  | .suspect =>
    let score := peer.score.compositeScore f64
    if f64.lt score best.2 then (some i, score) else best
  | _ => best

/-- The place of the dead or suspect peer with the least score. -/
def findEvictionCandidate (b : KBucket F) : Option Nat :=
  (b.peers.zipIdx.foldl (considerEviction f64) (none, f64.greatest)).1

/-- A known peer moves to the end; a new one needs room, or the place of an eviction candidate. -/
def insertOrUpdate (peer : PeerInfo F) (now : Nat) : Exec Unit (KBucket F) InsertOutcome := do
  let b ← MonadState.get
  match b.find peer.peerId with
  | some idx => do
    let p ← Exec.index b.peers idx
    let p := { p with addr := peer.addr }.touch now
    MonadState.set { b with peers := b.peers.eraseIdx idx ++ [p] }
    pure .updated
  | none =>
    if b.isFull then
      match b.findEvictionCandidate f64 with
      | some evictIdx => do
        let _ ← Exec.index b.peers evictIdx
        MonadState.set { b with peers := b.peers.eraseIdx evictIdx ++ [peer] }
        pure .evicted
      | none => throw (.error ())
    else do
      MonadState.set { b with peers := b.peers ++ [peer] }
      pure .newPeer

/-- A peer is taken out of its bucket. -/
def remove (peerId : PeerId) : Exec DhtError (KBucket F) (Option (PeerInfo F)) := do
  let b ← MonadState.get
  match b.find peerId with
  | some idx => do
    let peer ← Exec.index b.peers idx
    MonadState.set { b with peers := b.peers.eraseIdx idx }
    pure (some peer)
  | none => pure none

/-- `peers.retain(|p| p.state != PeerState::Dead)`. -/
def retainAlive (b : KBucket F) : KBucket F :=
  { b with peers := b.peers.filter (·.state ≠ .dead) }

end KBucket

/-- The buckets of a node. -/
structure RoutingTable (F : Type) where
  localId : PeerId
  buckets : List (KBucket F)
  totalPeers : Nat

namespace RoutingTable

/-- A table without peers. -/
def new (localId : PeerId) (now : Nat) : RoutingTable F where
  localId := localId
  buckets := List.replicate numBuckets (.new now)
  totalPeers := 0

/-- The bucket of an identifier. -/
def bucketIndex (t : RoutingTable F) (peerId : PeerId) : Option Nat :=
  t.localId.bucketIndex peerId

/-- A peer is inserted into its bucket, unless it is the node itself. -/
def insert (peerId : PeerId) (addr : SocketAddr) (now : Nat) :
    Exec DhtError (RoutingTable F) Bool := do
  let t ← MonadState.get
  if peerId = t.localId then pure false
  else do
    let bucketIdx ← Exec.orError (.invalidKey "same as local ID") (t.bucketIndex peerId)
    let peer := PeerInfo.new f64 peerId addr now
    let bucket ← Exec.index t.buckets bucketIdx
    match KBucket.insertOrUpdate f64 peer now bucket with
    | .ok .newPeer b => do
      MonadState.set
        { t with buckets := t.buckets.set bucketIdx b, totalPeers := t.totalPeers + 1 }
      pure true
    | .ok .evicted b => do
      MonadState.set { t with buckets := t.buckets.set bucketIdx b }
      pure true
    | .ok .updated b => do
      MonadState.set { t with buckets := t.buckets.set bucketIdx b }
      pure false
    | .error (.error ()) _ => throw (.error (.bucketFull bucketIdx))
    | .error .panicked _ => throw .panicked
    | .error .blocked _ => throw .blocked

/-- A peer is removed, and counted no more. -/
def remove (peerId : PeerId) : Exec DhtError (RoutingTable F) (Option (PeerInfo F)) := do
  let t ← MonadState.get
  match t.bucketIndex peerId with
  | some bucketIdx => do
    let bucket ← Exec.index t.buckets bucketIdx
    match KBucket.remove peerId bucket with
    | .ok (some peer) b => do
      let totalPeers ← Exec.checkedSub t.totalPeers 1
      MonadState.set { t with buckets := t.buckets.set bucketIdx b, totalPeers }
      pure (some peer)
    | .ok none _ => pure none
    | .error e _ => throw e
  | none => pure none

/-- The entry of a peer. -/
def get (peerId : PeerId) : Exec DhtError (RoutingTable F) (Option (PeerInfo F)) := do
  let t ← MonadState.get
  match t.bucketIndex peerId with
  | some bucketIdx => do
    let bucket ← Exec.index t.buckets bucketIdx
    pure (bucket.get peerId)
  | none => pure none

/-- A change of the peer that `get_mut` returns, if it returns one. -/
def getMut (peerId : PeerId) (f : PeerInfo F → PeerInfo F) :
    Exec DhtError (RoutingTable F) Unit := do
  let t ← MonadState.get
  match t.bucketIndex peerId with
  | some bucketIdx => do
    let bucket ← Exec.index t.buckets bucketIdx
    MonadState.set { t with buckets := t.buckets.set bucketIdx (bucket.modify peerId f) }
  | none => pure ()

/-- A peer has answered. -/
def markActive (peerId : PeerId) (latency now : Nat) : Exec DhtError (RoutingTable F) Unit :=
  getMut peerId (.markActive f64 latency now)

/-- A peer has not answered. -/
def markSuspect (peerId : PeerId) (now : Nat) : Exec DhtError (RoutingTable F) Unit :=
  getMut peerId (.markSuspect now)

/-- The loop of `evict_dead` over the buckets, with the counts of evicted and of all peers. -/
def evictLoop {σ : Type} : List (KBucket F) → Nat → Nat →
    Exec DhtError σ (List (KBucket F) × Nat × Nat)
  | [], evicted, totalPeers => pure ([], evicted, totalPeers)
  | bucket :: rest, evicted, totalPeers => do
    let before := bucket.peers.length
    let bucket := bucket.retainAlive
    let removed ← Exec.checkedSub before bucket.peers.length
    let totalPeers ← Exec.checkedSub totalPeers removed
    let (rest, evicted, totalPeers) ← evictLoop rest (evicted + removed) totalPeers
    pure (bucket :: rest, evicted, totalPeers)

/-- All dead peers are removed. -/
def evictDead : Exec DhtError (RoutingTable F) Nat := do
  let t ← MonadState.get
  let (buckets, evicted, totalPeers) ← evictLoop t.buckets 0 t.totalPeers
  MonadState.set { t with buckets, totalPeers }
  pure evicted

/-- `all_peers`. -/
def allPeers (t : RoutingTable F) : List (PeerInfo F) := t.buckets.flatMap (·.peers)

/-- The usable peers, those with the least XOR distance to the target first. -/
def findClosest (t : RoutingTable F) (target : PeerId) (count : Nat) : List (PeerInfo F) :=
  ((t.allPeers.filter (·.isUsable)).insertionSort fun a b =>
    (a.peerId.xorDistance target).toList ≤ (b.peerId.xorDistance target).toList).take count

end RoutingTable

/-- The mutations of a table. -/
inductive Mutation
  | insert (peerId : PeerId) (addr : SocketAddr) (now : Nat)
  | remove (peerId : PeerId)
  | markActive (peerId : PeerId) (latency now : Nat)
  | markSuspect (peerId : PeerId) (now : Nat)
  /-- `mark_dead` on the peer that `get_mut` returns. -/
  | markDead (peerId : PeerId)
  | evictDead

namespace RoutingTable

/-- A mutation, without what it returns. -/
def call : Mutation → Exec DhtError (RoutingTable F) Unit
  | .insert peerId addr now => (fun _ => ()) <$> insert f64 peerId addr now
  | .remove peerId => (fun _ => ()) <$> remove peerId
  | .markActive peerId latency now => markActive f64 peerId latency now
  | .markSuspect peerId now => markSuspect peerId now
  | .markDead peerId => getMut peerId .markDead
  | .evictDead => (fun _ => ()) <$> evictDead

/-- The table after a sequence of mutations, whatever they return. -/
def run (t : RoutingTable F) (calls : List Mutation) : RoutingTable F :=
  calls.foldl (fun t c => Exec.stateAfter (call f64 c t)) t

end RoutingTable

/-! ## Buckets -/

/-- An element of a list, with what stands before and behind it. -/
theorem split_at_getElem? {α : Type} {l : List α} {i : Nat} {a : α} (h : l[i]? = some a) :
    l = l.take i ++ a :: l.drop (i + 1) ∧ l.eraseIdx i = l.take i ++ l.drop (i + 1) := by
  obtain ⟨hi, rfl⟩ := List.getElem?_eq_some_iff.mp h
  exact ⟨by rw [List.getElem_cons_drop, List.take_append_drop], List.eraseIdx_eq_take_drop_succ _ _⟩

namespace KBucket

variable {f64} {b : KBucket F} {peerId : PeerId}

/-- The peer that is found has the identifier. -/
theorem find_eq_some {idx : Nat} (h : b.find peerId = some idx) :
    ∃ p, b.peers[idx]? = some p ∧ p.peerId = peerId := by
  obtain ⟨hlt, hp, -⟩ := List.findIdx?_eq_some_iff_getElem.mp h
  exact ⟨b.peers[idx], List.getElem?_eq_getElem hlt, of_decide_eq_true hp⟩

/-- No peer is found if none has the identifier. -/
theorem find_eq_none : b.find peerId = none ↔ ∀ p ∈ b.peers, p.peerId ≠ peerId := by
  simp [find, List.findIdx?_eq_none_iff]

/-- A usable peer is never the candidate. -/
theorem considerEviction_cases (f64 : F64 F) (best : Option Nat × F) (peer : PeerInfo F) (i : Nat) :
    considerEviction f64 best (peer, i) = best ∨
      peer.isUsable = false ∧ (considerEviction f64 best (peer, i)).1 = some i := by
  unfold considerEviction
  cases hstate : peer.state with
  | discovered => exact .inl (by simp [hstate])
  | active => exact .inl (by simp [hstate])
  | suspect =>
    by_cases hlt : f64.lt (peer.score.compositeScore f64) best.2 = true
    · exact .inr ⟨by simp [PeerInfo.isUsable, hstate], by simp [hstate, hlt]⟩
    · exact .inl (by simp [hstate, hlt])
  | dead =>
    by_cases hlt : f64.lt (peer.score.compositeScore f64) best.2 = true
    · exact .inr ⟨by simp [PeerInfo.isUsable, hstate], by simp [hstate, hlt]⟩
    · exact .inl (by simp [hstate, hlt])

/-- Only dead and suspect peers are evicted. Through the loop, the best index so far is that of such
a peer. -/
theorem findEvictionCandidate_eq_some {idx : Nat} (h : b.findEvictionCandidate f64 = some idx) :
    ∃ p, b.peers[idx]? = some p ∧ p.isUsable = false := by
  have hfold : ∀ (entries : List (PeerInfo F × Nat)) (best : Option Nat × F),
      (∀ e ∈ entries, b.peers[e.2]? = some e.1) →
      (∀ i, best.1 = some i → ∃ p, b.peers[i]? = some p ∧ p.isUsable = false) →
      ∀ i, (entries.foldl (considerEviction f64) best).1 = some i →
        ∃ p, b.peers[i]? = some p ∧ p.isUsable = false := by
    intro entries
    induction entries with
    | nil => exact fun best _ hbest => hbest
    | cons entry entries ih =>
      intro best hentries hbest
      obtain ⟨hentry, hrest⟩ := List.forall_mem_cons.mp hentries
      obtain ⟨peer, k⟩ := entry
      apply ih _ hrest
      rcases considerEviction_cases f64 best peer k with hsame | ⟨hunusable, hk⟩
      · rw [hsame]
        exact hbest
      · rw [hk]
        intro i hi
        cases hi
        exact ⟨peer, hentry, hunusable⟩
  refine hfold b.peers.zipIdx (none, f64.greatest) ?_ nofun idx h
  intro e he
  exact List.mem_zipIdx_iff_getElem?.mp he

/-- What `insert_or_update` can do. -/
inductive Insertion (b : KBucket F) (peer : PeerInfo F) (now : Nat) :
    EStateM.Result (Stop Unit) (KBucket F) InsertOutcome → Prop
  | updated {before after : List (PeerInfo F)} {old : PeerInfo F}
      (hpeers : b.peers = before ++ old :: after) (hid : old.peerId = peer.peerId) :
      Insertion b peer now (.ok .updated { b with
        peers := before ++ after ++ [{ old with addr := peer.addr, lastSeen := now }] })
  | newPeer (habsent : ∀ p ∈ b.peers, p.peerId ≠ peer.peerId) (hroom : b.peers.length < K) :
      Insertion b peer now (.ok .newPeer { b with peers := b.peers ++ [peer] })
  | evicted {before after : List (PeerInfo F)} {old : PeerInfo F}
      (habsent : ∀ p ∈ b.peers, p.peerId ≠ peer.peerId)
      (hpeers : b.peers = before ++ old :: after) (hunusable : old.isUsable = false) :
      Insertion b peer now (.ok .evicted { b with peers := before ++ after ++ [peer] })
  | full (habsent : ∀ p ∈ b.peers, p.peerId ≠ peer.peerId) (hfull : K ≤ b.peers.length) :
      Insertion b peer now (.error (.error ()) b)

/-- The ways in which a bucket treats a peer. -/
theorem insertOrUpdate_insertion (f64 : F64 F) (b : KBucket F) (peer : PeerInfo F) (now : Nat) :
    Insertion b peer now (insertOrUpdate f64 peer now b) := by
  rw [insertOrUpdate, Exec.get_bind_apply]
  cases hfind : b.find peer.peerId with
  | some idx =>
    obtain ⟨old, hold, hid⟩ := find_eq_some hfind
    obtain ⟨hpeers, herase⟩ := split_at_getElem? hold
    simp only [Exec.bind_apply, Exec.index_of_eq_some hold, herase, PeerInfo.touch]
    exact .updated hpeers hid
  | none =>
    have habsent := find_eq_none.mp hfind
    by_cases hfull : b.isFull = true
    · have hlength : K ≤ b.peers.length := of_decide_eq_true hfull
      simp only [hfull, ↓reduceIte]
      cases hcandidate : b.findEvictionCandidate f64 with
      | some evictIdx =>
        obtain ⟨old, hold, hunusable⟩ := findEvictionCandidate_eq_some hcandidate
        obtain ⟨hpeers, herase⟩ := split_at_getElem? hold
        simp only [Exec.bind_apply, Exec.index_of_eq_some hold, herase]
        exact .evicted habsent hpeers hunusable
      | none => exact .full habsent hlength
    · have hroom : b.peers.length < K := Nat.lt_of_not_le fun h => hfull (decide_eq_true h)
      simp only [hfull, Bool.false_eq_true, ↓reduceIte]
      exact .newPeer habsent hroom

end KBucket

end CekyP2P.Dht
