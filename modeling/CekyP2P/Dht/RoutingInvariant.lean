import CekyP2P.Dht.Routing
import Mathlib.Data.List.Nodup
import Mathlib.Data.List.Perm.Basic
import Mathlib.Algebra.BigOperators.Group.List.Basic

/-!
# The invariant of the routing table

Every identifier belongs in one bucket, so that buckets without repetitions make a table
without repetitions, and the counter of peers only has to follow the buckets that change.
-/

namespace CekyP2P.Dht

open Crypto Transfer

variable {F : Type} {f64 : F64 F}

/-- The identifiers that bucket `i` may hold. -/
structure Fits (localId : PeerId) (i : Nat) (ids : List PeerId) : Prop where
  length_le : ids.length ≤ K
  nodup : ids.Nodup
  placed : ∀ id ∈ ids, localId.bucketIndex id = some i

namespace Fits

variable {localId : PeerId} {i : Nat} {ids ids' : List PeerId}

/-- No identifiers fit. -/
theorem nil : Fits localId i [] := ⟨Nat.zero_le _, List.nodup_nil, nofun⟩

/-- The order does not matter. -/
theorem perm (h : Fits localId i ids) (hperm : ids'.Perm ids) : Fits localId i ids' where
  length_le := hperm.length_eq ▸ h.length_le
  nodup := hperm.nodup_iff.mpr h.nodup
  placed := fun id hid => h.placed id (hperm.mem_iff.mp hid)

/-- Fewer identifiers fit. -/
theorem sublist (h : Fits localId i ids) (hsub : ids'.Sublist ids) : Fits localId i ids' where
  length_le := hsub.length_le.trans h.length_le
  nodup := h.nodup.sublist hsub
  placed := fun id hid => h.placed id (hsub.subset hid)

/-- One more identifier fits if there is room and it belongs there. -/
theorem concat (h : Fits localId i ids) {id : PeerId} (hroom : ids.length < K) (habsent : id ∉ ids)
    (hplaced : localId.bucketIndex id = some i) : Fits localId i (ids ++ [id]) where
  length_le := by
    rw [List.length_append, List.length_singleton]
    exact hroom
  nodup := by
    rw [List.nodup_append_comm]
    exact List.nodup_cons.mpr ⟨habsent, h.nodup⟩
  placed := by
    intro id' hid'
    rcases List.mem_append.mp hid' with hid' | hid'
    · exact h.placed id' hid'
    · rw [List.mem_singleton.mp hid']
      exact hplaced

end Fits

namespace KBucket

variable {localId : PeerId} {i : Nat} {b : KBucket F}

/-- The identifiers in a bucket. -/
def ids (b : KBucket F) : List PeerId := b.peers.map (·.peerId)

/-- Every peer has an identifier. -/
theorem length_ids (b : KBucket F) : b.ids.length = b.peers.length := List.length_map _

/-- The identifiers are those of the peers. -/
theorem mem_ids {id : PeerId} : id ∈ b.ids ↔ ∃ p ∈ b.peers, p.peerId = id := List.mem_map

/-- The identifier of no peer. -/
theorem not_mem_ids {id : PeerId} (h : ∀ p ∈ b.peers, p.peerId ≠ id) : id ∉ b.ids := by
  intro hid
  obtain ⟨p, hp, hpid⟩ := mem_ids.mp hid
  exact h p hp hpid

/-- Changes of a peer that keep its identifier do not show in the identifiers. -/
theorem ids_modify {f : PeerInfo F → PeerInfo F} (hf : ∀ p, (f p).peerId = p.peerId)
    (id : PeerId) : (b.modify id f).ids = b.ids := by
  rw [modify]
  split
  · apply List.ext_getElem?
    intro k
    simp only [ids, List.getElem?_map, List.getElem?_modify]
    cases b.peers[k]? with
    | none => rfl
    | some p => split <;> simp [hf]
  · rfl

/-- Only peers are dropped. -/
theorem ids_retainAlive_sublist : b.retainAlive.ids.Sublist b.ids :=
  List.filter_sublist.map _

/-- The identifiers around a peer. -/
theorem ids_eq_of_split {before after : List (PeerInfo F)} {old : PeerInfo F}
    (h : b.peers = before ++ old :: after) :
    b.ids = before.map (·.peerId) ++ old.peerId :: after.map (·.peerId) := by
  rw [ids, h, List.map_append, List.map_cons]

/-- An insertion into the right bucket keeps it right, and adds one peer exactly if the outcome is a
new peer. -/
theorem Insertion.fits {peer : PeerInfo F} {now : Nat} {outcome : InsertOutcome} {b' : KBucket F}
    (h : Insertion b peer now (.ok outcome b')) (hfits : Fits localId i b.ids)
    (hplaced : localId.bucketIndex peer.peerId = some i) :
    Fits localId i b'.ids ∧
      b'.peers.length = b.peers.length + if outcome = .newPeer then 1 else 0 := by
  cases h with
  | @updated before after old hpeers hid =>
    refine ⟨hfits.perm ?_, ?_⟩
    · rw [ids_eq_of_split hpeers]
      simp only [ids, List.map_append, List.map_cons, List.map_nil, List.append_assoc]
      exact (List.perm_append_singleton _ _).append_left _
    · rw [hpeers]
      simp
  | newPeer habsent hroom =>
    refine ⟨?_, by simp⟩
    have hids : ids { b with peers := b.peers ++ [peer] } = b.ids ++ [peer.peerId] := by
      simp [ids]
    rw [hids]
    exact hfits.concat (b.length_ids ▸ hroom) (not_mem_ids habsent) hplaced
  | @evicted before after old habsent hpeers hunusable =>
    have hids := ids_eq_of_split hpeers
    have hnew : ids { b with peers := before ++ after ++ [peer] } =
        before.map (·.peerId) ++ after.map (·.peerId) ++ [peer.peerId] := by
      simp [ids]
    have hsub : (before.map (·.peerId) ++ after.map (·.peerId)).Sublist b.ids := by
      rw [hids]
      exact (List.sublist_cons_self _ _).append_left _
    have hroom : (before.map (·.peerId) ++ after.map (·.peerId)).length < K := by
      have := hfits.length_le
      rw [hids] at this
      simp only [List.length_append, List.length_cons] at this ⊢
      omega
    refine ⟨?_, ?_⟩
    · rw [hnew]
      exact (hfits.sublist hsub).concat hroom (fun hmem => not_mem_ids habsent (hsub.subset hmem))
        hplaced
    · rw [hpeers]
      simp

/-- The peer that is got is in the bucket. -/
theorem mem_of_get {id : PeerId} {p : PeerInfo F} (h : b.get id = some p) :
    p ∈ b.peers ∧ p.peerId = id := by
  have hid := List.find?_some h
  exact ⟨List.mem_of_find?_eq_some h, by simpa using hid⟩

/-- An identifier belongs to one peer. -/
theorem get_eq_some (h : b.ids.Nodup) {id : PeerId} {p : PeerInfo F} :
    b.get id = some p ↔ p ∈ b.peers ∧ p.peerId = id := by
  constructor
  · exact mem_of_get
  · rintro ⟨hp, hid⟩
    cases hget : b.get id with
    | none => exact absurd (decide_eq_true hid) (List.find?_eq_none.mp hget p hp)
    | some q =>
      obtain ⟨hq, hqid⟩ := mem_of_get hget
      rw [List.inj_on_of_nodup_map h hq hp (hqid.trans hid.symm)]

end KBucket

namespace RoutingTable

/-- What the mutations keep: the buckets are right, and the counter counts them. -/
structure Valid (t : RoutingTable F) : Prop where
  length_buckets : t.buckets.length = numBuckets
  fits : ∀ i b, t.buckets[i]? = some b → Fits t.localId i b.ids
  total_eq : t.totalPeers = (t.buckets.map (·.peers.length)).sum

variable {t : RoutingTable F}

/-- The bucket of an identifier other than the local one exists. -/
theorem Valid.exists_bucket (h : t.Valid) {peerId : PeerId} {i : Nat}
    (hi : t.bucketIndex peerId = some i) : ∃ b, t.buckets[i]? = some b := by
  have hlt : i < t.buckets.length := h.length_buckets ▸ PeerId.bucketIndex_lt hi
  exact ⟨t.buckets[i], List.getElem?_eq_getElem hlt⟩

/-- The count of all peers when one bucket is replaced. -/
theorem sum_length_set {buckets : List (KBucket F)} {i : Nat} {b : KBucket F}
    (h : buckets[i]? = some b) (b' : KBucket F) :
    ((buckets.set i b').map (·.peers.length)).sum + b.peers.length =
      (buckets.map (·.peers.length)).sum + b'.peers.length := by
  obtain ⟨hi, -⟩ := List.getElem?_eq_some_iff.mp h
  obtain ⟨hsplit, -⟩ := split_at_getElem? h
  rw [List.set_eq_take_append_cons_drop, if_pos hi]
  conv_rhs => rw [hsplit]
  simp only [List.map_append, List.map_cons, List.sum_append, List.sum_cons]
  omega

/-- No bucket has more peers than the table. -/
theorem Valid.length_le_total (h : t.Valid) {i : Nat} {b : KBucket F}
    (hb : t.buckets[i]? = some b) : b.peers.length ≤ t.totalPeers := by
  have hsum := sum_length_set hb ⟨[], 0⟩
  have htotal := h.total_eq
  simp only [List.length_nil] at hsum
  omega

/-- A change of one bucket, with the counter following. -/
theorem Valid.set (h : t.Valid) {i total : Nat} {b b' : KBucket F} (hb : t.buckets[i]? = some b)
    (hfits : Fits t.localId i b'.ids)
    (htotal : total + b.peers.length = t.totalPeers + b'.peers.length) :
    Valid { t with buckets := t.buckets.set i b', totalPeers := total } where
  length_buckets := by
    rw [List.length_set]
    exact h.length_buckets
  fits := by
    intro k b'' hk
    simp only [List.getElem?_set] at hk
    split at hk
    case isTrue heq =>
      split at hk
      · cases hk
        exact heq ▸ hfits
      · cases hk
    case isFalse => exact h.fits k b'' hk
  total_eq := by
    have hsum := sum_length_set hb b'
    have := h.total_eq
    simp only
    omega

/-- A new table is valid. -/
theorem valid_new (localId : PeerId) (now : Nat) : (new localId now : RoutingTable F).Valid where
  length_buckets := List.length_replicate
  fits := by
    intro i b hb
    obtain rfl := List.eq_of_mem_replicate (List.mem_of_getElem? hb)
    exact .nil
  total_eq := by simp [new, KBucket.new]

/-! ## The mutations -/

/-- A call returns, and keeps the table valid and the local identifier as it is. -/
structure Keeps {α : Type} (t : RoutingTable F)
    (result : EStateM.Result (Stop DhtError) (RoutingTable F) α) : Prop where
  returned : Exec.Returned result
  valid : (Exec.stateAfter result).Valid
  localId_eq : (Exec.stateAfter result).localId = t.localId

/-- What `insert` can do. -/
inductive Inserts (f64 : F64 F) (t : RoutingTable F) (peerId : PeerId) (addr : SocketAddr)
    (now : Nat) : EStateM.Result (Stop DhtError) (RoutingTable F) Bool → Prop
  | self (hself : t.bucketIndex peerId = none) : Inserts f64 t peerId addr now (.ok false t)
  | outOfRange {i : Nat} (hi : t.bucketIndex peerId = some i) (hb : t.buckets[i]? = none) :
      Inserts f64 t peerId addr now (.error .panicked t)
  | stored {i : Nat} {b b' : KBucket F} {outcome : InsertOutcome}
      (hi : t.bucketIndex peerId = some i) (hb : t.buckets[i]? = some b)
      (hinsertion : KBucket.Insertion b (.new f64 peerId addr now) now (.ok outcome b')) :
      Inserts f64 t peerId addr now (.ok (decide (outcome ≠ .updated))
        { t with
          buckets := t.buckets.set i b'
          totalPeers := t.totalPeers + if outcome = .newPeer then 1 else 0 })
  | full {i : Nat} (hi : t.bucketIndex peerId = some i) :
      Inserts f64 t peerId addr now (.error (.error (.bucketFull i)) t)

/-- The ways in which a table treats a peer. -/
theorem insert_inserts (f64 : F64 F) (t : RoutingTable F) (peerId : PeerId) (addr : SocketAddr)
    (now : Nat) : Inserts f64 t peerId addr now (insert f64 peerId addr now t) := by
  rw [insert, Exec.get_bind_apply]
  split
  case isTrue hself => exact .self (PeerId.bucketIndex_eq_none.mpr hself.symm)
  case isFalse hne =>
    cases hi : t.bucketIndex peerId with
    | none => exact absurd (PeerId.bucketIndex_eq_none.mp hi).symm hne
    | some i =>
      cases hb : t.buckets[i]? with
      | none =>
        simp only [Exec.bind_apply, Exec.orError_some, Exec.index, hb]
        exact .outOfRange hi hb
      | some b =>
        simp only [Exec.bind_apply, Exec.orError_some, Exec.index_of_eq_some hb]
        have hinsertion := KBucket.insertOrUpdate_insertion f64 b (.new f64 peerId addr now) now
        generalize KBucket.insertOrUpdate f64 (.new f64 peerId addr now) now b = result
          at hinsertion ⊢
        cases result with
        | ok outcome b' =>
          have hstored := Inserts.stored hi hb hinsertion
          cases outcome with
          | newPeer => exact hstored
          | updated => exact hstored
          | evicted => exact hstored
        | error e b' =>
          cases hinsertion
          exact .full hi

/-- An insertion keeps a table valid. -/
theorem Valid.keeps_insert (h : t.Valid) (peerId : PeerId) (addr : SocketAddr) (now : Nat) :
    Keeps t (insert f64 peerId addr now t) := by
  have hinserts := insert_inserts f64 t peerId addr now
  generalize insert f64 peerId addr now t = result at hinserts ⊢
  cases hinserts with
  | self _ => exact ⟨trivial, h, rfl⟩
  | outOfRange hi hb =>
    obtain ⟨b, hb'⟩ := h.exists_bucket hi
    rw [hb] at hb'
    cases hb'
  | @stored i b b' outcome hi hb hinsertion =>
    obtain ⟨hfits, hlength⟩ := hinsertion.fits (h.fits i b hb) hi
    exact ⟨trivial, h.set hb hfits (by rw [hlength]; omega), rfl⟩
  | full _ => exact ⟨trivial, h, rfl⟩

/-- A bucket without one of its peers. -/
theorem remove_cases (b : KBucket F) (peerId : PeerId) :
    KBucket.remove peerId b = .ok none b ∨ ∃ peer b', KBucket.remove peerId b = .ok (some peer) b' ∧
      b'.peers.Sublist b.peers ∧ b.peers.length = b'.peers.length + 1 := by
  rw [KBucket.remove, Exec.get_bind_apply]
  cases hfind : b.find peerId with
  | none => exact .inl rfl
  | some idx =>
    obtain ⟨peer, hpeer, -⟩ := KBucket.find_eq_some hfind
    obtain ⟨hpeers, herase⟩ := split_at_getElem? hpeer
    simp only [Exec.bind_apply, Exec.index_of_eq_some hpeer]
    refine .inr ⟨peer, _, rfl, List.eraseIdx_sublist _ _, ?_⟩
    have hidx := (List.getElem?_eq_some_iff.mp hpeer).1
    rw [List.length_eraseIdx_of_lt hidx]
    omega

/-- A removal keeps a table valid. -/
theorem Valid.keeps_remove (h : t.Valid) (peerId : PeerId) : Keeps t (remove peerId t) := by
  rw [remove, Exec.get_bind_apply]
  cases hi : t.bucketIndex peerId with
  | none => exact ⟨trivial, h, rfl⟩
  | some i =>
    obtain ⟨b, hb⟩ := h.exists_bucket hi
    simp only [Exec.bind_apply, Exec.index_of_eq_some hb]
    rcases remove_cases b peerId with hnone | ⟨peer, b', hsome, hsub, hlength⟩
    · rw [hnone]
      exact ⟨trivial, h, rfl⟩
    · have hle : 1 ≤ t.totalPeers := by
        have hbucket := h.length_le_total hb
        omega
      rw [hsome]
      simp only [Exec.bind_apply, Exec.checkedSub_of_le hle]
      exact ⟨trivial, h.set hb ((h.fits i b hb).sublist (hsub.map _)) (by omega), rfl⟩

/-- A change that keeps the identifier keeps a table valid. -/
theorem Valid.keeps_getMut (h : t.Valid) (peerId : PeerId) {f : PeerInfo F → PeerInfo F}
    (hf : ∀ p, (f p).peerId = p.peerId) : Keeps t (getMut peerId f t) := by
  rw [getMut, Exec.get_bind_apply]
  cases hi : t.bucketIndex peerId with
  | none => exact ⟨trivial, h, rfl⟩
  | some i =>
    obtain ⟨b, hb⟩ := h.exists_bucket hi
    simp only [Exec.bind_apply, Exec.index_of_eq_some hb]
    have hids := KBucket.ids_modify (b := b) hf peerId
    have hlength : (b.modify peerId f).peers.length = b.peers.length := by
      rw [← KBucket.length_ids, hids, KBucket.length_ids]
    exact ⟨trivial, h.set hb (hids ▸ h.fits i b hb) (by rw [hlength]), rfl⟩

/-- No subtraction of the loop underflows while the counter covers the buckets to come. -/
theorem evictLoop_eq {σ : Type} (buckets : List (KBucket F)) (evicted total : Nat)
    (htotal : (buckets.map (·.peers.length)).sum ≤ total) (s : σ) :
    ∃ evicted' total', evictLoop buckets evicted total s =
        .ok (buckets.map (·.retainAlive), evicted', total') s ∧
      total' + (buckets.map (·.peers.length)).sum =
        total + ((buckets.map (·.retainAlive)).map (·.peers.length)).sum := by
  induction buckets generalizing evicted total with
  | nil => exact ⟨evicted, total, rfl, rfl⟩
  | cons b rest ih =>
    have hle : b.retainAlive.peers.length ≤ b.peers.length := List.length_filter_le _ _
    simp only [List.map_cons, List.sum_cons] at htotal ⊢
    obtain ⟨evicted', total', heq, hsum⟩ :=
      ih (evicted + (b.peers.length - b.retainAlive.peers.length))
        (total - (b.peers.length - b.retainAlive.peers.length)) (by omega)
    refine ⟨evicted', total', ?_, by omega⟩
    rw [evictLoop]
    simp only [Exec.bind_apply, Exec.checkedSub_of_le hle]
    rw [Exec.checkedSub_of_le (by omega)]
    simp only [heq]
    rfl

/-- The eviction of dead peers keeps a table valid. -/
theorem Valid.keeps_evictDead (h : t.Valid) : Keeps t (evictDead t) := by
  obtain ⟨evicted, total, heq, hsum⟩ := evictLoop_eq t.buckets 0 t.totalPeers h.total_eq.ge t
  rw [evictDead, Exec.get_bind_apply]
  simp only [Exec.bind_apply, heq]
  refine ⟨trivial, ?_, rfl⟩
  exact
    { length_buckets := by
        change (t.buckets.map _).length = _
        rw [List.length_map]
        exact h.length_buckets
      fits := by
        intro i b hb
        change (t.buckets.map _)[i]? = _ at hb
        rw [List.getElem?_map, Option.map_eq_some_iff] at hb
        obtain ⟨b, hb, rfl⟩ := hb
        exact (h.fits i b hb).sublist KBucket.ids_retainAlive_sublist
      total_eq := by
        change total = ((t.buckets.map _).map _).sum
        have := h.total_eq
        omega }

/-- What is returned does not matter. -/
theorem Keeps.map {α β : Type} {x : Exec DhtError (RoutingTable F) α} (h : Keeps t (x t))
    (f : α → β) : Keeps t ((f <$> x) t) where
  returned := (Exec.returned_map f x t).mpr h.returned
  valid := by
    rw [Exec.stateAfter_map]
    exact h.valid
  localId_eq := by
    rw [Exec.stateAfter_map]
    exact h.localId_eq

/-- Every mutation keeps a table valid. -/
theorem Valid.keeps_call (f64 : F64 F) (h : t.Valid) (c : Mutation) : Keeps t (call f64 c t) := by
  cases c with
  | insert peerId addr now => exact (h.keeps_insert peerId addr now).map _
  | remove peerId => exact (h.keeps_remove peerId).map _
  | markActive peerId latency now => exact h.keeps_getMut peerId fun _ => rfl
  | markSuspect peerId now => exact h.keeps_getMut peerId fun _ => rfl
  | markDead peerId => exact h.keeps_getMut peerId fun _ => rfl
  | evictDead => exact h.keeps_evictDead.map _

/-- Mutations keep a table valid and its identifier. -/
theorem Valid.run (f64 : F64 F) (h : t.Valid) (calls : List Mutation) :
    (t.run f64 calls).Valid ∧ (t.run f64 calls).localId = t.localId := by
  induction calls generalizing t with
  | nil => exact ⟨h, rfl⟩
  | cons c calls ih =>
    have hkeeps := h.keeps_call f64 c
    obtain ⟨hvalid, hlocal⟩ := ih hkeeps.valid
    exact ⟨hvalid, hlocal.trans hkeeps.localId_eq⟩

/-! ## The table as a whole -/

/-- All peers are those in the buckets. -/
theorem mem_allPeers {p : PeerInfo F} :
    p ∈ t.allPeers ↔ ∃ (i : Nat) (b : KBucket F), t.buckets[i]? = some b ∧ p ∈ b.peers := by
  rw [allPeers, List.mem_flatMap]
  constructor
  · rintro ⟨b, hb, hp⟩
    obtain ⟨i, hi⟩ := List.mem_iff_getElem?.mp hb
    exact ⟨i, b, hi, hp⟩
  · rintro ⟨i, b, hb, hp⟩
    exact ⟨b, List.mem_of_getElem? hb, hp⟩

/-- A peer is in the bucket of its identifier. -/
theorem Valid.placed (h : t.Valid) {i : Nat} {b : KBucket F} (hb : t.buckets[i]? = some b)
    {p : PeerInfo F} (hp : p ∈ b.peers) : t.bucketIndex p.peerId = some i :=
  (h.fits i b hb).placed p.peerId (KBucket.mem_ids.mpr ⟨p, hp, rfl⟩)

/-- An identifier in two buckets would belong in both. -/
theorem Valid.nodup (h : t.Valid) : (t.allPeers.map (·.peerId)).Nodup := by
  have hids : t.allPeers.map (·.peerId) = t.buckets.flatMap KBucket.ids := by
    rw [allPeers, List.map_flatMap]
    rfl
  rw [hids, List.nodup_flatMap]
  constructor
  · intro b hb
    obtain ⟨i, hi⟩ := List.mem_iff_getElem?.mp hb
    exact (h.fits i b hi).nodup
  · rw [List.pairwise_iff_getElem]
    intro i j hi hj hlt id hidi hidj
    have hbi := (h.fits i _ (List.getElem?_eq_getElem hi)).placed id hidi
    have hbj := (h.fits j _ (List.getElem?_eq_getElem hj)).placed id hidj
    rw [hbi] at hbj
    cases hbj
    exact Nat.lt_irrefl _ hlt

/-- The entry of a peer is found, if it is there. -/
theorem Valid.get_eq (h : t.Valid) (peerId : PeerId) : ∃ found, get peerId t = .ok found t ∧
    ∀ p, found = some p ↔ p ∈ t.allPeers ∧ p.peerId = peerId := by
  rw [get, Exec.get_bind_apply]
  cases hi : t.bucketIndex peerId with
  | none =>
    refine ⟨none, rfl, fun p => iff_of_false nofun ?_⟩
    rintro ⟨hp, rfl⟩
    obtain ⟨i, b, hb, hp⟩ := mem_allPeers.mp hp
    rw [h.placed hb hp] at hi
    cases hi
  | some i =>
    obtain ⟨b, hb⟩ := h.exists_bucket hi
    simp only [Exec.bind_apply, Exec.index_of_eq_some hb]
    refine ⟨_, rfl, fun p => ?_⟩
    rw [KBucket.get_eq_some (h.fits i b hb).nodup, mem_allPeers]
    constructor
    · rintro ⟨hp, hid⟩
      exact ⟨⟨i, b, hb, hp⟩, hid⟩
    · rintro ⟨⟨j, b', hb', hp⟩, rfl⟩
      have hj := h.placed hb' hp
      rw [hi] at hj
      cases hj
      rw [hb] at hb'
      cases hb'
      exact ⟨hp, rfl⟩

/-! ## Contacts -/

/-- The addresses that the table gives for identifiers. -/
def contacts (t : RoutingTable F) : List (PeerId × SocketAddr) :=
  t.allPeers.map fun p => (p.peerId, p.addr)

/-- A new table has no contacts. -/
theorem contacts_new (localId : PeerId) (now : Nat) :
    (new localId now : RoutingTable F).contacts = [] := by
  simp [contacts, allPeers, new, KBucket.new]

/-- Who is there after a move was there before, or is the one that came. -/
theorem mem_of_mem_moved {α : Type} {before after : List α} {a b old : α}
    (h : a ∈ before ++ after ++ [b]) : a ∈ before ++ old :: after ∨ a = b := by
  simp only [List.mem_append, List.mem_cons, List.not_mem_nil, or_false] at h ⊢
  rcases h with (h | h) | h
  · exact .inl (.inl h)
  · exact .inl (.inr (.inr h))
  · exact .inr h

/-- Every peer of the bucket after an insertion was there with that address, or is the new one. -/
theorem contact_of_insertion {b b' : KBucket F} {peer : PeerInfo F} {now : Nat}
    {outcome : InsertOutcome} (h : KBucket.Insertion b peer now (.ok outcome b')) {p : PeerInfo F}
    (hp : p ∈ b'.peers) : p ∈ b.peers ∨ p.peerId = peer.peerId ∧ p.addr = peer.addr := by
  cases h with
  | updated hpeers hid =>
    rw [hpeers]
    rcases mem_of_mem_moved hp with hp | rfl
    · exact .inl hp
    · exact .inr ⟨hid, rfl⟩
  | newPeer habsent hroom =>
    rcases List.mem_append.mp hp with hp | hp
    · exact .inl hp
    · obtain rfl := List.mem_singleton.mp hp
      exact .inr ⟨rfl, rfl⟩
  | evicted habsent hpeers hunusable =>
    rw [hpeers]
    rcases mem_of_mem_moved hp with hp | rfl
    · exact .inl hp
    · exact .inr ⟨rfl, rfl⟩

/-- The contacts when one bucket is replaced. -/
theorem contacts_set {i total : Nat} {b b' : KBucket F} (hb : t.buckets[i]? = some b)
    {new : PeerId × SocketAddr}
    (hpeers : ∀ p ∈ b'.peers, p ∈ b.peers ∨ p.peerId = new.1 ∧ p.addr = new.2) :
    ∀ c ∈ contacts { t with buckets := t.buckets.set i b', totalPeers := total },
      c ∈ t.contacts ∨ c = new := by
  intro c hc
  obtain ⟨p, hp, rfl⟩ := List.mem_map.mp hc
  obtain ⟨j, b'', hb'', hp⟩ := mem_allPeers.mp hp
  have hold : ∀ {k : Nat} {old : KBucket F}, t.buckets[k]? = some old → p ∈ old.peers →
      (p.peerId, p.addr) ∈ t.contacts := fun hk hmem =>
    List.mem_map.mpr ⟨p, mem_allPeers.mpr ⟨_, _, hk, hmem⟩, rfl⟩
  rw [List.getElem?_set] at hb''
  split at hb''
  case isTrue =>
    split at hb''
    case isTrue =>
      cases hb''
      rcases hpeers p hp with hmem | ⟨hid, haddr⟩
      · exact .inl (hold hb hmem)
      · exact .inr (by rw [hid, haddr])
    case isFalse => cases hb''
  case isFalse => exact .inl (hold hb'' hp)

/-- An insertion adds at most the address given for the identifier. -/
theorem contacts_insert (f64 : F64 F) (t : RoutingTable F) (peerId : PeerId) (addr : SocketAddr)
    (now : Nat) : ∀ c ∈ (Exec.stateAfter (insert f64 peerId addr now t)).contacts,
      c ∈ t.contacts ∨ c = (peerId, addr) := by
  have hinserts := insert_inserts f64 t peerId addr now
  generalize insert f64 peerId addr now t = result at hinserts ⊢
  cases hinserts with
  | stored hi hb hinsertion => exact contacts_set hb fun p hp => contact_of_insertion hinsertion hp
  | _ => exact fun c hc => .inl hc

/-- What `get` returns is a contact. -/
theorem mem_contacts_of_get {t' : RoutingTable F} {peerId : PeerId} {p : PeerInfo F}
    (h : get peerId t = .ok (some p) t') : (peerId, p.addr) ∈ t.contacts := by
  rw [get, Exec.get_bind_apply] at h
  cases hi : t.bucketIndex peerId with
  | none =>
    rw [hi] at h
    cases h
  | some i =>
    rw [hi] at h
    obtain ⟨b, _, hb, h⟩ := Exec.bind_eq_ok.mp h
    obtain ⟨hb, -⟩ := Exec.index_eq_ok.mp hb
    obtain ⟨hp, rfl⟩ := KBucket.mem_of_get (EStateM.Result.ok.inj h).1
    exact List.mem_map.mpr ⟨p, mem_allPeers.mpr ⟨i, b, hb, hp⟩, rfl⟩

/-- The table as its users may rely on it. -/
structure Consistent (t : RoutingTable F) : Prop where
  length_le : ∀ b ∈ t.buckets, b.peers.length ≤ K
  placed : ∀ i b, t.buckets[i]? = some b → ∀ p ∈ b.peers,
    t.localId.bucketIndex p.peerId = some i
  nodup : (t.allPeers.map (·.peerId)).Nodup
  local_absent : ∀ p ∈ t.allPeers, p.peerId ≠ t.localId
  total_eq : t.totalPeers = (t.buckets.map (·.peers.length)).sum
  get_eq : ∀ peerId, ∃ found, get peerId t = .ok found t ∧
    ∀ p, found = some p ↔ p ∈ t.allPeers ∧ p.peerId = peerId

/-- A valid table is consistent. -/
theorem Valid.consistent (h : t.Valid) : t.Consistent where
  length_le := by
    intro b hb
    obtain ⟨i, hi⟩ := List.mem_iff_getElem?.mp hb
    exact b.length_ids ▸ (h.fits i b hi).length_le
  placed := fun i b hb p hp => h.placed hb hp
  nodup := h.nodup
  local_absent := by
    intro p hp hlocal
    obtain ⟨i, b, hb, hp⟩ := mem_allPeers.mp hp
    have hplaced := h.placed hb hp
    rw [bucketIndex, PeerId.bucketIndex_eq_none.mpr hlocal.symm] at hplaced
    cases hplaced
  total_eq := h.total_eq
  get_eq := h.get_eq

/-- In every state that mutations reach from an empty table, the table is consistent, and no
further mutation panics: in particular the counter never underflows. -/
theorem consistent_run (f64 : F64 F) (localId : PeerId) (now : Nat) (calls : List Mutation) :
    ((new localId now).run f64 calls).localId = localId ∧
    ((new localId now).run f64 calls).Consistent ∧
    ∀ c, Exec.Returned (call f64 c ((new localId now).run f64 calls)) := by
  obtain ⟨hvalid, hlocal⟩ := (valid_new localId now).run f64 calls
  exact ⟨hlocal, hvalid.consistent, fun c => (hvalid.keeps_call f64 c).returned⟩

end RoutingTable

end CekyP2P.Dht
