import Mathlib.Order.Defs.LinearOrder
import CekyP2P.Dht.RoutingInvariant

/-!
# Which peer makes room

A full bucket gives up one of its dead and suspect peers for a new one, the one with the least
score. The search starts from the greatest number instead of a first candidate, so it relies on
every score being less.
-/

namespace CekyP2P.Dht

open Crypto Transfer

variable {F : Type} {f64 : F64 F}

/-! ## What an insertion does -/

namespace KBucket

variable {b : KBucket F} {peer : PeerInfo F}

/-- A peer that is not in the bucket is added, or put in the place of the candidate. -/
theorem insertOrUpdate_of_absent (f64 : F64 F) (h : ∀ p ∈ b.peers, p.peerId ≠ peer.peerId)
    (now : Nat) : insertOrUpdate f64 peer now b =
      if b.isFull then
        match b.findEvictionCandidate f64 with
        | some idx => .ok .evicted { b with peers := b.peers.eraseIdx idx ++ [peer] }
        | none => .error (.error ()) b
      else .ok .newPeer { b with peers := b.peers ++ [peer] } := by
  rw [insertOrUpdate, Exec.get_bind_apply, find_eq_none.mpr h]
  cases hfull : b.isFull with
  | false => rfl
  | true =>
    cases hcandidate : b.findEvictionCandidate f64 with
    | none => rfl
    | some idx =>
      obtain ⟨old, hold, -⟩ := findEvictionCandidate_eq_some hcandidate
      simp only [↓reduceIte, Exec.bind_apply, Exec.index_of_eq_some hold]
      rfl

/-- A peer that is in the bucket moves to its end. -/
theorem insertOrUpdate_of_present (f64 : F64 F) (peer : PeerInfo F)
    (h : ∃ p ∈ b.peers, p.peerId = peer.peerId) (now : Nat) :
    ∃ before old after, b.peers = before ++ old :: after ∧ old.peerId = peer.peerId ∧
      insertOrUpdate f64 peer now b = .ok .updated { b with
        peers := before ++ after ++ [{ old with addr := peer.addr, lastSeen := now }] } := by
  obtain ⟨p, hp, hid⟩ := h
  have hinsertion := insertOrUpdate_insertion f64 b peer now
  generalize insertOrUpdate f64 peer now b = result at hinsertion ⊢
  cases hinsertion with
  | updated hpeers hold => exact ⟨_, _, _, hpeers, hold, rfl⟩
  | newPeer habsent => exact absurd hid (habsent p hp)
  | evicted habsent => exact absurd hid (habsent p hp)
  | full habsent => exact absurd hid (habsent p hp)

end KBucket

namespace RoutingTable

variable {t : RoutingTable F}

/-- An insertion goes to the bucket of the identifier. -/
theorem insert_of_bucket {peerId : PeerId} {i : Nat} {b : KBucket F}
    (hi : t.bucketIndex peerId = some i) (hb : t.buckets[i]? = some b) (addr : SocketAddr)
    (now : Nat) : insert f64 peerId addr now t =
      match KBucket.insertOrUpdate f64 (.new f64 peerId addr now) now b with
      | .ok outcome b' => .ok (decide (outcome ≠ .updated))
          { t with
            buckets := t.buckets.set i b'
            totalPeers := t.totalPeers + if outcome = .newPeer then 1 else 0 }
      | .error (.error ()) _ => .error (.error (.bucketFull i)) t
      | .error .panicked _ => .error .panicked t
      | .error .blocked _ => .error .blocked t := by
  have hne : peerId ≠ t.localId := by
    rintro rfl
    rw [bucketIndex, PeerId.bucketIndex_eq_none.mpr rfl] at hi
    cases hi
  rw [insert, Exec.get_bind_apply, if_neg hne]
  simp only [hi, Exec.bind_apply, Exec.orError_some, Exec.index_of_eq_some hb]
  cases KBucket.insertOrUpdate f64 (.new f64 peerId addr now) now b with
  | ok outcome b' => cases outcome <;> rfl
  | error e b' => cases e <;> rfl

/-- The peers of a table in which one bucket has changed. -/
theorem mem_allPeers_set {i total : Nat} {b b' : KBucket F} (hb : t.buckets[i]? = some b)
    {p : PeerInfo F} :
    p ∈ allPeers { t with buckets := t.buckets.set i b', totalPeers := total } ↔ p ∈ b'.peers ∨
      ∃ (j : Nat) (b'' : KBucket F), j ≠ i ∧ t.buckets[j]? = some b'' ∧ p ∈ b''.peers := by
  have hlt := (List.getElem?_eq_some_iff.mp hb).1
  rw [mem_allPeers]
  constructor
  · rintro ⟨j, b'', hj, hp⟩
    by_cases heq : i = j
    · rw [heq, List.getElem?_set_self (heq ▸ hlt)] at hj
      cases hj
      exact .inl hp
    · rw [List.getElem?_set_ne heq] at hj
      exact .inr ⟨j, b'', Ne.symm heq, hj, hp⟩
  · rintro (hp | ⟨j, b'', hne, hj, hp⟩)
    · exact ⟨i, b', List.getElem?_set_self hlt, hp⟩
    · refine ⟨j, b'', ?_, hp⟩
      rw [List.getElem?_set_ne hne.symm]
      exact hj

/-- An identifier is looked for in its bucket only. -/
theorem Valid.absent_iff (h : t.Valid) {peerId : PeerId} {i : Nat} {b : KBucket F}
    (hi : t.bucketIndex peerId = some i) (hb : t.buckets[i]? = some b) :
    (∀ p ∈ t.allPeers, p.peerId ≠ peerId) ↔ ∀ p ∈ b.peers, p.peerId ≠ peerId := by
  constructor
  · intro habsent p hp
    exact habsent p (mem_allPeers.mpr ⟨i, b, hb, hp⟩)
  · rintro habsent p hp rfl
    obtain ⟨j, b', hj, hp'⟩ := mem_allPeers.mp hp
    have hplaced := h.placed hj hp'
    rw [hi] at hplaced
    cases hplaced
    rw [hb] at hj
    cases hj
    exact habsent p hp' rfl

end RoutingTable

/-! ## The search for a candidate -/

variable [LinearOrder F]

/-- Scores are compared as in a linear order. -/
def F64.ComparesBy (f64 : F64 F) : Prop := ∀ a b, f64.lt a b = decide (a < b)

/-- Scores are below the number that the search starts from. -/
def ScoresBelow (f64 : F64 F) (peers : List (PeerInfo F)) : Prop :=
  ∀ p ∈ peers, p.score.compositeScore f64 < f64.greatest

instance (f64 : F64 F) (peers : List (PeerInfo F)) : Decidable (ScoresBelow f64 peers) :=
  inferInstanceAs (Decidable (∀ p ∈ peers, _))

namespace KBucket

variable {b : KBucket F}

/-- A peer of the bucket that is not usable, with the least score of these. -/
structure Worst (f64 : F64 F) (b : KBucket F) (p : PeerInfo F) : Prop where
  mem : p ∈ b.peers
  unusable : p.isUsable = false
  least : ∀ q ∈ b.peers, q.isUsable = false →
    p.score.compositeScore f64 ≤ q.score.compositeScore f64

/-- What the search knows about the entries it has passed. -/
structure Scanned (f64 : F64 F) (seen : List (PeerInfo F × Nat)) (best : Option Nat × F) :
    Prop where
  below : ∀ e ∈ seen, e.1.isUsable = false → best.2 ≤ e.1.score.compositeScore f64
  none_of : best.1 = none → best.2 = f64.greatest
  some_of : ∀ i, best.1 = some i → ∃ p, (p, i) ∈ seen ∧ p.isUsable = false ∧
    best.2 = p.score.compositeScore f64

/-- A peer replaces the best candidate if it is not usable and has a lower score. -/
theorem considerEviction_eq (hcompares : f64.ComparesBy) (best : Option Nat × F)
    (p : PeerInfo F) (i : Nat) : considerEviction f64 best (p, i) =
      if p.isUsable = false ∧ p.score.compositeScore f64 < best.2 then
        (some i, p.score.compositeScore f64) else best := by
  have hlt := hcompares (p.score.compositeScore f64) best.2
  unfold considerEviction
  cases hstate : p.state <;> simp [PeerInfo.isUsable, hstate, hlt]

/-- The scan looks at one more peer. -/
theorem Scanned.snoc (hcompares : f64.ComparesBy) {seen : List (PeerInfo F × Nat)}
    {best : Option Nat × F} (h : Scanned f64 seen best) (p : PeerInfo F) (i : Nat) :
    Scanned f64 (seen ++ [(p, i)]) (considerEviction f64 best (p, i)) := by
  rw [considerEviction_eq hcompares]
  split
  case isTrue hless =>
    obtain ⟨hunusable, hless⟩ := hless
    refine ⟨?_, nofun, ?_⟩
    · intro e he hunusable'
      rcases List.mem_append.mp he with he | he
      · exact hless.le.trans (h.below e he hunusable')
      · rw [List.mem_singleton.mp he]
    · intro j hj
      cases hj
      exact ⟨p, List.mem_append_right _ (List.mem_singleton_self _), hunusable, rfl⟩
  case isFalse hkeep =>
    refine ⟨?_, h.none_of, ?_⟩
    · intro e he hunusable
      rcases List.mem_append.mp he with he | he
      · exact h.below e he hunusable
      · rw [List.mem_singleton.mp he] at hunusable ⊢
        exact not_lt.mp fun hless => hkeep ⟨hunusable, hless⟩
    · intro j hj
      obtain ⟨q, hq, hrest⟩ := h.some_of j hj
      exact ⟨q, List.mem_append_left _ hq, hrest⟩

/-- The scan looks at all peers. -/
theorem Scanned.foldl (hcompares : f64.ComparesBy) (entries : List (PeerInfo F × Nat))
    {seen : List (PeerInfo F × Nat)} {best : Option Nat × F} (h : Scanned f64 seen best) :
    Scanned f64 (seen ++ entries) (entries.foldl (considerEviction f64) best) := by
  induction entries generalizing seen best with
  | nil => simpa using h
  | cons entry entries ih => simpa using ih (h.snoc hcompares entry.1 entry.2)

/-- The candidate is the worst peer; there is none just if all peers are usable. -/
theorem findEvictionCandidate_worst (hcompares : f64.ComparesBy)
    (hbelow : ScoresBelow f64 b.peers) :
    (b.findEvictionCandidate f64 = none ∧ ∀ p ∈ b.peers, p.isUsable = true) ∨
      ∃ idx p, b.findEvictionCandidate f64 = some idx ∧ b.peers[idx]? = some p ∧
        Worst f64 b p := by
  have hstart : Scanned f64 [] (none, f64.greatest) := ⟨nofun, fun _ => rfl, nofun⟩
  have hscanned := hstart.foldl hcompares b.peers.zipIdx
  rw [List.nil_append] at hscanned
  have hmem : ∀ {p}, p ∈ b.peers → ∃ i, (p, i) ∈ b.peers.zipIdx := by
    intro p hp
    obtain ⟨i, hi⟩ := List.mem_iff_getElem?.mp hp
    exact ⟨i, List.mem_zipIdx_iff_getElem?.mpr hi⟩
  rw [findEvictionCandidate]
  generalize b.peers.zipIdx.foldl (considerEviction f64) (none, f64.greatest) = best at hscanned
  cases hbest : best.1 with
  | none =>
    refine .inl ⟨rfl, fun p hp => ?_⟩
    by_contra hunusable
    obtain ⟨i, hi⟩ := hmem hp
    have hle := hscanned.below (p, i) hi (Bool.eq_false_of_not_eq_true hunusable)
    rw [hscanned.none_of hbest] at hle
    exact not_lt.mpr hle (hbelow p hp)
  | some idx =>
    obtain ⟨p, hp, hunusable, hscore⟩ := hscanned.some_of idx hbest
    have hget := List.mem_zipIdx_iff_getElem?.mp hp
    refine .inr ⟨idx, p, rfl, hget, List.mem_of_getElem? hget, hunusable, fun q hq hq' => ?_⟩
    obtain ⟨i, hi⟩ := hmem hq
    rw [← hscore]
    exact hscanned.below (q, i) hi hq'

end KBucket

namespace RoutingTable

variable {t : RoutingTable F}

/-- What an insertion that succeeds leaves: the new peer, and all the others but at most the worst
peer of a full bucket. -/
structure SparesUsable (f64 : F64 F) (t t' : RoutingTable F) (b : KBucket F) (peerId : PeerId)
    (addr : SocketAddr) : Prop where
  present : ∃ p ∈ t'.allPeers, p.peerId = peerId ∧ p.addr = addr
  kept : ∃ victim : Option (PeerInfo F),
    (∀ p ∈ t.allPeers, p.peerId ≠ peerId → p ∈ t'.allPeers ∨ victim = some p) ∧
    ∀ v, victim = some v → b.peers.length = K ∧ b.Worst f64 v

section

variable {i : Nat} {b : KBucket F} {peerId : PeerId} {addr : SocketAddr}

/-- A change of the bucket shows in the table. -/
theorem SparesUsable.of_set (hb : t.buckets[i]? = some b) {b' : KBucket F} (total : Nat)
    (hpresent : ∃ p ∈ b'.peers, p.peerId = peerId ∧ p.addr = addr) (victim : Option (PeerInfo F))
    (hkept : ∀ p ∈ b.peers, p.peerId ≠ peerId → p ∈ b'.peers ∨ victim = some p)
    (hvictim : ∀ v, victim = some v → b.peers.length = K ∧ b.Worst f64 v) :
    SparesUsable f64 t { t with buckets := t.buckets.set i b', totalPeers := total } b peerId
      addr where
  present := by
    obtain ⟨p, hp, hrest⟩ := hpresent
    exact ⟨p, (mem_allPeers_set hb).mpr (.inl hp), hrest⟩
  kept := by
    refine ⟨victim, fun p hp hne => ?_, hvictim⟩
    rw [mem_allPeers_set hb]
    obtain ⟨j, b'', hj, hmem⟩ := mem_allPeers.mp hp
    by_cases heq : j = i
    · rw [heq, hb] at hj
      cases hj
      exact (hkept p hmem hne).imp_left .inl
    · exact .inl (.inr ⟨j, b'', heq, hj, hmem⟩)

/-- All but the evicted peer are still there. -/
theorem mem_or_eq_of_mem_split {α : Type} {before after : List α} {old p : α} (new : α)
    (h : p ∈ before ++ old :: after) : p ∈ before ++ after ++ [new] ∨ p = old := by
  simp only [List.mem_append, List.mem_cons] at h ⊢
  rcases h with h | rfl | h
  · exact .inl (.inl (.inl h))
  · exact .inr rfl
  · exact .inl (.inl (.inr h))

/-- A peer that is there moves to the end. -/
theorem insert_of_present (hi : t.bucketIndex peerId = some i) (hb : t.buckets[i]? = some b)
    (hpresent : ∃ p ∈ b.peers, p.peerId = peerId) (addr : SocketAddr) (now : Nat) :
    ∃ added t', insert f64 peerId addr now t = .ok added t' ∧
      SparesUsable f64 t t' b peerId addr := by
  obtain ⟨before, old, after, hpeers, hold, hresult⟩ :=
    KBucket.insertOrUpdate_of_present f64 (.new f64 peerId addr now) hpresent now
  rw [insert_of_bucket hi hb, hresult]
  refine ⟨_, _, rfl, .of_set hb _ ?_ none ?_ nofun⟩
  · exact ⟨_, List.mem_append_right _ (List.mem_singleton_self _), hold, rfl⟩
  · intro p hp hne
    rw [hpeers] at hp
    refine (mem_or_eq_of_mem_split _ hp).imp_right ?_
    rintro rfl
    exact absurd hold hne

section

variable (hi : t.bucketIndex peerId = some i) (hb : t.buckets[i]? = some b)
  (habsent : ∀ p ∈ b.peers, p.peerId ≠ peerId)

include hi hb habsent

/-- With room in the bucket, nobody is evicted. -/
theorem insert_of_room (hroom : ¬ b.isFull = true) (addr : SocketAddr) (now : Nat) :
    ∃ added t', insert f64 peerId addr now t = .ok added t' ∧
      SparesUsable f64 t t' b peerId addr := by
  rw [insert_of_bucket hi hb, KBucket.insertOrUpdate_of_absent f64 habsent, if_neg hroom]
  refine ⟨_, _, rfl, .of_set hb _ ?_ none ?_ nofun⟩
  · exact ⟨_, List.mem_append_right _ (List.mem_singleton_self _), rfl, rfl⟩
  · exact fun p hp _ => .inl (List.mem_append_left _ hp)

/-- The worst peer of a full bucket makes room. -/
theorem insert_of_worst (hfull : b.isFull = true) (hK : b.peers.length = K) {idx : Nat}
    {victim : PeerInfo F} (hsome : b.findEvictionCandidate f64 = some idx)
    (hget : b.peers[idx]? = some victim) (hworst : b.Worst f64 victim) (addr : SocketAddr)
    (now : Nat) :
    ∃ added t', insert f64 peerId addr now t = .ok added t' ∧
      SparesUsable f64 t t' b peerId addr := by
  obtain ⟨hsplit, herase⟩ := split_at_getElem? hget
  rw [insert_of_bucket hi hb, KBucket.insertOrUpdate_of_absent f64 habsent, if_pos hfull, hsome]
  refine ⟨_, _, rfl, .of_set hb _ ?_ (some victim) ?_ ?_⟩
  · exact ⟨_, List.mem_append_right _ (List.mem_singleton_self _), rfl, rfl⟩
  · intro p hp _
    rw [hsplit] at hp
    rw [herase]
    exact (mem_or_eq_of_mem_split _ hp).imp_right fun heq => congrArg some heq.symm
  · rintro v hv
    cases hv
    exact ⟨hK, hworst⟩

end

/-- What an insertion into a bucket comes to. -/
theorem Valid.insert_cases (h : t.Valid) (hcompares : f64.ComparesBy)
    (hbelow : ScoresBelow f64 t.allPeers) (hi : t.bucketIndex peerId = some i)
    (hb : t.buckets[i]? = some b) (addr : SocketAddr) (now : Nat) :
    (((∀ p ∈ t.allPeers, p.peerId ≠ peerId) ∧ b.peers.length = K ∧ ∀ p ∈ b.peers, p.isUsable) ∧
      insert f64 peerId addr now t = .error (.error (.bucketFull i)) t) ∨
    (¬((∀ p ∈ t.allPeers, p.peerId ≠ peerId) ∧ b.peers.length = K ∧ ∀ p ∈ b.peers, p.isUsable) ∧
      ∃ added t', insert f64 peerId addr now t = .ok added t' ∧
        SparesUsable f64 t t' b peerId addr) := by
  have hlength : b.peers.length ≤ K := b.length_ids ▸ (h.fits i b hb).length_le
  have hbelow' : ScoresBelow f64 b.peers := fun p hp =>
    hbelow p (mem_allPeers.mpr ⟨i, b, hb, hp⟩)
  rw [h.absent_iff hi hb]
  by_cases habsent : ∀ p ∈ b.peers, p.peerId ≠ peerId
  · by_cases hfull : b.isFull = true
    · have hK : b.peers.length = K := le_antisymm hlength (of_decide_eq_true hfull)
      rcases KBucket.findEvictionCandidate_worst hcompares hbelow' with
        ⟨hnone, husable⟩ | ⟨idx, victim, hsome, hget, hworst⟩
      · refine .inl ⟨⟨habsent, hK, husable⟩, ?_⟩
        rw [insert_of_bucket hi hb, KBucket.insertOrUpdate_of_absent f64 habsent, if_pos hfull,
          hnone]
      · refine .inr ⟨?_, insert_of_worst hi hb habsent hfull hK hsome hget hworst addr now⟩
        rintro ⟨-, -, husable⟩
        exact Bool.false_ne_true (hworst.unusable.symm.trans (husable victim hworst.mem))
    · refine .inr ⟨?_, insert_of_room hi hb habsent hfull addr now⟩
      rintro ⟨-, hK, -⟩
      exact hfull (decide_eq_true hK.ge)
  · have hpresent : ∃ p ∈ b.peers, p.peerId = peerId := by simpa using habsent
    exact .inr ⟨fun hrefused => habsent hrefused.1, insert_of_present hi hb hpresent addr now⟩

end

/-- An insertion is refused just if the bucket is full of usable peers, and then changes nothing;
otherwise it costs at most the worst peer of a full bucket. -/
structure InsertSpares (f64 : F64 F) (t : RoutingTable F) (i : Nat) (b : KBucket F)
    (peerId : PeerId) (addr : SocketAddr) (now : Nat) : Prop where
  refused_iff : (∃ j t', insert f64 peerId addr now t = .error (.error (.bucketFull j)) t') ↔
    (∀ p ∈ t.allPeers, p.peerId ≠ peerId) ∧ b.peers.length = K ∧ ∀ p ∈ b.peers, p.isUsable
  refused : ∀ e t', insert f64 peerId addr now t = .error e t' →
    e = .error (.bucketFull i) ∧ t' = t
  accepted : ∀ added t', insert f64 peerId addr now t = .ok added t' →
    SparesUsable f64 t t' b peerId addr

/-- Insertions spare usable peers in every state that mutations reach. -/
theorem insert_spares_usable (hcompares : f64.ComparesBy) (localId : PeerId) (created : Nat)
    (calls : List Mutation)
    (hbelow : ScoresBelow f64 ((new localId created).run f64 calls).allPeers) {peerId : PeerId}
    (hne : peerId ≠ localId) (addr : SocketAddr) (now : Nat) :
    ∃ i b, localId.bucketIndex peerId = some i ∧
      ((new localId created).run f64 calls).buckets[i]? = some b ∧
      InsertSpares f64 ((new localId created).run f64 calls) i b peerId addr now := by
  obtain ⟨hvalid, hlocal⟩ := (valid_new localId created).run f64 calls
  generalize (new localId created).run f64 calls = t at hvalid hlocal hbelow
  obtain ⟨i, hi⟩ := PeerId.exists_bucketIndex hne.symm
  have hi' : t.bucketIndex peerId = some i := by
    rw [bucketIndex, hlocal]
    exact hi
  obtain ⟨b, hb⟩ := hvalid.exists_bucket hi'
  refine ⟨i, b, hi, hb, ?_⟩
  rcases hvalid.insert_cases hcompares hbelow hi' hb addr now with
    ⟨hrefused, heq⟩ | ⟨haccepted, added, t', heq, hspares⟩
  · refine ⟨iff_of_true ⟨i, t, heq⟩ hrefused, ?_, ?_⟩
    · intro e t' he
      rw [heq] at he
      cases he
      exact ⟨rfl, rfl⟩
    · intro added t' hok
      rw [heq] at hok
      cases hok
  · refine ⟨iff_of_false ?_ haccepted, ?_, ?_⟩
    · rintro ⟨j, t'', he⟩
      rw [heq] at he
      cases he
    · intro e t'' he
      rw [heq] at he
      cases he
    · intro added' t'' hok
      rw [heq] at hok
      cases hok
      exact hspares

/-- An identifier that differs from the zero one in the first byte only. -/
def idWithFirstByte (byte : UInt8) : PeerId := ⟨(Vector.replicate 32 0).set 0 byte⟩

/-- Identifiers that share a bucket in the table of the zero one. -/
def farId (byte : UInt8) : PeerId := ⟨(Vector.replicate 31 128).push byte⟩

/-- A table with a full bucket, in which one peer does not respond. -/
def oneSuspect : RoutingTable ℚ :=
  (new (idWithFirstByte 0) 0).run .exact
    ((List.range K).map (fun k => .insert (farId (.ofNat k))
        ⟨.v4 (Ipv4Addr.new 127 0 0 1), .ofNat (9000 + k)⟩ (k + 1)) ++
      [.markSuspect (farId 2) 30])

/-- A new peer comes for the full bucket. -/
theorem oneSuspect_spares_usable :
    (oneSuspect.buckets[7]?.map fun b => b.peers.length) = some K ∧
    ScoresBelow .exact oneSuspect.allPeers ∧
    ∃ i b, (idWithFirstByte 0).bucketIndex (farId 200) = some i ∧
      oneSuspect.buckets[i]? = some b ∧ InsertSpares .exact oneSuspect i b
        (farId 200) ⟨.v4 (Ipv4Addr.new 127 0 0 1), 9100⟩ 31 := by
  obtain ⟨hfull, hbelow⟩ : (oneSuspect.buckets[7]?.map fun b => b.peers.length) = some K ∧
      ScoresBelow .exact oneSuspect.allPeers := by
    decide +kernel
  have hne : farId 200 ≠ idWithFirstByte 0 := by decide
  exact ⟨hfull, hbelow, insert_spares_usable (fun _ _ => rfl) (idWithFirstByte 0) 0 _ hbelow hne
    ⟨.v4 (Ipv4Addr.new 127 0 0 1), 9100⟩ 31⟩

end RoutingTable

end CekyP2P.Dht
