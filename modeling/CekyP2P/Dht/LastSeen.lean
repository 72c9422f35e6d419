import CekyP2P.Dht.Eviction

/-!
# Buckets in the order of the last contact

A bucket is meant to have its peers in the order in which they were last seen. An insertion
puts the peer it has seen at the end, but `mark_active` sets the time of a peer where it stands.
-/

namespace CekyP2P.Dht

open Crypto Transfer

variable {F : Type} {f64 : F64 F}

/-- The time of a mutation that looks at the clock. -/
def Mutation.time : Mutation → Option Nat
  | .insert _ _ now => some now
  | .remove _ => none
  | .markActive _ _ now => some now
  | .markSuspect _ now => some now
  | .markDead _ => none
  | .evictDead => none

namespace KBucket

variable {b : KBucket F}

/-- When the peers were last seen. -/
def seen (b : KBucket F) : List Nat := b.peers.map (·.lastSeen)

/-- Most recently seen at the end. -/
def Ordered (b : KBucket F) : Prop := b.seen.Pairwise (· ≤ ·)

instance (b : KBucket F) : Decidable b.Ordered := inferInstanceAs (Decidable (List.Pairwise _ _))

/-- A change of the time of one peer. -/
theorem seen_modify {f : PeerInfo F → PeerInfo F} {g : Nat → Nat}
    (hf : ∀ p, (f p).lastSeen = g p.lastSeen) (id : PeerId) :
    (b.modify id f).seen = match b.find id with
      | some idx => b.seen.modify idx g
      | none => b.seen := by
  rw [modify]
  cases b.find id with
  | none => rfl
  | some idx =>
    apply List.ext_getElem?
    intro k
    simp only [seen, List.getElem?_map, List.getElem?_modify]
    cases b.peers[k]? with
    | none => rfl
    | some p =>
      simp only [Option.map_some]
      split <;> simp [hf]

end KBucket

/-- What a mutation other than `mark_active` does to the times of a bucket: some peers leave, and
the peer that is seen comes last. -/
inductive Follows (time : Option Nat) (l : List Nat) : List Nat → Prop
  | left {l' : List Nat} (h : l'.Sublist l) : Follows time l l'
  | came {rest : List Nat} {now : Nat} (htime : time = some now) (h : rest.Sublist l) :
      Follows time l (rest ++ [now])

namespace Follows

variable {time : Option Nat} {l l' : List Nat}

/-- A list follows itself. -/
theorem refl (time : Option Nat) (l : List Nat) : Follows time l l := .left (List.Sublist.refl l)

/-- New times are those of the call. -/
theorem mem (h : Follows time l l') {x : Nat} (hx : x ∈ l') : x ∈ l ∨ time = some x := by
  cases h with
  | left hsub => exact .inl (hsub.subset hx)
  | came htime hsub =>
    rcases List.mem_append.mp hx with hx | hx
    · exact .inl (hsub.subset hx)
    · rw [List.mem_singleton.mp hx]
      exact .inr htime

/-- A list that follows an ordered one with later times is ordered. -/
theorem ordered (h : Follows time l l') (hl : l.Pairwise (· ≤ ·))
    (hbefore : ∀ x ∈ l, ∀ now, time = some now → x < now) : l'.Pairwise (· ≤ ·) := by
  cases h with
  | left hsub => exact hl.sublist hsub
  | came htime hsub =>
    rw [List.pairwise_append]
    refine ⟨hl.sublist hsub, List.pairwise_singleton _ _, ?_⟩
    intro x hx y hy
    rw [List.mem_singleton.mp hy]
    exact (hbefore x (hsub.subset hx) _ htime).le

end Follows

/-- An insertion moves its peer to the end. -/
theorem KBucket.Insertion.follows {b b' : KBucket F} {peer : PeerInfo F} {now : Nat}
    {outcome : InsertOutcome} (h : Insertion b peer now (.ok outcome b'))
    (hpeer : peer.lastSeen = now) : Follows (some now) b.seen b'.seen := by
  cases h with
  | @updated before after old hpeers hid =>
    have hsub : (before ++ after).Sublist b.peers := by
      rw [hpeers]
      exact (List.sublist_cons_self old after).append_left before
    simpa [seen] using Follows.came rfl (hsub.map (·.lastSeen))
  | newPeer => simpa [seen, hpeer] using Follows.came rfl (List.Sublist.refl b.seen)
  | @evicted before after old habsent hpeers hunusable =>
    have hsub : (before ++ after).Sublist b.peers := by
      rw [hpeers]
      exact (List.sublist_cons_self old after).append_left before
    simpa [seen, hpeer] using Follows.came rfl (hsub.map (·.lastSeen))

namespace RoutingTable

variable {t : RoutingTable F}

/-- The peers of every bucket are ordered by the time they were last seen. -/
def Ordered (t : RoutingTable F) : Prop := ∀ b ∈ t.buckets, b.Ordered

instance (t : RoutingTable F) : Decidable t.Ordered :=
  inferInstanceAs (Decidable (∀ b ∈ t.buckets, _))

/-- `mark_active` is called for the last peer of a bucket, if for any. -/
def ActiveIsLast (t : RoutingTable F) : Mutation → Prop
  | .markActive peerId _ _ =>
    ∀ b ∈ t.buckets, ∀ p ∈ b.peers, p.peerId = peerId → b.peers.getLast? = some p
  | _ => True

instance [DecidableEq F] (t : RoutingTable F) (c : Mutation) : Decidable (t.ActiveIsLast c) := by
  unfold ActiveIsLast
  split <;> infer_instance

/-- A bucket after a change of one bucket. -/
theorem follows_set {time : Option Nat} {i total : Nat} {b b' : KBucket F}
    (hb : t.buckets[i]? = some b) (h : Follows time b.seen b'.seen) :
    ∀ b'' ∈ RoutingTable.buckets { t with buckets := t.buckets.set i b', totalPeers := total },
      ∃ b ∈ t.buckets, Follows time b.seen b''.seen := by
  intro b'' hb''
  rcases List.mem_or_eq_of_mem_set hb'' with hmem | rfl
  · exact ⟨b'', hmem, .refl _ _⟩
  · exact ⟨b, List.mem_of_getElem? hb, h⟩

/-- A change of a peer changes its bucket, or nothing. -/
theorem Valid.getMut_cases (h : t.Valid) (peerId : PeerId) (f : PeerInfo F → PeerInfo F) :
    (t.bucketIndex peerId = none ∧ getMut peerId f t = .ok () t) ∨
      ∃ i b, t.bucketIndex peerId = some i ∧ t.buckets[i]? = some b ∧ getMut peerId f t =
        .ok () { t with buckets := t.buckets.set i (b.modify peerId f) } := by
  rw [getMut, Exec.get_bind_apply]
  cases hi : t.bucketIndex peerId with
  | none => exact .inl ⟨rfl, rfl⟩
  | some i =>
    obtain ⟨b, hb⟩ := h.exists_bucket hi
    simp only [Exec.bind_apply, Exec.index_of_eq_some hb]
    exact .inr ⟨i, b, rfl, hb, rfl⟩

/-- A change that leaves the time of the peer. -/
theorem Valid.follows_getMut (h : t.Valid) (time : Option Nat) (peerId : PeerId)
    {f : PeerInfo F → PeerInfo F} (hf : ∀ p, (f p).lastSeen = p.lastSeen) :
    ∀ b' ∈ (Exec.stateAfter (getMut peerId f t)).buckets,
      ∃ b ∈ t.buckets, Follows time b.seen b'.seen := by
  rcases h.getMut_cases peerId f with ⟨-, heq⟩ | ⟨i, b, hi, hb, heq⟩
  · rw [heq]
    exact fun b' hb' => ⟨b', hb', .refl _ _⟩
  · rw [heq]
    have hseen : (b.modify peerId f).seen = b.seen := by
      rw [KBucket.seen_modify (g := id) hf]
      cases b.find peerId <;> simp
    exact follows_set hb (hseen ▸ .refl _ _)

/-- A removal keeps the order of the rest. -/
theorem Valid.follows_remove (h : t.Valid) (time : Option Nat) (peerId : PeerId) :
    ∀ b' ∈ (Exec.stateAfter (remove peerId t)).buckets,
      ∃ b ∈ t.buckets, Follows time b.seen b'.seen := by
  have hsame : ∀ b' ∈ t.buckets, ∃ b ∈ t.buckets, Follows time b.seen b'.seen :=
    fun b' hb' => ⟨b', hb', .refl _ _⟩
  rw [remove, Exec.get_bind_apply]
  cases hi : t.bucketIndex peerId with
  | none => exact hsame
  | some i =>
    obtain ⟨b, hb⟩ := h.exists_bucket hi
    simp only [Exec.bind_apply, Exec.index_of_eq_some hb]
    rcases remove_cases b peerId with hnone | ⟨peer, b', hsome, hsub, hlength⟩
    · rw [hnone]
      exact hsame
    · have hle : 1 ≤ t.totalPeers := by
        have hbucket := h.length_le_total hb
        omega
      rw [hsome]
      simp only [Exec.bind_apply, Exec.checkedSub_of_le hle]
      exact follows_set hb (.left (hsub.map _))

/-- The eviction of dead peers keeps the order of the rest. -/
theorem Valid.follows_evictDead (h : t.Valid) (time : Option Nat) :
    ∀ b' ∈ (Exec.stateAfter (evictDead t)).buckets,
      ∃ b ∈ t.buckets, Follows time b.seen b'.seen := by
  obtain ⟨evicted, total, heq, -⟩ := evictLoop_eq t.buckets 0 t.totalPeers h.total_eq.ge t
  rw [evictDead, Exec.get_bind_apply]
  simp only [Exec.bind_apply, heq]
  intro b' hb'
  obtain ⟨b, hb, rfl⟩ := List.mem_map.mp hb'
  exact ⟨b, hb, .left (List.filter_sublist.map _)⟩

/-- An insertion puts its peer last. -/
theorem follows_insert (t : RoutingTable F) (peerId : PeerId) (addr : Transfer.SocketAddr)
    (now : Nat) : ∀ b' ∈ (Exec.stateAfter (insert f64 peerId addr now t)).buckets,
      ∃ b ∈ t.buckets, Follows (some now) b.seen b'.seen := by
  have hinserts := insert_inserts f64 t peerId addr now
  generalize insert f64 peerId addr now t = result at hinserts ⊢
  cases hinserts with
  | stored hi hb hinsertion => exact follows_set hb (hinsertion.follows rfl)
  | _ => exact fun b' hb' => ⟨b', hb', .refl _ _⟩

/-- Every mutation but `mark_active` adds a peer at the end, if at all. -/
theorem Valid.follows_call (f64 : F64 F) (h : t.Valid) (c : Mutation) :
    (∃ peerId latency now, c = .markActive peerId latency now) ∨ t.ActiveIsLast c ∧
      ∀ b' ∈ (Exec.stateAfter (call f64 c t)).buckets,
        ∃ b ∈ t.buckets, Follows c.time b.seen b'.seen := by
  cases c with
  | markActive peerId latency now => exact .inl ⟨peerId, latency, now, rfl⟩
  | insert peerId addr now =>
    refine .inr ⟨trivial, ?_⟩
    rw [call, Exec.stateAfter_map]
    exact follows_insert t peerId addr now
  | remove peerId =>
    refine .inr ⟨trivial, ?_⟩
    rw [call, Exec.stateAfter_map]
    exact h.follows_remove _ peerId
  | markSuspect peerId now => exact .inr ⟨trivial, h.follows_getMut _ peerId fun _ => rfl⟩
  | markDead peerId => exact .inr ⟨trivial, h.follows_getMut _ peerId fun _ => rfl⟩
  | evictDead =>
    refine .inr ⟨trivial, ?_⟩
    rw [call, Exec.stateAfter_map]
    exact h.follows_evictDead _

end RoutingTable

/-- A time after all the others is in order at the end only. -/
theorem pairwise_set_iff {l : List Nat} (hl : l.Pairwise (· ≤ ·)) {now : Nat}
    (hbefore : ∀ x ∈ l, x < now) {i : Nat} (hi : i < l.length) :
    (l.set i now).Pairwise (· ≤ ·) ↔ i + 1 = l.length := by
  constructor
  · intro h
    by_contra hne
    have hnext : i + 1 < l.length := by omega
    have hle := List.pairwise_iff_getElem.mp h i (i + 1) (by simpa using hi)
      (by simpa using hnext) (Nat.lt_succ_self i)
    rw [List.getElem_set_self, List.getElem_set_ne (by omega)] at hle
    exact absurd (hbefore _ (List.getElem_mem hnext)) (Nat.not_lt.mpr hle)
  · intro hlast
    have hset : l.set i now = l.take i ++ [now] := by
      rw [List.set_eq_take_append_cons_drop, if_pos hi, List.drop_of_length_le (by omega)]
    rw [hset, List.pairwise_append]
    refine ⟨hl.sublist (List.take_sublist i l), List.pairwise_singleton _ _, ?_⟩
    intro x hx y hy
    rw [List.mem_singleton.mp hy]
    exact (hbefore x (List.mem_of_mem_take hx)).le

namespace RoutingTable

variable {t : RoutingTable F}

/-- Whether a peer stands at the end of its bucket. -/
theorem Valid.activeIsLast_iff (h : t.Valid) {peerId : PeerId} {i idx : Nat} {b : KBucket F}
    (hi : t.bucketIndex peerId = some i) (hb : t.buckets[i]? = some b)
    (hfind : b.find peerId = some idx) (latency now : Nat) :
    t.ActiveIsLast (.markActive peerId latency now) ↔ idx + 1 = b.seen.length := by
  obtain ⟨p, hp, hid⟩ := KBucket.find_eq_some hfind
  have hidx := (List.getElem?_eq_some_iff.mp hp).1
  have hnodup := (h.fits i b hb).nodup
  rw [KBucket.seen, List.length_map]
  constructor
  · intro hlast
    have hgetLast := hlast b (List.mem_of_getElem? hb) p (List.mem_of_getElem? hp) hid
    rw [List.getLast?_eq_getElem?] at hgetLast
    have hsame : b.ids[idx]? = b.ids[b.peers.length - 1]? := by
      rw [KBucket.ids, List.getElem?_map, List.getElem?_map, hp, hgetLast]
    have hlt : idx < b.ids.length := by
      rw [KBucket.length_ids]
      exact hidx
    have hindex := (List.getElem?_inj hlt hnodup).mp hsame
    omega
  · intro hlast b' hb' q hq hqid
    obtain ⟨j, hj⟩ := List.mem_iff_getElem?.mp hb'
    have hplaced := h.placed hj hq
    rw [hqid, hi] at hplaced
    cases hplaced
    rw [hb] at hj
    cases hj
    have hpq : q = p := List.inj_on_of_nodup_map hnodup hq (List.mem_of_getElem? hp)
      (hqid.trans hid.symm)
    rw [hpq, List.getLast?_eq_getElem?, ← hlast, Nat.add_sub_cancel]
    exact hp

/-- What `mark_active` does to the times of a bucket. -/
theorem seen_markActive (b : KBucket F) (peerId : PeerId) (latency now : Nat) :
    (b.modify peerId (.markActive f64 latency now)).seen = match b.find peerId with
      | some idx => b.seen.set idx now
      | none => b.seen := by
  rw [KBucket.seen_modify (g := fun _ => now) fun _ => rfl]
  cases b.find peerId with
  | none => rfl
  | some idx =>
    apply List.ext_getElem?
    intro k
    rw [List.getElem?_modify, List.getElem?_set']
    split
    · rfl
    · exact id_map _

/-- All peers were last seen before the mutations to come. -/
def SeenBefore (t : RoutingTable F) (calls : List Mutation) : Prop :=
  ∀ b ∈ t.buckets, ∀ x ∈ b.seen, ∀ now ∈ calls.filterMap Mutation.time, x < now

/-- After a mutation every peer was last seen when it was seen before, or now. -/
theorem Valid.mem_seen_call (h : t.Valid) (c : Mutation) :
    ∀ b' ∈ (Exec.stateAfter (call f64 c t)).buckets, ∀ x ∈ b'.seen,
      (∃ b ∈ t.buckets, x ∈ b.seen) ∨ c.time = some x := by
  intro b' hb' x hx
  rcases h.follows_call f64 c with ⟨peerId, latency, now, rfl⟩ | ⟨-, hfollows⟩
  · rcases h.getMut_cases peerId (.markActive f64 latency now) with ⟨-, heq⟩ | ⟨i, b, hi, hb, heq⟩
    · rw [call, markActive, heq] at hb'
      exact .inl ⟨b', hb', hx⟩
    · rw [call, markActive, heq] at hb'
      rcases List.mem_or_eq_of_mem_set hb' with hmem | rfl
      · exact .inl ⟨b', hmem, hx⟩
      · rw [seen_markActive] at hx
        split at hx
        · rcases List.mem_or_eq_of_mem_set hx with hx | rfl
          · exact .inl ⟨b, List.mem_of_getElem? hb, hx⟩
          · exact .inr rfl
        · exact .inl ⟨b, List.mem_of_getElem? hb, hx⟩
  · obtain ⟨b, hb, hb''⟩ := hfollows b' hb'
    exact (hb''.mem hx).imp_left fun hmem => ⟨b, hb, hmem⟩

/-- If one bucket is replaced, the order depends on it alone. -/
theorem ordered_set_iff (h : t.Ordered) {i : Nat} {b : KBucket F} (hb : t.buckets[i]? = some b)
    (b' : KBucket F) : Ordered { t with buckets := t.buckets.set i b' } ↔ b'.Ordered := by
  constructor
  · intro hall
    exact hall b' (List.mem_set (List.getElem?_eq_some_iff.mp hb).1 b')
  · intro hone b'' hb''
    rcases List.mem_or_eq_of_mem_set hb'' with hmem | rfl
    · exact h b'' hmem
    · exact hone

/-- `mark_active` keeps the order just if the peer stands at the end already. -/
theorem Valid.ordered_markActive_iff (h : t.Valid) (hordered : t.Ordered) (peerId : PeerId)
    (latency : Nat) {now : Nat} (hbefore : ∀ b ∈ t.buckets, ∀ x ∈ b.seen, x < now) :
    (Exec.stateAfter (markActive f64 peerId latency now t)).Ordered ↔
      t.ActiveIsLast (.markActive peerId latency now) := by
  have hplace : ∀ b ∈ t.buckets, ∀ p ∈ b.peers, p.peerId = peerId →
      ∃ i, t.bucketIndex peerId = some i ∧ t.buckets[i]? = some b := by
    rintro b hb p hp rfl
    obtain ⟨i, hi⟩ := List.mem_iff_getElem?.mp hb
    exact ⟨i, h.placed hi hp, hi⟩
  rw [markActive]
  rcases h.getMut_cases peerId (.markActive f64 latency now) with
    ⟨hnone, heq⟩ | ⟨i, b, hi, hb, heq⟩
  · rw [heq]
    refine iff_of_true hordered fun b hb p hp hid => ?_
    obtain ⟨i, hi, -⟩ := hplace b hb p hp hid
    rw [hnone] at hi
    cases hi
  · have hmem := List.mem_of_getElem? hb
    rw [heq]
    refine (ordered_set_iff hordered hb _).trans ?_
    rw [KBucket.Ordered, seen_markActive]
    cases hfind : b.find peerId with
    | none =>
      refine iff_of_true (hordered b hmem) fun b' hb' p hp hid => ?_
      obtain ⟨j, hj, hb''⟩ := hplace b' hb' p hp hid
      rw [hi] at hj
      cases hj
      rw [hb] at hb''
      cases hb''
      exact absurd hid (KBucket.find_eq_none.mp hfind p hp)
    | some idx =>
      obtain ⟨p, hp, -⟩ := KBucket.find_eq_some hfind
      have hidx : idx < b.seen.length := by
        rw [KBucket.seen, List.length_map]
        exact (List.getElem?_eq_some_iff.mp hp).1
      rw [h.activeIsLast_iff hi hb hfind]
      exact pairwise_set_iff (hordered b hmem) (hbefore b hmem) hidx

/-- A mutation keeps the order, just if it does not mark a peer as active that is not the last one.
-/
theorem Valid.ordered_call_iff (f64 : F64 F) (h : t.Valid) (hordered : t.Ordered) (c : Mutation)
    (hbefore : ∀ b ∈ t.buckets, ∀ x ∈ b.seen, ∀ now, c.time = some now → x < now) :
    (Exec.stateAfter (call f64 c t)).Ordered ↔ t.ActiveIsLast c := by
  rcases h.follows_call f64 c with ⟨peerId, latency, now, rfl⟩ | ⟨hlast, hfollows⟩
  · exact h.ordered_markActive_iff hordered peerId latency fun b hb x hx =>
      hbefore b hb x hx now rfl
  · refine iff_of_true (fun b' hb' => ?_) hlast
    obtain ⟨b, hb, hb''⟩ := hfollows b' hb'
    exact hb''.ordered (hordered b hb) (hbefore b hb)

/-- At strictly increasing times the buckets are in order in every state just if `mark_active` is
called for the last peer of a bucket only. -/
theorem ordered_run_iff (f64 : F64 F) (localId : PeerId) (created : Nat) (calls : List Mutation)
    (htimes : (calls.filterMap Mutation.time).Pairwise (· < ·)) :
    (∀ taken, taken <+: calls → ((new localId created).run f64 taken).Ordered) ↔
      Along ActiveIsLast (fun t c => Exec.stateAfter (call f64 c t)) (new localId created)
        calls := by
  have hempty : ∀ b ∈ (new localId created : RoutingTable F).buckets, b.seen = [] := by
    intro b hb
    rw [List.eq_of_mem_replicate hb]
    rfl
  refine forall_prefix_iff_along_of (I := fun t calls => t.Valid ∧ t.SeenBefore calls ∧
    (calls.filterMap Mutation.time).Pairwise (· < ·)) ?_ ?_
    ⟨valid_new localId created, ?_, htimes⟩ ?_
  · rintro t c calls ⟨hvalid, hbefore, htimes⟩
    have hnext : ∀ now, c.time = some now →
        ∀ later ∈ calls.filterMap Mutation.time, now < later := by
      intro now hnow
      rw [List.filterMap_cons_some hnow, List.pairwise_cons] at htimes
      exact htimes.1
    have hsub : (calls.filterMap Mutation.time).Sublist ((c :: calls).filterMap Mutation.time) :=
      (List.sublist_cons_self c calls).filterMap _
    refine ⟨(hvalid.keeps_call f64 c).valid, ?_, htimes.sublist hsub⟩
    intro b' hb' x hx later hlater
    rcases hvalid.mem_seen_call c b' hb' x hx with ⟨b, hb, hmem⟩ | hnow
    · exact hbefore b hb x hmem later (hsub.subset hlater)
    · exact hnext x hnow later hlater
  · rintro t c calls ⟨hvalid, hbefore, -⟩ hordered
    refine hvalid.ordered_call_iff f64 hordered c fun b hb x hx now hnow => ?_
    refine hbefore b hb x hx now ?_
    rw [List.filterMap_cons_some hnow]
    exact List.mem_cons_self
  · intro b hb x hx
    rw [hempty b hb] at hx
    cases hx
  · intro b hb
    rw [KBucket.Ordered, hempty b hb]
    exact .nil

/-- Two peers of one bucket are found, and the first one responds. -/
def firstResponds : List Mutation :=
  [.insert (idWithFirstByte 128) ⟨.v4 (Ipv4Addr.new 127 0 0 1), 9000⟩ 1,
    .insert (idWithFirstByte 129) ⟨.v4 (Ipv4Addr.new 127 0 0 1), 9001⟩ 2,
    .markActive (idWithFirstByte 128) 5 3]

/-- The first of two peers responds, and stays before the second. -/
theorem firstResponds_not_ordered :
    (firstResponds.filterMap Mutation.time).Pairwise (· < ·) ∧
      ¬ ((new (idWithFirstByte 0) 0).run .exact firstResponds).Ordered := by decide +kernel

/-- The second one responds. -/
def lastResponds : List Mutation :=
  firstResponds.take 2 ++ [.markActive (idWithFirstByte 129) 5 3]

/-- The last of two peers responds. -/
theorem lastResponds_ordered :
    (lastResponds.filterMap Mutation.time).Pairwise (· < ·) ∧
      ((new (idWithFirstByte 0) 0).run .exact lastResponds).Ordered := by
  have htimes : (lastResponds.filterMap Mutation.time).Pairwise (· < ·) := by decide
  refine ⟨htimes, (ordered_run_iff .exact (idWithFirstByte 0) 0 lastResponds htimes).mpr ?_
    lastResponds (List.prefix_refl _)⟩
  exact ⟨trivial, trivial, by decide +kernel, trivial⟩

end RoutingTable

end CekyP2P.Dht
