import CekyP2P.Transfer.Isolation

/-!
# The chunks that a call of the pump selects

From every sending state that calls can lead to, the pump takes the first missing chunks from
the cursor on, as many as there are credits, and stops with no credit left or at the end. The
bitmap may come from the peer and be too short; an index outside it is not missing.
-/

namespace CekyP2P.Transfer

open Protocol TransferManager

namespace SendingState

variable {s : SendingState}

/-- The chunks that are to be sent. -/
theorem mem_missing {i : UInt32} : i ∈ s.missing ↔
    s.currentChunkIdx ≤ i ∧ i < s.totalChunks ∧ bitmapIsMissing s.bitfield i = true := by
  rw [missing, List.mem_filter, mem_remaining, and_assoc]

/-- As many are sent as there are credits. -/
theorem pumped_eq_take_min (s : SendingState) :
    s.pumped = s.missing.take (min s.credits.toNat s.missing.length) := by
  rw [pumped, ← List.take_eq_take_min]

/-- How many are sent. -/
theorem length_pumped (s : SendingState) :
    s.pumped.length = min s.credits.toNat s.missing.length := by
  rw [pumped, List.length_take]

/-- A credit is spent for each chunk. -/
theorem toNat_credits_afterPump (s : SendingState) :
    s.afterPump.credits.toNat = s.credits.toNat - min s.credits.toNat s.missing.length := by
  have hlt := s.credits.toNat_lt
  have hofNat : (UInt32.ofNat s.pumped.length).toNat = s.pumped.length := by
    rw [length_pumped]
    exact UInt32.toNat_ofNat_of_lt' (Nat.lt_of_le_of_lt (Nat.min_le_left _ _) hlt)
  have hle : UInt32.ofNat s.pumped.length ≤ s.credits := by
    rw [UInt32.le_iff_toNat_le, hofNat, length_pumped]
    exact Nat.min_le_left _ _
  rw [afterPump, UInt32.toNat_sub_of_le _ _ hle, hofNat, length_pumped]

/-- The loop ends because its condition fails. -/
theorem afterPump_stops (s : SendingState) :
    s.afterPump.credits = 0 ∨ s.totalChunks ≤ s.afterPump.currentChunkIdx := by
  rcases Classical.not_and_iff_not_or_not.mp s.waits_afterPump with hcredits | hcursor
  · left
    rw [UInt32.lt_iff_toNat_lt, UInt32.toNat_zero] at hcredits
    exact UInt32.toNat_inj.mp (Nat.eq_zero_of_not_pos hcredits)
  · right
    exact UInt32.not_lt.mp hcursor

/-- What is missing and not taken lies behind all that is taken. -/
theorem lt_of_mem_pumped {i j : UInt32} (hi : i ∈ s.pumped) (hj : j ∈ s.missing)
    (hnot : j ∉ s.pumped) : i < j := by
  have hsorted : s.missing.Pairwise (· < ·) := s.remaining_pairwise.filter _
  rw [← List.take_append_drop s.credits.toNat s.missing] at hsorted hj
  rcases List.mem_append.mp hj with htaken | hdropped
  · exact absurd htaken hnot
  · exact (List.pairwise_append.mp hsorted).2.2 i hi j hdropped

/-- No missing index is left behind the new cursor. -/
theorem mem_pumped_of_lt {i : UInt32} (hi : i ∈ s.missing) (hlt : i < s.afterPump.currentChunkIdx) :
    i ∈ s.pumped := by
  have hlt : i < s.stopIdx := hlt
  rw [stopIdx] at hlt
  split at hlt
  case isTrue hleft =>
    rwa [pumped, List.take_of_length_le hleft.le]
  case isFalse =>
    cases hlast : s.pumped.getLast? with
    | none =>
      rw [hlast] at hlt
      exact absurd (mem_missing.mp hi).1 (UInt32.not_le.mpr hlt)
    | some last =>
      have hmem := List.mem_of_getLast? hlast
      have hsucc := toNat_succ_of_lt (mem_pumped hmem).2.1
      rw [hlast, Option.elim_some, UInt32.lt_iff_toNat_lt, hsucc] at hlt
      by_contra hnot
      have hbehind := UInt32.lt_iff_toNat_lt.mp (lt_of_mem_pumped hmem hi hnot)
      omega

end SendingState

/-! ## Reachable states of one transfer -/

variable (sha256 : List UInt8 → Vector UInt8 32)

/-- The states of a file being sent that `offer_file` and the handlers lead to. Every write to the
entry is a step of its own, so the states in which a handler calls the pump are among them. -/
inductive SendingState.Reached : SendingState → Prop
  | offered (peer : SocketAddr) {file : List UInt8} (hsize : file.length < 2 ^ 64)
      (chunkSize : UInt32) : Reached (TransferManager.offered peer file chunkSize)
  | accepted {s : SendingState} (accept : FileAccept) : Reached s →
      Reached { s with bitfield := accept.missingBitmap }
  | granted {s : SendingState} (credits : UInt32) : Reached s →
      Reached { s with credits := s.credits + credits }
  | acknowledged {s : SendingState} (ack : FileChunkAck) : Reached s →
      Reached (TransferManager.acknowledged s ack)
  | pumped {s s' : SendingState} {id : TransferId} {sent : List Payload} : Reached s →
      pumpLoop sha256 id (s.totalChunks.toNat - s.currentChunkIdx.toNat) s = some (s', sent) →
      Reached s'

variable {sha256} {g : Guards} {m : TransferManager} {id : TransferId} {s : SendingState}

namespace SendingState.Reached

/-- A state that is reached fits. -/
theorem fits (h : s.Reached sha256) : s.Fits := by
  induction h with
  | offered peer hsize chunkSize => exact offered_fits hsize peer chunkSize
  | accepted accept _ ih => exact ih
  | granted credits _ ih => exact ih
  | acknowledged ack _ ih => exact acknowledged_fits ih ack
  | pumped _ hloop ih =>
    rw [pumpLoop_eq sha256 _ ih (Nat.le_refl _)] at hloop
    cases hloop
    exact ih

/-- Pumping leads to a state that is reached. -/
theorem afterPump (h : s.Reached sha256) (id : TransferId) : s.afterPump.Reached sha256 :=
  h.pumped (pumpLoop_eq sha256 id h.fits (Nat.le_refl _))

/-- A message leads to a state that is reached. -/
theorem heard (h : s.Reached sha256) (msg : Message) : (s.heard msg).1.Reached sha256 := by
  cases msg with
  | fileOffer | fileChunk => exact h
  | fileAccept accept => exact h.accepted accept
  | creditUpdate id credits => exact (h.granted credits).afterPump id
  | fileChunkAck ack => exact (h.acknowledged ack).afterPump ack.transferId

end SendingState.Reached

/-- Between calls all files that are being sent are in such states. -/
theorem TransferManager.ReachableUnder.reached (hg : ∀ id, ¬g.Blocks id)
    (h : ReachableUnder sha256 g m) (hs : m.activeTransfers id = some (.sending s)) :
    s.Reached sha256 := by
  induction h generalizing id s with
  | new downloadDir => cases hs
  | @offerFile m peer fileName file randomId chunkSize hsize hm ih =>
    rcases offerFile_cases sha256 peer fileName chunkSize (hg randomId) m file with
      hsame | ⟨content, offer, rfl, hafter⟩
    · rw [hsame] at hs
      exact ih hs
    · rw [hafter, withSent_activeTransfers, withEntry_activeTransfers] at hs
      by_cases hid : id = randomId
      · subst hid
        rw [Function.update_self] at hs
        cases hs
        exact .offered peer (hsize content rfl) chunkSize
      · rw [Function.update_of_ne hid] at hs
        exact ih hs
  | handle msg hm hreturned ih =>
    obtain ⟨s₀, hs₀, rfl | rfl⟩ := sending_of_handle (hm.sendsFit hg) hg hreturned hs
    · exact ih hs₀
    · exact (ih hs₀).heard msg

/-! ## The selection -/

/-- What a call of the pump does for a transfer in the state `s`; `m` is the manager before it and
`m'` the one after it. -/
structure SelectsExactly (sha256 : List UInt8 → Vector UInt8 32) (id : TransferId)
    (s : SendingState) (m m' : TransferManager) : Prop where
  /-- The candidates are the indices from the cursor on that the bitmap marks. -/
  candidates : ∀ i, i ∈ s.missing ↔
    s.currentChunkIdx ≤ i ∧ i < s.totalChunks ∧ bitmapIsMissing s.bitfield i = true
  /-- They stand in increasing order, so each once. -/
  increasing : s.missing.Pairwise (· < ·)
  /-- The first of them are sent, one for each credit. -/
  sent : m'.outbox = m.outbox ++
    (s.missing.take (min s.credits.toNat s.missing.length)).map
      fun i => (s.peer, s.chunkFrame sha256 id i)
  /-- The bitmap is as before, the credits are paid, the condition of the loop fails and no missing
  index before the cursor was left out. -/
  entry : ∃ s', m'.activeTransfers id = some (.sending s') ∧ s'.bitfield = s.bitfield ∧
    s'.credits.toNat = s.credits.toNat - min s.credits.toNat s.missing.length ∧
    (s'.credits = 0 ∨ s.totalChunks ≤ s'.currentChunkIdx) ∧
    ∀ i ∈ s.missing, i < s'.currentChunkIdx →
      i ∈ s.missing.take (min s.credits.toNat s.missing.length)

/-- In every state that a file being sent can reach, the pump returns and has sent exactly the
chunks it should. -/
theorem pumpSend_selects_exactly (hg : ¬g.Blocks id)
    (hs : m.activeTransfers id = some (.sending s)) (hreached : s.Reached sha256) :
    ∃ m', pumpSend sha256 g id m = .ok () m' ∧ SelectsExactly sha256 id s m m' := by
  have hloop := pumpLoop_eq sha256 id hreached.fits (Nat.le_refl _)
  refine ⟨_, pumpSend_of_sending hg hs hloop, ?_⟩
  refine ⟨fun i => SendingState.mem_missing, s.remaining_pairwise.filter _, ?_,
    s.afterPump, ?_, rfl, s.toNat_credits_afterPump, s.afterPump_stops, ?_⟩
  · rw [← s.pumped_eq_take_min, withSent_outbox, withEntry_outbox, List.map_map]
    rfl
  · rw [withSent_activeTransfers, withEntry_activeTransfers, Function.update_self]
  · intro i hi hlt
    rw [← s.pumped_eq_take_min]
    exact SendingState.mem_pumped_of_lt hi hlt

/-- A file of two chunks with credit for one. -/
def creditedState : SendingState :=
  { offered ⟨.v4 (Vector.replicate 4 127), 9000⟩ [1, 2] 1 with credits := 0 + 1 }

/-- The credited state is reached. -/
theorem reached_creditedState (sha256 : List UInt8 → Vector UInt8 32) :
    creditedState.Reached sha256 :=
  SendingState.Reached.granted (s := offered ⟨.v4 (Vector.replicate 4 127), 9000⟩ [1, 2] 1) 1
    (.offered _ (by decide) 1)

/-- A node that sends it. -/
def creditedSender : TransferManager :=
  (new ⟨"downloads"⟩).withEntry ⟨Vector.replicate 16 7⟩ (.sending creditedState)

/-- The transfer of the sender. -/
theorem creditedSender_entry : creditedSender.activeTransfers ⟨Vector.replicate 16 7⟩ =
    some (.sending creditedState) := by
  rw [creditedSender, withEntry_activeTransfers, Function.update_self]

/-- The first chunk is sent and the second one waits. -/
theorem pumpSend_selects_first :
    creditedState.missing.take (min creditedState.credits.toNat creditedState.missing.length) =
      [0] ∧
    ∃ m', pumpSend Sha256.digest .dashMap ⟨Vector.replicate 16 7⟩ creditedSender = .ok () m' ∧
      SelectsExactly Sha256.digest ⟨Vector.replicate 16 7⟩ creditedState creditedSender m' := by
  refine ⟨by decide +kernel, ?_⟩
  exact pumpSend_selects_exactly (Guards.not_dashMap_blocks _) creditedSender_entry
    (reached_creditedState _)

end CekyP2P.Transfer
