import CekyP2P.Transfer.Guards

/-!
# Arithmetic on what peers send

The operations that a handler performs are listed with their operands, as the code
computes them: products and sums in 32 bits wrap, and what was wrapped is used further.
-/

namespace CekyP2P.Transfer

open Protocol TransferManager

/-- An operation on machine integers, or a range used to slice the file map. -/
inductive Operation
  | add (a b : UInt32)
  | sub (a b : UInt32)
  | mul (a b : UInt32)
  | addUsize (a b : Nat)
  | slice (start stop length : Nat)
  deriving DecidableEq

/-- The result is a value of the machine type, or the range lies in the map. -/
def Operation.InRange : Operation → Prop
  | .add a b => a.toNat + b.toNat < 2 ^ 32
  | .sub a b => b.toNat ≤ a.toNat
  | .mul a b => a.toNat * b.toNat < 2 ^ 32
  | .addUsize a b => a + b < 2 ^ 64
  | .slice start stop length => start ≤ stop ∧ stop ≤ length

section

variable (sha256 : List UInt8 → Vector UInt8 32) (id : TransferId)

/-- One iteration of the pump loop. -/
def pumpStepOperations (s : SendingState) : List Operation :=
  if bitmapIsMissing s.bitfield s.currentChunkIdx then
    let start := chunkStart s.currentChunkIdx s.chunkSize
    [.mul s.currentChunkIdx s.chunkSize, .addUsize start s.chunkSize.toNat,
      .slice start (chunkEnd s.fileMap.length s.currentChunkIdx s.chunkSize) s.fileMap.length,
      .sub s.credits 1, .add s.currentChunkIdx 1]
  else [.add s.currentChunkIdx 1]

/-- The operations of a loop. -/
def pumpOperations : Nat → SendingState → List Operation
  | 0, _ => []
  | fuel + 1, s =>
    if 0 < s.credits ∧ s.currentChunkIdx < s.totalChunks then
      pumpStepOperations s ++
        match pumpStep sha256 id s with
        | some (s', _) => pumpOperations fuel s'
        | none => []
    else []

/-- The pump runs once for each remaining chunk at most. -/
def pumpSendOperations (s : SendingState) : List Operation :=
  pumpOperations sha256 id (s.totalChunks.toNat - s.currentChunkIdx.toNat) s

/-- The operations of a credit update. -/
def creditOperations (credits : UInt32) : Option TransferState → List Operation
  | some (.sending s) =>
    .add s.credits credits ::
      pumpSendOperations sha256 id { s with credits := s.credits + credits }
  | _ => []

/-- The operations of a chunk that arrives. -/
def chunkOperations (chunk : FileChunk) : Option TransferState → List Operation
  | some (.receiving s) =>
    if hashChunk sha256 chunk.data ≠ chunk.chunkHash then []
    else
      let start := chunkStart chunk.chunkIndex s.chunkSize
      let stop := start + chunk.data.length
      [.mul chunk.chunkIndex s.chunkSize, .addUsize start chunk.data.length] ++
        if stop ≤ s.fileMap.length then
          [.slice start stop s.fileMap.length, .add s.receivedChunks 1]
        else []
  | _ => []

/-- The pump does not run where it would wait for the guard of the entry. -/
def ackOperations (g : Guards) (ack : FileChunkAck) : Option TransferState → List Operation
  | some (.sending s) =>
    if (g.take ack.transferId).Blocks ack.transferId then []
    else pumpSendOperations sha256 ack.transferId (acknowledged s ack)
  | _ => []

/-- The operations of a handler, in their order. -/
def operations (g : Guards) (m : TransferManager) : Message → List Operation
  | .fileOffer _ _ _ => []
  | .fileAccept _ => []
  | .creditUpdate id credits => creditOperations sha256 id credits (m.activeTransfers id)
  | .fileChunk chunk => chunkOperations sha256 chunk (m.activeTransfers chunk.transferId)
  | .fileChunkAck ack => ackOperations sha256 g ack (m.activeTransfers ack.transferId)

end

/-! ## When they stay in range -/

/-- The offsets of the chunks that the pump will send fit in 32 bits. -/
def SendingState.OffsetsInRange (s : SendingState) : Prop :=
  ∀ i ∈ s.pumped, i.toNat * s.chunkSize.toNat < 2 ^ 32

/-- What has to hold of a message and the transfer it names. -/
def Bounded (sha256 : List UInt8 → Vector UInt8 32) (g : Guards) (m : TransferManager) :
    Message → Prop
  | .fileOffer _ _ _ => True
  | .fileAccept _ => True
  | .creditUpdate id credits => ∀ s, m.activeTransfers id = some (.sending s) →
      s.credits.toNat + credits.toNat < 2 ^ 32 ∧
        SendingState.OffsetsInRange { s with credits := s.credits + credits }
  | .fileChunk chunk => ∀ s, m.activeTransfers chunk.transferId = some (.receiving s) →
      hashChunk sha256 chunk.data = chunk.chunkHash →
        chunk.chunkIndex.toNat * s.chunkSize.toNat < 2 ^ 32 ∧
          (chunk.chunkIndex.toNat * s.chunkSize.toNat + chunk.data.length ≤ s.fileMap.length →
            s.receivedChunks.toNat + 1 < 2 ^ 32)
  | .fileChunkAck ack => ∀ s, m.activeTransfers ack.transferId = some (.sending s) →
      ¬(g.take ack.transferId).Blocks ack.transferId → (acknowledged s ack).OffsetsInRange

/-- An iteration for a chunk to send stays in range if its offset does. -/
theorem pumpStepOperations_of_sent {s : SendingState} (hfits : s.Fits) (hcredits : 0 < s.credits)
    (hlt : s.currentChunkIdx < s.totalChunks)
    (hmissing : bitmapIsMissing s.bitfield s.currentChunkIdx = true) :
    (∀ op ∈ pumpStepOperations s, op.InRange) ↔
      s.currentChunkIdx.toNat * s.chunkSize.toNat < 2 ^ 32 := by
  have hcursor := UInt32.lt_iff_toNat_lt.mp hlt
  have htotal := s.totalChunks.toNat_lt
  have hsize := s.chunkSize.toNat_lt
  have hstart : chunkStart s.currentChunkIdx s.chunkSize < 2 ^ 32 := UInt32.toNat_lt _
  have hinside := hfits s.currentChunkIdx hlt
  have hpos : 0 < s.credits.toNat := UInt32.lt_iff_toNat_lt.mp hcredits
  rw [pumpStepOperations, if_pos hmissing]
  simp only [List.forall_mem_cons, Operation.InRange, UInt32.toNat_one, chunkEnd]
  constructor
  · exact fun h => h.1
  · intro h
    exact ⟨h, by omega, by omega, by omega, by omega, List.forall_mem_nil _⟩

/-- Skipping a chunk that is not missing stays in range. -/
theorem pumpStepOperations_of_skipped {s : SendingState}
    (hlt : s.currentChunkIdx < s.totalChunks)
    (hmissing : bitmapIsMissing s.bitfield s.currentChunkIdx = false) :
    ∀ op ∈ pumpStepOperations s, op.InRange := by
  have hcursor := UInt32.lt_iff_toNat_lt.mp hlt
  have htotal := s.totalChunks.toNat_lt
  rw [pumpStepOperations, hmissing]
  simp only [Bool.false_eq_true, if_false, List.forall_mem_singleton, Operation.InRange,
    UInt32.toNat_one]
  omega

section

variable (sha256 : List UInt8 → Vector UInt8 32) (id : TransferId)

/-- The pump stays in range if the offsets of the chunks it sends do. -/
theorem pumpOperations_inRange_iff {s : SendingState} (hfits : s.Fits) {fuel : Nat}
    (hfuel : s.totalChunks.toNat - s.currentChunkIdx.toNat ≤ fuel) :
    (∀ op ∈ pumpOperations sha256 id fuel s, op.InRange) ↔ s.OffsetsInRange := by
  have hstop : ∀ s : SendingState, ¬(0 < s.credits ∧ s.currentChunkIdx < s.totalChunks) →
      s.OffsetsInRange := by
    intro s hrun
    rw [SendingState.OffsetsInRange, (SendingState.pumped_of_not_run hrun).1]
    exact List.forall_mem_nil _
  induction fuel generalizing s with
  | zero =>
    refine iff_of_true (List.forall_mem_nil _) (hstop s ?_)
    rw [UInt32.lt_iff_toNat_lt (a := s.currentChunkIdx)]
    omega
  | succ fuel ih =>
    by_cases hrun : 0 < s.credits ∧ s.currentChunkIdx < s.totalChunks
    · have hsucc := toNat_succ_of_lt hrun.2
      have hle : chunkStart s.currentChunkIdx s.chunkSize ≤
          chunkEnd s.fileMap.length s.currentChunkIdx s.chunkSize := by
        have := hfits s.currentChunkIdx hrun.2
        rw [chunkEnd]
        omega
      rw [pumpOperations, if_pos hrun, List.forall_mem_append]
      cases hmissing : bitmapIsMissing s.bitfield s.currentChunkIdx with
      | true =>
        have hnext : SendingState.Fits { s with
          credits := s.credits - 1, currentChunkIdx := s.currentChunkIdx + 1 } := hfits
        have hrest := ih hnext (by simp only [hsucc]; omega)
        simp only [pumpStep, hmissing, if_true, hle]
        refine (and_congr (pumpStepOperations_of_sent hfits hrun.1 hrun.2 hmissing) hrest).trans ?_
        rw [SendingState.OffsetsInRange, SendingState.OffsetsInRange,
          (SendingState.afterPump_of_sent hrun.2 hrun.1 hmissing).1, List.forall_mem_cons]
      | false =>
        have hnext : SendingState.Fits { s with currentChunkIdx := s.currentChunkIdx + 1 } := hfits
        have hrest := ih hnext (by simp only [hsucc]; omega)
        simp only [pumpStep, hmissing, Bool.false_eq_true, if_false]
        refine (and_iff_right (pumpStepOperations_of_skipped hrun.2 hmissing)).trans
          (hrest.trans ?_)
        rw [SendingState.OffsetsInRange, SendingState.OffsetsInRange,
          (SendingState.afterPump_of_skipped hrun.2 hrun.1 hmissing).1]
    · rw [pumpOperations, if_neg hrun]
      exact iff_of_true (List.forall_mem_nil _) (hstop s hrun)

/-- When the operations of a chunk with the right hash stay in range. -/
theorem chunkOperations_inRange_iff {chunk : FileChunk} (hdata : chunk.data.length < 2 ^ 63)
    {s : ReceivingState} (hhash : hashChunk sha256 chunk.data = chunk.chunkHash) :
    (∀ op ∈ chunkOperations sha256 chunk (some (.receiving s)), op.InRange) ↔
      chunk.chunkIndex.toNat * s.chunkSize.toNat < 2 ^ 32 ∧
        (chunk.chunkIndex.toNat * s.chunkSize.toNat + chunk.data.length ≤ s.fileMap.length →
          s.receivedChunks.toNat + 1 < 2 ^ 32) := by
  have hstart : chunkStart chunk.chunkIndex s.chunkSize < 2 ^ 32 := UInt32.toNat_lt _
  simp only [chunkOperations, hhash, ne_eq, not_true_eq_false, if_false]
  rw [List.forall_mem_append, List.forall_mem_cons, List.forall_mem_singleton]
  by_cases hmul : chunk.chunkIndex.toNat * s.chunkSize.toNat < 2 ^ 32
  · rw [chunkStart_of_lt hmul] at hstart ⊢
    split
    case isTrue hrange =>
      simp only [List.forall_mem_cons, Operation.InRange, UInt32.toNat_one, hmul, hrange,
        true_and, true_implies]
      constructor
      · exact fun h => h.2.2.1
      · intro h
        exact ⟨by omega, ⟨by omega, trivial⟩, h, nofun⟩
    case isFalse hrange =>
      simp only [Operation.InRange, hmul, hrange, false_implies, and_true, true_and]
      exact iff_of_true ⟨by omega, nofun⟩ trivial
  · exact iff_of_false (fun h => hmul h.1.1) (fun h => hmul h.1)

end

/-- In every reachable state, the operations of a handler stay in range exactly when the
message and the transfer it names are bounded. -/
theorem operations_inRange_iff (sha256 : List UInt8 → Vector UInt8 32) {g : Guards}
    (hg : ∀ id, ¬g.Blocks id) {m : TransferManager} (h : ReachableUnder sha256 g m)
    (msg : Message) (hdata : ∀ chunk, msg = .fileChunk chunk → chunk.data.length < 2 ^ 63) :
    (∀ op ∈ operations sha256 g m msg, op.InRange) ↔ Bounded sha256 g m msg := by
  have hfits := h.sendsFit hg
  cases msg with
  | fileOffer peer offer disk => exact iff_of_true nofun trivial
  | fileAccept accept => exact iff_of_true nofun trivial
  | creditUpdate id credits =>
    cases hentry : m.activeTransfers id with
    | none => simp [operations, creditOperations, Bounded, hentry]
    | some transfer =>
      cases transfer with
      | receiving s => simp [operations, creditOperations, Bounded, hentry]
      | sending s =>
        have hadded : SendingState.Fits { s with credits := s.credits + credits } :=
          hfits id s hentry
        have hpump := pumpOperations_inRange_iff sha256 id hadded (Nat.le_refl _)
        simp only [operations, hentry, creditOperations, List.forall_mem_cons, Bounded,
          Operation.InRange, Option.some.injEq, TransferState.sending.injEq, forall_eq']
        exact and_congr_right fun _ => hpump
  | fileChunk chunk =>
    cases hentry : m.activeTransfers chunk.transferId with
    | none => simp [operations, chunkOperations, Bounded, hentry]
    | some transfer =>
      cases transfer with
      | sending s => simp [operations, chunkOperations, Bounded, hentry]
      | receiving s =>
        simp only [operations, hentry, Bounded, Option.some.injEq,
          TransferState.receiving.injEq, forall_eq']
        by_cases hhash : hashChunk sha256 chunk.data = chunk.chunkHash
        · rw [chunkOperations_inRange_iff sha256 (hdata chunk rfl) hhash]
          exact (imp_iff_right hhash).symm
        · simp [chunkOperations, hhash]
  | fileChunkAck ack =>
    cases hentry : m.activeTransfers ack.transferId with
    | none => simp [operations, ackOperations, Bounded, hentry]
    | some transfer =>
      cases transfer with
      | receiving s => simp [operations, ackOperations, Bounded, hentry]
      | sending s =>
        have hmarked : (acknowledged s ack).Fits := acknowledged_fits (hfits _ s hentry) ack
        have hpump := pumpOperations_inRange_iff sha256 ack.transferId hmarked (Nat.le_refl _)
        simp only [operations, hentry, ackOperations, Bounded, Option.some.injEq,
          TransferState.sending.injEq, forall_eq']
        by_cases hblocks : (g.take ack.transferId).Blocks ack.transferId
        · simp [hblocks]
        · rw [if_neg hblocks]
          exact hpump.trans (imp_iff_right hblocks).symm

/-- The first credits for a file of one byte. -/
theorem operations_inRange_creditUpdate :
    ReachableUnder Sha256.digest .dashMap sampleSender ∧
      ∀ op ∈ operations Sha256.digest .dashMap sampleSender
        (.creditUpdate ⟨Vector.replicate 16 7⟩ 50), op.InRange := by
  refine ⟨reachable_sampleSender, (operations_inRange_iff Sha256.digest
    Guards.not_dashMap_blocks reachable_sampleSender _ (by simp)).mpr ?_⟩
  intro s hs
  have hoffered : sampleSender.activeTransfers ⟨Vector.replicate 16 7⟩ =
      some (.sending (offered ⟨.v4 (Vector.replicate 4 127), 9000⟩ [1] 1)) := rfl
  cases hoffered.symm.trans hs
  refine ⟨by decide, fun i hi => ?_⟩
  have hpumped : SendingState.pumped { offered ⟨.v4 (Vector.replicate 4 127), 9000⟩ [1] 1 with
      credits := 0 + 50 } = [0] := by decide
  have hfirst : i ∈ [(0 : UInt32)] := hpumped ▸ hi
  rw [List.mem_singleton.mp hfirst]
  decide

/-- A sender that was given all the credits that a message can carry. -/
def saturatedSender : TransferManager :=
  Exec.stateAfter (handle Sha256.digest .dashMap
    (.creditUpdate ⟨Vector.replicate 16 7⟩ 4294967295) sampleSender)

/-- A node that has accepted an offer of one byte in chunks of 64 KiB. -/
def sampleReceiver : TransferManager :=
  Exec.stateAfter (handle Sha256.digest .dashMap (.fileOffer ⟨.v4 (Vector.replicate 4 127), 9000⟩
    ⟨⟨Vector.replicate 16 7⟩, "a", 1, 65536, 1, Vector.replicate 32 0⟩ (some []))
    (new ⟨"downloads"⟩))

/-- A second grant overflows the credits, and an empty chunk with the index 65536 overflows
the offset. -/
theorem peer_messages_overflow :
    (ReachableUnder Sha256.digest .dashMap saturatedSender ∧
      ∃ op ∈ operations Sha256.digest .dashMap saturatedSender
        (.creditUpdate ⟨Vector.replicate 16 7⟩ 4294967295), ¬op.InRange) ∧
    ReachableUnder Sha256.digest .dashMap sampleReceiver ∧
      ∃ op ∈ operations Sha256.digest .dashMap sampleReceiver
        (.fileChunk ⟨⟨Vector.replicate 16 7⟩, 65536, Sha256.digest [], []⟩), ¬op.InRange := by
  have hsaturated : ReachableUnder Sha256.digest .dashMap saturatedSender :=
    .handle _ reachable_sampleSender
      (reachable_sampleSender.sendsFit.handle Guards.not_dashMap_blocks _ (by simp)).1
  have hreceiver : ReachableUnder Sha256.digest .dashMap sampleReceiver :=
    .handle _ (.new _) trivial
  refine ⟨⟨hsaturated, .add 4294967294 4294967295, ?_, ?_⟩, hreceiver, .mul 65536 65536, ?_, ?_⟩
  · decide +kernel
  · simp [Operation.InRange]
  · decide +kernel
  · simp [Operation.InRange]

end CekyP2P.Transfer
