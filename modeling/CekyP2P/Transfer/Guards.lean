import CekyP2P.Core.Sha256
import CekyP2P.Transfer.Pump
import CekyP2P.Transfer.Tiling

/-!
# Handlers and the guards of the map

Every handler takes the guard of one entry at a time, except that an
acknowledgement calls the pump while it still holds the guard of its entry. In every
reachable state that is the only way in which a handler fails to return.
-/

namespace CekyP2P.Transfer

open Protocol TransferManager

/-! ## Reachable managers -/

/-- A message for a handler, with what the file system answers. -/
inductive Message
  | fileOffer (peer : SocketAddr) (offer : FileOffer) (disk : Option (List UInt8))
  | fileAccept (accept : FileAccept)
  | creditUpdate (id : TransferId) (credits : UInt32)
  | fileChunk (chunk : FileChunk)
  | fileChunkAck (ack : FileChunkAck)

/-- No call holds a guard when it begins. -/
theorem Guards.not_dashMap_blocks (id : TransferId) : ¬Guards.dashMap.Blocks id := by
  simp [Guards.Blocks]

namespace TransferManager

variable (sha256 : List UInt8 → Vector UInt8 32)

/-- The handler of a message. -/
def handle (g : Guards) : Message → ManagerM Unit
  | .fileOffer peer offer disk => handleOffer g peer offer disk
  | .fileAccept accept => handleAccept g accept
  | .creditUpdate id credits => handleCreditUpdate sha256 g id credits
  | .fileChunk chunk => handleChunk sha256 g chunk
  | .fileChunkAck ack => handleChunkAck sha256 g ack

/-- The managers that calls can lead to, for a map that hands out some guards; a call that does
not return leads nowhere. -/
inductive ReachableUnder (g : Guards) : TransferManager → Prop
  | new (downloadDir : PathBuf) : ReachableUnder g (.new downloadDir)
  | offerFile {m : TransferManager} (peer : SocketAddr) (fileName : String)
      (file : Option (List UInt8)) (randomId : TransferId) (chunkSize : UInt32)
      (hsize : ∀ content ∈ file, content.length < 2 ^ 64) : ReachableUnder g m →
      ReachableUnder g (Exec.stateAfter
        (offerFile sha256 g peer fileName file randomId chunkSize m))
  | handle {m : TransferManager} (msg : Message) : ReachableUnder g m →
      Exec.Returned (handle sha256 g msg m) →
      ReachableUnder g (Exec.stateAfter (handle sha256 g msg m))

/-- The managers that calls can lead to. -/
abbrev Reachable : TransferManager → Prop := ReachableUnder sha256 .dashMap

/-- Every file being sent has its chunks inside the map. -/
def SendsFit (m : TransferManager) : Prop :=
  ∀ id s, m.activeTransfers id = some (.sending s) → s.Fits

variable {sha256} {m : TransferManager}

/-- An entry that fits may be stored. -/
theorem SendsFit.withEntry (hm : m.SendsFit) {id : TransferId} {transfer : TransferState}
    (h : ∀ s, transfer = .sending s → s.Fits) : (m.withEntry id transfer).SendsFit := by
  intro id' s hs
  by_cases hid : id' = id
  · subst hid
    exact h s (by simpa using hs)
  · exact hm id' s (by simpa [Function.update_of_ne hid] using hs)

/-- A sending state that fits may be stored. -/
theorem SendsFit.withSending (hm : m.SendsFit) (id : TransferId) {s : SendingState} (hs : s.Fits) :
    (m.withEntry id (.sending s)).SendsFit := by
  refine hm.withEntry ?_
  rintro _ ⟨⟩
  exact hs

/-- An entry may be removed. -/
theorem SendsFit.without (hm : m.SendsFit) (id : TransferId) : (m.without id).SendsFit := by
  intro id' s hs
  by_cases hid : id' = id
  · subst hid
    simp at hs
  · exact hm id' s (by simpa [Function.update_of_ne hid] using hs)

/-- If nothing is locked, pumping returns and keeps the bound. -/
theorem SendsFit.pumpSend (hm : m.SendsFit) (sha256 : List UInt8 → Vector UInt8 32) {g : Guards}
    {id : TransferId} (hg : ¬g.Blocks id) :
    ∃ m', TransferManager.pumpSend sha256 g id m = .ok () m' ∧ m'.SendsFit := by
  by_cases hsending : m.IsSending id
  · obtain ⟨s, hs⟩ := hsending
    have hafter : s.afterPump.Fits := hm id s hs
    exact ⟨_, pumpSend_of_sending hg hs (pumpLoop_eq sha256 id (hm id s hs) (Nat.le_refl _)),
      hm.withSending id hafter⟩
  · exact ⟨m, pumpSend_of_not_sending hg hsending, hm⟩

/-- An acknowledgement keeps the bound. -/
theorem acknowledged_fits {s : SendingState} (hs : s.Fits) (ack : FileChunkAck) :
    (acknowledged s ack).Fits := by
  rw [acknowledged]
  split
  · exact hs
  · exact hs

/-- A chunk is answered, whatever it holds. -/
theorem SendsFit.handleChunk (hm : m.SendsFit) {g : Guards} {chunk : FileChunk}
    (hg : ¬g.Blocks chunk.transferId) :
    Exec.Returned (TransferManager.handleChunk sha256 g chunk m) ∧
      (Exec.stateAfter (TransferManager.handleChunk sha256 g chunk m)).SendsFit := by
  obtain ⟨hreturned, houtcome⟩ := handleChunk_outcome sha256 hg m
  refine ⟨hreturned, ?_⟩
  generalize Exec.stateAfter (TransferManager.handleChunk sha256 g chunk m) = m' at houtcome ⊢
  cases houtcome with
  | ignored | badHash | outOfRange => exact hm
  | stored => exact hm.withEntry nofun
  | @completed s =>
    have hstored : (m.stored chunk s).SendsFit := hm.withEntry nofun
    exact SendsFit.without hstored chunk.transferId

/-- A handler returns unless it asks for a guard it holds, and keeps the files fitting. -/
theorem SendsFit.handle (hm : m.SendsFit) {g : Guards} (hg : ∀ id, ¬g.Blocks id) (msg : Message)
    (hack : ∀ ack, msg = .fileChunkAck ack → m.IsSending ack.transferId →
      ¬(g.take ack.transferId).Blocks ack.transferId) :
    Exec.Returned (TransferManager.handle sha256 g msg m) ∧
      (Exec.stateAfter (TransferManager.handle sha256 g msg m)).SendsFit := by
  cases msg with
  | fileOffer peer offer disk =>
    cases disk with
    | none =>
      rw [TransferManager.handle, handleOffer_of_none]
      exact ⟨trivial, hm⟩
    | some content =>
      rw [TransferManager.handle, handleOffer_of_some (hg _)]
      exact ⟨trivial, hm.withEntry nofun⟩
  | fileAccept accept =>
    by_cases hsending : m.IsSending accept.transferId
    · obtain ⟨s, hs⟩ := hsending
      rw [TransferManager.handle, handleAccept_of_sending (hg _) hs]
      exact ⟨trivial, hm.withSending _ (hm _ s hs)⟩
    · rw [TransferManager.handle, handleAccept_of_not_sending (hg _) hsending]
      exact ⟨trivial, hm⟩
  | creditUpdate id credits =>
    by_cases hsending : m.IsSending id
    · obtain ⟨s, hs⟩ := hsending
      rw [TransferManager.handle, handleCreditUpdate_of_sending (hg _) hs]
      have hadded : (m.withEntry id
          (.sending { s with credits := s.credits + credits })).SendsFit :=
        hm.withSending id (hm id s hs)
      obtain ⟨m', hpump, hm'⟩ := hadded.pumpSend sha256 (hg id)
      rw [hpump]
      exact ⟨trivial, hm'⟩
    · rw [TransferManager.handle, handleCreditUpdate_of_not_sending (hg _) hsending]
      exact ⟨trivial, hm⟩
  | fileChunk chunk => exact hm.handleChunk (hg _)
  | fileChunkAck ack =>
    by_cases hsending : m.IsSending ack.transferId
    · have hfree := hack ack rfl hsending
      obtain ⟨s, hs⟩ := hsending
      rw [TransferManager.handle, handleChunkAck_of_sending (hg _) hs]
      have hmarked : (m.withEntry ack.transferId (.sending (acknowledged s ack))).SendsFit :=
        hm.withSending _ (acknowledged_fits (hm _ s hs) ack)
      obtain ⟨m', hpump, hm'⟩ := hmarked.pumpSend sha256 hfree
      rw [hpump]
      exact ⟨trivial, hm'⟩
    · rw [TransferManager.handle, handleChunkAck_of_not_sending (hg _) hsending]
      exact ⟨trivial, hm⟩

/-- A new manager sends nothing. -/
theorem sendsFit_new (downloadDir : PathBuf) : (new downloadDir).SendsFit := nofun

/-- A freshly offered file has its chunks inside the map. -/
theorem offered_fits {file : List UInt8} (hsize : file.length < 2 ^ 64) (peer : SocketAddr)
    (chunkSize : UInt32) : (offered peer file chunkSize).Fits := by
  intro i hi
  have hlt : chunkStart i chunkSize < _ := chunkStart_lt hi
  rw [UInt64.toNat_ofNat', Nat.mod_eq_of_lt hsize] at hlt
  exact hlt.le

/-- An offer keeps the bound, as files have less than `2 ^ 64` bytes. -/
theorem SendsFit.offerFile (hm : m.SendsFit) {g : Guards} {randomId : TransferId}
    (hg : ¬g.Blocks randomId) (peer : SocketAddr) (fileName : String)
    {file : Option (List UInt8)} (hsize : ∀ content ∈ file, content.length < 2 ^ 64)
    (chunkSize : UInt32) :
    (Exec.stateAfter (TransferManager.offerFile sha256 g peer fileName file randomId chunkSize
      m)).SendsFit := by
  rcases offerFile_cases sha256 peer fileName chunkSize hg m file with
    hsame | ⟨content, offer, rfl, hafter⟩
  · rw [hsame]
    exact hm
  · rw [hafter]
    exact hm.withSending randomId (offered_fits (hsize content rfl) peer chunkSize)

/-- An acknowledgement for a file that is being sent asks for the guard it holds. -/
theorem handleChunkAck_blocked (sha256 : List UInt8 → Vector UInt8 32) {ack : FileChunkAck}
    (h : m.IsSending ack.transferId) :
    ∃ m', handleChunkAck sha256 .dashMap ack m = .error .blocked m' := by
  obtain ⟨s, hs⟩ := h
  rw [handleChunkAck_of_sending (Guards.not_dashMap_blocks _) hs]
  exact ⟨_, getMut_of_blocks (by simp [Guards.take, Guards.Blocks])⟩

/-- An acknowledgement that returns was not kept from pumping by its own guard. -/
theorem not_blocks_of_returned {g : Guards} (hg : ∀ id, ¬g.Blocks id) {ack : FileChunkAck}
    (hreturned : Exec.Returned (TransferManager.handle sha256 g (.fileChunkAck ack) m))
    (hsending : m.IsSending ack.transferId) :
    ¬(g.take ack.transferId).Blocks ack.transferId := by
  intro hblocks
  obtain ⟨s, hs⟩ := hsending
  rw [TransferManager.handle, handleChunkAck_of_sending (hg _) hs,
    TransferManager.pumpSend, getMut_of_blocks hblocks] at hreturned
  exact hreturned

/-- The bound holds along every run in which nothing is locked. -/
theorem ReachableUnder.sendsFit {g : Guards} (h : ReachableUnder sha256 g m)
    (hg : ∀ id, ¬g.Blocks id) : m.SendsFit := by
  induction h with
  | new downloadDir => exact sendsFit_new downloadDir
  | offerFile peer fileName file randomId chunkSize hsize _ ih =>
    exact ih.offerFile (hg randomId) peer fileName hsize chunkSize
  | handle msg _ hreturned ih =>
    refine (ih.handle hg msg fun ack hmsg hsending => ?_).2
    subst hmsg
    exact not_blocks_of_returned hg hreturned hsending

/-- The bound holds along every run. -/
theorem Reachable.sendsFit (h : Reachable sha256 m) : m.SendsFit :=
  ReachableUnder.sendsFit h Guards.not_dashMap_blocks

/-- In every reachable state a handler returns exactly when its message is not an
acknowledgement for a file that is being sent. -/
theorem handle_returns_iff (h : Reachable sha256 m) (msg : Message) :
    Exec.Returned (handle sha256 .dashMap msg m) ↔
      ∀ ack, msg = .fileChunkAck ack → ¬m.IsSending ack.transferId := by
  constructor
  · rintro hreturned ack rfl hsending
    obtain ⟨m', hblocked⟩ := handleChunkAck_blocked sha256 hsending
    rw [handle, hblocked] at hreturned
    exact hreturned
  · intro hsafe
    exact (h.sendsFit.handle Guards.not_dashMap_blocks msg
      fun ack hmsg hsending => absurd hsending (hsafe ack hmsg)).1

/-- A node that has offered a file of one byte. -/
def sampleSender : TransferManager :=
  Exec.stateAfter (offerFile Sha256.digest .dashMap ⟨.v4 (Vector.replicate 4 127), 9000⟩ "a"
    (some [1]) ⟨Vector.replicate 16 7⟩ 1 (new ⟨"downloads"⟩))

/-- A manager that has offered a file. -/
theorem reachable_sampleSender : Reachable Sha256.digest sampleSender :=
  .offerFile _ _ _ _ _ (by simp) (.new _)

/-- The file of the offer is being sent. -/
theorem isSending_sampleSender : sampleSender.IsSending ⟨Vector.replicate 16 7⟩ :=
  ⟨offered ⟨.v4 (Vector.replicate 4 127), 9000⟩ [1] 1, rfl⟩

/-- The credit update that follows is handled. -/
theorem handle_returns_iff_creditUpdate :
    Reachable Sha256.digest sampleSender ∧ Exec.Returned
      (handle Sha256.digest .dashMap (.creditUpdate ⟨Vector.replicate 16 7⟩ 50) sampleSender) :=
  ⟨reachable_sampleSender, (handle_returns_iff reachable_sampleSender _).mpr nofun⟩

/-- The first acknowledgement of a chunk never returns. -/
theorem chunk_ack_blocks_sender :
    Reachable Sha256.digest sampleSender ∧ ¬Exec.Returned
      (handle Sha256.digest .dashMap (.fileChunkAck ⟨⟨Vector.replicate 16 7⟩, 0, .ok⟩)
        sampleSender) := by
  refine ⟨reachable_sampleSender, fun hreturned => ?_⟩
  have hblocks : ∃ m', handleChunkAck Sha256.digest .dashMap ⟨⟨Vector.replicate 16 7⟩, 0, .ok⟩
      sampleSender = .error .blocked m' :=
    handleChunkAck_blocked Sha256.digest isSending_sampleSender
  obtain ⟨m', hblocked⟩ := hblocks
  rw [handle, hblocked] at hreturned
  exact hreturned

end TransferManager

end CekyP2P.Transfer
