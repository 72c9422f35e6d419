import CekyP2P.Core.Reissue
import CekyP2P.Transfer.Isolation

/-!
# Chunks that are sent again

The bitmap and the cursor of a file being sent decide together which chunks go out. Only an
acknowledgement moves the cursor back, and its handler asks for a guard that it holds before it
pumps: in a run of the code the cursor never goes back, and no chunk is sent a second time. The
log of a transfer has its emissions and the rejections that arrived.
-/

namespace CekyP2P.Transfer

open Protocol TransferManager

/-! ## The log of a transfer -/

/-- The index that a message reports as received with a bad hash. -/
def rejections : Message → List UInt32
  | .fileChunkAck ack => if ack.status = .badHash then [ack.chunkIndex] else []
  | _ => []

/-- The chunks of a transfer among the frames handed to the channel. -/
def emissions (id : TransferId) (frames : List (SocketAddr × Payload)) : List UInt32 :=
  frames.filterMap fun frame => match frame.2 with
    | .fileChunk chunk => if chunk.transferId = id then some chunk.chunkIndex else none
    | _ => none

/-- What a call adds to the log. -/
def logged (id : TransferId) (msg : Message) (before after : TransferManager) :
    List (IssueEvent UInt32) :=
  (rejections msg).map .recalled ++
    (emissions id (after.outbox.drop before.outbox.length)).map .issued

section

variable (sha256 : List UInt8 → Vector UInt8 32) (id : TransferId)

/-- The managers that a file being sent goes through, with the log: it is offered, and then
answers of the receiver arrive in any order and with any contents. A call that does not return is
the last one; the flag says whether the last call has returned. -/
inductive Sends : Bool → TransferManager → List (IssueEvent UInt32) → Prop
  | offered {m m' : TransferManager} (peer : SocketAddr) (fileName : String) (file : List UInt8)
      (chunkSize : UInt32) (hsize : file.length < 2 ^ 64) (hm : Reachable sha256 m)
      (hoffer : offerFile sha256 .dashMap peer fileName (some file) id chunkSize m = .ok id m') :
      Sends true m' []
  | handled {m : TransferManager} {log : List (IssueEvent UInt32)} (msg : Message)
      (hfor : msg.ForSender) (hid : msg.transferId = id) (h : Sends true m log) :
      Sends (decide (Exec.Returned (handle sha256 .dashMap msg m)))
        (Exec.stateAfter (handle sha256 .dashMap msg m))
        (log ++ logged id msg m (Exec.stateAfter (handle sha256 .dashMap msg m)))

end

variable {sha256 : List UInt8 → Vector UInt8 32} {id : TransferId} {m : TransferManager}
  {log : List (IssueEvent UInt32)} {s : SendingState} {returned : Bool}

/-- The chunks of a pump are the emissions of its frames. -/
theorem emissions_chunkFrames (s : SendingState) (peer : SocketAddr) (indices : List UInt32) :
    emissions id ((indices.map (s.chunkFrame sha256 id)).map (peer, ·)) = indices := by
  rw [emissions, List.map_map, List.filterMap_map]
  refine (List.filterMap_congr fun i _ => ?_).trans List.filterMap_some
  simp [SendingState.chunkFrame]

/-! ## What one call adds -/

/-- The entry of a file that has just been offered. -/
theorem entry_of_offerFile {m' : TransferManager} {peer : SocketAddr} {fileName : String}
    {file : List UInt8} {chunkSize : UInt32}
    (hoffer : offerFile sha256 .dashMap peer fileName (some file) id chunkSize m = .ok id m') :
    m'.activeTransfers id = some (.sending (offered peer file chunkSize)) := by
  cases hnew : FileOffer.new id fileName (UInt64.ofNat file.length) chunkSize
      (calculateFileHash sha256 file chunkSize) with
  | error e =>
    rw [offerFile_of_error sha256 peer fileName chunkSize hnew] at hoffer
    cases hoffer
  | ok offer =>
    rw [offerFile_of_ok sha256 peer fileName chunkSize (Guards.not_dashMap_blocks id) hnew]
      at hoffer
    cases hoffer
    exact Function.update_self _ _ _

/-- An accept or a credit update adds the chunks that the pump sends. -/
theorem logged_of_heard (hm : m.SendsFit) {msg : Message} (hfor : msg.ForSender)
    (hack : ∀ ack, msg ≠ .fileChunkAck ack)
    (hs : m.activeTransfers msg.transferId = some (.sending s)) :
    logged msg.transferId msg m (Exec.stateAfter (handle sha256 .dashMap msg m)) =
        (rejections msg).map .recalled ++ (s.heard msg).2.map .issued ∧
      (Exec.stateAfter (handle sha256 .dashMap msg m)).activeTransfers msg.transferId =
        some (.sending (s.heard msg).1) := by
  rw [stateAfter_handle_of_sending sha256 hm Guards.not_dashMap_blocks hfor hs
    fun ack hmsg => absurd hmsg (hack ack)]
  constructor
  · rw [logged, withSent_outbox, withEntry_outbox, List.drop_left, emissions_chunkFrames]
  · exact Function.update_self _ _ _

/-- An acknowledgement marks its chunk, and then waits for the guard that it holds: it sends
nothing and does not return. -/
theorem logged_of_ack {msg : Message} {ack : FileChunkAck} (hack : msg = .fileChunkAck ack)
    (hs : m.activeTransfers msg.transferId = some (.sending s)) :
    ¬Exec.Returned (handle sha256 .dashMap msg m) ∧
      logged msg.transferId msg m (Exec.stateAfter (handle sha256 .dashMap msg m)) =
        (rejections msg).map .recalled := by
  subst hack
  have hblocks : (Guards.dashMap.take ack.transferId).Blocks ack.transferId :=
    List.mem_cons_self
  rw [handle, handleChunkAck_of_sending (Guards.not_dashMap_blocks _) hs, pumpSend,
    getMut_of_blocks hblocks]
  refine ⟨id, ?_⟩
  rw [logged, Exec.stateAfter, withEntry_outbox, List.drop_length]
  exact List.append_nil _

/-! ## Runs -/

/-- No chunk has been sent twice, and all that have been sent are behind the cursor. -/
structure SentOnce (log : List (IssueEvent UInt32)) (s : SendingState) : Prop where
  nodup : (issues log).Nodup
  behind : ∀ i ∈ issues log, i < s.currentChunkIdx

/-- The pump sends what is ahead of the cursor, and leaves it behind. -/
theorem SentOnce.afterPump (h : SentOnce log s) :
    SentOnce (log ++ s.pumped.map .issued) s.afterPump where
  nodup := by
    rw [issues_append, issues_map_issued]
    refine List.nodup_append.mpr ⟨h.nodup, s.pumped_nodup, ?_⟩
    rintro i hi _ hpumped rfl
    exact UInt32.not_lt.mpr (SendingState.mem_pumped hpumped).1 (h.behind i hi)
  behind := by
    intro i hi
    rw [issues_append, issues_map_issued] at hi
    rcases List.mem_append.mp hi with hold | hpumped
    · exact UInt32.lt_of_lt_of_le (h.behind i hold) s.le_stopIdx
    · exact SendingState.lt_stopIdx hpumped

/-- The step: an answer after which the cursor is not behind. -/
theorem SentOnce.heard (h : SentOnce log s) {msg : Message} (hfor : msg.ForSender)
    (hack : ∀ ack, msg ≠ .fileChunkAck ack) :
    SentOnce (log ++ ((rejections msg).map .recalled ++ (s.heard msg).2.map .issued))
      (s.heard msg).1 := by
  cases msg with
  | fileOffer peer offer disk => exact hfor.elim
  | fileChunk chunk => exact hfor.elim
  | fileAccept accept =>
    simp only [rejections, SendingState.heard, List.map_nil, List.append_nil]
    exact ⟨h.nodup, h.behind⟩
  | creditUpdate id credits =>
    have hcredited : SentOnce log { s with credits := s.credits + credits } :=
      ⟨h.nodup, h.behind⟩
    exact hcredited.afterPump
  | fileChunkAck ack => exact absurd rfl (hack ack)

/-- The run: as long as the calls return, the file is being sent with all its emissions behind the
cursor, and the call that does not return sends nothing. -/
theorem Sends.sentOnce (h : Sends sha256 id returned m log) :
    (issues log).Nodup ∧ (returned = true → m.SendsFit ∧
      ∃ s, m.activeTransfers id = some (.sending s) ∧ SentOnce log s) := by
  induction h with
  | offered peer fileName file chunkSize hsize hm hoffer =>
    refine ⟨List.nodup_nil, fun _ => ⟨?_, _, entry_of_offerFile hoffer, List.nodup_nil,
      List.forall_mem_nil _⟩⟩
    have hcontent : ∀ content ∈ some file, content.length < 2 ^ 64 := by
      rintro _ ⟨⟩
      exact hsize
    have hfits : (Exec.stateAfter (offerFile sha256 .dashMap peer fileName (some file) id chunkSize
        _)).SendsFit :=
      (Reachable.sendsFit hm).offerFile (Guards.not_dashMap_blocks id) peer fileName hcontent
        chunkSize
    rwa [hoffer] at hfits
  | @handled m log msg hfor hid _ ih =>
    obtain ⟨hfits, s, hs, honce⟩ := ih.2 rfl
    subst hid
    by_cases hack : ∃ ack, msg = .fileChunkAck ack
    · obtain ⟨ack, hack⟩ := hack
      have hblocked : ¬Exec.Returned (handle sha256 .dashMap msg m) := (logged_of_ack hack hs).1
      refine ⟨?_, fun hreturned => absurd (of_decide_eq_true hreturned) hblocked⟩
      rw [(logged_of_ack hack hs).2, issues_append, issues_map_recalled, List.append_nil]
      exact honce.nodup
    · have hack : ∀ ack, msg ≠ .fileChunkAck ack := fun ack hmsg => hack ⟨ack, hmsg⟩
      have hafter := honce.heard hfor hack
      rw [← (logged_of_heard hfits hfor hack hs).1] at hafter
      refine ⟨hafter.nodup, fun _ => ⟨?_, _, (logged_of_heard hfits hfor hack hs).2, hafter⟩⟩
      exact (hfits.handle Guards.not_dashMap_blocks msg
        fun ack hmsg => absurd hmsg (hack ack)).2

/-- In every run of a sending transfer no chunk is sent again unless it was rejected after it was
last sent; indeed none is sent twice. -/
theorem emissions_selective (h : Sends sha256 id returned m log) :
    Selective log ∧ (issues log).Nodup :=
  ⟨selective_of_nodup h.sentOnce.1, h.sentOnce.1⟩

/-- A node that has offered a file of two bytes in chunks of one byte. -/
def twoChunkSender : TransferManager :=
  Exec.stateAfter (offerFile Sha256.digest .dashMap ⟨.v4 (Vector.replicate 4 127), 9000⟩ "a"
    (some [1, 2]) ⟨Vector.replicate 16 7⟩ 1 (new ⟨"downloads"⟩))

/-- It is given credits for both chunks. -/
def bothSent : TransferManager :=
  Exec.stateAfter
    (handle Sha256.digest .dashMap (.creditUpdate ⟨Vector.replicate 16 7⟩ 50) twoChunkSender)

/-- The first chunk is rejected: the call does not return. -/
def rejected : TransferManager :=
  Exec.stateAfter (handle Sha256.digest .dashMap
    (.fileChunkAck ⟨⟨Vector.replicate 16 7⟩, 0, .badHash⟩) bothSent)

/-- The run of the two calls. -/
theorem sends_rejected : Sends Sha256.digest ⟨Vector.replicate 16 7⟩ false rejected
    [.issued 0, .issued 1, .recalled 0] := by
  have hoffered : Sends Sha256.digest ⟨Vector.replicate 16 7⟩ true twoChunkSender [] :=
    .offered ⟨.v4 (Vector.replicate 4 127), 9000⟩ "a" [1, 2] 1 (by decide) (.new ⟨"downloads"⟩) rfl
  have hsent : Sends Sha256.digest ⟨Vector.replicate 16 7⟩ true bothSent
      [.issued 0, .issued 1] := by
    have hlogged : logged ⟨Vector.replicate 16 7⟩ (.creditUpdate ⟨Vector.replicate 16 7⟩ 50)
        twoChunkSender bothSent = [.issued 0, .issued 1] := by decide +kernel
    have hreturned : Exec.Returned (handle Sha256.digest .dashMap
        (.creditUpdate ⟨Vector.replicate 16 7⟩ 50) twoChunkSender) := by decide +kernel
    have hrun := hoffered.handled (.creditUpdate ⟨Vector.replicate 16 7⟩ 50) trivial rfl
    rw [decide_eq_true hreturned] at hrun
    rw [← hlogged]
    exact hrun
  have hlogged : logged ⟨Vector.replicate 16 7⟩
      (.fileChunkAck ⟨⟨Vector.replicate 16 7⟩, 0, .badHash⟩) bothSent rejected =
        [.recalled 0] := by decide +kernel
  have hblocked : ¬Exec.Returned (handle Sha256.digest .dashMap
      (.fileChunkAck ⟨⟨Vector.replicate 16 7⟩, 0, .badHash⟩) bothSent) := by decide +kernel
  have hrun := hsent.handled (.fileChunkAck ⟨⟨Vector.replicate 16 7⟩, 0, .badHash⟩) trivial rfl
  rw [decide_eq_false hblocked] at hrun
  have happend : [IssueEvent.issued (0 : UInt32), .issued 1, .recalled 0] =
    [.issued 0, .issued 1] ++ [.recalled 0] := rfl
  rw [happend, ← hlogged]
  exact hrun

/-- Both chunks go out once, and the rejection is the last event. -/
theorem emissions_selective_rejected :
    Sends Sha256.digest ⟨Vector.replicate 16 7⟩ false rejected
        [.issued 0, .issued 1, .recalled 0] ∧
      Selective [IssueEvent.issued (0 : UInt32), .issued 1, .recalled 0] ∧
      (issues [IssueEvent.issued (0 : UInt32), .issued 1, .recalled 0]).Nodup :=
  ⟨sends_rejected, emissions_selective sends_rejected⟩

end CekyP2P.Transfer
