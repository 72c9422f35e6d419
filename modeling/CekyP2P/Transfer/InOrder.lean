import CekyP2P.Transfer.Ledger

/-!
# Replies that come in order

A receiver answers an offer with its acceptance and the first credits, and every chunk with an
acknowledgement first. The sender takes the guard of the map for a message, and for an
acknowledgement it keeps it while it pumps. Where that blocks, nothing beyond the first credits is
ever handled, and only what they pay for is sent.
-/

namespace CekyP2P.Transfer

open Protocol TransferManager

variable {sha256 : List UInt8 → Vector UInt8 32} {g : Guards} {m : TransferManager}

/-! ## Guards that are not in the way -/

namespace TransferManager

/-- Locks that do not block an access make no difference to it. -/
theorem getMut_eq_plain {α : Type} {id : TransferId} (hg : ¬g.Blocks id)
    (found : TransferState → ManagerM α) (missing : ManagerM α) :
    getMut g id (fun _ => found) missing = getMut .plain id (fun _ => found) missing := by
  funext m
  rw [getMut, getMut, Exec.get_bind_apply, Exec.get_bind_apply, if_neg hg,
    if_neg Guards.not_plain_blocks]

/-- Locks that do not block it make no difference to pumping. -/
theorem pumpSend_eq_plain {id : TransferId} (hg : ¬g.Blocks id) :
    pumpSend sha256 g id = pumpSend sha256 .plain id := getMut_eq_plain hg _ _

/-- Locks that do not block it make no difference to an offer. -/
theorem handleOffer_eq_plain {offer : FileOffer} (hg : ¬g.Blocks offer.transferId)
    (peer : SocketAddr) (disk : Option (List UInt8)) :
    handleOffer g peer offer disk m = handleOffer .plain peer offer disk m := by
  cases disk with
  | none => rw [handleOffer_of_none, handleOffer_of_none]
  | some content => rw [handleOffer_of_some hg, handleOffer_of_some Guards.not_plain_blocks]

/-- Locks that do not block it make no difference to credits. -/
theorem handleCreditUpdate_eq_plain {id : TransferId} (hg : ¬g.Blocks id) (credits : UInt32) :
    handleCreditUpdate sha256 g id credits = handleCreditUpdate sha256 .plain id credits := by
  rw [handleCreditUpdate, handleCreditUpdate, getMut_eq_plain hg, pumpSend_eq_plain hg]

/-- Locks that do not block it make no difference to flushing. -/
theorem syncMap_eq_plain {id : TransferId} (hg : ¬g.Blocks id) :
    syncMap g id = syncMap .plain id := getMut_eq_plain hg _ _

/-- Locks that do not block it make no difference to a chunk. -/
theorem handleChunk_eq_plain {chunk : FileChunk} (hg : ¬g.Blocks chunk.transferId) :
    handleChunk sha256 g chunk = handleChunk sha256 .plain chunk := by
  have hremove : remove g chunk.transferId = remove .plain chunk.transferId := by
    rw [remove, remove, if_neg hg, if_neg Guards.not_plain_blocks]
  rw [handleChunk, handleChunk, getMut_eq_plain hg, syncMap_eq_plain hg, hremove]

/-- What a node does with a frame does not depend on the guards, if they block neither the frame nor
the pump of an acknowledgement. -/
theorem dispatch_eq_plain (hg : ∀ id, ¬g.Blocks id) {frame : Payload}
    (hack : ∀ ack, frame = .fileChunkAck ack → m.IsSending ack.transferId →
      ¬(g.take ack.transferId).Blocks ack.transferId) (peer : SocketAddr)
    (disk : Option (List UInt8)) :
    dispatch sha256 g peer disk frame m = dispatch sha256 .plain peer disk frame m := by
  cases frame with
  | fileOffer offer => exact handleOffer_eq_plain (hg _) peer disk
  | fileAccept accept =>
    exact congrFun (getMut_eq_plain (hg accept.transferId) _ _) m
  | creditUpdate id credits =>
    exact congrFun (handleCreditUpdate_eq_plain (hg id) credits) m
  | fileChunk chunk => exact congrFun (handleChunk_eq_plain (hg _)) m
  | fileChunkAck ack =>
    rw [dispatch, dispatch]
    by_cases hsending : m.IsSending ack.transferId
    · have hfree := hack ack rfl hsending
      obtain ⟨s, hs⟩ := hsending
      rw [handleChunkAck_of_sending (hg _) hs,
        handleChunkAck_of_sending Guards.not_plain_blocks hs, pumpSend_eq_plain hfree]
      rfl
    · rw [handleChunkAck_of_not_sending (hg _) hsending,
        handleChunkAck_of_not_sending Guards.not_plain_blocks hsending]
  | fileComplete complete => rfl

end TransferManager

namespace Exchange

variable {E : Exchange}

/-- `offer_file` does not depend on the guards. -/
theorem offerFile_sender (hg : ¬g.Blocks E.id) : offerFile sha256 g E.receiverAddr E.fileName
    (some E.file) E.id E.chunkSize (.new E.senderDir) = .ok E.id (E.sender sha256 0 0) :=
  offerFile_of_ok sha256 E.receiverAddr E.fileName E.chunkSize hg (E.offer_new sha256)

/-- The pump of a good acknowledgement asks for the guard that is held. -/
theorem handleChunkAck_blocks (hg : ∀ id, ¬g.Blocks id) (hblocks : (g.take E.id).Blocks E.id)
    {ack : FileChunkAck} (hid : ack.transferId = E.id) (hgood : E.Good (.fileChunkAck ack))
    (credits cursor : UInt32) :
    handleChunkAck sha256 g ack (E.sender sha256 credits cursor) =
      .error .blocked (E.sender sha256 credits cursor) := by
  obtain ⟨id, i, status⟩ := ack
  cases hid
  cases hgood
  rw [handleChunkAck_of_sending (hg _) (E.sender_entry sha256 credits cursor), pumpSend,
    getMut_of_blocks hblocks]
  exact congrArg _ (E.sender_withEntry sha256 credits credits cursor)

end Exchange

namespace Link

variable {E : Exchange} {disk : Option (List UInt8)} {l : Link}

/-! ## One frame -/

/-- Every frame of an exchange is for the other node. -/
theorem Reachable.addressed (h : Reachable sha256 E disk l) :
    (∀ f ∈ l.sender.outbox, f.1 = E.receiverAddr) ∧
      ∀ f ∈ l.receiver.outbox, f.1 = E.senderAddr := by
  refine ⟨fun f hf => ?_, ?_⟩
  · obtain ⟨credits, cursor, -, -, hsender⟩ := (h.run.exact rfl).waits
    rw [hsender, Exchange.sender, withSent_outbox, List.mem_append, List.mem_map] at hf
    rcases hf with hf | ⟨payload, -, rfl⟩
    · cases hf
    · rfl
  · induction h with
    | start => exact List.forall_mem_nil _
    | @deliver l p frame hreach hframe hnew ih =>
      have hexact := hreach.run.exact rfl
      have hsent : ∀ frames : List Payload,
          ∀ f ∈ l.receiver.outbox ++ frames.map (E.senderAddr, ·), f.1 = E.senderAddr := by
        intro frames f hf
        rcases List.mem_append.mp hf with hf | hf
        · exact ih f hf
        · obtain ⟨payload, -, rfl⟩ := List.mem_map.mp hf
          rfl
      rcases hexact.books.frames p _ frame hframe with ⟨rfl, rfl⟩ | ⟨chunk, rfl, hid⟩
      · rw [Link.deliver, dispatch]
        cases disk with
        | none =>
          rw [handleOffer_of_none]
          exact ih
        | some content =>
          rw [handleOffer_of_some Guards.not_plain_blocks]
          exact hsent _
      · have hblocks : ¬Guards.plain.Blocks chunk.transferId := Guards.not_plain_blocks
        have hpeer : ∀ s, l.receiver.activeTransfers chunk.transferId = some (.receiving s) →
            s.peer = E.senderAddr := by
          intro s hs
          rw [hid] at hs
          cases hexact.tally with
          | idle hreceiver =>
            rw [hreceiver] at hs
            cases hs
          | receiving hentry hpeer =>
            cases hentry.symm.trans hs
            exact hpeer
          | done hentry =>
            cases hentry.symm.trans hs
        obtain ⟨-, houtcome⟩ := handleChunk_outcome sha256 hblocks l.receiver
        rw [Link.deliver, dispatch]
        generalize Exec.stateAfter (handleChunk sha256 .plain chunk l.receiver) = m' at houtcome ⊢
        cases houtcome with
        | ignored | outOfRange => exact ih
        | badHash hentry => exact hpeer _ hentry ▸ hsent _
        | stored hentry => exact hpeer _ hentry ▸ hsent _
        | completed hentry =>
          change ∀ f ∈ (l.receiver.outbox ++ _) ++ _, _
          rw [hpeer _ hentry, List.append_assoc, ← List.map_append]
          exact hsent _
    | reply senderDisk p frame _ _ _ ih => exact ih

/-- A frame of the sender is handled, whatever the guards. -/
theorem Reachable.deliver_returns (h : Reachable sha256 E disk l) (hg : ∀ id, ¬g.Blocks id)
    {p : Nat} {addr : SocketAddr} {frame : Payload}
    (hframe : l.sender.outbox[p]? = some (addr, frame)) :
    Exec.Returned (dispatch sha256 g E.senderAddr disk frame l.receiver) ∧
      Exec.stateAfter (dispatch sha256 g E.senderAddr disk frame l.receiver) =
        (l.deliver sha256 E disk p frame).receiver := by
  rcases h.run.books.frames p addr frame hframe with ⟨-, rfl⟩ | ⟨chunk, rfl, -⟩
  · rw [dispatch_eq_plain hg (fun _ heq => by cases heq)]
    refine ⟨?_, rfl⟩
    cases disk with
    | none =>
      rw [dispatch, handleOffer_of_none]
      trivial
    | some content =>
      rw [dispatch, handleOffer_of_some Guards.not_plain_blocks]
      trivial
  · rw [dispatch_eq_plain hg (fun _ heq => by cases heq)]
    have hblocks : ¬Guards.plain.Blocks chunk.transferId := Guards.not_plain_blocks
    exact ⟨(handleChunk_outcome sha256 hblocks l.receiver).1, rfl⟩

/-- A reply is handled, or it is an acknowledgement and blocks the sender, which stays as it is. -/
theorem Reachable.reply_cases (h : Reachable sha256 E disk l) (hg : ∀ id, ¬g.Blocks id)
    {p : Nat} {addr : SocketAddr} {frame : Payload}
    (hframe : l.receiver.outbox[p]? = some (addr, frame)) (senderDisk : Option (List UInt8)) :
    (Exec.Returned (dispatch sha256 g E.receiverAddr senderDisk frame l.sender) ∧
      Exec.stateAfter (dispatch sha256 g E.receiverAddr senderDisk frame l.sender) =
        (l.reply sha256 E senderDisk p frame).sender ∧
      ((g.take E.id).Blocks E.id → ∀ ack, frame ≠ .fileChunkAck ack)) ∨
    (dispatch sha256 g E.receiverAddr senderDisk frame l.sender = .error .blocked l.sender ∧
      (g.take E.id).Blocks E.id ∧ ∃ ack, frame = .fileChunkAck ack) := by
  have hexact := h.run.exact rfl
  obtain ⟨hanswer, hgood⟩ := hexact.replies _ (List.mem_of_getElem? hframe)
  obtain ⟨credits, cursor, -, -, hsender⟩ := hexact.waits
  have hreturned : ∀ msg, Exec.Returned (handle sha256 .plain msg l.sender) := fun msg =>
    (hexact.books.fits.handle (fun _ => Guards.not_plain_blocks) msg
      fun _ _ _ => Guards.not_plain_blocks).1
  cases hanswer with
  | accept =>
    rw [dispatch_eq_plain hg (fun _ heq => by cases heq)]
    exact .inl ⟨hreturned (.fileAccept _), rfl, fun _ _ heq => by cases heq⟩
  | credit granted =>
    rw [dispatch_eq_plain hg (fun _ heq => by cases heq)]
    exact .inl ⟨hreturned (.creditUpdate _ _), rfl, fun _ _ heq => by cases heq⟩
  | ack ack hid =>
    by_cases hblocks : (g.take E.id).Blocks E.id
    · rw [hsender]
      exact .inr ⟨Exchange.handleChunkAck_blocks hg hblocks hid hgood credits cursor, hblocks, _,
        rfl⟩
    · rw [dispatch_eq_plain hg (fun _ heq _ => by cases heq; rwa [hid])]
      exact .inl ⟨hreturned (.fileChunkAck _), rfl, fun hb => absurd hb hblocks⟩
  | complete complete =>
    exact .inl ⟨trivial, rfl, fun _ _ heq => by cases heq⟩

/-- The receiver answers after what it has sent. -/
theorem Reachable.deliver_outbox (h : Reachable sha256 E disk l) {p : Nat} {addr : SocketAddr}
    {frame : Payload} (hframe : l.sender.outbox[p]? = some (addr, frame)) :
    ∃ more, (l.deliver sha256 E disk p frame).receiver.outbox = l.receiver.outbox ++ more := by
  rw [Link.deliver]
  rcases h.run.books.frames p addr frame hframe with ⟨-, rfl⟩ | ⟨chunk, rfl, -⟩
  · rw [dispatch]
    cases disk with
    | none =>
      rw [handleOffer_of_none]
      exact ⟨[], (List.append_nil _).symm⟩
    | some content =>
      rw [handleOffer_of_some Guards.not_plain_blocks]
      exact ⟨_, rfl⟩
  · have hblocks : ¬Guards.plain.Blocks chunk.transferId := Guards.not_plain_blocks
    obtain ⟨-, houtcome⟩ := handleChunk_outcome sha256 hblocks l.receiver
    obtain ⟨frames, houtbox, -⟩ := houtcome.answers
    exact ⟨frames, houtbox⟩

/-- The sender sends its chunks after what it has sent. -/
theorem Reachable.reply_outbox (h : Reachable sha256 E disk l) {p : Nat} {addr : SocketAddr}
    {frame : Payload} (hframe : l.receiver.outbox[p]? = some (addr, frame))
    (senderDisk : Option (List UInt8)) :
    ∃ more, (l.reply sha256 E senderDisk p frame).sender.outbox = l.sender.outbox ++ more := by
  have hexact := h.run.exact rfl
  obtain ⟨credits, cursor, hle, -, hsender⟩ := hexact.waits
  obtain ⟨credits', cursor', hforward, -, -, hstep⟩ := Exchange.dispatch_sender sha256
    E.receiverAddr senderDisk (hexact.replies _ (List.mem_of_getElem? hframe)) hle
  obtain ⟨n, hn⟩ := Nat.exists_eq_add_of_le hforward
  rw [Link.reply, hsender, hstep, ← E.sender_withSent sha256 credits credits' hn]
  exact ⟨_, rfl⟩

/-- The first frame of an exchange is the offer. -/
theorem Reachable.offered (h : Reachable sha256 E disk l) :
    l.sender.outbox[0]? = some (E.receiverAddr, .fileOffer (E.offer sha256)) := by
  obtain ⟨credits, cursor, -, -, hsender⟩ := (h.run.exact rfl).waits
  rw [hsender]
  exact E.sender_outbox_zero sha256 credits cursor

/-! ## The first replies -/

/-- The acceptance, the first credits, and then an acknowledgement. -/
def Opening (E : Exchange) (outbox : List (SocketAddr × Payload)) : Prop :=
  ∃ rest, outbox = (E.senderAddr, .fileAccept (.new E.id (allMissing E.totalChunks))) ::
      (E.senderAddr, .creditUpdate E.id 50) :: rest ∧
    ∀ f ∈ rest.head?, ∃ ack : FileChunkAck, f.2 = .fileChunkAck ack

/-- What is sent after the opening begins with an acknowledgement. -/
theorem Opening.append {outbox frames : List (SocketAddr × Payload)} (h : Opening E outbox)
    (hframes : ∀ f ∈ frames.head?, ∃ ack : FileChunkAck, f.2 = .fileChunkAck ack) :
    Opening E (outbox ++ frames) := by
  obtain ⟨rest, rfl, hrest⟩ := h
  refine ⟨rest ++ frames, rfl, ?_⟩
  cases rest with
  | nil => exact hframes
  | cons f rest => exact hrest

/-- A chunk is answered with an acknowledgement first, if at all. -/
theorem acknowledged_first {chunk : FileChunk} {m m' : TransferManager}
    (h : ChunkOutcome sha256 chunk m m') : ∃ frames, m'.outbox = m.outbox ++ frames ∧
      ∀ f ∈ frames.head?, ∃ ack : FileChunkAck, f.2 = .fileChunkAck ack := by
  cases h with
  | ignored | outOfRange => exact ⟨[], (List.append_nil _).symm, fun _ hf => by cases hf⟩
  | badHash => exact ⟨_, rfl, fun _ hf => by cases hf; exact ⟨_, rfl⟩⟩
  | stored => exact ⟨_, rfl, fun _ hf => by cases hf; exact ⟨_, rfl⟩⟩
  | completed =>
    refine ⟨_, List.append_assoc _ _ _, fun _ hf => ?_⟩
    cases hf
    exact ⟨_, rfl⟩

/-- In every run the receiver has answered nothing, or begins with these replies. -/
theorem Reachable.opening (h : Reachable sha256 E disk l) :
    l.receiver.outbox = [] ∨ Opening E l.receiver.outbox := by
  induction h with
  | start => exact .inl rfl
  | @deliver l p frame hreach hframe hnew ih =>
    have hbooks := hreach.run.books
    rcases hbooks.frames p _ frame hframe with ⟨rfl, rfl⟩ | ⟨chunk, rfl, hid⟩
    · have hempty : l.receiver.outbox = [] := by
        rcases hbooks.returned with hreceiver | ⟨hoffer, -⟩
        · rw [hreceiver]
          rfl
        · exact absurd hoffer hnew
      rw [Link.deliver, dispatch]
      cases disk with
      | none =>
        rw [handleOffer_of_none]
        exact .inl hempty
      | some content =>
        rw [handleOffer_of_some Guards.not_plain_blocks]
        refine .inr ⟨[], ?_, fun _ hf => by cases hf⟩
        change l.receiver.outbox ++ _ = _
        rw [hempty]
        rfl
    · have hblocks : ¬Guards.plain.Blocks chunk.transferId := Guards.not_plain_blocks
      obtain ⟨-, houtcome⟩ := handleChunk_outcome sha256 hblocks l.receiver
      rcases ih with hempty | hopening
      · have hnone : l.receiver.activeTransfers chunk.transferId = none := by
          rcases hbooks.returned with hreceiver | ⟨-, hgranted, -⟩
          · rw [hreceiver]
            rfl
          · rw [Granted, hempty] at hgranted
            cases hgranted
        refine .inl ?_
        rw [Link.deliver, dispatch, handleChunk_of_none hblocks hnone]
        exact hempty
      · obtain ⟨frames, houtbox, hframes⟩ := acknowledged_first houtcome
        refine .inr ?_
        rw [Link.deliver, dispatch, houtbox]
        exact hopening.append hframes
  | reply senderDisk p frame _ _ _ ih => exact ih

/-- Only the first two replies can be something else than an acknowledgement, up to the third. -/
theorem Reachable.lt_two_of_not_ack (h : Reachable sha256 E disk l) {p : Nat} (hle : p ≤ 2)
    {addr : SocketAddr} {frame : Payload} (hframe : l.receiver.outbox[p]? = some (addr, frame))
    (hnot : ∀ ack, frame ≠ .fileChunkAck ack) : p < 2 := by
  refine Nat.lt_of_le_of_ne hle ?_
  rintro rfl
  rcases h.opening with hempty | ⟨rest, hopening, hrest⟩
  · rw [hempty] at hframe
    cases hframe
  · rw [hopening, List.getElem?_cons_succ, List.getElem?_cons_succ, ← List.head?_eq_getElem?]
      at hframe
    obtain ⟨ack, hack⟩ := hrest _ hframe
    exact hnot ack hack

/-- While the sender has handled no more than the first two replies, it has sent no more chunks than
the first credits pay for. -/
theorem Reachable.sentWeight_le (h : Reachable sha256 E disk l)
    (htwo : l.toSender ⊆ Finset.range 2) : sentWeight chunkWeight l.sender.outbox ≤ 50 := by
  obtain ⟨s, -, hspent⟩ := h.run.books.spent
  have hcredits : weightAt creditWeight l.receiver.outbox l.toSender ≤ 50 := by
    refine (Finset.sum_le_sum_of_subset htwo).trans ?_
    rw [Finset.sum_range_succ, Finset.sum_range_one]
    rcases h.opening with hempty | ⟨rest, hopening, -⟩
    · rw [hempty]
      exact Nat.zero_le _
    · rw [hopening]
      exact Nat.le_refl _
  omega

/-- A completed transfer has no more chunks than were sent. -/
theorem Reachable.totalChunks_le (h : Reachable sha256 E disk l) (hcompleted : l.Completed E) :
    E.totalChunks.toNat ≤ sentWeight chunkWeight l.sender.outbox := by
  obtain ⟨hnone, addr, complete, hmem⟩ := hcompleted
  have hexact := h.run.exact rfl
  have hsum := inFlight_add_weightAt chunkWeight hexact.books.toReceiver_subset
  cases hexact.tally with
  | idle hreceiver =>
    rw [hreceiver] at hmem
    cases hmem
  | receiving hentry =>
    rw [hnone] at hentry
    cases hentry
  | done _ _ _ hall => omega

/-- A file of one chunk is complete as soon as the chunk is answered. -/
theorem Reachable.completed_of_answered (h : Reachable sha256 E disk l) (hone : E.totalChunks = 1)
    (hanswered : 2 < l.receiver.outbox.length) : l.Completed E := by
  have hexact := h.run.exact rfl
  have hack : 1 ≤ sentWeight okWeight l.receiver.outbox := by
    rcases h.opening with hempty | ⟨rest, hopening, hrest⟩
    · rw [hempty] at hanswered
      cases hanswered
    · cases rest with
      | nil =>
        rw [hopening] at hanswered
        exact absurd hanswered (by simp)
      | cons f rest =>
        obtain ⟨ack, hf⟩ := hrest f rfl
        have hmem : f ∈ l.receiver.outbox := by
          rw [hopening]
          simp
        have hreply := hexact.replies f hmem
        rw [hf] at hreply
        have hok : okWeight f = 1 := by
          obtain ⟨addr, frame⟩ := f
          cases hf
          exact if_pos hreply.2
        rw [hopening, sentWeight, List.map_cons, List.map_cons, List.map_cons, hok]
        simp only [List.sum_cons]
        omega
  cases hexact.tally with
  | idle hreceiver =>
    rw [hreceiver] at hanswered
    cases hanswered
  | receiving hentry _ _ _ _ hcount _ hopen =>
    rw [hone] at hopen
    rcases hopen with hlt | hzero
    · change _ < 1 at hlt
      omega
    · exact absurd hzero (by decide)
  | done hentry hcomplete => exact ⟨hentry, hcomplete⟩

/-- A quiet exchange with a receiver that can open its file is complete. -/
theorem Reachable.completed_of_settled (h : Reachable sha256 E disk l) {content : List UInt8}
    (hdisk : disk = some content) (hquiet : l.Quiet) (hsome : E.totalChunks ≠ 0) :
    l.Completed E := by
  subst hdisk
  have hoffer := hquiet.1 (Finset.mem_range.mpr (List.getElem?_eq_some_iff.mp h.offered).1)
  exact h.completed_of_quiet hoffer hquiet hsome

/-- The first two replies do not acknowledge anything. -/
theorem Reachable.two_le_of_ack (h : Reachable sha256 E disk l) {p : Nat} {addr : SocketAddr}
    {ack : FileChunkAck} (hframe : l.receiver.outbox[p]? = some (addr, .fileChunkAck ack)) :
    2 ≤ p := by
  rcases h.opening with hempty | ⟨rest, hopening, -⟩
  · rw [hempty] at hframe
    cases hframe
  · rw [hopening] at hframe
    rcases p with _ | _ | p
    · cases hframe
    · cases hframe
    · exact Nat.le_add_left 2 p

/-- The first two replies do not complete anything. -/
theorem Reachable.two_lt_of_completed (h : Reachable sha256 E disk l)
    (hcompleted : l.Completed E) : 2 < l.receiver.outbox.length := by
  obtain ⟨-, addr, complete, hmem⟩ := hcompleted
  rcases h.opening with hempty | ⟨rest, hopening, -⟩
  · rw [hempty] at hmem
    cases hmem
  · rw [hopening] at hmem ⊢
    cases rest with
    | nil => simp at hmem
    | cons f rest => simp

/-- The receiver writes to its disk as the last step of the transfer. -/
theorem Reachable.unflushed (h : Reachable sha256 E disk l) :
    l.receiver.flushed = [] ∨ l.Completed E := by
  induction h with
  | start => exact .inl rfl
  | @deliver l p frame hreach hframe hnew ih =>
    have hbooks := hreach.run.books
    rcases hbooks.frames p _ frame hframe with ⟨rfl, rfl⟩ | ⟨chunk, rfl, hid⟩
    · have hempty : l.receiver.flushed = [] := by
        rcases hbooks.returned with hreceiver | ⟨hoffer, -⟩
        · rw [hreceiver]
          rfl
        · exact absurd hoffer hnew
      rw [Link.deliver, dispatch]
      cases disk with
      | none =>
        rw [handleOffer_of_none]
        exact .inl hempty
      | some content =>
        rw [handleOffer_of_some Guards.not_plain_blocks]
        exact .inl hempty
    · have hblocks : ¬Guards.plain.Blocks chunk.transferId := Guards.not_plain_blocks
      rcases ih with hempty | ⟨hentry, hcomplete⟩
      · obtain ⟨-, houtcome⟩ := handleChunk_outcome sha256 hblocks l.receiver
        rw [Link.deliver, dispatch]
        generalize Exec.stateAfter (handleChunk sha256 .plain chunk l.receiver) = m' at houtcome ⊢
        cases houtcome with
        | completed hentry =>
          refine .inr ⟨?_, _, _, List.mem_append_right _ List.mem_cons_self⟩
          rw [← hid]
          exact Function.update_self _ _ _
        | _ => exact .inl hempty
      · rw [← hid] at hentry
        rw [Link.deliver, dispatch, handleChunk_of_none hblocks hentry]
        rw [hid] at hentry
        exact .inr ⟨hentry, hcomplete⟩
  | reply senderDisk p frame _ _ _ ih => exact ih

/-- What the receiver has written to its disk is the file of the sender. -/
theorem Reachable.flushed (h : Reachable sha256 E disk l) (hbounded : E.OffsetsBounded)
    (hcount : chunkCount E.file.length E.chunkSize.toNat < 2 ^ 32) (hcompleted : l.Completed E) :
    l.receiver.flushed = [(E.path, E.file)] :=
  ((h.invariant hbounded).intact (.inl hcount)).complete hcompleted.1 hcompleted.2

/-- A transfer that is completed has chunks. -/
theorem Reachable.totalChunks_pos (h : Reachable sha256 E disk l) (hbounded : E.OffsetsBounded)
    (hcompleted : l.Completed E) : 0 < E.totalChunks.toNat := by
  obtain ⟨hnone, addr, complete, hmem⟩ := hcompleted
  cases (h.invariant hbounded).phase with
  | idle hnew =>
    rw [hnew] at hmem
    cases hmem
  | receiving _ _ hentry =>
    rw [hnone] at hentry
    cases hentry
  | done _ _ _ _ hsome => exact hsome

end Link

end CekyP2P.Transfer
