import CekyP2P.Transfer.Sending

/-!
# A transfer between two nodes

Frames stay in the outbox of the node that emitted them, and a link records which of
them have been delivered: each is delivered at most once, in any order, or never. The
map of transfers is a plain map here, so no handler blocks.
-/

namespace CekyP2P.Transfer

open Protocol TransferManager

variable (sha256 : List UInt8 → Vector UInt8 32)

/-- What a node does with a transfer frame from `peer`; it has no handler for
`FileComplete`. -/
def TransferManager.dispatch (g : Guards) (peer : SocketAddr) (disk : Option (List UInt8)) :
    Payload → ManagerM Unit
  | .fileOffer offer => handleOffer g peer offer disk
  | .fileAccept accept => handleAccept g accept
  | .creditUpdate id credits => handleCreditUpdate sha256 g id credits
  | .fileChunk chunk => handleChunk sha256 g chunk
  | .fileChunkAck ack => handleChunkAck sha256 g ack
  | .fileComplete _ => pure ()

/-- Two managers and the frames that have passed between them. -/
structure Link where
  sender : TransferManager
  receiver : TransferManager
  /-- Positions in the sender's outbox that were delivered. -/
  toReceiver : Finset Nat
  /-- Positions in the receiver's outbox that were delivered. -/
  toSender : Finset Nat

namespace Link

/-- The receiver handles the frame at a position of the sender's outbox. -/
def deliver (E : Exchange) (disk : Option (List UInt8)) (p : Nat) (frame : Payload) (l : Link) :
    Link :=
  { l with
    receiver := Exec.stateAfter (dispatch sha256 .plain E.senderAddr disk frame l.receiver)
    toReceiver := insert p l.toReceiver }

/-- The sender handles the frame at a position of the receiver's outbox. -/
def reply (E : Exchange) (disk : Option (List UInt8)) (p : Nat) (frame : Payload) (l : Link) :
    Link :=
  { l with
    sender := Exec.stateAfter (dispatch sha256 .plain E.receiverAddr disk frame l.sender)
    toSender := insert p l.toSender }

/-- The runs of an exchange in which the receiver's path holds `disk`. -/
inductive Reachable (E : Exchange) (disk : Option (List UInt8)) : Link → Prop
  | start : Reachable E disk
      { sender := Exec.stateAfter (offerFile sha256 .plain E.receiverAddr E.fileName (some E.file)
          E.id E.chunkSize (.new E.senderDir))
        receiver := .new E.receiverDir
        toReceiver := ∅
        toSender := ∅ }
  | deliver {l : Link} (p : Nat) (frame : Payload) : Reachable E disk l →
      l.sender.outbox[p]? = some (E.receiverAddr, frame) → p ∉ l.toReceiver →
      Reachable E disk (l.deliver sha256 E disk p frame)
  | reply {l : Link} (senderDisk : Option (List UInt8)) (p : Nat) (frame : Payload) :
      Reachable E disk l → l.receiver.outbox[p]? = some (E.senderAddr, frame) → p ∉ l.toSender →
      Reachable E disk (l.reply sha256 E senderDisk p frame)

end Link

/-- The indices of the chunks among the frames of an outbox. -/
def chunkIndices (outbox : List (SocketAddr × Payload)) : List UInt32 :=
  outbox.filterMap fun
    | (_, .fileChunk chunk) => some chunk.chunkIndex
    | _ => none

/-- No chunk index was sent twice, and a transfer that the receiver has completed left the
sender's file, and nothing else, on its disk. -/
structure Link.Intact (E : Exchange) (l : Link) : Prop where
  nodup : (chunkIndices l.sender.outbox).Nodup
  complete : l.receiver.activeTransfers E.id = none →
    (∃ addr complete, (addr, Payload.fileComplete complete) ∈ l.receiver.outbox) →
    l.receiver.flushed = [(E.path, E.file)]

namespace Exchange

variable (E : Exchange)

/-- Offsets of counted chunks fit in 32 bits. -/
def OffsetsBounded : Prop := E.totalChunks.toNat * E.chunkSize.toNat ≤ 2 ^ 32

variable {E}

/-- The chunks of such an exchange tile its file. -/
theorem OffsetsBounded.layout (h : E.OffsetsBounded) :
    Layout E.file E.chunkSize E.totalChunks where
  chunkSize_ne_zero := E.chunkSize_ne_zero
  offset_lt := by
    intro i hi
    have hpos := toNat_pos_of_ne_zero E.chunkSize_ne_zero
    exact (Nat.mul_lt_mul_of_pos_right hi hpos).trans_le h
  inside := by
    intro i hi
    rw [← E.toNat_fileSize]
    exact mul_lt_of_lt_computeTotalChunks hi

/-- What the pump cuts out are the pieces of the file. -/
theorem isPiece_chunk (hlayout : Layout E.file E.chunkSize E.totalChunks) {i : UInt32}
    (hi : i.toNat < E.totalChunks.toNat) :
    IsPiece E.file E.chunkSize E.totalChunks (E.chunk sha256 i) where
  index_lt := hi
  data_eq := by
    have hstart : chunkStart i E.chunkSize = i.toNat * E.chunkSize.toNat :=
      chunkStart_of_lt (hlayout.offset_lt _ hi)
    simp only [chunk, chunkEnd, hstart]
    exact drop_take_min E.file E.chunkSize.toNat i.toNat

/-- Indices of chunks fit into 32 bits. -/
theorem toNat_index {i : Nat} (hi : i < E.totalChunks.toNat) : (UInt32.ofNat i).toNat = i := by
  have := E.totalChunks.toNat_lt
  rw [UInt32.toNat_ofNat', Nat.mod_eq_of_lt (by omega)]

/-! ## The receiver along a run -/

variable (E)

/-- Behind the counted chunks the map is still what the disk held. -/
def KeepsTail (content map : List UInt8) : Prop :=
  ∀ x, E.totalChunks.toNat * E.chunkSize.toNat ≤ x →
    map[x]? = (setLen content E.file.length)[x]?

/-- The receiver after the delivery of some of the sender's frames. -/
inductive Phase (disk : Option (List UInt8)) (delivered : Finset Nat) (m : TransferManager) : Prop
  | idle (hnew : m = .new E.receiverDir)
  | receiving {content : List UInt8} {blocks : Finset Nat} {s : ReceivingState}
      (hdisk : disk = some content) (hoffer : 0 ∈ delivered)
      (hentry : m.activeTransfers E.id = some (.receiving s)) (hpeer : s.peer = E.senderAddr)
      (hpath : s.filePath = E.path) (hflushed : m.flushed = [])
      (hprogress : Progress E.file E.chunkSize E.totalChunks blocks s)
      (hblocks : ∀ i ∈ blocks, i + 1 ∈ delivered) (htail : E.KeepsTail content s.fileMap)
  | done {content map : List UInt8} (hdisk : disk = some content) (hoffer : 0 ∈ delivered)
      (hentry : m.activeTransfers E.id = none) (hflushed : m.flushed = [(E.path, map)])
      (hsome : 0 < E.totalChunks.toNat)
      (hholds : Holds E.file E.chunkSize.toNat (Finset.range E.totalChunks.toNat) map)
      (htail : E.KeepsTail content map)

/-- All frames of an outbox are replies. -/
def Replies (m : TransferManager) : Prop := ∀ frame ∈ m.outbox, E.Reply frame.2

variable {E} {disk : Option (List UInt8)} {delivered : Finset Nat} {m : TransferManager}

/-- Replies are added to replies. -/
theorem Replies.withSent (h : E.Replies m) (peer : SocketAddr) {frames : List Payload}
    (hframes : ∀ frame ∈ frames, E.Reply frame) : E.Replies (m.withSent peer frames) := by
  intro frame hmem
  rw [withSent_outbox, List.mem_append, List.mem_map] at hmem
  rcases hmem with hold | ⟨payload, hpayload, rfl⟩
  · exact h frame hold
  · exact hframes payload hpayload

/-- The answers to a chunk are replies. -/
theorem Replies.stored (h : E.Replies m) (s : ReceivingState) (i : Nat) :
    E.Replies (m.stored (E.chunk sha256 (UInt32.ofNat i)) s) := by
  refine h.withSent s.peer ?_
  intro frame hmem
  rcases List.mem_pair.mp hmem with rfl | rfl
  · exact ⟨.ack _ rfl, rfl⟩
  · exact ⟨.credit 1, trivial⟩

/-- Only a receiver that has not yet seen the offer can see it. -/
theorem Phase.handleOffer (h : E.Phase disk delivered m) (hreplies : E.Replies m)
    (hnew : 0 ∉ delivered) :
    E.Phase disk (insert 0 delivered) (Exec.stateAfter
        (handleOffer .plain E.senderAddr (E.offer sha256) disk m)) ∧
      E.Replies (Exec.stateAfter (handleOffer .plain E.senderAddr (E.offer sha256) disk m)) := by
  cases h with
  | receiving _ hoffer => exact absurd hoffer hnew
  | done _ hoffer => exact absurd hoffer hnew
  | idle hm =>
    cases disk with
    | none =>
      rw [handleOffer_of_none]
      exact ⟨.idle hm, hreplies⟩
    | some content =>
      rw [handleOffer_of_some Guards.not_plain_blocks]
      have hsize : (E.offer sha256).fileSize.toNat = E.file.length := E.toNat_fileSize
      have hprogress := progress_received hsize m E.senderAddr content
      constructor
      · refine .receiving rfl (Finset.mem_insert_self 0 delivered) (Function.update_self _ _ _) rfl
          ?_ ?_ hprogress (by simp) ?_
        · rw [hm]
          rfl
        · rw [hm]
          rfl
        · intro x _
          rw [← hsize]
          rfl
      · refine hreplies.withSent E.senderAddr ?_
        intro frame hframe
        rcases List.mem_pair.mp hframe with rfl | rfl
        · exact ⟨.accept _ rfl, rfl⟩
        · exact ⟨.credit 50, trivial⟩

/-- A piece ends before the bytes behind the counted chunks. -/
theorem KeepsTail.written {content : List UInt8} {s : ReceivingState}
    (h : E.KeepsTail content s.fileMap) {blocks : Finset Nat}
    (hprogress : Progress E.file E.chunkSize E.totalChunks blocks s)
    (hlayout : Layout E.file E.chunkSize E.totalChunks) {chunk : FileChunk}
    (hpiece : IsPiece E.file E.chunkSize E.totalChunks chunk) :
    E.KeepsTail content (written s chunk).fileMap := by
  intro x hx
  have hrange := hprogress.in_range hlayout hpiece
  have hend : chunkStart chunk.chunkIndex s.chunkSize + chunk.data.length ≤ x := by
    have hnext := Nat.mul_le_mul_right E.chunkSize.toNat (Nat.succ_le_of_lt hpiece.index_lt)
    rw [Nat.succ_mul] at hnext
    rw [hprogress.chunkSize_eq, hlayout.chunkStart_eq hpiece, hpiece.data_eq, length_block]
    omega
  rw [TransferManager.written, getElem?_overwrite hrange, if_neg (by omega)]
  exact h x hx

/-- A chunk of the sender that arrives for the first time is written, or completes the
transfer, or finds none. -/
theorem Phase.handleChunk (h : E.Phase disk delivered m) (hreplies : E.Replies m)
    (hlayout : Layout E.file E.chunkSize E.totalChunks) {i : Nat} (hi : i < E.totalChunks.toNat)
    (hnew : i + 1 ∉ delivered) :
    E.Phase disk (insert (i + 1) delivered) (Exec.stateAfter
        (handleChunk sha256 .plain (E.chunk sha256 (UInt32.ofNat i)) m)) ∧
      E.Replies (Exec.stateAfter
        (handleChunk sha256 .plain (E.chunk sha256 (UInt32.ofNat i)) m)) := by
  have hindex := E.toNat_index hi
  have hpiece := isPiece_chunk sha256 hlayout (i := UInt32.ofNat i) (by omega)
  have hsub := Finset.subset_insert (i + 1) delivered
  cases h with
  | idle hm =>
    have hnone : m.activeTransfers E.id = none := by rw [hm]; rfl
    rw [handleChunk_of_none Guards.not_plain_blocks hnone]
    exact ⟨.idle hm, hreplies⟩
  | done hdisk hoffer hentry hflushed hsome hholds htail =>
    rw [handleChunk_of_none Guards.not_plain_blocks hentry]
    exact ⟨.done hdisk (hsub hoffer) hentry hflushed hsome hholds htail, hreplies⟩
  | @receiving content blocks s hdisk hoffer hentry hpeer hpath hflushed hprogress hblocks htail =>
    have hfresh : i ∉ blocks := fun hmem => hnew (hblocks i hmem)
    have hrange := hprogress.in_range hlayout hpiece
    have hwritten := hprogress.written hlayout hpiece (by rwa [← hindex] at hfresh)
    have htail' := htail.written hprogress hlayout hpiece
    have hstored := hreplies.stored sha256 s i
    by_cases hlast : s.receivedChunks + 1 = s.totalChunks
    · rw [handleChunk_of_completed Guards.not_plain_blocks hentry rfl hrange hlast]
      constructor
      · refine .done hdisk (hsub hoffer) (Function.update_self _ _ _) ?_ (by omega) ?_ htail'
        · change m.flushed ++ [(s.filePath, _)] = _
          rw [hflushed, hpath]
          rfl
        · rw [← hwritten.eq_range hlast]
          exact hwritten.holds
      · refine hstored.withSent s.peer ?_
        intro frame hframe
        rw [List.mem_singleton.mp hframe]
        exact ⟨.complete _, trivial⟩
    · rw [handleChunk_of_stored Guards.not_plain_blocks hentry rfl hrange hlast]
      refine ⟨.receiving hdisk (hsub hoffer) (Function.update_self _ _ _) hpeer hpath hflushed
        hwritten ?_ htail', hstored⟩
      intro j hj
      rcases Finset.mem_insert.mp hj with hj | hold
      · exact Finset.mem_insert.mpr (Or.inl (by rw [hj]; exact congrArg (· + 1) hindex))
      · exact hsub (hblocks j hold)

/-! ## The sender along a run -/

/-- A reply moves the cursor forward, if at all, and a sender that waits for credits or is
through is so afterwards. -/
theorem dispatch_sender (peer : SocketAddr) (disk : Option (List UInt8)) {frame : Payload}
    (hreply : E.Reply frame) {credits cursor : UInt32}
    (hle : cursor.toNat ≤ E.totalChunks.toNat) :
    ∃ credits' cursor' : UInt32, cursor.toNat ≤ cursor'.toNat ∧
      cursor'.toNat ≤ E.totalChunks.toNat ∧
      ((credits = 0 ∨ cursor.toNat = E.totalChunks.toNat) →
        credits' = 0 ∨ cursor'.toNat = E.totalChunks.toNat) ∧
      Exec.stateAfter (dispatch sha256 .plain peer disk frame (E.sender sha256 credits cursor)) =
        E.sender sha256 credits' cursor' := by
  have hpumped : ∀ credits : UInt32, ∃ credits' cursor' : UInt32,
      cursor.toNat ≤ cursor'.toNat ∧ cursor'.toNat ≤ E.totalChunks.toNat ∧
      (credits' = 0 ∨ cursor'.toNat = E.totalChunks.toNat) ∧
      pumpSend sha256 .plain E.id (E.sender sha256 credits cursor) =
        .ok () (E.sender sha256 credits' cursor') := by
    intro credits
    obtain ⟨credits', cursor', hcredits, hcursor, hpump⟩ :=
      E.pumpSend_sender sha256 credits cursor rfl
    refine ⟨credits', cursor', by omega, by omega, ?_, hpump⟩
    rw [← UInt32.toNat_inj, UInt32.toNat_zero]
    omega
  obtain ⟨hanswer, hgood⟩ := hreply
  cases hanswer with
  | accept accept hid =>
    refine ⟨credits, cursor, le_rfl, hle, fun hwaits => hwaits, ?_⟩
    rw [dispatch, handleAccept_sender sha256 hid hgood]
    rfl
  | credit granted =>
    obtain ⟨credits', cursor', hforward, hle', hwaits, hpump⟩ := hpumped (credits + granted)
    refine ⟨credits', cursor', hforward, hle', fun _ => hwaits, ?_⟩
    rw [dispatch, E.handleCreditUpdate_sender, hpump]
    rfl
  | ack ack hid =>
    obtain ⟨credits', cursor', hforward, hle', hwaits, hpump⟩ := hpumped credits
    refine ⟨credits', cursor', hforward, hle', fun _ => hwaits, ?_⟩
    rw [dispatch, handleChunkAck_sender sha256 hid hgood, hpump]
    rfl
  | complete _ => exact ⟨credits, cursor, le_rfl, hle, fun hwaits => hwaits, rfl⟩

/-- The chunks that were sent are those below the cursor, in order. -/
theorem chunkIndices_sender (credits cursor : UInt32) :
    chunkIndices (E.sender sha256 credits cursor).outbox =
      (List.range cursor.toNat).map UInt32.ofNat := by
  simp only [chunkIndices, sender, withSent_outbox, withEntry_outbox, TransferManager.new,
    List.nil_append, List.map_cons, List.map_map]
  rw [List.filterMap_cons_none rfl, List.filterMap_map]
  exact congrFun List.filterMap_eq_map _

/-- A sender that only goes forward sends no chunk twice. -/
theorem nodup_chunkIndices_sender (credits cursor : UInt32) :
    (chunkIndices (E.sender sha256 credits cursor).outbox).Nodup := by
  rw [chunkIndices_sender]
  refine List.Nodup.map_on ?_ List.nodup_range
  intro i hi j hj heq
  rw [List.mem_range] at hi hj
  have hbound := cursor.toNat_lt
  have := congrArg UInt32.toNat heq
  rwa [UInt32.toNat_ofNat', UInt32.toNat_ofNat', Nat.mod_eq_of_lt (by omega),
    Nat.mod_eq_of_lt (by omega)] at this

end Exchange

namespace Link

/-- What holds in every state of a run. -/
structure Invariant (E : Exchange) (disk : Option (List UInt8)) (l : Link) : Prop where
  sender : ∃ credits cursor : UInt32, cursor.toNat ≤ E.totalChunks.toNat ∧
    l.sender = E.sender sha256 credits cursor
  phase : E.Phase disk l.toReceiver l.receiver
  replies : E.Replies l.receiver

variable {sha256} {E : Exchange} {disk : Option (List UInt8)} {l : Link}

/-- The invariant holds in every reachable state. -/
theorem Reachable.invariant (h : Reachable sha256 E disk l) (hbounded : E.OffsetsBounded) :
    l.Invariant sha256 E disk := by
  induction h with
  | start =>
    refine ⟨⟨0, 0, Nat.zero_le _, ?_⟩, .idle rfl, nofun⟩
    rw [E.offerFile_eq]
    rfl
  | @deliver l p frame _ hframe hnew ih =>
    obtain ⟨credits, cursor, hle, hsender⟩ := ih.sender
    rw [hsender] at hframe
    rcases E.sender_outbox_cases sha256 hframe with ⟨rfl, rfl⟩ | ⟨i, hi, rfl, rfl⟩
    · obtain ⟨hphase, hreplies⟩ := ih.phase.handleOffer sha256 ih.replies hnew
      exact ⟨ih.sender, hphase, hreplies⟩
    · obtain ⟨hphase, hreplies⟩ :=
        ih.phase.handleChunk sha256 ih.replies hbounded.layout (by omega) hnew
      exact ⟨ih.sender, hphase, hreplies⟩
  | @reply l senderDisk p frame _ hframe _ ih =>
    obtain ⟨credits, cursor, hle, hsender⟩ := ih.sender
    have hreply := ih.replies _ (List.mem_of_getElem? hframe)
    obtain ⟨credits', cursor', -, hle', -, hstep⟩ :=
      Exchange.dispatch_sender sha256 E.receiverAddr senderDisk hreply hle
    refine ⟨⟨credits', cursor', hle', ?_⟩, ih.phase, ih.replies⟩
    rw [Link.reply, hsender]
    exact hstep

/-- A completed transfer has written every counted chunk and nothing behind them. -/
theorem Invariant.completed (h : l.Invariant sha256 E disk)
    (hnone : l.receiver.activeTransfers E.id = none)
    (hcomplete : ∃ addr complete, (addr, Payload.fileComplete complete) ∈ l.receiver.outbox) :
    ∃ content map, disk = some content ∧ l.receiver.flushed = [(E.path, map)] ∧
      0 < E.totalChunks.toNat ∧
      Holds E.file E.chunkSize.toNat (Finset.range E.totalChunks.toNat) map ∧
      E.KeepsTail content map := by
  cases h.phase with
  | idle hnew =>
    obtain ⟨addr, complete, hmem⟩ := hcomplete
    rw [hnew] at hmem
    cases hmem
  | receiving _ _ hentry =>
    rw [hnone] at hentry
    cases hentry
  | @done content map hdisk _ _ hflushed hsome hholds htail =>
    exact ⟨content, map, hdisk, hflushed, hsome, hholds, htail⟩

/-! ## Runs that complete -/

/-- The chunks below `k` have been delivered in order, the next one is on its way, and the
sender has used up its credits or its chunks. -/
structure Stage (sha256 : List UInt8 → Vector UInt8 32) (E : Exchange) (k : Nat) (l : Link) :
    Prop where
  sender : ∃ credits cursor : UInt32, k < cursor.toNat ∧ cursor.toNat ≤ E.totalChunks.toNat ∧
    (credits = 0 ∨ cursor.toNat = E.totalChunks.toNat) ∧ l.sender = E.sender sha256 credits cursor
  delivered : l.toReceiver = Finset.range (k + 1)
  receiver : ∃ s, l.receiver.activeTransfers E.id = some (.receiving s) ∧
    s.receivedChunks.toNat = k
  answered : ∀ p ∈ l.toSender, p < l.receiver.outbox.length

/-- Credits that reach a waiting sender move it on to the next chunk. -/
theorem exists_stage_of_credit {k p : Nat} {credits cursor : UInt32}
    (hreach : Reachable sha256 E disk l) (hk : k < E.totalChunks.toNat)
    (hsender : l.sender = E.sender sha256 credits cursor) (hcursor : k ≤ cursor.toNat)
    (hle : cursor.toNat ≤ E.totalChunks.toNat)
    (hspent : credits = 0 ∨ cursor.toNat = E.totalChunks.toNat)
    (hdelivered : l.toReceiver = Finset.range (k + 1))
    (hreceiver : ∃ s, l.receiver.activeTransfers E.id = some (.receiving s) ∧
      s.receivedChunks.toNat = k)
    (hanswered : ∀ q ∈ l.toSender, q < l.receiver.outbox.length) (granted : UInt32)
    (hgranted : granted ≠ 0)
    (hframe : l.receiver.outbox[p]? = some (E.senderAddr, .creditUpdate E.id granted))
    (hnew : p ∉ l.toSender) :
    ∃ l', Reachable sha256 E disk l' ∧ l'.Stage sha256 E k := by
  obtain ⟨credits', cursor', hcredits', hcursor', hpump⟩ :=
    E.pumpSend_sender sha256 (credits + granted) cursor rfl
  have hpos := toNat_pos_of_ne_zero hgranted
  refine ⟨_, hreach.reply none p _ hframe hnew, ⟨credits', cursor', ?_, by omega, ?_, ?_⟩,
    hdelivered, hreceiver, ?_⟩
  · rcases hspent with rfl | hdone
    · rw [UInt32.zero_add] at hcursor'
      omega
    · omega
  · by_cases hend : cursor'.toNat = E.totalChunks.toNat
    · exact Or.inr hend
    · refine Or.inl (UInt32.toNat_inj.mp ?_)
      rw [hcredits', UInt32.toNat_zero]
      omega
  · rw [reply, hsender, dispatch, E.handleCreditUpdate_sender, hpump]
    rfl
  · intro q hq
    rcases Finset.mem_insert.mp hq with rfl | hold
    · exact (List.getElem?_eq_some_iff.mp hframe).1
    · exact hanswered q hold

/-- The receiver that has just accepted the offer. -/
def offeredReceiver (sha256 : List UInt8 → Vector UInt8 32) (E : Exchange)
    (content : List UInt8) : TransferManager :=
  ((TransferManager.new E.receiverDir).withEntry E.id (.receiving
    ((TransferManager.new E.receiverDir).received E.senderAddr (E.offer sha256) content))).withSent
      E.senderAddr
      [.fileAccept (.new E.id (allMissing E.totalChunks)), .creditUpdate E.id 50]

/-- The state after the offer was delivered is reachable. -/
theorem reachable_offered (sha256 : List UInt8 → Vector UInt8 32) (E : Exchange)
    (content : List UInt8) : Reachable sha256 E (some content)
      ⟨E.sender sha256 0 0, offeredReceiver sha256 E content, {0}, ∅⟩ := by
  have hstart : Reachable sha256 E (some content)
      ⟨E.sender sha256 0 0, .new E.receiverDir, ∅, ∅⟩ := by
    have hsender := congrArg Exec.stateAfter (E.offerFile_eq sha256)
    change _ = E.sender sha256 0 0 at hsender
    rw [← hsender]
    exact .start
  have hreach := hstart.deliver 0 _ (E.sender_outbox_zero sha256 0 0) (Finset.notMem_empty 0)
  rw [deliver, dispatch, handleOffer_of_some Guards.not_plain_blocks] at hreach
  exact hreach

/-- The offer is accepted and the first credits arrive. -/
theorem exists_stage_zero (sha256 : List UInt8 → Vector UInt8 32) (content : List UInt8)
    (hsome : 0 < E.totalChunks.toNat) :
    ∃ l, Reachable sha256 E (some content) l ∧ l.Stage sha256 E 0 := by
  refine exists_stage_of_credit (reachable_offered sha256 E content) hsome rfl (Nat.zero_le _)
    (Nat.zero_le _) (Or.inl rfl) rfl ⟨_, Function.update_self _ _ _, rfl⟩ (by simp) 50 (by decide)
    (p := 1) rfl (Finset.notMem_empty 1)

/-- The chunk in flight fits into the map of a receiver that waits for it. -/
theorem Stage.arrive {content : List UInt8} {k : Nat} (hstage : l.Stage sha256 E k)
    (hreach : Reachable sha256 E (some content) l) (hbounded : E.OffsetsBounded) :
    ∃ s, l.receiver.activeTransfers E.id = some (.receiving s) ∧ s.peer = E.senderAddr ∧
      s.receivedChunks.toNat = k ∧ s.totalChunks = E.totalChunks ∧
      chunkStart (E.chunk sha256 (UInt32.ofNat k)).chunkIndex s.chunkSize +
        (E.chunk sha256 (UInt32.ofNat k)).data.length ≤ s.fileMap.length ∧
      Reachable sha256 E (some content)
        (l.deliver sha256 E (some content) (k + 1) (E.chunkFrame sha256 k)) := by
  obtain ⟨s, hentry, hcount⟩ := hstage.receiver
  obtain ⟨credits, cursor, hcursor, hle, -, hsender⟩ := hstage.sender
  have hindex : (UInt32.ofNat k).toNat = k := E.toNat_index (by omega)
  have hlayout := hbounded.layout
  have hpiece := Exchange.isPiece_chunk sha256 hlayout (i := UInt32.ofNat k) (by omega)
  have hframe := E.sender_outbox_succ sha256 credits hcursor
  rw [← hsender] at hframe
  have hnext := hreach.deliver (k + 1) _ hframe (by rw [hstage.delivered]; simp)
  cases (hreach.invariant hbounded).phase with
  | idle hnew =>
    rw [hnew] at hentry
    cases hentry
  | done _ _ hnone =>
    rw [hnone] at hentry
    cases hentry
  | @receiving _ blocks s' _ _ hentry' hpeer _ _ hprogress =>
    obtain rfl : s' = s := by simpa [hentry'] using hentry
    exact ⟨s', hentry, hpeer, hcount, hprogress.totalChunks_eq, hprogress.in_range hlayout hpiece,
      hnext⟩

/-- One more chunk arrives, and the credit it returns reaches the sender. -/
theorem Stage.next {content : List UInt8} {k : Nat} (hstage : l.Stage sha256 E k)
    (hreach : Reachable sha256 E (some content) l) (hbounded : E.OffsetsBounded)
    (hk : k + 1 < E.totalChunks.toNat) :
    ∃ l', Reachable sha256 E (some content) l' ∧ l'.Stage sha256 E (k + 1) := by
  obtain ⟨credits, cursor, hcursor, hle, hspent, hsender⟩ := hstage.sender
  obtain ⟨s, hentry, hpeer, hcount, htotal, hrange, hnext⟩ := hstage.arrive hreach hbounded
  have hbound := E.totalChunks.toNat_lt
  have hsucc : (s.receivedChunks + 1).toNat = k + 1 := by
    rw [UInt32.toNat_add, hcount, UInt32.toNat_one, Nat.mod_eq_of_lt (by omega)]
  have hopen : s.receivedChunks + 1 ≠ s.totalChunks := by
    intro hlast
    rw [hlast, htotal] at hsucc
    omega
  simp only [deliver, dispatch, Exchange.chunkFrame,
    handleChunk_of_stored Guards.not_plain_blocks hentry rfl hrange hopen] at hnext
  refine exists_stage_of_credit hnext hk hsender (by omega) hle hspent ?_
    ⟨_, Function.update_self _ _ _, hsucc⟩ ?_ 1 (by decide) (p := l.receiver.outbox.length + 1)
    ?_ ?_
  · rw [hstage.delivered, Finset.range_add_one (n := k + 1)]
  · intro q hq
    have := hstage.answered q hq
    simp only [Exec.stateAfter, stored, withSent_outbox, withEntry_outbox, List.length_append]
    omega
  · simp only [Exec.stateAfter, stored, hpeer, withSent_outbox, withEntry_outbox]
    rw [List.getElem?_append_right (Nat.le_add_right _ 1), Nat.add_sub_cancel_left]
    rfl
  · intro hmem
    have := hstage.answered _ hmem
    omega

/-- Every stage before the last chunk is reachable. -/
theorem exists_stage (sha256 : List UInt8 → Vector UInt8 32) (content : List UInt8)
    (hbounded : E.OffsetsBounded) {k : Nat} (hk : k < E.totalChunks.toNat) :
    ∃ l, Reachable sha256 E (some content) l ∧ l.Stage sha256 E k := by
  induction k with
  | zero => exact exists_stage_zero sha256 content hk
  | succ k ih =>
    obtain ⟨l, hreach, hstage⟩ := ih (by omega)
    exact hstage.next hreach hbounded hk

/-- If there are chunks to send, some run completes, whatever the receiver's disk held. -/
theorem exists_completed (sha256 : List UInt8 → Vector UInt8 32) (content : List UInt8)
    (hbounded : E.OffsetsBounded) (hsome : 0 < E.totalChunks.toNat) :
    ∃ l, Reachable sha256 E (some content) l ∧ l.receiver.activeTransfers E.id = none ∧
      ∃ addr complete, (addr, Payload.fileComplete complete) ∈ l.receiver.outbox := by
  obtain ⟨k, hk⟩ := Nat.exists_eq_add_one_of_ne_zero hsome.ne'
  obtain ⟨l, hreach, hstage⟩ := exists_stage sha256 content hbounded (k := k) (by omega)
  obtain ⟨s, hentry, -, hcount, htotal, hrange, hnext⟩ := hstage.arrive hreach hbounded
  have hlast : s.receivedChunks + 1 = s.totalChunks := by
    have hbound := E.totalChunks.toNat_lt
    apply UInt32.toNat_inj.mp
    rw [htotal, UInt32.toNat_add, hcount, UInt32.toNat_one, hk, Nat.mod_eq_of_lt (by omega)]
  simp only [deliver, dispatch, Exchange.chunkFrame,
    handleChunk_of_completed Guards.not_plain_blocks hentry rfl hrange hlast] at hnext
  refine ⟨_, hnext, Function.update_self _ _ _, s.peer, ⟨E.id, Vector.replicate 32 0⟩, ?_⟩
  exact List.mem_append_right _ (List.mem_singleton_self _)

/-! ## Completed transfers and the sender's file -/

/-- Without narrowing, the counted chunks reach the end of the file. -/
theorem Invariant.intact (h : l.Invariant sha256 E disk)
    (hcount : chunkCount E.file.length E.chunkSize.toNat < 2 ^ 32 ∨
      2 ^ 32 ∣ chunkCount E.file.length E.chunkSize.toNat) : l.Intact E where
  nodup := by
    obtain ⟨credits, cursor, -, hsender⟩ := h.sender
    rw [hsender]
    exact Exchange.nodup_chunkIndices_sender sha256 credits cursor
  complete := by
    intro hnone hcomplete
    obtain ⟨content, map, -, hflushed, hsome, hholds, -⟩ := h.completed hnone hcomplete
    have htotal : E.totalChunks.toNat = _ := toNat_computeTotalChunks E.chunkSize_ne_zero
    rw [E.toNat_fileSize] at htotal
    rcases hcount with hfit | hdvd
    · rw [Nat.mod_eq_of_lt hfit] at htotal
      have hcover := le_chunkCount_mul E.file.length (toNat_pos_of_ne_zero E.chunkSize_ne_zero)
      rw [← htotal] at hcover
      rw [hflushed, eq_of_holds_range E.chunkSize_ne_zero hholds hcover]
    · rw [Nat.mod_eq_zero_of_dvd hdvd] at htotal
      omega

/-- A narrowed count leaves bytes of the file unsent, and the receiver keeps its own. -/
theorem exists_not_intact (sha256 : List UInt8 → Vector UInt8 32) (hbounded : E.OffsetsBounded)
    (hsome : 0 < E.totalChunks.toNat)
    (hlong : 2 ^ 32 ≤ chunkCount E.file.length E.chunkSize.toNat) :
    ∃ disk l, Reachable sha256 E disk l ∧ ¬l.Intact E := by
  have hbehind : E.totalChunks.toNat * E.chunkSize.toNat < E.file.length :=
    mul_lt_of_lt_chunkCount (toNat_pos_of_ne_zero E.chunkSize_ne_zero)
      (E.totalChunks.toNat_lt.trans_le hlong)
  obtain ⟨l, hreach, hnone, hcomplete⟩ :=
    exists_completed sha256 (E.file.map (· + 1)) hbounded hsome
  refine ⟨_, l, hreach, fun hintact => ?_⟩
  obtain ⟨content, map, hdisk, hflushed, -, -, htail⟩ :=
    (hreach.invariant hbounded).completed hnone hcomplete
  have hmap : map = E.file := by
    rw [hintact.complete hnone hcomplete] at hflushed
    simpa using hflushed.symm
  have hbyte := htail _ le_rfl
  rw [← Option.some.inj hdisk, hmap, setLen, List.take_of_length_le (by simp), List.length_map,
    Nat.sub_self, List.replicate_zero, List.append_nil, List.getElem?_map,
    List.getElem?_eq_getElem hbehind, Option.map_some, Option.some.injEq] at hbyte
  have hwrap := congrArg UInt8.toNat hbyte
  have hlt := (E.file[E.totalChunks.toNat * E.chunkSize.toNat]).toNat_lt
  rw [UInt8.toNat_add, UInt8.toNat_one] at hwrap
  omega

/-- With offsets that fit in 32 bits, every run of an exchange sends each chunk at most once
and completes only with the sender's file, unless the chunk count is narrowed to another
count that is not 0. -/
theorem intact_iff (sha256 : List UInt8 → Vector UInt8 32) (E : Exchange)
    (hbounded : E.OffsetsBounded) :
    (∀ disk l, Reachable sha256 E disk l → l.Intact E) ↔
      chunkCount E.file.length E.chunkSize.toNat < 2 ^ 32 ∨
        2 ^ 32 ∣ chunkCount E.file.length E.chunkSize.toNat := by
  constructor
  · intro hintact
    by_contra hcount
    rw [not_or, Nat.not_lt] at hcount
    have htotal : E.totalChunks.toNat = _ := toNat_computeTotalChunks E.chunkSize_ne_zero
    rw [E.toNat_fileSize] at htotal
    have hsome : 0 < E.totalChunks.toNat := by
      have := (Nat.dvd_iff_mod_eq_zero ..).not.mp hcount.2
      omega
    obtain ⟨disk, l, hreach, hnot⟩ := exists_not_intact sha256 hbounded hsome hcount.1
    exact hnot (hintact disk l hreach)
  · intro hcount disk l hreach
    exact (hreach.invariant hbounded).intact hcount

/-- Three bytes in chunks of two. -/
def sampleExchange : Exchange where
  file := [1, 2, 3]
  fileName := "a"
  chunkSize := 2
  id := ⟨Vector.replicate 16 7⟩
  senderAddr := ⟨.v4 (Vector.replicate 4 127), 9000⟩
  receiverAddr := ⟨.v4 (Vector.replicate 4 127), 9001⟩
  senderDir := ⟨"downloads"⟩
  receiverDir := ⟨"received"⟩
  size_lt := by decide
  chunkSize_ne_zero := by decide
  name_le := by decide

/-- In the sample exchange the receiver's file is never wrong. -/
theorem intact_iff_sample : sampleExchange.OffsetsBounded ∧
    ∀ disk l, Reachable Sha256.digest sampleExchange disk l → l.Intact sampleExchange := by
  have hbounded : sampleExchange.OffsetsBounded := by
    unfold Exchange.OffsetsBounded
    decide
  exact ⟨hbounded, (intact_iff Sha256.digest sampleExchange hbounded).mpr (Or.inl (by decide))⟩

/-- One byte more than 4 GiB, in chunks of one byte. -/
def pastFourGib : Exchange :=
  { sampleExchange with
    file := List.replicate (2 ^ 32 + 1) 1
    chunkSize := 1
    size_lt := by rw [List.length_replicate]; decide
    chunkSize_ne_zero := by decide }

/-- The file has one chunk. -/
theorem totalChunks_pastFourGib : pastFourGib.totalChunks = 1 := by
  have hlen : pastFourGib.file.length = 4294967297 := List.length_replicate
  rw [Exchange.totalChunks, Exchange.fileSize, hlen]
  decide

/-- The count is narrowed to 1: the first byte completes the transfer, and the receiver is
left with zeros behind it. -/
theorem pastFourGib_completes_with_other_file :
    pastFourGib.OffsetsBounded ∧ ∃ l map, Reachable Sha256.digest pastFourGib (some []) l ∧
      l.receiver.activeTransfers pastFourGib.id = none ∧
      (∃ addr complete, (addr, Payload.fileComplete complete) ∈ l.receiver.outbox) ∧
      l.receiver.flushed = [(pastFourGib.path, map)] ∧
      map[1]? = some 0 ∧ pastFourGib.file[1]? = some 1 := by
  have hbounded : pastFourGib.OffsetsBounded := by
    rw [Exchange.OffsetsBounded, totalChunks_pastFourGib]
    decide
  have hsome : 0 < pastFourGib.totalChunks.toNat := by
    rw [totalChunks_pastFourGib]
    decide
  obtain ⟨l, hreach, hnone, hcomplete⟩ := exists_completed Sha256.digest [] hbounded hsome
  obtain ⟨content, map, hdisk, hflushed, -, -, htail⟩ :=
    (hreach.invariant hbounded).completed hnone hcomplete
  have hbyte := htail 1 (by rw [totalChunks_pastFourGib]; decide)
  have hlen : pastFourGib.file.length = 4294967297 := List.length_replicate
  refine ⟨hbounded, l, map, hreach, hnone, hcomplete, hflushed, ?_, rfl⟩
  rw [hbyte, ← Option.some.inj hdisk, hlen]
  rfl

end Link

end CekyP2P.Transfer
