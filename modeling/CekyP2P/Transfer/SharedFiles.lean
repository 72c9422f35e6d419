import CekyP2P.Transfer.Isolation

/-!
# Transfers of different peers

A message from one peer may name the transfer of another. Only an offer comes with the
address of its peer, and it replaces whatever had its id. A memory map shows its file, so
two transfers that map one file also see each other's writes, and an offer for a path cuts
or extends the file that is there. The maps of a host follow its files here.
-/

namespace CekyP2P.Transfer

open Protocol TransferManager

/-! ## Maps of files -/

/-- A map is determined by the part of the file that it can show. -/
theorem setLen_congr {content content' : List UInt8} {len : Nat}
    (h : content'.take len = content.take len) : setLen content' len = setLen content len := by
  have hlength := congrArg List.length h
  rw [List.length_take, List.length_take] at hlength
  have hrest : len - content'.length = len - content.length := by omega
  rw [setLen, setLen, h, hrest]

/-- Resizing a file spares a map exactly when the map shows as much of it as before. -/
theorem take_setLen_iff (content : List UInt8) (size len : Nat) :
    (setLen content size).take len = content.take len ↔
      min len size = min len content.length := by
  constructor
  · intro h
    have hlength := congrArg List.length h
    rwa [List.length_take, List.length_take, length_setLen] at hlength
  · intro h
    by_cases hcut : size ≤ content.length
    · have hcontent : setLen content size = content.take size := by
        rw [setLen, Nat.sub_eq_zero_of_le hcut, List.replicate_zero, List.append_nil]
      rw [hcontent, List.take_take, h, ← List.take_eq_take_min]
    · have hlen : len ≤ content.length := by omega
      have hcontent : content.take size = content := List.take_of_length_le (by omega)
      rw [setLen, hcontent, List.take_append_of_le_length hlen]

/-- A file after its map was written to. What is stored past its end, in the rest of its last
page, is no part of the file; an access beyond that page does not come to this. -/
def writeBack (content map : List UInt8) : List UInt8 :=
  map.take content.length ++ content.drop map.length

/-- A written byte comes from the map, every other one stays. -/
theorem getElem?_writeBack {content map : List UInt8} {x : Nat} (hx : x < content.length) :
    (writeBack content map)[x]? = if x < map.length then map[x]? else content[x]? := by
  have hlength : (map.take content.length).length = min content.length map.length :=
    List.length_take
  rw [writeBack]
  split
  case isTrue hmap =>
    rw [List.getElem?_append_left (by omega), List.getElem?_take_of_lt hx]
  case isFalse hmap =>
    rw [List.getElem?_append_right (by omega), List.getElem?_drop, hlength]
    congr 1
    omega

/-- Writing through a map does not change the length of a file. -/
theorem length_writeBack (content map : List UInt8) :
    (writeBack content map).length = content.length := by
  rw [writeBack, List.length_append, List.length_take, List.length_drop]
  omega

/-- Bytes before the new end are kept. -/
theorem getElem?_setLen {content : List UInt8} {len x : Nat} (hx : x < content.length)
    (hlen : x < len) : (setLen content len)[x]? = content[x]? := by
  rw [setLen, List.getElem?_append_left (by rw [List.length_take]; omega),
    List.getElem?_take_of_lt hlen]

/-- The bytes of a chunk that fall into a file and into a map of some length are there. -/
def AlreadyThere (content data : List UInt8) (start len : Nat) : Prop :=
  ∀ k, k < data.length → start + k < content.length → start + k < len →
    content[start + k]? = data[k]?

/-- Writing a chunk through one map of a file spares another map exactly when the bytes were
there. -/
theorem take_writeBack_iff {content data : List UInt8} {start len : Nat} (len' : Nat)
    (hrange : start + data.length ≤ len) :
    (writeBack content (overwrite (setLen content len) start data)).take len' =
        content.take len' ↔
      AlreadyThere content data start len' := by
  have hmap : start + data.length ≤ (setLen content len).length := by rwa [length_setLen]
  have hlength : (overwrite (setLen content len) start data).length = len := by
    rw [length_overwrite hmap, length_setLen]
  have hbyte : ∀ x < content.length,
      (writeBack content (overwrite (setLen content len) start data))[x]? =
        if start ≤ x ∧ x < start + data.length then data[x - start]? else content[x]? := by
    intro x hx
    rw [getElem?_writeBack hx, hlength, getElem?_overwrite hmap]
    by_cases hlen : x < len
    · rw [if_pos hlen, getElem?_setLen hx hlen]
    · rw [if_neg hlen, if_neg (by omega)]
  constructor
  · intro h k hk hcontent hlen'
    have hat := congrArg (·[start + k]?) h
    simp only [List.getElem?_take_of_lt hlen', hbyte _ hcontent] at hat
    rw [if_pos (by omega), Nat.add_sub_cancel_left] at hat
    exact hat.symm
  · intro h
    apply List.ext_getElem?
    intro x
    by_cases hx : x < content.length ∧ x < len'
    · rw [List.getElem?_take_of_lt hx.2, List.getElem?_take_of_lt hx.2, hbyte x hx.1]
      split
      case isTrue hin =>
        have hk := h (x - start) (by omega) (by omega) (by omega)
        rw [Nat.add_sub_cancel' hin.1] at hk
        exact hk.symm
      case isFalse => rfl
    · rw [List.getElem?_eq_none, List.getElem?_eq_none]
      · rw [List.length_take]
        omega
      · rw [List.length_take, length_writeBack]
        omega

/-- A map shows its file. Where the file has become too short for it, the rest of the last page
shows zeros, and the pages behind it cannot be accessed. -/
def TransferState.showing (content : List UInt8) : TransferState → TransferState
  | .sending s => .sending { s with fileMap := setLen content s.fileMap.length }
  | .receiving s => .receiving { s with fileMap := setLen content s.fileMap.length }

/-- A map that shows its file is kept. -/
theorem TransferState.showing_eq_self {t : TransferState} {content : List UInt8}
    (h : setLen content t.fileMap.length = t.fileMap) : t.showing content = t := by
  cases t with
  | sending s => exact congrArg (fun map => TransferState.sending { s with fileMap := map }) h
  | receiving s => exact congrArg (fun map => TransferState.receiving { s with fileMap := map }) h

/-- A map shows its file as far as it reaches. -/
theorem TransferState.fileMap_showing (t : TransferState) (content : List UInt8) :
    (t.showing content).fileMap = setLen content t.fileMap.length := by
  cases t with
  | sending s => rfl
  | receiving s => rfl

/-! ## Hosts -/

/-- A range of a map reaches into a page that lies past the end of the file. -/
def PastEnd (pageSize fileLen : Nat) (range : Nat × Nat) : Prop :=
  ∃ x ∈ List.range range.2, range.1 ≤ x ∧ fileLen ≤ x / pageSize * pageSize

instance pastEndDecidable (pageSize fileLen : Nat) (range : Nat × Nat) :
    Decidable (PastEnd pageSize fileLen range) :=
  inferInstanceAs (Decidable (∃ x ∈ List.range range.2, _))

/-- The range of a chunk in the map of a file being sent. -/
def SendingState.chunkRange (s : SendingState) (i : UInt32) : Nat × Nat :=
  (chunkStart i s.chunkSize, chunkEnd s.fileMap.length i s.chunkSize)

/-- A manager with the files of its host and the file that each transfer maps. -/
structure Host (φ : Type) where
  manager : TransferManager
  mapped : TransferId → φ
  files : φ → List UInt8
  /-- The pages in which the host maps files. -/
  pageSize : Nat

/-- What comes of the path of an offer: it is not opened or resized, it is resized but cannot
be mapped, or it is mapped. -/
inductive Opening (φ : Type)
  | failed
  | unmapped (file : φ)
  | mapped (file : φ)

/-- The file that was resized. -/
def Opening.file? {φ : Type} : Opening φ → Option φ
  | .failed => none
  | .unmapped file | .mapped file => some file

/-- A message that arrives on the session of a peer. -/
inductive Incoming (φ : Type)
  | fileOffer (offer : FileOffer) (opening : Opening φ)
  | fileAccept (accept : FileAccept)
  | creditUpdate (id : TransferId) (credits : UInt32)
  | fileChunk (chunk : FileChunk)
  | fileChunkAck (ack : FileChunkAck)

/-- The transfer that a message names. -/
def Incoming.transferId {φ : Type} : Incoming φ → TransferId
  | .fileOffer offer _ => offer.transferId
  | .fileAccept accept => accept.transferId
  | .creditUpdate id _ => id
  | .fileChunk chunk => chunk.transferId
  | .fileChunkAck ack => ack.transferId

namespace Host

variable {φ : Type} [DecidableEq φ]

/-- The call that the event loop makes: only an offer is given the address of the peer. -/
def message (h : Host φ) (q : SocketAddr) : Incoming φ → Message
  | .fileOffer offer (.mapped file) => .fileOffer q offer (some (h.files file))
  | .fileOffer offer (.unmapped _) | .fileOffer offer .failed => .fileOffer q offer none
  | .fileAccept accept => .fileAccept accept
  | .creditUpdate id credits => .creditUpdate id credits
  | .fileChunk chunk => .fileChunk chunk
  | .fileChunkAck ack => .fileChunkAck ack

/-- An offer that is mapped gives its transfer the file of its path. -/
def mappedAfter (h : Host φ) : Incoming φ → TransferId → φ
  | .fileOffer offer (.mapped file) => Function.update h.mapped offer.transferId file
  | _ => h.mapped

variable (sha256 : List UInt8 → Vector UInt8 32) (g : Guards)

/-- An offer resizes the file of its path, and a chunk that is stored is written through the
map. -/
def filesAfter (h : Host φ) : Incoming φ → φ → List UInt8
  | .fileOffer offer opening =>
    match opening.file? with
    | some file =>
      Function.update h.files file (setLen (h.files file) offer.fileSize.toNat)
    | none => h.files
  | .fileChunk chunk =>
    match h.manager.activeTransfers chunk.transferId with
    | some (.receiving s) =>
      if hashChunk sha256 chunk.data = chunk.chunkHash ∧
          chunkStart chunk.chunkIndex s.chunkSize + chunk.data.length ≤ s.fileMap.length then
        Function.update h.files (h.mapped chunk.transferId)
          (writeBack (h.files (h.mapped chunk.transferId)) (written s chunk).fileMap)
      else h.files
    | _ => h.files
  | _ => h.files

/-- The transfers, each with its map as its file is. -/
def shown (h : Host φ) (id : TransferId) : Option TransferState :=
  (h.manager.activeTransfers id).map (TransferState.showing (h.files (h.mapped id)))

/-- The host with all maps as their files are. -/
def refreshed (h : Host φ) : Host φ :=
  { h with manager := { h.manager with activeTransfers := h.shown } }

/-- The manager that the handler of a message leaves. -/
def managerAfter (q : SocketAddr) (incoming : Incoming φ) (h : Host φ) : TransferManager :=
  Exec.stateAfter (handle sha256 g (h.message q incoming) h.manager)

/-- The host once the handler of a message from peer `q` has gone through. -/
def handled (q : SocketAddr) (incoming : Incoming φ) (h : Host φ) : Host φ :=
  refreshed
    { manager := h.managerAfter sha256 g q incoming
      mapped := h.mappedAfter incoming
      files := h.filesAfter sha256 incoming
      pageSize := h.pageSize }

/-- The ranges of its map that the handler of a message accesses: a chunk is stored, and the pump
reads the chunks that it sends, unless it waits for a guard. -/
def accessed (h : Host φ) : Incoming φ → List (Nat × Nat)
  | .fileOffer _ _ | .fileAccept _ => []
  | .creditUpdate id credits =>
    match h.manager.activeTransfers id with
    | some (.sending s) =>
      (SendingState.pumped { s with credits := s.credits + credits }).map s.chunkRange
    | _ => []
  | .fileChunk chunk =>
    match h.manager.activeTransfers chunk.transferId with
    | some (.receiving s) =>
      if hashChunk sha256 chunk.data = chunk.chunkHash ∧
          chunkStart chunk.chunkIndex s.chunkSize + chunk.data.length ≤ s.fileMap.length then
        [(chunkStart chunk.chunkIndex s.chunkSize,
          chunkStart chunk.chunkIndex s.chunkSize + chunk.data.length)]
      else []
    | _ => []
  | .fileChunkAck ack =>
    match h.manager.activeTransfers ack.transferId with
    | some (.sending s) =>
      if (g.take ack.transferId).Blocks ack.transferId then []
      else (acknowledged s ack).pumped.map s.chunkRange
    | _ => []

/-- The handler of a message accesses a page that lies past the end of the mapped file, which
raises `SIGBUS`. -/
def Faults (h : Host φ) (incoming : Incoming φ) : Prop :=
  ∃ range ∈ h.accessed sha256 g incoming,
    PastEnd h.pageSize (h.files (h.mapped incoming.transferId)).length range

instance faultsDecidable (h : Host φ) (incoming : Incoming φ) :
    Decidable (h.Faults sha256 g incoming) :=
  inferInstanceAs (Decidable (∃ range ∈ h.accessed sha256 g incoming, _))

/-- The host after a message from peer `q`; a fault kills the node. -/
def receive (q : SocketAddr) (incoming : Incoming φ) (h : Host φ) : Option (Host φ) :=
  if h.Faults sha256 g incoming then none else some (h.handled sha256 g q incoming)

/-- The host after one of its files was offered to a peer. -/
def offerFile (peer : SocketAddr) (fileName : String) (file : φ) (randomId : TransferId)
    (chunkSize : UInt32) (h : Host φ) : Host φ :=
  let result := h.manager.offerFile sha256 g peer fileName (some (h.files file)) randomId chunkSize
  refreshed
    { manager := Exec.stateAfter result
      mapped := if Exec.isOk result then Function.update h.mapped randomId file else h.mapped
      files := h.files
      pageSize := h.pageSize }

/-- The hosts that a run can lead to; other programs may write to the files. -/
inductive Reachable : Host φ → Prop
  | new (downloadDir : PathBuf) (mapped : TransferId → φ) (files : φ → List UInt8)
      (pageSize : Nat) : Reachable ⟨.new downloadDir, mapped, files, pageSize⟩
  | edited {h : Host φ} (files : φ → List UInt8) : Reachable h →
      Reachable (refreshed { h with files := files })
  | offerFile {h : Host φ} (peer : SocketAddr) (fileName : String) (file : φ)
      (randomId : TransferId) (chunkSize : UInt32) (hsize : (h.files file).length < 2 ^ 64) :
      Reachable h → Reachable (h.offerFile sha256 g peer fileName file randomId chunkSize)
  | receive {h h' : Host φ} (q : SocketAddr) (incoming : Incoming φ)
      (hreceive : h.receive sha256 g q incoming = some h') : Reachable h →
      Exec.Returned (handle sha256 g (h.message q incoming) h.manager) → Reachable h'

/-! ## What holds of every reachable host -/

/-- Every map shows its file, every file being sent holds its chunks, and none could go on
sending. -/
structure Settled (h : Host φ) : Prop where
  shows : ∀ id t, h.manager.activeTransfers id = some t →
    setLen (h.files (h.mapped id)) t.fileMap.length = t.fileMap
  fits : h.manager.SendsFit
  waits : AllWait h.manager

variable {sha256 g} {h : Host φ}

omit [DecidableEq φ] in
/-- A map that follows its file keeps its length, so chunks stay inside. -/
theorem settled_refreshed (hfits : h.manager.SendsFit) (hwaits : AllWait h.manager) :
    h.refreshed.Settled where
  shows := by
    intro id t ht
    obtain ⟨t', -, rfl⟩ := Option.map_eq_some_iff.mp ht
    rw [TransferState.fileMap_showing, length_setLen]
    rfl
  fits := by
    intro id s hs
    obtain ⟨t, ht, hshown⟩ := Option.map_eq_some_iff.mp hs
    cases t with
    | receiving s' => cases hshown
    | sending s' =>
      cases hshown
      intro i hi
      rw [length_setLen]
      exact hfits id s' ht i hi
  waits := by
    intro id s hs
    obtain ⟨t, ht, hshown⟩ := Option.map_eq_some_iff.mp hs
    cases t with
    | receiving s' => cases hshown
    | sending s' =>
      cases hshown
      exact hwaits id s' ht

/-- A message that does not kill the node is handled. -/
theorem eq_handled_of_receive {h' : Host φ} {q : SocketAddr} {incoming : Incoming φ}
    (hreceive : h.receive sha256 g q incoming = some h') :
    h' = h.handled sha256 g q incoming := by
  rw [receive] at hreceive
  split at hreceive
  · cases hreceive
  · exact (Option.some.inj hreceive).symm

/-- A handler that returns leaves the host settled. -/
theorem Settled.handled (h' : h.Settled) (hg : ∀ id, ¬g.Blocks id) (q : SocketAddr)
    (incoming : Incoming φ)
    (hreturned : Exec.Returned (handle sha256 g (h.message q incoming) h.manager)) :
    (h.handled sha256 g q incoming).Settled := by
  refine settled_refreshed (h'.fits.handle hg _ fun ack hmsg hsending => ?_).2
    (h'.waits.handle h'.fits hg _ hreturned)
  rw [hmsg] at hreturned
  exact not_blocks_of_returned hg hreturned hsending

/-- Every reachable host is settled. -/
theorem Reachable.settled (hreachable : Reachable sha256 g h) (hg : ∀ id, ¬g.Blocks id) :
    h.Settled := by
  induction hreachable with
  | new downloadDir mapped files pageSize => exact ⟨nofun, sendsFit_new downloadDir, nofun⟩
  | edited files _ ih => exact settled_refreshed ih.fits ih.waits
  | offerFile peer fileName file randomId chunkSize hsize _ ih =>
    refine settled_refreshed (ih.fits.offerFile (hg randomId) peer fileName ?_ chunkSize)
      (ih.waits.offerFile (hg randomId) peer fileName _ chunkSize)
    rintro _ ⟨⟩
    exact hsize
  | @receive h h' q incoming hreceive _ hreturned ih =>
    rw [eq_handled_of_receive hreceive]
    exact ih.handled hg q incoming hreturned

/-! ## Isolation -/

/-- A transfer is as before, in its entry and in the bytes of its file that it maps, and no
frame was emitted for it. -/
structure Undisturbed (h h' : Host φ) (id : TransferId) (t : TransferState) : Prop where
  entry : h'.manager.activeTransfers id = some t
  bytes : (h'.files (h'.mapped id)).take t.fileMap.length =
    (h.files (h.mapped id)).take t.fileMap.length
  frames : ∀ frames, h'.manager.outbox = h.manager.outbox ++ frames →
    ∀ f ∈ frames, frameId f.2 ≠ id

variable (sha256 g)

/-- A message from a peer leaves the transfers of all others alone, and does not kill the node
under them. -/
def Isolated (h : Host φ) (q : SocketAddr) (incoming : Incoming φ) : Prop :=
  ∀ id t, h.manager.activeTransfers id = some t → t.peer ≠ q →
    ∃ h', h.receive sha256 g q incoming = some h' ∧ Undisturbed h h' id t

/-- The handler of a message from a peer leaves the transfers of all others alone. -/
def Spares (h : Host φ) (q : SocketAddr) (incoming : Incoming φ) : Prop :=
  ∀ id t, h.manager.activeTransfers id = some t → t.peer ≠ q →
    Undisturbed h (h.handled sha256 g q incoming) id t

/-- The messages whose handlers do: they name no transfer of another peer or have nothing to change
there, and the file they resize or write to shows the same in the maps of others. -/
def Harmless (h : Host φ) (q : SocketAddr) : Incoming φ → Prop
  | .fileOffer offer opening =>
    (∀ file, opening = .mapped file → ∀ t,
      h.manager.activeTransfers offer.transferId = some t → t.peer = q) ∧
    ∀ file, opening.file? = some file → ∀ id t, h.manager.activeTransfers id = some t →
      t.peer ≠ q → h.mapped id = file →
        min t.fileMap.length offer.fileSize.toNat =
          min t.fileMap.length (h.files file).length
  | .fileAccept accept => ∀ s, h.manager.activeTransfers accept.transferId = some (.sending s) →
      s.peer ≠ q → accept.missingBitmap = s.bitfield
  | .creditUpdate id credits => ∀ s, h.manager.activeTransfers id = some (.sending s) →
      s.peer ≠ q → credits = 0
  | .fileChunk chunk => ∀ s, h.manager.activeTransfers chunk.transferId = some (.receiving s) →
      (s.peer ≠ q → hashChunk sha256 chunk.data = chunk.chunkHash ∧
        ¬chunkStart chunk.chunkIndex s.chunkSize + chunk.data.length ≤ s.fileMap.length) ∧
      (hashChunk sha256 chunk.data = chunk.chunkHash →
        chunkStart chunk.chunkIndex s.chunkSize + chunk.data.length ≤ s.fileMap.length →
        ∀ id t, h.manager.activeTransfers id = some t → t.peer ≠ q →
          h.mapped id = h.mapped chunk.transferId →
          AlreadyThere (h.files (h.mapped id)) chunk.data
            (chunkStart chunk.chunkIndex s.chunkSize) t.fileMap.length)
  | .fileChunkAck ack => ∀ s, h.manager.activeTransfers ack.transferId = some (.sending s) →
      s.peer ≠ q → ack.status = .badHash →
        s.Ignores ack.chunkIndex (¬(g.take ack.transferId).Blocks ack.transferId)

variable {sha256 g} {q : SocketAddr} {incoming : Incoming φ}

section

variable {id : TransferId} {t : TransferState}

/-- The entries show the files. -/
theorem entry_handled : (h.handled sha256 g q incoming).manager.activeTransfers id =
    ((h.managerAfter sha256 g q incoming).activeTransfers id).map
      (TransferState.showing (h.filesAfter sha256 incoming (h.mappedAfter incoming id))) := rfl

/-- The files after a message. -/
theorem files_handled : (h.handled sha256 g q incoming).files
    ((h.handled sha256 g q incoming).mapped id) =
      h.filesAfter sha256 incoming (h.mappedAfter incoming id) := rfl

/-- An entry that the handler left alone is undisturbed if the bytes are. -/
theorem undisturbed_of_entry (hsettled : h.Settled)
    (ht : h.manager.activeTransfers id = some t)
    (hentry : (h.managerAfter sha256 g q incoming).activeTransfers id = some t)
    (hbytes : (h.filesAfter sha256 incoming (h.mappedAfter incoming id)).take t.fileMap.length =
      (h.files (h.mapped id)).take t.fileMap.length)
    (hframes : ∀ frames, (h.managerAfter sha256 g q incoming).outbox =
      h.manager.outbox ++ frames → ∀ f ∈ frames, frameId f.2 ≠ id) :
    Undisturbed h (h.handled sha256 g q incoming) id t where
  entry := by
    have hshown : t.showing (h.filesAfter sha256 incoming (h.mappedAfter incoming id)) = t :=
      TransferState.showing_eq_self ((setLen_congr hbytes).trans (hsettled.shows id t ht))
    rw [entry_handled, hentry, Option.map_some, hshown]
  bytes := hbytes
  frames := hframes

/-- A transfer that the message does not name is undisturbed if the bytes are. -/
theorem undisturbed_of_ne (hsettled : h.Settled) (hg : ∀ id, ¬g.Blocks id)
    (hne : id ≠ (h.message q incoming).transferId)
    (ht : h.manager.activeTransfers id = some t)
    (hbytes : (h.filesAfter sha256 incoming (h.mappedAfter incoming id)).take t.fileMap.length =
      (h.files (h.mapped id)).take t.fileMap.length) :
    Undisturbed h (h.handled sha256 g q incoming) id t := by
  have honly := onlyOn_handle sha256 hsettled.fits hg (h.message q incoming)
  exact undisturbed_of_entry hsettled ht ((honly.entries id hne).trans ht) hbytes
    fun frames hframes => honly.frameId_ne hne hframes

/-- A manager that was not changed emitted nothing. -/
theorem undisturbed_of_same (hsettled : h.Settled)
    (hsame : h.managerAfter sha256 g q incoming = h.manager)
    (ht : h.manager.activeTransfers id = some t)
    (hbytes : (h.filesAfter sha256 incoming (h.mappedAfter incoming id)).take t.fileMap.length =
      (h.files (h.mapped id)).take t.fileMap.length) :
    Undisturbed h (h.handled sha256 g q incoming) id t := by
  refine undisturbed_of_entry hsettled ht (by rw [hsame]; exact ht) hbytes ?_
  intro frames hframes f hf
  rw [hsame, List.self_eq_append_right] at hframes
  rw [hframes] at hf
  exact absurd hf List.not_mem_nil

/-- Where a file is resized or written to, the transfers that map it notice. -/
theorem take_update_iff {file : φ} {content : List UInt8} :
    (Function.update h.files file content (h.mapped id)).take t.fileMap.length =
        (h.files (h.mapped id)).take t.fileMap.length ↔
      (h.mapped id = file →
        content.take t.fileMap.length = (h.files file).take t.fileMap.length) := by
  by_cases hfile : h.mapped id = file
  · simp [hfile]
  · simp [hfile]

end

/-! ## Messages for a file that is being sent -/

/-- A message that changes nothing spares every transfer. -/
theorem spares_of_same (hsettled : h.Settled)
    (hsame : h.managerAfter sha256 g q incoming = h.manager)
    (hfiles : h.filesAfter sha256 incoming = h.files)
    (hmapped : h.mappedAfter incoming = h.mapped) : h.Spares sha256 g q incoming :=
  fun id t ht _ => undisturbed_of_same hsettled hsame ht (by rw [hfiles, hmapped])

/-- A handler that writes the named entry isolates exactly when it changes nothing in it and
emits nothing, unless the transfer is one of its peer. -/
theorem spares_iff_of_sending (hsettled : h.Settled) (hg : ∀ id, ¬g.Blocks id)
    {id : TransferId} {s s' : SendingState} {sent : List Payload}
    (hs : h.manager.activeTransfers id = some (.sending s))
    (hafter : h.managerAfter sha256 g q incoming =
      (h.manager.withEntry id (.sending s')).withSent s.peer sent)
    (hid : id = (h.message q incoming).transferId) (hmap : s'.fileMap = s.fileMap)
    (hsent : ∀ f ∈ sent, frameId f = id) (hfiles : h.filesAfter sha256 incoming = h.files)
    (hmapped : h.mappedAfter incoming = h.mapped) :
    h.Spares sha256 g q incoming ↔ (s.peer ≠ q → s' = s ∧ sent = []) := by
  have hbytes : ∀ id (t : TransferState),
      (h.filesAfter sha256 incoming (h.mappedAfter incoming id)).take t.fileMap.length =
        (h.files (h.mapped id)).take t.fileMap.length := by
    intro id t
    rw [hfiles, hmapped]
  have hentry : (h.managerAfter sha256 g q incoming).activeTransfers id = some (.sending s') := by
    rw [hafter]
    exact Function.update_self _ _ _
  constructor
  · intro hspares hpeer
    have hundisturbed := hspares _ _ hs hpeer
    constructor
    · have hshows : setLen (h.files (h.mapped id)) (TransferState.sending s').fileMap.length =
          (TransferState.sending s').fileMap := by
        have := hsettled.shows id _ hs
        simpa only [TransferState.fileMap, hmap] using this
      have hreceived : some (TransferState.sending s) = some (.sending s') := by
        rw [← hundisturbed.entry, entry_handled, hentry, hfiles, hmapped, Option.map_some,
          TransferState.showing_eq_self hshows]
      cases hreceived
      rfl
    · cases sent with
      | nil => rfl
      | cons f sent =>
        have hframes := hundisturbed.frames ((f :: sent).map (s.peer, ·))
          (congrArg TransferManager.outbox hafter) (s.peer, f) List.mem_cons_self
        exact absurd (hsent f List.mem_cons_self) hframes
  · intro hsame other t ht hpeer
    by_cases hother : other = id
    · subst hother
      cases hs.symm.trans ht
      obtain ⟨rfl, rfl⟩ := hsame hpeer
      refine undisturbed_of_entry hsettled ht hentry (hbytes _ _) fun frames hframes f hf => ?_
      have houtbox : (h.managerAfter sha256 g q incoming).outbox = h.manager.outbox := by
        rw [hafter]
        exact List.append_nil _
      rw [houtbox, List.self_eq_append_right] at hframes
      rw [hframes] at hf
      exact absurd hf List.not_mem_nil
    · exact undisturbed_of_ne hsettled hg (hid ▸ hother) ht (hbytes _ _)

/-- The same for a message whose pump is not kept from running. -/
theorem spares_iff_heard (q : SocketAddr) (incoming : Incoming φ) (hsettled : h.Settled)
    (hg : ∀ id, ¬g.Blocks id) (hfor : (h.message q incoming).ForSender) {s : SendingState}
    (hs : h.manager.activeTransfers (h.message q incoming).transferId = some (.sending s))
    (hfree : ∀ ack, h.message q incoming = .fileChunkAck ack →
      ¬(g.take ack.transferId).Blocks ack.transferId)
    (hfiles : h.filesAfter sha256 incoming = h.files)
    (hmapped : h.mappedAfter incoming = h.mapped) :
    h.Spares sha256 g q incoming ↔ (s.peer ≠ q →
      (s.heard (h.message q incoming)).1 = s ∧ (s.heard (h.message q incoming)).2 = []) := by
  have hafter := stateAfter_handle_of_sending sha256 hsettled.fits hg hfor hs hfree
  have hmap : (s.heard (h.message q incoming)).1.fileMap = s.fileMap :=
    (s.sameFile_heard _).fileMap_eq
  refine (spares_iff_of_sending hsettled hg hs hafter rfl hmap ?_ hfiles hmapped).trans ?_
  · intro f hf
    obtain ⟨i, -, rfl⟩ := List.mem_map.mp hf
    rfl
  · rw [List.map_eq_nil_iff]

/-- A message for a sender spares every transfer if nothing is sent under its identifier. -/
theorem spares_of_not_sending (hsettled : h.Settled) (hg : ∀ id, ¬g.Blocks id)
    (hfor : (h.message q incoming).ForSender)
    (hnot : ¬h.manager.IsSending (h.message q incoming).transferId)
    (hfiles : h.filesAfter sha256 incoming = h.files)
    (hmapped : h.mappedAfter incoming = h.mapped) : h.Spares sha256 g q incoming :=
  spares_of_same hsettled (stateAfter_handle_of_not_sending hg hfor hnot) hfiles hmapped

/-- When an acceptance spares the transfers of others. -/
theorem spares_fileAccept_iff (hsettled : h.Settled) (hg : ∀ id, ¬g.Blocks id)
    (accept : FileAccept) :
    h.Spares sha256 g q (.fileAccept accept) ↔ h.Harmless sha256 g q (.fileAccept accept) := by
  by_cases hsending : h.manager.IsSending accept.transferId
  · obtain ⟨s, hs⟩ := hsending
    refine (spares_iff_heard q (.fileAccept accept) hsettled hg trivial hs nofun rfl rfl).trans ?_
    constructor
    · intro hsame s' hs' hpeer
      cases hs.symm.trans hs'
      exact congrArg SendingState.bitfield (hsame hpeer).1
    · intro hharmless hpeer
      have hbitfield : accept.missingBitmap = s.bitfield := hharmless s hs hpeer
      refine ⟨?_, rfl⟩
      rw [message, SendingState.heard, hbitfield]
  · exact iff_of_true (spares_of_not_sending hsettled hg trivial hsending rfl rfl)
      fun s hs => absurd ⟨s, hs⟩ hsending

/-- When credits spare the transfers of others. -/
theorem spares_creditUpdate_iff (hsettled : h.Settled) (hg : ∀ id, ¬g.Blocks id)
    (id : TransferId) (credits : UInt32) :
    h.Spares sha256 g q (.creditUpdate id credits) ↔
      h.Harmless sha256 g q (.creditUpdate id credits) := by
  by_cases hsending : h.manager.IsSending id
  · obtain ⟨s, hs⟩ := hsending
    refine (spares_iff_heard q (.creditUpdate id credits) hsettled hg trivial hs nofun rfl
      rfl).trans ?_
    rw [message, SendingState.heard, afterPump_credited_iff (hsettled.waits id s hs)]
    constructor
    · intro hzero s' hs'
      cases hs.symm.trans hs'
      exact hzero
    · exact fun hharmless => hharmless s hs
  · exact iff_of_true (spares_of_not_sending hsettled hg trivial hsending rfl rfl)
      fun s hs => absurd ⟨s, hs⟩ hsending

/-- When an acknowledgement spares the transfers of others. -/
theorem spares_fileChunkAck_iff (hsettled : h.Settled) (hg : ∀ id, ¬g.Blocks id)
    (ack : FileChunkAck) :
    h.Spares sha256 g q (.fileChunkAck ack) ↔ h.Harmless sha256 g q (.fileChunkAck ack) := by
  by_cases hsending : h.manager.IsSending ack.transferId
  · obtain ⟨s, hs⟩ := hsending
    have hharmless : h.Harmless sha256 g q (.fileChunkAck ack) ↔
        (s.peer ≠ q → ack.status = .badHash →
          s.Ignores ack.chunkIndex (¬(g.take ack.transferId).Blocks ack.transferId)) := by
      constructor
      · exact fun hall => hall s hs
      · intro hone s' hs'
        cases hs.symm.trans hs'
        exact hone
    rw [hharmless]
    by_cases hblocks : (g.take ack.transferId).Blocks ack.transferId
    · have hafter : h.managerAfter sha256 g q (.fileChunkAck ack) =
          (h.manager.withEntry ack.transferId (.sending (acknowledged s ack))).withSent
            s.peer [] := by
        rw [managerAfter, message, handle, handleChunkAck_of_sending (hg _) hs, pumpSend,
          getMut_of_blocks hblocks]
        exact (withSent_nil _ _).symm
      refine (spares_iff_of_sending hsettled hg hs hafter rfl
        (sameFile_acknowledged s ack).fileMap_eq (List.forall_mem_nil _) rfl rfl).trans ?_
      simp only [hblocks, not_true_eq_false, ← acknowledged_eq_self_iff, and_true]
    · have hfree : ∀ other, Message.fileChunkAck ack = .fileChunkAck other →
          ¬(g.take other.transferId).Blocks other.transferId := by
        rintro _ ⟨⟩
        exact hblocks
      refine (spares_iff_heard q (.fileChunkAck ack) hsettled hg trivial hs hfree rfl
        rfl).trans ?_
      simp only [hblocks, not_false_eq_true, message, SendingState.heard,
        ← afterPump_acknowledged_iff (hsettled.waits _ s hs)]
  · exact iff_of_true (spares_of_not_sending hsettled hg trivial hsending rfl rfl)
      fun s hs => absurd ⟨s, hs⟩ hsending

/-! ## Offers and chunks -/

omit [DecidableEq φ] in
/-- The manager is not changed by an offer whose file cannot be opened or mapped. -/
theorem managerAfter_of_unread {offer : FileOffer} {opening : Opening φ}
    (hmessage : h.message q (.fileOffer offer opening) = .fileOffer q offer none) :
    h.managerAfter sha256 g q (.fileOffer offer opening) = h.manager := by
  rw [managerAfter, hmessage, handle, handleOffer_of_none]
  rfl

/-- A resized file is noticed by the transfers that map it. -/
theorem spares_fileOffer_iff (hsettled : h.Settled) (hg : ∀ id, ¬g.Blocks id)
    (offer : FileOffer) (opening : Opening φ) :
    h.Spares sha256 g q (.fileOffer offer opening) ↔
      h.Harmless sha256 g q (.fileOffer offer opening) := by
  cases opening with
  | failed =>
    refine iff_of_true (spares_of_same hsettled (managerAfter_of_unread rfl) rfl rfl) ⟨?_, ?_⟩
    · rintro _ ⟨⟩
    · rintro _ ⟨⟩
  | unmapped file =>
    constructor
    · intro hspares
      refine ⟨?_, ?_⟩
      · rintro _ ⟨⟩
      · rintro _ ⟨⟩ id t ht hpeer hfile
        exact (take_setLen_iff _ _ _).mp
          (take_update_iff.mp (hspares id t ht hpeer).bytes hfile)
    · intro hharmless id t ht hpeer
      refine undisturbed_of_same hsettled (managerAfter_of_unread rfl) ht
        (take_update_iff.mpr fun hfile => ?_)
      exact (take_setLen_iff _ _ _).mpr (hharmless.2 file rfl id t ht hpeer hfile)
  | mapped file =>
    have hafter : (h.managerAfter sha256 g q (.fileOffer offer (.mapped file))).activeTransfers
        offer.transferId = some (.receiving (h.manager.received q offer (h.files file))) := by
      rw [managerAfter, message, handle, handleOffer_of_some (hg _)]
      exact Function.update_self _ _ _
    have hreplaced : h.Spares sha256 g q (.fileOffer offer (.mapped file)) → ∀ t,
        h.manager.activeTransfers offer.transferId = some t → t.peer = q := by
      intro hspares t ht
      by_contra hpeer
      have hentry := (hspares _ t ht hpeer).entry
      rw [entry_handled, hafter] at hentry
      cases hentry
      exact hpeer rfl
    have hmapped : ∀ id, id ≠ offer.transferId →
        h.mappedAfter (.fileOffer offer (.mapped file)) id = h.mapped id :=
      fun id hne => Function.update_of_ne hne _ _
    constructor
    · refine fun hspares => ⟨fun _ _ => hreplaced hspares, ?_⟩
      rintro _ ⟨⟩ id t ht hpeer hfile
      have hne : id ≠ offer.transferId := by
        rintro rfl
        exact hpeer (hreplaced hspares t ht)
      have hbytes := (hspares id t ht hpeer).bytes
      rw [files_handled, hmapped id hne] at hbytes
      exact (take_setLen_iff _ _ _).mp (take_update_iff.mp hbytes hfile)
    · intro hharmless id t ht hpeer
      have hne : id ≠ offer.transferId := by
        rintro rfl
        exact hpeer (hharmless.1 file rfl t ht)
      refine undisturbed_of_ne hsettled hg hne ht ?_
      rw [hmapped id hne]
      refine take_update_iff.mpr fun hfile => (take_setLen_iff _ _ _).mpr ?_
      exact hharmless.2 file rfl id t ht hpeer hfile

section

variable {chunk : FileChunk} {s : ReceivingState}

/-- A chunk that is not stored leaves the files. -/
theorem filesAfter_of_not_stored
    (hnot : ∀ s, h.manager.activeTransfers chunk.transferId = some (.receiving s) →
      ¬(hashChunk sha256 chunk.data = chunk.chunkHash ∧
        chunkStart chunk.chunkIndex s.chunkSize + chunk.data.length ≤ s.fileMap.length)) :
    h.filesAfter sha256 (.fileChunk chunk) = h.files := by
  rw [filesAfter]
  split
  case h_1 s hs => exact if_neg (hnot s hs)
  case h_2 => rfl

/-- A stored chunk is written into its file. -/
theorem filesAfter_of_stored
    (hs : h.manager.activeTransfers chunk.transferId = some (.receiving s))
    (hhash : hashChunk sha256 chunk.data = chunk.chunkHash)
    (hrange : chunkStart chunk.chunkIndex s.chunkSize + chunk.data.length ≤ s.fileMap.length) :
    h.filesAfter sha256 (.fileChunk chunk) =
      Function.update h.files (h.mapped chunk.transferId)
        (writeBack (h.files (h.mapped chunk.transferId)) (written s chunk).fileMap) := by
  rw [filesAfter, hs]
  exact if_pos ⟨hhash, hrange⟩

/-- Of a stored chunk the named transfer keeps a trace, and others that map the same file
see its bytes. -/
theorem spares_iff_of_stored (hsettled : h.Settled) (hg : ∀ id, ¬g.Blocks id)
    (hs : h.manager.activeTransfers chunk.transferId = some (.receiving s))
    (hhash : hashChunk sha256 chunk.data = chunk.chunkHash)
    (hrange : chunkStart chunk.chunkIndex s.chunkSize + chunk.data.length ≤ s.fileMap.length)
    (htrace : (h.managerAfter sha256 g q (.fileChunk chunk)).activeTransfers chunk.transferId =
        some (.receiving (written s chunk)) ∨
      (h.managerAfter sha256 g q (.fileChunk chunk)).activeTransfers chunk.transferId = none) :
    h.Spares sha256 g q (.fileChunk chunk) ↔
      s.peer = q ∧ ∀ id t, h.manager.activeTransfers id = some t → t.peer ≠ q →
        h.mapped id = h.mapped chunk.transferId →
        AlreadyThere (h.files (h.mapped id)) chunk.data
          (chunkStart chunk.chunkIndex s.chunkSize) t.fileMap.length := by
  have hfiles := filesAfter_of_stored hs hhash hrange
  have hmap : (written s chunk).fileMap =
      overwrite (setLen (h.files (h.mapped chunk.transferId)) s.fileMap.length)
        (chunkStart chunk.chunkIndex s.chunkSize) chunk.data := by
    have hshows : setLen (h.files (h.mapped chunk.transferId)) s.fileMap.length = s.fileMap :=
      hsettled.shows _ _ hs
    rw [hshows]
    rfl
  have hbytes : ∀ id (t : TransferState),
      (h.filesAfter sha256 (.fileChunk chunk) (h.mapped id)).take t.fileMap.length =
          (h.files (h.mapped id)).take t.fileMap.length ↔
        (h.mapped id = h.mapped chunk.transferId →
          AlreadyThere (h.files (h.mapped id)) chunk.data
            (chunkStart chunk.chunkIndex s.chunkSize) t.fileMap.length) := by
    intro id t
    rw [hfiles, take_update_iff, hmap, take_writeBack_iff _ hrange]
    refine forall_congr' fun hfile => ?_
    rw [hfile]
  constructor
  · intro hspares
    refine ⟨?_, fun id t ht hpeer => (hbytes id t).mp (hspares id t ht hpeer).bytes⟩
    by_contra hpeer
    have hentry := (hspares _ _ hs hpeer).entry
    rw [entry_handled] at hentry
    rcases htrace with hwritten | hgone
    · rw [hwritten] at hentry
      have hcount : s.receivedChunks + 1 = s.receivedChunks := by
        have hstate := TransferState.receiving.inj (Option.some.inj hentry)
        exact congrArg ReceivingState.receivedChunks hstate
      simp at hcount
    · rw [hgone] at hentry
      cases hentry
  · rintro ⟨hpeer, hthere⟩ id t ht hother
    have hne : id ≠ chunk.transferId := by
      rintro rfl
      cases hs.symm.trans ht
      exact hother hpeer
    exact undisturbed_of_ne hsettled hg hne ht ((hbytes id t).mpr (hthere id t ht hother))

omit [DecidableEq φ] in
/-- When a chunk that is stored is harmless. -/
theorem harmless_iff_of_stored
    (hs : h.manager.activeTransfers chunk.transferId = some (.receiving s))
    (hhash : hashChunk sha256 chunk.data = chunk.chunkHash)
    (hrange : chunkStart chunk.chunkIndex s.chunkSize + chunk.data.length ≤ s.fileMap.length) :
    h.Harmless sha256 g q (.fileChunk chunk) ↔
      s.peer = q ∧ ∀ id t, h.manager.activeTransfers id = some t → t.peer ≠ q →
        h.mapped id = h.mapped chunk.transferId →
        AlreadyThere (h.files (h.mapped id)) chunk.data
          (chunkStart chunk.chunkIndex s.chunkSize) t.fileMap.length := by
  constructor
  · intro hharmless
    obtain ⟨hown, hthere⟩ := hharmless s hs
    refine ⟨?_, hthere hhash hrange⟩
    by_contra hpeer
    exact (hown hpeer).2 hrange
  · rintro ⟨hpeer, hthere⟩ s' hs'
    cases hs.symm.trans hs'
    exact ⟨fun hother => absurd hpeer hother, fun _ _ => hthere⟩

/-- When a chunk spares the transfers of others. -/
theorem spares_fileChunk_iff (hsettled : h.Settled) (hg : ∀ id, ¬g.Blocks id)
    (chunk : FileChunk) :
    h.Spares sha256 g q (.fileChunk chunk) ↔ h.Harmless sha256 g q (.fileChunk chunk) := by
  obtain ⟨-, houtcome⟩ := handleChunk_outcome sha256 (hg chunk.transferId) h.manager
  have hafter : h.managerAfter sha256 g q (.fileChunk chunk) =
    Exec.stateAfter (handleChunk sha256 g chunk h.manager) := rfl
  generalize Exec.stateAfter (handleChunk sha256 g chunk h.manager) = m' at houtcome hafter
  cases houtcome with
  | ignored hentry =>
    have hfiles : h.filesAfter sha256 (.fileChunk chunk) = h.files :=
      filesAfter_of_not_stored fun s hs => absurd hs (hentry s)
    exact iff_of_true (spares_of_same hsettled hafter hfiles rfl)
      fun s hs => absurd hs (hentry s)
  | @badHash s hentry hhash =>
    have hfiles : h.filesAfter sha256 (.fileChunk chunk) = h.files :=
      filesAfter_of_not_stored fun _ _ hstored => hhash hstored.1
    constructor
    · intro hspares s' hs'
      refine ⟨fun hpeer => ?_, fun h => absurd h hhash⟩
      cases hentry.symm.trans hs'
      have hframe := (hspares _ _ hentry hpeer).frames
        [(s.peer, .fileChunkAck ⟨chunk.transferId, chunk.chunkIndex, .badHash⟩)]
        (congrArg TransferManager.outbox hafter) _ List.mem_cons_self
      exact absurd rfl hframe
    · intro hharmless id t ht hpeer
      have hne : id ≠ chunk.transferId := by
        rintro rfl
        cases hentry.symm.trans ht
        exact hhash ((hharmless s hentry).1 hpeer).1
      exact undisturbed_of_ne hsettled hg hne ht (by rw [hfiles]; rfl)
  | outOfRange hentry hhash hrange =>
    have hrange' : ∀ s, h.manager.activeTransfers chunk.transferId = some (.receiving s) →
        ¬chunkStart chunk.chunkIndex s.chunkSize + chunk.data.length ≤ s.fileMap.length := by
      intro s hs
      cases hentry.symm.trans hs
      exact hrange
    have hfiles : h.filesAfter sha256 (.fileChunk chunk) = h.files :=
      filesAfter_of_not_stored fun s hs hstored => hrange' s hs hstored.2
    refine iff_of_true (spares_of_same hsettled hafter hfiles rfl) fun s hs => ?_
    exact ⟨fun _ => ⟨hhash, hrange' s hs⟩, fun _ h => absurd h (hrange' s hs)⟩
  | stored hentry hhash hrange hopen =>
    refine (spares_iff_of_stored hsettled hg hentry hhash hrange (Or.inl ?_)).trans
      (harmless_iff_of_stored hentry hhash hrange).symm
    rw [hafter]
    exact Function.update_self _ _ _
  | completed hentry hhash hrange hlast =>
    refine (spares_iff_of_stored hsettled hg hentry hhash hrange (Or.inr ?_)).trans
      (harmless_iff_of_stored hentry hhash hrange).symm
    rw [hafter]
    exact Function.update_self _ _ _

end

/-- A handler spares the transfers of others exactly when the message is harmless. -/
theorem spares_iff_harmless (hsettled : h.Settled) (hg : ∀ id, ¬g.Blocks id)
    (q : SocketAddr) (incoming : Incoming φ) :
    h.Spares sha256 g q incoming ↔ h.Harmless sha256 g q incoming := by
  cases incoming with
  | fileOffer offer opening => exact spares_fileOffer_iff hsettled hg offer opening
  | fileAccept accept => exact spares_fileAccept_iff hsettled hg accept
  | creditUpdate id credits => exact spares_creditUpdate_iff hsettled hg id credits
  | fileChunk chunk => exact spares_fileChunk_iff hsettled hg chunk
  | fileChunkAck ack => exact spares_fileChunkAck_iff hsettled hg ack

/-- Whatever peer sends whatever message, the transfers of all other peers stay as they are
exactly when the message is harmless and, if there are such transfers, its handler accesses no
page past the end of a mapped file. -/
theorem isolated_iff_harmless (hreachable : Reachable sha256 g h) (hg : ∀ id, ¬g.Blocks id)
    (q : SocketAddr) (incoming : Incoming φ) :
    h.Isolated sha256 g q incoming ↔ h.Harmless sha256 g q incoming ∧
      (h.Faults sha256 g incoming →
        ∀ id t, h.manager.activeTransfers id = some t → t.peer = q) := by
  rw [← spares_iff_harmless (hreachable.settled hg) hg q incoming]
  by_cases hfaults : h.Faults sha256 g incoming
  · have hkilled : h.receive sha256 g q incoming = none := if_pos hfaults
    constructor
    · intro hisolated
      have hown : ∀ id t, h.manager.activeTransfers id = some t → t.peer = q := by
        intro id t ht
        by_contra hpeer
        obtain ⟨h', hreceive, -⟩ := hisolated id t ht hpeer
        cases hkilled.symm.trans hreceive
      exact ⟨fun id t ht hpeer => absurd (hown id t ht) hpeer, fun _ => hown⟩
    · rintro ⟨-, hown⟩ id t ht hpeer
      exact absurd (hown hfaults id t ht) hpeer
  · have hreceive : h.receive sha256 g q incoming = some (h.handled sha256 g q incoming) :=
      if_neg hfaults
    constructor
    · intro hisolated
      refine ⟨fun id t ht hpeer => ?_, fun h => absurd h hfaults⟩
      obtain ⟨h', hreceive', hundisturbed⟩ := hisolated id t ht hpeer
      rwa [eq_handled_of_receive hreceive'] at hundisturbed
    · rintro ⟨hspares, -⟩ id t ht hpeer
      exact ⟨_, hreceive, hspares id t ht hpeer⟩

/-- A host that has offered its file of one byte to the peer at port 9000. -/
def sampleHost : Host PathBuf :=
  offerFile Sha256.digest .dashMap ⟨.v4 (Vector.replicate 4 127), 9000⟩ "a" ⟨"a"⟩
    ⟨Vector.replicate 16 7⟩ 1 ⟨.new ⟨"downloads"⟩, fun _ => ⟨"a"⟩, fun _ => [1], 4096⟩

/-- The sample host is reachable. -/
theorem reachable_sampleHost : Reachable Sha256.digest .dashMap sampleHost :=
  .offerFile _ _ _ _ _ (by decide) (.new _ _ _ _)

/-- The transfer of the sample host. -/
theorem sampleHost_entry : sampleHost.manager.activeTransfers ⟨Vector.replicate 16 7⟩ =
    some (.sending (offered ⟨.v4 (Vector.replicate 4 127), 9000⟩ [1] 1)) := rfl

/-- Another peer may offer a file of its own, which is mapped to another path. -/
theorem isolated_other_offer : Reachable Sha256.digest .dashMap sampleHost ∧
    sampleHost.Isolated Sha256.digest .dashMap ⟨.v4 (Vector.replicate 4 127), 9001⟩
      (.fileOffer ⟨⟨Vector.replicate 16 8⟩, "b", 1, 1, 1, Vector.replicate 32 0⟩
        (.mapped ⟨"downloads/b"⟩)) := by
  refine ⟨reachable_sampleHost, (isolated_iff_harmless reachable_sampleHost
    Guards.not_dashMap_blocks _ _).mpr ⟨⟨?_, ?_⟩, ?_⟩⟩
  · rintro _ _ t ⟨⟩
  · rintro _ ⟨⟩ id t ht hpeer hfile
    have hmapped : sampleHost.mapped = fun _ => ⟨"a"⟩ := Function.update_eq_self _ _
    rw [hmapped] at hfile
    have htext : "a" = "downloads/b" := congrArg PathBuf.text hfile
    exact absurd htext (by decide)
  · rintro ⟨_, hmem, -⟩
    cases hmem

/-- Another peer accepts the offer with a bitmap of its own: nothing will be sent. -/
theorem foreign_accept_disturbs : Reachable Sha256.digest .dashMap sampleHost ∧
    ¬sampleHost.Isolated Sha256.digest .dashMap ⟨.v4 (Vector.replicate 4 127), 9001⟩
      (.fileAccept (.new ⟨Vector.replicate 16 7⟩ [])) := by
  refine ⟨reachable_sampleHost, fun hisolated => ?_⟩
  obtain ⟨h', hreceive, hundisturbed⟩ := hisolated _ _ sampleHost_entry (by decide)
  have hentry := hundisturbed.entry
  rw [eq_handled_of_receive hreceive] at hentry
  cases hentry

/-- One name is offered with eight bytes and then with one, on a host with pages of four bytes. -/
def cutHost : Host PathBuf :=
  let offer (id : UInt8) (fileSize : UInt64) : Incoming PathBuf :=
    .fileOffer ⟨⟨Vector.replicate 16 id⟩, "b", fileSize, 4, 2, Vector.replicate 32 0⟩
      (.mapped ⟨"downloads/b"⟩)
  let host : Host PathBuf := ⟨.new ⟨"downloads"⟩, fun _ => ⟨"a"⟩, fun _ => [], 4⟩
  [offer 7 8, offer 8 1].foldl
    (fun h incoming => h.handled Sha256.digest .dashMap (⟨.v4 (Vector.replicate 4 127), 9001⟩)
      incoming) host

/-- The second chunk of the first offer kills the node, and the first one does not. -/
example : let chunk (i : UInt32) : FileChunk :=
      ⟨⟨Vector.replicate 16 7⟩, i, hashChunk Sha256.digest [1], [1]⟩
    cutHost.Faults Sha256.digest .dashMap (.fileChunk (chunk 1)) ∧
      ¬cutHost.Faults Sha256.digest .dashMap (.fileChunk (chunk 0)) := by
  decide +kernel

end Host

end CekyP2P.Transfer
