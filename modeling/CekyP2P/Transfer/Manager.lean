import CekyP2P.Core.Blocks
import CekyP2P.Core.Exec
import CekyP2P.Transfer.State

/-!
# The transfer manager

The handlers as the source has them. The map of active transfers hands out entries
under guards: a guard is held for the scope of the binding, and asking again for an
entry whose guard the same call holds blocks. Frames are appended to `outbox` in the
order in which they are handed to the channel, and `flushed` records what
`flush` wrote and where. File contents, random ids and I/O failures are inputs.
-/

namespace CekyP2P.Transfer

open Protocol

/-- The errors of the manager. -/
inductive TransferError
  | io
  | notFound
  | invalidState
  | badHash
  deriving DecidableEq

/-- The transfers by their identifiers, what was sent, and what was flushed to disk. -/
structure TransferManager where
  activeTransfers : TransferId → Option TransferState
  outbox : List (SocketAddr × Payload)
  downloadDir : PathBuf
  flushed : List (PathBuf × List UInt8)

/-- A method of the manager. -/
abbrev ManagerM (α : Type) := Exec TransferError TransferManager α

/-- The entries whose guards the running call holds; a plain map has none. -/
inductive Guards
  | plain
  | held (ids : List TransferId)

/-- No guard is held when a handler is called. -/
abbrev Guards.dashMap : Guards := .held []

/-- An access waits for a lock that is held. -/
def Guards.Blocks (g : Guards) (id : TransferId) : Prop :=
  match g with
  | .plain => False
  | .held ids => id ∈ ids

instance (g : Guards) (id : TransferId) : Decidable (g.Blocks id) :=
  match g with
  | .plain => inferInstanceAs (Decidable False)
  | .held ids => inferInstanceAs (Decidable (id ∈ ids))

/-- The locks with one more. -/
def Guards.take (g : Guards) (id : TransferId) : Guards :=
  match g with
  | .plain => .plain
  | .held ids => .held (id :: ids)

namespace TransferManager

/-- A manager without transfers. -/
def new (downloadDir : PathBuf) : TransferManager := ⟨fun _ => none, [], downloadDir, []⟩

/-- `if let Some(mut transfer) = active_transfers.get_mut(&id) { .. } else { .. }`: the
guard is held in the first branch only. -/
def getMut {α : Type} (g : Guards) (id : TransferId) (found : Guards → TransferState → ManagerM α)
    (missing : ManagerM α) : ManagerM α := do
  let m ← get
  if g.Blocks id then throw .blocked
  else match m.activeTransfers id with
    | some transfer => found (g.take id) transfer
    | none => missing

/-- Write through the guard of an entry. -/
def setEntry (id : TransferId) (transfer : TransferState) : ManagerM Unit :=
  modify fun m => { m with activeTransfers := Function.update m.activeTransfers id (some transfer) }

/-- Insert an entry, if no lock is held on it. -/
def insert (g : Guards) (id : TransferId) (transfer : TransferState) : ManagerM Unit :=
  if g.Blocks id then throw .blocked else setEntry id transfer

/-- Remove an entry, if no lock is held on it. -/
def remove (g : Guards) (id : TransferId) : ManagerM Unit :=
  if g.Blocks id then throw .blocked
  else modify fun m => { m with activeTransfers := Function.update m.activeTransfers id none }

/-- Hand frames for a peer to the channel. -/
def send (peer : SocketAddr) (frames : List Payload) : ManagerM Unit :=
  modify fun m => { m with outbox := m.outbox ++ frames.map (peer, ·) }

variable (sha256 : List UInt8 → Vector UInt8 32)

/-! ## Sending -/

/-- Initiate a file send offer; `file` is what the path holds, if it can be read. -/
def offerFile (g : Guards) (peer : SocketAddr) (fileName : String) (file : Option (List UInt8))
    (randomId : TransferId) (chunkSize : UInt32) : ManagerM TransferId := do
  let file ← Exec.orError .io file
  let fileSize := UInt64.ofNat file.length
  let fileHash := calculateFileHash sha256 file chunkSize
  let totalChunks := computeTotalChunks fileSize chunkSize
  match FileOffer.new randomId fileName fileSize chunkSize fileHash with
  | .error _ => throw (.error .invalidState)
  | .ok offer =>
    insert g randomId (.sending
      { peer := peer
        fileMap := file
        bitfield := allMissing totalChunks
        credits := 0
        chunkSize := chunkSize
        totalChunks := totalChunks
        currentChunkIdx := 0 })
    send peer [.fileOffer offer]
    pure randomId

/-- One iteration of the pump loop; `none` is a slice out of range. -/
def pumpStep (id : TransferId) (s : SendingState) : Option (SendingState × List Payload) :=
  if bitmapIsMissing s.bitfield s.currentChunkIdx then
    let start := chunkStart s.currentChunkIdx s.chunkSize
    let stop := chunkEnd s.fileMap.length s.currentChunkIdx s.chunkSize
    if start ≤ stop then
      let data := (s.fileMap.take stop).drop start
      some ({ s with credits := s.credits - 1, currentChunkIdx := s.currentChunkIdx + 1 },
        [.fileChunk ⟨id, s.currentChunkIdx, hashChunk sha256 data, data⟩])
    else none
  else some ({ s with currentChunkIdx := s.currentChunkIdx + 1 }, [])

/-- The pump loop, for at most `fuel` iterations. -/
def pumpLoop (id : TransferId) : Nat → SendingState → Option (SendingState × List Payload)
  | 0, s => some (s, [])
  | fuel + 1, s =>
    if 0 < s.credits ∧ s.currentChunkIdx < s.totalChunks then do
      let (s', sent) ← pumpStep sha256 id s
      let (s'', rest) ← pumpLoop id fuel s'
      some (s'', sent ++ rest)
    else some (s, [])

/-- Pump sending chunks based on available credits and missing bitfield. The cursor moves
in every iteration, so the loop runs at most once for each remaining chunk. -/
def pumpSend (g : Guards) (id : TransferId) : ManagerM Unit :=
  getMut g id (fun _ transfer => match transfer with
    | .sending s =>
      match pumpLoop sha256 id (s.totalChunks.toNat - s.currentChunkIdx.toNat) s with
      | some (s', sent) => do
        setEntry id (.sending s')
        send s.peer sent
      | none => throw .panicked
    | .receiving _ => pure ())
  (pure ())

/-- Process an incoming `FileAccept`. -/
def handleAccept (g : Guards) (accept : FileAccept) : ManagerM Unit :=
  getMut g accept.transferId (fun _ transfer => match transfer with
    | .sending s =>
      setEntry accept.transferId (.sending { s with bitfield := accept.missingBitmap })
    | .receiving _ => throw (.error .notFound))
  (throw (.error .notFound))

/-- Process incoming `CreditUpdate`. -/
def handleCreditUpdate (g : Guards) (id : TransferId) (credits : UInt32) : ManagerM Unit := do
  getMut g id (fun _ transfer => match transfer with
    | .sending s => setEntry id (.sending { s with credits := s.credits + credits })
    | .receiving _ => pure ())
    (pure ())
  pumpSend sha256 g id

/-- The sending state after an acknowledgement: a bad hash marks the chunk missing again
and rewinds the cursor to it. -/
def acknowledged (s : SendingState) (ack : FileChunkAck) : SendingState :=
  if ack.status = .badHash then
    { s with
      bitfield := bitmapSetMissing s.bitfield ack.chunkIndex true
      currentChunkIdx := if ack.chunkIndex < s.currentChunkIdx then ack.chunkIndex
        else s.currentChunkIdx }
  else s

/-- Process incoming `FileChunkAck`; the pump is called inside the scope of the guard. -/
def handleChunkAck (g : Guards) (ack : FileChunkAck) : ManagerM Unit :=
  getMut g ack.transferId (fun g transfer => match transfer with
    | .sending s => do
      setEntry ack.transferId (.sending (acknowledged s ack))
      pumpSend sha256 g ack.transferId
    | .receiving _ => pure ())
  (pure ())

/-! ## Receiving -/

/-- `set_len`: cut off or extend with zeros. -/
def setLen (content : List UInt8) (len : Nat) : List UInt8 :=
  content.take len ++ List.replicate (len - content.length) 0

/-- Process an incoming `FileOffer`; `disk` is what the path holds (nothing for a new
file), or `none` where opening, resizing or mapping it fails. -/
def handleOffer (g : Guards) (peer : SocketAddr) (offer : FileOffer)
    (disk : Option (List UInt8)) : ManagerM Unit := do
  let m ← get
  let content ← Exec.orError .io disk
  insert g offer.transferId (.receiving
    { peer := peer
      fileMap := setLen content offer.fileSize.toNat
      expectedRoot := offer.fileHash
      bitfield := allMissing offer.totalChunks
      chunkSize := offer.chunkSize
      totalChunks := offer.totalChunks
      receivedChunks := 0
      filePath := m.downloadDir.join offer.fileName })
  send peer
    [.fileAccept (.new offer.transferId (allMissing offer.totalChunks)),
      .creditUpdate offer.transferId 50]

/-- The receiving state after a chunk that fits into the map. -/
def written (s : ReceivingState) (chunk : FileChunk) : ReceivingState :=
  { s with
    fileMap := overwrite s.fileMap (chunkStart chunk.chunkIndex s.chunkSize) chunk.data
    bitfield := bitmapSetMissing s.bitfield chunk.chunkIndex false
    receivedChunks := s.receivedChunks + 1 }

/-- Sync the map of a receiving transfer to disk. -/
def syncMap (g : Guards) (id : TransferId) : ManagerM Unit :=
  getMut g id (fun _ transfer => match transfer with
    | .receiving s => modify fun m => { m with flushed := m.flushed ++ [(s.filePath, s.fileMap)] }
    | .sending _ => pure ())
  (pure ())

/-- Process an incoming `FileChunk`. -/
def handleChunk (g : Guards) (chunk : FileChunk) : ManagerM Unit := do
  let id := chunk.transferId
  let (completed, peer) ← getMut g id (fun _ transfer => match transfer with
    | .receiving s =>
      if hashChunk sha256 chunk.data ≠ chunk.chunkHash then do
        send s.peer [.fileChunkAck ⟨id, chunk.chunkIndex, .badHash⟩]
        throw (.error .badHash)
      else if chunkStart chunk.chunkIndex s.chunkSize + chunk.data.length ≤ s.fileMap.length then do
        setEntry id (.receiving (written s chunk))
        send s.peer [.fileChunkAck ⟨id, chunk.chunkIndex, .ok⟩, .creditUpdate id 1]
        pure (decide ((written s chunk).receivedChunks = s.totalChunks), some s.peer)
      else pure (false, some s.peer)
    | .sending _ => pure (false, none))
    (throw (.error .notFound))
  if completed = true then do
    syncMap g id
    remove g id
    match peer with
    | some p => send p [.fileComplete ⟨id, Vector.replicate 32 0⟩]
    | none => pure ()
  else pure ()

end TransferManager

end CekyP2P.Transfer
