import CekyP2P.Node.Delivery

/-!
# What arrives of a file

The sender keeps the guard of its transfer while it pumps for an acknowledgement, and the pump asks
for the same guard. So the first acknowledgement stops its loop: no file of more than fifty chunks
ever arrives, and the sender of a file that is accepted always ends up waiting for itself. A file of
one chunk arrives all the same.
-/

namespace CekyP2P.Node

open Crypto Dht Protocol Transfer TransferManager Transport Endpoint

namespace Delivery

variable {σ : Type} {S : Suite UInt8 σ} {F : Type} {D : Delivery F} {env : Env σ}
  {nodes : Side → ControlPlane S F} {t : Site S F} {side : Side}

/-- An entry that is being worked on is locked. -/
theorem blocks_take_dashMap (id : TransferId) : (Guards.dashMap.take id).Blocks id := by
  simp [Guards.take, Guards.Blocks]

/-- The chunks of a file, which are 1000 bytes long. -/
theorem chunkCount_eq (D : Delivery F) : chunkCount D.exchange.file.length
    D.exchange.chunkSize.toNat = (D.exchange.file.length + 999) / 1000 := by
  rw [D.chunkSize_eq]
  rfl

/-- The number of chunks of a file that the transfer can name. -/
theorem toNat_totalChunks (D : Delivery F) (hsize : D.exchange.file.length ≤ 1000 * (2 ^ 32 - 1)) :
    D.exchange.totalChunks.toNat = (D.exchange.file.length + 999) / 1000 := by
  have htotal : D.exchange.totalChunks.toNat = _ :=
    toNat_computeTotalChunks D.exchange.chunkSize_ne_zero
  rw [D.exchange.toNat_fileSize, D.chunkCount_eq] at htotal
  omega

/-- A file with bytes has chunks. -/
theorem totalChunks_ne_zero (D : Delivery F) (hpos : 0 < D.exchange.file.length)
    (hsize : D.exchange.file.length ≤ 1000 * (2 ^ 32 - 1)) : D.exchange.totalChunks ≠ 0 := by
  intro hzero
  have htotal := D.toNat_totalChunks hsize
  rw [hzero, UInt32.toNat_zero] at htotal
  omega

/-- The offsets of fifty chunks fit into 32 bits. -/
theorem offsetsBounded (D : Delivery F) (hfew : D.exchange.totalChunks.toNat ≤ 50) :
    D.exchange.OffsetsBounded := by
  rw [Exchange.OffsetsBounded, D.chunkSize_eq]
  calc D.exchange.totalChunks.toNat * 1000 ≤ 50 * 1000 := Nat.mul_le_mul_right _ hfew
    _ ≤ 2 ^ 32 := by decide

/-- In every run, the receiver has written nothing, or the whole file, and then the file has no more
than fifty chunks. -/
theorem finished_of_run (hS : S.Lawful) (hconnected : env.connected = true)
    (hsent : env.sent = true)
    (hnone : (nodes .listener).peerStates.lookup (D.peer .listener) = none)
    (hguards : D.guards = .dashMap) (hsize : D.exchange.file.length ≤ 1000 * (2 ^ 32 - 1))
    {acts : List (Act σ)} (hlegal : D.Legal env nodes acts) :
    ((D.run env nodes acts).managed D.src.other).manager.flushed = [] ∨
      ((D.run env nodes acts).managed D.src.other).manager.flushed =
          [(D.exchange.path, D.exchange.file)] ∧
        0 < D.exchange.file.length ∧ D.exchange.file.length ≤ 50000 := by
  have hinvariant := invariant_run hS hconnected hsent hnone hlegal
  cases hinvariant.progress with
  | idle hmanager =>
    rw [hmanager]
    exact .inl rfl
  | underway l k hreach hsender hreceiver hdelivered hrunning hanswered hfew hstopped =>
    rw [hreceiver]
    refine hreach.unflushed.imp_right fun hcompleted => ?_
    have hblocks : (D.guards.take D.exchange.id).Blocks D.exchange.id := by
      rw [hguards]
      exact blocks_take_dashMap _
    have htwo : l.toSender ⊆ Finset.range 2 := by
      rw [hanswered]
      exact Finset.range_mono (hfew hblocks)
    have hle := (hreach.totalChunks_le hcompleted).trans (hreach.sentWeight_le htwo)
    have hbounded := D.offsetsBounded hle
    have hpos := hreach.totalChunks_pos hbounded hcompleted
    have hcount := D.chunkCount_eq
    rw [D.toNat_totalChunks hsize] at hle hpos
    exact ⟨hreach.flushed hbounded (by omega) hcompleted, by omega, by omega⟩

/-- A byte in a file. -/
def oneByte : Exchange where
  file := [7]
  fileName := "note"
  chunkSize := 1000
  id := ⟨Vector.replicate 16 7⟩
  senderAddr := Transport.SocketPair.localAddrs .listener
  receiverAddr := Transport.SocketPair.localAddrs .dialer
  senderDir := ⟨"downloads"⟩
  receiverDir := ⟨"received"⟩
  size_lt := by decide
  chunkSize_ne_zero := by decide
  name_le := by decide

/-- The dialer sends it, with a hash that is the same for all data. -/
def byDialer : Delivery Nat where
  f64 := ControlPlane.wholeF64
  crc := Stack.zeroCrc
  sha256 _ := Vector.replicate 32 0
  guards := .dashMap
  peer := Transport.SocketPair.localAddrs
  files _ := ⟨fun _ => some [7], fun _ => "note", ⟨Vector.replicate 16 7⟩, fun _ => some []⟩
  src := .dialer
  path := ⟨"note"⟩
  exchange := oneByte
  free := Guards.not_dashMap_blocks
  read_eq := rfl
  fileName_eq := rfl
  randomId_eq := rfl
  chunkSize_eq := rfl
  receiverAddr_eq := rfl
  senderAddr_eq := rfl

/-- Frames of the manager go from one node to the other. -/
def passes (side : Side) (count : Nat) : List (Act (Vector UInt8 32)) :=
  List.replicate count (.forward side ControlPlane.quietEnv) ++
    List.replicate count (.move (.write side)) ++ [.move (.arrive side.other 1000)] ++
    List.replicate count (.move (.next side.other)) ++
    List.replicate count (.move (.take side.other ControlPlane.quietEnv))

/-- Two nodes that know each other, the command, the offer, its answer, the chunk, and the answer to
that. -/
def delivering : List (Act (Vector UInt8 32)) :=
  Stack.conversation.map .move ++ [.move (.loop .dialer ControlPlane.quietEnv
    (.command (.sendFile (Transport.SocketPair.localAddrs .dialer) ⟨"note"⟩)))] ++
    passes .dialer 1 ++ passes .listener 2 ++ passes .dialer 1 ++ passes .listener 3

/-- The two nodes after this. -/
def delivered : Site xorSuite Nat := byDialer.run ControlPlane.quietEnv Stack.pair delivering

/-- The sample run is legal. -/
theorem legal_delivering : byDialer.Legal ControlPlane.quietEnv Stack.pair delivering := by
  unfold Legal
  decide +kernel

/-- The byte is among what fifty chunks can carry. -/
theorem finished_delivered : (delivered.managed byDialer.src.other).manager.flushed = [] ∨
    (delivered.managed byDialer.src.other).manager.flushed =
        [(byDialer.exchange.path, byDialer.exchange.file)] ∧
      0 < byDialer.exchange.file.length ∧ byDialer.exchange.file.length ≤ 50000 := by
  unfold delivered
  exact finished_of_run xorSuite_lawful rfl rfl rfl rfl (by decide) legal_delivering

/-- Nothing can happen any more, but for new commands and other connections: the tasks have nothing
to do, and a loop has taken every event and every frame of its manager, or it is stopped. -/
structure Settled (D : Delivery F) (t : Site S F) : Prop where
  settled : ∀ side, t.stack.link.Settled D.crc side
  done : ∀ side, (t.managed side).stopped = true ∨
    t.stack.nextEvent side = none ∧ (t.managed side).next = none

/-- A loop that runs has dispatched all that the other has forwarded for its manager. -/
theorem Invariant.heard_eq (hS : S.Lawful) (hconnected : env.connected = true)
    (hsent : env.sent = true)
    (hnone : (nodes .listener).peerStates.lookup (D.peer .listener) = none)
    (h : D.Invariant env nodes t) (hsettled : t.stack.link.Settled D.crc side.other)
    (htaken : t.stack.nextEvent side = none)
    (hsome : (t.managed side.other).manager.outbox ≠ []) :
    heard t side = (t.managed side.other).forwarded := by
  have hvoice := h.voice side.other
  obtain ⟨s, hs⟩ : ∃ s, (t.stack.ends side.other).node.session (D.peer side.other) = some s :=
    Option.ne_none_iff_exists'.mp fun hno => hsome (hvoice.silent hno).1
  have hstage := stage_run hS hconnected hsent hnone h.dialogue
  rw [heard, hstage.length_transfers side hs (h.sound.sent_lt_taken hsettled htaken),
    ← (hvoice.said s hs).length_eq, List.length_take, Nat.min_eq_left hvoice.forwarded_le]

/-- The exchange of a run that has come to rest: all frames have arrived, or the sender was stopped
by an acknowledgement. -/
theorem Invariant.outcome (hS : S.Lawful) (hconnected : env.connected = true)
    (hsent : env.sent = true)
    (hnone : (nodes .listener).peerStates.lookup (D.peer .listener) = none)
    (h : D.Invariant env nodes t) (hsettled : D.Settled t)
    (hoffered : (t.managed D.src).manager.outbox ≠ []) :
    ∃ l k, Transfer.Link.Reachable D.sha256 D.exchange D.disk l ∧
      (t.managed D.src.other).manager = l.receiver ∧ l.toSender = Finset.range k ∧
      ((D.guards.take D.exchange.id).Blocks D.exchange.id → k ≤ 2) ∧
      ((t.managed D.src).stopped = true ∧
          (∃ addr ack, l.receiver.outbox[k]? = some (addr, .fileChunkAck ack)) ∨
        l.Quiet) := by
  cases h.progress with
  | idle hmanager =>
    rw [hmanager] at hoffered
    exact absurd rfl hoffered
  | underway l k hreach hsender hreceiver hdelivered hrunning hanswered hfew hstopped =>
    refine ⟨l, k, hreach, hreceiver, hanswered, hfew, ?_⟩
    rcases hstopped with ⟨hruns, rfl⟩ | ⟨hstop, -, -, hack⟩
    · refine .inr ?_
      have hall : ∀ side, (t.managed side).stopped = false →
          t.stack.nextEvent side = none ∧
            (t.managed side).forwarded = (t.managed side).manager.outbox.length := by
        intro side hruns
        rcases hsettled.done side with hstop | ⟨htaken, hnext⟩
        · rw [hruns] at hstop
          cases hstop
        · exact ⟨htaken, Nat.le_antisymm (h.voice side).forwarded_le
            (List.getElem?_eq_none_iff.mp hnext)⟩
      obtain ⟨htaken, hforwarded⟩ := hall D.src hruns
      obtain ⟨htaken', hforwarded'⟩ := hall D.src.other hrunning
      refine ⟨?_, ?_⟩
      · have hheard := h.heard_eq hS hconnected hsent hnone (hsettled.settled _) htaken'
          (by rw [Side.other_other]; exact hoffered)
        rw [Side.other_other, hforwarded, hsender] at hheard
        rw [hdelivered, hheard]
      · by_cases hempty : (t.managed D.src.other).manager.outbox = []
        · rw [← hreceiver, hempty]
          exact Finset.empty_subset _
        · have hheard := h.heard_eq hS hconnected hsent hnone (hsettled.settled _) htaken hempty
          rw [hforwarded', hreceiver] at hheard
          rw [hanswered, hheard]
    · exact .inl ⟨hstop, hack⟩

variable {acts : List (Act σ)} {content : List UInt8}

/-- Sending a file to a node that accepts it stops the loop of the sender for good: a run that comes
to rest always ends with the sender waiting for a guard that it holds itself. -/
theorem stopped_of_settled (hS : S.Lawful) (hconnected : env.connected = true)
    (hsent : env.sent = true)
    (hnone : (nodes .listener).peerStates.lookup (D.peer .listener) = none)
    (hguards : D.guards = .dashMap) (hpos : 0 < D.exchange.file.length)
    (hsize : D.exchange.file.length ≤ 1000 * (2 ^ 32 - 1)) (hdisk : D.disk = some content)
    (hlegal : D.Legal env nodes acts) (hsettled : D.Settled (D.run env nodes acts))
    (hoffered : ((D.run env nodes acts).managed D.src).manager.outbox ≠ []) :
    ((D.run env nodes acts).managed D.src).stopped = true := by
  have hinvariant := invariant_run hS hconnected hsent hnone hlegal
  obtain ⟨l, k, hreach, hreceiver, hanswered, hfew, hend⟩ :=
    hinvariant.outcome hS hconnected hsent hnone hsettled hoffered
  rcases hend with ⟨hstop, -⟩ | hquiet
  · exact hstop
  · exfalso
    have hblocks : (D.guards.take D.exchange.id).Blocks D.exchange.id := by
      rw [hguards]
      exact blocks_take_dashMap _
    have hcompleted := hreach.completed_of_settled hdisk hquiet (D.totalChunks_ne_zero hpos hsize)
    have hmore := hreach.two_lt_of_completed hcompleted
    have hless := hquiet.2 (Finset.mem_range.mpr hmore)
    rw [hanswered, Finset.mem_range] at hless
    have := hfew hblocks
    omega

/-- After the sample run nothing is under way. -/
theorem settled_delivered : byDialer.Settled delivered := by
  have hidle : (∀ side ∈ [Side.dialer, .listener], (delivered.stack.link.ends side).queue = [] ∧
      delivered.stack.link.wire side = [] ∧
      (delivered.stack.link.ends side.other).codec = .header ∧
      (delivered.stack.link.ends side.other).buffer = []) ∧
      (delivered.managed .dialer).stopped = true ∧ delivered.stack.nextEvent .listener = none ∧
      (delivered.managed .listener).next = none := by
    decide +kernel
  obtain ⟨hidle, hstopped, htaken⟩ := hidle
  refine ⟨fun side => ?_, fun side => ?_⟩
  · obtain ⟨hqueue, hwire, hcodec, hbuffer⟩ := hidle side (by cases side <;> decide)
    exact Stack.settled_of_idle hqueue hwire hcodec hbuffer
  · cases side with
    | dialer => exact .inl hstopped
    | listener => exact .inr htaken

/-- In the sample run a file was offered. -/
theorem offered_delivered : (delivered.managed byDialer.src).manager.outbox ≠ [] := by
  decide +kernel

/-- The dialer waits for itself. -/
theorem stopped_delivered : (delivered.managed byDialer.src).stopped = true := by
  have hdisk : byDialer.disk = some [] := rfl
  have hoffered := offered_delivered
  unfold delivered at hoffered ⊢
  exact stopped_of_settled xorSuite_lawful rfl rfl rfl rfl (by decide) (by decide) hdisk
    legal_delivering settled_delivered hoffered

/-- A file of one chunk arrives in spite of that: once nothing can happen any more, the receiver has
written it. -/
theorem arrives_of_settled (hS : S.Lawful) (hconnected : env.connected = true)
    (hsent : env.sent = true)
    (hnone : (nodes .listener).peerStates.lookup (D.peer .listener) = none)
    (hpos : 0 < D.exchange.file.length) (hsize : D.exchange.file.length ≤ 1000)
    (hdisk : D.disk = some content) (hlegal : D.Legal env nodes acts)
    (hsettled : D.Settled (D.run env nodes acts))
    (hoffered : ((D.run env nodes acts).managed D.src).manager.outbox ≠ []) :
    ((D.run env nodes acts).managed D.src.other).manager.flushed =
      [(D.exchange.path, D.exchange.file)] := by
  have hinvariant := invariant_run hS hconnected hsent hnone hlegal
  obtain ⟨l, k, hreach, hreceiver, -, -, hend⟩ :=
    hinvariant.outcome hS hconnected hsent hnone hsettled hoffered
  have hone : D.exchange.totalChunks.toNat = 1 := by
    rw [D.toNat_totalChunks (by omega)]
    omega
  have hcompleted : l.Completed D.exchange := by
    rcases hend with ⟨-, addr, ack, hack⟩ | hquiet
    · have htwo := hreach.two_le_of_ack hack
      have hlt := (List.getElem?_eq_some_iff.mp hack).1
      exact hreach.completed_of_answered (UInt32.toNat_inj.mp hone) (by omega)
    · exact hreach.completed_of_settled hdisk hquiet (D.totalChunks_ne_zero hpos (by omega))
  have hcount := D.chunkCount_eq
  rw [hreceiver]
  exact hreach.flushed (D.offsetsBounded (by omega)) (by omega) hcompleted

/-- The listener has the byte. -/
theorem arrives_delivered :
    (delivered.managed byDialer.src.other).manager.flushed =
      [(byDialer.exchange.path, byDialer.exchange.file)] := by
  have hdisk : byDialer.disk = some [] := rfl
  have hoffered := offered_delivered
  unfold delivered at hoffered ⊢
  exact arrives_of_settled xorSuite_lawful rfl rfl rfl (by decide) (by decide) hdisk
    legal_delivering settled_delivered hoffered

end Delivery

end CekyP2P.Node
