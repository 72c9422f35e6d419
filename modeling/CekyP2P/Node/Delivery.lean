import CekyP2P.Node.Stack
import CekyP2P.Node.Transfers
import CekyP2P.Node.WireSize

/-!
# A file between two nodes

Two nodes over TCP, each with its transfer manager, and one of them is told to send a file to the
other. Every run of this is a run of the exchange of the two managers in which the frames arrive in
order, as long as nothing blocks. With the guards of the map of transfers, the first acknowledgement
that reaches the sender blocks its loop for good, so the chunks that the first credits pay for are
all that can ever arrive.
-/

namespace CekyP2P.Node

open Crypto Dht Protocol Transfer TransferManager Transport Endpoint

variable {σ : Type} {S : Suite UInt8 σ} {F : Type}

/-- Two nodes, with what their transfer managers find, and a file that one of them is told to send
to the other. -/
structure Delivery (F : Type) where
  f64 : F64 F
  crc : Crc32c
  sha256 : List UInt8 → Vector UInt8 32
  guards : Guards
  /-- The address under which a node knows the other. -/
  peer : Side → SocketAddr
  files : Side → Files
  /-- The node that sends the file at a path. -/
  src : Side
  path : PathBuf
  exchange : Exchange
  free : ∀ id, ¬guards.Blocks id
  read_eq : (files src).read path = some exchange.file
  fileName_eq : (files src).fileName path = exchange.fileName
  randomId_eq : (files src).randomId = exchange.id
  chunkSize_eq : exchange.chunkSize = 1000
  receiverAddr_eq : exchange.receiverAddr = peer src
  senderAddr_eq : exchange.senderAddr = peer src.other

/-- Two nodes over TCP, with their transfer managers. -/
structure Site (S : Suite UInt8 σ) (F : Type) where
  stack : Stack S F
  managed : Side → Managed

/-- What happens in a run, in any order. -/
inductive Act (σ : Type)
  | move (move : Move σ)
  /-- A loop takes a frame of its manager out of the channel, if there is one. -/
  | forward (side : Side) (env : Env σ)

/-- The loop that a move is an iteration of. -/
def Move.loopSide : Move σ → Option Side
  | .loop side _ _ | .take side _ => some side
  | _ => none

/-- An input that has nothing to do with the transfer manager. -/
def Input.unrelated : Input → Bool
  | .command (.sendFile _ _) | .transferFrame _ _ => false
  | .event (.frameReceived _ frame) => frame.header.msgType ∉ transferTypes
  | _ => true

/-- The frame at the head of the channel. -/
def Managed.next (m : Managed) : Option (SocketAddr × Payload) := m.manager.outbox[m.forwarded]?

/-- The loop takes a frame out of the channel. -/
def Managed.pop (m : Managed) : Managed := { m with forwarded := m.forwarded + 1 }

/-- A frame of the manager, as an input of the loop. -/
def frameInput (entry : SocketAddr × Payload) : Input :=
  .transferFrame entry.1 (.new entry.2.msgType Flags.empty 0 entry.2.encode)

namespace Delivery

variable (D : Delivery F)

/-- Where the manager of a node keeps its downloads. -/
def dir (side : Side) : PathBuf :=
  if side = D.src then D.exchange.senderDir else D.exchange.receiverDir

/-- What the receiver finds at the place of the download. -/
def disk : Option (List UInt8) := (D.files D.src.other).disk D.exchange.path

/-- An iteration of a loop, with its calls of the manager. -/
def advance (side : Side) (move : Move σ) (t : Site S F) : Site S F where
  stack := t.stack.step D.f64 D.crc D.peer move
  managed := Function.update t.managed side ((t.managed side).performAll D.sha256 D.guards
    (D.files side) (((t.stack.step D.f64 D.crc D.peer move).ends side).node.outbox.drop
      (t.stack.ends side).node.outbox.length))

/-- A loop whose manager did not return does nothing any more. -/
def step (t : Site S F) : Act σ → Site S F
  | .move move =>
    match move.loopSide with
    | some side => if (t.managed side).stopped = true then t else D.advance side move t
    | none => { t with stack := t.stack.step D.f64 D.crc D.peer move }
  | .forward side env =>
    if (t.managed side).stopped = true then t
    else match (t.managed side).next with
      | some entry => D.advance side (.loop side env (frameInput entry))
          { t with managed := Function.update t.managed side (t.managed side).pop }
      | none => t

/-- The command to send the file, given once, and to a node that has a session with the other. -/
structure Orders (t : Site S F) (side : Side) (input : Input) : Prop where
  side_eq : side = D.src
  input_eq : input = .command (.sendFile (D.peer D.src) D.path)
  first : (t.managed D.src).manager.outbox = []
  secure : ((t.stack.ends D.src).node.session (D.peer D.src)).isSome = true

/-- There are no other transfers. -/
def Permits (t : Site S F) : Move σ → Prop
  | .loop side _ input => input.unrelated = true ∨ D.Orders t side input
  | _ => True

/-- What may happen next. -/
def Allowed (t : Site S F) : Act σ → Prop
  | .move move => t.stack.Allowed D.f64 D.peer move ∧ D.Permits t move
  | .forward side env => ∀ entry ∈ (t.managed side).next,
      t.stack.Ready D.f64 D.peer side env (frameInput entry) ∧
      ∀ s ∈ (t.stack.ends side).node.session (D.peer side), s.sendNonce ≤ maxNonceValue

instance decidableOrders (t : Site S F) (side : Side) (input : Input) :
    Decidable (D.Orders t side input) :=
  decidable_of_iff
    (side = D.src ∧ input = .command (.sendFile (D.peer D.src) D.path) ∧
      (t.managed D.src).manager.outbox = [] ∧
      ((t.stack.ends D.src).node.session (D.peer D.src)).isSome = true)
    ⟨fun h => ⟨h.1, h.2.1, h.2.2.1, h.2.2.2⟩, fun h => ⟨h.1, h.2, h.3, h.4⟩⟩

instance decidablePermits (t : Site S F) : (move : Move σ) → Decidable (D.Permits t move)
  | .loop _ _ _ => instDecidableOr
  | .write _ | .arrive _ _ | .next _ | .take _ _ => instDecidableTrue

instance decidableAllowed (t : Site S F) : (act : Act σ) → Decidable (D.Allowed t act)
  | .move _ => instDecidableAnd
  | .forward side env => inferInstanceAs (Decidable (∀ entry ∈ (t.managed side).next,
      t.stack.Ready D.f64 D.peer side env (frameInput entry) ∧
      ∀ s ∈ (t.stack.ends side).node.session (D.peer side), s.sendNonce ≤ maxNonceValue))

/-- The dialer has connected. -/
def start (env : Env σ) (nodes : Side → ControlPlane S F) : Site S F where
  stack := Stack.dialed D.f64 D.crc D.peer env nodes
  managed side := ⟨.new (D.dir side), 0, false⟩

/-- The site after several acts. -/
def run (env : Env σ) (nodes : Side → ControlPlane S F) (acts : List (Act σ)) : Site S F :=
  acts.foldl D.step (D.start env nodes)

/-- Every act of a run may happen. -/
def Legal (env : Env σ) (nodes : Side → ControlPlane S F) (acts : List (Act σ)) : Prop :=
  Along D.Allowed D.step (D.start env nodes) acts

end Delivery

/-! ## What a loop says for its manager -/

variable (S) in
/-- A frame carries a payload of the manager. -/
structure Speaks (key : Vector UInt8 32) (entry : SocketAddr × Payload) (f : Frame) : Prop where
  msgType_eq : f.header.msgType = entry.2.msgType
  encrypts : Encrypts S (key, f) entry.2.encode

/-- The frames that the loop has taken out of the channel are on the connection, in order. -/
structure Voice (peer : SocketAddr) (p : Party S F) (m : Managed) : Prop where
  forwarded_le : m.forwarded ≤ m.manager.outbox.length
  said : ∀ s ∈ p.node.session peer,
    List.Forall₂ (Speaks S s.sendKey) (m.manager.outbox.take m.forwarded) p.transferFrames
  silent : p.node.session peer = none → m.manager.outbox = [] ∧ p.transferFrames = []

namespace Voice

variable {peer : SocketAddr} {p p' : Party S F} {m m' : Managed}

/-- Nothing has been said. -/
theorem start {p : Party S F} (hsent : p.transferFrames = []) (dir : PathBuf) :
    Voice peer p ⟨.new dir, 0, false⟩ := by
  refine ⟨Nat.zero_le _, fun s _ => ?_, fun _ => ⟨rfl, hsent⟩⟩
  rw [hsent]
  exact .nil

/-- The loop does something else, and the manager may send more. -/
theorem goesOn (h : Voice peer p m) (hframes : p'.transferFrames = p.transferFrames)
    (hkeep : ∀ s ∈ p.node.session peer, ∃ s', p'.node.session peer = some s' ∧
      s'.sendKey = s.sendKey)
    (hforwarded : m'.forwarded = m.forwarded) {more : List (SocketAddr × Payload)}
    (houtbox : m'.manager.outbox = m.manager.outbox ++ more)
    (hmore : p.node.session peer = none → more = []) : Voice peer p' m' := by
  refine ⟨?_, fun s' hs' => ?_, fun hnone => ?_⟩
  · rw [hforwarded, houtbox, List.length_append]
    exact Nat.le_add_right_of_le h.forwarded_le
  · rw [hframes, hforwarded, houtbox, List.take_append_of_le_length h.forwarded_le]
    cases hs : p.node.session peer with
    | none =>
      obtain ⟨hempty, hquiet⟩ := h.silent hs
      rw [hempty, hquiet, List.take_nil]
      exact .nil
    | some s =>
      obtain ⟨s'', hs'', hkey⟩ := hkeep s hs
      cases hs''.symm.trans hs'
      rw [hkey]
      exact h.said s hs
  · have hs : p.node.session peer = none := by
      refine Option.eq_none_iff_forall_not_mem.mpr fun s hs => ?_
      obtain ⟨s', hs', -⟩ := hkeep s hs
      cases hs'.symm.trans hnone
    obtain ⟨hempty, hquiet⟩ := h.silent hs
    rw [houtbox, hempty, hmore hs, hframes]
    exact ⟨rfl, hquiet⟩

/-- The loop forwards the next frame. -/
theorem forward (h : Voice peer p m) {s s' : SecureSession} (hs : p.node.session peer = some s)
    (hs' : p'.node.session peer = some s') (hkey : s'.sendKey = s.sendKey)
    {entry : SocketAddr × Payload} (hnext : m.next = some entry) {f : Frame}
    (hspeaks : Speaks S s.sendKey entry f)
    (hframes : p'.transferFrames = p.transferFrames ++ [f]) :
    Voice peer p' m.pop := by
  refine ⟨(List.getElem?_eq_some_iff.mp hnext).1, fun s'' hs'' => ?_, fun hnone => ?_⟩
  · cases hs'.symm.trans hs''
    rw [Managed.next] at hnext
    rw [hkey, hframes, Managed.pop, List.take_add_one, hnext]
    exact List.rel_append (h.said s hs) (.cons hspeaks .nil)
  · cases hs'.symm.trans hnone

end Voice

/-- A member of one list has its counterpart in the other. -/
theorem exists_of_forall₂ {α β : Type} {R : α → β → Prop} {as : List α} {bs : List β}
    (h : List.Forall₂ R as bs) {k : Nat} {a : α} (ha : as[k]? = some a) :
    ∃ b, bs[k]? = some b ∧ R a b := by
  induction h generalizing k with
  | nil => cases ha
  | cons hab _ ih =>
    cases k with
    | zero =>
      cases ha
      exact ⟨_, rfl, hab⟩
    | succ k => exact ih ha

/-- What an end dispatches of the other manager's frames is what that manager has sent. -/
theorem Stage.exists_entry (hS : S.aead.Lawful) {peer : Side → SocketAddr} {d : Side → Party S F}
    (h : Stage peer (d .dialer) (d .listener)) {side : Side} {m : Managed}
    (hvoice : Voice (peer side.other) (d side.other) m) {k : Nat} {x : Dispatch}
    (hx : (d side).transfersHeard[k]? = some x) :
    ∃ entry, m.manager.outbox[k]? = some entry ∧ x.msgType = entry.2.msgType ∧
      x.data = entry.2.encode := by
  rcases h.transfers side with hnone | ⟨s, hs, hopened⟩
  · rw [hnone] at hx
    cases hx
  · obtain ⟨f, hf, hopens⟩ := exists_of_forall₂ hopened hx
    rw [List.getElem?_take] at hf
    obtain ⟨entry, hentry, hspeaks⟩ :=
      exists_of_forall₂ (hvoice.said s hs).flip (Option.ite_none_right_eq_some.mp hf).2
    rw [List.getElem?_take] at hentry
    refine ⟨entry, (Option.ite_none_right_eq_some.mp hentry).2,
      hopens.msgType_eq.trans hspeaks.msgType_eq, ?_⟩
    exact Option.some_inj.mp ((hS.decrypt_encrypt hopens.encrypts).symm.trans
      (hS.decrypt_encrypt hspeaks.encrypts))

/-! ## The exchange behind it -/

/-- A payload of an exchange is read back, and is no longer than the cipher takes. -/
theorem readable_of_emission {sha256 : List UInt8 → Vector UInt8 32} {E : Exchange}
    {payload : Payload} (h : E.Emission sha256 payload) :
    Readable payload ∧ payload.encode.length / 64 < 2 ^ 32 - 1 := by
  have htotal := E.totalChunks.toNat_lt
  refine ⟨?_, ?_⟩
  · cases h with
    | offer => exact FileOffer.decode_encode E.chunkSize_ne_zero E.name_le
    | accept =>
      refine FileAccept.decode_encode_new E.id ?_
      rw [allMissing, List.length_replicate, bitmapLen]
      omega
    | _ => trivial
  · have hsize := E.chunkSize.toNat_lt
    have hname : maxFileNameLen = 255 := rfl
    have hlength := length_of_emission h
    rw [bitmapLen] at hlength
    omega

/-- Every payload has a type of the transfer. -/
theorem msgType_mem_transferTypes (payload : Payload) : payload.msgType ∈ transferTypes := by
  cases payload <;> simp [Payload.msgType, transferTypes]

namespace Delivery

/-- How far the transfer has come, when the loops have dispatched so many frames of the managers. -/
inductive Progress (D : Delivery F) (managed : Side → Managed) (heard : Side → Nat) : Prop
  /-- The command has not been given. -/
  | idle (hmanager : ∀ side, (managed side).manager = .new (D.dir side))
      (hrunning : ∀ side, (managed side).stopped = false) (hheard : ∀ side, heard side = 0)
  /-- The managers are those of an exchange whose frames arrive in order. -/
  | underway (l : Transfer.Link) (k : Nat)
      (hreach : Transfer.Link.Reachable D.sha256 D.exchange D.disk l)
      (hsender : (managed D.src).manager = l.sender)
      (hreceiver : (managed D.src.other).manager = l.receiver)
      (hdelivered : l.toReceiver = Finset.range (heard D.src.other))
      (hrunning : (managed D.src.other).stopped = false)
      (hanswered : l.toSender = Finset.range k)
      (hfew : (D.guards.take D.exchange.id).Blocks D.exchange.id → k ≤ 2)
      (hstopped : (managed D.src).stopped = false ∧ heard D.src = k ∨
        (managed D.src).stopped = true ∧ heard D.src = k + 1 ∧
          (D.guards.take D.exchange.id).Blocks D.exchange.id ∧
          ∃ addr ack, l.receiver.outbox[k]? = some (addr, .fileChunkAck ack))

/-- The calls of an iteration take the exchange further. -/
structure Advances (D : Delivery F) (managed : Side → Managed) (side : Side)
    (outputs : List Output) (heard : Side → Nat) : Prop where
  appends : ∃ more, ((managed side).performAll D.sha256 D.guards (D.files side)
    outputs).manager.outbox = (managed side).manager.outbox ++ more
  progress : D.Progress (Function.update managed side
    ((managed side).performAll D.sha256 D.guards (D.files side) outputs)) heard

namespace Progress

variable {D : Delivery F} {managed : Side → Managed} {heard : Side → Nat}

/-- The managers do nothing. -/
theorem congr (h : D.Progress managed heard) {managed' : Side → Managed}
    (hmanager : ∀ side, (managed' side).manager = (managed side).manager)
    (hstopped : ∀ side, (managed' side).stopped = (managed side).stopped) :
    D.Progress managed' heard := by
  cases h with
  | idle hnew hrunning hheard =>
    exact .idle (fun side => (hmanager side).trans (hnew side))
      (fun side => (hstopped side).trans (hrunning side)) hheard
  | underway l k hreach hsender hreceiver hdelivered hrunning hanswered hfew hstop =>
    refine .underway l k hreach ((hmanager _).trans hsender) ((hmanager _).trans hreceiver)
      hdelivered ((hstopped _).trans hrunning) hanswered hfew ?_
    rw [hstopped]
    exact hstop

/-- Whatever a manager sends belongs to the exchange, and is for the other node. -/
theorem emission (h : D.Progress managed heard) {side : Side} {entry : SocketAddr × Payload}
    (hentry : entry ∈ (managed side).manager.outbox) :
    D.exchange.Emission D.sha256 entry.2 ∧ entry.1 = D.peer side := by
  cases h with
  | idle hmanager =>
    rw [hmanager] at hentry
    cases hentry
  | underway l k hreach hsender hreceiver =>
    have hemits := hreach.run.emits
    obtain ⟨hfor, hback⟩ := hreach.addressed
    rcases D.src.eq_or_eq_other side with rfl | rfl
    · rw [hsender] at hentry
      exact ⟨hemits.sent entry hentry, (hfor entry hentry).trans D.receiverAddr_eq⟩
    · rw [hreceiver] at hentry
      exact ⟨hemits.answered entry hentry, (hback entry hentry).trans D.senderAddr_eq⟩

/-- The command to send the file. -/
theorem offer (h : D.Progress managed heard) (hfirst : (managed D.src).manager.outbox = []) :
    D.Advances managed D.src [.offerFile (D.peer D.src) D.path 1000] heard := by
  cases h with
  | underway l k hreach hsender =>
    have hoffer := hreach.offered
    rw [← hsender, hfirst] at hoffer
    cases hoffer
  | idle hmanager hrunning hheard =>
    have hother := D.src.other_ne
    have hnew : (managed D.src).manager = .new D.exchange.senderDir := by
      rw [hmanager, dir, if_pos rfl]
    have hoffer : perform D.sha256 D.guards (D.files D.src) (.offerFile (D.peer D.src) D.path 1000)
        (managed D.src).manager = .ok () (D.exchange.sender D.sha256 0 0) := by
      rw [perform, Exec.bind_apply, D.read_eq, D.fileName_eq, D.randomId_eq, ← D.chunkSize_eq,
        ← D.receiverAddr_eq, hnew, Exchange.offerFile_sender (D.free _)]
      rfl
    have hcall : (managed D.src).performAll D.sha256 D.guards (D.files D.src)
        [.offerFile (D.peer D.src) D.path 1000] =
          { managed D.src with manager := D.exchange.sender D.sha256 0 0 } := by
      have hreturned : Exec.Returned (perform D.sha256 D.guards (D.files D.src)
          (.offerFile (D.peer D.src) D.path 1000) (managed D.src).manager) := by
        rw [hoffer]
        trivial
      rw [Managed.performAll, List.foldl_cons, List.foldl_nil,
        Managed.call_of_returned (hrunning _) hreturned, hoffer]
      rfl
    have hreach : Transfer.Link.Reachable D.sha256 D.exchange D.disk
        ⟨D.exchange.sender D.sha256 0 0, .new D.exchange.receiverDir, ∅, ∅⟩ := by
      have hstart : Transfer.Link.Reachable D.sha256 D.exchange D.disk _ := .start
      rw [D.exchange.offerFile_eq] at hstart
      exact hstart
    refine ⟨⟨(D.exchange.sender D.sha256 0 0).outbox, ?_⟩, ?_⟩
    · rw [hcall, hfirst, List.nil_append]
    · rw [hcall]
      refine .underway _ 0 hreach ?_ ?_ ?_ ?_ rfl (fun _ => Nat.zero_le _) (.inl ⟨?_, hheard _⟩)
      · rw [Function.update_self]
      · rw [Function.update_of_ne hother, hmanager, dir, if_neg hother]
      · rw [hheard]
        rfl
      · rw [Function.update_of_ne hother, hrunning]
      · rw [Function.update_self]
        exact hrunning _

/-- The receiver dispatches the next frame of the sender. -/
theorem receive (h : D.Progress managed heard) {addr : SocketAddr} {payload : Payload}
    (hentry : (managed D.src).manager.outbox[heard D.src.other]? = some (addr, payload)) :
    D.Advances managed D.src.other (outputsFor (D.peer D.src.other) payload)
      (Function.update heard D.src.other (heard D.src.other + 1)) := by
  obtain ⟨hemission, haddr⟩ := h.emission (List.mem_of_getElem? hentry)
  cases h with
  | idle hmanager =>
    rw [hmanager] at hentry
    cases hentry
  | underway l k hreach hsender hreceiver hdelivered hrunning hanswered hfew hstopped =>
    have hother := D.src.other_ne
    rw [hsender] at hentry
    have hdisk : ∀ offer, payload = .fileOffer offer → (D.files D.src.other).disk
        ((managed D.src.other).manager.downloadDir.join offer.fileName) = D.disk := by
      rintro offer rfl
      have hbooks := hreach.run.books
      rcases hbooks.frames _ _ _ hentry with ⟨hzero, hoffer⟩ | ⟨chunk, heq, -⟩
      · cases hoffer
        rcases hbooks.returned with hnew | ⟨hmem, -⟩
        · rw [hreceiver, hnew]
          rfl
        · rw [hdelivered, hzero] at hmem
          exact absurd hmem (Finset.notMem_empty 0)
      · cases heq
    obtain ⟨hreturned, hafter⟩ := hreach.deliver_returns D.free hentry
    rw [D.senderAddr_eq, ← hreceiver] at hreturned hafter
    have hcall : (managed D.src.other).performAll D.sha256 D.guards (D.files D.src.other)
        (outputsFor (D.peer D.src.other) payload) =
          { managed D.src.other with
            manager := (l.deliver D.sha256 D.exchange D.disk (heard D.src.other)
              payload).receiver } := by
      rw [performAll_outputsFor (readable_of_emission hemission).1 hdisk,
        Managed.call_of_returned hrunning hreturned, hafter]
    obtain ⟨more, hmore⟩ := hreach.deliver_outbox hentry
    have hnew : heard D.src.other ∉ l.toReceiver := by
      rw [hdelivered]
      exact Finset.notMem_range_self
    have hreach' := hreach.deliver (heard D.src.other) payload (by
      rw [hentry, D.receiverAddr_eq]
      exact congrArg (fun a => some (a, payload)) haddr) hnew
    refine ⟨⟨more, ?_⟩, ?_⟩
    · rw [hcall, hreceiver]
      exact hmore
    · rw [hcall]
      refine .underway _ k hreach' ?_ ?_ ?_ ?_ hanswered hfew ?_
      · rw [Function.update_of_ne hother.symm]
        exact hsender
      · rw [Function.update_self]
      · rw [Function.update_self, Finset.range_add_one, ← hdelivered]
        rfl
      · rw [Function.update_self]
        exact hrunning
      · rw [Function.update_of_ne hother.symm, Function.update_of_ne hother.symm]
        refine hstopped.imp_right fun ⟨hstop, hheard, hblocks, addr, ack, hack⟩ =>
          ⟨hstop, hheard, hblocks, addr, ack, ?_⟩
        rw [hmore, List.getElem?_append_left (List.getElem?_eq_some_iff.mp hack).1]
        exact hack

/-- Only the sender has moved. -/
theorem underway_sender {l : Transfer.Link} {k n : Nat} {m : Managed}
    (hreach : Transfer.Link.Reachable D.sha256 D.exchange D.disk l)
    (hsender : m.manager = l.sender) (hreceiver : (managed D.src.other).manager = l.receiver)
    (hdelivered : l.toReceiver = Finset.range (heard D.src.other))
    (hrunning : (managed D.src.other).stopped = false) (hanswered : l.toSender = Finset.range k)
    (hfew : (D.guards.take D.exchange.id).Blocks D.exchange.id → k ≤ 2)
    (hstopped : m.stopped = false ∧ n = k ∨ m.stopped = true ∧ n = k + 1 ∧
      (D.guards.take D.exchange.id).Blocks D.exchange.id ∧
      ∃ addr ack, l.receiver.outbox[k]? = some (addr, .fileChunkAck ack)) :
    D.Progress (Function.update managed D.src m) (Function.update heard D.src n) := by
  have hother := D.src.other_ne
  refine .underway l k hreach ?_ ?_ ?_ ?_ hanswered hfew ?_
  · rw [Function.update_self]
    exact hsender
  · rw [Function.update_of_ne hother]
    exact hreceiver
  · rw [Function.update_of_ne hother]
    exact hdelivered
  · rw [Function.update_of_ne hother]
    exact hrunning
  · rw [Function.update_self, Function.update_self]
    exact hstopped

/-- What the receiver sends is no offer, and goes to the manager of the sender. -/
theorem performAll_reply {l : Transfer.Link} {k : Nat} {addr : SocketAddr} {payload : Payload}
    (hreach : Transfer.Link.Reachable D.sha256 D.exchange D.disk l)
    (hentry : l.receiver.outbox[k]? = some (addr, payload))
    (hemission : D.exchange.Emission D.sha256 payload) (m : Managed) :
    m.performAll D.sha256 D.guards (D.files D.src) (outputsFor (D.peer D.src) payload) =
      m.call (TransferManager.dispatch D.sha256 D.guards D.exchange.receiverAddr none payload) := by
  have hdisk : ∀ offer, payload = .fileOffer offer →
      (D.files D.src).disk (m.manager.downloadDir.join offer.fileName) = none := by
    rintro offer rfl
    cases hreach.run.books.answers _ (List.mem_of_getElem? hentry)
  rw [D.receiverAddr_eq]
  exact performAll_outputsFor (readable_of_emission hemission).1 hdisk

/-- The sender dispatches the next frame of the receiver. -/
theorem answer (h : D.Progress managed heard) (hrunning : (managed D.src).stopped = false)
    {addr : SocketAddr} {payload : Payload}
    (hentry : (managed D.src.other).manager.outbox[heard D.src]? = some (addr, payload)) :
    D.Advances managed D.src (outputsFor (D.peer D.src) payload)
      (Function.update heard D.src (heard D.src + 1)) := by
  obtain ⟨hemission, haddr⟩ := h.emission (List.mem_of_getElem? hentry)
  cases h with
  | idle hmanager =>
    rw [hmanager] at hentry
    cases hentry
  | underway l k hreach hsender hreceiver hdelivered hreceives hanswered hfew hstopped =>
    obtain ⟨-, rfl⟩ : (managed D.src).stopped = false ∧ heard D.src = k := by
      refine hstopped.resolve_right fun ⟨hstop, _⟩ => ?_
      rw [hrunning] at hstop
      cases hstop
    rw [hreceiver] at hentry
    have hperform := performAll_reply hreach hentry hemission (managed D.src)
    rcases hreach.reply_cases D.free hentry none with
      ⟨hreturned, hafter, hnot⟩ | ⟨hblocked, hblocks, ack, rfl⟩
    · rw [← hsender] at hreturned hafter
      rw [Managed.call_of_returned hrunning hreturned, hafter] at hperform
      obtain ⟨more, hmore⟩ := hreach.reply_outbox hentry none
      have hnew : heard D.src ∉ l.toSender := by
        rw [hanswered]
        exact Finset.notMem_range_self
      have hreach' := hreach.reply none (heard D.src) payload (by
        rw [hentry, D.senderAddr_eq]
        exact congrArg (fun a => some (a, payload)) haddr) hnew
      refine ⟨⟨more, ?_⟩, ?_⟩
      · rw [hperform, hsender]
        exact hmore
      · rw [hperform]
        refine underway_sender hreach' rfl hreceiver hdelivered hreceives ?_
          (fun hblocks => hreach.lt_two_of_not_ack (hfew hblocks) hentry (hnot hblocks))
          (.inl ⟨hrunning, rfl⟩)
        rw [Finset.range_add_one, ← hanswered]
        rfl
    · rw [← hsender] at hblocked
      have hnot : ¬Exec.Returned (TransferManager.dispatch D.sha256 D.guards
          D.exchange.receiverAddr none (.fileChunkAck ack) (managed D.src).manager) := by
        rw [hblocked]
        exact fun h => h
      rw [Managed.call_of_not_returned hrunning hnot, hblocked] at hperform
      refine ⟨⟨[], ?_⟩, ?_⟩
      · rw [hperform, List.append_nil]
        rfl
      · rw [hperform]
        exact underway_sender hreach hsender hreceiver hdelivered hreceives hanswered hfew
          (.inr ⟨rfl, rfl, hblocks, addr, ack, hentry⟩)

end Progress

/-! ## One step -/

/-- How many frames of the other manager the loops have dispatched. -/
def heard (t : Site S F) (side : Side) : Nat := (t.stack.ends side).transfersHeard.length

variable (D : Delivery F) (env : Env σ) (nodes : Side → ControlPlane S F)

/-- What holds in every state of a run. -/
structure Invariant (t : Site S F) : Prop where
  sound : t.stack.Sound D.crc D.peer
  dialogue : Relation.ReflTransGen (Dialogue D.f64 D.crc D.peer)
    (Node.dialed D.f64 D.peer env nodes) t.stack.ends
  voice : ∀ side, Voice (D.peer side) (t.stack.ends side) (t.managed side)
  progress : D.Progress t.managed (heard t)

variable {D env nodes} {t : Site S F} {side : Side}

/-- An iteration, in terms of what it puts out. -/
theorem advance_eq {move : Move σ} {p : Party S F} {outputs : List Output}
    (hends : (t.stack.step D.f64 D.crc D.peer move).ends = Function.update t.stack.ends side p)
    (houtbox : p.node.outbox = (t.stack.ends side).node.outbox ++ outputs) :
    D.advance side move t = ⟨t.stack.step D.f64 D.crc D.peer move, Function.update t.managed side
      ((t.managed side).performAll D.sha256 D.guards (D.files side) outputs)⟩ := by
  rw [advance, hends, Function.update_self, houtbox, List.drop_left]

/-- Only the loop of one node has gone on. -/
theorem voice_update (h : ∀ side, Voice (D.peer side) (t.stack.ends side) (t.managed side))
    {p : Party S F} {m : Managed} (hnew : Voice (D.peer side) p m) (s : Side) :
    Voice (D.peer s) (Function.update t.stack.ends side p s)
      (Function.update t.managed side m s) := by
  by_cases hs : s = side
  · subst hs
    rw [Function.update_self, Function.update_self]
    exact hnew
  · rw [Function.update_of_ne hs, Function.update_of_ne hs]
    exact h s

/-- What was heard after one side has changed. -/
theorem heard_update {t' : Site S F} {p : Party S F}
    (hends : t'.stack.ends = Function.update t.stack.ends side p) :
    heard t' = Function.update (heard t) side p.transfersHeard.length := by
  funext s
  rw [heard, hends]
  by_cases hs : s = side
  · subst hs
    rw [Function.update_self, Function.update_self]
  · rw [Function.update_of_ne hs, Function.update_of_ne hs]
    rfl

/-- Taking a frame out of the channel is nothing to the manager. -/
theorem update_pop (managed : Side → Managed) (s : Side) :
    (Function.update managed side (managed side).pop s).manager = (managed s).manager ∧
      (Function.update managed side (managed side).pop s).stopped = (managed s).stopped := by
  by_cases hs : s = side
  · subst hs
    rw [Function.update_self]
    exact ⟨rfl, rfl⟩
  · rw [Function.update_of_ne hs]
    exact ⟨rfl, rfl⟩

/-- A session keeps its key. -/
theorem key_kept {p : Party S F} {peer : SocketAddr} {input : Input} (f64 : F64 F) (env : Env σ)
    (hended : peer ∉ input.ended) (htyped : input.Typed)
    (hcount : ControlPlane.CountsOn peer p.node) :
    ∀ s ∈ p.node.session peer, ∃ s', (p.iterate f64 peer env input).node.session peer = some s' ∧
      s'.sendKey = s.sendKey := by
  intro s hs
  obtain ⟨s', count, new, hs', -, hcarried, -⟩ :
      ∃ s' count new, (p.iterate f64 peer env input).node.session peer = some s' ∧ _ :=
    p.iterate_of_session hended htyped hcount hs
  exact ⟨s', hs', hcarried.sendKey_eq⟩

/-- An iteration that does not forward a frame of the manager. -/
theorem Invariant.advance (h : D.Invariant env nodes t) {move : Move σ}
    (hallowed : t.stack.Allowed D.f64 D.peer move) {p : Party S F}
    (hends : (t.stack.step D.f64 D.crc D.peer move).ends = Function.update t.stack.ends side p)
    {outputs : List Output}
    (houtbox : p.node.outbox = (t.stack.ends side).node.outbox ++ outputs)
    (hframes : p.transferFrames = (t.stack.ends side).transferFrames)
    (hkeep : ∀ s ∈ (t.stack.ends side).node.session (D.peer side),
      ∃ s', p.node.session (D.peer side) = some s' ∧ s'.sendKey = s.sendKey)
    (hsecure : (∃ output ∈ outputs, output.isCall = true) →
      (t.stack.ends side).node.session (D.peer side) ≠ none)
    (hcalls : D.Advances t.managed side outputs
      (Function.update (heard t) side p.transfersHeard.length)) :
    D.Invariant env nodes (D.advance side move t) := by
  obtain ⟨hsound, hsteps⟩ := h.sound.step hallowed
  obtain ⟨more, hmore⟩ := hcalls.appends
  have hsilent : (t.stack.ends side).node.session (D.peer side) = none → more = [] := by
    intro hnone
    have hno : ∀ output ∈ outputs, output.isCall = false := by
      intro output hmem
      cases hcall : output.isCall with
      | false => rfl
      | true => exact absurd hnone (hsecure ⟨output, hmem, hcall⟩)
    rw [Managed.performAll_of_no_calls hno] at hmore
    exact List.append_right_eq_self.mp hmore.symm
  rw [advance_eq hends houtbox]
  refine ⟨hsound, h.dialogue.trans hsteps, fun s => ?_, ?_⟩
  · rw [hends]
    exact voice_update h.voice ((h.voice side).goesOn hframes hkeep
      (Managed.forwarded_performAll outputs) hmore hsilent) s
  · rw [heard_update hends]
    exact hcalls.progress

/-- Outputs that are no calls of the manager. -/
theorem Invariant.advances (h : D.Invariant env nodes t) {outputs : List Output}
    (hcalls : ∀ output ∈ outputs, output.isCall = false) {p : Party S F}
    (hheard : p.transfersHeard = (t.stack.ends side).transfersHeard) :
    D.Advances t.managed side outputs
      (Function.update (heard t) side p.transfersHeard.length) := by
  have hsame : Function.update (heard t) side p.transfersHeard.length = heard t := by
    rw [hheard]
    exact Function.update_eq_self _ _
  refine ⟨⟨[], ?_⟩, ?_⟩
  · rw [Managed.performAll_of_no_calls hcalls, List.append_nil]
  · rw [Managed.performAll_of_no_calls hcalls, Function.update_eq_self, hsame]
    exact h.progress

/-- An unrelated input is none of the manager's. -/
theorem not_forManager {input : Input} (h : input.unrelated = true) : ¬input.ForManager := by
  intro hfor
  cases input with
  | command command =>
    cases command with
    | sendFile => cases h
    | _ => exact hfor
  | event event =>
    cases event with
    | frameReceived => exact of_decide_eq_true h hfor
    | _ => exact hfor
  | transferFrame => exact hfor

/-- An input that has nothing to do with the managers. -/
theorem Invariant.unrelated (h : D.Invariant env nodes t) {env' : Env σ} {input : Input}
    (hallowed : t.stack.Allowed D.f64 D.peer (.loop side env' input))
    (hunrelated : input.unrelated = true) :
    D.Invariant env nodes (D.advance side (.loop side env' input) t) := by
  obtain ⟨outputs, houtbox, -⟩ :=
    ControlPlane.emits_step D.f64 env' input (t.stack.ends side).node
  have hcalls := ControlPlane.calls_nothing (not_forManager hunrelated) houtbox
  have hended : D.peer side ∉ input.ended :=
    fun hmem => hallowed.1.unmet (Input.mem_meets_of_mem_ended hmem)
  refine h.advance hallowed rfl houtbox (Party.transferFrames_of_other _ _ _ _ ?_)
    (key_kept D.f64 env' hended hallowed.1.typed hallowed.2.counts) ?_ (h.advances hcalls rfl)
  · rintro a frame rfl
    cases hunrelated
  · rintro ⟨output, hmem, hcall⟩
    rw [hcalls output hmem] at hcall
    cases hcall

/-- The command to send the file. -/
theorem Invariant.orders (h : D.Invariant env nodes t) {env' : Env σ} {input : Input}
    (hallowed : t.stack.Allowed D.f64 D.peer (.loop side env' input))
    (horders : D.Orders t side input) :
    D.Invariant env nodes (D.advance side (.loop side env' input) t) := by
  obtain ⟨rfl, rfl, hfirst, hsecure⟩ := horders
  obtain ⟨s, hs⟩ := Option.isSome_iff_exists.mp hsecure
  have hmem : D.peer D.src ∈ (t.stack.ends D.src).node.peerStates := by
    obtain ⟨state, hstate, -⟩ := Option.bind_eq_some_iff.mp hs
    rw [← AList.lookup_isSome, hstate]
    rfl
  have hended : D.peer D.src ∉ (Input.command (.sendFile (D.peer D.src) D.path)).ended :=
    List.not_mem_nil
  have houtbox : ((t.stack.ends D.src).iterate D.f64 (D.peer D.src) env'
      (.command (.sendFile (D.peer D.src) D.path))).node.outbox =
      (t.stack.ends D.src).node.outbox ++ [.offerFile (D.peer D.src) D.path 1000] := by
    change ControlPlane.outbox (Exec.stateAfter (ControlPlane.sendFile _ _ _)) = _
    rw [ControlPlane.sendFile, Exec.get_bind_apply, if_pos hmem]
    rfl
  refine h.advance hallowed rfl houtbox
    (Party.transferFrames_of_other _ _ _ _ fun _ _ heq => by cases heq)
    (key_kept D.f64 env' hended trivial hallowed.2.counts) (fun _ hnone => ?_) ?_
  · cases hnone.symm.trans hs
  · have hoffer := h.progress.offer hfirst
    have hsame : Function.update (heard t) D.src (heard t D.src) = heard t :=
      Function.update_eq_self _ _
    rw [← hsame] at hoffer
    exact hoffer

/-- The frame of the other manager that a loop dispatches next. -/
theorem Invariant.exists_entry (hS : S.Lawful) (hconnected : env.connected = true)
    (hsent : env.sent = true)
    (hnone : (nodes .listener).peerStates.lookup (D.peer .listener) = none)
    (h : D.Invariant env nodes t) {move : Move σ} (hallowed : t.stack.Allowed D.f64 D.peer move)
    {p : Party S F}
    (hends : (t.stack.step D.f64 D.crc D.peer move).ends = Function.update t.stack.ends side p)
    {d : Dispatch} (hheard : p.transfersHeard = (t.stack.ends side).transfersHeard ++ [d]) :
    ∃ addr payload,
      (t.managed side.other).manager.outbox[heard t side]? = some (addr, payload) ∧
      d.msgType = payload.msgType ∧ d.data = payload.encode := by
  have hdialogue := h.dialogue.trans (h.sound.step hallowed).2
  have hstage := stage_run hS hconnected hsent hnone hdialogue
  rw [hends] at hstage
  have hvoice : Voice (D.peer side.other) (Function.update t.stack.ends side p side.other)
      (t.managed side.other) := by
    rw [Function.update_of_ne side.other_ne]
    exact h.voice side.other
  have hlast : (Function.update t.stack.ends side p side).transfersHeard[heard t side]? =
      some d := by
    rw [Function.update_self, hheard]
    exact List.getElem?_concat_length
  obtain ⟨⟨addr, payload⟩, hentry, htype, hdata⟩ := hstage.exists_entry hS.aead hvoice hlast
  exact ⟨addr, payload, hentry, htype, hdata⟩

/-- A loop takes the next event of the connection. -/
theorem Invariant.take (hS : S.Lawful) (hconnected : env.connected = true)
    (hsent : env.sent = true)
    (hnone : (nodes .listener).peerStates.lookup (D.peer .listener) = none)
    (h : D.Invariant env nodes t) {env' : Env σ}
    (hallowed : t.stack.Allowed D.f64 D.peer (.take side env'))
    (hrunning : (t.managed side).stopped = false) {event : TransportEvent}
    (hevent : t.stack.nextEvent side = some event) :
    D.Invariant env nodes (D.advance side (.take side env') t) := by
  have hends : (t.stack.step D.f64 D.crc D.peer (.take side env')).ends =
      Function.update t.stack.ends side
        ((t.stack.ends side).take D.f64 (D.peer side) env' event) := by
    rw [Stack.step, hevent]
    rfl
  have hready := hallowed event hevent
  have hform := eq_of_incoming (h.sound.carries.incoming_eq hevent)
  have hended : D.peer side ∉ (Input.event event).ended := by
    rcases hform with rfl | ⟨frame, rfl⟩
    · exact List.not_mem_nil
    · exact List.not_mem_nil
  have hkeep := key_kept D.f64 env' hended trivial hready.counts
  have hframes : ((t.stack.ends side).take D.f64 (D.peer side) env' event).transferFrames =
      (t.stack.ends side).transferFrames :=
    Party.transferFrames_of_other D.f64 (D.peer side) env' _ fun _ _ heq => by cases heq
  obtain ⟨outputs, houtbox, -⟩ :=
    ControlPlane.emits_step D.f64 env' (.event event) (t.stack.ends side).node
  rcases Party.take_cases D.f64 env' hform houtbox with
    ⟨hheard, hcalls⟩ | ⟨frame, d, rfl, hd, -, hheard⟩
  · refine h.advance hallowed hends houtbox hframes hkeep ?_ (h.advances hcalls hheard)
    rintro ⟨output, hmem, hcall⟩
    rw [hcalls output hmem] at hcall
    cases hcall
  · obtain ⟨addr, payload, hentry, htype, hdata⟩ :=
      h.exists_entry hS hconnected hsent hnone hallowed hends hheard
    obtain ⟨hemission, -⟩ := h.progress.emission (List.mem_of_getElem? hentry)
    have hcalled := ControlPlane.outputs_of_dispatched D.f64 env' hd htype hdata
      (readable_of_emission hemission).1
    have hsecure : (t.stack.ends side).node.session (D.peer side) ≠ none := by
      obtain ⟨session, hs, -⟩ : ∃ session, _ ∧ ControlPlane.step D.f64 env' _ _ = _ :=
        ControlPlane.step_of_dispatched env' hd
      rw [hs]
      exact Option.some_ne_none session
    refine h.advance hallowed hends hcalled hframes hkeep (fun _ => hsecure) ?_
    have hcount : ((t.stack.ends side).take D.f64 (D.peer side) env'
        (.frameReceived (D.peer side) frame)).transfersHeard.length = heard t side + 1 := by
      rw [hheard, List.length_append]
      rfl
    rw [hcount]
    rcases D.src.eq_or_eq_other side with rfl | rfl
    · exact h.progress.answer hrunning hentry
    · rw [Side.other_other] at hentry
      exact h.progress.receive hentry

/-- A loop forwards a frame of its manager. -/
theorem Invariant.forward (hS : S.aead.Lawful) (h : D.Invariant env nodes t) {env' : Env σ}
    {entry : SocketAddr × Payload} (hnext : (t.managed side).next = some entry)
    (hready : t.stack.Ready D.f64 D.peer side env' (frameInput entry))
    (hnonce : ∀ s ∈ (t.stack.ends side).node.session (D.peer side), s.sendNonce ≤ maxNonceValue) :
    D.Invariant env nodes (D.advance side (.loop side env' (frameInput entry))
      { t with managed := Function.update t.managed side (t.managed side).pop }) := by
  have htyped : (frameInput entry).Typed := msgType_mem_transferTypes entry.2
  have hallowed : t.stack.Allowed D.f64 D.peer (.loop side env' (frameInput entry)) :=
    ⟨⟨List.not_mem_nil, htyped⟩, hready⟩
  obtain ⟨hsound, hsteps⟩ := h.sound.step hallowed
  obtain ⟨hemission, haddr⟩ := h.progress.emission (List.mem_of_getElem? hnext)
  have hended : D.peer side ∉ (frameInput entry).ended := List.not_mem_nil
  obtain ⟨s, hs⟩ : ∃ s, (t.stack.ends side).node.session (D.peer side) = some s := by
    refine Option.ne_none_iff_exists'.mp fun hno => ?_
    obtain ⟨hempty, -⟩ := (h.voice side).silent hno
    rw [Managed.next, hempty] at hnext
    cases hnext
  obtain ⟨s', hs', hkey⟩ := key_kept D.f64 env' hended htyped hready.counts s hs
  obtain ⟨outputs, f, houtbox, hframe, htype, hencrypts⟩ : ∃ outputs f,
      (Exec.stateAfter (ControlPlane.step D.f64 env' (frameInput entry) _)).outbox = _ ++ outputs ∧
      _ := by
    rw [frameInput, haddr]
    exact ControlPlane.forwards hS D.f64 env' hs (hnonce s hs) (readable_of_emission hemission).2
  have hnot : ¬(frameInput entry).ForManager := fun hfor => hfor
  have hcalls := ControlPlane.calls_nothing hnot houtbox
  have hframes : ((t.stack.ends side).iterate D.f64 (D.peer side) env'
      (frameInput entry)).transferFrames = (t.stack.ends side).transferFrames ++ [f] := by
    have hmem : f.header.msgType ∈ transferTypes := by
      rw [htype]
      exact msgType_mem_transferTypes entry.2
    rw [Party.transferFrames_iterate houtbox, hframe,
      List.filter_cons_of_pos (by simpa using hmem), List.filter_nil]
  rw [advance_eq rfl houtbox, Managed.performAll_of_no_calls hcalls, Function.update_eq_self]
  refine ⟨hsound, h.dialogue.trans hsteps, voice_update h.voice ?_, ?_⟩
  · exact (h.voice side).forward hs hs' hkey hnext ⟨htype, hencrypts⟩ hframes
  · have hheard : heard ⟨t.stack.step D.f64 D.crc D.peer (.loop side env' (frameInput entry)),
        Function.update t.managed side (t.managed side).pop⟩ =
          Function.update (heard t) side (heard t side) :=
      heard_update (p := (t.stack.ends side).iterate D.f64 (D.peer side) env' (frameInput entry))
        rfl
    rw [hheard, Function.update_eq_self]
    exact h.progress.congr (fun s => (update_pop t.managed s).1) fun s => (update_pop t.managed s).2

/-! ## Runs -/

/-- The invariant holds at the start. -/
theorem invariant_start (hS : S.Lawful) (hconnected : env.connected = true)
    (hsent : env.sent = true) : D.Invariant env nodes (D.start env nodes) := by
  have hquiet : ∀ side, ((D.start env nodes).stack.ends side).transferFrames = [] := by
    rintro (_ | _)
    · exact Party.transferFrames_of_other D.f64 (D.peer .dialer) env (strangers nodes .dialer)
        fun _ _ heq => by cases heq
    · rfl
  refine ⟨Stack.sound_dialed hS hconnected hsent nodes, .refl, fun side => .start (hquiet side) _,
    .idle (fun _ => rfl) (fun _ => rfl) ?_⟩
  rintro (_ | _)
  · rfl
  · rfl

/-- Every step, for a connection that was not used before. -/
theorem invariant_step (hS : S.Lawful) (hconnected : env.connected = true)
    (hsent : env.sent = true)
    (hnone : (nodes .listener).peerStates.lookup (D.peer .listener) = none)
    (h : D.Invariant env nodes t) {act : Act σ} (hallowed : D.Allowed t act) :
    D.Invariant env nodes (D.step t act) := by
  cases act with
  | forward side env' =>
    rw [step]
    split
    · exact h
    · split
      case h_1 entry hnext =>
        obtain ⟨hready, hnonce⟩ := hallowed entry hnext
        exact h.forward hS.aead hnext hready hnonce
      case h_2 => exact h
  | move move =>
    obtain ⟨hmove, hpermits⟩ := hallowed
    obtain ⟨hsound, hsteps⟩ := h.sound.step hmove
    cases move with
    | write | arrive | next => exact ⟨hsound, h.dialogue.trans hsteps, h.voice, h.progress⟩
    | loop side env' input =>
      rw [step]
      simp only [Move.loopSide]
      split
      · exact h
      · rcases hpermits with hunrelated | horders
        · exact h.unrelated hmove hunrelated
        · exact h.orders hmove horders
    | take side env' =>
      rw [step]
      simp only [Move.loopSide]
      split
      · exact h
      · cases hevent : t.stack.nextEvent side with
        | none =>
          have hsame : t.stack.step D.f64 D.crc D.peer (.take side env') = t.stack := by
            rw [Stack.step, hevent]
          rw [advance, hsame, List.drop_length, Managed.performAll, List.foldl_nil,
            Function.update_eq_self]
          exact h
        | some event =>
          exact h.take hS hconnected hsent hnone hmove (Bool.eq_false_iff.mpr ‹_›) hevent

/-- The invariant holds along every legal run. -/
theorem invariant_run (hS : S.Lawful) (hconnected : env.connected = true)
    (hsent : env.sent = true)
    (hnone : (nodes .listener).peerStates.lookup (D.peer .listener) = none)
    {acts : List (Act σ)} (hlegal : D.Legal env nodes acts) :
    D.Invariant env nodes (D.run env nodes acts) :=
  Along.invariant (I := D.Invariant env nodes)
    (fun _ _ h hallowed => invariant_step hS hconnected hsent hnone h hallowed) hlegal
    (invariant_start hS hconnected hsent)

end Delivery

end CekyP2P.Node
