import CekyP2P.Core.Trace
import CekyP2P.Transport.Pool

/-!
# The TCP transport

Every connection of a node has a reader task and a writer task of its own, while the pool
entry, the sender of the write channel and the events go by the address of the peer. A step is
what one task does without interruption: one operation on a shared map, one event, one frame
read or written. Several connections to one address are possible, since the pool accepts a
duplicate.
-/

namespace CekyP2P.Transport

open Protocol FrameCodec Transfer

/-- How far a connection has come, from its insertion into the pool to the end of its cleanup. -/
inductive Phase
  | inserted
  /-- `Connected` has been sent. -/
  | announced
  /-- `set_established` has been called. -/
  | established
  /-- The sender is registered and the tasks run. -/
  | reading
  /-- The reader has left its loop. -/
  | exited
  /-- The cleanup has removed the sender. -/
  | unregistered
  /-- The cleanup has called `set_closed`. -/
  | closed
  /-- The cleanup has removed the pool entry. -/
  | removed
  /-- `Disconnected` has been sent. -/
  | finished
  deriving DecidableEq

/-- How a frame was handed to a connection. -/
inductive Via
  | sendTo
  | broadcast
  | autoPong
  deriving DecidableEq

/-- The task that writes. -/
inductive WriterTask
  | notSpawned
  | running
  | ended
  deriving DecidableEq

/-- A connection and its tasks. -/
structure Connection where
  peerAddr : SocketAddr
  phase : Phase
  /-- A frame that the reader has counted and has not treated. -/
  handling : Option Frame
  /-- The frames in the write channel. -/
  queue : List (Via × Frame)
  writer : WriterTask
  /-- The writer has ended because it could not write a frame. -/
  writeError : Bool
  /-- The wire size of a frame that the writer has written and has not counted. -/
  recording : Option Nat
  /-- The frames written to the socket. -/
  written : List (Via × Frame)
  deriving DecidableEq

namespace Connection

/-- A connection that `pool.insert` has accepted. -/
def fresh (peerAddr : SocketAddr) : Connection :=
  ⟨peerAddr, .inserted, none, [], .notSpawned, false, none, []⟩

/-- The tasks are at another point. -/
def setPhase (phase : Phase) (c : Connection) : Connection := { c with phase }

/-- The reader has a frame to treat, or none. -/
def setHandling (handling : Option Frame) (c : Connection) : Connection := { c with handling }

/-- `spawn_connection_tasks`. -/
def spawn (c : Connection) : Connection := { c with phase := .reading, writer := .running }

/-- `sender.send(frame)`. -/
def push (via : Via) (frame : Frame) (c : Connection) : Connection :=
  { c with queue := c.queue ++ [(via, frame)] }

/-- The writer has written the first frame of the channel. -/
def wrote (via : Via) (frame : Frame) (c : Connection) : Connection :=
  { c with
    queue := c.queue.tail
    recording := some frame.wireSize
    written := c.written ++ [(via, frame)] }

/-- The bytes of a write have been counted. -/
def recorded (c : Connection) : Connection := { c with recording := none }

/-- The writer's loop ends on a write error, and drops the channel. -/
def failWriter (c : Connection) : Connection :=
  { c with writer := .ended, writeError := true, queue := [] }

/-- The writer ends. -/
def endWriter (c : Connection) : Connection := { c with writer := .ended }

end Connection

/-- The pool, the senders, the connections and the events, and the calls under way. -/
structure TcpTransport where
  pool : ConnectionPool
  /-- A sender is named by the connection at the other end of its channel. -/
  peerSenders : AList fun _ : SocketAddr => Nat
  connections : List Connection
  events : List TransportEvent
  /-- The calls of `connect` and `accept` for which `pool.insert` has seen room. -/
  connecting : List SocketAddr
  /-- The calls of `send_to` that have still to update the statistics. Such a call holds the
  sender, so that until then nothing can replace or remove it. -/
  sending : List SocketAddr
  /-- The calls of `disconnect` that have still to set the state. -/
  disconnecting : List SocketAddr

namespace TcpTransport

/-- A transport without connections. -/
def new (maxConnections : UInt64) : TcpTransport := ⟨.new maxConnections, ∅, [], [], [], [], []⟩

/-- The registered sender of a peer. -/
def sender (peerAddr : SocketAddr) (t : TcpTransport) : Option Nat :=
  t.peerSenders.lookup peerAddr

/-- Change a connection. -/
def update (i : Nat) (f : Connection → Connection) (t : TcpTransport) : TcpTransport :=
  { t with connections := t.connections.modify i f }

/-- Change an entry of the pool. -/
def withConnection (peerAddr : SocketAddr) (f : ConnectionInfo → ConnectionInfo)
    (t : TcpTransport) : TcpTransport :=
  { t with pool := t.pool.withConnection peerAddr f }

/-- `peer_senders` gets the sender of a connection. -/
def register (peerAddr : SocketAddr) (i : Nat) (t : TcpTransport) : TcpTransport :=
  { t with peerSenders := t.peerSenders.insert peerAddr i }

/-- `peer_senders` loses a sender. -/
def unregister (peerAddr : SocketAddr) (t : TcpTransport) : TcpTransport :=
  { t with peerSenders := t.peerSenders.erase peerAddr }

/-- Report an event. -/
def emit (event : TransportEvent) (t : TcpTransport) : TcpTransport :=
  { t with events := t.events ++ [event] }

/-- `sender.send(frame)`, which fails once the writer task has dropped the receiver. -/
def send (i : Nat) (via : Via) (frame : Frame) (t : TcpTransport) : Option TcpTransport :=
  match t.connections[i]? with
  | some c => if c.writer = .running then some (t.update i (.push via frame)) else none
  | none => none

/-- A frame for the registered sender of a peer; a failure to send it is ignored. -/
def offer (peerAddr : SocketAddr) (via : Via) (frame : Frame) (t : TcpTransport) :
    TcpTransport :=
  match t.sender peerAddr with
  | some i => (t.send i via frame).getD t
  | none => t

/-- `send_to`, up to the statistics. -/
def sendTo (peerAddr : SocketAddr) (frame : Frame) : Exec TransportError TcpTransport Unit := do
  let t ← get
  match t.sender peerAddr with
  | some i => do
    let t' ← Exec.orError .sendFailed (t.send i .sendTo frame)
    set { t' with sending := peerAddr :: t'.sending }
  | none => throw (.error (.peerNotFound peerAddr))

/-- `pool.insert`, behind the length check: a duplicate is silently accepted. -/
def enterPool (peerAddr : SocketAddr) (t : TcpTransport) : TcpTransport :=
  { t with
    connections := t.connections ++ [.fresh peerAddr]
    pool :=
      match t.pool.entry peerAddr with
      | some _ => t.pool
      | none => (t.pool.enter peerAddr).countCreated }

/-- An entry is removed from the pool. -/
def leavePool (peerAddr : SocketAddr) (t : TcpTransport) : TcpTransport :=
  { t with pool := (t.pool.remove peerAddr).2 }

/-- The next operation of `connect` or `accept` behind `pool.insert`, and of the cleanup behind
the reader's loop. Those on the senders wait for the calls of `send_to` that hold one. -/
def advance (i : Nat) (c : Connection) (t : TcpTransport) : TcpTransport :=
  match c.phase with
  | .inserted => (t.emit (.connected c.peerAddr)).update i (.setPhase .announced)
  | .announced => (t.withConnection c.peerAddr .setEstablished).update i (.setPhase .established)
  | .established =>
    if c.peerAddr ∈ t.sending then t else (t.register c.peerAddr i).update i .spawn
  | .reading => t
  | .exited =>
    if c.peerAddr ∈ t.sending then t
    else (t.unregister c.peerAddr).update i (.setPhase .unregistered)
  | .unregistered => (t.withConnection c.peerAddr .setClosed).update i (.setPhase .closed)
  | .closed => (t.leavePool c.peerAddr).update i (.setPhase .removed)
  | .removed =>
    (t.emit (.disconnected c.peerAddr "connection closed")).update i (.setPhase .finished)
  | .finished => t

/-- The reader's treatment of a frame that it has counted. -/
def handleFrame (peerAddr : SocketAddr) (frame : Frame) (t : TcpTransport) : TcpTransport :=
  match frame.header.msgType with
  | .ping => t.offer peerAddr .autoPong (.simple .pong frame.header.requestId)
  | .pong => t.withConnection peerAddr .recordPongReceived
  | _ => t.emit (.frameReceived peerAddr frame)

/-- The error of a read, before the reader leaves its loop. -/
def emitError (peerAddr : SocketAddr) (error : Option ProtocolError) (t : TcpTransport) :
    TcpTransport :=
  match error with
  | some error => t.emit (.error (some peerAddr) error)
  | none => t

end TcpTransport

/-- A step of the tasks of one connection. -/
inductive TaskStep
  | advance
  | receive (frame : Frame)
  | handle
  /-- The reader leaves its loop, with an error or at the end of the stream. -/
  | endReading (error : Option ProtocolError)
  | write
  /-- The socket fails the writer. -/
  | failWrite
  | recordWritten
  /-- The channel of the writer is closed and empty. -/
  | endWriting

/-- The steps of the transport's tasks and callers. -/
inductive TransportStep
  /-- A stream from `connect` or `accept`, for which `pool.insert` looks at the number of
  connections. -/
  | connect (peerAddr : SocketAddr)
  /-- `pool.insert` goes on to the entry. -/
  | insert (peerAddr : SocketAddr)
  | task (i : Nat) (st : TaskStep)
  | sendTo (peerAddr : SocketAddr) (frame : Frame)
  | recordSendTo (peerAddr : SocketAddr)
  /-- One entry of the loop of `broadcast`. -/
  | broadcast (peerAddr : SocketAddr) (frame : Frame)
  /-- `disconnect`, up to the state of the entry. -/
  | disconnect (peerAddr : SocketAddr)
  | setClosing (peerAddr : SocketAddr)

namespace TcpTransport

variable (crc : Crc32c)

/-- The transport after a step of a connection's task. -/
def taskStep (i : Nat) (c : Connection) (t : TcpTransport) : TaskStep → TcpTransport
  | .advance => t.advance i c
  | .receive frame =>
    if c.phase = .reading ∧ c.handling = none then
      (t.withConnection c.peerAddr (.recordRecv (.ofNat frame.wireSize))).update i
        (.setHandling frame)
    else t
  | .handle =>
    match c.handling with
    | some frame => (t.handleFrame c.peerAddr frame).update i (.setHandling none)
    | none => t
  | .endReading error =>
    if c.phase = .reading ∧ c.handling = none then
      (t.emitError c.peerAddr error).update i (.setPhase .exited)
    else t
  | .write =>
    match c.queue with
    | [] => t
    | (via, frame) :: _ =>
      if c.writer = .running ∧ c.recording = none then
        match encode crc frame [] with
        | .ok () _ => t.update i (.wrote via frame)
        | .error _ _ => t.update i .failWriter
      else t
  | .failWrite =>
    if c.writer = .running ∧ c.recording = none ∧ c.queue ≠ [] then t.update i .failWriter else t
  | .recordWritten =>
    match c.recording with
    | some wireSize =>
      (t.withConnection c.peerAddr (.recordSend (.ofNat wireSize))).update i .recorded
    | none => t
  | .endWriting =>
    if c.writer = .running ∧ c.recording = none ∧ c.queue = [] ∧
        t.sender c.peerAddr ≠ some i then
      t.update i .endWriter
    else t

/-- A step that no task and no caller is at changes nothing. -/
def step (t : TcpTransport) : TransportStep → TcpTransport
  | .connect peerAddr =>
    if t.pool.isFull then t else { t with connecting := peerAddr :: t.connecting }
  | .insert peerAddr =>
    if peerAddr ∈ t.connecting then
      { t with connecting := t.connecting.erase peerAddr }.enterPool peerAddr
    else t
  | .task i st =>
    match t.connections[i]? with
    | some c => t.taskStep crc i c st
    | none => t
  | .sendTo peerAddr frame => Exec.stateAfter (sendTo peerAddr frame t)
  | .recordSendTo peerAddr =>
    if peerAddr ∈ t.sending then
      { t with sending := t.sending.erase peerAddr }.withConnection peerAddr (.recordSend 0)
    else t
  | .broadcast peerAddr frame => t.offer peerAddr .broadcast frame
  | .disconnect peerAddr =>
    if peerAddr ∈ t.sending then t
    else { t with disconnecting := peerAddr :: t.disconnecting }.unregister peerAddr
  | .setClosing peerAddr =>
    if peerAddr ∈ t.disconnecting then
      { t with disconnecting := t.disconnecting.erase peerAddr }.withConnection peerAddr .setClosing
    else t

/-! ## What a step can do -/

variable {crc} {t t' : TcpTransport} {st : TransportStep}

/-- A frame is dropped, or goes to the connection of the registered sender. -/
theorem offer_eq (peerAddr : SocketAddr) (via : Via) (frame : Frame) (t : TcpTransport) :
    t.offer peerAddr via frame = t ∨ ∃ i c, t.sender peerAddr = some i ∧
      t.connections[i]? = some c ∧ c.writer = .running ∧
      t.offer peerAddr via frame = t.update i (.push via frame) := by
  unfold offer send
  cases hsender : t.sender peerAddr with
  | none => exact .inl rfl
  | some i =>
    cases hc : t.connections[i]? with
    | none => exact .inl (by simp [hc])
    | some c =>
      by_cases hrunning : c.writer = .running
      · exact .inr ⟨i, c, rfl, hc, hrunning, by simp [hc, hrunning]⟩
      · exact .inl (by simp [hc, hrunning])

/-- Apart from the write channels, such a frame changes nothing. -/
theorem offer_eq_with (peerAddr : SocketAddr) (via : Via) (frame : Frame) (t : TcpTransport) :
    ∃ connections, t.offer peerAddr via frame = { t with connections := connections } := by
  rcases offer_eq peerAddr via frame t with heq | ⟨i, c, -, -, -, heq⟩
  · exact ⟨t.connections, heq⟩
  · exact ⟨_, heq⟩

/-- `send_to` fails and changes nothing, or the frame goes to the connection of the registered
sender. -/
theorem sendTo_eq (peerAddr : SocketAddr) (frame : Frame) (t : TcpTransport) :
    (∃ error, sendTo peerAddr frame t = .error error t) ∨ ∃ i c, t.sender peerAddr = some i ∧
      t.connections[i]? = some c ∧ c.writer = .running ∧ sendTo peerAddr frame t =
        .ok () { t.update i (.push .sendTo frame) with sending := peerAddr :: t.sending } := by
  unfold sendTo send
  cases hsender : t.sender peerAddr with
  | none => exact .inl ⟨_, by simp [hsender]; rfl⟩
  | some i =>
    cases hc : t.connections[i]? with
    | none => exact .inl ⟨_, by simp [hsender, hc]; rfl⟩
    | some c =>
      by_cases hrunning : c.writer = .running
      · refine .inr ⟨i, c, rfl, hc, hrunning, ?_⟩
        simp [hsender, hc, hrunning]
        rfl
      · exact .inl ⟨_, by simp [hsender, hc, hrunning]; rfl⟩

/-- Every way in which a step can go. -/
inductive Stepped (t : TcpTransport) : TransportStep → TcpTransport → Prop
  | idle {st : TransportStep} : Stepped t st t
  | connected (peerAddr : SocketAddr) : Stepped t (.connect peerAddr)
      { t with connecting := peerAddr :: t.connecting }
  | inserted {peerAddr : SocketAddr} (hmem : peerAddr ∈ t.connecting) :
      Stepped t (.insert peerAddr)
        ({ t with connecting := t.connecting.erase peerAddr }.enterPool peerAddr)
  | announced {i : Nat} {c : Connection} (hc : t.connections[i]? = some c)
      (hphase : c.phase = .inserted) : Stepped t (.task i .advance)
        ((t.emit (.connected c.peerAddr)).update i (.setPhase .announced))
  | established {i : Nat} {c : Connection} (hc : t.connections[i]? = some c)
      (hphase : c.phase = .announced) : Stepped t (.task i .advance)
        ((t.withConnection c.peerAddr .setEstablished).update i (.setPhase .established))
  | spawned {i : Nat} {c : Connection} (hc : t.connections[i]? = some c)
      (hphase : c.phase = .established) (hfree : c.peerAddr ∉ t.sending) :
      Stepped t (.task i .advance) ((t.register c.peerAddr i).update i .spawn)
  | received {i : Nat} {c : Connection} (hc : t.connections[i]? = some c)
      (hphase : c.phase = .reading) (frame : Frame) : Stepped t (.task i (.receive frame))
        ((t.withConnection c.peerAddr (.recordRecv (.ofNat frame.wireSize))).update i
          (.setHandling frame))
  | handled {i : Nat} {c : Connection} (hc : t.connections[i]? = some c) {frame : Frame}
      (hframe : c.handling = some frame) : Stepped t (.task i .handle)
        ((t.handleFrame c.peerAddr frame).update i (.setHandling none))
  | exited {i : Nat} {c : Connection} (hc : t.connections[i]? = some c)
      (hphase : c.phase = .reading) (error : Option ProtocolError) :
      Stepped t (.task i (.endReading error))
        ((t.emitError c.peerAddr error).update i (.setPhase .exited))
  | unregistered {i : Nat} {c : Connection} (hc : t.connections[i]? = some c)
      (hphase : c.phase = .exited) (hfree : c.peerAddr ∉ t.sending) :
      Stepped t (.task i .advance)
        ((t.unregister c.peerAddr).update i (.setPhase .unregistered))
  | closed {i : Nat} {c : Connection} (hc : t.connections[i]? = some c)
      (hphase : c.phase = .unregistered) : Stepped t (.task i .advance)
        ((t.withConnection c.peerAddr .setClosed).update i (.setPhase .closed))
  | removed {i : Nat} {c : Connection} (hc : t.connections[i]? = some c)
      (hphase : c.phase = .closed) : Stepped t (.task i .advance)
        ((t.leavePool c.peerAddr).update i (.setPhase .removed))
  | finished {i : Nat} {c : Connection} (hc : t.connections[i]? = some c)
      (hphase : c.phase = .removed) : Stepped t (.task i .advance)
        ((t.emit (.disconnected c.peerAddr "connection closed")).update i (.setPhase .finished))
  | wrote {i : Nat} {c : Connection} (hc : t.connections[i]? = some c)
      (hrunning : c.writer = .running) (hrecording : c.recording = none) {via : Via}
      {frame : Frame} {queue : List (Via × Frame)} (hqueue : c.queue = (via, frame) :: queue) :
      Stepped t (.task i .write) (t.update i (.wrote via frame))
  | writerFailed {i : Nat} {c : Connection} (hc : t.connections[i]? = some c)
      (hrunning : c.writer = .running) {task : TaskStep} :
      Stepped t (.task i task) (t.update i .failWriter)
  | recorded {i : Nat} {c : Connection} (hc : t.connections[i]? = some c) {wireSize : Nat}
      (hrecording : c.recording = some wireSize) : Stepped t (.task i .recordWritten)
        ((t.withConnection c.peerAddr (.recordSend (.ofNat wireSize))).update i .recorded)
  | writerEnded {i : Nat} {c : Connection} (hc : t.connections[i]? = some c)
      (hrunning : c.writer = .running) : Stepped t (.task i .endWriting) (t.update i .endWriter)
  | sent {peerAddr : SocketAddr} {i : Nat} {c : Connection}
      (hsender : t.sender peerAddr = some i) (hc : t.connections[i]? = some c)
      (hrunning : c.writer = .running) (frame : Frame) : Stepped t (.sendTo peerAddr frame)
        { t.update i (.push .sendTo frame) with sending := peerAddr :: t.sending }
  | sendRecorded {peerAddr : SocketAddr} (hmem : peerAddr ∈ t.sending) :
      Stepped t (.recordSendTo peerAddr)
        ({ t with sending := t.sending.erase peerAddr }.withConnection peerAddr (.recordSend 0))
  | offered (peerAddr : SocketAddr) (frame : Frame) :
      Stepped t (.broadcast peerAddr frame) (t.offer peerAddr .broadcast frame)
  | disconnected {peerAddr : SocketAddr} (hfree : peerAddr ∉ t.sending) :
      Stepped t (.disconnect peerAddr)
        ({ t with disconnecting := peerAddr :: t.disconnecting }.unregister peerAddr)
  | closing {peerAddr : SocketAddr} (hmem : peerAddr ∈ t.disconnecting) :
      Stepped t (.setClosing peerAddr)
        ({ t with disconnecting := t.disconnecting.erase peerAddr }.withConnection peerAddr
          .setClosing)

/-- Advancing is one of the steps described. -/
theorem stepped_advance {i : Nat} {c : Connection} (hc : t.connections[i]? = some c) :
    t.Stepped (.task i .advance) (t.advance i c) := by
  unfold advance
  split
  case h_1 hphase => exact .announced hc hphase
  case h_2 hphase => exact .established hc hphase
  case h_3 hphase =>
    split
    case isTrue => exact .idle
    case isFalse hfree => exact .spawned hc hphase hfree
  case h_4 => exact .idle
  case h_5 hphase =>
    split
    case isTrue => exact .idle
    case isFalse hfree => exact .unregistered hc hphase hfree
  case h_6 hphase => exact .closed hc hphase
  case h_7 hphase => exact .removed hc hphase
  case h_8 hphase => exact .finished hc hphase
  case h_9 => exact .idle

/-- A step of a task is one of the steps described. -/
theorem stepped_taskStep {i : Nat} {c : Connection} (hc : t.connections[i]? = some c)
    (task : TaskStep) : t.Stepped (.task i task) (t.taskStep crc i c task) := by
  cases task with
  | advance => exact stepped_advance hc
  | receive frame =>
    rw [taskStep]
    split
    case isTrue h => exact .received hc h.1 frame
    case isFalse => exact .idle
  | handle =>
    rw [taskStep]
    split
    case h_1 frame hframe => exact .handled hc hframe
    case h_2 => exact .idle
  | endReading error =>
    rw [taskStep]
    split
    case isTrue h => exact .exited hc h.1 error
    case isFalse => exact .idle
  | write =>
    rw [taskStep]
    split
    case h_1 => exact .idle
    case h_2 via frame queue hqueue =>
      split
      case isFalse => exact .idle
      case isTrue h =>
        split
        · exact .wrote hc h.1 h.2 hqueue
        · exact .writerFailed hc h.1
  | failWrite =>
    rw [taskStep]
    split
    case isTrue h => exact .writerFailed hc h.1
    case isFalse => exact .idle
  | recordWritten =>
    rw [taskStep]
    split
    case h_1 wireSize hrecording => exact .recorded hc hrecording
    case h_2 => exact .idle
  | endWriting =>
    rw [taskStep]
    split
    case isTrue h => exact .writerEnded hc h.1
    case isFalse => exact .idle

/-- Every step is one of those described. -/
theorem step_stepped (crc : Crc32c) (t : TcpTransport) (st : TransportStep) :
    t.Stepped st (t.step crc st) := by
  cases st with
  | connect peerAddr =>
    rw [step]
    split
    case isTrue => exact .idle
    case isFalse => exact .connected peerAddr
  | insert peerAddr =>
    rw [step]
    split
    case isTrue hmem => exact .inserted hmem
    case isFalse => exact .idle
  | task i task =>
    rw [step]
    split
    case h_1 c hc => exact stepped_taskStep hc task
    case h_2 => exact .idle
  | sendTo peerAddr frame =>
    rw [step]
    rcases sendTo_eq peerAddr frame t with ⟨error, heq⟩ | ⟨i, c, hsender, hc, hrunning, heq⟩
    · rw [heq]
      exact .idle
    · rw [heq]
      exact .sent hsender hc hrunning frame
  | recordSendTo peerAddr =>
    rw [step]
    split
    case isTrue hmem => exact .sendRecorded hmem
    case isFalse => exact .idle
  | broadcast peerAddr frame => exact .offered peerAddr frame
  | disconnect peerAddr =>
    rw [step]
    split
    case isTrue => exact .idle
    case isFalse hfree => exact .disconnected hfree
  | setClosing peerAddr =>
    rw [step]
    split
    case isTrue hmem => exact .closing hmem
    case isFalse => exact .idle

/-! ## The parts of the state -/

/-- The connections of an updated transport. -/
theorem getElem?_update {i j : Nat} {f : Connection → Connection} {c' : Connection}
    (h : (t.update i f).connections[j]? = some c') :
    ∃ c, t.connections[j]? = some c ∧ (i ≠ j ∧ c' = c ∨ i = j ∧ c' = f c) := by
  rw [update, List.getElem?_modify] at h
  obtain ⟨c, hc, heq⟩ := Option.map_eq_some_iff.mp h
  refine ⟨c, hc, ?_⟩
  by_cases hij : i = j
  · exact .inr ⟨hij, by rw [← heq, if_pos hij]⟩
  · exact .inl ⟨hij, by rw [← heq, if_neg hij]⟩

/-- The connection that was changed. -/
theorem getElem?_update_self {i : Nat} {c : Connection} (h : t.connections[i]? = some c)
    (f : Connection → Connection) : (t.update i f).connections[i]? = some (f c) := by
  rw [update, List.getElem?_modify_eq, h]
  rfl

/-- The entries after one has entered. -/
theorem entry_enterPool (t : TcpTransport) (peerAddr addr : SocketAddr) :
    (t.enterPool peerAddr).pool.entry addr =
      if addr = peerAddr then some ((t.pool.entry addr).getD .new) else t.pool.entry addr := by
  unfold enterPool
  cases hentry : t.pool.entry peerAddr with
  | some info =>
    dsimp only
    split
    case isTrue heq => rw [heq, hentry, Option.getD_some]
    case isFalse => rfl
  | none =>
    refine (ConnectionPool.entry_enter t.pool peerAddr addr).trans ?_
    split
    case isTrue heq => rw [heq, hentry, Option.getD_none]
    case isFalse => rfl

/-- The senders after one was registered. -/
theorem sender_register (t : TcpTransport) (peerAddr addr : SocketAddr) (i : Nat) :
    (t.register peerAddr i).sender addr = if addr = peerAddr then some i else t.sender addr :=
  FiniteMap.lookup_insert t.peerSenders peerAddr addr i

/-- The senders after one was unregistered. -/
theorem sender_unregister (t : TcpTransport) (peerAddr addr : SocketAddr) :
    (t.unregister peerAddr).sender addr = if addr = peerAddr then none else t.sender addr :=
  FiniteMap.lookup_erase t.peerSenders peerAddr addr

end TcpTransport

end CekyP2P.Transport
