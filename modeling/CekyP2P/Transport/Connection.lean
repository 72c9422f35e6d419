import CekyP2P.Protocol.Stream
import CekyP2P.Transfer.State

/-!
# One end of a TCP connection

What `TcpTransport` keeps and runs for one connection: the entry in the pool, the sender
of the write channel in `peer_senders`, a writer task and a reader task. A call of a task is
one iteration of its loop.
-/

namespace CekyP2P.Transport

open Protocol FrameCodec Transfer

/-- What the transport reports to the node. -/
inductive TransportEvent
  | connected (peerAddr : SocketAddr)
  | disconnected (peerAddr : SocketAddr) (reason : String)
  | frameReceived (peerAddr : SocketAddr) (frame : Frame)
  /-- The source sends the text of the error. -/
  | error (peerAddr : Option SocketAddr) (error : ProtocolError)
  deriving DecidableEq

/-- The errors of the transport. -/
inductive TransportError
  | peerNotFound (addr : SocketAddr)
  | sendFailed
  | poolFull (max : Nat)
  deriving DecidableEq

/-- The states of an entry in the pool. -/
inductive ConnectionState
  | connecting | established | closing | closed
  deriving DecidableEq

/-- `ConnectionInfo`, without its instants. The counters wrap around. -/
structure ConnectionInfo where
  state : ConnectionState
  missedHeartbeats : UInt32
  bytesRecv : UInt64
  bytesSent : UInt64
  framesRecv : UInt64
  framesSent : UInt64
  deriving DecidableEq

namespace ConnectionInfo

/-- A new entry. -/
def new : ConnectionInfo := ⟨.connecting, 0, 0, 0, 0, 0⟩

/-- The connection is usable. -/
def setEstablished (conn : ConnectionInfo) : ConnectionInfo := { conn with state := .established }

/-- The connection is being closed. -/
def setClosing (conn : ConnectionInfo) : ConnectionInfo := { conn with state := .closing }

/-- The connection is closed. -/
def setClosed (conn : ConnectionInfo) : ConnectionInfo := { conn with state := .closed }

/-- A frame was received. -/
def recordRecv (bytes : UInt64) (conn : ConnectionInfo) : ConnectionInfo :=
  { conn with bytesRecv := conn.bytesRecv + bytes, framesRecv := conn.framesRecv + 1 }

/-- A frame was sent. -/
def recordSend (bytes : UInt64) (conn : ConnectionInfo) : ConnectionInfo :=
  { conn with bytesSent := conn.bytesSent + bytes, framesSent := conn.framesSent + 1 }

/-- A pong forgives the missed heartbeats. -/
def recordPongReceived (conn : ConnectionInfo) : ConnectionInfo :=
  { conn with missedHeartbeats := 0 }

end ConnectionInfo

/-- One end of a connection: its entry, its tasks and what they share. -/
structure Endpoint where
  peerAddr : SocketAddr
  /-- The entry in the pool. -/
  info : Option ConnectionInfo
  /-- `peer_senders` has the sender of the write channel. -/
  registered : Bool
  /-- The frames in the write channel. -/
  queue : List Frame
  /-- The writer task runs, and with it the receiver of the write channel lives. -/
  writing : Bool
  /-- The reader task runs. -/
  reading : Bool
  codec : DecodeState
  /-- Bytes that the reader has from the socket and has not consumed. -/
  buffer : List UInt8
  events : List TransportEvent

namespace Endpoint

/-- After `connect` or `accept`: both tasks have been spawned. -/
def spawnConnectionTasks (peerAddr : SocketAddr) : Endpoint where
  peerAddr := peerAddr
  info := some ConnectionInfo.new.setEstablished
  registered := true
  queue := []
  writing := true
  reading := true
  codec := .header
  buffer := []
  events := [.connected peerAddr]

/-- Change the entry, if there is one. -/
def withConnection (f : ConnectionInfo → ConnectionInfo) (e : Endpoint) : Endpoint :=
  { e with info := e.info.map f }

/-- Report an event. -/
def emit (event : TransportEvent) (e : Endpoint) : Endpoint :=
  { e with events := e.events ++ [event] }

/-- `sender.send(frame)`, which fails once the writer task has dropped the receiver. -/
def send (frame : Frame) (e : Endpoint) : Option Endpoint :=
  if e.writing then some { e with queue := e.queue ++ [frame] } else none

/-- `send_to`, on the connection of this end. -/
def sendTo (frame : Frame) : Exec TransportError Endpoint Unit := do
  let e ← get
  if e.registered then do
    let e' ← Exec.orError .sendFailed (e.send frame)
    set (e'.withConnection (.recordSend 0))
  else throw (.error (.peerNotFound e.peerAddr))

/-- `disconnect`. -/
def disconnect (e : Endpoint) : Endpoint :=
  { e with registered := false }.withConnection .setClosing

variable (crc : Crc32c)

/-- The writer task, with the bytes it writes to the socket. It ends on a write error, and
when the channel is closed and empty. -/
def write (e : Endpoint) : Endpoint × List UInt8 :=
  if e.writing then
    match e.queue with
    | [] => if e.registered then (e, []) else ({ e with writing := false }, [])
    | frame :: queue =>
      match encode crc frame [] with
      | .ok () bytes =>
        ({ e with queue }.withConnection (.recordSend (.ofNat frame.wireSize)), bytes)
      | .error _ _ => ({ e with queue := [], writing := false }, [])
  else (e, [])

/-- The answer to a ping; a failure to send it is ignored. -/
def autoPong (requestId : UInt64) (e : Endpoint) : Endpoint :=
  let pong := Frame.simple .pong requestId
  if e.registered then (e.send pong).getD e else e

/-- The reader task's treatment of a frame. -/
def handleFrame (frame : Frame) (e : Endpoint) : Endpoint :=
  let e := e.withConnection (.recordRecv (.ofNat frame.wireSize))
  match frame.header.msgType with
  | .ping => e.autoPong frame.header.requestId
  | .pong => e.withConnection .recordPongReceived
  | _ => e.emit (.frameReceived e.peerAddr frame)

/-- What the reader task does after its loop. -/
def cleanup (e : Endpoint) : Endpoint :=
  { e with registered := false, info := none, reading := false }.emit
    (.disconnected e.peerAddr "connection closed")

/-- The reader task, on the bytes it has. A panic ends it without a cleanup. -/
def next (e : Endpoint) : Endpoint :=
  if e.reading then
    match decode crc ⟨e.codec, e.buffer⟩ with
    | .ok none d => { e with codec := d.state, buffer := d.src }
    | .ok (some frame) d => { e with codec := d.state, buffer := d.src }.handleFrame frame
    | .error (.error error) d =>
      ({ e with codec := d.state, buffer := d.src }.emit (.error (some e.peerAddr) error)).cleanup
    | .error _ _ => { e with reading := false }
  else e

/-- The reader task at the end of the stream, when it has no further frame: bytes that
are left over are an error. -/
def eof (e : Endpoint) : Endpoint :=
  if e.reading then
    match decode crc ⟨e.codec, e.buffer⟩ with
    | .ok none d =>
      if d.src = [] then e.cleanup
      else (e.emit (.error (some e.peerAddr) (.io "bytes remaining on stream"))).cleanup
    | _ => e
  else e

/-- The frames of the events that the upper layer gets. -/
def received (e : Endpoint) : List Frame :=
  e.events.filterMap fun
    | .frameReceived _ frame => some frame
    | _ => none

/-! ## What the calls change -/

section

variable {crc} {e : Endpoint}

/-- The frames that the reader task hands to the upper layer. -/
def Forwarded (frame : Frame) : Prop :=
  frame.header.msgType ≠ .ping ∧ frame.header.msgType ≠ .pong

instance : DecidablePred Forwarded := fun _ => instDecidableAnd

/-- A reported frame was received. -/
theorem received_emit (event : TransportEvent) :
    (e.emit event).received = e.received ++ [event].filterMap fun
      | .frameReceived _ frame => some frame
      | _ => none := by
  rw [received, emit, List.filterMap_append]
  rfl

@[simp] theorem received_cleanup : e.cleanup.received = e.received := by
  rw [cleanup, received_emit, List.filterMap_cons_none rfl, List.filterMap_nil, List.append_nil]
  rfl

/-- A ping is answered if the writer runs. -/
theorem autoPong_cases (requestId : UInt64) : e.autoPong requestId = e ∨
    e.writing = true ∧
      e.autoPong requestId = { e with queue := e.queue ++ [.simple .pong requestId] } := by
  unfold autoPong send
  by_cases hregistered : e.registered = true
  · by_cases hwriting : e.writing = true
    · exact .inr ⟨hwriting, by simp [hregistered, hwriting]⟩
    · exact .inl (by simp [hwriting])
  · exact .inl (by simp [hregistered])

/-- `send_to` fails and changes nothing, or puts the frame into the write channel. -/
theorem sendTo_cases (frame : Frame) : (∃ error, sendTo frame e = .error error e) ∨
    e.writing = true ∧ sendTo frame e =
      .ok () ({ e with queue := e.queue ++ [frame] }.withConnection (.recordSend 0)) := by
  unfold sendTo send
  by_cases hregistered : e.registered = true
  · by_cases hwriting : e.writing = true
    · refine .inr ⟨hwriting, ?_⟩
      simp [hregistered, hwriting]
      rfl
    · exact .inl ⟨_, by simp [hregistered, hwriting]; rfl⟩
  · exact .inl ⟨_, by simp [hregistered]; rfl⟩

/-- The writer task waits, ends with the channel, or takes a frame: it writes the frame, or
ends because it cannot be encoded. -/
theorem write_cases : e.write crc = (e, []) ∨
    (e.queue = [] ∧ e.write crc = ({ e with writing := false }, [])) ∨
    ∃ frame queue, e.writing = true ∧ e.queue = frame :: queue ∧
      ((∃ bytes, encode crc frame [] = .ok () bytes ∧ e.write crc =
        ({ e with queue := queue }.withConnection (.recordSend (.ofNat frame.wireSize)), bytes)) ∨
      (∃ error dst, encode crc frame [] = .error error dst ∧
        e.write crc = ({ e with queue := [], writing := false }, []))) := by
  unfold write
  by_cases hwriting : e.writing = true
  · cases hqueue : e.queue with
    | nil =>
      by_cases hregistered : e.registered = true
      · exact .inl (by simp [hregistered])
      · exact .inr (.inl ⟨rfl, by simp [hwriting, hregistered]⟩)
    | cons frame queue =>
      refine .inr (.inr ⟨frame, queue, hwriting, rfl, ?_⟩)
      cases hencode : encode crc frame [] with
      | ok _ bytes => exact .inl ⟨bytes, rfl, by simp [hwriting, hencode]⟩
      | error error dst => exact .inr ⟨error, dst, rfl, by simp [hwriting, hencode]⟩
  · exact .inl (by simp [hwriting])

/-- The writer encodes the next frame. -/
theorem write_of_encode {frame : Frame} {queue : List Frame} {bytes : List UInt8}
    (hwriting : e.writing = true) (hqueue : e.queue = frame :: queue)
    (hencode : encode crc frame [] = .ok () bytes) : e.write crc =
      ({ e with queue := queue }.withConnection (.recordSend (.ofNat frame.wireSize)), bytes) := by
  simp [write, hwriting, hqueue, hencode]

/-- The reader reports the next frame. -/
theorem next_of_decode {frame : Frame} {d : Decoding} (hreading : e.reading = true)
    (hdecode : decode crc ⟨e.codec, e.buffer⟩ = .ok (some frame) d) : e.next crc =
      { e with codec := d.state, buffer := d.src }.handleFrame frame := by
  simp [next, hreading, hdecode]

/-- The reader task stands where it stood, and has made the same frames into events. -/
structure SameReader (e e' : Endpoint) : Prop where
  codec_eq : e'.codec = e.codec
  buffer_eq : e'.buffer = e.buffer
  reading_eq : e'.reading = e.reading
  received_eq : e'.received = e.received

/-- Disconnecting leaves the reader. -/
theorem sameReader_disconnect : SameReader e e.disconnect := ⟨rfl, rfl, rfl, rfl⟩

/-- Sending leaves the reader. -/
theorem sameReader_sendTo (frame : Frame) :
    SameReader e (Exec.stateAfter (sendTo frame e)) := by
  rcases sendTo_cases frame with ⟨error, herror⟩ | ⟨-, hok⟩
  · rw [herror]
    exact ⟨rfl, rfl, rfl, rfl⟩
  · rw [hok]
    exact ⟨rfl, rfl, rfl, rfl⟩

/-- Writing leaves the reader. -/
theorem sameReader_write : SameReader e (e.write crc).1 := by
  rcases write_cases (e := e) with
    hsame | ⟨-, hend⟩ | ⟨_, _, -, -, ⟨_, -, hwrite⟩ | ⟨_, _, -, herror⟩⟩
  · rw [hsame]
    exact ⟨rfl, rfl, rfl, rfl⟩
  · rw [hend]
    exact ⟨rfl, rfl, rfl, rfl⟩
  · rw [hwrite]
    exact ⟨rfl, rfl, rfl, rfl⟩
  · rw [herror]
    exact ⟨rfl, rfl, rfl, rfl⟩

/-- A frame makes an event unless it is a ping or a pong, whatever its flags. -/
theorem received_handleFrame (frame : Frame) : (e.handleFrame frame).received =
    e.received ++ [frame].filter (Forwarded ·) := by
  unfold handleFrame
  split
  case h_1 hping =>
    have hnot : ¬Forwarded frame := fun h => h.1 hping
    rw [List.filter_cons_of_neg (by simpa using hnot), List.filter_nil, List.append_nil]
    rcases autoPong_cases (e := e.withConnection (.recordRecv (.ofNat frame.wireSize)))
      frame.header.requestId with heq | ⟨-, heq⟩
    · simp only [heq]
      rfl
    · simp only [heq]
      rfl
  case h_2 hpong =>
    have hnot : ¬Forwarded frame := fun h => h.2 hpong
    rw [List.filter_cons_of_neg (by simpa using hnot), List.filter_nil, List.append_nil]
    rfl
  case h_3 hping hpong =>
    have hforwarded : Forwarded frame := ⟨hping, hpong⟩
    rw [List.filter_cons_of_pos (by simpa using hforwarded), List.filter_nil, received_emit]
    rfl

/-- Apart from the pool entry and the events, a frame changes at most the write channel. -/
theorem handleFrame_cases (frame : Frame) :
    ((e.handleFrame frame).codec = e.codec ∧ (e.handleFrame frame).buffer = e.buffer ∧
      (e.handleFrame frame).reading = e.reading ∧ (e.handleFrame frame).writing = e.writing) ∧
    ((e.handleFrame frame).queue = e.queue ∨ e.writing = true ∧
      (e.handleFrame frame).queue = e.queue ++ [.simple .pong frame.header.requestId]) := by
  unfold handleFrame
  split
  case h_1 =>
    rcases autoPong_cases (e := e.withConnection (.recordRecv (.ofNat frame.wireSize)))
      frame.header.requestId with heq | ⟨hwriting, heq⟩
    · simp only [heq]
      exact ⟨⟨rfl, rfl, rfl, rfl⟩, .inl rfl⟩
    · simp only [heq]
      exact ⟨⟨rfl, rfl, rfl, rfl⟩, .inr ⟨hwriting, rfl⟩⟩
  case h_2 => exact ⟨⟨rfl, rfl, rfl, rfl⟩, .inl rfl⟩
  case h_3 => exact ⟨⟨rfl, rfl, rfl, rfl⟩, .inl rfl⟩

/-- The reader task puts at most a pong into the write channel. -/
theorem queue_next : (e.next crc).writing = e.writing ∧ ((e.next crc).queue = e.queue ∨
    e.writing = true ∧ ∃ id, (e.next crc).queue = e.queue ++ [.simple .pong id]) := by
  unfold next
  split
  case isFalse => exact ⟨rfl, .inl rfl⟩
  case isTrue =>
    split
    case h_2 frame d _ =>
      obtain ⟨⟨-, -, -, hwriting⟩, hqueue⟩ :=
        handleFrame_cases (e := { e with codec := d.state, buffer := d.src }) frame
      exact ⟨hwriting, hqueue.imp id fun ⟨hrunning, hpong⟩ => ⟨hrunning, _, hpong⟩⟩
    all_goals exact ⟨rfl, .inl rfl⟩

/-- The end of the stream leaves the writer. -/
theorem queue_eof : (e.eof crc).writing = e.writing ∧ (e.eof crc).queue = e.queue := by
  unfold eof
  split
  case isFalse => exact ⟨rfl, rfl⟩
  case isTrue =>
    split
    · split <;> exact ⟨rfl, rfl⟩
    · exact ⟨rfl, rfl⟩

/-- The end of the stream is no frame. -/
theorem received_eof : (e.eof crc).received = e.received := by
  unfold eof
  split
  case isFalse => rfl
  case isTrue =>
    split
    · split
      · exact received_cleanup
      · rw [received_cleanup, received_emit, List.filterMap_cons_none rfl, List.filterMap_nil,
          List.append_nil]
    · rfl

/-- The end of the stream leaves the buffer. -/
theorem codec_eof : (e.eof crc).codec = e.codec ∧ (e.eof crc).buffer = e.buffer := by
  unfold eof
  split
  case isFalse => exact ⟨rfl, rfl⟩
  case isTrue =>
    split
    · split <;> exact ⟨rfl, rfl⟩
    · exact ⟨rfl, rfl⟩

/-- What holds at an end whatever arrives: the frames that made events are neither pings nor
pongs, and short enough for the codec. -/
structure Sound (e : Endpoint) : Prop where
  codec_valid : e.codec.Valid
  received_fits : ∀ frame ∈ e.received,
    Forwarded frame ∧ frame.payload.length ≤ maxPayloadSize.toNat

/-- A fresh end is sound. -/
theorem sound_spawnConnectionTasks (peerAddr : SocketAddr) :
    (spawnConnectionTasks peerAddr).Sound := ⟨trivial, nofun⟩

/-- Soundness depends on the reader only. -/
theorem Sound.congr (h : e.Sound) {e' : Endpoint} (hsame : SameReader e e') : e'.Sound where
  codec_valid := hsame.codec_eq ▸ h.codec_valid
  received_fits := hsame.received_eq ▸ h.received_fits

/-- The end of the stream keeps an end sound. -/
theorem Sound.eof (h : e.Sound) : (e.eof crc).Sound where
  codec_valid := by
    rw [codec_eof.1]
    exact h.codec_valid
  received_fits := by
    rw [received_eof]
    exact h.received_fits

/-- Reading keeps an end sound. -/
theorem Sound.next (h : e.Sound) : (e.next crc).Sound := by
  have hcall := decode_call crc ⟨e.codec, e.buffer⟩
  have hvalid := decode_valid crc (d := ⟨e.codec, e.buffer⟩) h.codec_valid
  unfold Endpoint.next
  split
  case isFalse => exact h
  case isTrue =>
    generalize decode crc ⟨e.codec, e.buffer⟩ = result at hcall hvalid
    cases hcall with
    | waits state => exact ⟨hvalid, h.received_fits⟩
    | fails error state =>
      refine ⟨hvalid, ?_⟩
      rw [received_cleanup, received_emit, List.filterMap_cons_none rfl, List.filterMap_nil,
        List.append_nil]
      exact h.received_fits
    | @takes frame n hpos hle =>
      obtain ⟨hstate, hframe⟩ := hvalid
      obtain ⟨⟨hcodec, -⟩, -⟩ :=
        handleFrame_cases (e := { e with codec := .header, buffer := e.buffer.drop n }) frame
      refine ⟨hcodec ▸ hstate, ?_⟩
      rw [received_handleFrame]
      intro f hf
      rcases List.mem_append.mp hf with hf | hf
      · exact h.received_fits f hf
      · obtain ⟨hmem, hforwarded⟩ := List.mem_filter.mp hf
        obtain rfl := List.mem_singleton.mp hmem
        refine ⟨of_decide_eq_true hforwarded, ?_⟩
        rw [hframe.length_payload]
        exact UInt32.le_iff_toNat_le.mp hframe.accepted.payloadLen_le

end

end Endpoint

end CekyP2P.Transport
