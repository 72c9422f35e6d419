import CekyP2P.Transport.Connection
import Mathlib.Logic.Function.Basic

/-!
# Two ends of a connection

Both tasks of both ends run in any order, and TCP carries the bytes of each direction
in order, in pieces of any size. A frame that one node passes to `send_to` reaches the other
node as an event, unless the codec cannot carry it or the reader task keeps it.
-/

namespace CekyP2P.Transport

open Protocol FrameCodec Transfer Incremental Endpoint

/-- The two sides of a connection. -/
inductive Side
  | dialer | listener
  deriving DecidableEq

/-- The side at the other end. -/
def Side.other : Side → Side
  | dialer => listener
  | listener => dialer

/-- The sides differ. -/
theorem Side.other_ne (side : Side) : side.other ≠ side := by
  cases side <;> decide

@[simp] theorem Side.other_other (side : Side) : side.other.other = side := by
  cases side <;> rfl

/-- There are two sides. -/
theorem Side.eq_or_eq_other (side t : Side) : t = side ∨ t = side.other := by
  cases side <;> cases t <;> decide

/-- Two ends and the bytes on their way. -/
structure SocketPair where
  ends : Side → Endpoint
  /-- The bytes that a side has written and the other has not read. -/
  wire : Side → List UInt8

/-- What can happen at one of the ends. -/
inductive Step
  | sendTo (side : Side) (frame : Frame)
  | disconnect (side : Side)
  | write (side : Side)
  /-- The reader gets bytes from the socket. -/
  | arrive (side : Side) (count : Nat)
  | next (side : Side)
  | eof (side : Side)

namespace SocketPair

/-- A connection over which nothing has been sent; a node knows its peer by address. -/
def fresh (peerAddr : Side → SocketAddr) : SocketPair where
  ends side := spawnConnectionTasks (peerAddr side)
  wire _ := []

/-- Replace an end. -/
def setEnd (l : SocketPair) (side : Side) (e : Endpoint) : SocketPair :=
  { l with ends := Function.update l.ends side e }

/-- Both tasks of a side have ended, and with them its socket. -/
def Closed (l : SocketPair) (side : Side) : Prop :=
  (l.ends side).reading = false ∧ (l.ends side).writing = false

instance (l : SocketPair) (side : Side) : Decidable (l.Closed side) := instDecidableAnd

variable (crc : Crc32c)

/-- The pair after a step. -/
def step (l : SocketPair) : Step → SocketPair
  | .sendTo side frame => l.setEnd side (Exec.stateAfter (sendTo frame (l.ends side)))
  | .disconnect side => l.setEnd side (l.ends side).disconnect
  | .write side =>
    let (e, bytes) := (l.ends side).write crc
    { l.setEnd side e with wire := Function.update l.wire side (l.wire side ++ bytes) }
  | .arrive side count =>
    if (l.ends side).reading then
      let bytes := l.wire side.other
      { l.setEnd side { l.ends side with buffer := (l.ends side).buffer ++ bytes.take count } with
        wire := Function.update l.wire side.other (bytes.drop count) }
    else l
  | .next side => l.setEnd side ((l.ends side).next crc)
  | .eof side =>
    if l.Closed side.other ∧ l.wire side.other = [] then l.setEnd side ((l.ends side).eof crc)
    else l

/-- The pair after several steps. -/
def run (l : SocketPair) (steps : List Step) : SocketPair := steps.foldl (step crc) l

/-- The frame of a step that a side passes to `send_to` with success. -/
def accepted (side : Side) (l : SocketPair) : Step → List Frame
  | .sendTo s frame =>
    if s = side then
      match sendTo frame (l.ends side) with
      | .ok () _ => [frame]
      | .error _ _ => []
    else []
  | _ => []

/-- The frames that a side passes to `send_to` with success along a run. -/
def passed (side : Side) : SocketPair → List Step → List Frame
  | _, [] => []
  | l, s :: steps => l.accepted side s ++ passed side (l.step crc s) steps

/-- Nothing that the side has sent is still on its way. -/
def Settled (l : SocketPair) (side : Side) : Prop :=
  ((l.ends side).writing = true → (l.ends side).queue = []) ∧
  ((l.ends side.other).reading = true → l.wire side = [] ∧
    ∃ d, decode crc ⟨(l.ends side.other).codec, (l.ends side.other).buffer⟩ = .ok none d)

end SocketPair

/-! ## One direction -/

/-- One direction of a connection while its frames can be carried. Pings and pongs apart, what
was passed to `send_to` is what the other side has got, what is on the wire or in the buffer of
the reader, and what is in the write channel. -/
structure Lane (crc : Crc32c) (passed pending : List Frame) (src dst : Endpoint)
    (wire : List UInt8) : Prop where
  built : ∀ frame ∈ src.queue, Built frame
  stopped : src.writing = false → src.queue = []
  drained : ∃ n, (frameDecoder crc).drain dst.codec (dst.buffer ++ wire) =
    ⟨pending, n, .waiting .header []⟩
  flow : (passed.filter (Forwarded ·)).map (withChecksum crc) =
    dst.received ++ (pending ++ src.queue.map (withChecksum crc)).filter (Forwarded ·)
  ended : dst.reading = false → src.writing = false ∧ pending = []

namespace Lane

variable {crc : Crc32c} {passed pending : List Frame} {src src' dst dst' : Endpoint}
  {wire : List UInt8}

/-- A lane depends on the writer of its source. -/
theorem congr_src (h : Lane crc passed pending src dst wire) (hqueue : src'.queue = src.queue)
    (hwriting : src'.writing = src.writing) : Lane crc passed pending src' dst wire where
  built := hqueue ▸ h.built
  stopped := hqueue ▸ hwriting ▸ h.stopped
  drained := h.drained
  flow := hqueue ▸ h.flow
  ended := hwriting ▸ h.ended

/-- A lane depends on the reader at its end. -/
theorem congr_dst (h : Lane crc passed pending src dst wire) (hsame : SameReader dst dst') :
    Lane crc passed pending src dst' wire where
  built := h.built
  stopped := h.stopped
  drained := hsame.codec_eq ▸ hsame.buffer_eq ▸ h.drained
  flow := hsame.received_eq ▸ h.flow
  ended := hsame.reading_eq ▸ h.ended

/-- A frame enters the write channel, from the node or from the reader task. -/
theorem enqueue (h : Lane crc passed pending src dst wire) {frame : Frame} (hbuilt : Built frame)
    {new : List Frame} (hnew : new.filter (Forwarded ·) = [frame].filter (Forwarded ·))
    (hrunning : src.writing = true) (hqueue : src'.queue = src.queue ++ [frame])
    (hwriting : src'.writing = src.writing) :
    Lane crc (passed ++ new) pending src' dst wire where
  built := by
    rw [hqueue]
    exact List.forall_mem_append.mpr ⟨h.built, List.forall_mem_singleton.mpr hbuilt⟩
  stopped hstop := by
    rw [hwriting, hrunning] at hstop
    cases hstop
  drained := h.drained
  flow := by
    have hsame : Forwarded (withChecksum crc frame) ↔ Forwarded frame := Iff.rfl
    rw [hqueue, List.filter_append, hnew, List.map_append, h.flow, List.map_append,
      ← List.append_assoc pending, List.filter_append, ← List.append_assoc]
    by_cases hforwarded : Forwarded frame <;> simp [hsame, hforwarded]
  ended hend := by
    rw [hwriting]
    exact h.ended hend

/-- The reader task answers a ping. -/
theorem pong (h : Lane crc passed pending src dst wire) {requestId : UInt64}
    (hrunning : src.writing = true)
    (hqueue : src'.queue = src.queue ++ [.simple .pong requestId])
    (hwriting : src'.writing = src.writing) : Lane crc passed pending src' dst wire := by
  have hbuilt : Built (.simple .pong requestId) := ⟨.pong, .empty, requestId, [], by decide, rfl⟩
  rw [← List.append_nil passed]
  exact h.enqueue hbuilt rfl hrunning hqueue hwriting

/-- The writer task writes frames that can be encoded, one by one. -/
theorem write (h : Lane crc passed pending src dst wire) :
    ∃ pending', Lane crc passed pending' (src.write crc).1 dst (wire ++ (src.write crc).2) := by
  rcases write_cases (e := src) with
    hsame | ⟨hqueue, hend⟩ | ⟨frame, queue, hwriting, hqueue, hframe⟩
  · rw [hsame, List.append_nil]
    exact ⟨pending, h⟩
  · rw [hend, List.append_nil]
    exact ⟨pending,
      { built := h.built
        stopped := fun _ => hqueue
        drained := h.drained
        flow := h.flow
        ended := fun hend => ⟨rfl, (h.ended hend).2⟩ }⟩
  · have hbuilt : Built frame := h.built frame (by rw [hqueue]; exact List.mem_cons_self)
    rw [hbuilt.encode_eq, List.nil_append] at hframe
    obtain ⟨_, hbytes, hwrite⟩ | ⟨_, _, herror, -⟩ := hframe
    case inr => cases herror
    cases hbytes
    rw [hwrite]
    refine ⟨pending ++ [withChecksum crc frame], ?_⟩
    exact
      { built := fun f hf => h.built f (by rw [hqueue]; exact List.mem_cons_of_mem _ hf)
        stopped := fun hstop => by cases hwriting.symm.trans hstop
        drained := by
          obtain ⟨n, hn⟩ := h.drained
          have hframe : (frameDecoder crc).drain .header (bytes (withChecksum crc frame)) =
              ⟨[withChecksum crc frame], (bytes (withChecksum crc frame)).length,
                .waiting .header []⟩ := by
            rw [← List.flatMap_singleton bytes]
            exact drain_bytes (List.forall_mem_singleton.mpr (hbuilt.wellFormed crc))
          refine ⟨n + (bytes (withChecksum crc frame)).length, ?_⟩
          rw [← List.append_assoc, Decoder.drain_append, hn, Decoder.feed]
          simp [hframe]
        flow := by
          rw [h.flow, hqueue]
          simp [withConnection]
        ended := fun hend => by cases hwriting.symm.trans (h.ended hend).1 }

/-- Bytes that arrive stay on the lane. -/
theorem arrive (h : Lane crc passed pending src dst wire) (count : Nat) :
    Lane crc passed pending src { dst with buffer := dst.buffer ++ wire.take count }
      (wire.drop count) where
  built := h.built
  stopped := h.stopped
  drained := by
    simpa only [List.append_assoc, List.take_append_drop] using h.drained
  flow := h.flow
  ended := h.ended

/-- The reader task takes the pending frames one by one. -/
theorem next (h : Lane crc passed pending src dst wire) :
    ∃ pending', Lane crc passed pending' src (dst.next crc) wire := by
  obtain ⟨n, hn⟩ := h.drained
  have hcall := decode_call crc ⟨dst.codec, dst.buffer⟩
  unfold Endpoint.next
  split
  case isFalse => exact ⟨pending, h⟩
  case isTrue hreading =>
    generalize hdecode : decode crc ⟨dst.codec, dst.buffer⟩ = result at hcall
    have hanswer : (frameDecoder crc).decode dst.codec dst.buffer = answer result :=
      congrArg answer hdecode
    cases hcall with
    | waits state =>
      refine ⟨pending, ?_⟩
      exact
        { built := h.built
          stopped := h.stopped
          drained := ⟨n, by rw [← hn, Decoder.drain_append_of_more hanswer]⟩
          flow := h.flow
          ended := h.ended }
    | fails e state =>
      have herror := Decoder.drain_of_error ((frameDecoder crc).error_append hanswer wire)
      rw [herror] at hn
      cases hn
    | @takes frame k hpos hle =>
      obtain ⟨pending', n', rfl, hrest⟩ := Decoder.drain_append_of_item hanswer hn
      obtain ⟨⟨hcodec, hbuffer, hreading', -⟩, -⟩ :=
        handleFrame_cases (e := { dst with codec := .header, buffer := dst.buffer.drop k }) frame
      refine ⟨pending', ?_⟩
      exact
        { built := h.built
          stopped := h.stopped
          drained := ⟨n', by rw [hcodec, hbuffer]; exact hrest⟩
          flow := by
            rw [h.flow, received_handleFrame, List.cons_append, ← List.singleton_append,
              List.filter_append, List.append_assoc]
            rfl
          ended := fun hend => by cases hreading.symm.trans (hreading'.symm.trans hend) }

/-- The reader task stops at the end of a stream only when it has read everything. -/
theorem eof (h : Lane crc passed pending src dst []) (hsrc : src.writing = false) :
    Lane crc passed pending src (dst.eof crc) [] where
  built := h.built
  stopped := h.stopped
  drained := by
    rw [codec_eof.1, codec_eof.2]
    exact h.drained
  flow := by
    rw [received_eof]
    exact h.flow
  ended := by
    intro hend
    refine ⟨hsrc, ?_⟩
    unfold Endpoint.eof at hend
    split at hend
    case isFalse => exact (h.ended hend).2
    case isTrue hreading =>
      split at hend
      case h_1 d hdecode =>
        obtain ⟨n, hn⟩ := h.drained
        have hmore : (frameDecoder crc).decode dst.codec dst.buffer = .more d.state :=
          congrArg answer hdecode
        rw [List.append_nil, Decoder.drain_of_more hmore] at hn
        exact (Progress.mk.inj hn).1.symm
      case h_2 => cases hreading.symm.trans hend

end Lane

namespace SocketPair

variable {crc : Crc32c} {l : SocketPair}

/-- A step at the sending end of a direction. -/
theorem lane_setEnd {side : Side} {passed pending : List Frame} {e : Endpoint}
    (h : Lane crc passed pending e (l.ends side.other) (l.wire side)) :
    Lane crc passed pending ((l.setEnd side e).ends side) ((l.setEnd side e).ends side.other)
      ((l.setEnd side e).wire side) := by
  simpa [setEnd, side.other_ne] using h

/-- A step at the receiving end of a direction. -/
theorem lane_setEnd_other {side : Side} {passed pending : List Frame} {e : Endpoint}
    (h : Lane crc passed pending (l.ends side) e (l.wire side)) :
    Lane crc passed pending ((l.setEnd side.other e).ends side)
      ((l.setEnd side.other e).ends side.other) ((l.setEnd side.other e).wire side) := by
  simpa [setEnd, side.other_ne.symm] using h

/-- Every step keeps a direction in order if it passes only frames that can be encoded. -/
theorem lane_step {side : Side} {passed pending : List Frame}
    (h : Lane crc passed pending (l.ends side) (l.ends side.other) (l.wire side)) (s : Step)
    (hframes : ∀ frame ∈ l.accepted side s, Built frame) :
    ∃ pending', Lane crc (passed ++ l.accepted side s) pending' ((l.step crc s).ends side)
      ((l.step crc s).ends side.other) ((l.step crc s).wire side) := by
  cases s with
  | sendTo t frame =>
    rcases side.eq_or_eq_other t with rfl | rfl
    · rcases sendTo_cases (e := l.ends t) frame with ⟨error, herror⟩ | ⟨hwriting, hok⟩
      · have haccepted : l.accepted t (.sendTo t frame) = [] := by simp [accepted, herror]
        rw [haccepted, List.append_nil]
        refine ⟨pending, lane_setEnd ?_⟩
        rw [herror]
        exact h
      · have haccepted : l.accepted t (.sendTo t frame) = [frame] := by simp [accepted, hok]
        rw [haccepted] at hframes ⊢
        refine ⟨pending, lane_setEnd ?_⟩
        rw [hok]
        exact h.enqueue (hframes frame (List.mem_singleton_self frame)) rfl hwriting rfl rfl
    · have haccepted : l.accepted side (.sendTo side.other frame) = [] :=
        if_neg side.other_ne
      rw [haccepted, List.append_nil]
      exact ⟨pending, lane_setEnd_other (h.congr_dst (sameReader_sendTo frame))⟩
  | disconnect t =>
    simp only [accepted, List.append_nil]
    rcases side.eq_or_eq_other t with rfl | rfl
    · exact ⟨pending, lane_setEnd (h.congr_src rfl rfl)⟩
    · exact ⟨pending, lane_setEnd_other (h.congr_dst sameReader_disconnect)⟩
  | write t =>
    simp only [accepted, List.append_nil]
    rcases side.eq_or_eq_other t with rfl | rfl
    · obtain ⟨pending', h'⟩ := h.write
      exact ⟨pending', by simpa [step, setEnd, t.other_ne] using h'⟩
    · have h' : Lane crc passed pending (l.ends side) ((l.ends side.other).write crc).1
          (l.wire side) := h.congr_dst sameReader_write
      exact ⟨pending, by simpa [step, setEnd, side.other_ne.symm] using h'⟩
  | arrive t count =>
    simp only [accepted, List.append_nil]
    refine ⟨pending, ?_⟩
    by_cases hreading : (l.ends t).reading = true
    case neg => simpa [step, hreading] using h
    rcases side.eq_or_eq_other t with rfl | rfl
    · have h' : Lane crc passed pending
          { l.ends t with buffer := (l.ends t).buffer ++ (l.wire t.other).take count }
          (l.ends t.other) (l.wire t) := h.congr_src rfl rfl
      simpa [step, setEnd, hreading, t.other_ne, t.other_ne.symm] using h'
    · simpa [step, setEnd, hreading, side.other_ne.symm] using h.arrive count
  | next t =>
    simp only [accepted, List.append_nil]
    rcases side.eq_or_eq_other t with rfl | rfl
    · obtain ⟨hwriting, hqueue | ⟨hrunning, id, hqueue⟩⟩ := queue_next (e := l.ends t)
      · exact ⟨pending, lane_setEnd (h.congr_src hqueue hwriting)⟩
      · exact ⟨pending, lane_setEnd (h.pong hrunning hqueue hwriting)⟩
    · obtain ⟨pending', h'⟩ := h.next
      exact ⟨pending', lane_setEnd_other h'⟩
  | eof t =>
    simp only [accepted, List.append_nil]
    by_cases hclosed : l.Closed t.other ∧ l.wire t.other = []
    case neg => exact ⟨pending, by simpa [step, hclosed] using h⟩
    simp only [step, hclosed, and_self, ↓reduceIte]
    rcases side.eq_or_eq_other t with rfl | rfl
    · exact ⟨pending, lane_setEnd (h.congr_src queue_eof.2 queue_eof.1)⟩
    · refine ⟨pending, lane_setEnd_other ?_⟩
      rw [Side.other_other] at hclosed
      rw [hclosed.2] at h ⊢
      exact h.eof hclosed.1.2

/-- What passes a lane in a run is added to it. -/
theorem lane_run {side : Side} {before pending : List Frame} (steps : List Step)
    (h : Lane crc before pending (l.ends side) (l.ends side.other) (l.wire side))
    (hframes : ∀ frame ∈ l.passed crc side steps, Built frame) :
    ∃ pending', Lane crc (before ++ l.passed crc side steps) pending' ((l.run crc steps).ends side)
      ((l.run crc steps).ends side.other) ((l.run crc steps).wire side) := by
  induction steps generalizing l before pending with
  | nil => exact ⟨pending, by simpa [passed, run] using h⟩
  | cons s steps ih =>
    rw [passed] at hframes ⊢
    obtain ⟨pending', h'⟩ := lane_step h s fun f hf => hframes f (List.mem_append_left _ hf)
    rw [← List.append_assoc]
    exact ih h' fun f hf => hframes f (List.mem_append_right _ hf)

/-- Nothing has been passed yet. -/
theorem lane_fresh (peerAddr : Side → SocketAddr) (side : Side) :
    Lane crc [] [] ((fresh peerAddr).ends side) ((fresh peerAddr).ends side.other)
      ((fresh peerAddr).wire side) where
  built := nofun
  stopped := fun _ => rfl
  drained := ⟨0, Decoder.drain_of_more (frameDecoder crc).init_more⟩
  flow := rfl
  ended := nofun

/-- In a settled direction everything but pings and pongs has been received. -/
theorem Settled.received_eq {side : Side} (hsettled : l.Settled crc side)
    {passed pending : List Frame}
    (h : Lane crc passed pending (l.ends side) (l.ends side.other) (l.wire side)) :
    (l.ends side.other).received = (passed.filter (Forwarded ·)).map (withChecksum crc) := by
  have hqueue : (l.ends side).queue = [] := by
    cases hwriting : (l.ends side).writing with
    | true => exact hsettled.1 hwriting
    | false => exact h.stopped hwriting
  have hpending : pending = [] := by
    cases hreading : (l.ends side.other).reading with
    | true =>
      obtain ⟨hwire, d, hdecode⟩ := hsettled.2 hreading
      obtain ⟨n, hn⟩ := h.drained
      have hmore : (frameDecoder crc).decode (l.ends side.other).codec
          (l.ends side.other).buffer = .more d.state := congrArg answer hdecode
      rw [hwire, List.append_nil, Decoder.drain_of_more hmore] at hn
      exact (Progress.mk.inj hn).1.symm
    | false => exact (h.ended hreading).2
  rw [h.flow, hqueue, hpending]
  simp

/-! ## What can be received at all -/

/-- Replacing an end by a sound one. -/
theorem sound_setEnd (h : ∀ side, (l.ends side).Sound) {e : Endpoint} (he : e.Sound)
    (t side : Side) : ((l.setEnd t e).ends side).Sound := by
  by_cases heq : side = t
  · simpa [setEnd, heq] using he
  · simpa [setEnd, heq] using h side

/-- Every step keeps both ends sound. -/
theorem sound_step (h : ∀ side, (l.ends side).Sound) (s : Step) (side : Side) :
    ((l.step crc s).ends side).Sound := by
  cases s with
  | sendTo t frame => exact sound_setEnd h ((h t).congr (sameReader_sendTo frame)) t side
  | disconnect t => exact sound_setEnd h ((h t).congr sameReader_disconnect) t side
  | write t => exact sound_setEnd h ((h t).congr sameReader_write) t side
  | arrive t count =>
    rw [step]
    split
    · have ht : { l.ends t with
          buffer := (l.ends t).buffer ++ (l.wire t.other).take count : Endpoint }.Sound :=
        ⟨(h t).codec_valid, (h t).received_fits⟩
      exact sound_setEnd h ht t side
    · exact h side
  | next t => exact sound_setEnd h (h t).next t side
  | eof t =>
    rw [step]
    split
    · exact sound_setEnd h (h t).eof t side
    · exact h side

/-- Every run keeps both ends sound. -/
theorem sound_run (h : ∀ side, (l.ends side).Sound) (steps : List Step) (side : Side) :
    ((l.run crc steps).ends side).Sound := by
  induction steps generalizing l with
  | nil => exact h side
  | cons s steps ih => exact ih (sound_step h s)

/-- In every run over a new connection, once nothing is on its way any more, the other node
has got one event for each frame that a node passed to `send_to`, in order, exactly if
no frame is a ping or a pong and the codec can carry all of them. -/
theorem received_eq_passed_iff (crc : Crc32c) (peerAddr : Side → SocketAddr) (steps : List Step)
    (side : Side)
    (hnew : ∀ frame ∈ (fresh peerAddr).passed crc side steps, ∃ msgType flags requestId payload,
      frame = .new msgType flags requestId payload)
    (hsettled : ((fresh peerAddr).run crc steps).Settled crc side) :
    (((fresh peerAddr).run crc steps).ends side.other).received =
        ((fresh peerAddr).passed crc side steps).map (withChecksum crc) ↔
      ∀ frame ∈ (fresh peerAddr).passed crc side steps, frame.header.msgType ≠ .ping ∧
        frame.header.msgType ≠ .pong ∧ frame.payload.length ≤ maxPayloadSize.toNat := by
  constructor
  · intro heq frame hframe
    have hsound : (((fresh peerAddr).run crc steps).ends side.other).Sound :=
      sound_run (fun side => sound_spawnConnectionTasks (peerAddr side)) steps side.other
    obtain ⟨⟨hping, hpong⟩, hlength⟩ := hsound.received_fits (withChecksum crc frame)
      (by rw [heq]; exact List.mem_map_of_mem hframe)
    exact ⟨hping, hpong, hlength⟩
  · intro hcarried
    have hbuilt : ∀ frame ∈ (fresh peerAddr).passed crc side steps, Built frame := by
      intro frame hframe
      obtain ⟨msgType, flags, requestId, payload, rfl⟩ := hnew frame hframe
      exact ⟨msgType, flags, requestId, payload, (hcarried _ hframe).2.2, rfl⟩
    have hall : ((fresh peerAddr).passed crc side steps).filter (Forwarded ·) =
        (fresh peerAddr).passed crc side steps := by
      apply List.filter_eq_self.mpr
      intro frame hframe
      obtain ⟨hping, hpong, -⟩ := hcarried frame hframe
      exact decide_eq_true ⟨hping, hpong⟩
    obtain ⟨pending, hlane⟩ := lane_run steps (lane_fresh peerAddr side) hbuilt
    rw [hsettled.received_eq hlane, List.nil_append, hall]

/-- The addresses of the two sides on one host. -/
def localAddrs (side : Side) : SocketAddr :=
  ⟨.v4 (Ipv4Addr.new 127 0 0 1), match side with
    | .dialer => 9000
    | .listener => 40000⟩

/-- The dialer passes a frame; it is written, arrives and is read. -/
def singleRun (frame : Frame) : List Step :=
  [.sendTo .dialer frame, .write .dialer, .arrive .listener frame.wireSize, .next .listener]

/-- One frame that the codec can carry, over a new connection. -/
theorem run_singleRun (crc : Crc32c) (peerAddr : Side → SocketAddr) {frame : Frame}
    (h : Built frame) :
    ((fresh peerAddr).run crc (singleRun frame)).wire .dialer = [] ∧
    (((fresh peerAddr).run crc (singleRun frame)).ends .dialer).queue = [] ∧
    ((fresh peerAddr).run crc (singleRun frame)).ends .listener =
      (spawnConnectionTasks (peerAddr .listener)).handleFrame (withChecksum crc frame) := by
  have hsize : (bytes (withChecksum crc frame)).length = frame.wireSize := by
    rw [bytes, List.length_append, FrameHeader.length_bytes]
    rfl
  have hdecode : decode crc ⟨.header, bytes (withChecksum crc frame)⟩ =
      .ok (some (withChecksum crc frame)) ⟨.header, []⟩ := by
    rw [decode_header_eq_some, List.append_nil]
    exact ⟨h.wellFormed crc, rfl, rfl⟩
  have hencode : encode crc frame [] = .ok () (bytes (withChecksum crc frame)) := h.encode_eq []
  have hwrite : (Exec.stateAfter (sendTo frame (spawnConnectionTasks (peerAddr .dialer)))).write
      crc = _ := write_of_encode rfl rfl hencode
  have hnext : { spawnConnectionTasks (peerAddr .listener) with
      buffer := bytes (withChecksum crc frame) }.next crc = _ := next_of_decode rfl hdecode
  have hreading : (spawnConnectionTasks (peerAddr .listener)).reading = true := rfl
  have hbuffer : (spawnConnectionTasks (peerAddr .listener)).buffer = [] := rfl
  simp only [run, fresh, singleRun, ← hsize, List.foldl_cons, step, setEnd, Function.update_self,
    hwrite, Function.update_idem, List.nil_append, ne_eq, reduceCtorEq, not_false_eq_true,
    Function.update_of_ne, hreading, ↓reduceIte, hbuffer, Side.other, List.take_length,
    List.drop_length, Function.update_eq_self, List.foldl_nil, true_and]
  exact ⟨rfl, hnext⟩

/-- A run that sends one frame has settled. -/
theorem settled_singleRun (peerAddr : Side → SocketAddr) {frame : Frame} (h : Built frame) :
    ((fresh peerAddr).run crc (singleRun frame)).Settled crc .dialer := by
  obtain ⟨hwire, hqueue, hlistener⟩ := run_singleRun crc peerAddr h
  refine ⟨fun _ => hqueue, fun _ => ⟨hwire, ⟨.header, []⟩, ?_⟩⟩
  obtain ⟨⟨hcodec, hbuffer, -⟩, -⟩ :=
    handleFrame_cases (e := spawnConnectionTasks (peerAddr .listener)) (withChecksum crc frame)
  change decode crc ⟨(SocketPair.ends _ .listener).codec, (SocketPair.ends _ .listener).buffer⟩ = _
  rw [hlistener, hcodec, hbuffer]
  exact decode_header_of_short crc (Nat.zero_lt_succ 20)

/-- The ping that the node sends after the handshake; its payload is an encrypted peer id. -/
def encryptedPing : Frame := .new .ping Flags.empty.withEncrypted 0 (List.replicate 48 7)

/-- A ping as `Frame::new` makes it. -/
theorem built_encryptedPing : Built encryptedPing := ⟨_, _, _, _, by decide, rfl⟩

/-- The ping makes no event; the transport answers it with a pong of its own. -/
theorem encryptedPing_lost :
    ((fresh localAddrs).run .castagnoli (singleRun encryptedPing)).Settled .castagnoli .dialer ∧
    (fresh localAddrs).passed .castagnoli .dialer (singleRun encryptedPing) = [encryptedPing] ∧
    (((fresh localAddrs).run .castagnoli (singleRun encryptedPing)).ends .listener).received = [] ∧
    (((fresh localAddrs).run .castagnoli (singleRun encryptedPing)).ends .listener).queue =
      [.simple .pong 0] := by
  obtain ⟨-, -, hlistener⟩ := run_singleRun .castagnoli localAddrs built_encryptedPing
  refine ⟨settled_singleRun localAddrs built_encryptedPing, rfl, ?_, ?_⟩
  · rw [hlistener, received_handleFrame]
    rfl
  · rw [hlistener]
    rfl

/-- A message of two bytes with its tag. -/
def encryptedData : Frame := .new .data Flags.empty.withEncrypted 0 (List.replicate 18 7)

/-- A data frame is received. -/
theorem encryptedData_received :
    (((fresh localAddrs).run .castagnoli (singleRun encryptedData)).ends .listener).received =
      [withChecksum .castagnoli encryptedData] :=
  (received_eq_passed_iff .castagnoli localAddrs (singleRun encryptedData) .dialer
    (fun frame hframe => ⟨_, _, _, _, List.mem_singleton.mp hframe⟩)
    (settled_singleRun localAddrs ⟨_, _, _, _, by decide, rfl⟩)).mpr
      fun frame hframe => by
        obtain rfl := List.mem_singleton.mp hframe
        decide

end SocketPair

end CekyP2P.Transport
