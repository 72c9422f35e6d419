import CekyP2P.Transport.Tcp

/-!
# A connection that is alone

`Endpoint` is the transport as one connection sees it, with each call of a task taken as a
whole. Whatever it does, the transport does too when its steps are not interrupted: every call
of an endpoint is a list of steps after which the transport shows the endpoint again.
-/

namespace CekyP2P.Transport

open Protocol FrameCodec Transfer

namespace Endpoint

/-- What a caller or a task can do at one end of a connection. -/
inductive Call
  | sendTo (frame : Frame)
  | disconnect
  | write
  /-- The reader gets bytes from the socket. -/
  | arrive (bytes : List UInt8)
  | next
  | eof

/-- An end after a call. -/
def perform (crc : Crc32c) (e : Endpoint) : Call → Endpoint
  | .sendTo frame => Exec.stateAfter (sendTo frame e)
  | .disconnect => e.disconnect
  | .write => (e.write crc).1
  | .arrive bytes => { e with buffer := e.buffer ++ bytes }
  | .next => e.next crc
  | .eof => e.eof crc

/-- A connection that has been inserted into the pool and has no tasks. -/
def inserted (peerAddr : SocketAddr) : Endpoint where
  peerAddr := peerAddr
  info := some ConnectionInfo.new
  registered := false
  queue := []
  writing := false
  reading := false
  codec := .header
  buffer := []
  events := []

end Endpoint

namespace TcpTransport

/-- The endpoint has what the transport has for the connection and its address. -/
structure Shows (t : TcpTransport) (i : Nat) (c : Connection) (e : Endpoint) : Prop where
  connection : t.connections[i]? = some c
  peerAddr_eq : e.peerAddr = c.peerAddr
  info_eq : e.info = t.pool.entry c.peerAddr
  sender_eq : t.sender c.peerAddr = if e.registered then some i else none
  queue_eq : e.queue = c.queue.map Prod.snd
  writing_iff : e.writing = true ↔ c.writer = .running
  reading_iff : e.reading = true ↔ c.phase = .reading
  events_eq : e.events = t.events

/-- No task or caller has half of an operation left. -/
structure Resting (t : TcpTransport) (c : Connection) : Prop where
  handling : c.handling = none
  recording : c.recording = none
  sending : c.peerAddr ∉ t.sending

variable {crc : Crc32c} {t : TcpTransport} {i : Nat} {c : Connection} {e : Endpoint}

namespace Shows

/-- A change of the entry. -/
theorem withConnection (h : t.Shows i c e) (f : ConnectionInfo → ConnectionInfo) :
    (t.withConnection c.peerAddr f).Shows i c (e.withConnection f) where
  connection := h.connection
  peerAddr_eq := h.peerAddr_eq
  info_eq := by
    refine Eq.trans ?_ (ConnectionPool.entry_withConnection f t.pool c.peerAddr c.peerAddr).symm
    rw [if_pos rfl, ← h.info_eq]
    rfl
  sender_eq := h.sender_eq
  queue_eq := h.queue_eq
  writing_iff := h.writing_iff
  reading_iff := h.reading_iff
  events_eq := h.events_eq

/-- An event. -/
theorem emit (h : t.Shows i c e) (event : TransportEvent) :
    (t.emit event).Shows i c (e.emit event) where
  connection := h.connection
  peerAddr_eq := h.peerAddr_eq
  info_eq := h.info_eq
  sender_eq := h.sender_eq
  queue_eq := h.queue_eq
  writing_iff := h.writing_iff
  reading_iff := h.reading_iff
  events_eq := congrArg (· ++ [event]) h.events_eq

/-- The sender is registered. -/
theorem register (h : t.Shows i c e) :
    (t.register c.peerAddr i).Shows i c { e with registered := true } where
  connection := h.connection
  peerAddr_eq := h.peerAddr_eq
  info_eq := h.info_eq
  sender_eq := (sender_register t c.peerAddr c.peerAddr i).trans (if_pos rfl)
  queue_eq := h.queue_eq
  writing_iff := h.writing_iff
  reading_iff := h.reading_iff
  events_eq := h.events_eq

/-- The sender is unregistered. -/
theorem unregister (h : t.Shows i c e) :
    (t.unregister c.peerAddr).Shows i c { e with registered := false } where
  connection := h.connection
  peerAddr_eq := h.peerAddr_eq
  info_eq := h.info_eq
  sender_eq := (sender_unregister t c.peerAddr c.peerAddr).trans (if_pos rfl)
  queue_eq := h.queue_eq
  writing_iff := h.writing_iff
  reading_iff := h.reading_iff
  events_eq := h.events_eq

/-- The entry leaves the pool. -/
theorem leavePool (h : t.Shows i c e) :
    (t.leavePool c.peerAddr).Shows i c { e with info := none } where
  connection := h.connection
  peerAddr_eq := h.peerAddr_eq
  info_eq :=
    ((ConnectionPool.entry_remove t.pool c.peerAddr c.peerAddr).trans (if_pos rfl)).symm
  sender_eq := h.sender_eq
  queue_eq := h.queue_eq
  writing_iff := h.writing_iff
  reading_iff := h.reading_iff
  events_eq := h.events_eq

/-- The connection changes, and the endpoint with it. -/
theorem update (h : t.Shows i c e) (f : Connection → Connection) {e' : Endpoint}
    (hpeer : (f c).peerAddr = c.peerAddr) (hpeer' : e'.peerAddr = e.peerAddr)
    (hinfo : e'.info = e.info) (hregistered : e'.registered = e.registered)
    (hqueue : e'.queue = (f c).queue.map Prod.snd)
    (hwriting : e'.writing = true ↔ (f c).writer = .running)
    (hreading : e'.reading = true ↔ (f c).phase = .reading) (hevents : e'.events = e.events) :
    (t.update i f).Shows i (f c) e' where
  connection := getElem?_update_self h.connection f
  peerAddr_eq := hpeer'.trans (h.peerAddr_eq.trans hpeer.symm)
  info_eq := by
    rw [hinfo, h.info_eq, hpeer]
    rfl
  sender_eq := by
    rw [hpeer, hregistered, ← h.sender_eq]
    rfl
  queue_eq := hqueue
  writing_iff := hwriting
  reading_iff := hreading
  events_eq := hevents.trans h.events_eq

/-- A frame is queued. -/
theorem push (h : t.Shows i c e) (via : Via) (frame : Frame) :
    (t.update i (.push via frame)).Shows i (c.push via frame)
      { e with queue := e.queue ++ [frame] } := by
  refine h.update (.push via frame) rfl rfl rfl rfl ?_ h.writing_iff h.reading_iff rfl
  rw [Connection.push, List.map_append, ← h.queue_eq]
  rfl

/-- A frame that is being handled is not seen at the end. -/
theorem setHandling (h : t.Shows i c e) (handling : Option Frame) :
    (t.update i (.setHandling handling)).Shows i (c.setHandling handling) e :=
  h.update _ rfl rfl rfl rfl h.queue_eq h.writing_iff h.reading_iff rfl

/-- The reader has left its loop. -/
theorem setPhase (h : t.Shows i c e) (phase : Phase) (hphase : phase ≠ .reading) :
    (t.update i (.setPhase phase)).Shows i (c.setPhase phase) { e with reading := false } :=
  h.update _ rfl rfl rfl rfl h.queue_eq h.writing_iff
    ⟨fun hfalse => (Bool.false_ne_true hfalse).elim, fun hreading => absurd hreading hphase⟩ rfl

/-- The answer to a ping goes the same way. -/
theorem autoPong (h : t.Shows i c e) (requestId : UInt64) :
    ∃ c', (t.offer c.peerAddr .autoPong (.simple .pong requestId)).Shows i c'
      (e.autoPong requestId) ∧ c'.peerAddr = c.peerAddr ∧ c'.recording = c.recording := by
  unfold TcpTransport.offer TcpTransport.send Endpoint.autoPong Endpoint.send
  rw [h.sender_eq]
  by_cases hregistered : e.registered = true
  · by_cases hrunning : c.writer = .running
    · have hwriting := h.writing_iff.mpr hrunning
      refine ⟨c.push .autoPong (.simple .pong requestId), ?_, rfl, rfl⟩
      simpa [hregistered, hrunning, hwriting, h.connection] using
        h.push .autoPong (.simple .pong requestId)
    · have hwriting : e.writing ≠ true := fun hwriting => hrunning (h.writing_iff.mp hwriting)
      refine ⟨c, ?_, rfl, rfl⟩
      simpa [hregistered, hrunning, hwriting, h.connection] using h
  · refine ⟨c, ?_, rfl, rfl⟩
    simpa [hregistered] using h

/-- The reader treats a frame that it has counted. -/
theorem handleFrame {frame : Frame}
    (h : t.Shows i c (e.withConnection (.recordRecv (.ofNat frame.wireSize)))) :
    ∃ c', (t.handleFrame c.peerAddr frame).Shows i c' (e.handleFrame frame) ∧
      c'.peerAddr = c.peerAddr ∧ c'.recording = c.recording := by
  by_cases hping : frame.header.msgType = .ping
  · simp only [TcpTransport.handleFrame, Endpoint.handleFrame, hping]
    exact h.autoPong frame.header.requestId
  · by_cases hpong : frame.header.msgType = .pong
    · simp only [TcpTransport.handleFrame, Endpoint.handleFrame, hpong]
      exact ⟨c, h.withConnection .recordPongReceived, rfl, rfl⟩
    · have ht : t.handleFrame c.peerAddr frame = t.emit (.frameReceived c.peerAddr frame) := by
        unfold TcpTransport.handleFrame
        split
        case h_1 heq => exact absurd heq hping
        case h_2 heq => exact absurd heq hpong
        case h_3 => rfl
      have he : e.handleFrame frame = (e.withConnection (.recordRecv (.ofNat frame.wireSize))).emit
          (.frameReceived e.peerAddr frame) := by
        unfold Endpoint.handleFrame
        split
        case h_1 heq => exact absurd heq hping
        case h_2 heq => exact absurd heq hpong
        case h_3 => rfl
      have hpeer : e.peerAddr = c.peerAddr := h.peerAddr_eq
      rw [ht, he, hpeer]
      exact ⟨c, h.emit (.frameReceived c.peerAddr frame), rfl, rfl⟩

end Shows

/-! ## Calls that are not interrupted -/

/-- Some steps lead the transport to an endpoint. -/
def LeadsTo (crc : Crc32c) (t : TcpTransport) (i : Nat) (e : Endpoint) : Prop :=
  ∃ (steps : List TransportStep) (c : Connection),
    (steps.foldl (step crc) t).Shows i c e ∧ (steps.foldl (step crc) t).Resting c

/-- No step is needed. -/
theorem leadsTo_self (h : t.Shows i c e) (hrest : t.Resting c) : t.LeadsTo crc i e :=
  ⟨[], c, h, hrest⟩

/-- One step more. -/
theorem LeadsTo.of_step (st : TransportStep) {t' : TcpTransport} (hstep : t.step crc st = t')
    (h : t'.LeadsTo crc i e) : t.LeadsTo crc i e := by
  subst hstep
  obtain ⟨steps, c, h⟩ := h
  exact ⟨st :: steps, c, h⟩

/-- A step of the tasks of a connection that is shown. -/
theorem LeadsTo.of_task {e' : Endpoint} (h : t.Shows i c e) (task : TaskStep) {t' : TcpTransport}
    (hstep : t.taskStep crc i c task = t') (h' : t'.LeadsTo crc i e') : t.LeadsTo crc i e' := by
  refine .of_step (.task i task) ?_ h'
  rw [step, h.connection]
  exact hstep

/-- Sending takes steps of the transport. -/
theorem leadsTo_sendTo (h : t.Shows i c e) (hrest : t.Resting c) (frame : Frame) :
    t.LeadsTo crc i (Exec.stateAfter (e.sendTo frame)) := by
  by_cases hregistered : e.registered = true
  · by_cases hrunning : c.writer = .running
    · have hsender : t.sender c.peerAddr = some i := h.sender_eq.trans (if_pos hregistered)
      have hwriting := h.writing_iff.mpr hrunning
      have hsteps : (t.step crc (.sendTo c.peerAddr frame)).step crc (.recordSendTo c.peerAddr) =
          (t.update i (.push .sendTo frame)).withConnection c.peerAddr (.recordSend 0) := by
        rcases sendTo_eq c.peerAddr frame t with ⟨error, heq⟩ | ⟨j, d, hsender', -, -, heq⟩
        · simp [sendTo, hsender, send, h.connection, hrunning] at heq
          cases heq
        · obtain rfl := Option.some.inj (hsender.symm.trans hsender')
          simp [step, heq, Exec.stateAfter, withConnection, update]
      have hcall : Exec.stateAfter (e.sendTo frame) =
          { e with queue := e.queue ++ [frame] }.withConnection (.recordSend 0) := by
        simp [Endpoint.sendTo, Endpoint.send, hregistered, hwriting]
        rfl
      rw [hcall]
      refine .of_step (.sendTo c.peerAddr frame) rfl
        (.of_step (.recordSendTo c.peerAddr) hsteps ?_)
      exact leadsTo_self ((h.push .sendTo frame).withConnection (.recordSend 0))
        ⟨hrest.handling, hrest.recording, hrest.sending⟩
    · have hwriting : e.writing ≠ true := fun hwriting => hrunning (h.writing_iff.mp hwriting)
      have hcall : Exec.stateAfter (e.sendTo frame) = e := by
        simp [Endpoint.sendTo, Endpoint.send, hregistered, hwriting]
        rfl
      rw [hcall]
      exact leadsTo_self h hrest
  · have hcall : Exec.stateAfter (e.sendTo frame) = e := by
      simp [Endpoint.sendTo, hregistered]
      rfl
    rw [hcall]
    exact leadsTo_self h hrest

/-- Disconnecting takes steps of the transport. -/
theorem leadsTo_disconnect (h : t.Shows i c e) (hrest : t.Resting c) :
    t.LeadsTo crc i e.disconnect := by
  have hsteps : (t.step crc (.disconnect c.peerAddr)).step crc (.setClosing c.peerAddr) =
      (t.unregister c.peerAddr).withConnection c.peerAddr .setClosing := by
    simp [step, hrest.sending, unregister, withConnection]
  refine .of_step (.disconnect c.peerAddr) rfl (.of_step (.setClosing c.peerAddr) hsteps ?_)
  exact leadsTo_self (h.unregister.withConnection .setClosing)
    ⟨hrest.handling, hrest.recording, hrest.sending⟩

/-- The writer task. -/
theorem leadsTo_write (h : t.Shows i c e) (hrest : t.Resting c) :
    t.LeadsTo crc i (e.write crc).1 := by
  unfold Endpoint.write
  split
  case isFalse => exact leadsTo_self h hrest
  case isTrue hwriting =>
    have hrunning := h.writing_iff.mp hwriting
    split
    case h_1 hempty =>
      have hqueue : c.queue = [] := List.map_eq_nil_iff.mp (h.queue_eq.symm.trans hempty)
      split
      case isTrue => exact leadsTo_self h hrest
      case isFalse hregistered =>
        have hsender : t.sender c.peerAddr ≠ some i := by
          rw [h.sender_eq, if_neg hregistered]
          rintro ⟨⟩
        refine .of_task h .endWriting (if_pos ⟨hrunning, hrest.recording, hqueue, hsender⟩) ?_
        refine leadsTo_self (h.update .endWriter rfl rfl rfl rfl h.queue_eq ?_ h.reading_iff rfl)
          ⟨hrest.handling, hrest.recording, hrest.sending⟩
        refine iff_of_false Bool.false_ne_true ?_
        rintro ⟨⟩
    case h_2 frame frames hframes =>
      obtain ⟨⟨via, frame'⟩, queue, hqueue, rfl, rfl⟩ :=
        List.map_eq_cons_iff.mp (h.queue_eq.symm.trans hframes)
      cases hencode : encode crc frame' [] with
      | ok _ bytes =>
        have hstep : t.taskStep crc i c .write = t.update i (.wrote via frame') := by
          simp only [taskStep, hqueue, hrunning, hrest.recording, hencode, and_self, if_true]
        have hwrote : (t.update i (.wrote via frame')).Shows i (c.wrote via frame')
            { e with queue := queue.map Prod.snd } := by
          refine h.update _ rfl rfl rfl rfl ?_ h.writing_iff h.reading_iff rfl
          rw [Connection.wrote, hqueue, List.tail_cons]
        refine .of_task h .write hstep (.of_task hwrote .recordWritten rfl ?_)
        have hcounted := hwrote.withConnection (.recordSend (.ofNat frame'.wireSize))
        exact leadsTo_self (hcounted.update .recorded rfl rfl rfl rfl hcounted.queue_eq
          hcounted.writing_iff hcounted.reading_iff rfl) ⟨hrest.handling, rfl, hrest.sending⟩
      | error error dst =>
        have hstep : t.taskStep crc i c .write = t.update i .failWriter := by
          simp only [taskStep, hqueue, hrunning, hrest.recording, hencode, and_self, if_true]
        refine .of_task h .write hstep ?_
        refine leadsTo_self (h.update .failWriter rfl rfl rfl rfl rfl ?_ h.reading_iff rfl)
          ⟨hrest.handling, hrest.recording, hrest.sending⟩
        refine iff_of_false Bool.false_ne_true ?_
        rintro ⟨⟩

/-- Handling a frame leaves what is being sent. -/
theorem sending_handleFrame (t : TcpTransport) (peerAddr : SocketAddr) (frame : Frame) :
    (t.handleFrame peerAddr frame).sending = t.sending := by
  unfold handleFrame
  split
  case h_1 =>
    obtain ⟨connections, heq⟩ :=
      offer_eq_with peerAddr .autoPong (.simple .pong frame.header.requestId) t
    rw [heq]
  case h_2 => rfl
  case h_3 => rfl

/-- The reader's treatment of a frame. -/
theorem leadsTo_handleFrame (h : t.Shows i c e) (hrest : t.Resting c) (hreading : e.reading = true)
    (frame : Frame) : t.LeadsTo crc i (e.handleFrame frame) := by
  have hphase := h.reading_iff.mp hreading
  have hreceived := (h.withConnection (.recordRecv (.ofNat frame.wireSize))).setHandling frame
  refine .of_task h (.receive frame) (if_pos ⟨hphase, hrest.handling⟩) ?_
  refine .of_task hreceived .handle rfl ?_
  obtain ⟨c', hshows, hpeer, hrecording⟩ := hreceived.handleFrame
  refine leadsTo_self (hshows.setHandling none) ⟨rfl, hrecording.trans hrest.recording, ?_⟩
  change c'.peerAddr ∉ (TcpTransport.handleFrame c.peerAddr frame _).sending
  rw [sending_handleFrame, hpeer]
  exact hrest.sending

/-- What the reader does after its loop. -/
theorem leadsTo_cleanup (h : t.Shows i c e) (hrest : t.Resting c) (hphase : c.phase = .exited) :
    t.LeadsTo crc i e.cleanup := by
  have hunregistered := h.unregister.setPhase .unregistered (by decide)
  have hclosed := (hunregistered.withConnection .setClosed).setPhase .closed (by decide)
  have hremoved := hclosed.leavePool.setPhase .removed (by decide)
  have hfinished := (hremoved.emit (.disconnected e.peerAddr "connection closed")).setPhase
    .finished (by decide)
  refine .of_task h .advance ?_ (.of_task hunregistered .advance rfl
    (.of_task hclosed .advance rfl (.of_task hremoved .advance ?_
      (leadsTo_self hfinished ⟨hrest.handling, hrest.recording, hrest.sending⟩))))
  · simp only [taskStep, advance, hphase]
    exact if_neg hrest.sending
  · rw [h.peerAddr_eq]
    rfl

/-- The reader leaves its loop, after an error or at the end of the stream. -/
theorem leadsTo_endReading (h : t.Shows i c e) (hrest : t.Resting c) (hreading : e.reading = true)
    (error : Option ProtocolError) {e' : Endpoint}
    (h' : (t.emitError c.peerAddr error).Shows i c e') : t.LeadsTo crc i e'.cleanup := by
  have hfree : c.peerAddr ∉ (t.emitError c.peerAddr error).sending := by
    cases error <;> exact hrest.sending
  refine .of_task h (.endReading error)
    (if_pos ⟨h.reading_iff.mp hreading, hrest.handling⟩) ?_
  have hexited := h'.setPhase .exited (by decide)
  have hcleanup : LeadsTo crc _ i { e' with reading := false }.cleanup :=
    leadsTo_cleanup hexited ⟨hrest.handling, hrest.recording, hfree⟩ rfl
  exact hcleanup

/-- An error of the reader takes steps of the transport. -/
theorem leadsTo_readError (h : t.Shows i c e) (hrest : t.Resting c) (hreading : e.reading = true)
    (error : ProtocolError) :
    t.LeadsTo crc i (e.emit (.error (some e.peerAddr) error)).cleanup := by
  have hemit : (t.emitError c.peerAddr (some error)).Shows i c
      (e.emit (.error (some e.peerAddr) error)) := by
    rw [h.peerAddr_eq]
    exact h.emit (.error (some c.peerAddr) error)
  exact leadsTo_endReading h hrest hreading (some error) hemit

/-- The codec of the reader is its own. -/
theorem Shows.decoding (h : t.Shows i c e) (codec : DecodeState) (buffer : List UInt8) :
    t.Shows i c { e with codec := codec, buffer := buffer } :=
  ⟨h.connection, h.peerAddr_eq, h.info_eq, h.sender_eq, h.queue_eq, h.writing_iff, h.reading_iff,
    h.events_eq⟩

/-- Reading takes steps of the transport. -/
theorem leadsTo_next (h : t.Shows i c e) (hrest : t.Resting c) :
    t.LeadsTo crc i (e.next crc) := by
  have hcall := decode_call crc ⟨e.codec, e.buffer⟩
  unfold Endpoint.next
  split
  case isFalse => exact leadsTo_self h hrest
  case isTrue hreading =>
    generalize decode crc ⟨e.codec, e.buffer⟩ = result at hcall
    cases hcall with
    | waits state => exact leadsTo_self (h.decoding state e.buffer) hrest
    | fails error state =>
      exact leadsTo_readError (h.decoding state e.buffer) hrest hreading error
    | @takes frame n =>
      exact leadsTo_handleFrame (h.decoding .header (e.buffer.drop n)) hrest hreading frame

/-- The end of the stream takes steps of the transport. -/
theorem leadsTo_eof (h : t.Shows i c e) (hrest : t.Resting c) : t.LeadsTo crc i (e.eof crc) := by
  unfold Endpoint.eof
  split
  case isFalse => exact leadsTo_self h hrest
  case isTrue hreading =>
    split
    case h_1 =>
      split
      case isTrue => exact leadsTo_endReading h hrest hreading none h
      case isFalse => exact leadsTo_readError h hrest hreading _
    case h_2 => exact leadsTo_self h hrest

/-- Every call takes steps of the transport. -/
theorem leadsTo_perform (h : t.Shows i c e) (hrest : t.Resting c) (call : Endpoint.Call) :
    t.LeadsTo crc i (e.perform crc call) := by
  cases call with
  | sendTo frame => exact leadsTo_sendTo h hrest frame
  | disconnect => exact leadsTo_disconnect h hrest
  | write => exact leadsTo_write h hrest
  | arrive bytes => exact leadsTo_self (h.decoding _ _) hrest
  | next => exact leadsTo_next h hrest
  | eof => exact leadsTo_eof h hrest

/-- A call after those before. -/
theorem LeadsTo.perform (h : t.LeadsTo crc i e) (call : Endpoint.Call) :
    t.LeadsTo crc i (e.perform crc call) := by
  obtain ⟨steps, c, hshows, hrest⟩ := h
  obtain ⟨more, c', h'⟩ : (steps.foldl (step crc) t).LeadsTo crc i (e.perform crc call) :=
    leadsTo_perform hshows hrest call
  refine ⟨steps ++ more, c', ?_⟩
  rw [List.foldl_append]
  exact h'

/-- A new connection is shown. -/
theorem shows_enterPool (maxConnections : UInt64) (peerAddr : SocketAddr) :
    ((new maxConnections).enterPool peerAddr).Shows 0 (.fresh peerAddr) (.inserted peerAddr) where
  connection := rfl
  peerAddr_eq := rfl
  info_eq := by
    have hentry := entry_enterPool (new maxConnections) peerAddr peerAddr
    rw [if_pos rfl] at hentry
    exact hentry.symm
  sender_eq := rfl
  queue_eq := rfl
  writing_iff := ⟨nofun, nofun⟩
  reading_iff := ⟨nofun, nofun⟩
  events_eq := rfl

/-- `connect` or `accept`, with nothing in the pool. -/
theorem leadsTo_spawnConnectionTasks {maxConnections : UInt64} (hmax : maxConnections ≠ 0)
    (peerAddr : SocketAddr) :
    (new maxConnections).LeadsTo crc 0 (Endpoint.spawnConnectionTasks peerAddr) := by
  have hroom : ¬ (new maxConnections).pool.isFull := by
    simp only [ConnectionPool.isFull, decide_eq_true_eq, not_le]
    exact Nat.pos_of_ne_zero fun hzero => hmax (UInt64.toNat_inj.mp hzero)
  have hsteps : ((new maxConnections).step crc (.connect peerAddr)).step crc (.insert peerAddr) =
      (new maxConnections).enterPool peerAddr := by
    simp [step, hroom]
  have hinserted := shows_enterPool maxConnections peerAddr
  have hannounced := (hinserted.emit (.connected peerAddr)).setPhase .announced (by decide)
  have hestablished := (hannounced.withConnection .setEstablished).setPhase .established
    (by decide)
  have hspawned : (TcpTransport.update 0 .spawn (TcpTransport.register peerAddr 0 _)).Shows 0 _
      (Endpoint.spawnConnectionTasks peerAddr) :=
    hestablished.register.update .spawn rfl rfl rfl rfl rfl (iff_of_true rfl rfl)
      (iff_of_true rfl rfl) rfl
  refine .of_step (.connect peerAddr) rfl (.of_step (.insert peerAddr) hsteps
    (.of_task hinserted .advance rfl (.of_task hannounced .advance rfl
      (.of_task hestablished .advance ?_ (leadsTo_self hspawned ?_)))))
  · rfl
  · exact ⟨rfl, rfl, List.not_mem_nil⟩

/-- Every run of an endpoint is what a transport with one connection does. -/
theorem run_leadsTo_endpoint {maxConnections : UInt64} (hmax : maxConnections ≠ 0)
    (peerAddr : SocketAddr) (calls : List Endpoint.Call) :
    (new maxConnections).LeadsTo crc 0
      (calls.foldl (Endpoint.perform crc) (Endpoint.spawnConnectionTasks peerAddr)) := by
  have h : (new maxConnections).LeadsTo crc 0 (Endpoint.spawnConnectionTasks peerAddr) :=
    leadsTo_spawnConnectionTasks hmax peerAddr
  generalize Endpoint.spawnConnectionTasks peerAddr = e at h
  induction calls generalizing e with
  | nil => exact h
  | cons call calls ih => exact ih _ (h.perform call)

end TcpTransport

end CekyP2P.Transport
