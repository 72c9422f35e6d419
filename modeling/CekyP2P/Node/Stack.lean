import CekyP2P.Node.Messages
import CekyP2P.Transport.SocketPair

/-!
# Two nodes over TCP

The event loops of two nodes on the two ends of one connection: the tasks of both ends write frames
as bytes, TCP carries the bytes in pieces of any size, and the tasks make frames and events of them
again, while both loops do whatever else they have to do. Every run of this is a run of the
dialogue, so the handshake completes, and what is encrypted on one side is dispatched on the other.
-/

namespace CekyP2P

open Protocol FrameCodec Transport Endpoint Transfer

/-! ## A connection on which nothing goes wrong -/

namespace Transport

/-- An end whose tasks run, and which has made an event of the connection and of every frame. -/
structure Endpoint.Clean (peer : SocketAddr) (e : Endpoint) : Prop where
  peerAddr_eq : e.peerAddr = peer
  registered : e.registered = true
  writing : e.writing = true
  reading : e.reading = true
  events_eq : e.events = .connected peer :: e.received.map (.frameReceived peer)

namespace Endpoint

variable {crc : Crc32c} {peer : SocketAddr} {e e' : Endpoint}

/-- A fresh end is clean. -/
theorem clean_spawnConnectionTasks (peer : SocketAddr) : (spawnConnectionTasks peer).Clean peer :=
  ⟨rfl, rfl, rfl, rfl, rfl⟩

/-- A clean end queues what it is given. -/
theorem Clean.sendTo_eq (h : e.Clean peer) (frame : Frame) :
    sendTo frame e =
      .ok () ({ e with queue := e.queue ++ [frame] }.withConnection (.recordSend 0)) := by
  rcases sendTo_cases (e := e) frame with ⟨error, herror⟩ | ⟨-, hok⟩
  · unfold sendTo send at herror
    simp only [Exec.get_bind_apply, h.registered, if_true, h.writing] at herror
    cases herror
  · exact hok

/-- Sending keeps an end clean. -/
theorem Clean.sendTo (h : e.Clean peer) (frame : Frame) :
    (Exec.stateAfter (Endpoint.sendTo frame e)).Clean peer := by
  rw [h.sendTo_eq frame]
  exact ⟨h.peerAddr_eq, h.registered, h.writing, h.reading, h.events_eq⟩

/-- Writing frames that can be encoded keeps an end clean. -/
theorem Clean.write (h : e.Clean peer) (hbuilt : ∀ frame ∈ e.queue, Built frame) :
    (e.write crc).1.Clean peer := by
  unfold Endpoint.write
  rw [if_pos h.writing]
  cases hqueue : e.queue with
  | nil =>
    simp only [h.registered, if_true]
    exact h
  | cons frame queue =>
    have hframe : Built frame := hbuilt frame (by rw [hqueue]; exact List.mem_cons_self)
    simp only [hframe.encode_eq]
    exact ⟨h.peerAddr_eq, h.registered, h.writing, h.reading, h.events_eq⟩

/-- Handling a frame keeps an end clean. -/
theorem Clean.handleFrame (h : e.Clean peer) (frame : Frame) :
    (e.handleFrame frame).Clean peer := by
  have hreceived := received_handleFrame (e := e) frame
  obtain ⟨⟨-, -, hreading, hwriting⟩, -⟩ := handleFrame_cases (e := e) frame
  have hrest : (e.handleFrame frame).peerAddr = e.peerAddr ∧
      (e.handleFrame frame).registered = e.registered ∧
      (e.handleFrame frame).events = e.events ++
        ([frame].filter (Forwarded ·)).map (.frameReceived e.peerAddr) := by
    unfold Endpoint.handleFrame
    split
    case h_1 hping =>
      have hnot : ¬Forwarded frame := fun hforwarded => hforwarded.1 hping
      rw [List.filter_cons_of_neg (by simpa using hnot)]
      rcases autoPong_cases (e := e.withConnection (.recordRecv (.ofNat frame.wireSize)))
        frame.header.requestId with heq | ⟨-, heq⟩
      · simp only [heq]
        exact ⟨rfl, rfl, (List.append_nil _).symm⟩
      · simp only [heq]
        exact ⟨rfl, rfl, (List.append_nil _).symm⟩
    case h_2 hpong =>
      have hnot : ¬Forwarded frame := fun hforwarded => hforwarded.2 hpong
      rw [List.filter_cons_of_neg (by simpa using hnot)]
      exact ⟨rfl, rfl, (List.append_nil _).symm⟩
    case h_3 hping hpong =>
      have hforwarded : Forwarded frame := ⟨hping, hpong⟩
      rw [List.filter_cons_of_pos (by simpa using hforwarded)]
      exact ⟨rfl, rfl, rfl⟩
  obtain ⟨hpeer, hregistered, hevents⟩ := hrest
  refine ⟨hpeer.trans h.peerAddr_eq, hregistered.trans h.registered, hwriting.trans h.writing,
    hreading.trans h.reading, ?_⟩
  rw [hevents, hreceived, h.events_eq, h.peerAddr_eq, List.map_append, List.cons_append]

/-- The reader task meets no error where the bytes are those of encoded frames. -/
theorem Clean.next (h : e.Clean peer) {passed pending : List Frame} {src : Endpoint}
    {wire : List UInt8} (hlane : Lane crc passed pending src e wire) : (e.next crc).Clean peer := by
  obtain ⟨n, hn⟩ := hlane.drained
  have hcall := decode_call crc ⟨e.codec, e.buffer⟩
  unfold Endpoint.next
  rw [if_pos h.reading]
  generalize hdecode : decode crc ⟨e.codec, e.buffer⟩ = result at hcall
  cases hcall with
  | waits state =>
    exact ⟨h.peerAddr_eq, h.registered, h.writing, h.reading, h.events_eq⟩
  | fails error state =>
    have hanswer : (frameDecoder crc).decode e.codec e.buffer = answer _ := congrArg answer hdecode
    have herror := Incremental.Decoder.drain_of_error
      ((frameDecoder crc).error_append hanswer wire)
    rw [herror] at hn
    cases hn
  | @takes frame k hpos hle =>
    have hclean : { e with codec := .header, buffer := e.buffer.drop k : Endpoint }.Clean peer :=
      ⟨h.peerAddr_eq, h.registered, h.writing, h.reading, h.events_eq⟩
    exact hclean.handleFrame frame

end Endpoint

/-- A connection whose ends are clean, with the frames that were passed to it. -/
structure SocketPair.Carries (crc : Crc32c) (peer : Side → SocketAddr) (passed : Side → List Frame)
    (l : SocketPair) : Prop where
  lane : ∀ side, ∃ pending, Lane crc (passed side) pending (l.ends side) (l.ends side.other)
    (l.wire side)
  clean : ∀ side, (l.ends side).Clean (peer side)

namespace SocketPair

variable {crc : Crc32c} {peer : Side → SocketAddr} {passed : Side → List Frame} {l : SocketPair}

/-- A fresh pair carries nothing. -/
theorem carries_fresh (crc : Crc32c) (peer : Side → SocketAddr) :
    (fresh peer).Carries crc peer fun _ => [] :=
  ⟨fun side => ⟨[], lane_fresh peer side⟩, fun side => clean_spawnConnectionTasks (peer side)⟩

/-- Replacing an end by a clean one. -/
theorem clean_setEnd (h : ∀ side, (l.ends side).Clean (peer side)) {t : Side} {e : Endpoint}
    (he : e.Clean (peer t)) (side : Side) : ((l.setEnd t e).ends side).Clean (peer side) := by
  by_cases heq : side = t
  · subst heq
    simpa [setEnd] using he
  · simpa [setEnd, heq] using h side

/-- A step of the transport that sends nothing new. -/
theorem Carries.of_quiet (h : l.Carries crc peer passed) {s : Step}
    (hquiet : ∀ side, l.accepted side s = [])
    (hclean : ∀ side, ((l.step crc s).ends side).Clean (peer side)) :
    (l.step crc s).Carries crc peer passed := by
  refine ⟨fun side => ?_, hclean⟩
  obtain ⟨pending, hlane⟩ := h.lane side
  obtain ⟨pending', hlane'⟩ := lane_step hlane s fun frame hframe => by
    rw [hquiet side] at hframe
    cases hframe
  rw [hquiet side, List.append_nil] at hlane'
  exact ⟨pending', hlane'⟩

/-- Writing leaves what the pair carries. -/
theorem Carries.write (h : l.Carries crc peer passed) (side : Side) :
    (l.step crc (.write side)).Carries crc peer passed := by
  obtain ⟨pending, hlane⟩ := h.lane side
  exact h.of_quiet (fun _ => rfl) (clean_setEnd h.clean ((h.clean side).write hlane.built))

/-- Bytes that arrive leave what the pair carries. -/
theorem Carries.arrive (h : l.Carries crc peer passed) (side : Side) (count : Nat) :
    (l.step crc (.arrive side count)).Carries crc peer passed := by
  have hside := h.clean side
  refine h.of_quiet (fun _ => rfl) ?_
  rw [step, if_pos hside.reading]
  exact clean_setEnd h.clean
    ⟨hside.peerAddr_eq, hside.registered, hside.writing, hside.reading, hside.events_eq⟩

/-- Reading leaves what the pair carries. -/
theorem Carries.next (h : l.Carries crc peer passed) (side : Side) :
    (l.step crc (.next side)).Carries crc peer passed := by
  obtain ⟨pending, hlane⟩ := h.lane side.other
  rw [Side.other_other] at hlane
  exact h.of_quiet (fun _ => rfl) (clean_setEnd h.clean ((h.clean side).next hlane))

/-- A frame that fits the codec is accepted. -/
theorem Carries.sendTo (h : l.Carries crc peer passed) (side : Side) {frame : Frame}
    (hbuilt : Built frame) :
    (l.step crc (.sendTo side frame)).Carries crc peer
      (Function.update passed side (passed side ++ [frame])) := by
  have haccepted : l.accepted side (.sendTo side frame) = [frame] := by
    simp [accepted, (h.clean side).sendTo_eq frame]
  refine ⟨fun t => ?_, clean_setEnd h.clean ((h.clean side).sendTo frame)⟩
  obtain ⟨pending, hlane⟩ := h.lane t
  by_cases ht : t = side
  · subst ht
    rw [Function.update_self, ← haccepted]
    refine lane_step hlane _ ?_
    rw [haccepted]
    exact List.forall_mem_singleton.mpr hbuilt
  · have hnone : l.accepted t (.sendTo side frame) = [] := if_neg (Ne.symm ht)
    obtain ⟨pending', hlane'⟩ := lane_step hlane (.sendTo side frame) (by rw [hnone]; simp)
    rw [hnone, List.append_nil] at hlane'
    rw [Function.update_of_ne ht]
    exact ⟨pending', hlane'⟩

/-- Frames are passed to `send_to` one after the other. -/
def sendAll (crc : Crc32c) (side : Side) (frames : List Frame) (l : SocketPair) : SocketPair :=
  frames.foldl (fun l frame => l.step crc (.sendTo side frame)) l

/-- What is sent is carried after what was sent before. -/
theorem Carries.sendAll (h : l.Carries crc peer passed) (side : Side) {frames : List Frame}
    (hbuilt : ∀ frame ∈ frames, Built frame) :
    (l.sendAll crc side frames).Carries crc peer
      (Function.update passed side (passed side ++ frames)) := by
  induction frames generalizing l passed with
  | nil =>
    rw [List.append_nil, Function.update_eq_self]
    exact h
  | cons frame frames ih =>
    obtain ⟨hframe, hframes⟩ := List.forall_mem_cons.mp hbuilt
    have hrest := ih (h.sendTo side hframe) hframes
    rw [Function.update_self, Function.update_idem, List.append_assoc] at hrest
    exact hrest

/-- The next event of a clean end is the connection, or a frame that the other end was passed. -/
theorem Carries.incoming_eq (h : l.Carries crc peer passed) {side : Side} {k : Nat}
    {event : TransportEvent} (hevent : (l.ends side).events[k]? = some event) :
    Node.incoming crc (peer side) ((passed side.other).filter (Forwarded ·)) k = some event := by
  obtain ⟨pending, hlane⟩ := h.lane side.other
  rw [Side.other_other] at hlane
  rw [(h.clean side).events_eq] at hevent
  cases k with
  | zero => exact hevent
  | succ k =>
    rw [List.getElem?_cons_succ, List.getElem?_map] at hevent
    obtain ⟨frame, hframe, rfl⟩ := Option.map_eq_some_iff.mp hevent
    have hpassed := congrArg (·[k]?) hlane.flow
    simp only [List.getElem?_append_left (List.getElem?_eq_some_iff.mp hframe).1, hframe,
      List.getElem?_map] at hpassed
    obtain ⟨f, hf, rfl⟩ := Option.map_eq_some_iff.mp hpassed
    rw [Node.incoming, hf]
    rfl

end SocketPair

end Transport

/-! ## The loops on top of it -/

namespace Node

open Crypto Dht

variable {σ : Type} {S : Suite UInt8 σ} {F : Type}

/-- The frames for an address that an iteration passes to `send_to`. -/
def framesTo (f64 : F64 F) (addr : SocketAddr) (env : Env σ) (input : Input)
    (n : ControlPlane S F) : List Frame :=
  sentTo addr ((Exec.stateAfter (ControlPlane.step f64 env input n)).outbox.drop n.outbox.length)

/-- Two nodes and the connection between them. -/
structure Stack (S : Suite UInt8 σ) (F : Type) where
  ends : Side → Party S F
  link : Transport.SocketPair
  /-- The frames that were passed to `send_to`. -/
  passed : Side → List Frame

/-- What happens in a run, in any order. -/
inductive Move (σ : Type)
  /-- The writer task writes a frame. -/
  | write (side : Side)
  /-- Bytes arrive. -/
  | arrive (side : Side) (count : Nat)
  /-- The reader task looks for a frame. -/
  | next (side : Side)
  /-- A loop handles an input that is no event of the connection. -/
  | loop (side : Side) (env : Env σ) (input : Input)
  /-- A loop takes the next event of the connection, if there is one. -/
  | take (side : Side) (env : Env σ)

namespace Stack

variable (f64 : F64 F) (crc : Crc32c) (peer : Side → SocketAddr)

/-- One of the nodes has gone on, and passes frames to `send_to`. -/
def update (t : Stack S F) (side : Side) (p : Party S F) (frames : List Frame) : Stack S F where
  ends := Function.update t.ends side p
  link := t.link.sendAll crc side frames
  passed := Function.update t.passed side (t.passed side ++ frames)

/-- The next event of the connection for one of the nodes. -/
def nextEvent (t : Stack S F) (side : Side) : Option TransportEvent :=
  (t.link.ends side).events[(t.ends side).taken]?

/-- The stack after a move. -/
def step (t : Stack S F) : Move σ → Stack S F
  | .write side => { t with link := t.link.step crc (.write side) }
  | .arrive side count => { t with link := t.link.step crc (.arrive side count) }
  | .next side => { t with link := t.link.step crc (.next side) }
  | .loop side env input => t.update crc side ((t.ends side).iterate f64 (peer side) env input)
      (framesTo f64 (peer side) env input (t.ends side).node)
  | .take side env =>
    match t.nextEvent side with
    | some event => t.update crc side ((t.ends side).take f64 (peer side) env event)
        (framesTo f64 (peer side) env (.event event) (t.ends side).node)
    | none => t

/-- The counter of the session does not wrap, and the frames fit the codec. -/
structure Ready (t : Stack S F) (side : Side) (env : Env σ) (input : Input) : Prop where
  counts : ControlPlane.CountsOn (peer side) (t.ends side).node
  fits : ∀ f ∈ framesTo f64 (peer side) env input (t.ends side).node,
    f.payload.length ≤ maxPayloadSize.toNat

/-- What may happen next. -/
def Allowed (t : Stack S F) : Move σ → Prop
  | .write _ | .arrive _ _ | .next _ => True
  | .loop side env input => Party.Outside (peer side) input ∧ t.Ready f64 peer side env input
  | .take side env => ∀ event ∈ t.nextEvent side, t.Ready f64 peer side env (.event event)

instance decidableReady (t : Stack S F) (side : Side) (env : Env σ) (input : Input) :
    Decidable (t.Ready f64 peer side env input) :=
  decidable_of_iff
    ((∀ s ∈ (t.ends side).node.session (peer side), s.sendNonce.toNat + 1 < 2 ^ 64) ∧
      ∀ f ∈ framesTo f64 (peer side) env input (t.ends side).node,
        f.payload.length ≤ maxPayloadSize.toNat)
    ⟨fun h => ⟨h.1, h.2⟩, fun h => ⟨h.1, h.2⟩⟩

instance decidableAllowed (t : Stack S F) : (move : Move σ) → Decidable (t.Allowed f64 peer move)
  | .write _ | .arrive _ _ | .next _ => instDecidableTrue
  | .loop _ _ _ => instDecidableAnd
  | .take side env => inferInstanceAs (Decidable
      (∀ event ∈ t.nextEvent side, t.Ready f64 peer side env (.event event)))

/-- The dialer has connected, and its first message waits to be written. -/
def dialed (env : Env σ) (nodes : Side → ControlPlane S F) : Stack S F :=
  Stack.update crc ⟨strangers nodes, .fresh peer, fun _ => []⟩ .dialer
    ((strangers nodes .dialer).iterate f64 (peer .dialer) env (.command (.connect (peer .dialer))))
    (framesTo f64 (peer .dialer) env (.command (.connect (peer .dialer))) (nodes .dialer))

/-- A run from there. -/
def run (env : Env σ) (nodes : Side → ControlPlane S F) (moves : List (Move σ)) : Stack S F :=
  moves.foldl (step f64 crc peer) (dialed f64 crc peer env nodes)

/-- Every move of a run may happen. -/
def Legal (env : Env σ) (nodes : Side → ControlPlane S F) (moves : List (Move σ)) : Prop :=
  Along (Allowed f64 peer) (step f64 crc peer) (dialed f64 crc peer env nodes) moves

variable {f64 crc peer}

/-! ## The dialogue behind it -/

/-- What a loop sends are frames as `Frame::new` makes them. -/
theorem built_of_fits {n : ControlPlane S F} {addr : SocketAddr} {env : Env σ} {input : Input}
    (hfits : ∀ f ∈ framesTo f64 addr env input n, f.payload.length ≤ maxPayloadSize.toNat) :
    ∀ f ∈ framesTo f64 addr env input n, Built f := by
  intro f hf
  have hlength := hfits f hf
  obtain ⟨outputs, houtbox, hemitted⟩ := ControlPlane.emits_step f64 env input n
  rw [framesTo, houtbox, List.drop_left] at hf
  obtain ⟨output, hmem, hframe⟩ := List.mem_filterMap.mp hf
  cases hemitted output hmem with
  | report _ hreport =>
    cases output with
    | sendTo a frame => cases hreport
    | _ => cases hframe
  | command => cases hframe
  | greeting | announcement | encrypted =>
    obtain ⟨-, ⟨⟩⟩ := Option.ite_none_right_eq_some.mp hframe
    exact ⟨_, _, _, _, hlength, rfl⟩

/-- The connection carries what the nodes have sent. -/
structure Sound (crc : Crc32c) (peer : Side → SocketAddr) (t : Stack S F) : Prop where
  sent_eq : ∀ side, (t.ends side).sent = (t.passed side).filter (Forwarded ·)
  carries : t.link.Carries crc peer t.passed

/-- A side that sends frames keeps the stack sound. -/
theorem Sound.update {t : Stack S F} (h : t.Sound crc peer) {side : Side} {p : Party S F}
    {frames : List Frame} (hsent : p.sent = (t.ends side).sent ++ frames.filter (Forwarded ·))
    (hbuilt : ∀ f ∈ frames, Built f) : (t.update crc side p frames).Sound crc peer := by
  refine ⟨fun s => ?_, h.carries.sendAll side hbuilt⟩
  by_cases hs : s = side
  · subst hs
    simp only [Stack.update, Function.update_self, List.filter_append, hsent, h.sent_eq]
  · simp only [Stack.update, Function.update_of_ne hs, h.sent_eq]

/-- The first message is a key, which fits the codec. -/
theorem sound_dialed (hS : S.Lawful) {env : Env σ} (hconnected : env.connected = true)
    (hsent : env.sent = true) (nodes : Side → ControlPlane S F) :
    (dialed f64 crc peer env nodes).Sound crc peer := by
  have hfresh : Sound crc peer (⟨strangers nodes, .fresh peer, fun _ => []⟩ : Stack S F) :=
    ⟨fun _ => rfl, Transport.SocketPair.carries_fresh crc peer⟩
  refine hfresh.update rfl (built_of_fits ?_)
  obtain ⟨-, -, -, a1, -, -, -, -, -, hcreate, -⟩ := NoiseHandshake.exists_undisturbed_run hS
    (nodes .dialer).identity (nodes .listener).identity env.ephemeral env.ephemeral
  have hafter : Exec.stateAfter (ControlPlane.step f64 env (.command (.connect (peer .dialer)))
      (nodes .dialer)) = _ := ControlPlane.stateAfter_connect hconnected hsent hcreate
  have hframe : Output.frameTo (peer .dialer) (hello (peer .dialer) (S.publicKey
      env.ephemeral).toList) = some (greetingFrame (S.publicKey env.ephemeral).toList) := if_pos rfl
  rw [framesTo, hafter, List.drop_left, sentTo, List.filterMap_cons_some hframe]
  refine List.forall_mem_singleton.mpr ?_
  change (S.publicKey env.ephemeral).toList.length ≤ _
  rw [Vector.length_toList]
  decide

/-- A move is a step of the dialogue, or none. -/
theorem Sound.step {t : Stack S F} (h : t.Sound crc peer) {move : Move σ}
    (hallowed : t.Allowed f64 peer move) :
    (t.step f64 crc peer move).Sound crc peer ∧
      Relation.ReflTransGen (Dialogue f64 crc peer) t.ends (t.step f64 crc peer move).ends := by
  cases move with
  | write side => exact ⟨⟨h.sent_eq, h.carries.write side⟩, .refl⟩
  | arrive side count => exact ⟨⟨h.sent_eq, h.carries.arrive side count⟩, .refl⟩
  | next side => exact ⟨⟨h.sent_eq, h.carries.next side⟩, .refl⟩
  | loop side env input =>
    obtain ⟨houtside, hready⟩ := hallowed
    exact ⟨h.update rfl (built_of_fits hready.fits), .single (.loop side env input houtside
      hready.counts)⟩
  | take side env =>
    rw [Stack.step]
    cases hevent : t.nextEvent side with
    | none => exact ⟨h, .refl⟩
    | some event =>
      have hready := hallowed event hevent
      refine ⟨h.update rfl (built_of_fits hready.fits), .single (.take side env event ?_
        hready.counts)⟩
      rw [h.sent_eq]
      exact h.carries.incoming_eq hevent

/-- The bytes, the tasks and the buffers of a run have no influence on what the loops do. -/
theorem sound_run (hS : S.Lawful) {env : Env σ} (hconnected : env.connected = true)
    (hsent : env.sent = true) {nodes : Side → ControlPlane S F} {moves : List (Move σ)}
    (hlegal : Legal f64 crc peer env nodes moves) :
    (run f64 crc peer env nodes moves).Sound crc peer ∧
      Relation.ReflTransGen (Dialogue f64 crc peer) (Node.dialed f64 peer env nodes)
        (run f64 crc peer env nodes moves).ends := by
  refine Along.invariant (I := fun t => t.Sound crc peer ∧ Relation.ReflTransGen
      (Dialogue f64 crc peer) (Node.dialed f64 peer env nodes) t.ends)
    (fun t move ⟨hsound, hdialogue⟩ hallowed => ?_) hlegal
    ⟨sound_dialed hS hconnected hsent nodes, .refl⟩
  obtain ⟨hsound', hsteps⟩ := hsound.step hallowed
  exact ⟨hsound', hdialogue.trans hsteps⟩

variable {env : Env σ} {nodes : Side → ControlPlane S F} {moves : List (Move σ)}

/-- Two nodes that have just started. -/
def pair : Side → ControlPlane xorSuite Nat :=
  eitherSide (.start (xorIdentity ControlPlane.callerKey) ControlPlane.callerId
    ControlPlane.callerAddr 0) ControlPlane.listener

/-- The handshake, a message of the dialer as soon as it may send one, and the pings. The third
message arrives in two pieces. -/
def conversation : List (Move (Vector UInt8 32)) :=
  [.write .dialer, .arrive .listener 1000, .next .listener, .take .listener ControlPlane.quietEnv,
    .take .listener ControlPlane.quietEnv, .write .listener, .arrive .dialer 1000, .next .dialer,
    .take .dialer ControlPlane.quietEnv, .take .dialer ControlPlane.quietEnv,
    .loop .dialer ControlPlane.quietEnv
      (.command (.sendMessage (Transport.SocketPair.localAddrs .dialer) "hello")),
    .write .dialer, .arrive .listener 30, .next .listener, .write .dialer, .write .dialer,
    .arrive .listener 1000, .next .listener, .next .listener, .next .listener,
    .take .listener ControlPlane.quietEnv, .take .listener ControlPlane.quietEnv,
    .write .listener, .write .listener, .arrive .dialer 1000, .next .dialer, .next .dialer,
    .write .dialer, .arrive .listener 1000, .next .listener]

/-- A checksum that is the same for all bytes. -/
def zeroCrc : Crc32c := ⟨fun _ => 0, fun _ _ => 0⟩

/-- Nothing is on its way, and the loops have taken every event. -/
structure Quiet (crc : Crc32c) (t : Stack S F) : Prop where
  settled : ∀ side, t.link.Settled crc side
  taken : ∀ side, t.nextEvent side = none

/-- A loop that has taken every event of a connection at rest has taken every frame. -/
theorem Sound.sent_lt_taken {t : Stack S F} (h : t.Sound crc peer) {side : Side}
    (hsettled : t.link.Settled crc side.other) (htaken : t.nextEvent side = none) :
    (t.ends side.other).sent.length < (t.ends side).taken := by
  obtain ⟨pending, hlane⟩ := h.carries.lane side.other
  have hreceived := hsettled.received_eq hlane
  rw [Side.other_other] at hreceived
  have hlength := List.getElem?_eq_none_iff.mp htaken
  rw [(h.carries.clean side).events_eq, List.length_cons, List.length_map, hreceived,
    List.length_map, ← h.sent_eq] at hlength
  exact hlength

/-- A lane with nothing under way has settled. -/
theorem settled_of_idle {l : Transport.SocketPair} {side : Side} (hqueue : (l.ends side).queue = [])
    (hwire : l.wire side = []) (hcodec : (l.ends side.other).codec = .header)
    (hbuffer : (l.ends side.other).buffer = []) : l.Settled crc side := by
  refine ⟨fun _ => hqueue, fun _ => ⟨hwire, ⟨.header, []⟩, ?_⟩⟩
  rw [hcodec, hbuffer]
  exact decode_header_of_short crc (Nat.zero_lt_succ 20)

end Stack

end Node

end CekyP2P
