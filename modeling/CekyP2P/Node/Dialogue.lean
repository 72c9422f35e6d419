import CekyP2P.Crypto.NoiseAgreement
import CekyP2P.Node.Handshakes

/-!
# Two nodes on one connection

Two event loops, and between them a connection that hands on what is sent in order, except pings
and pongs. One node has dialed. From then on either loop takes the events of the connection one by
one, and between them whatever else it has to do. Both come to a session with the keys of the other,
and what a loop dispatches is what the other has encrypted: all of it, once and in order.
-/

namespace CekyP2P.Node

open Crypto Dht Protocol FrameCodec Transfer Transport Endpoint

variable {σ : Type} {S : Suite UInt8 σ} {F : Type} {f64 : F64 F}

/-! ## One direction of a session -/

variable (S) in
/-- What is dispatched is what a frame was made of. -/
structure Opened (key : Vector UInt8 32) (d : Dispatch) (f : Frame) : Prop where
  key_eq : d.key = key
  msgType_eq : d.msgType = f.header.msgType
  encrypts : Encrypts S (key, f) d.data

variable (S) in
/-- The frames that one session sends and another receives. As many of them as the receiver has
dispatched have been opened, and its window is open for the others. -/
structure Flow (src dst : SecureSession) (frames : List Frame) (heard : List Dispatch) : Prop where
  key_eq : dst.recvKey = src.sendKey
  sealed : ∀ f ∈ frames, f.header.flags.isEncrypted = true ∧ f.header.msgType ≠ .handshake ∧
    ∃ data, Encrypts S (src.sendKey, f) data
  increasing : frames.Pairwise fun f g => f.header.requestId < g.header.requestId
  issued : ∀ f ∈ frames, f.header.requestId < src.sendNonce
  window : ∀ f ∈ frames.drop heard.length, dst.replayWindow.maxNonce < f.header.requestId
  ahead : dst.replayWindow.maxNonce < src.sendNonce
  opened : List.Forall₂ (Opened S src.sendKey) heard (frames.take heard.length)

namespace Flow

variable {src src' dst dst' : SecureSession} {frames new : List Frame} {heard : List Dispatch}

/-- No more is heard than was sent. -/
theorem length_le (h : Flow S src dst frames heard) : heard.length ≤ frames.length := by
  have hlength := h.opened.length_eq
  rw [List.length_take] at hlength
  omega

/-- The sender goes on. -/
theorem send (h : Flow S src dst frames heard) {count : Nat}
    (hcarried : ControlPlane.Carried S src count new src') {input : Input}
    (hvoiced : ∀ f ∈ new, ControlPlane.Voiced S input src.sendKey f) :
    Flow S src' dst (frames ++ new.filter (Forwarded ·)) heard := by
  have hmem : ∀ f ∈ new.filter (Forwarded ·), f ∈ new := fun f hf => (List.mem_filter.mp hf).1
  have hle : src.sendNonce ≤ src'.sendNonce := by
    rw [UInt64.le_iff_toNat_le, hcarried.sendNonce_eq]
    exact Nat.le_add_right _ _
  have hlength := h.length_le
  refine ⟨?_, ?_, ?_, ?_, ?_, UInt64.lt_of_lt_of_le h.ahead hle, ?_⟩
  · rw [hcarried.sendKey_eq]
    exact h.key_eq
  · rw [hcarried.sendKey_eq]
    refine List.forall_mem_append.mpr ⟨h.sealed, fun f hf => ?_⟩
    obtain ⟨hflag, hdata⟩ := hcarried.encrypted f (hmem f hf)
    exact ⟨hflag, (hvoiced f (hmem f hf)).ne_handshake, hdata⟩
  · rw [List.pairwise_append]
    refine ⟨h.increasing, hcarried.increasing.filter _, fun f hf g hg => ?_⟩
    exact UInt64.lt_of_lt_of_le (h.issued f hf) (hcarried.nonces g (hmem g hg)).1
  · refine List.forall_mem_append.mpr ⟨fun f hf => ?_, fun f hf => ?_⟩
    · exact UInt64.lt_of_lt_of_le (h.issued f hf) hle
    · exact (hcarried.nonces f (hmem f hf)).2
  · rw [List.drop_append_of_le_length hlength]
    refine List.forall_mem_append.mpr ⟨h.window, fun f hf => ?_⟩
    exact UInt64.lt_of_lt_of_le h.ahead (hcarried.nonces f (hmem f hf)).1
  · rw [hcarried.sendKey_eq, List.take_append_of_le_length hlength]
    exact h.opened

/-- The receiver does something else. -/
theorem keep (h : Flow S src dst frames heard) (hkey : dst'.recvKey = dst.recvKey)
    (hwindow : ∀ bound, dst.replayWindow.maxNonce < bound → dst'.replayWindow.maxNonce < bound) :
    Flow S src dst' frames heard :=
  ⟨hkey.trans h.key_eq, h.sealed, h.increasing, h.issued, fun f hf => hwindow _ (h.window f hf),
    hwindow _ h.ahead, h.opened⟩

/-- The receiver takes the next frame. -/
theorem hear (h : Flow S src dst frames heard) {f : Frame} (hf : frames[heard.length]? = some f)
    (hkey : dst'.recvKey = dst.recvKey)
    (hwindow : ∀ bound, f.header.requestId < bound → dst.replayWindow.maxNonce < bound →
      dst'.replayWindow.maxNonce < bound) {d : Dispatch} (hd : Opened S src.sendKey d f) :
    Flow S src dst' frames (heard ++ [d]) := by
  have hmem : f ∈ frames := List.mem_of_getElem? hf
  have hdrop : frames.drop heard.length = f :: frames.drop (heard.length + 1) :=
    List.drop_eq_getElem?_toList_append.trans (by rw [hf]; rfl)
  have hbelow : dst.replayWindow.maxNonce < f.header.requestId := by
    refine h.window f ?_
    rw [hdrop]
    exact List.mem_cons_self
  have hlater : ∀ g ∈ frames.drop (heard.length + 1), f.header.requestId < g.header.requestId := by
    have hsorted := h.increasing.sublist (List.drop_sublist heard.length frames)
    rw [hdrop] at hsorted
    exact (List.pairwise_cons.mp hsorted).1
  refine ⟨hkey.trans h.key_eq, h.sealed, h.increasing, h.issued, ?_, ?_, ?_⟩
  · rw [List.length_append, List.length_singleton]
    intro g hg
    exact hwindow _ (hlater g hg) (UInt64.lt_trans hbelow (hlater g hg))
  · exact hwindow _ (h.issued f hmem) h.ahead
  · rw [List.length_append, List.length_singleton, List.take_add_one, hf]
    exact List.rel_append h.opened (.cons hd .nil)

end Flow

/-! ## The two ends -/

/-- The message of a handshake, as a frame. -/
def greetingFrame (message : List UInt8) : Frame := .new .handshake Flags.empty 0 message

/-- The text of a message from a peer that an output reports. -/
def Output.textFrom (peer : SocketAddr) : Output → Option String
  | .apiEvent (.messageReceived a message) => if a = peer then some message else none
  | _ => none

/-- The text of a command, if it made the loop send a message to a peer. -/
def Input.textTo (peer : SocketAddr) (outputs : List Output) (input : Input) : List String :=
  if (sentTo peer outputs).any (·.header.msgType = .data) then input.text.toList else []

/-- A node, with a log of what passes on one connection. -/
structure Party (S : Suite UInt8 σ) (F : Type) where
  node : ControlPlane S F
  /-- The frames for the other end that its transport hands on, in the order of sending. -/
  sent : List Frame
  /-- How many events of the connection the loop has taken. -/
  taken : Nat
  /-- What the loop has dispatched of them. -/
  heard : List Dispatch
  /-- The texts that the loop was asked to send, and sent. -/
  asked : List String
  /-- The texts that the loop has reported. -/
  reported : List String

namespace Party

/-- An iteration of the loop; the other end is known by an address. -/
def iterate (f64 : F64 F) (peer : SocketAddr) (env : Env σ) (input : Input) (p : Party S F) :
    Party S F :=
  let node := Exec.stateAfter (ControlPlane.step f64 env input p.node)
  let outputs := node.outbox.drop p.node.outbox.length
  { p with
    node
    sent := p.sent ++ (sentTo peer outputs).filter (Forwarded ·)
    asked := p.asked ++ input.textTo peer outputs
    reported := p.reported ++ outputs.filterMap (Output.textFrom peer) }

/-- An iteration with the next event of the connection. -/
def take (f64 : F64 F) (peer : SocketAddr) (env : Env σ) (event : TransportEvent)
    (p : Party S F) : Party S F :=
  { p.iterate f64 peer env (.event event) with
    taken := p.taken + 1
    heard := p.heard ++ (p.node.dispatched (.event event)).toList }

/-- An input that is no event of the connection and does not end it. -/
structure Outside (peer : SocketAddr) (input : Input) : Prop where
  unmet : peer ∉ input.meets
  typed : input.Typed

instance decidableOutside (peer : SocketAddr) (input : Input) : Decidable (Outside peer input) :=
  decidable_of_iff (peer ∉ input.meets ∧ input.Typed) ⟨fun h => ⟨h.1, h.2⟩, fun h => ⟨h.1, h.2⟩⟩

variable {peer : SocketAddr} {env : Env σ} {input : Input} {p : Party S F}

/-- What an iteration sends to the peer is forwarded. -/
theorem sent_iterate {outputs : List Output}
    (h : (Exec.stateAfter (ControlPlane.step f64 env input p.node)).outbox =
      p.node.outbox ++ outputs) :
    (p.iterate f64 peer env input).sent =
      p.sent ++ (sentTo peer outputs).filter (Forwarded ·) := by
  simp only [iterate, h, List.drop_left]

/-- An iteration leaves the identity. -/
theorem identity_iterate (f64 : F64 F) (peer : SocketAddr) (env : Env σ) (input : Input)
    (p : Party S F) : (p.iterate f64 peer env input).node.identity = p.node.identity :=
  (ControlPlane.sameNode_step f64 env input p.node).identity_eq

/-- Without a session, nothing happens on the connection. -/
theorem iterate_of_no_session (houtside : Outside peer input) (hnone : p.node.session peer = none) :
    (p.iterate f64 peer env input).node.peerStates.lookup peer = p.node.peerStates.lookup peer ∧
      (p.iterate f64 peer env input).sent = p.sent := by
  obtain ⟨hstate, outputs, houtbox, hquiet⟩ : ControlPlane.Waits peer p.node
      (Exec.stateAfter (ControlPlane.step f64 env input p.node)) :=
    ControlPlane.waits_step env houtside.unmet hnone
  refine ⟨hstate, ?_⟩
  have hsent : sentTo peer outputs = [] := List.filterMap_eq_nil_iff.mpr hquiet
  rw [sent_iterate houtbox, hsent]
  exact List.append_nil _

/-- On a session, the connection carries what the session sends. -/
theorem iterate_of_session (hended : peer ∉ input.ended) (htyped : input.Typed)
    (hcount : ControlPlane.CountsOn peer p.node) {s : SecureSession}
    (hs : p.node.session peer = some s) :
    ∃ s' count new, (p.iterate f64 peer env input).node.session peer = some s' ∧
      (p.iterate f64 peer env input).sent = p.sent ++ new.filter (Forwarded ·) ∧
      ControlPlane.Carried S s count new s' ∧
      (∀ f ∈ new, ControlPlane.Voiced S input s.sendKey f) ∧
      ∀ bound, input.NoncesBelow peer bound → s.replayWindow.maxNonce < bound →
        s'.replayWindow.maxNonce < bound := by
  obtain ⟨s', outputs, hs', houtbox, ⟨count, -, hcarried⟩, hvoiced, hwindow⟩ :=
    ControlPlane.session_step f64 env hended htyped hcount hs
  exact ⟨s', count, _, hs', sent_iterate houtbox, hcarried, hvoiced, hwindow⟩

end Party

/-- The frame that a session has to take next is dispatched. -/
theorem Flow.dispatched (hS : S.aead.Lawful) {src dst : SecureSession} {frames : List Frame}
    {heard : List Dispatch} (h : Flow S src dst frames heard) {n : ControlPlane S F}
    {peer : SocketAddr} (hs : n.session peer = some dst) {f : Frame}
    (hf : frames[heard.length]? = some f) (crc : Crc32c) :
    ∃ d, n.dispatched (.event (.frameReceived peer (withChecksum crc f))) = some d ∧
      Opened S src.sendKey d f := by
  obtain ⟨hflag, htype, data, hdata⟩ := h.sealed f (List.mem_of_getElem? hf)
  have hbelow : dst.replayWindow.maxNonce < f.header.requestId := by
    refine h.window f ?_
    rw [List.drop_eq_getElem?_toList_append, hf]
    exact List.mem_cons_self
  have hfresh : ¬dst.replayWindow.Refuses f.header.requestId :=
    fun hrefuses => UInt64.not_le.mpr hbelow hrefuses.1
  have hopened : (dst.decrypt S.aead f.header.requestId f.payload).1 = .ok data := by
    have hdecrypt : S.aead.decrypt dst.recvKey (buildNonce f.header.requestId) f.payload [] =
        some data := by
      rw [h.key_eq]
      exact hS.decrypt_encrypt hdata
    rw [SecureSession.decrypt, SecureSession.openFrame_of_not_refuses hfresh, hdecrypt]
  refine ⟨⟨dst.recvKey, f.header.msgType, data⟩, ?_, h.key_eq, rfl, hdata⟩
  have htype' : (withChecksum crc f).header.msgType ≠ .handshake := htype
  have hflag' : (withChecksum crc f).header.flags.isEncrypted = true := hflag
  have hopened' : (dst.decrypt S.aead (withChecksum crc f).header.requestId
      (withChecksum crc f).payload).1 = .ok data := hopened
  rw [ControlPlane.dispatched, if_neg htype', hs]
  simp only [hflag', if_true, hopened']
  rfl

/-- Both directions, when one end takes the next frame of the other. -/
theorem Party.take_of_session (hS : S.aead.Lawful) {p : Party S F} {peer : SocketAddr}
    (hcount : ControlPlane.CountsOn peer p.node) {own other : SecureSession}
    (hs : p.node.session peer = some own) {framesIn framesOut : List Frame}
    {heardThere : List Dispatch} (hin : Flow S other own framesIn p.heard)
    (hout : Flow S own other framesOut heardThere) {f : Frame}
    (hf : framesIn[p.heard.length]? = some f) (crc : Crc32c) (f64 : F64 F) (env : Env σ) :
    let p' := p.take f64 peer env (.frameReceived peer (withChecksum crc f))
    ∃ own' new d, p'.node.session peer = some own' ∧ p'.sent = p.sent ++ new ∧
      p'.heard = p.heard ++ [d] ∧ own'.remoteStatic = own.remoteStatic ∧
      Flow S other own' framesIn (p.heard ++ [d]) ∧
      Flow S own' other (framesOut ++ new) heardThere := by
  intro p'
  obtain ⟨d, hd, hopened⟩ := hin.dispatched hS hs hf crc
  have hended : peer ∉ (Input.event (.frameReceived peer (withChecksum crc f))).ended :=
    List.not_mem_nil
  obtain ⟨own', count, new, hs', hsent, hcarried, hvoiced, hwindow⟩ :
      ∃ s' count new, (p.iterate f64 peer env _).node.session peer = some s' ∧ _ :=
    p.iterate_of_session hended trivial hcount hs
  refine ⟨own', new.filter (Forwarded ·), d, hs', hsent, ?_, hcarried.remoteStatic_eq, ?_,
    hout.send hcarried hvoiced⟩
  · simp only [p', Party.take, hd]
    rfl
  · refine hin.hear hf hcarried.recvKey_eq (fun bound hlt hbelow => ?_) hopened
    refine hwindow bound (fun frame heq => ?_) hbelow
    cases heq
    exact hlt

/-! ## The stages of a connection -/

/-- The session of new keys, after our identifier was announced on it. -/
def openingSession (keys : SessionKeys UInt8) : SecureSession :=
  { SecureSession.fromKeys keys with sendNonce := 1 }

/-- The session on which the identifier was announced. -/
theorem announced_snd (n : ControlPlane S F) (keys : SessionKeys UInt8) :
    (n.announced keys).2 = openingSession keys :=
  SecureSession.sealFrame_snd _ _ _

/-- New sessions with crossed keys, on which nothing but the announcements was sent. -/
theorem flow_opening {k k' rs rs' : Vector UInt8 32} :
    Flow S (openingSession ⟨k, k', rs⟩) (openingSession ⟨k', k, rs'⟩) [] [] :=
  ⟨rfl, List.forall_mem_nil _, .nil, List.forall_mem_nil _, List.forall_mem_nil _,
    show (0 : UInt64) < 1 by decide, .nil⟩

/-- How far two ends have come, of which the first has dialed. -/
inductive Stage (peer : Side → SocketAddr) (D L : Party S F) : Prop
  /-- The first message is on its way, and the connection may have been accepted. -/
  | greeted (ea : σ) (msg1 : List UInt8) (a1 : NoiseHandshake S)
      (hcreate : NoiseHandshake.createMessage1 ea (.newInitiator D.node.identity) = .ok msg1 a1)
      (hdialer : D.node.peerStates.lookup (peer .dialer) = some (.initiatorWaitMsg2 a1))
      (hlistener : L.taken = 0 ∧ L.node.peerStates.lookup (peer .listener) = none ∨
        L.taken = 1 ∧ L.node.peerStates.lookup (peer .listener) =
          some (.responderWaitMsg1 (.newResponder L.node.identity)))
      (hsent : D.sent = [greetingFrame msg1] ∧ L.sent = [])
      (hheard : D.heard = [] ∧ L.heard = []) (htaken : D.taken ≤ 1)
  /-- The second message is on its way. -/
  | answered (ea eb : σ) (msg1 msg2 : List UInt8) (a1 b1 : NoiseHandshake S)
      (hcreate : NoiseHandshake.createMessage1 ea (.newInitiator D.node.identity) = .ok msg1 a1)
      (hanswer : NoiseHandshake.processMessage1CreateMessage2 eb msg1
        (.newResponder L.node.identity) = .ok msg2 b1)
      (hdialer : D.node.peerStates.lookup (peer .dialer) = some (.initiatorWaitMsg2 a1))
      (hlistener : L.node.peerStates.lookup (peer .listener) = some (.responderWaitMsg3 b1))
      (hsent : D.sent = [greetingFrame msg1] ∧ L.sent = [greetingFrame msg2])
      (hheard : D.heard = [] ∧ L.heard = []) (htaken : D.taken ≤ 1 ∧ L.taken = 2)
  /-- The third message is on its way, and frames of the new session may follow it. -/
  | confirmed (msg1 msg2 msg3 : List UInt8) (b1 b2 : NoiseHandshake S) (keys : SessionKeys UInt8)
      (own : SecureSession) (frames : List Frame)
      (hfinish : NoiseHandshake.processMessage3 msg3 b1 = .ok () b2)
      (hkeys : b2.intoSessionKeys = .ok keys)
      (hdialer : D.node.session (peer .dialer) = some own)
      (hlistener : L.node.peerStates.lookup (peer .listener) = some (.responderWaitMsg3 b1))
      (hstatic : own.remoteStatic = L.node.identity.x25519PublicKey ∧
        keys.remoteStatic = D.node.identity.x25519PublicKey)
      (hsent : D.sent = greetingFrame msg1 :: greetingFrame msg3 :: frames ∧
        L.sent = [greetingFrame msg2])
      (hheard : D.heard = [] ∧ L.heard = []) (htaken : D.taken = 2 ∧ L.taken = 2)
      (hflow : Flow S own (openingSession keys) frames [])
      (hback : Flow S (openingSession keys) own [] [])
  /-- Both ends have a session. -/
  | established (msg1 msg2 msg3 : List UInt8) (own other : SecureSession)
      (framesD framesL : List Frame)
      (hdialer : D.node.session (peer .dialer) = some own)
      (hlistener : L.node.session (peer .listener) = some other)
      (hstatic : own.remoteStatic = L.node.identity.x25519PublicKey ∧
        other.remoteStatic = D.node.identity.x25519PublicKey)
      (hsent : D.sent = greetingFrame msg1 :: greetingFrame msg3 :: framesD ∧
        L.sent = greetingFrame msg2 :: framesL)
      (htaken : D.taken = D.heard.length + 2 ∧ L.taken = L.heard.length + 3)
      (hflow : Flow S own other framesD L.heard) (hback : Flow S other own framesL D.heard)

namespace Stage

variable {peer : Side → SocketAddr} {D L : Party S F} {env : Env σ} {input : Input}

/-- An entry in the handshake has no session. -/
theorem session_eq_none {n : ControlPlane S F} {addr : SocketAddr} {state : PeerState S}
    (hlookup : n.peerStates.lookup addr = some state) (hstate : state.session = none) :
    n.session addr = none := by
  rw [ControlPlane.session, hlookup]
  exact hstate

/-- The dialer does something else. -/
theorem loop_dialer (h : Stage peer D L) (houtside : Party.Outside (peer .dialer) input)
    (hcount : ControlPlane.CountsOn (peer .dialer) D.node) :
    Stage peer (D.iterate f64 (peer .dialer) env input) L := by
  have hidentity := D.identity_iterate f64 (peer .dialer) env input
  have hended : peer .dialer ∉ input.ended :=
    fun hmem => houtside.unmet (Input.mem_meets_of_mem_ended hmem)
  have hnonces : ∀ bound, input.NoncesBelow (peer .dialer) bound := by
    rintro bound frame rfl
    exact absurd (List.mem_singleton_self _) houtside.unmet
  cases h with
  | greeted ea msg1 a1 hcreate hdialer hlistener hsent hheard htaken =>
    obtain ⟨hstate, hquiet⟩ :
        (D.iterate f64 (peer .dialer) env input).node.peerStates.lookup _ = _ ∧ _ :=
      D.iterate_of_no_session houtside (session_eq_none hdialer rfl)
    exact .greeted ea msg1 a1 (hidentity ▸ hcreate) (hstate.trans hdialer) hlistener
      ⟨hquiet.trans hsent.1, hsent.2⟩ hheard htaken
  | answered ea eb msg1 msg2 a1 b1 hcreate hanswer hdialer hlistener hsent hheard htaken =>
    obtain ⟨hstate, hquiet⟩ :
        (D.iterate f64 (peer .dialer) env input).node.peerStates.lookup _ = _ ∧ _ :=
      D.iterate_of_no_session houtside (session_eq_none hdialer rfl)
    exact .answered ea eb msg1 msg2 a1 b1 (hidentity ▸ hcreate) hanswer (hstate.trans hdialer)
      hlistener ⟨hquiet.trans hsent.1, hsent.2⟩ hheard htaken
  | confirmed msg1 msg2 msg3 b1 b2 keys own frames hfinish hkeys hdialer hlistener hstatic hsent
      hheard htaken hflow hback =>
    obtain ⟨own', count, new, hs', hnew, hcarried, hvoiced, hwindow⟩ :
        ∃ s' count new, (D.iterate f64 (peer .dialer) env input).node.session _ = some s' ∧ _ :=
      D.iterate_of_session hended houtside.typed hcount hdialer
    refine .confirmed msg1 msg2 msg3 b1 b2 keys own' (frames ++ new.filter (Forwarded ·)) hfinish
      hkeys hs' hlistener ?_ ?_ hheard htaken (hflow.send hcarried hvoiced)
      (hback.keep hcarried.recvKey_eq fun bound => hwindow bound (hnonces bound))
    · rw [hcarried.remoteStatic_eq, hidentity]
      exact hstatic
    · rw [hnew, hsent.1]
      exact ⟨rfl, hsent.2⟩
  | established msg1 msg2 msg3 own other framesD framesL hdialer hlistener hstatic hsent htaken
      hflow hback =>
    obtain ⟨own', count, new, hs', hnew, hcarried, hvoiced, hwindow⟩ :
        ∃ s' count new, (D.iterate f64 (peer .dialer) env input).node.session _ = some s' ∧ _ :=
      D.iterate_of_session hended houtside.typed hcount hdialer
    refine .established msg1 msg2 msg3 own' other (framesD ++ new.filter (Forwarded ·)) framesL hs'
      hlistener ?_ ?_ htaken (hflow.send hcarried hvoiced)
      (hback.keep hcarried.recvKey_eq fun bound => hwindow bound (hnonces bound))
    · rw [hcarried.remoteStatic_eq, hidentity]
      exact hstatic
    · rw [hnew, hsent.1]
      exact ⟨rfl, hsent.2⟩

/-- The listener does something else. -/
theorem loop_listener (h : Stage peer D L) (houtside : Party.Outside (peer .listener) input)
    (hcount : ControlPlane.CountsOn (peer .listener) L.node) :
    Stage peer D (L.iterate f64 (peer .listener) env input) := by
  have hidentity := L.identity_iterate f64 (peer .listener) env input
  have hended : peer .listener ∉ input.ended :=
    fun hmem => houtside.unmet (Input.mem_meets_of_mem_ended hmem)
  have hnonces : ∀ bound, input.NoncesBelow (peer .listener) bound := by
    rintro bound frame rfl
    exact absurd (List.mem_singleton_self _) houtside.unmet
  have hwaits : L.node.session (peer .listener) = none →
      (L.iterate f64 (peer .listener) env input).node.peerStates.lookup (peer .listener) =
        L.node.peerStates.lookup (peer .listener) ∧
      (L.iterate f64 (peer .listener) env input).sent = L.sent :=
    fun hnone => L.iterate_of_no_session houtside hnone
  cases h with
  | greeted ea msg1 a1 hcreate hdialer hlistener hsent hheard htaken =>
    have hnone : L.node.session (peer .listener) = none := by
      rcases hlistener with ⟨-, hlookup⟩ | ⟨-, hlookup⟩
      · rw [ControlPlane.session, hlookup]
        rfl
      · exact session_eq_none hlookup rfl
    obtain ⟨hstate, hquiet⟩ := hwaits hnone
    refine .greeted ea msg1 a1 hcreate hdialer ?_ ⟨hsent.1, hquiet.trans hsent.2⟩ hheard htaken
    rw [hstate, hidentity]
    exact hlistener
  | answered ea eb msg1 msg2 a1 b1 hcreate hanswer hdialer hlistener hsent hheard htaken =>
    obtain ⟨hstate, hquiet⟩ := hwaits (session_eq_none hlistener rfl)
    exact .answered ea eb msg1 msg2 a1 b1 hcreate (hidentity ▸ hanswer) hdialer
      (hstate.trans hlistener) ⟨hsent.1, hquiet.trans hsent.2⟩ hheard htaken
  | confirmed msg1 msg2 msg3 b1 b2 keys own frames hfinish hkeys hdialer hlistener hstatic hsent
      hheard htaken hflow hback =>
    obtain ⟨hstate, hquiet⟩ := hwaits (session_eq_none hlistener rfl)
    exact .confirmed msg1 msg2 msg3 b1 b2 keys own frames hfinish hkeys hdialer
      (hstate.trans hlistener) (hidentity ▸ hstatic) ⟨hsent.1, hquiet.trans hsent.2⟩ hheard htaken
      hflow hback
  | established msg1 msg2 msg3 own other framesD framesL hdialer hlistener hstatic hsent htaken
      hflow hback =>
    obtain ⟨other', count, new, hs', hnew, hcarried, hvoiced, hwindow⟩ :
        ∃ s' count new, (L.iterate f64 (peer .listener) env input).node.session _ = some s' ∧ _ :=
      L.iterate_of_session hended houtside.typed hcount hlistener
    refine .established msg1 msg2 msg3 own other' framesD (framesL ++ new.filter (Forwarded ·))
      hdialer hs' ?_ ?_ htaken
      (hflow.keep hcarried.recvKey_eq fun bound => hwindow bound (hnonces bound))
      (hback.send hcarried hvoiced)
    · rw [hcarried.remoteStatic_eq, hidentity]
      exact hstatic
    · rw [hnew, hsent.2]
      exact ⟨hsent.1, rfl⟩

end Stage

/-- The events of a connection, for the end that knows the other by an address: the connection
itself, and then the frames of the other end. -/
def incoming (crc : Crc32c) (peer : SocketAddr) (sent : List Frame) : Nat → Option TransportEvent
  | 0 => some (.connected peer)
  | k + 1 => sent[k]?.map fun f => .frameReceived peer (withChecksum crc f)

/-- The events that a connection brings are that it is there and that a frame has come. -/
theorem eq_of_incoming {crc : Crc32c} {addr : SocketAddr} {sent : List Frame} {k : Nat}
    {event : TransportEvent} (h : incoming crc addr sent k = some event) :
    event = .connected addr ∨ ∃ frame, event = .frameReceived addr frame := by
  cases k with
  | zero =>
    cases h
    exact .inl rfl
  | succ k =>
    obtain ⟨f, -, rfl⟩ := Option.map_eq_some_iff.mp h
    exact .inr ⟨_, rfl⟩

namespace Stage

variable {peer : Side → SocketAddr} {D L : Party S F} {env : Env σ} {crc : Crc32c}
  {event : TransportEvent}

/-- The announcement of an identifier is a ping, and goes no further than the transport. -/
theorem filter_sentTo_announced (addr : SocketAddr)
    (result : Except CryptoError (UInt64 × List UInt8)) :
    (sentTo addr (ControlPlane.sentBy addr .ping result)).filter (Forwarded ·) = [] := by
  cases result with
  | ok sent =>
    have hframe : sentTo addr (ControlPlane.sentBy addr .ping (.ok sent)) =
        [.new .ping Flags.empty.withEncrypted sent.1 sent.2] := by
      simp [sentTo, ControlPlane.sentBy, Output.frameTo]
    rw [hframe]
    exact List.filter_cons_of_neg (by simp [Forwarded, Frame.new])
  | error e => rfl

/-- A greeting is forwarded first. -/
theorem filter_sentTo_hello (addr : SocketAddr) (message : List UInt8)
    (outputs : List Output) :
    (sentTo addr ([hello addr message] ++ outputs)).filter (Forwarded ·) =
      greetingFrame message :: (sentTo addr outputs).filter (Forwarded ·) := by
  have hframe : Output.frameTo addr (hello addr message) = some (greetingFrame message) :=
    if_pos rfl
  have hforwarded : Forwarded (greetingFrame message) :=
    ⟨MessageType.noConfusion, MessageType.noConfusion⟩
  rw [sentTo, List.singleton_append, List.filterMap_cons_some hframe]
  exact List.filter_cons_of_pos (decide_eq_true hforwarded)

/-- An event that is dispatched to nobody, with what the loop sends on it. -/
theorem take_eq {p : Party S F} {addr : SocketAddr} {n' : ControlPlane S F}
    (hnone : p.node.dispatched (.event event) = none)
    (hafter : Exec.stateAfter (ControlPlane.step f64 env (.event event) p.node) = n')
    {outputs : List Output} (houtbox : n'.outbox = p.node.outbox ++ outputs) :
    p.take f64 addr env event =
      { p.take f64 addr env event with
        node := n'
        sent := p.sent ++ (sentTo addr outputs).filter (Forwarded ·)
        taken := p.taken + 1
        heard := p.heard } := by
  rw [← hafter] at houtbox ⊢
  rw [← Party.sent_iterate houtbox]
  simp only [Party.take, hnone, Option.toList_none, List.append_nil]
  rfl

/-- The event of a connection whose handshake has begun. -/
theorem take_connected {p : Party S F} {addr : SocketAddr} {state : PeerState S}
    (hlookup : p.node.peerStates.lookup addr = some state) (env : Env σ) :
    p.take f64 addr env (.connected addr) =
      { p.take f64 addr env (.connected addr) with
        node := { p.node with outbox := p.node.outbox ++ [.apiEvent (.peerConnected addr)] }
        sent := p.sent
        taken := p.taken + 1
        heard := p.heard } := by
  have hmem : addr ∈ p.node.peerStates := by
    rw [← AList.lookup_isSome, hlookup]
    rfl
  have hafter := ControlPlane.stateAfter_connected f64 env addr p.node
  rw [if_pos hmem] at hafter
  have htake : p.take f64 addr env (.connected addr) = _ := take_eq rfl hafter rfl
  rw [htake]
  simp [sentTo, Output.frameTo]

/-- A greeting is dispatched to no handler. -/
theorem dispatched_greeting {n : ControlPlane S F} {addr : SocketAddr} (message : List UInt8) :
    n.dispatched (.event (.frameReceived addr (withChecksum crc (greetingFrame message)))) =
      none := by
  have htype : (withChecksum crc (greetingFrame message)).header.msgType = .handshake := rfl
  rw [ControlPlane.dispatched, if_pos htype]

/-- The session of a handshake that is complete. -/
theorem session_of_complete {n n' : ControlPlane S F} {addr : SocketAddr}
    {keys : SessionKeys UInt8} {states : AList fun _ : SocketAddr => PeerState S}
    (h : n'.peerStates = states.insert addr (.secure (n.announced keys).2)) :
    n'.session addr = some (openingSession keys) := by
  rw [ControlPlane.session, h, AList.lookup_insert, announced_snd]
  rfl

/-- The dialer takes the next event of the connection. -/
theorem take_dialer (hS : S.Lawful) (h : Stage peer D L)
    (hcount : ControlPlane.CountsOn (peer .dialer) D.node)
    (hevent : incoming crc (peer .dialer) L.sent D.taken = some event) :
    Stage peer (D.take f64 (peer .dialer) env event) L := by
  have hidentity : (D.take f64 (peer .dialer) env event).node.identity = D.node.identity :=
    D.identity_iterate f64 (peer .dialer) env (.event event)
  cases h with
  | greeted ea msg1 a1 hcreate hdialer hlistener hsent hheard htaken =>
    cases hk : D.taken with
    | zero =>
      rw [hk] at hevent
      cases hevent
      rw [take_connected hdialer env]
      exact .greeted ea msg1 a1 hcreate hdialer hlistener hsent hheard (by simp only [hk]; omega)
    | succ k =>
      rw [hk, hsent.2] at hevent
      cases hevent
  | answered ea eb msg1 msg2 a1 b1 hcreate hanswer hdialer hlistener hsent hheard htaken =>
    cases hk : D.taken with
    | zero =>
      rw [hk] at hevent
      cases hevent
      rw [take_connected hdialer env]
      exact .answered ea eb msg1 msg2 a1 b1 hcreate hanswer hdialer hlistener hsent hheard
        ⟨by simp only [hk]; omega, htaken.2⟩
    | succ k =>
      obtain rfl : k = 0 := by omega
      rw [hk, hsent.2] at hevent
      cases hevent
      obtain ⟨msg1', msg2', msg3, a1', a2, b1', b2, key, key', h1, h2, h3, h4, ha, hb⟩ :=
        NoiseHandshake.undisturbed_handshake_agrees hS D.node.identity L.node.identity ea eb
      cases hcreate.symm.trans h1
      cases hanswer.symm.trans h2
      have hafter : Exec.stateAfter (ControlPlane.step f64 env (.event (.frameReceived _
          (withChecksum crc (greetingFrame msg2)))) D.node) = _ :=
        ControlPlane.stateAfter_message2 rfl hdialer h3 ha
      rw [take_eq (dispatched_greeting msg2) hafter (List.append_assoc _ _ _),
        filter_sentTo_hello, filter_sentTo_announced]
      refine .confirmed msg1 msg2 msg3 b1 b2 _ _ [] h4 hb (session_of_complete rfl) hlistener
        ⟨rfl, rfl⟩ ⟨?_, hsent.2⟩ hheard ⟨congrArg (· + 1) hk, htaken.2⟩ flow_opening flow_opening
      rw [hsent.1]
      rfl
  | confirmed msg1 msg2 msg3 b1 b2 keys own frames hfinish hkeys hdialer hlistener hstatic hsent
      hheard htaken hflow hback =>
    rw [htaken.1, hsent.2] at hevent
    cases hevent
  | established msg1 msg2 msg3 own other framesD framesL hdialer hlistener hstatic hsent htaken
      hflow hback =>
    rw [htaken.1, hsent.2] at hevent
    obtain ⟨f, hf, rfl⟩ := Option.map_eq_some_iff.mp hevent
    obtain ⟨own', new, d, hs', hnew, hheard, hstatic', hback', hflow'⟩ :=
      D.take_of_session hS.aead hcount hdialer hback hflow hf crc f64 env
    refine .established msg1 msg2 msg3 own' other (framesD ++ new) framesL hs' hlistener ?_ ?_ ?_
      hflow' (hheard ▸ hback')
    · rw [hstatic', hidentity]
      exact hstatic
    · rw [hnew, hsent.1]
      exact ⟨rfl, hsent.2⟩
    · rw [hheard, List.length_append]
      exact ⟨congrArg (· + 1) htaken.1, htaken.2⟩

/-- The listener takes the next event of the connection. -/
theorem take_listener (hS : S.Lawful) (h : Stage peer D L)
    (hcount : ControlPlane.CountsOn (peer .listener) L.node)
    (hevent : incoming crc (peer .listener) D.sent L.taken = some event) :
    Stage peer D (L.take f64 (peer .listener) env event) := by
  have hidentity : (L.take f64 (peer .listener) env event).node.identity = L.node.identity :=
    L.identity_iterate f64 (peer .listener) env (.event event)
  cases h with
  | greeted ea msg1 a1 hcreate hdialer hlistener hsent hheard htaken =>
    rcases hlistener with ⟨hk, hlookup⟩ | ⟨hk, hlookup⟩
    · rw [hk] at hevent
      cases hevent
      have habsent : peer .listener ∉ L.node.peerStates := AList.lookup_eq_none.mp hlookup
      have hafter := ControlPlane.stateAfter_connected f64 env (peer .listener) L.node
      rw [if_neg habsent] at hafter
      rw [take_eq rfl hafter rfl]
      refine .greeted ea msg1 a1 hcreate hdialer (.inr ⟨congrArg (· + 1) hk, ?_⟩) ?_ hheard htaken
      · exact AList.lookup_insert _
      · rw [hsent.2]
        exact ⟨hsent.1, by simp [sentTo, Output.frameTo]⟩
    · rw [hk, hsent.1] at hevent
      cases hevent
      obtain ⟨msg1', msg2, msg3, a1', a2, b1, b2, key, key', h1, h2, h3, h4, ha, hb⟩ :=
        NoiseHandshake.undisturbed_handshake_agrees hS D.node.identity L.node.identity ea
          env.ephemeral
      cases hcreate.symm.trans h1
      have hafter : Exec.stateAfter (ControlPlane.step f64 env (.event (.frameReceived _
          (withChecksum crc (greetingFrame msg1)))) L.node) = _ :=
        ControlPlane.stateAfter_message1 rfl hlookup h2
      rw [take_eq (dispatched_greeting msg1) hafter rfl, ← List.append_nil [hello _ _],
        filter_sentTo_hello]
      refine .answered ea env.ephemeral msg1 msg2 a1 b1 hcreate h2 hdialer
        (AList.lookup_insert _) ⟨hsent.1, ?_⟩ hheard ⟨htaken, congrArg (· + 1) hk⟩
      rw [hsent.2]
      rfl
  | answered ea eb msg1 msg2 a1 b1 hcreate hanswer hdialer hlistener hsent hheard htaken =>
    rw [htaken.2, hsent.1] at hevent
    cases hevent
  | confirmed msg1 msg2 msg3 b1 b2 keys own frames hfinish hkeys hdialer hlistener hstatic hsent
      hheard htaken hflow hback =>
    rw [htaken.2, hsent.1] at hevent
    cases hevent
    have hafter : Exec.stateAfter (ControlPlane.step f64 env (.event (.frameReceived _
        (withChecksum crc (greetingFrame msg3)))) L.node) = _ :=
      ControlPlane.stateAfter_message3 rfl hlistener hfinish hkeys
    rw [take_eq (dispatched_greeting msg3) hafter rfl, filter_sentTo_announced, List.append_nil]
    refine .established msg1 msg2 msg3 own _ frames [] hdialer (session_of_complete rfl) hstatic
      hsent ?_ ?_ ?_
    · rw [hheard.1, hheard.2]
      exact ⟨htaken.1, congrArg (· + 1) htaken.2⟩
    · rw [hheard.2]
      exact hflow
    · rw [hheard.1]
      exact hback
  | established msg1 msg2 msg3 own other framesD framesL hdialer hlistener hstatic hsent htaken
      hflow hback =>
    rw [htaken.2, hsent.1] at hevent
    obtain ⟨f, hf, rfl⟩ := Option.map_eq_some_iff.mp hevent
    obtain ⟨other', new, d, hs', hnew, hheard, hstatic', hflow', hback'⟩ :=
      L.take_of_session hS.aead hcount hlistener hflow hback hf crc f64 env
    refine .established msg1 msg2 msg3 own other' framesD (framesL ++ new) hdialer hs' ?_ ?_ ?_
      (hheard ▸ hflow') hback'
    · rw [hstatic', hidentity]
      exact hstatic
    · rw [hnew, hsent.2]
      exact ⟨hsent.1, rfl⟩
    · rw [hheard, List.length_append]
      exact ⟨htaken.1, congrArg (· + 1) htaken.2⟩

end Stage

/-! ## Runs -/

/-- A step of a dialogue: one of the loops takes the next event of the connection, or another
input. -/
inductive Dialogue (f64 : F64 F) (crc : Crc32c) (peer : Side → SocketAddr) :
    (Side → Party S F) → (Side → Party S F) → Prop
  | loop {d : Side → Party S F} (side : Side) (env : Env σ) (input : Input)
      (houtside : Party.Outside (peer side) input)
      (hcount : ControlPlane.CountsOn (peer side) (d side).node) :
      Dialogue f64 crc peer d
        (Function.update d side ((d side).iterate f64 (peer side) env input))
  | take {d : Side → Party S F} (side : Side) (env : Env σ) (event : TransportEvent)
      (hevent : incoming crc (peer side) (d side.other).sent (d side).taken = some event)
      (hcount : ControlPlane.CountsOn (peer side) (d side).node) :
      Dialogue f64 crc peer d
        (Function.update d side ((d side).take f64 (peer side) env event))

/-- Two nodes between which nothing has passed. -/
def strangers (nodes : Side → ControlPlane S F) (side : Side) : Party S F :=
  ⟨nodes side, [], 0, [], [], []⟩

/-- The dialer has handled the command to connect. -/
def dialed (f64 : F64 F) (peer : Side → SocketAddr) (env : Env σ)
    (nodes : Side → ControlPlane S F) : Side → Party S F :=
  Function.update (strangers nodes) .dialer ((strangers nodes .dialer).iterate f64 (peer .dialer)
    env (.command (.connect (peer .dialer))))

variable {crc : Crc32c} {peer : Side → SocketAddr} {env : Env σ}
  {nodes : Side → ControlPlane S F} {d d' : Side → Party S F}

/-- After the dial the two sides are at a stage. -/
theorem stage_dialed (hS : S.Lawful) (hconnected : env.connected = true) (hsent : env.sent = true)
    (hnone : (nodes .listener).peerStates.lookup (peer .listener) = none) :
    Stage peer (dialed f64 peer env nodes .dialer) (dialed f64 peer env nodes .listener) := by
  obtain ⟨msg1, -, -, a1, -, -, -, -, -, hcreate, -⟩ := NoiseHandshake.undisturbed_handshake_agrees
    hS (nodes .dialer).identity (nodes .listener).identity env.ephemeral env.ephemeral
  have hafter : Exec.stateAfter (ControlPlane.step f64 env (.command (.connect (peer .dialer)))
      (nodes .dialer)) = _ := ControlPlane.stateAfter_connect hconnected hsent hcreate
  have hframes : (dialed f64 peer env nodes .dialer).sent = [greetingFrame msg1] := by
    have hout : (Exec.stateAfter (ControlPlane.step f64 env (.command (.connect (peer .dialer)))
        (nodes .dialer))).outbox =
        (nodes .dialer).outbox ++ ([hello (peer .dialer) msg1] ++ []) := by
      rw [hafter]
      rfl
    refine (Party.sent_iterate (p := strangers nodes .dialer) hout).trans ?_
    rw [Stage.filter_sentTo_hello]
    rfl
  have hnode : (dialed f64 peer env nodes .dialer).node = _ := hafter
  refine .greeted env.ephemeral msg1 a1 ?_ ?_ (.inl ⟨rfl, hnone⟩) ⟨hframes, rfl⟩ ⟨rfl, rfl⟩
    (Nat.zero_le _)
  · rw [hnode]
    exact hcreate
  · rw [hnode]
    exact AList.lookup_insert _

/-- Every step leads to a stage. -/
theorem stage_step (hS : S.Lawful) (h : Stage peer (d .dialer) (d .listener))
    (hstep : Dialogue f64 crc peer d d') : Stage peer (d' .dialer) (d' .listener) := by
  cases hstep with
  | loop side env input houtside hcount =>
    cases side with
    | dialer => exact h.loop_dialer houtside hcount
    | listener => exact h.loop_listener houtside hcount
  | take side env event hevent hcount =>
    cases side with
    | dialer => exact h.take_dialer hS hcount hevent
    | listener => exact h.take_listener hS hcount hevent

/-- Every run leads to a stage. -/
theorem stage_run (hS : S.Lawful) (hconnected : env.connected = true) (hsent : env.sent = true)
    (hnone : (nodes .listener).peerStates.lookup (peer .listener) = none)
    (h : Relation.ReflTransGen (Dialogue f64 crc peer) (dialed f64 peer env nodes) d) :
    Stage peer (d .dialer) (d .listener) := by
  induction h with
  | refl => exact stage_dialed hS hconnected hsent hnone
  | tail _ hstep ih => exact stage_step hS ih hstep

end CekyP2P.Node
