import CekyP2P.Node.Sessions

/-!
# The iterations of a handshake

What the loop does with the inputs that move a handshake on, and that it does nothing for a peer
between them: while there is no session, nothing but the peer's own events changes its state or
sends anything to it. On a session the loop sends no message of a handshake, and the replay window
moves only with the frames of the peer.
-/

namespace CekyP2P.Node

open Crypto Dht Protocol Transfer Transport

variable {σ : Type} {S : Suite UInt8 σ} {F : Type} {f64 : F64 F}

/-- A frame of the transfer manager has one of its types. -/
def Input.Typed : Input → Prop
  | .transferFrame _ frame => frame.header.msgType ∈ transferTypes
  | _ => True

instance decidableTyped : DecidablePred Input.Typed
  | .transferFrame _ frame =>
    inferInstanceAs (Decidable (frame.header.msgType ∈ transferTypes))
  | .command _ | .event _ => instDecidableTrue

/-- The frames that come from a peer with an input have nonces below a bound. -/
def Input.NoncesBelow (addr : SocketAddr) (bound : UInt64) (input : Input) : Prop :=
  ∀ frame, input = .event (.frameReceived addr frame) → frame.header.requestId < bound

namespace ControlPlane

variable {addr : SocketAddr} {n n' : ControlPlane S F}

/-! ## Inputs that move a handshake -/

/-- The session of new keys, with the call of `encrypt` that announces our identifier. -/
def announced (n : ControlPlane S F) (keys : SessionKeys UInt8) :
    Except CryptoError (UInt64 × List UInt8) × SecureSession :=
  (SecureSession.fromKeys keys).encrypt S.aead n.peerId.bytes.toList

/-- A dial sends the first message and waits for the second. -/
theorem stateAfter_connect {env : Env σ} (hconnected : env.connected = true)
    (hsent : env.sent = true) {msg1 : List UInt8} {handshake : NoiseHandshake S}
    (hcreate : NoiseHandshake.createMessage1 env.ephemeral (.newInitiator n.identity) =
      .ok msg1 handshake) :
    Exec.stateAfter (step f64 env (.command (.connect addr)) n) =
      { n with
        outbox := n.outbox ++ [hello addr msg1]
        peerStates := n.peerStates.insert addr (.initiatorWaitMsg2 handshake) } := by
  rw [step, handleCommand, connect, if_pos hconnected, Exec.get_bind_apply, Exec.bind_apply,
    Exec.call, hcreate]
  simp only [hsent, if_true]
  rfl

/-- A new connection begins a handshake, unless there is one. -/
theorem stateAfter_connected (f64 : F64 F) (env : Env σ) (addr : SocketAddr)
    (n : ControlPlane S F) :
    Exec.stateAfter (step f64 env (.event (.connected addr)) n) =
      { n with
        outbox := n.outbox ++ [.apiEvent (.peerConnected addr)]
        peerStates := if addr ∈ n.peerStates then n.peerStates
          else n.peerStates.insert addr (.responderWaitMsg1 (.newResponder n.identity)) } := by
  have hstep : step f64 env (.event (.connected addr)) n =
      (if addr ∈ n.peerStates then (pure () : ControlM S F Unit) else
        insertState addr (.responderWaitMsg1 (.newResponder n.identity)))
        { n with outbox := n.outbox ++ [.apiEvent (.peerConnected addr)] } := rfl
  rw [hstep]
  split <;> rfl

section

variable {frame : Frame} {handshake handshake' : NoiseHandshake S}

/-- A message of a handshake goes to its state, which is taken out. -/
theorem step_handshake (env : Env σ) (htype : frame.header.msgType = .handshake)
    {state : PeerState S} (hlookup : n.peerStates.lookup addr = some state) :
    step f64 env (.event (.frameReceived addr frame)) n =
      advanceHandshake env addr frame.payload state
        { n with peerStates := n.peerStates.erase addr } := by
  rw [step, handleEvent, if_pos htype, handleHandshake, Exec.get_bind_apply, hlookup]
  rfl

/-- The first message is answered with the second. -/
theorem stateAfter_message1 {env : Env σ} (htype : frame.header.msgType = .handshake)
    (hlookup : n.peerStates.lookup addr = some (.responderWaitMsg1 handshake)) {msg2 : List UInt8}
    (hanswer : NoiseHandshake.processMessage1CreateMessage2 env.ephemeral frame.payload handshake =
      .ok msg2 handshake') :
    Exec.stateAfter (step f64 env (.event (.frameReceived addr frame)) n) =
      { n with
        outbox := n.outbox ++ [hello addr msg2]
        peerStates := (n.peerStates.erase addr).insert addr (.responderWaitMsg3 handshake') } := by
  rw [step_handshake env htype hlookup, advanceHandshake, Exec.bind_apply, Exec.call, hanswer]
  rfl

/-- A complete handshake makes the session and announces our identifier on it. -/
theorem completeHandshake_apply {keys : SessionKeys UInt8}
    (hkeys : handshake.intoSessionKeys = .ok keys) :
    completeHandshake addr handshake n = .ok ()
      { n with
        outbox := n.outbox ++ sentBy addr .ping (n.announced keys).1
        peerStates := n.peerStates.insert addr (.secure (n.announced keys).2) } := by
  rw [completeHandshake, Exec.get_bind_apply, hkeys]
  simp only
  rw [Exec.bind_apply, emitEncrypted_apply]
  rfl

/-- The second message is answered with the third, and the session begins. -/
theorem stateAfter_message2 {env : Env σ} (htype : frame.header.msgType = .handshake)
    (hlookup : n.peerStates.lookup addr = some (.initiatorWaitMsg2 handshake)) {msg3 : List UInt8}
    (hanswer : NoiseHandshake.processMessage2CreateMessage3 frame.payload handshake =
      .ok msg3 handshake') {keys : SessionKeys UInt8}
    (hkeys : handshake'.intoSessionKeys = .ok keys) :
    Exec.stateAfter (step f64 env (.event (.frameReceived addr frame)) n) =
      { n with
        outbox := n.outbox ++ [hello addr msg3] ++ sentBy addr .ping (n.announced keys).1
        peerStates :=
          (n.peerStates.erase addr).insert addr (.secure (n.announced keys).2) } := by
  rw [step_handshake env htype hlookup, advanceHandshake, Exec.bind_apply, Exec.call, hanswer]
  change Exec.stateAfter (completeHandshake addr handshake'
    { n with outbox := n.outbox ++ [hello addr msg3], peerStates := n.peerStates.erase addr }) = _
  rw [completeHandshake_apply hkeys]
  rfl

/-- With the third message the session begins. -/
theorem stateAfter_message3 {env : Env σ} (htype : frame.header.msgType = .handshake)
    (hlookup : n.peerStates.lookup addr = some (.responderWaitMsg3 handshake))
    (hanswer : NoiseHandshake.processMessage3 frame.payload handshake = .ok () handshake')
    {keys : SessionKeys UInt8} (hkeys : handshake'.intoSessionKeys = .ok keys) :
    Exec.stateAfter (step f64 env (.event (.frameReceived addr frame)) n) =
      { n with
        outbox := n.outbox ++ sentBy addr .ping (n.announced keys).1
        peerStates :=
          (n.peerStates.erase addr).insert addr (.secure (n.announced keys).2) } := by
  rw [step_handshake env htype hlookup, advanceHandshake, Exec.bind_apply, Exec.call, hanswer]
  change Exec.stateAfter (completeHandshake addr handshake'
    { n with peerStates := n.peerStates.erase addr }) = _
  rw [completeHandshake_apply hkeys]
  rfl

end

/-! ## Between the messages -/

variable {scope : List SocketAddr} {input : Input} {heard : Option Dispatch}
  {completed : List (SocketAddr × Vector UInt8 32)} {calls : List SealCall}

/-- The state of a peer is as it was, and nothing was sent to it. -/
structure Waits (addr : SocketAddr) (n n' : ControlPlane S F) : Prop where
  state_eq : n'.peerStates.lookup addr = n.peerStates.lookup addr
  outbox : Appends (fun output => output.frameTo addr = none) n n'

/-- While a peer waits, its session stays. -/
theorem Waits.session_eq (h : Waits addr n n') : n'.session addr = n.session addr := by
  rw [session, session, h.state_eq]

/-- What is sent to one peer is not sent to another. -/
theorem frameTo_of_mem_sentBy {a : SocketAddr} (hne : a ≠ addr) {msgType : MessageType}
    {result : Except CryptoError (UInt64 × List UInt8)} (output : Output)
    (h : output ∈ sentBy a msgType result) : output.frameTo addr = none := by
  cases result with
  | ok sent =>
    rw [List.mem_singleton.mp h]
    exact if_neg hne
  | error e => cases h

/-- Without a session, only the events of a peer move its handshake. -/
theorem Change.waits (h : Change f64 scope input heard completed calls n n')
    (hmeets : addr ∉ input.meets)
    (hnone : n.session addr = none) : Waits addr n n' := by
  have hstate := h.lookup_eq hmeets fun _ => hnone
  have hunmet : ∀ {a : SocketAddr}, a ∈ input.meets → a ≠ addr := by
    rintro a ha rfl
    exact hmeets ha
  cases h with
  | report output hreport =>
    refine ⟨hstate, [output], rfl, List.forall_mem_singleton.mpr ?_⟩
    cases output with
    | sendTo a frame => cases hreport
    | _ => rfl
  | greet a message ha =>
    exact ⟨hstate, [hello a message], rfl, List.forall_mem_singleton.mpr (if_neg (hunmet ha))⟩
  | redirect | dial => exact ⟨hstate, [.command _], rfl, List.forall_mem_singleton.mpr rfl⟩
  | seek | file | await | remove | putBack | decrypt => exact ⟨hstate, appends_of_eq rfl⟩
  | encrypt a msgType data session _ _ hsession =>
    refine ⟨hstate, _, rfl, frameTo_of_mem_sentBy ?_⟩
    rintro rfl
    cases hnone.symm.trans hsession
  | establish a keys ha => exact ⟨hstate, _, rfl, frameTo_of_mem_sentBy (hunmet ha)⟩

/-- A peer without a session that is not met waits. -/
theorem waits_step (env : Env σ) (hmeets : addr ∉ input.meets) (hnone : n.session addr = none) :
    Waits addr n (Exec.stateAfter (step f64 env input n)) := by
  obtain ⟨_, -, hchanges⟩ : Changes f64 _ input _ _ _ n _ := changes_step env input
  refine hchanges.lift (Q := fun _ n n' => n.session addr = none → Waits addr n n')
    (fun _ _ => ⟨rfl, appends_of_eq rfl⟩) ?_ (fun h => h.waits hmeets) hnone
  intro _ _ n m n' h h' hnone
  have hfirst := h hnone
  have hsecond := h' (hfirst.session_eq.trans hnone)
  exact ⟨hsecond.state_eq.trans hfirst.state_eq, hfirst.outbox.trans hsecond.outbox⟩

/-! ## On a session -/

/-- A nonce below a bound leaves the window below it. -/
theorem maxNonce_decrypt_lt {s : SecureSession} {bound nonce : UInt64}
    (hbelow : s.replayWindow.maxNonce < bound) (hnonce : nonce < bound) (payload : List UInt8) :
    (s.decrypt S.aead nonce payload).2.replayWindow.maxNonce < bound := by
  have hmarked : (s.replayWindow.checkAndMark nonce).2.maxNonce < bound := by
    by_cases hgt : s.replayWindow.maxNonce < nonce
    · rw [(ReplayWindow.checkAndMark_of_gt hgt).2.1]
      exact hnonce
    · obtain ⟨hmarks, hrefuses⟩ := ReplayWindow.checkAndMark_of_le (UInt64.not_lt.mp hgt)
      by_cases hfresh : s.replayWindow.maxNonce.toNat - nonce.toNat < replayWindowSize ∧
          s.replayWindow.bit (s.replayWindow.maxNonce.toNat - nonce.toNat) = false
      · rw [(hmarks hfresh).2.1]
        exact hbelow
      · rw [hrefuses hfresh]
        exact hbelow
  simp only [SecureSession.decrypt, SecureSession.openFrame]
  split
  · exact hmarked
  · split <;> exact hmarked

/-- What an iteration has to say in a frame under a key; it comes up in the course of the
iteration. -/
def Spoken (f64 : F64 F) (scope : List SocketAddr) (input : Input) (heard : Option Dispatch)
    (completed : List (SocketAddr × Vector UInt8 32)) (n : ControlPlane S F)
    (key : Vector UInt8 32) (f : Frame) : Prop :=
  ∃ calls m data, Labelled (Change f64 scope input heard completed) calls n m ∧
    Origin m input heard f.header.msgType data ∧ Encrypts S (key, f) data

variable (f64) in
/-- A session goes on: what is sent on it is what the iteration has to say, and its window moves
with the frames of the peer. -/
structure Talks (addr : SocketAddr) (scope : List SocketAddr) (input : Input)
    (heard : Option Dispatch) (completed : List (SocketAddr × Vector UInt8 32))
    (s : SecureSession) (n n' : ControlPlane S F) : Prop where
  window : ∃ s', n'.session addr = some s' ∧ s'.sendKey = s.sendKey ∧
    ∀ bound, input.NoncesBelow addr bound → s.replayWindow.maxNonce < bound →
      s'.replayWindow.maxNonce < bound
  outbox : Appends (fun output => ∀ f, output.frameTo addr = some f →
    Spoken f64 scope input heard completed n s.sendKey f) n n'

/-- Each change is one of a conversation. -/
theorem Change.talks (h : Change f64 scope input heard completed calls n n')
    (hended : addr ∉ input.ended)
    {s : SecureSession} (hs : n.session addr = some s) :
    Talks f64 addr scope input heard completed s n n' := by
  cases h.use hended hs with
  | idle outputs _ hsession houtbox hsent =>
    refine ⟨⟨s, hsession, rfl, fun _ _ hbelow => hbelow⟩, outputs, houtbox,
      fun output hmem f hf => ?_⟩
    have hframe : f ∈ sentTo addr outputs := List.mem_filterMap.mpr ⟨output, hmem, hf⟩
    rw [hsent] at hframe
    cases hframe
  | encrypt msgType data horigin hsession houtbox =>
    have hafter : (s.encrypt S.aead data).2 = { s with sendNonce := s.sendNonce + 1 } :=
      SecureSession.sealFrame_snd s data []
    rw [hafter] at hsession
    refine ⟨⟨_, hsession, rfl, fun _ _ hbelow => hbelow⟩, _, houtbox, fun output hmem f hf => ?_⟩
    cases hresult : (s.encrypt S.aead data).1 with
    | error e =>
      rw [hresult] at hmem
      cases hmem
    | ok sent =>
      obtain ⟨-, -, hsealed⟩ := SecureSession.sealFrame_eq_ok.mp hresult
      rw [hresult] at hmem
      rw [List.mem_singleton.mp hmem, Output.frameTo, if_pos rfl, Option.some_inj] at hf
      rw [← hf]
      exact ⟨[], n, data, .refl n, horigin, hsealed⟩
  | decrypt frame hinput hsession houtbox =>
    exact ⟨⟨_, hsession, s.sendKey_decrypt _ _, fun bound hnonces hbelow =>
      maxNonce_decrypt_lt hbelow (hnonces frame hinput) _⟩, appends_of_eq houtbox⟩

/-- Each step is one of a conversation. -/
theorem talks_step (env : Env σ) (hended : addr ∉ input.ended) {s : SecureSession}
    (hs : n.session addr = some s) :
    Talks f64 addr (n.concerned input) input (n.dispatched input) (n.established input) s n
      (Exec.stateAfter (step f64 env input n)) := by
  obtain ⟨_, -, hchanges⟩ : Changes f64 _ input _ _ _ n _ := changes_step env input
  refine (hchanges.lift (Q := fun calls m n' =>
    Labelled (Change f64 (n.concerned input) input (n.dispatched input) (n.established input)) calls
        m n' ∧
      ∀ s, m.session addr = some s →
        Talks f64 addr (n.concerned input) input (n.dispatched input) (n.established input) s m n')
    (fun m => ⟨.refl m, fun s hs => ⟨⟨s, hs, rfl, fun _ _ h => h⟩, appends_of_eq rfl⟩⟩) ?_
    (fun h => ⟨.single h, fun s hs => h.talks hended hs⟩)).2 s hs
  rintro _ _ k m n' ⟨hfirst, h⟩ ⟨hsecond, h'⟩
  refine ⟨hfirst.trans hsecond, fun s hs => ?_⟩
  obtain ⟨⟨s', hs', hkey, hwindow⟩, houtbox⟩ := h s hs
  obtain ⟨⟨s'', hs'', hkey', hwindow'⟩, outputs, hout, hspoken⟩ := h' s' hs'
  refine ⟨⟨s'', hs'', hkey'.trans hkey, fun bound hnonces hbelow =>
    hwindow' bound hnonces (hwindow bound hnonces hbelow)⟩, houtbox.trans ⟨outputs, hout, ?_⟩⟩
  intro output hmem f hf
  obtain ⟨calls, m', data, hchanges, horigin, hsealed⟩ := hspoken output hmem f hf
  rw [hkey] at hsealed
  exact ⟨_, m', data, hfirst.trans hchanges, horigin, hsealed⟩

variable (S) in
/-- What an input makes a node send on a session: nothing of a handshake, and a text message only if
the input is the command for it. -/
structure Voiced (input : Input) (key : Vector UInt8 32) (f : Frame) : Prop where
  ne_handshake : f.header.msgType ≠ .handshake
  text : f.header.msgType = .data → ∃ text, input.text = some text ∧
    Encrypts S (key, f) (utf8Bytes text)

/-- What is encrypted is no handshake message. -/
theorem Origin.ne_handshake {msgType : MessageType} {data : List UInt8}
    (h : Origin n input heard msgType data) (htyped : input.Typed) : msgType ≠ .handshake := by
  cases h with
  | transfer peerAddr frame hinput =>
    rw [hinput] at htyped
    intro htype
    rw [Input.Typed, htype] at htyped
    exact absurd htyped (by decide)
  | _ => exact MessageType.noConfusion

/-- Only the commands for it send a text message. -/
theorem Origin.exists_text {data : List UInt8} (h : Origin n input heard .data data)
    (htyped : input.Typed) : ∃ text, input.text = some text ∧ data = utf8Bytes text := by
  generalize htype : MessageType.data = msgType at h
  cases h with
  | message text hinput => exact ⟨text, hinput, rfl⟩
  | transfer peerAddr frame hinput =>
    rw [hinput, Input.Typed, ← htype] at htyped
    exact absurd htyped (by decide)
  | _ => cases htype

/-- A frame that is spoken is voiced. -/
theorem Spoken.voiced {key : Vector UInt8 32} {f : Frame}
    (h : Spoken f64 scope input heard completed n key f) (htyped : input.Typed) :
    Voiced S input key f := by
  obtain ⟨calls, m, data, -, horigin, hsealed⟩ := h
  refine ⟨horigin.ne_handshake htyped, fun htype => ?_⟩
  rw [htype] at horigin
  obtain ⟨text, hinput, rfl⟩ := horigin.exists_text htyped
  exact ⟨text, hinput, hsealed⟩

/-- The counter of a session is not about to wrap. -/
def CountsOn (addr : SocketAddr) (n : ControlPlane S F) : Prop :=
  ∀ s ∈ n.session addr, s.sendNonce.toNat + 1 < 2 ^ 64

/-- All that an iteration does on a session. -/
theorem session_step (f64 : F64 F) (env : Env σ) (hended : addr ∉ input.ended)
    (htyped : input.Typed) (hcount : CountsOn addr n) {s : SecureSession}
    (hs : n.session addr = some s) :
    ∃ s' outputs, (Exec.stateAfter (step f64 env input n)).session addr = some s' ∧
      (Exec.stateAfter (step f64 env input n)).outbox = n.outbox ++ outputs ∧
      (∃ count ≤ 1, Carried S s count (sentTo addr outputs) s') ∧
      (∀ f ∈ sentTo addr outputs, Voiced S input s.sendKey f) ∧
      ∀ bound, input.NoncesBelow addr bound → s.replayWindow.maxNonce < bound →
        s'.replayWindow.maxNonce < bound := by
  obtain ⟨calls, hcalls, hcarries⟩ : ∃ calls, callsFor addr calls ≤ 1 ∧
      Carries addr calls n (Exec.stateAfter (step f64 env input n)) := carries_step env hended
  have hwrap := hcount s hs
  obtain ⟨s', outputs, hs', houtbox, hcarried⟩ := hcarries s hs (by omega)
  obtain ⟨⟨s'', hs'', -, hwindow⟩, outputs', houtbox', hspoken⟩ :
      Talks f64 addr _ input _ _ s n (Exec.stateAfter (step f64 env input n)) :=
    talks_step env hended hs
  cases hs'.symm.trans hs''
  obtain rfl := List.append_cancel_left (houtbox.symm.trans houtbox')
  refine ⟨s', outputs, hs', houtbox, ⟨_, hcalls, hcarried⟩, fun f hf => ?_, hwindow⟩
  obtain ⟨output, hmem, hframe⟩ := List.mem_filterMap.mp hf
  exact (hspoken output hmem f hframe).voiced htyped

end ControlPlane

end CekyP2P.Node
