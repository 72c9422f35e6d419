import CekyP2P.Crypto.Channel
import CekyP2P.Node.Recipient
import CekyP2P.Transport.SocketPair

/-!
# Message types and ciphertexts

Two nodes run their event loops while the network delivers to either of them what it likes. It
cannot make ciphertexts of its own, so a payload that a node dispatches was encrypted by the
other node. The message type is not part of what the cipher protects: the loop calls `encrypt`,
and reads the type off the header of the frame that arrives. It is the type under which the
payload was sent as long as nobody alters it on the way.
-/

namespace CekyP2P.Node

open Crypto Dht Protocol Transfer Transport

variable {σ : Type} {S : Suite UInt8 σ} {F : Type} {f64 : F64 F}

variable (S) in
/-- A frame whose payload is an encryption under a key, with the request id as nonce. -/
def Encrypts (f : Vector UInt8 32 × Frame) (data : List UInt8) : Prop :=
  S.aead.encrypt f.1 (buildNonce f.2.header.requestId) data [] = some f.2.payload

/-- Nothing that is sent encrypted. -/
def Output.Plain : Output → Prop
  | .sendTo _ frame => frame.header.flags.isEncrypted = false
  | _ => True

namespace ControlPlane

/-! ## What an iteration dispatches -/

section

variable {n : ControlPlane S F}

/-- It is what the loop passes to `dispatch`. -/
theorem step_of_dispatched (env : Env σ) {peerAddr : SocketAddr} {frame : Frame} {d : Dispatch}
    (h : n.dispatched (.event (.frameReceived peerAddr frame)) = some d) :
    ∃ session, n.session peerAddr = some session ∧
      step f64 env (.event (.frameReceived peerAddr frame)) n =
        dispatch f64 env.now peerAddr d.msgType d.data
          { n with
            peerStates := n.peerStates.insert peerAddr
              (.secure (session.decrypt S.aead frame.header.requestId frame.payload).2) } := by
  obtain ⟨_, _, session, ⟨⟩, hmsg, hsession, hencrypted, hopened, -, htype⟩ :=
    exists_of_dispatched h
  refine ⟨session, hsession, ?_⟩
  rw [step, handleEvent, if_neg hmsg, handleSecureFrame, Exec.get_bind_apply, hsession]
  simp only [hencrypted, if_true, hopened]
  rw [htype]
  rfl

/-- Any other frame on a session changes at most the session. -/
theorem step_of_not_dispatched (env : Env σ) {peerAddr : SocketAddr} {frame : Frame}
    (hmsg : frame.header.msgType ≠ .handshake)
    (h : n.dispatched (.event (.frameReceived peerAddr frame)) = none) :
    ∃ peerStates, step f64 env (.event (.frameReceived peerAddr frame)) n =
      .ok () { n with peerStates := peerStates } := by
  rw [step, handleEvent, if_neg hmsg, handleSecureFrame, Exec.get_bind_apply]
  rw [dispatched, if_neg hmsg] at h
  cases hsession : n.session peerAddr with
  | none => exact ⟨n.peerStates, rfl⟩
  | some session =>
    rw [hsession] at h
    simp only at h ⊢
    split at h
    case isFalse hplain =>
      rw [if_neg hplain]
      exact ⟨n.peerStates, rfl⟩
    case isTrue hencrypted =>
      rw [if_pos hencrypted]
      cases hopened : (session.decrypt S.aead frame.header.requestId frame.payload).1 with
      | ok data =>
        rw [hopened] at h
        cases h
      | error e => exact ⟨_, rfl⟩

end

/-! ## What an iteration sends on a session -/

/-- A frame that is sent encrypted, with the key of the session with its address. -/
def sealedFor (n : ControlPlane S F) : Output → Option (Vector UInt8 32 × Frame)
  | .sendTo addr frame =>
    if frame.header.flags.isEncrypted then (n.session addr).map fun s => (s.sendKey, frame)
    else none
  | _ => none

/-- The frames that an iteration from one state to another sends on sessions. -/
def sealedFrames (n n' : ControlPlane S F) : List (Vector UInt8 32 × Frame) :=
  (n'.outbox.drop n.outbox.length).filterMap n'.sealedFor

/-- An output that is sent on a session is encrypted under the key of this session. -/
def Genuine (n : ControlPlane S F) (output : Output) : Prop :=
  ∀ f, n.sealedFor output = some f → ∃ data, Encrypts S f data

/-- The outbox grows by outputs of some kind. -/
def Appends (P : Output → Prop) (n n' : ControlPlane S F) : Prop :=
  ∃ outputs, n'.outbox = n.outbox ++ outputs ∧ ∀ output ∈ outputs, P output

/-- What is sent on sessions is genuine, and no session gets another key to send with. -/
structure Seals (n n' : ControlPlane S F) : Prop where
  outbox : Appends n'.Genuine n n'
  keys : ∀ addr session', n'.session addr = some session' →
    ∃ session, n.session addr = some session ∧ session.sendKey = session'.sendKey

section

variable {n n' : ControlPlane S F}

/-- The encrypted frames for a session. -/
theorem sealedFor_eq_some {output : Output} {f : Vector UInt8 32 × Frame} :
    n.sealedFor output = some f ↔ ∃ addr session, output = .sendTo addr f.2 ∧
      f.2.header.flags.isEncrypted = true ∧ n.session addr = some session ∧
      f.1 = session.sendKey := by
  cases output with
  | sendTo addr frame =>
    simp only [sealedFor, Option.ite_none_right_eq_some, Option.map_eq_some_iff,
      Output.sendTo.injEq]
    constructor
    · rintro ⟨hencrypted, session, hsession, rfl⟩
      exact ⟨addr, session, ⟨rfl, rfl⟩, hencrypted, hsession, rfl⟩
    · rintro ⟨_, session, ⟨rfl, rfl⟩, hencrypted, hsession, hkey⟩
      exact ⟨hencrypted, session, hsession, Prod.ext hkey.symm rfl⟩
  | _ => simp [sealedFor]

/-- Frames that are not encrypted are genuine. -/
theorem genuine_of_plain {output : Output} (h : output.Plain) : n.Genuine output := by
  intro f hf
  obtain ⟨addr, _, rfl, hencrypted, -⟩ := sealedFor_eq_some.mp hf
  exact absurd hencrypted (by simp [show f.2.header.flags.isEncrypted = false from h])

/-- What is appended twice is appended. -/
theorem Appends.trans {P : Output → Prop} {m : ControlPlane S F} (h : Appends P n m)
    (h' : Appends P m n') : Appends P n n' := by
  obtain ⟨outputs, houtbox, hP⟩ := h
  obtain ⟨outputs', houtbox', hP'⟩ := h'
  refine ⟨outputs ++ outputs', ?_, ?_⟩
  · rw [houtbox', houtbox, List.append_assoc]
  · intro output hmem
    exact (List.mem_append.mp hmem).elim (hP output) (hP' output)

/-- What is appended may be described more weakly. -/
theorem Appends.imp {P Q : Output → Prop} (h : Appends P n n')
    (himp : ∀ output, P output → Q output) : Appends Q n n' := by
  obtain ⟨outputs, houtbox, hP⟩ := h
  exact ⟨outputs, houtbox, fun output hmem => himp output (hP output hmem)⟩

/-- Nothing is appended. -/
theorem appends_of_eq {P : Output → Prop} (h : n'.outbox = n.outbox) : Appends P n n' :=
  ⟨[], h.trans (List.append_nil _).symm, fun _ hmem => absurd hmem List.not_mem_nil⟩

/-- A sealed frame is encrypted under the key of the session. -/
theorem genuine_of_mem_sentBy {addr : SocketAddr} {msgType : MessageType} {data : List UInt8}
    {session session' : SecureSession} (hsession : n.session addr = some session')
    (hkey : session'.sendKey = session.sendKey) {output : Output}
    (hmem : output ∈ sentBy addr msgType (session.encrypt S.aead data).1) :
    n.Genuine output := by
  intro f hf
  cases hresult : (session.encrypt S.aead data).1 with
  | error e =>
    rw [hresult] at hmem
    cases hmem
  | ok sent =>
    rw [hresult] at hmem
    obtain ⟨_, _, hsent, -, hfound, hsendKey⟩ := sealedFor_eq_some.mp hf
    rw [List.mem_singleton.mp hmem, Output.sendTo.injEq] at hsent
    obtain ⟨rfl, hframe⟩ := hsent
    rw [hsession] at hfound
    cases hfound
    obtain ⟨hnonce, -, hseal⟩ := SecureSession.sealFrame_eq_ok.mp hresult
    refine ⟨data, ?_⟩
    rw [Encrypts, hsendKey, hkey, ← hframe]
    exact hseal

instance : Std.Refl (Seals (S := S) (F := F)) where
  refl _ := ⟨appends_of_eq rfl, fun _ session h => ⟨session, h, rfl⟩⟩

instance : IsTrans (ControlPlane S F) Seals where
  trans n m n' h h' := by
    refine ⟨(h.outbox.imp fun output hgenuine f hf => ?_).trans h'.outbox,
      fun addr session' hs' => ?_⟩
    · obtain ⟨addr, session', rfl, hencrypted, hs', hkey⟩ := sealedFor_eq_some.mp hf
      obtain ⟨session, hs, hsame⟩ := h'.keys addr session' hs'
      exact hgenuine f (sealedFor_eq_some.mpr
        ⟨addr, session, rfl, hencrypted, hs, hkey.trans hsame.symm⟩)
    · obtain ⟨session, hs, hsame⟩ := h'.keys addr session' hs'
      obtain ⟨session₀, hs₀, hsame₀⟩ := h.keys addr session hs
      exact ⟨session₀, hs₀, hsame₀.trans hsame⟩

/-- A session that is put into the map sends with the key of the one that was there. -/
theorem keys_insert {addr : SocketAddr} {session session' : SecureSession}
    (hstates : n'.peerStates = n.peerStates.insert addr (.secure session'))
    (hsession : n.session addr = some session) (hkey : session'.sendKey = session.sendKey)
    (a : SocketAddr) (s' : SecureSession) (hs' : n'.session a = some s') :
    ∃ s, n.session a = some s ∧ s.sendKey = s'.sendKey := by
  rw [session_insert hstates] at hs'
  split at hs'
  case isTrue heq =>
    cases hs'
    exact ⟨session, heq ▸ hsession, hkey.symm⟩
  case isFalse => exact ⟨s', hs', rfl⟩

/-- A message of a handshake is not encrypted. -/
theorem plain_handshake (addr : SocketAddr) (message : List UInt8) :
    Output.Plain (.sendTo addr (.new .handshake Flags.empty 0 message)) := by
  change Flags.empty.isEncrypted = false
  decide

/-- Every change of an iteration that establishes no session. -/
theorem Change.seals {scope : List SocketAddr} {input : Input} {heard : Option Dispatch}
    {calls : List SealCall} (h : Change f64 scope input heard [] calls n n') : Seals n n' := by
  have hrefl : ∀ addr session', n.session addr = some session' →
      ∃ session, n.session addr = some session ∧ session.sendKey = session'.sendKey :=
    fun _ session' hs => ⟨session', hs, rfl⟩
  have hemit : ∀ output : Output, output.Plain → n'.outbox = n.outbox ++ [output] →
      Appends n'.Genuine n n' := fun output hplain houtbox =>
    ⟨[output], houtbox, List.forall_mem_singleton.mpr (genuine_of_plain hplain)⟩
  cases h with
  | report output hreport =>
    refine ⟨hemit output ?_ rfl, hrefl⟩
    cases output with
    | sendTo addr frame => cases hreport
    | _ => trivial
  | greet addr message => exact ⟨hemit _ (plain_handshake addr message) rfl, hrefl⟩
  | redirect | dial => exact ⟨hemit (.command _) trivial rfl, hrefl⟩
  | seek | file => exact ⟨appends_of_eq rfl, hrefl⟩
  | await addr state _ hnone =>
    refine ⟨appends_of_eq rfl, fun a session' hs' => ?_⟩
    rw [session_insert rfl, hnone] at hs'
    split at hs'
    · cases hs'
    · exact ⟨session', hs', rfl⟩
  | remove addr =>
    refine ⟨appends_of_eq rfl, fun a session' hs' => ?_⟩
    rw [session_erase] at hs'
    split at hs'
    · cases hs'
    · exact ⟨session', hs', rfl⟩
  | putBack addr state hlookup =>
    refine ⟨appends_of_eq rfl, fun a session' hs' => ?_⟩
    rw [session_insert_erase hlookup] at hs'
    exact ⟨session', hs', rfl⟩
  | encrypt addr msgType data session _ _ hsession =>
    have hkey : (session.encrypt S.aead data).2.sendKey = session.sendKey :=
      session.sendKey_encrypt data
    refine ⟨⟨_, rfl, fun output hmem => ?_⟩, keys_insert rfl hsession hkey⟩
    refine genuine_of_mem_sentBy ?_ hkey hmem
    exact (session_insert rfl addr).trans (if_pos rfl)
  | decrypt addr frame session _ hsession =>
    exact ⟨appends_of_eq rfl, keys_insert rfl hsession (session.sendKey_decrypt _ _)⟩
  | establish _ _ _ _ hcompleted => cases hcompleted

/-- The announcement of a new session is encrypted under its key. -/
theorem appends_completeHandshake (peerAddr : SocketAddr) (handshake : NoiseHandshake S)
    (n : ControlPlane S F) :
    Appends (Exec.stateAfter (completeHandshake peerAddr handshake n)).Genuine n
      (Exec.stateAfter (completeHandshake peerAddr handshake n)) := by
  rw [completeHandshake, Exec.get_bind_apply]
  cases handshake.intoSessionKeys with
  | error e => exact appends_of_eq rfl
  | ok keys =>
    have hkey : ((SecureSession.fromKeys keys).encrypt S.aead n.peerId.bytes.toList).2.sendKey =
        (SecureSession.fromKeys keys).sendKey := SecureSession.sendKey_encrypt _ _
    simp only
    rw [Exec.bind_apply, emitEncrypted_apply]
    refine ⟨_, rfl, fun output hmem => genuine_of_mem_sentBy ?_ hkey hmem⟩
    exact (session_insert rfl peerAddr).trans (if_pos rfl)

/-- A handshake message is sent in the open before a session is announced. -/
theorem appends_emit_completeHandshake (peerAddr : SocketAddr) (message : List UInt8)
    (handshake : NoiseHandshake S) (n : ControlPlane S F) :
    let after := Exec.stateAfter ((do
      emit (.sendTo peerAddr (.new .handshake Flags.empty 0 message))
      completeHandshake peerAddr handshake : ControlM S F Unit) n)
    Appends after.Genuine n after := by
  intro after
  refine Appends.trans ⟨[_], rfl, fun output hmem => ?_⟩
    (appends_completeHandshake peerAddr handshake _)
  rw [List.mem_singleton.mp hmem]
  exact genuine_of_plain (plain_handshake peerAddr message)

/-- The handshake appends genuine frames. -/
theorem appends_advanceHandshake (env : Env σ) (peerAddr : SocketAddr) (payload : List UInt8)
    (state : PeerState S) (n : ControlPlane S F) :
    Appends (Exec.stateAfter (advanceHandshake env peerAddr payload state n)).Genuine n
      (Exec.stateAfter (advanceHandshake env peerAddr payload state n)) := by
  cases state with
  | initiatorWaitMsg2 handshake =>
    rw [advanceHandshake, Exec.bind_apply, Exec.call]
    cases NoiseHandshake.processMessage2CreateMessage3 payload handshake with
    | ok msg3 handshake' => exact appends_emit_completeHandshake peerAddr msg3 handshake' n
    | error e handshake' => cases e <;> exact appends_of_eq rfl
  | responderWaitMsg1 handshake =>
    rw [advanceHandshake, Exec.bind_apply, Exec.call]
    cases NoiseHandshake.processMessage1CreateMessage2 env.ephemeral payload handshake with
    | ok msg2 handshake' =>
      refine ⟨[_], rfl, fun output hmem => ?_⟩
      rw [List.mem_singleton.mp hmem]
      exact genuine_of_plain (plain_handshake peerAddr msg2)
    | error e handshake' => cases e <;> exact appends_of_eq rfl
  | responderWaitMsg3 handshake =>
    rw [advanceHandshake, Exec.bind_apply, Exec.call]
    cases NoiseHandshake.processMessage3 payload handshake with
    | ok _ handshake' => exact appends_completeHandshake peerAddr handshake' n
    | error e handshake' => cases e <;> exact appends_of_eq rfl
  | secure session => exact appends_of_eq rfl

/-- A handshake frame leads to genuine frames. -/
theorem appends_handleHandshake (env : Env σ) (peerAddr : SocketAddr) (payload : List UInt8)
    (n : ControlPlane S F) :
    Appends (Exec.stateAfter (handleHandshake env peerAddr payload n)).Genuine n
      (Exec.stateAfter (handleHandshake env peerAddr payload n)) := by
  rw [handleHandshake, Exec.get_bind_apply]
  cases n.peerStates.lookup peerAddr with
  | none => exact appends_of_eq rfl
  | some state => exact appends_advanceHandshake env peerAddr payload state _

/-- Every frame that an iteration sends on a session is encrypted under the key of the session,
with the request id as nonce. -/
theorem appends_step (env : Env σ) (input : Input) (n : ControlPlane S F) :
    Appends (Exec.stateAfter (step f64 env input n)).Genuine n
      (Exec.stateAfter (step f64 env input n)) := by
  by_cases hnone : n.established input = []
  · obtain ⟨_, -, hchanges⟩ : Changes f64 _ input _ _ _ n _ := changes_step env input
    rw [hnone] at hchanges
    have hseals := hchanges.lift (Q := fun _ => Seals) (fun _ => Std.Refl.refl _)
      (fun h h' => IsTrans.trans _ _ _ h h') fun h => h.seals
    exact hseals.outbox
  · cases input with
    | event event =>
      cases event with
      | frameReceived peerAddr frame =>
        have hmsg : frame.header.msgType = .handshake := by
          by_contra hne
          exact hnone (if_neg hne)
        rw [step, handleEvent, if_pos hmsg]
        exact appends_handleHandshake env peerAddr frame.payload n
      | _ => exact absurd rfl hnone
    | _ => exact absurd rfl hnone

/-- What was sent over a session encrypts something. -/
theorem encrypts_of_mem_sealedFrames {env : Env σ} {input : Input}
    (hstep : step f64 env input n = .ok () n') {f : Vector UInt8 32 × Frame}
    (hf : f ∈ n.sealedFrames n') : ∃ data, Encrypts S f data := by
  have happends : Appends (Exec.stateAfter (step f64 env input n)).Genuine n _ :=
    appends_step env input n
  rw [hstep] at happends
  obtain ⟨outputs, houtbox, hgenuine⟩ := happends
  have hdrop : n'.outbox.drop n.outbox.length = outputs := by
    rw [show n'.outbox = n.outbox ++ outputs from houtbox, List.drop_left]
  rw [sealedFrames, hdrop] at hf
  obtain ⟨output, hmem, hsealed⟩ := List.mem_filterMap.mp hf
  exact hgenuine output hmem f hsealed

end

end ControlPlane

/-! ## Two nodes and the network -/

/-- Two nodes, with what each has sent on its sessions and what it has dispatched. -/
structure World (S : Suite UInt8 σ) (F : Type) where
  node : Side → ControlPlane S F
  sent : Side → List (Vector UInt8 32 × Frame)
  dispatched : Side → List Dispatch

namespace World

/-- Two nodes in any state, with any sessions. -/
def fresh (node : Side → ControlPlane S F) : World S F := ⟨node, fun _ => [], fun _ => []⟩

/-- An iteration of one node. -/
def after (w : World S F) (side : Side) (input : Input) (n' : ControlPlane S F) : World S F where
  node := Function.update w.node side n'
  sent := Function.update w.sent side (w.sent side ++ (w.node side).sealedFrames n')
  dispatched := Function.update w.dispatched side
    (w.dispatched side ++ ((w.node side).dispatched input).toList)

variable (f64) in
/-- The runs of two nodes, every iteration of which meets `P`. What arrives at a node is chosen by
the network. -/
inductive Reachable (P : World S F → Side → Input → Prop) (first : World S F) : World S F → Prop
  | start : Reachable P first first
  | step {w : World S F} {n' : ControlPlane S F} (side : Side) (env : Env σ) (input : Input) :
      Reachable P first w → P w side input →
      ControlPlane.step f64 env input (w.node side) = .ok () n' →
      Reachable P first (w.after side input n')

/-- The network cannot forge: a payload that opens under a session was encrypted under its key,
with this nonce, by the other node. -/
def Unforged (w : World S F) (side : Side) : Input → Prop
  | .event (.frameReceived peerAddr frame) =>
    ∀ session data, (w.node side).session peerAddr = some session →
      S.aead.decrypt session.recvKey (buildNonce frame.header.requestId) frame.payload [] =
        some data →
      ∃ f ∈ w.sent side.other, f.1 = session.recvKey ∧
        f.2.header.requestId = frame.header.requestId ∧ f.2.payload = frame.payload
  | _ => True

/-- A frame arrives with the message type of the frames that were sent with its request id and
its payload. -/
def TypeKept (w : World S F) (side : Side) : Input → Prop
  | .event (.frameReceived _ frame) =>
    ∀ f ∈ w.sent side.other, f.2.header.requestId = frame.header.requestId →
      f.2.payload = frame.payload → f.2.header.msgType = frame.header.msgType
  | _ => True

/-- Whatever a node has dispatched, the other node had encrypted it in a frame of this type. -/
def Bound (w : World S F) : Prop :=
  ∀ side, ∀ d ∈ w.dispatched side, ∃ f ∈ w.sent side.other, f.1 = d.key ∧
    f.2.header.msgType = d.msgType ∧ Encrypts S f d.data

/-- What the nodes have sent on their sessions are encryptions. -/
def Honest (w : World S F) : Prop := ∀ side, ∀ f ∈ w.sent side, ∃ data, Encrypts S f data

variable {w : World S F} {side : Side} {input : Input} {n' : ControlPlane S F}

/-- What was sent after a step. -/
theorem mem_sent_after {f : Vector UInt8 32 × Frame} {t : Side} :
    f ∈ (w.after side input n').sent t ↔
      f ∈ w.sent t ∨ t = side ∧ f ∈ (w.node side).sealedFrames n' := by
  by_cases ht : t = side
  · subst ht
    simp [after]
  · simp [after, ht]

/-- What was dispatched after a step. -/
theorem mem_dispatched_after {d : Dispatch} {t : Side} :
    d ∈ (w.after side input n').dispatched t ↔
      d ∈ w.dispatched t ∨ t = side ∧ (w.node side).dispatched input = some d := by
  by_cases ht : t = side
  · subst ht
    simp [after]
  · simp [after, ht]

/-- Every step keeps the world honest. -/
theorem Honest.step (h : w.Honest) {env : Env σ}
    (hstep : ControlPlane.step f64 env input (w.node side) = .ok () n') :
    (w.after side input n').Honest := by
  intro t f hf
  rcases mem_sent_after.mp hf with hold | ⟨-, hnew⟩
  · exact h t f hold
  · exact ControlPlane.encrypts_of_mem_sealedFrames hstep hnew

/-- A dispatched payload comes from a frame of the other node; the cipher vouches for its
content, and the network for its type. -/
theorem Honest.origin (h : w.Honest) (haead : S.aead.Lawful) (hunforged : w.Unforged side input)
    (hkept : w.TypeKept side input) {d : Dispatch}
    (hd : (w.node side).dispatched input = some d) :
    ∃ f ∈ w.sent side.other, f.1 = d.key ∧ f.2.header.msgType = d.msgType ∧
      Encrypts S f d.data := by
  obtain ⟨peerAddr, frame, session, rfl, -, hsession, -, hopened, hkey, htype⟩ :=
    ControlPlane.exists_of_dispatched hd
  have hdecrypt := ((session.openFrame_spec S.aead frame.header.requestId frame.payload []).2.2
    d.data hopened).2
  obtain ⟨f, hf, hfkey, hnonce, hpayload⟩ := hunforged session d.data hsession hdecrypt
  obtain ⟨data, hencrypts⟩ := h side.other f hf
  have hsame : S.aead.decrypt session.recvKey (buildNonce frame.header.requestId) frame.payload [] =
      some data := by
    rw [← hfkey, ← hnonce, ← hpayload]
    exact haead.decrypt_encrypt hencrypts
  cases hdecrypt.symm.trans hsame
  exact ⟨f, hf, hfkey.trans hkey.symm, (hkept f hf hnonce hpayload).trans htype.symm, hencrypts⟩

/-- A step in which types are kept keeps them bound. -/
theorem Bound.step (h : w.Bound) (hhonest : w.Honest) (haead : S.aead.Lawful)
    (hunforged : w.Unforged side input) (hkept : w.TypeKept side input) :
    (w.after side input n').Bound := by
  intro t d hd
  have hbefore : ∃ f ∈ w.sent t.other, f.1 = d.key ∧ f.2.header.msgType = d.msgType ∧
      Encrypts S f d.data := by
    rcases mem_dispatched_after.mp hd with hold | ⟨rfl, hnew⟩
    · exact h t d hold
    · exact hhonest.origin haead hunforged hkept hnew
  obtain ⟨f, hf, hbound⟩ := hbefore
  exact ⟨f, mem_sent_after.mpr (Or.inl hf), hbound⟩

/-- Every run keeps the world honest. -/
theorem Reachable.honest {P : World S F → Side → Input → Prop} {node : Side → ControlPlane S F}
    (h : Reachable f64 P (fresh node) w) : w.Honest := by
  induction h with
  | start => exact fun _ => nofun
  | step side env input _ _ hstep ih => exact ih.step hstep

/-- In every run of two nodes in which the network forges nothing and alters no message type,
what a node dispatches under a type was encrypted by the other node in a frame of this type. -/
theorem dispatched_types_bound (haead : S.aead.Lawful) {node : Side → ControlPlane S F}
    (h : Reachable f64 (fun w side input => w.Unforged side input ∧ w.TypeKept side input)
      (fresh node) w) : w.Bound := by
  induction h with
  | start => exact fun _ => nofun
  | step side env input hreach hinput _ ih =>
    exact ih.step hreach.honest haead hinput.1 hinput.2

/-! ## A message on its way

One node sends a message, and the network delivers it under a message type of its choice, with the
checksum computed again. -/

open ControlPlane (wholeF64 quietEnv)

/-- The address of the one who dials. -/
def dialerAddr : SocketAddr := ⟨.v4 (Ipv4Addr.new 10 0 0 1), 7000⟩

/-- The address of the one who is dialled. -/
def listenerAddr : SocketAddr := ⟨.v4 (Ipv4Addr.new 10 0 0 2), 7000⟩

/-- A node with a session and nothing else. -/
def securedWith (addr : SocketAddr) (keys : SessionKeys UInt8) : ControlPlane xorSuite Nat :=
  { ControlPlane.listener with
    peerStates := AList.insert addr (.secure (SecureSession.fromKeys keys)) ∅ }

/-- Two nodes with sessions for each other. -/
def twoNodes : Side → ControlPlane xorSuite Nat
  | .dialer => securedWith listenerAddr SecureSession.senderKeys
  | .listener => securedWith dialerAddr SecureSession.receiverKeys

/-- A text for the listener. -/
def greeting : Input := .command (.sendMessage listenerAddr "hi")

/-- After the message was sent. -/
def greeted : World xorSuite Nat :=
  (fresh twoNodes).after .dialer greeting
    (Exec.stateAfter (ControlPlane.step wholeF64 quietEnv greeting (twoNodes .dialer)))

/-- The frame that arrives. -/
def greetingAs (msgType : MessageType) : Frame :=
  FrameCodec.withChecksum .castagnoli
    (.new msgType Flags.empty.withEncrypted 0 ([104, 105] ++ List.replicate tagSize 0))

/-- The world after the greeting was heard under some type. -/
def heardAs (msgType : MessageType) : World xorSuite Nat :=
  greeted.after .listener (.event (.frameReceived dialerAddr (greetingAs msgType)))
    (Exec.stateAfter (ControlPlane.step wholeF64 quietEnv
      (.event (.frameReceived dialerAddr (greetingAs msgType))) (greeted.node .listener)))

/-- What the greeting has sent. -/
theorem sent_greeted : greeted.sent .dialer = [(SecureSession.senderKeys.sendKey,
    .new .data Flags.empty.withEncrypted 0 ([104, 105] ++ List.replicate tagSize 0))] := by
  decide +kernel

/-- Under another type it is not forged. -/
theorem unforged_greetingAs (msgType : MessageType) : greeted.Unforged .listener
    (.event (.frameReceived dialerAddr (greetingAs msgType))) := by
  intro session data hsession _
  have hshared : (greeted.node .listener).session dialerAddr =
      some (SecureSession.fromKeys SecureSession.receiverKeys) := rfl
  cases hshared.symm.trans hsession
  refine ⟨_, by rw [Side.other, sent_greeted]; exact List.mem_singleton_self _, rfl, rfl, rfl⟩

/-- The greeting is a run. -/
theorem reachable_greeted {P : World xorSuite Nat → Side → Input → Prop}
    (h : P (fresh twoNodes) .dialer greeting) :
    Reachable wholeF64 P (fresh twoNodes) greeted :=
  .step .dialer quietEnv greeting .start h (Exec.eq_ok_of_isOk (by decide +kernel))

/-- The greeting and its arrival are a run. -/
theorem reachable_heardAs {P : World xorSuite Nat → Side → Input → Prop} {msgType : MessageType}
    (hgreeted : P (fresh twoNodes) .dialer greeting)
    (hheard : P greeted .listener (.event (.frameReceived dialerAddr (greetingAs msgType))))
    (hok : Exec.isOk (ControlPlane.step wholeF64 quietEnv
      (.event (.frameReceived dialerAddr (greetingAs msgType))) (greeted.node .listener)) = true) :
    Reachable wholeF64 P (fresh twoNodes) (heardAs msgType) :=
  (reachable_greeted hgreeted).step .listener quietEnv _ hheard (Exec.eq_ok_of_isOk hok)

/-- Delivered as it was sent, the message is dispatched as a message. -/
theorem greeting_type_bound :
    Reachable wholeF64 (fun w side input => w.Unforged side input ∧ w.TypeKept side input)
      (fresh twoNodes) (heardAs .data) ∧
    (heardAs .data).dispatched .listener =
      [⟨SecureSession.receiverKeys.recvKey, .data, [104, 105]⟩] ∧
    (heardAs .data).Bound := by
  have hkept : greeted.TypeKept .listener
      (.event (.frameReceived dialerAddr (greetingAs .data))) := by
    intro f hf _ _
    rw [Side.other, sent_greeted, List.mem_singleton] at hf
    rw [hf]
    rfl
  have hreach := reachable_heardAs
    (P := fun w side input => w.Unforged side input ∧ w.TypeKept side input) ⟨trivial, trivial⟩
    ⟨unforged_greetingAs .data, hkept⟩ (by decide +kernel)
  exact ⟨hreach, by decide +kernel, dispatched_types_bound xorSuite_lawful.aead hreach⟩

/-- The same ciphertext under another type, with a checksum that the codec accepts: what was sent
as a message is dispatched as a credit update. -/
theorem altered_type_dispatched :
    Reachable wholeF64 Unforged (fresh twoNodes) (heardAs .creditUpdate) ∧
    FrameCodec.decode .castagnoli ⟨.header, FrameCodec.bytes (greetingAs .creditUpdate)⟩ =
      .ok (some (greetingAs .creditUpdate)) ⟨.header, []⟩ ∧
    (heardAs .creditUpdate).sent .dialer = [(SecureSession.senderKeys.sendKey,
      .new .data Flags.empty.withEncrypted 0 ([104, 105] ++ List.replicate tagSize 0))] ∧
    (heardAs .creditUpdate).dispatched .listener =
      [⟨SecureSession.receiverKeys.recvKey, .creditUpdate, [104, 105]⟩] ∧
    ¬(heardAs .creditUpdate).Bound := by
  have hsent : (heardAs .creditUpdate).sent .dialer = _ := sent_greeted
  have hdispatched : (heardAs .creditUpdate).dispatched .listener =
      [⟨SecureSession.receiverKeys.recvKey, .creditUpdate, [104, 105]⟩] := by decide +kernel
  refine ⟨reachable_heardAs trivial (unforged_greetingAs _) (by decide +kernel), ?_, hsent,
    hdispatched, fun hbound => ?_⟩
  · refine FrameCodec.decode_header_eq_some.mpr ⟨?_, (List.append_nil _).symm, rfl⟩
    exact FrameCodec.Built.wellFormed .castagnoli ⟨_, _, _, _, by decide, rfl⟩
  · obtain ⟨f, hf, -, htype, -⟩ := hbound .listener
      ⟨SecureSession.receiverKeys.recvKey, .creditUpdate, [104, 105]⟩
      (by rw [hdispatched]; exact List.mem_singleton_self _)
    rw [Side.other, hsent, List.mem_singleton] at hf
    rw [hf] at htype
    cases htype

end World

end CekyP2P.Node
