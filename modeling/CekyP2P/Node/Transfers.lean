import CekyP2P.Node.Messages
import CekyP2P.Protocol.RoundTrip
import CekyP2P.Transfer.InOrder

/-!
# The transfer manager behind the loop

The loop calls the handlers of the transfer manager in the course of an iteration, and the frames
of the manager come back to it through a channel, to be encrypted. A call that does not return stops
the loop. What one node forwards for its manager is what the other hands to its own, in order.
-/

namespace CekyP2P.Node

open Crypto Dht Protocol Transfer TransferManager Transport Endpoint

variable {σ : Type} {S : Suite UInt8 σ} {F : Type} {f64 : F64 F}

/-- What the file system and the random numbers of a node answer to its transfer manager. -/
structure Files where
  /-- The content of a file that is offered, if it can be read. -/
  read : PathBuf → Option (List UInt8)
  /-- `file_name` of a path, as text. -/
  fileName : PathBuf → String
  /-- The identifier that is drawn for an offer. -/
  randomId : TransferId
  /-- What the place of a download holds, if it can be opened, resized and mapped. -/
  disk : PathBuf → Option (List UInt8)

section

variable (sha256 : List UInt8 → Vector UInt8 32) (g : Guards)

/-- The branch for a credit update: an identifier and a little-endian count, and whatever follows
them. -/
def handleCreditFrame (data : List UInt8) : ManagerM Unit :=
  if 20 ≤ data.length then do
    let id ← Exec.copyFromSlice 16 (← Exec.slice data 0 16)
    let cred ← Exec.copyFromSlice 4 (← Exec.slice data 16 20)
    handleCreditUpdate sha256 g ⟨id⟩ (UInt32.ofNat (ofBeBytes cred.toList.reverse))
  else pure ()

/-- The call of the transfer manager that an output stands for. -/
def perform (files : Files) : Output → ManagerM Unit
  | .offerFile target filePath chunkSize => do
    let _ ← offerFile sha256 g target (files.fileName filePath) (files.read filePath) files.randomId
      chunkSize
  | .handleOffer peer offer => do
    let m ← get
    handleOffer g peer offer (files.disk (m.downloadDir.join offer.fileName))
  | .handleTransfer .fileAccept data => do
    match ← Exec.okValue (FileAccept.decode data) with
    | some accept => handleAccept g accept
    | none => pure ()
  | .handleTransfer .fileChunk data => do
    match ← Exec.okValue (FileChunk.decode data) with
    | some chunk => handleChunk sha256 g chunk
    | none => pure ()
  | .handleTransfer .fileChunkAck data => do
    match ← Exec.okValue (FileChunkAck.decode data) with
    | some ack => handleChunkAck sha256 g ack
    | none => pure ()
  | .handleTransfer .creditUpdate data => handleCreditFrame sha256 g data
  | _ => pure ()

/-- A transfer manager, its channel to the loop, and whether a call of it has stopped the loop. -/
structure Managed where
  manager : TransferManager
  /-- How many frames of the manager the loop has taken out of the channel. -/
  forwarded : Nat
  stopped : Bool

namespace Managed

/-- A call by the loop; its error value is dropped. -/
def call (m : Managed) (x : ManagerM Unit) : Managed :=
  if m.stopped = true then m
  else { m with
    manager := Exec.stateAfter (x m.manager)
    stopped := !decide (Exec.Returned (x m.manager)) }

/-- The calls of an iteration. -/
def performAll (files : Files) (outputs : List Output) (m : Managed) : Managed :=
  outputs.foldl (fun m output => m.call (perform sha256 g files output)) m

end Managed

end

/-- An output that is a call of the transfer manager. -/
def Output.isCall : Output → Bool
  | .offerFile _ _ _ | .handleOffer _ _ | .handleTransfer _ _ => true
  | _ => false

namespace Managed

variable {sha256 : List UInt8 → Vector UInt8 32} {g : Guards} {files : Files} {m : Managed}

@[simp] theorem call_pure : m.call (pure ()) = m := by
  obtain ⟨manager, forwarded, stopped⟩ := m
  cases stopped with
  | true => rfl
  | false => rfl

/-- A call that returns. -/
theorem call_of_returned (hrunning : m.stopped = false) {x : ManagerM Unit}
    (h : Exec.Returned (x m.manager)) :
    m.call x = { m with manager := Exec.stateAfter (x m.manager) } := by
  obtain ⟨manager, forwarded, stopped⟩ := m
  cases hrunning
  simp [call, h]

/-- A call that does not return stops the manager. -/
theorem call_of_not_returned (hrunning : m.stopped = false) {x : ManagerM Unit}
    (h : ¬Exec.Returned (x m.manager)) :
    m.call x = { m with manager := Exec.stateAfter (x m.manager), stopped := true } := by
  obtain ⟨manager, forwarded, stopped⟩ := m
  cases hrunning
  simp [call, h]

/-- A call forwards nothing. -/
theorem forwarded_call (x : ManagerM Unit) : (m.call x).forwarded = m.forwarded := by
  unfold call
  split
  · rfl
  · rfl

/-- Performing the loop's requests forwards nothing. -/
theorem forwarded_performAll (outputs : List Output) :
    (m.performAll sha256 g files outputs).forwarded = m.forwarded := by
  induction outputs generalizing m with
  | nil => rfl
  | cons output outputs ih => exact ih.trans (forwarded_call _)

/-- Outputs that are no calls leave the manager alone. -/
theorem performAll_of_no_calls {outputs : List Output}
    (h : ∀ output ∈ outputs, output.isCall = false) :
    m.performAll sha256 g files outputs = m := by
  induction outputs generalizing m with
  | nil => rfl
  | cons output outputs ih =>
    obtain ⟨hfirst, hrest⟩ := List.forall_mem_cons.mp h
    have hpure : perform sha256 g files output = pure () := by
      cases output with
      | offerFile | handleOffer | handleTransfer => cases hfirst
      | _ => rfl
    rw [performAll, List.foldl_cons, hpure, call_pure]
    exact ih hrest

end Managed

/-! ## Payloads that arrive -/

section

variable {sha256 : List UInt8 → Vector UInt8 32} {g : Guards} {files : Files} {m : Managed}
  {peer : SocketAddr}

/-- A payload that its decoder reads back. -/
def Readable : Payload → Prop
  | .fileOffer offer => FileOffer.decode offer.encode = .ok offer
  | .fileAccept accept => FileAccept.decode accept.encode = .ok accept
  | _ => True

/-- What the loop puts out for a payload of the transfer manager of a peer; there is no handler for
`FileComplete`. -/
def outputsFor (peer : SocketAddr) : Payload → List Output
  | .fileOffer offer => [.apiEvent (.fileOfferReceived peer offer.fileName offer.fileSize),
      .handleOffer peer offer]
  | .fileComplete _ => []
  | payload => [.handleTransfer payload.msgType payload.encode]

/-- Encoded credits are read back. -/
theorem handleCreditFrame_encode (id : TransferId) (credits : UInt32) :
    handleCreditFrame sha256 g (encodeCreditUpdate id credits) =
      handleCreditUpdate sha256 g id credits := by
  have hlength : (encodeCreditUpdate id credits).length = 20 := by
    simp [encodeCreditUpdate]
  have hid : ((encodeCreditUpdate id credits).take 16).drop 0 = id.bytes.toList := by
    rw [List.drop_zero, encodeCreditUpdate, List.take_left' (Vector.length_toList ..)]
  have hcount : ((encodeCreditUpdate id credits).take 20).drop 16 =
      (toBeBytes 4 credits.toNat).reverse := by
    rw [List.take_of_length_le (Nat.le_of_eq hlength), encodeCreditUpdate,
      List.drop_left' (Vector.length_toList ..)]
  obtain ⟨cred, hcred⟩ : ∃ cred : Vector UInt8 4,
      (toBeBytes 4 credits.toNat).reverse = cred.toList :=
    Exec.exists_vector_of_length (by simp)
  have hcredits : UInt32.ofNat (ofBeBytes cred.toList.reverse) = credits := by
    rw [← hcred, List.reverse_reverse, ofBeBytes_toBeBytes,
      Nat.mod_eq_of_lt (show credits.toNat < 256 ^ 4 from credits.toNat_lt), UInt32.ofNat_toNat]
  funext manager
  rw [handleCreditFrame, if_pos (Nat.le_of_eq hlength.symm), Exec.bind_apply,
    Exec.slice_of_le (by omega) (by omega), hid]
  simp only
  rw [Exec.bind_apply, Exec.copyFromSlice_toList]
  simp only
  rw [Exec.bind_apply, Exec.slice_of_le (by omega) (by omega), hcount, hcred]
  simp only
  rw [Exec.bind_apply, Exec.copyFromSlice_toList]
  simp only [hcredits]

/-- The calls for a payload amount to what a node does with it. -/
theorem performAll_outputsFor {payload : Payload} (hreadable : Readable payload)
    {disk : Option (List UInt8)}
    (hdisk : ∀ offer, payload = .fileOffer offer →
      files.disk (m.manager.downloadDir.join offer.fileName) = disk) :
    m.performAll sha256 g files (outputsFor peer payload) =
      m.call (TransferManager.dispatch sha256 g peer disk payload) := by
  have hcongr : ∀ {x y : ManagerM Unit}, x m.manager = y m.manager → m.call x = m.call y := by
    intro x y hxy
    rw [Managed.call, Managed.call, hxy]
  cases payload with
  | fileOffer offer =>
    have hskip : m.call (perform sha256 g files
        (.apiEvent (.fileOfferReceived peer offer.fileName offer.fileSize))) = m :=
      Managed.call_pure
    rw [Managed.performAll, outputsFor, List.foldl_cons, hskip, List.foldl_cons, List.foldl_nil]
    refine hcongr ?_
    rw [perform, Exec.get_bind_apply, hdisk offer rfl]
    rfl
  | fileAccept accept =>
    refine hcongr ?_
    change (Exec.okValue (FileAccept.decode accept.encode) >>= _) m.manager = _
    rw [show FileAccept.decode accept.encode = .ok accept from hreadable]
    rfl
  | creditUpdate id credits =>
    refine hcongr (congrFun ?_ m.manager)
    exact handleCreditFrame_encode id credits
  | fileChunk chunk =>
    refine hcongr ?_
    change (Exec.okValue (FileChunk.decode chunk.encode) >>= _) m.manager = _
    rw [FileChunk.decode_encode]
    rfl
  | fileChunkAck ack =>
    refine hcongr ?_
    change (Exec.okValue (FileChunkAck.decode ack.encode) >>= _) m.manager = _
    rw [FileChunkAck.decode_encode]
    rfl
  | fileComplete complete => exact Managed.call_pure.symm

end

namespace ControlPlane

variable {addr : SocketAddr} {input : Input} {n : ControlPlane S F}

/-- An input that is not for the manager makes no call. -/
theorem calls_nothing {env : Env σ} (hinput : ¬input.ForManager) {outputs : List Output}
    (houtbox : (Exec.stateAfter (step f64 env input n)).outbox = n.outbox ++ outputs) :
    ∀ output ∈ outputs, output.isCall = false := by
  intro output hmem
  cases emitted_of_step houtbox output hmem with
  | report _ hreport =>
    cases output with
    | offerFile | handleOffer | handleTransfer => exact absurd hreport hinput
    | _ => rfl
  | _ => rfl

/-- A frame of the manager is sent only for an input that is one. -/
theorem sends_no_transfer {env : Env σ} (hinput : ∀ a frame, input ≠ .transferFrame a frame)
    {outputs : List Output}
    (houtbox : (Exec.stateAfter (step f64 env input n)).outbox = n.outbox ++ outputs) :
    ∀ f ∈ sentTo addr outputs, f.header.msgType ∉ transferTypes := by
  intro f hf
  rcases origin_of_sent houtbox hf with htype | htype | ⟨m, data, horigin⟩
  · rw [htype]
    decide
  · rw [htype]
    decide
  · generalize f.header.msgType = msgType at horigin
    cases horigin with
    | transfer a frame heq => exact absurd heq (hinput a frame)
    | _ => decide

/-- What is put out for a payload that was dispatched. -/
theorem outputs_of_dispatched (f64 : F64 F) (env : Env σ) {frame : Frame} {d : Dispatch}
    (hd : n.dispatched (.event (.frameReceived addr frame)) = some d) {payload : Payload}
    (htype : d.msgType = payload.msgType) (hdata : d.data = payload.encode)
    (hreadable : Readable payload) :
    (Exec.stateAfter (step f64 env (.event (.frameReceived addr frame)) n)).outbox =
      n.outbox ++ outputsFor addr payload := by
  obtain ⟨session, -, hstep⟩ : ∃ session, n.session addr = some session ∧
      step f64 env (.event (.frameReceived addr frame)) n = _ := step_of_dispatched env hd
  rw [hstep, htype, hdata]
  cases payload with
  | fileOffer offer =>
    change ControlPlane.outbox
      (Exec.stateAfter ((Exec.okValue (FileOffer.decode offer.encode) >>= _) _)) = _
    rw [show FileOffer.decode offer.encode = .ok offer from hreadable]
    exact List.append_assoc _ _ _
  | fileComplete => exact (List.append_nil _).symm
  | _ => rfl

/-- What is sent over a session. -/
theorem sendEncrypted_of_session (msgType : MessageType) (data : List UInt8) {s : SecureSession}
    (hs : n.session addr = some s) :
    (Exec.stateAfter (sendEncrypted addr msgType data n)).outbox =
      n.outbox ++ sentBy addr msgType (s.encrypt S.aead data).1 := by
  rw [sendEncrypted, Exec.get_bind_apply, hs]
  simp only
  rw [Exec.bind_apply]
  change (Exec.stateAfter (emitEncrypted addr msgType (s.encrypt S.aead data).1 _)).outbox = _
  rw [emitEncrypted_apply]
  rfl

/-- A frame of the manager is encrypted and sent, until the nonces are used up. -/
theorem forwards (hS : S.aead.Lawful) (f64 : F64 F) (env : Env σ) {frame : Frame}
    {s : SecureSession} (hs : n.session addr = some s) (hnonce : s.sendNonce ≤ maxNonceValue)
    (hshort : frame.payload.length / 64 < 2 ^ 32 - 1) :
    ∃ outputs f,
      (Exec.stateAfter (step f64 env (.transferFrame addr frame) n)).outbox =
        n.outbox ++ outputs ∧
      sentTo addr outputs = [f] ∧ f.header.msgType = frame.header.msgType ∧
      Encrypts S (s.sendKey, f) frame.payload := by
  obtain ⟨ciphertext, hsealed⟩ := Option.isSome_iff_exists.mp
    (hS.encrypt_isSome s.sendKey (buildNonce s.sendNonce) frame.payload [] hshort)
  have hresult : (s.encrypt S.aead frame.payload).1 = .ok (s.sendNonce, ciphertext) :=
    SecureSession.sealFrame_eq_ok.mpr ⟨rfl, hnonce, hsealed⟩
  refine ⟨_, .new frame.header.msgType Flags.empty.withEncrypted s.sendNonce ciphertext,
    sendEncrypted_of_session _ _ hs, ?_, rfl, hsealed⟩
  rw [hresult]
  simp [sentTo, sentBy, Output.frameTo]

end ControlPlane

/-! ## The frames of the manager on a connection -/

namespace Party

variable {peer : SocketAddr} {env : Env σ} {input : Input} {p : Party S F}

/-- The frames that were sent for the manager. -/
def transferFrames (p : Party S F) : List Frame :=
  p.sent.filter (·.header.msgType ∈ transferTypes)

/-- What was dispatched of the frames of the other manager. -/
def transfersHeard (p : Party S F) : List Dispatch :=
  p.heard.filter (·.msgType ∈ transferTypes)

/-- The transport hands frames of transfers on. -/
theorem forwarded_of_mem_transferTypes {f : Frame} (h : f.header.msgType ∈ transferTypes) :
    Forwarded f := by
  refine ⟨?_, ?_⟩
  · intro hping
    rw [hping] at h
    exact absurd h (by decide)
  · intro hpong
    rw [hpong] at h
    exact absurd h (by decide)

/-- The frames of transfers that a side has sent after an iteration. -/
theorem transferFrames_iterate {outputs : List Output}
    (h : (Exec.stateAfter (ControlPlane.step f64 env input p.node)).outbox =
      p.node.outbox ++ outputs) :
    (p.iterate f64 peer env input).transferFrames =
      p.transferFrames ++ (sentTo peer outputs).filter (·.header.msgType ∈ transferTypes) := by
  rw [transferFrames, sent_iterate h, List.filter_append, List.filter_filter]
  congr 2
  funext f
  by_cases htype : f.header.msgType ∈ transferTypes
  · simp [htype, forwarded_of_mem_transferTypes htype]
  · simp [htype]

/-- Other inputs send nothing for the manager. -/
theorem transferFrames_of_other (f64 : F64 F) (peer : SocketAddr) (env : Env σ) (p : Party S F)
    (hinput : ∀ a frame, input ≠ .transferFrame a frame) :
    (p.iterate f64 peer env input).transferFrames = p.transferFrames := by
  obtain ⟨outputs, houtbox, -⟩ := ControlPlane.emits_step f64 env input p.node
  have hnone : (sentTo peer outputs).filter (·.header.msgType ∈ transferTypes) = [] :=
    List.filter_eq_nil_iff.mpr fun f hf => by
      simpa using ControlPlane.sends_no_transfer hinput houtbox f hf
  rw [transferFrames_iterate houtbox, hnone, List.append_nil]

/-- The event of a connection is one of the other manager's frames, or it is nothing for our
manager. -/
theorem take_cases {event : TransportEvent} (f64 : F64 F) (env : Env σ)
    (hevent : event = .connected peer ∨ ∃ frame, event = .frameReceived peer frame)
    {outputs : List Output}
    (houtbox : (Exec.stateAfter (ControlPlane.step f64 env (.event event) p.node)).outbox =
      p.node.outbox ++ outputs) :
    ((p.take f64 peer env event).transfersHeard = p.transfersHeard ∧
      ∀ output ∈ outputs, output.isCall = false) ∨
    ∃ frame d, event = .frameReceived peer frame ∧
      p.node.dispatched (.event event) = some d ∧ d.msgType ∈ transferTypes ∧
      (p.take f64 peer env event).transfersHeard = p.transfersHeard ++ [d] := by
  have hheard : (p.take f64 peer env event).transfersHeard = p.transfersHeard ++
      (p.node.dispatched (.event event)).toList.filter (·.msgType ∈ transferTypes) :=
    List.filter_append _ _
  rcases hevent with rfl | ⟨frame, rfl⟩
  · have hnot : ¬(Input.event (.connected peer)).ForManager := fun h => h
    exact .inl ⟨hheard.trans (List.append_nil _), ControlPlane.calls_nothing hnot houtbox⟩
  · cases hd : p.node.dispatched (.event (.frameReceived peer frame)) with
    | none =>
      rw [hd] at hheard
      refine .inl ⟨hheard.trans (List.append_nil _), ?_⟩
      by_cases htype : frame.header.msgType ∈ transferTypes
      · have hmsg : frame.header.msgType ≠ .handshake := by
          intro hmsg
          rw [hmsg] at htype
          exact absurd htype (by decide)
        obtain ⟨states, hstep⟩ : ∃ states,
            ControlPlane.step f64 env (.event (.frameReceived peer frame)) p.node =
              .ok () { p.node with peerStates := states } :=
          ControlPlane.step_of_not_dispatched env hmsg hd
        rw [hstep] at houtbox
        obtain rfl : outputs = [] := List.append_right_eq_self.mp houtbox.symm
        exact List.forall_mem_nil _
      · have hnot : ¬(Input.event (.frameReceived peer frame)).ForManager := htype
        exact ControlPlane.calls_nothing hnot houtbox
    | some d =>
      obtain ⟨_, _, _, ⟨⟩, -, -, -, -, -, hmsg⟩ := ControlPlane.exists_of_dispatched hd
      rw [hd, Option.toList_some] at hheard
      by_cases htype : d.msgType ∈ transferTypes
      · refine .inr ⟨frame, d, rfl, rfl, htype, hheard.trans ?_⟩
        rw [List.filter_cons_of_pos (by simpa using htype), List.filter_nil]
      · refine .inl ⟨hheard.trans ?_, ControlPlane.calls_nothing (fun h => htype ?_) houtbox⟩
        · rw [List.filter_cons_of_neg (by simpa using htype), List.filter_nil, List.append_nil]
        · rw [hmsg]
          exact h

end Party

/-- One direction of an established session, as far as the managers are concerned. -/
theorem Flow.transfers {src dst : SecureSession} {frames : List Frame} {heard : List Dispatch}
    (h : Flow S src dst frames heard) :
    List.Forall₂ (Opened S src.sendKey) (heard.filter (·.msgType ∈ transferTypes))
        ((frames.filter (·.header.msgType ∈ transferTypes)).take
          (heard.filter (·.msgType ∈ transferTypes)).length) ∧
      (heard.length = frames.length → (heard.filter (·.msgType ∈ transferTypes)).length =
        (frames.filter (·.header.msgType ∈ transferTypes)).length) := by
  have hfilter : ∀ {ds : List Dispatch} {fs : List Frame},
      List.Forall₂ (Opened S src.sendKey) ds fs → List.Forall₂ (Opened S src.sendKey)
        (ds.filter (·.msgType ∈ transferTypes)) (fs.filter (·.header.msgType ∈ transferTypes)) := by
    intro ds fs hopened
    refine List.rel_filter (fun d f hdf => ?_) hopened
    simp only [decide_eq_true_eq]
    rw [hdf.msgType_eq]
  have hopened := hfilter h.opened
  have hsplit : frames.filter (·.header.msgType ∈ transferTypes) =
      (frames.take heard.length).filter (·.header.msgType ∈ transferTypes) ++
        (frames.drop heard.length).filter (·.header.msgType ∈ transferTypes) := by
    rw [← List.filter_append, List.take_append_drop]
  refine ⟨?_, fun hall => ?_⟩
  · rw [hsplit, List.take_left' hopened.length_eq.symm]
    exact hopened
  · rw [hopened.length_eq, hall, List.take_length]

namespace Stage

variable {peer : Side → SocketAddr} {d : Side → Party S F}

/-- No greeting is a frame of a transfer. -/
theorem transferFrames_eq {p : Party S F} (hellos : List Frame) {frames : List Frame}
    (hsent : p.sent = hellos ++ frames)
    (hhellos : ∀ f ∈ hellos, ∃ message, f = greetingFrame message) :
    p.transferFrames = frames.filter (·.header.msgType ∈ transferTypes) := by
  have hnone : hellos.filter (·.header.msgType ∈ transferTypes) = [] := by
    refine List.filter_eq_nil_iff.mpr fun f hf => ?_
    obtain ⟨message, rfl⟩ := hhellos f hf
    exact (by decide : ¬decide (MessageType.handshake ∈ transferTypes) = true)
  rw [Party.transferFrames, hsent, List.filter_append, hnone, List.nil_append]

/-- What one end has dispatched of the other manager's frames are the first of them. -/
theorem transfers (h : Stage peer (d .dialer) (d .listener)) (side : Side) :
    (d side).transfersHeard = [] ∨ ∃ s, (d side.other).node.session (peer side.other) = some s ∧
      List.Forall₂ (Opened S s.sendKey) (d side).transfersHeard
        ((d side.other).transferFrames.take (d side).transfersHeard.length) := by
  have hnothing : (d .dialer).heard = [] ∧ (d .listener).heard = [] →
      (d side).transfersHeard = [] := by
    rintro ⟨hdialer, hlistener⟩
    cases side with
    | dialer => rw [Party.transfersHeard, hdialer, List.filter_nil]
    | listener => rw [Party.transfersHeard, hlistener, List.filter_nil]
  cases h with
  | greeted _ _ _ _ _ _ _ hheard => exact .inl (hnothing hheard)
  | answered _ _ _ _ _ _ _ _ _ _ _ hheard => exact .inl (hnothing hheard)
  | confirmed _ _ _ _ _ _ _ _ _ _ _ _ _ _ hheard => exact .inl (hnothing hheard)
  | established msg1 msg2 msg3 own other framesD framesL hdialer hlistener _ hsent _ hflow hback =>
    cases side with
    | dialer =>
      have hframes : (d .listener).transferFrames = _ :=
        transferFrames_eq [greetingFrame msg2] hsent.2 (by simp)
      exact .inr ⟨other, hlistener, hframes ▸ hback.transfers.1⟩
    | listener =>
      have hframes : (d .dialer).transferFrames = _ :=
        transferFrames_eq [greetingFrame msg1, greetingFrame msg3] hsent.1 (by simp)
      exact .inr ⟨own, hdialer, hframes ▸ hflow.transfers.1⟩

/-- An end that has taken everything has dispatched all frames of the other manager. -/
theorem length_transfers (h : Stage peer (d .dialer) (d .listener)) (side : Side)
    {s : SecureSession} (hs : (d side.other).node.session (peer side.other) = some s)
    (hall : (d side.other).sent.length < (d side).taken) :
    (d side).transfersHeard.length = (d side.other).transferFrames.length := by
  cases h with
  | greeted _ _ a1 _ hdialer hlistener =>
    cases side with
    | dialer =>
      have hnone : (d .listener).node.session (peer .listener) = none := by
        rcases hlistener with ⟨-, hlookup⟩ | ⟨-, hlookup⟩
        · rw [ControlPlane.session, hlookup]
          rfl
        · exact session_eq_none hlookup rfl
      cases hnone.symm.trans hs
    | listener => cases (session_eq_none hdialer rfl).symm.trans hs
  | answered _ _ _ _ _ _ _ _ hdialer hlistener =>
    cases side with
    | dialer => cases (session_eq_none hlistener rfl).symm.trans hs
    | listener => cases (session_eq_none hdialer rfl).symm.trans hs
  | confirmed _ _ _ _ _ _ _ _ _ _ _ hlistener _ hsent _ htaken =>
    cases side with
    | dialer => cases (session_eq_none hlistener rfl).symm.trans hs
    | listener =>
      simp only [Side.other] at hall
      rw [hsent.1, htaken.2, List.length_cons, List.length_cons] at hall
      omega
  | established msg1 msg2 msg3 own other framesD framesL _ _ _ hsent htaken hflow hback =>
    cases side with
    | dialer =>
      have hframes : (d .listener).transferFrames = _ :=
        transferFrames_eq [greetingFrame msg2] hsent.2 (by simp)
      simp only [Side.other] at hall ⊢
      rw [hsent.2, htaken.1, List.length_cons] at hall
      have hle := hback.length_le
      rw [hframes]
      exact hback.transfers.2 (by omega)
    | listener =>
      have hframes : (d .dialer).transferFrames = _ :=
        transferFrames_eq [greetingFrame msg1, greetingFrame msg3] hsent.1 (by simp)
      simp only [Side.other] at hall ⊢
      rw [hsent.1, htaken.2, List.length_cons, List.length_cons] at hall
      have hle := hflow.length_le
      rw [hframes]
      exact hflow.transfers.2 (by omega)

end Stage

end CekyP2P.Node
