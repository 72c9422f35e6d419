import CekyP2P.Node.Dialogue

/-!
# Text messages between two nodes

The texts that one node was asked to send to the other, and the texts that the other has reported.
A text is encrypted once, by the iteration that handles its command, and reported once, by the
iteration that takes its frame.
-/

namespace CekyP2P.Node

open Crypto Dht Protocol FrameCodec Transfer Transport Endpoint

variable {σ : Type} {S : Suite UInt8 σ} {F : Type} {f64 : F64 F}

/-- The text that a payload is reported as. -/
def Dispatch.text (d : Dispatch) : Option String :=
  if d.msgType = .data then String.fromUTF8? ⟨d.data.toArray⟩ else none

namespace ControlPlane

variable {addr : SocketAddr} {scope : List SocketAddr} {input : Input} {heard : Option Dispatch}
  {calls : List SealCall}
  {n n' : ControlPlane S F}

/-! ## What an iteration reports -/

/-- A message is reported only where its frame has come. -/
theorem Emitted.exists_frame {output : Output} (h : Emitted S F input heard output) {text : String}
    (htext : output.textFrom addr = some text) :
    ∃ frame, input = .event (.frameReceived addr frame) ∧ frame.header.msgType = .data := by
  cases h with
  | report _ hreport =>
    cases output with
    | apiEvent event =>
      cases event with
      | messageReceived a message =>
        obtain rfl : a = addr := (Option.ite_none_right_eq_some.mp htext).1
        exact hreport
      | _ => cases htext
    | _ => cases htext
  | _ => cases htext

/-- An iteration whose input is no text message of a peer reports none. -/
theorem reports_nothing {env : Env σ}
    (hinput : ∀ frame, input = .event (.frameReceived addr frame) → frame.header.msgType ≠ .data)
    {outputs : List Output}
    (houtbox : (Exec.stateAfter (step f64 env input n)).outbox = n.outbox ++ outputs) :
    outputs.filterMap (Output.textFrom addr) = [] := by
  refine List.filterMap_eq_nil_iff.mpr fun output hmem => ?_
  cases htext : output.textFrom addr with
  | none => rfl
  | some text =>
    obtain ⟨frame, hframe, htype⟩ := (emitted_of_step houtbox output hmem).exists_frame htext
    exact absurd htype (hinput frame hframe)

/-- What is reported of a frame is what was dispatched. -/
theorem reports_of_frame {env : Env σ} {frame : Frame} {outputs : List Output}
    (houtbox : (Exec.stateAfter (step f64 env (.event (.frameReceived addr frame)) n)).outbox =
      n.outbox ++ outputs) :
    outputs.filterMap (Output.textFrom addr) =
      (n.dispatched (.event (.frameReceived addr frame))).toList.filterMap Dispatch.text := by
  by_cases htype : frame.header.msgType = .data
  case neg =>
    rw [reports_nothing (fun frame' heq => by cases heq; exact htype) houtbox]
    refine (List.filterMap_eq_nil_iff.mpr fun d hd => ?_).symm
    obtain ⟨_, _, _, ⟨⟩, -, -, -, -, -, hd⟩ := exists_of_dispatched (Option.mem_toList.mp hd)
    rw [Dispatch.text, if_neg (hd ▸ htype)]
  case pos =>
    cases hdispatched : n.dispatched (.event (.frameReceived addr frame)) with
    | none =>
      have hmsg : frame.header.msgType ≠ .handshake := by
        rw [htype]
        exact MessageType.noConfusion
      obtain ⟨states, hstep⟩ : ∃ states, step f64 env (.event (.frameReceived addr frame)) n =
          .ok () { n with peerStates := states } := step_of_not_dispatched env hmsg hdispatched
      rw [hstep] at houtbox
      obtain rfl : outputs = [] := List.append_right_eq_self.mp houtbox.symm
      rfl
    | some d =>
      obtain ⟨_, _, _, ⟨⟩, -, -, -, -, -, hd⟩ := exists_of_dispatched hdispatched
      obtain ⟨session, -, hstep⟩ : ∃ session, n.session addr = some session ∧
          step f64 env (.event (.frameReceived addr frame)) n = _ :=
        step_of_dispatched env hdispatched
      rw [hd, htype] at hstep
      rw [hstep] at houtbox
      change (Exec.stateAfter (handleData addr d.data _)).outbox = _ at houtbox
      rw [handleData] at houtbox
      have htext : d.text = String.fromUTF8? ⟨d.data.toArray⟩ := by
        rw [Dispatch.text, if_pos (hd.trans htype)]
      rw [Option.toList_some, List.filterMap_cons, htext]
      cases hutf8 : String.fromUTF8? ⟨d.data.toArray⟩ with
      | none =>
        rw [hutf8] at houtbox
        obtain rfl : outputs = [] := List.append_right_eq_self.mp houtbox.symm
        rfl
      | some message =>
        rw [hutf8] at houtbox
        obtain rfl : [.apiEvent (.messageReceived addr message)] = outputs :=
          List.append_cancel_left houtbox
        simp [Output.textFrom]

/-! ## What an iteration sends as text -/

/-- Where an input has no text, nothing is sent as text. -/
theorem sends_no_text {env : Env σ} (hnone : input.text = none) (htyped : input.Typed)
    {outputs : List Output}
    (houtbox : (Exec.stateAfter (step f64 env input n)).outbox = n.outbox ++ outputs) :
    ∀ f ∈ sentTo addr outputs, f.header.msgType ≠ .data := by
  intro f hf hdata
  rcases origin_of_sent houtbox hf with htype | htype | ⟨m, data, horigin⟩
  · exact MessageType.noConfusion (htype.symm.trans hdata)
  · exact MessageType.noConfusion (htype.symm.trans hdata)
  · rw [hdata] at horigin
    obtain ⟨text, htext, -⟩ := horigin.exists_text htyped
    cases hnone.symm.trans htext

end ControlPlane

/-! ## The texts of one end -/

namespace Party

variable {peer : SocketAddr} {env : Env σ} {input : Input} {p : Party S F}

/-- The frames that carry text messages. -/
def textFrames (p : Party S F) : List Frame := p.sent.filter (·.header.msgType = .data)

/-- Every text that was asked for is in a frame of its own, in order, and what was dispatched as
text was reported. -/
structure Texts (peer : SocketAddr) (p : Party S F) : Prop where
  asked : ∀ s ∈ p.node.session peer, List.Forall₂
    (fun text f => Encrypts S (s.sendKey, f) (utf8Bytes text)) p.asked p.textFrames
  none_asked : p.node.session peer = none → p.asked = [] ∧ p.textFrames = []
  reported : p.reported = p.heard.filterMap Dispatch.text

/-- What a side was asked to send after an iteration. -/
theorem asked_iterate {outputs : List Output}
    (h : (Exec.stateAfter (ControlPlane.step f64 env input p.node)).outbox =
      p.node.outbox ++ outputs) :
    (p.iterate f64 peer env input).asked = p.asked ++ input.textTo peer outputs := by
  simp only [iterate, h, List.drop_left]

/-- What a side has reported after an iteration. -/
theorem reported_iterate {outputs : List Output}
    (h : (Exec.stateAfter (ControlPlane.step f64 env input p.node)).outbox =
      p.node.outbox ++ outputs) :
    (p.iterate f64 peer env input).reported =
      p.reported ++ outputs.filterMap (Output.textFrom peer) := by
  simp only [iterate, h, List.drop_left]

/-- The texts that a side has sent after an iteration. -/
theorem textFrames_iterate {outputs : List Output}
    (h : (Exec.stateAfter (ControlPlane.step f64 env input p.node)).outbox =
      p.node.outbox ++ outputs) :
    (p.iterate f64 peer env input).textFrames =
      p.textFrames ++ (sentTo peer outputs).filter (·.header.msgType = .data) := by
  rw [textFrames, sent_iterate h, List.filter_append, List.filter_filter]
  congr 2
  funext f
  by_cases htype : f.header.msgType = .data
  · simp [Forwarded, htype]
  · simp [htype]

/-- The loop does something else. A command for a message makes one frame of its text. -/
theorem Texts.loop (h : Texts peer p) (houtside : Outside peer input)
    (hcount : ControlPlane.CountsOn peer p.node) : Texts peer (p.iterate f64 peer env input) := by
  have hended : peer ∉ input.ended := fun hmem => houtside.unmet (Input.mem_meets_of_mem_ended hmem)
  have hunmet : ∀ frame, input = .event (.frameReceived peer frame) →
      frame.header.msgType ≠ .data := by
    rintro frame rfl
    exact absurd (List.mem_singleton_self _) houtside.unmet
  have hreported : (p.iterate f64 peer env input).reported = p.reported := by
    obtain ⟨outputs, houtbox, -⟩ := ControlPlane.emits_step f64 env input p.node
    rw [reported_iterate houtbox, ControlPlane.reports_nothing hunmet houtbox, List.append_nil]
  cases hsession : p.node.session peer with
  | none =>
    obtain ⟨hstate, outputs, houtbox, hquiet⟩ : ControlPlane.Waits peer p.node
        (Exec.stateAfter (ControlPlane.step f64 env input p.node)) :=
      ControlPlane.waits_step env houtside.unmet hsession
    have hsent : sentTo peer outputs = [] := List.filterMap_eq_nil_iff.mpr hquiet
    have hafter : (p.iterate f64 peer env input).node.session peer = none := by
      rw [← hsession, ControlPlane.session, ControlPlane.session, ← hstate]
      rfl
    refine ⟨fun s hs => ?_, fun _ => ?_, hreported.trans h.reported⟩
    · rw [hafter] at hs
      cases hs
    · rw [asked_iterate houtbox, textFrames_iterate houtbox, hsent, Input.textTo, hsent]
      simpa using h.none_asked hsession
  | some s =>
    obtain ⟨s', outputs, hs', houtbox, ⟨count, hle, hcarried⟩, hvoiced, -⟩ :=
      ControlPlane.session_step f64 env hended houtside.typed hcount hsession
    refine ⟨fun s'' hs'' => ?_, fun hnone => ?_, hreported.trans h.reported⟩
    · cases hs'.symm.trans hs''
      rw [asked_iterate houtbox, textFrames_iterate houtbox, hcarried.sendKey_eq]
      refine List.rel_append (h.asked s hsession) ?_
      have hlength := hcarried.length_le.trans hle
      rw [Input.textTo]
      rcases hframes : sentTo peer outputs with _ | ⟨f, _ | ⟨g, rest⟩⟩
      · exact .nil
      · by_cases htype : f.header.msgType = .data
        · obtain ⟨text, htext, hencrypts⟩ :=
            (hvoiced f (by rw [hframes]; exact List.mem_cons_self)).text htype
          simpa [htype, htext] using hencrypts
        · simp [htype]
      · rw [hframes] at hlength
        simp at hlength
    · cases hs'.symm.trans hnone

/-- The loop takes an event of the connection. -/
theorem Texts.take (h : Texts peer p) {event : TransportEvent}
    (hevent : event = .connected peer ∨ ∃ frame, event = .frameReceived peer frame)
    (hcount : ControlPlane.CountsOn peer p.node) : Texts peer (p.take f64 peer env event) := by
  obtain ⟨hended, htext, htyped⟩ : peer ∉ (Input.event event).ended ∧
      (Input.event event).text = none ∧ (Input.event event).Typed := by
    rcases hevent with rfl | ⟨frame, rfl⟩
    · exact ⟨List.not_mem_nil, rfl, trivial⟩
    · exact ⟨List.not_mem_nil, rfl, trivial⟩
  obtain ⟨outputs, houtbox, -⟩ := ControlPlane.emits_step f64 env (.event event) p.node
  have hasked : (p.take f64 peer env event).asked = p.asked := by
    refine (asked_iterate houtbox).trans ?_
    rw [Input.textTo, htext]
    simp
  have hframes : (p.take f64 peer env event).textFrames = p.textFrames := by
    refine (textFrames_iterate houtbox).trans ?_
    have hnone : (sentTo peer outputs).filter (·.header.msgType = .data) = [] :=
      List.filter_eq_nil_iff.mpr fun f hf => by
        simpa using ControlPlane.sends_no_text htext htyped houtbox f hf
    rw [hnone, List.append_nil]
  have hreported : (p.take f64 peer env event).reported =
      (p.take f64 peer env event).heard.filterMap Dispatch.text := by
    refine (reported_iterate houtbox).trans ?_
    rw [h.reported, Party.take, List.filterMap_append]
    congr 1
    rcases hevent with rfl | ⟨frame, rfl⟩
    · exact ControlPlane.reports_nothing (fun _ heq => by cases heq) houtbox
    · exact ControlPlane.reports_of_frame houtbox
  refine ⟨fun s' hs' => ?_, fun hnone => ?_, hreported⟩
  · rw [hasked, hframes]
    cases hsession : p.node.session peer with
    | none =>
      rw [(h.none_asked hsession).1, (h.none_asked hsession).2]
      exact .nil
    | some s =>
      obtain ⟨s'', outputs', hs'', -, ⟨count, -, hcarried⟩, -⟩ :=
        ControlPlane.session_step f64 env hended htyped hcount hsession
      cases hs''.symm.trans hs'
      rw [hcarried.sendKey_eq]
      exact h.asked s hsession
  · rw [hasked, hframes]
    refine h.none_asked (Option.eq_none_iff_forall_not_mem.mpr fun s hs => ?_)
    obtain ⟨s', outputs', hs', -⟩ :=
      ControlPlane.session_step f64 env hended htyped hcount hs
    cases hs'.symm.trans hnone

end Party

/-! ## Both ends -/

variable {crc : Crc32c} {peer : Side → SocketAddr} {env : Env σ}
  {nodes : Side → ControlPlane S F} {d d' : Side → Party S F}

/-- What was dispatched of some frames has the texts that were asked for, as far as they are in
these frames. -/
theorem exists_asked_of_opened (hS : S.aead.Lawful) {key : Vector UInt8 32} {heard : List Dispatch}
    {frames rest : List Frame} (h : List.Forall₂ (Opened S key) heard frames) {asked : List String}
    (hasked : List.Forall₂ (fun text f => Encrypts S (key, f) (utf8Bytes text)) asked
      (frames.filter (·.header.msgType = .data) ++ rest)) :
    ∃ later, asked = heard.filterMap Dispatch.text ++ later ∧ later.length = rest.length := by
  induction h generalizing asked with
  | nil => exact ⟨asked, rfl, hasked.length_eq⟩
  | @cons d f heard frames hopened _ ih =>
    by_cases htype : f.header.msgType = .data
    · rw [List.filter_cons_of_pos (by simpa using htype), List.cons_append] at hasked
      obtain ⟨text, asked, hencrypts, hrest, rfl⟩ := List.forall₂_cons_right_iff.mp hasked
      obtain ⟨later, rfl, hlength⟩ := ih hrest
      have hdata : d.data = utf8Bytes text :=
        Option.some_inj.mp ((hS.decrypt_encrypt hopened.encrypts).symm.trans
          (hS.decrypt_encrypt hencrypts))
      have htext : d.text = some text := by
        rw [Dispatch.text, if_pos (hopened.msgType_eq.trans htype)]
        exact fromUTF8?_eq_some.mpr hdata
      rw [List.filterMap_cons_some htext]
      exact ⟨later, rfl, hlength⟩
    · rw [List.filter_cons_of_neg (by simpa using htype)] at hasked
      have htext : d.text = none := by
        rw [Dispatch.text, if_neg (hopened.msgType_eq ▸ htype)]
      rw [List.filterMap_cons_none htext]
      exact ih hasked

/-- The frames of a session that an end has sent. -/
def Party.secureFrames (p : Party S F) : List Frame :=
  p.sent.filter (·.header.flags.isEncrypted)

/-- What one end has heard of the other: the contents of its first frames, and its first texts. -/
structure Hears (p q : Party S F) : Prop where
  opened : ∃ key, List.Forall₂ (Opened S key) q.heard (p.secureFrames.take q.heard.length)
  texts : q.reported <+: p.asked

/-- A side that has heard nothing has reported nothing. -/
theorem hears_of_nothing {p q : Party S F} {addr : SocketAddr} (htexts : q.Texts addr)
    (hheard : q.heard = []) : Hears p q := by
  refine ⟨⟨Vector.replicate 32 0, ?_⟩, ?_⟩
  · rw [hheard]
    exact .nil
  · rw [htexts.reported, hheard]
    exact List.nil_prefix

/-- One direction of an established session. -/
theorem Flow.hears (hS : S.aead.Lawful) {src dst : SecureSession} {frames : List Frame}
    {p q : Party S F} {addr addr' : SocketAddr} (h : Flow S src dst frames q.heard)
    (hsession : p.node.session addr = some src) (hellos : List Frame)
    (hsent : p.sent = hellos ++ frames)
    (hhellos : ∀ f ∈ hellos, ∃ message, f = greetingFrame message) (hp : p.Texts addr)
    (hq : q.Texts addr') :
    p.secureFrames = frames ∧ Hears p q ∧
      (q.heard.length = frames.length → q.reported = p.asked) := by
  have hsecure : p.secureFrames = frames := by
    have hnone : hellos.filter (·.header.flags.isEncrypted) = [] := by
      refine List.filter_eq_nil_iff.mpr fun f hf => ?_
      obtain ⟨message, rfl⟩ := hhellos f hf
      exact (by decide : ¬Flags.empty.isEncrypted = true)
    rw [Party.secureFrames, hsent, List.filter_append, hnone, List.nil_append]
    exact List.filter_eq_self.mpr fun f hf => (h.sealed f hf).1
  have htext : p.textFrames = (frames.take q.heard.length).filter (·.header.msgType = .data) ++
      (frames.drop q.heard.length).filter (·.header.msgType = .data) := by
    have hnone : hellos.filter (·.header.msgType = .data) = [] := by
      refine List.filter_eq_nil_iff.mpr fun f hf => ?_
      obtain ⟨message, rfl⟩ := hhellos f hf
      simp [greetingFrame, Frame.new]
    rw [← List.filter_append, List.take_append_drop, Party.textFrames, hsent, List.filter_append,
      hnone, List.nil_append]
  have hasked := hp.asked src hsession
  rw [htext] at hasked
  obtain ⟨later, heq, hlater⟩ := exists_asked_of_opened hS h.opened hasked
  rw [← hq.reported] at heq
  refine ⟨hsecure, ⟨⟨src.sendKey, ?_⟩, later, heq.symm⟩, fun hall => ?_⟩
  · rw [hsecure]
    exact h.opened
  · rw [hall, List.drop_length, List.filter_nil, List.length_nil, List.length_eq_zero_iff] at hlater
    rw [heq, hlater, List.append_nil]

/-- One of two things, for either side. -/
def eitherSide {α : Type} (a b : α) : Side → α
  | .dialer => a
  | .listener => b

namespace Stage

/-- At every stage, either end has heard the beginning of what the other has sent. -/
theorem hears (hS : S.aead.Lawful) (h : Stage peer (d .dialer) (d .listener))
    (htexts : ∀ side, (d side).Texts (peer side)) (side : Side) :
    Hears (d side.other) (d side) := by
  have hnothing : (d .dialer).heard = [] ∧ (d .listener).heard = [] →
      Hears (d side.other) (d side) := by
    rintro ⟨hdialer, hlistener⟩
    cases side with
    | dialer => exact hears_of_nothing (htexts .dialer) hdialer
    | listener => exact hears_of_nothing (htexts .listener) hlistener
  cases h with
  | greeted _ _ _ _ _ _ _ hheard => exact hnothing hheard
  | answered _ _ _ _ _ _ _ _ _ _ _ hheard => exact hnothing hheard
  | confirmed _ _ _ _ _ _ _ _ _ _ _ _ _ _ hheard => exact hnothing hheard
  | established msg1 msg2 msg3 own other framesD framesL hdialer hlistener _ hsent _ hflow hback =>
    cases side with
    | dialer =>
      exact (hback.hears hS hlistener [greetingFrame msg2] hsent.2 (by simp)
        (htexts .listener) (htexts .dialer)).2.1
    | listener =>
      exact (hflow.hears hS hdialer [greetingFrame msg1, greetingFrame msg3] hsent.1
        (by simp) (htexts .dialer) (htexts .listener)).2.1

/-- Once both ends have taken everything, they have a session, and everything was heard. -/
theorem complete (hS : S.aead.Lawful) (h : Stage peer (d .dialer) (d .listener))
    (htexts : ∀ side, (d side).Texts (peer side))
    (hall : ∀ side, (d side.other).sent.length < (d side).taken) :
    ∃ session : Side → SecureSession, ∀ side,
      (d side).node.session (peer side) = some (session side) ∧
      (session side).sendKey = (session side.other).recvKey ∧
      (session side).remoteStatic = (d side.other).node.identity.x25519PublicKey ∧
      (d side).heard.length = (d side.other).secureFrames.length ∧
      (d side).reported = (d side.other).asked := by
  have hD := hall .dialer
  have hL := hall .listener
  simp only [Side.other] at hD hL
  cases h with
  | greeted _ _ _ _ _ hlistener hsent _ htaken =>
    rw [hsent.1, List.length_singleton] at hL
    rcases hlistener with ⟨hzero, -⟩ | ⟨hone, -⟩ <;> omega
  | answered _ _ _ _ _ _ _ _ _ _ hsent _ htaken =>
    rw [hsent.2, List.length_singleton] at hD
    omega
  | confirmed _ _ _ _ _ _ _ _ _ _ _ _ _ hsent _ htaken =>
    rw [hsent.1, List.length_cons, List.length_cons] at hL
    omega
  | established msg1 msg2 msg3 own other framesD framesL hdialer hlistener hstatic hsent htaken
      hflow hback =>
    obtain ⟨hsecureL, -, hreportedD⟩ := hback.hears hS hlistener
      [greetingFrame msg2] hsent.2 (by simp) (htexts .listener) (htexts .dialer)
    obtain ⟨hsecureD, -, hreportedL⟩ := hflow.hears hS hdialer
      [greetingFrame msg1, greetingFrame msg3] hsent.1 (by simp) (htexts .dialer)
      (htexts .listener)
    rw [hsent.2, List.length_cons] at hD
    rw [hsent.1, List.length_cons, List.length_cons] at hL
    have hheardD : (d .dialer).heard.length = framesL.length := by
      have := hback.length_le
      omega
    have hheardL : (d .listener).heard.length = framesD.length := by
      have := hflow.length_le
      omega
    refine ⟨eitherSide own other, fun side => ?_⟩
    cases side with
    | dialer =>
      exact ⟨hdialer, hflow.key_eq.symm, hstatic.1, hheardD.trans (by rw [← hsecureL]; rfl),
        hreportedD hheardD⟩
    | listener =>
      exact ⟨hlistener, hback.key_eq.symm, hstatic.2, hheardL.trans (by rw [← hsecureD]; rfl),
        hreportedL hheardL⟩

end Stage

end CekyP2P.Node
