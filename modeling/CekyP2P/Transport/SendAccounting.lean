import CekyP2P.Transport.Lifecycle

/-!
# The statistics of what was sent

`send_to` counts a frame when it has put it into the write channel, with no bytes, and the writer
counts every frame with its bytes when it has written it. A frame of `broadcast` and a pong are
counted by the writer alone. The books of a connection say what the two counters of its pool
entry are at any time, as long as no other connection shares the entry.
-/

namespace CekyP2P.Transport

open Protocol FrameCodec Transfer

namespace Phase

/-- The pool entry is there for this connection. -/
def isPooled : Phase → Bool
  | removed | finished => false
  | _ => true

/-- The sender may be registered. -/
def isRegistered : Phase → Bool
  | reading | exited => true
  | _ => false

/-- A registered connection has its entry. -/
theorem isPooled_of_isRegistered {phase : Phase} (h : phase.isRegistered) : phase.isPooled := by
  cases phase <;> first | rfl | cases h

end Phase

/-- The frames among these that came through `send_to`. -/
def viaSendTo (frames : List (Via × Frame)) : Nat := frames.countP (·.1 = .sendTo)

/-- The wire sizes of these frames. -/
def wireBytes (frames : List (Via × Frame)) : Nat := (frames.map (·.2.wireSize)).sum

namespace Connection

/-- The writer has written and counted all it was given, without a write error. -/
def Drained (c : Connection) : Prop :=
  c.queue = [] ∧ c.recording = none ∧ c.writeError = false

instance : DecidablePred Drained := fun _ => inferInstanceAs (Decidable (_ ∧ _))

/-- A connection with an entry is not done. -/
theorem not_done_of_isPooled {c : Connection} (h : c.phase.isPooled) : ¬ c.Done := by
  intro hdone
  rw [show c.phase = .finished from hdone.1] at h
  cases h

end Connection

namespace TcpTransport

variable {crc : Crc32c} {t t' : TcpTransport} {st : TransportStep} {i : Nat} {c : Connection}

/-! ## What is kept under an address -/

/-- A sender and a pool entry are there for a connection, and a `send_to` holds a sender. -/
structure Registry (t : TcpTransport) : Prop where
  sender : ∀ addr i, t.sender addr = some i →
    ∃ c, t.connections[i]? = some c ∧ c.peerAddr = addr ∧ c.phase.isRegistered
  sending : ∀ addr ∈ t.sending, t.sender addr ≠ none
  pooled : ∀ addr, t.pool.entry addr ≠ none →
    ∃ i : Nat, ∃ c, t.connections[i]? = some c ∧ c.peerAddr = addr ∧ c.phase.isPooled

/-- A new transport has nothing registered. -/
theorem registry_new (maxConnections : UInt64) : (new maxConnections).Registry where
  sender _ _ h := by cases h
  sending _ h := by cases h
  pooled addr h := absurd (ConnectionPool.entry_new maxConnections addr) h

namespace Registry

/-- The registry depends on connections, senders and entries. -/
theorem congr (h : t.Registry) (hconnections : t'.connections = t.connections)
    (hsenders : t'.peerSenders = t.peerSenders) (hsending : t'.sending ⊆ t.sending)
    (hentry : ∀ addr, t'.pool.entry addr ≠ none → t.pool.entry addr ≠ none) : t'.Registry where
  sender addr i hsender := by
    rw [hconnections]
    exact h.sender addr i (by rwa [TcpTransport.sender, hsenders] at hsender)
  sending addr hmem := by
    rw [TcpTransport.sender, hsenders]
    exact h.sending addr (hsending hmem)
  pooled addr hne := by
    rw [hconnections]
    exact h.pooled addr (hentry addr hne)

/-- An event leaves the registry. -/
theorem emit (h : t.Registry) (event : TransportEvent) : (t.emit event).Registry :=
  h.congr rfl rfl (List.Subset.refl _) fun _ => id

/-- A change of an entry leaves the registry. -/
theorem withConnection (h : t.Registry) (peerAddr : SocketAddr)
    (f : ConnectionInfo → ConnectionInfo) : (t.withConnection peerAddr f).Registry := by
  refine h.congr rfl rfl (List.Subset.refl _) fun addr hne hnone => hne ?_
  refine (ConnectionPool.entry_withConnection f t.pool peerAddr addr).trans ?_
  rw [hnone, Option.map_none, ite_self]

/-- An entry may leave the pool. -/
theorem leavePool (h : t.Registry) (peerAddr : SocketAddr) : (t.leavePool peerAddr).Registry := by
  refine h.congr rfl rfl (List.Subset.refl _) fun addr hne hnone => hne ?_
  refine (ConnectionPool.entry_remove t.pool peerAddr addr).trans ?_
  rw [hnone, ite_self]

/-- An entry may enter the pool. -/
theorem enterPool (h : t.Registry) (peerAddr : SocketAddr) :
    (t.enterPool peerAddr).Registry where
  sender addr i hi := by
    obtain ⟨c, hc, hc'⟩ := h.sender addr i hi
    exact ⟨c, getElem?_snoc_of_some hc, hc'⟩
  sending := h.sending
  pooled addr hne := by
    by_cases haddr : addr = peerAddr
    · exact ⟨_, .fresh peerAddr, List.getElem?_concat_length, haddr.symm, rfl⟩
    · rw [entry_enterPool, if_neg haddr] at hne
      obtain ⟨i, c, hc, hc'⟩ := h.pooled addr hne
      exact ⟨i, c, getElem?_snoc_of_some hc, hc'⟩

/-- The sender of a connection is registered. -/
theorem register (h : t.Registry) (hc : t.connections[i]? = some c)
    (hphase : c.phase.isRegistered) : (t.register c.peerAddr i).Registry where
  sender addr j hj := by
    rw [sender_register] at hj
    split at hj
    case isTrue haddr =>
      cases hj
      exact ⟨c, hc, haddr.symm, hphase⟩
    case isFalse => exact h.sender addr j hj
  sending addr hmem := by
    rw [sender_register]
    split
    case isTrue => nofun
    case isFalse => exact h.sending addr hmem
  pooled := h.pooled

/-- A sender that nothing uses is unregistered. -/
theorem unregister (h : t.Registry) {peerAddr : SocketAddr} (hfree : peerAddr ∉ t.sending) :
    (t.unregister peerAddr).Registry where
  sender addr i hsender := by
    rw [sender_unregister] at hsender
    split at hsender
    case isTrue => cases hsender
    case isFalse => exact h.sender addr i hsender
  sending addr hmem := by
    have hne : addr ≠ peerAddr := ne_of_mem_of_not_mem hmem hfree
    rw [sender_unregister, if_neg hne]
    exact h.sending addr hmem
  pooled := h.pooled

/-- A connection changes and keeps what is there for it. -/
theorem update (h : t.Registry) {f : Connection → Connection}
    (hpeer : ∀ c, (f c).peerAddr = c.peerAddr)
    (hsender : ∀ c, t.connections[i]? = some c → t.sender c.peerAddr = some i →
      (f c).phase.isRegistered)
    (hpooled : ∀ c, t.connections[i]? = some c → t.pool.entry c.peerAddr ≠ none →
      c.phase.isPooled → (f c).phase.isPooled) : (t.update i f).Registry := by
  have hother : ∀ j, j ≠ i → (t.update i f).connections[j]? = t.connections[j]? := fun j hne => by
    rw [TcpTransport.update, List.getElem?_modify_ne _ _ hne.symm]
  constructor
  case sender =>
    intro addr j hj
    obtain ⟨d, hd, rfl, hregistered⟩ := h.sender addr j hj
    by_cases hji : j = i
    · subst hji
      exact ⟨f d, getElem?_update_self hd f, hpeer d, hsender d hd hj⟩
    · exact ⟨d, (hother j hji).trans hd, rfl, hregistered⟩
  case sending => exact h.sending
  case pooled =>
    intro addr hne
    obtain ⟨j, d, hd, rfl, hd'⟩ := h.pooled addr hne
    by_cases hji : j = i
    · subst hji
      exact ⟨j, f d, getElem?_update_self hd f, hpeer d, hpooled d hd hne hd'⟩
    · exact ⟨j, d, (hother j hji).trans hd, rfl, hd'⟩

/-- A registered sender belongs to a connection in one of two phases. -/
theorem isRegistered (h : t.Registry) (hc : t.connections[i]? = some c) {addr : SocketAddr}
    (hsender : t.sender addr = some i) : c.peerAddr = addr ∧ c.phase.isRegistered := by
  obtain ⟨d, hd, hd'⟩ := h.sender addr i hsender
  obtain rfl := Option.some.inj (hc.symm.trans hd)
  exact hd'

/-- Where every connection to an address is over, nothing is kept under the address. -/
theorem unused (h : t.Registry) {peerAddr : SocketAddr}
    (hend : ∀ d ∈ t.connections, d.peerAddr = peerAddr → d.Done) :
    t.pool.entry peerAddr = none ∧ peerAddr ∉ t.sending := by
  constructor
  · by_contra hne
    obtain ⟨j, d, hd, hpeer, hpooled⟩ := h.pooled peerAddr hne
    exact Connection.not_done_of_isPooled hpooled (hend d (List.mem_of_getElem? hd) hpeer)
  · intro hmem
    obtain ⟨j, hj⟩ := Option.ne_none_iff_exists'.mp (h.sending peerAddr hmem)
    obtain ⟨d, hd, hpeer, hregistered⟩ := h.sender peerAddr j hj
    exact Connection.not_done_of_isPooled (Phase.isPooled_of_isRegistered hregistered)
      (hend d (List.mem_of_getElem? hd) hpeer)

/-- A connection changes and stays in its phase. -/
theorem update_of_phase (h : t.Registry) {f : Connection → Connection}
    (hpeer : ∀ c, (f c).peerAddr = c.peerAddr) (hphase : ∀ c, (f c).phase = c.phase) :
    (t.update i f).Registry := by
  refine h.update hpeer (fun c hc hsender => ?_) fun c _ _ hpooled => hphase c ▸ hpooled
  exact hphase c ▸ (h.isRegistered hc hsender).2

/-- A connection without a registered sender moves on, and keeps its pool entry. -/
theorem setPhase (h : t.Registry) (hc : t.connections[i]? = some c) {phase : Phase}
    (hsender : c.phase.isRegistered = false) (hpooled : c.phase.isPooled → phase.isPooled) :
    (t.update i (.setPhase phase)).Registry := by
  have heq : ∀ d, t.connections[i]? = some d → d = c := fun d hd =>
    Option.some.inj (hd.symm.trans hc)
  refine h.update (fun _ => rfl) (fun d hd hi => ?_) fun d hd _ => heq d hd ▸ hpooled
  have hregistered := (h.isRegistered hc (heq d hd ▸ hi)).2
  rw [hsender] at hregistered
  cases hregistered

/-- Queuing a frame leaves the registry. -/
theorem offer (h : t.Registry) (peerAddr : SocketAddr) (via : Via) (frame : Frame) :
    (t.offer peerAddr via frame).Registry := by
  rcases offer_eq peerAddr via frame t with heq | ⟨i, c, -, -, -, heq⟩
  · rw [heq]
    exact h
  · rw [heq]
    exact h.update_of_phase (fun _ => rfl) fun _ => rfl

/-- Handling a frame leaves the registry. -/
theorem handleFrame (h : t.Registry) (peerAddr : SocketAddr) (frame : Frame) :
    (t.handleFrame peerAddr frame).Registry := by
  unfold TcpTransport.handleFrame
  split
  case h_1 => exact h.offer peerAddr .autoPong _
  case h_2 => exact h.withConnection peerAddr _
  case h_3 => exact h.emit _

/-- An error leaves the registry. -/
theorem emitError (h : t.Registry) (peerAddr : SocketAddr) (error : Option ProtocolError) :
    (t.emitError peerAddr error).Registry := by
  cases error with
  | some error => exact h.emit _
  | none => exact h

/-- The reader of a connection takes its sender out of the registry. -/
theorem unregisterTask (h : t.Registry) (hc : t.connections[i]? = some c)
    (hfree : c.peerAddr ∉ t.sending) :
    ((t.unregister c.peerAddr).update i (.setPhase .unregistered)).Registry := by
  refine (h.unregister hfree).update (fun _ => rfl) (fun d hd hsender => ?_) fun _ _ _ _ => rfl
  obtain rfl := Option.some.inj (hc.symm.trans hd)
  rw [sender_unregister, if_pos rfl] at hsender
  cases hsender

/-- A closed connection has no sender, and its entry leaves the pool with it. -/
theorem removeEntry (h : t.Registry) (hc : t.connections[i]? = some c)
    (hphase : c.phase = .closed) :
    ((t.leavePool c.peerAddr).update i (.setPhase .removed)).Registry := by
  refine (h.leavePool c.peerAddr).update (fun _ => rfl) (fun d hd hsender => ?_) fun d hd hne => ?_
  · have hregistered := (h.isRegistered hd hsender).2
    obtain rfl := Option.some.inj (hc.symm.trans hd)
    rw [hphase] at hregistered
    cases hregistered
  · obtain rfl := Option.some.inj (hc.symm.trans hd)
    refine absurd ?_ hne
    exact (ConnectionPool.entry_remove t.pool c.peerAddr c.peerAddr).trans (if_pos rfl)

/-- A call of `send_to` found a sender, which it keeps from the others until it has recorded. -/
theorem send (h : t.Registry) {peerAddr : SocketAddr} (hsender : t.sender peerAddr = some i)
    (frame : Frame) :
    { t.update i (.push .sendTo frame) with sending := peerAddr :: t.sending }.Registry := by
  have h' : (t.update i (.push .sendTo frame)).Registry :=
    h.update_of_phase (fun _ => rfl) fun _ => rfl
  refine ⟨h'.sender, fun addr hmem => ?_, h'.pooled⟩
  rcases List.mem_cons.mp hmem with rfl | hmem
  · exact ne_of_eq_of_ne hsender nofun
  · exact h.sending addr hmem

/-- Every step keeps the registry. -/
theorem step (h : t.Registry) (hstep : t.Stepped st t') : t'.Registry := by
  cases hstep with
  | idle => exact h
  | connected => exact h.congr rfl rfl (List.Subset.refl _) fun _ => id
  | @inserted peerAddr =>
    have h' : { t with connecting := t.connecting.erase peerAddr }.Registry :=
      h.congr rfl rfl (List.Subset.refl _) fun _ => id
    exact h'.enterPool peerAddr
  | announced hc hphase =>
    exact (h.emit _).setPhase hc (by rw [hphase]; rfl) fun _ => rfl
  | established hc hphase =>
    exact (h.withConnection _ _).setPhase hc (by rw [hphase]; rfl) fun _ => rfl
  | @spawned i c hc =>
    have hspawn : (t.update i .spawn).Registry :=
      h.update (fun _ => rfl) (fun _ _ _ => rfl) fun _ _ _ _ => rfl
    have hregistered := hspawn.register (getElem?_update_self hc .spawn) rfl
    exact hregistered
  | received => exact (h.withConnection _ _).update_of_phase (fun _ => rfl) fun _ => rfl
  | handled => exact (h.handleFrame _ _).update_of_phase (fun _ => rfl) fun _ => rfl
  | @exited i c _ _ error =>
    exact (h.emitError _ error).update (fun _ => rfl) (fun _ _ _ => rfl) fun _ _ _ _ => rfl
  | unregistered hc _ hfree => exact h.unregisterTask hc hfree
  | closed hc hphase =>
    exact (h.withConnection _ _).setPhase hc (by rw [hphase]; rfl) fun _ => rfl
  | removed hc hphase => exact h.removeEntry hc hphase
  | finished hc hphase =>
    exact (h.emit _).setPhase hc (by rw [hphase]; rfl) (by rw [hphase]; nofun)
  | wrote | writerFailed | writerEnded => exact h.update_of_phase (fun _ => rfl) fun _ => rfl
  | recorded => exact (h.withConnection _ _).update_of_phase (fun _ => rfl) fun _ => rfl
  | sent hsender _ _ frame => exact h.send hsender frame
  | @sendRecorded peerAddr =>
    have h' : { t with sending := t.sending.erase peerAddr }.Registry :=
      h.congr rfl rfl List.erase_subset fun _ => id
    exact h'.withConnection peerAddr _
  | offered peerAddr frame => exact h.offer peerAddr .broadcast frame
  | @disconnected peerAddr hfree =>
    have h' : { t with disconnecting := peerAddr :: t.disconnecting }.Registry :=
      h.congr rfl rfl (List.Subset.refl _) fun _ => id
    exact h'.unregister hfree
  | @closing peerAddr =>
    have h' : { t with disconnecting := t.disconnecting.erase peerAddr }.Registry :=
      h.congr rfl rfl (List.Subset.refl _) fun _ => id
    exact h'.withConnection peerAddr _

end Registry

/-! ## The books of a connection -/

/-- What the counters of its pool entry are for a connection, apart from a frame that its writer
has still to count and from the calls of `send_to` that have still to count theirs. -/
def Balanced (t : TcpTransport) (c : Connection) : Prop :=
  c.writeError = false → ∀ info, t.pool.entry c.peerAddr = some info → ∃ bytes frames : Nat,
    info.bytesSent = .ofNat bytes ∧ info.framesSent = .ofNat frames ∧
    bytes + c.recording.getD 0 = wireBytes c.written ∧
    frames + c.recording.toList.length + t.sending.count c.peerAddr =
      c.written.length + viaSendTo c.written + viaSendTo c.queue

/-- The counters of every connection in the pool are balanced. -/
def Accounted (t : TcpTransport) : Prop :=
  ∀ (i : Nat) (c : Connection), t.connections[i]? = some c → c.phase.isPooled → t.Balanced c

@[simp] theorem viaSendTo_nil : viaSendTo [] = 0 := rfl

/-- Counting frames of `send_to` in two parts. -/
theorem viaSendTo_append (frames more : List (Via × Frame)) :
    viaSendTo (frames ++ more) = viaSendTo frames + viaSendTo more := List.countP_append

/-- Counting bytes in two parts. -/
theorem wireBytes_append (frames more : List (Via × Frame)) :
    wireBytes (frames ++ more) = wireBytes frames + wireBytes more := by
  rw [wireBytes, List.map_append, List.sum_append]
  rfl

/-- One frame. -/
theorem viaSendTo_singleton (via : Via) (frame : Frame) :
    viaSendTo [(via, frame)] = if via = .sendTo then 1 else 0 := by
  simp [viaSendTo, List.countP_cons]

/-- One frame more. -/
theorem viaSendTo_cons (via : Via) (frame : Frame) (frames : List (Via × Frame)) :
    viaSendTo ((via, frame) :: frames) = viaSendTo [(via, frame)] + viaSendTo frames :=
  viaSendTo_append [(via, frame)] frames

/-- Neither the writer nor a call of `send_to` has done anything. -/
structure SameBooks (c c' : Connection) : Prop where
  peerAddr_eq : c'.peerAddr = c.peerAddr
  writeError : c'.writeError = false → c.writeError = false
  recording_eq : c'.recording = c.recording
  written_eq : c'.written = c.written
  queue : c'.writeError = false → viaSendTo c'.queue = viaSendTo c.queue

/-- The books of a connection are its own. -/
theorem SameBooks.refl (c : Connection) : SameBooks c c := ⟨rfl, id, rfl, rfl, fun _ => rfl⟩

/-- What is counted as sent to a peer stays, if the peer has an entry at all. -/
def SameSent (addr : SocketAddr) (t t' : TcpTransport) : Prop :=
  ∀ info', t'.pool.entry addr = some info' → ∃ info, t.pool.entry addr = some info ∧
    info'.bytesSent = info.bytesSent ∧ info'.framesSent = info.framesSent

/-- The same entry has the same counters. -/
theorem sameSent_of_eq {addr : SocketAddr} (h : t'.pool.entry addr = t.pool.entry addr) :
    SameSent addr t t' := fun info' hinfo' => ⟨info', h ▸ hinfo', rfl, rfl⟩

/-- The balance depends on the books, the calls under way and the counters. -/
theorem Balanced.congr {c' : Connection} (h : t.Balanced c) (hbooks : SameBooks c c')
    (hsending : t'.sending.count c.peerAddr = t.sending.count c.peerAddr)
    (hsent : SameSent c.peerAddr t t') : t'.Balanced c' := by
  intro herror info' hinfo'
  rw [hbooks.peerAddr_eq] at hinfo'
  obtain ⟨info, hinfo, hbytes, hframes⟩ := hsent info' hinfo'
  rw [hbooks.peerAddr_eq, hbooks.recording_eq, hbooks.written_eq, hbooks.queue herror, hbytes,
    hframes, hsending]
  exact h (hbooks.writeError herror) info hinfo

namespace Accounted

/-- A connection changes, and its books with it. -/
theorem update (h : t.Accounted) {f : Connection → Connection}
    (hf : ∀ c, t.connections[i]? = some c → (f c).phase.isPooled → t.Balanced (f c)) :
    (t.update i f).Accounted := by
  intro j c' hc' hpooled
  obtain ⟨c, hc, ⟨-, rfl⟩ | ⟨rfl, rfl⟩⟩ := getElem?_update hc'
  · exact h j c' hc hpooled
  · exact hf c hc hpooled

/-- A connection changes, and its books do not. -/
theorem update_of_books (h : t.Accounted) (hc : t.connections[i]? = some c)
    {f : Connection → Connection} (hbooks : SameBooks c (f c))
    (hpooled : (f c).phase.isPooled → c.phase.isPooled) : (t.update i f).Accounted := by
  refine h.update fun d hd hd' => ?_
  obtain rfl := Option.some.inj (hc.symm.trans hd)
  exact (h i c hc (hpooled hd')).congr hbooks rfl (sameSent_of_eq rfl)

/-- A change of an entry that leaves the counters of what was sent. -/
theorem withConnection (h : t.Accounted) (peerAddr : SocketAddr)
    (f : ConnectionInfo → ConnectionInfo) (hbytes : ∀ info, (f info).bytesSent = info.bytesSent)
    (hframes : ∀ info, (f info).framesSent = info.framesSent) :
    (t.withConnection peerAddr f).Accounted := by
  intro i c hc hpooled
  refine (h i c hc hpooled).congr (.refl c) rfl ?_
  by_cases hpeer : c.peerAddr = peerAddr
  · subst hpeer
    intro info' hinfo'
    obtain ⟨info, hinfo, rfl⟩ := ConnectionPool.of_entry_withConnection hinfo'
    exact ⟨info, hinfo, hbytes info, hframes info⟩
  · exact sameSent_of_eq (ConnectionPool.entry_withConnection_of_ne f t.pool hpeer)

/-- An entry that leaves takes its counters along. -/
theorem leavePool (h : t.Accounted) (peerAddr : SocketAddr) :
    (t.leavePool peerAddr).Accounted := by
  intro i c hc hpooled
  refine (h i c hc hpooled).congr (.refl c) rfl fun info' hinfo' => ?_
  have heq := (ConnectionPool.entry_remove t.pool peerAddr c.peerAddr).symm.trans hinfo'
  split at heq
  case isTrue => cases heq
  case isFalse => exact ⟨info', heq, rfl, rfl⟩

/-- A frame that did not come through `send_to` is in the write channel. -/
theorem offer (h : t.Accounted) (peerAddr : SocketAddr) {via : Via} (hvia : via ≠ .sendTo)
    (frame : Frame) : (t.offer peerAddr via frame).Accounted := by
  rcases offer_eq peerAddr via frame t with heq | ⟨i, c, -, hc, -, heq⟩
  · rw [heq]
    exact h
  · rw [heq]
    refine h.update_of_books hc ⟨rfl, id, rfl, rfl, fun _ => ?_⟩ id
    rw [Connection.push, viaSendTo_append, viaSendTo_singleton, if_neg hvia]
    rfl

/-- Handling a frame leaves the accounts. -/
theorem handleFrame (h : t.Accounted) (peerAddr : SocketAddr) (frame : Frame) :
    (t.handleFrame peerAddr frame).Accounted := by
  unfold TcpTransport.handleFrame
  split
  case h_1 => exact h.offer peerAddr (by decide) _
  case h_2 => exact h.withConnection peerAddr .recordPongReceived (fun _ => rfl) fun _ => rfl
  case h_3 => exact h

/-- A new connection has empty books, and a new entry to itself. -/
theorem enterPool (h : t.Accounted) (hregistry : t.Registry) {peerAddr : SocketAddr}
    (hend : ∀ d ∈ t.connections, d.peerAddr = peerAddr → d.Done) :
    (t.enterPool peerAddr).Accounted := by
  obtain ⟨hvacant, hfree⟩ := hregistry.unused hend
  intro i c hc hpooled
  rcases getElem?_snoc hc with hc | ⟨rfl, rfl⟩
  · have hne : c.peerAddr ≠ peerAddr := fun hpeer =>
      Connection.not_done_of_isPooled hpooled (hend c (List.mem_of_getElem? hc) hpeer)
    refine (h i c hc hpooled).congr (.refl c) rfl (sameSent_of_eq ?_)
    rw [entry_enterPool, if_neg hne]
  · intro _ info hinfo
    have hnew := (entry_enterPool t peerAddr peerAddr).symm.trans hinfo
    rw [if_pos rfl, hvacant, Option.getD_none] at hnew
    cases hnew
    refine ⟨0, 0, rfl, rfl, rfl, ?_⟩
    change 0 + 0 + t.sending.count peerAddr = 0
    rw [List.count_eq_zero.mpr hfree]

/-- The frame goes from the channel to the socket. -/
theorem wrote (h : t.Accounted) (hc : t.connections[i]? = some c)
    (hrecording : c.recording = none) {via : Via} {frame : Frame} {queue : List (Via × Frame)}
    (hqueue : c.queue = (via, frame) :: queue) : (t.update i (.wrote via frame)).Accounted := by
  refine h.update fun d hd hpooled herror info hinfo => ?_
  obtain rfl := Option.some.inj (hc.symm.trans hd)
  obtain ⟨bytes, frames, hsent, hcount, hbytes, hframes⟩ := h i c hc hpooled herror info hinfo
  refine ⟨bytes, frames, hsent, hcount, ?_⟩
  rw [hrecording] at hbytes hframes
  rw [hqueue, viaSendTo_cons] at hframes
  simp only [Connection.wrote, hqueue, List.tail_cons, wireBytes_append, viaSendTo_append,
    List.length_append, List.length_singleton, Option.getD_some, Option.getD_none,
    Option.toList_some, Option.toList_none, List.length_nil] at hbytes hframes ⊢
  have hsize : wireBytes [(via, frame)] = frame.wireSize := by simp [wireBytes]
  omega

/-- The writer counts the frame that it has written. -/
theorem recorded (h : t.Accounted) (hone : t.AtMostOne Connection.Done)
    (hc : t.connections[i]? = some c) {wireSize : Nat} (hrecording : c.recording = some wireSize) :
    ((t.withConnection c.peerAddr (.recordSend (.ofNat wireSize))).update i
      .recorded).Accounted := by
  have hnot : ¬ c.Done := fun hdone => by cases hrecording.symm.trans hdone.2.2
  intro j d' hd' hpooled
  obtain ⟨d, hd, ⟨hij, rfl⟩ | ⟨rfl, rfl⟩⟩ := getElem?_update hd'
  · have hne := hone.peerAddr_ne hij hc hd hnot (Connection.not_done_of_isPooled hpooled)
    refine (h j d' hd hpooled).congr (.refl d') rfl (sameSent_of_eq ?_)
    exact ConnectionPool.entry_withConnection_of_ne _ t.pool hne
  · obtain rfl := Option.some.inj (hc.symm.trans hd)
    intro herror info' hinfo'
    obtain ⟨info, hinfo, rfl⟩ := ConnectionPool.of_entry_withConnection hinfo'
    obtain ⟨bytes, frames, hsent, hcount, hbytes, hframes⟩ := h i c hc hpooled herror info hinfo
    rw [hrecording] at hbytes hframes
    simp only [Option.getD_some, Option.toList_some, List.length_singleton] at hbytes hframes
    refine ⟨bytes + wireSize, frames + 1, ?_, ?_, hbytes, hframes⟩
    · rw [ConnectionInfo.recordSend, hsent, UInt64.ofNat_add]
    · rw [ConnectionInfo.recordSend, hcount, UInt64.ofNat_add]
      rfl

/-- A call of `send_to` has put its frame into the write channel. -/
theorem sent (h : t.Accounted) (hregistry : t.Registry) (hone : t.AtMostOne Connection.Done)
    {peerAddr : SocketAddr} (hsender : t.sender peerAddr = some i)
    (hc : t.connections[i]? = some c) (frame : Frame) :
    { t.update i (.push .sendTo frame) with sending := peerAddr :: t.sending }.Accounted := by
  obtain ⟨rfl, hregistered⟩ := hregistry.isRegistered hc hsender
  have hpooled := Phase.isPooled_of_isRegistered hregistered
  intro j d' hd' hpooled'
  obtain ⟨d, hd, ⟨hij, rfl⟩ | ⟨rfl, rfl⟩⟩ := getElem?_update hd'
  · have hne := hone.peerAddr_ne hij hc hd (Connection.not_done_of_isPooled hpooled)
      (Connection.not_done_of_isPooled hpooled')
    refine (h j d' hd hpooled').congr (.refl d') ?_ (sameSent_of_eq rfl)
    exact List.count_cons_of_ne hne.symm
  · obtain rfl := Option.some.inj (hc.symm.trans hd)
    intro herror info hinfo
    obtain ⟨bytes, frames, hsent, hcount, hbytes, hframes⟩ := h i c hc hpooled herror info hinfo
    refine ⟨bytes, frames, hsent, hcount, hbytes, ?_⟩
    simp only [Connection.push, viaSendTo_append, viaSendTo_singleton, if_true,
      List.count_cons_self]
    omega

/-- A call of `send_to` counts its frame. -/
theorem sendRecorded (h : t.Accounted) {peerAddr : SocketAddr} (hmem : peerAddr ∈ t.sending) :
    ({ t with sending := t.sending.erase peerAddr }.withConnection peerAddr
      (.recordSend 0)).Accounted := by
  have hpos := List.count_pos_iff.mpr hmem
  intro i c hc hpooled
  by_cases hpeer : c.peerAddr = peerAddr
  · subst hpeer
    intro herror info' hinfo'
    obtain ⟨info, hinfo, rfl⟩ := ConnectionPool.of_entry_withConnection hinfo'
    obtain ⟨bytes, frames, hsent, hcount, hbytes, hframes⟩ := h i c hc hpooled herror info hinfo
    refine ⟨bytes, frames + 1, ?_, ?_, hbytes, ?_⟩
    · rw [ConnectionInfo.recordSend, hsent]
      exact UInt64.add_zero _
    · rw [ConnectionInfo.recordSend, hcount, UInt64.ofNat_add]
      rfl
    · simp only [TcpTransport.withConnection, List.count_erase_self]
      omega
  · refine (h i c hc hpooled).congr (.refl c) ?_ (sameSent_of_eq ?_)
    · exact List.count_erase_of_ne hpeer
    · exact ConnectionPool.entry_withConnection_of_ne _ t.pool hpeer

/-- A connection moves on. -/
theorem setPhase (h : t.Accounted) (hc : t.connections[i]? = some c) {phase : Phase}
    (hpooled : phase.isPooled → c.phase.isPooled) : (t.update i (.setPhase phase)).Accounted :=
  h.update_of_books hc ⟨rfl, id, rfl, rfl, fun _ => rfl⟩ hpooled

/-- A frame that is being handled is not counted as sent. -/
theorem setHandling (h : t.Accounted) (handling : Option Frame) :
    (t.update i (.setHandling handling)).Accounted :=
  h.update fun c hc hpooled => h i c hc hpooled

/-- Every step keeps the accounts. -/
theorem step (h : t.Accounted) (hregistry : t.Registry) (hone : t.AtMostOne Connection.Done)
    (hst : t.Exclusive Connection.Done st) (hstep : t.Stepped st t') : t'.Accounted := by
  cases hstep with
  | idle | connected | disconnected => exact h
  | @inserted peerAddr =>
    have hregistry' : { t with connecting := t.connecting.erase peerAddr }.Registry :=
      hregistry.congr rfl rfl (List.Subset.refl _) fun _ => id
    exact enterPool (t := { t with connecting := t.connecting.erase peerAddr }) h hregistry' hst
  | announced hc hphase => exact setPhase (t := t.emit _) h hc (by rw [hphase]; exact id)
  | @established i c hc hphase =>
    have h' := h.withConnection c.peerAddr .setEstablished (fun _ => rfl) fun _ => rfl
    exact h'.setPhase hc (by rw [hphase]; exact id)
  | @spawned i c hc hphase =>
    refine update_of_books (t := t.register c.peerAddr i) h hc
      ⟨rfl, id, rfl, rfl, fun _ => rfl⟩ fun _ => ?_
    rw [hphase]
    rfl
  | @received i c hc hphase frame =>
    have h' := h.withConnection c.peerAddr (.recordRecv (.ofNat frame.wireSize)) (fun _ => rfl)
      fun _ => rfl
    exact h'.setHandling frame
  | @handled i c _ frame => exact (h.handleFrame c.peerAddr frame).setHandling none
  | @exited i c hc hphase error =>
    have hpooled : Phase.exited.isPooled → c.phase.isPooled := by rw [hphase]; exact id
    cases error with
    | some error => exact setPhase (t := t.emit _) h hc hpooled
    | none => exact h.setPhase hc hpooled
  | @unregistered i c hc hphase =>
    exact setPhase (t := t.unregister c.peerAddr) h hc (by rw [hphase]; exact id)
  | @closed i c hc hphase =>
    have h' := h.withConnection c.peerAddr .setClosed (fun _ => rfl) fun _ => rfl
    exact h'.setPhase hc (by rw [hphase]; exact id)
  | removed hc => exact (h.leavePool _).setPhase hc nofun
  | finished hc => exact setPhase (t := t.emit _) h hc nofun
  | wrote hc _ hrecording hqueue => exact h.wrote hc hrecording hqueue
  | writerFailed hc => exact h.update_of_books hc ⟨rfl, nofun, rfl, rfl, nofun⟩ id
  | recorded hc hrecording => exact h.recorded hone hc hrecording
  | writerEnded hc => exact h.update_of_books hc ⟨rfl, id, rfl, rfl, fun _ => rfl⟩ id
  | sent hsender hc _ frame => exact h.sent hregistry hone hsender hc frame
  | sendRecorded hmem => exact h.sendRecorded hmem
  | offered peerAddr frame => exact h.offer peerAddr (by decide) frame
  | @closing peerAddr =>
    exact withConnection (t := { t with disconnecting := t.disconnecting.erase peerAddr }) h
      peerAddr .setClosing (fun _ => rfl) fun _ => rfl

end Accounted

/-- All invariants of a run in which no two connections are at work for one address. -/
structure Books (t : TcpTransport) : Prop where
  atMostOne : t.AtMostOne Connection.Done
  registry : t.Registry
  accounted : t.Accounted

/-- A new transport has empty books. -/
theorem books_new (maxConnections : UInt64) : (new maxConnections).Books :=
  ⟨atMostOne_new _ maxConnections, registry_new maxConnections, fun _ _ hc => by cases hc⟩

/-- Every step keeps the books. -/
theorem Books.step (h : t.Books) (hst : t.Exclusive Connection.Done st)
    (hstep : t.Stepped st t') : t'.Books where
  atMostOne := h.atMostOne.step (fun _ _ hkept => hkept.done) hstep hst
  registry := h.registry.step hstep
  accounted := h.accounted.step h.registry h.atMostOne hst hstep

/-- Every frame takes at least its header on the wire. -/
theorem length_le_wireBytes (frames : List (Via × Frame)) :
    2 * frames.length ≤ wireBytes frames := by
  induction frames with
  | nil => exact Nat.le_refl 0
  | cons frame frames ih =>
    have hcons : wireBytes (frame :: frames) = frame.2.wireSize + wireBytes frames := rfl
    have hsize : 2 ≤ frame.2.wireSize :=
      (by decide : 2 ≤ headerSize).trans (Nat.le_add_right headerSize _)
    rw [List.length_cons, hcons]
    omega

/-- In every state of a run that inserts a connection only where every other one to the address
is over with its writer: for a connection whose writer has drained its queue, the bytes are
counted exactly modulo `2 ^ 64`, and both counters are exact just if the bytes fit and the frames
written that came through `send_to` are as many as the calls of `send_to` that have still to
count. -/
theorem sent_counters_exact_iff (crc : Crc32c) (maxConnections : UInt64)
    (steps : List TransportStep)
    (h : Along (Exclusive Connection.Done) (step crc) (new maxConnections) steps) (i : Nat)
    (c : Connection) (info : ConnectionInfo) :
    let t := steps.foldl (step crc) (new maxConnections)
    t.connections[i]? = some c → c.phase.isPooled → t.pool.entry c.peerAddr = some info →
      c.Drained → info.bytesSent = .ofNat (wireBytes c.written) ∧
        (info.bytesSent.toNat = wireBytes c.written ∧ info.framesSent.toNat = c.written.length ↔
          wireBytes c.written < 2 ^ 64 ∧ viaSendTo c.written = t.sending.count c.peerAddr) := by
  intro t hc hpooled hinfo ⟨hqueue, hrecording, herror⟩
  have hbooks : t.Books :=
    h.invariant (fun t st hbooks hst => hbooks.step hst (step_stepped crc t st))
      (books_new maxConnections)
  obtain ⟨bytes, frames, hsent, hcount, hbytes, hframes⟩ :=
    hbooks.accounted i c hc hpooled herror info hinfo
  rw [hrecording] at hbytes hframes
  rw [hqueue, viaSendTo_nil] at hframes
  simp only [Option.getD_none, Option.toList_none, List.length_nil] at hbytes hframes
  have hbytes : bytes = wireBytes c.written := hbytes
  rw [hbytes] at hsent
  refine ⟨hsent, ?_⟩
  have hvia : viaSendTo c.written ≤ c.written.length := List.countP_le_length
  have hlength := length_le_wireBytes c.written
  have hexact : wireBytes c.written < 2 ^ 64 → info.framesSent.toNat = frames := by
    intro hlt
    have hfit : frames < 2 ^ 64 := by omega
    rw [hcount, UInt64.toNat_ofNat_of_lt' hfit]
  constructor
  · rintro ⟨hbytesSent, hframesSent⟩
    have hlt : wireBytes c.written < 2 ^ 64 := hbytesSent ▸ info.bytesSent.toNat_lt
    have hframe := hexact hlt
    exact ⟨hlt, by omega⟩
  · rintro ⟨hlt, hcalls⟩
    have hframe := hexact hlt
    exact ⟨by rw [hsent, UInt64.toNat_ofNat_of_lt' hlt], by omega⟩

/-- What the writer does for one frame. -/
def writeSteps (i : Nat) : List TransportStep := [.task i .write, .task i .recordWritten]

/-- A connection after one frame. -/
def afterOne (via : Via) (frame : Frame) : Connection where
  peerAddr := localPeer 1
  phase := .reading
  handling := none
  queue := []
  writer := .running
  writeError := false
  recording := none
  written := [(via, frame)]

/-- A frame of `broadcast` is counted once. -/
theorem broadcast_counted_exactly :
    let frame := Frame.simple .data 42
    let steps := connectSteps (localPeer 1) 0 ++ [.broadcast (localPeer 1) frame] ++ writeSteps 0
    let t := steps.foldl (step .castagnoli) (new 8)
    let c := afterOne .broadcast frame
    let info : ConnectionInfo := ⟨.established, 0, 0, .ofNat frame.wireSize, 0, 1⟩
    (t.connections[0]? = some c ∧ t.pool.entry (localPeer 1) = some info) ∧
      info.bytesSent = .ofNat (wireBytes c.written) ∧
      (info.bytesSent.toNat = wireBytes c.written ∧ info.framesSent.toNat = c.written.length ↔
        wireBytes c.written < 2 ^ 64 ∧ viaSendTo c.written = t.sending.count (localPeer 1)) := by
  intro frame steps t c info
  have hstate : t.connections[0]? = some c ∧ t.pool.entry (localPeer 1) = some info := by
    decide +kernel
  exact ⟨hstate, sent_counters_exact_iff .castagnoli 8 steps (by decide +kernel) 0 c info
    hstate.1 rfl hstate.2 (by decide)⟩

/-- One frame through `send_to`: the socket has it once, and the statistics have it twice. -/
theorem sendTo_counted_twice :
    let frame := Frame.simple .data 42
    let steps := connectSteps (localPeer 1) 0 ++
      [.sendTo (localPeer 1) frame, .recordSendTo (localPeer 1)] ++ writeSteps 0
    let t := steps.foldl (step .castagnoli) (new 8)
    t.connections[0]? = some (afterOne .sendTo frame) ∧ (afterOne .sendTo frame).Drained ∧
      (t.pool.entry (localPeer 1)).map (·.framesSent) = some 2 := by
  decide +kernel

end TcpTransport

end CekyP2P.Transport
