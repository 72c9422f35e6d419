import CekyP2P.Transport.Tcp

/-!
# The life of a connection

Everything that a cleanup takes away goes by the address of the peer, so that it belongs to the
connection that is cleaned up only where no other connection has the address.
-/

namespace CekyP2P.Transport

open Protocol FrameCodec Transfer

namespace Phase

/-- From the insertion into the pool until the reader leaves its loop. -/
def isLive : Phase → Bool
  | inserted | announced | established | reading => true
  | _ => false

/-- The cleanup has begun and is not over. -/
def isCleanup : Phase → Bool
  | exited | unregistered | closed | removed => true
  | _ => false

end Phase

namespace Connection

/-- The cleanup is over. -/
def Finished (c : Connection) : Prop := c.phase = .finished

instance : DecidablePred Finished := fun _ => inferInstanceAs (Decidable (_ = _))

/-- The cleanup is over, and the writer task too. -/
def Done (c : Connection) : Prop := c.Finished ∧ c.writer ≠ .running ∧ c.recording = none

instance : DecidablePred Done := fun _ => inferInstanceAs (Decidable (_ ∧ _))

/-- A live connection is not finished. -/
theorem not_finished_of_isLive {c : Connection} (h : c.phase.isLive) : ¬ c.Finished := by
  intro hfinished
  rw [show c.phase = .finished from hfinished] at h
  cases h

/-- A connection that is being cleaned up is not finished. -/
theorem not_finished_of_isCleanup {c : Connection} (h : c.phase.isCleanup) : ¬ c.Finished := by
  intro hfinished
  rw [show c.phase = .finished from hfinished] at h
  cases h

/-- A connection that has come to its end stays there. -/
structure Kept (c c' : Connection) : Prop where
  peerAddr_eq : c'.peerAddr = c.peerAddr
  finished : c.Finished → c'.Finished
  done : c.Done → c'.Done

variable {c c' c'' : Connection}

/-- A connection is kept as it is. -/
theorem Kept.refl (c : Connection) : c.Kept c := ⟨rfl, id, id⟩

/-- What is kept twice is kept. -/
theorem Kept.trans (h : c.Kept c') (h' : c'.Kept c'') : c.Kept c'' where
  peerAddr_eq := h'.peerAddr_eq.trans h.peerAddr_eq
  finished hc := h'.finished (h.finished hc)
  done hc := h'.done (h.done hc)

/-- Whatever happens to the tasks of a connection whose cleanup is not over. -/
theorem kept_of_ne (hpeer : c'.peerAddr = c.peerAddr) (hphase : c.phase ≠ .finished) :
    c.Kept c' := ⟨hpeer, fun h => absurd h hphase, fun h => absurd h.1 hphase⟩

/-- Whatever a writer does that is still at work. -/
theorem kept_of_writer (hpeer : c'.peerAddr = c.peerAddr) (hphase : c'.phase = c.phase)
    (hwriter : c.writer = .running ∨ c.recording ≠ none) : c.Kept c' where
  peerAddr_eq := hpeer
  finished h := hphase.trans h
  done h := hwriter.elim (fun hrunning => absurd hrunning h.2.1) fun hne => absurd h.2.2 hne

end Connection

namespace TcpTransport

variable {crc : Crc32c} {t t' : TcpTransport} {st : TransportStep}

/-! ## Connections that have the address to themselves -/

/-- The connections of a transport come from those of another one. -/
def Keeps (t t' : TcpTransport) : Prop :=
  ∀ (j : Nat) (c' : Connection), t'.connections[j]? = some c' →
    ∃ c, t.connections[j]? = some c ∧ c.Kept c'

/-- The same connections are kept. -/
theorem keeps_of_eq (h : t'.connections = t.connections) : t.Keeps t' :=
  fun _ c' hc' => ⟨c', h ▸ hc', .refl c'⟩

/-- Connections that are kept twice are kept. -/
theorem Keeps.trans {t'' : TcpTransport} (h : t.Keeps t') (h' : t'.Keeps t'') : t.Keeps t'' := by
  intro j c'' hc''
  obtain ⟨c', hc', hkept'⟩ := h' j c'' hc''
  obtain ⟨c, hc, hkept⟩ := h j c' hc'
  exact ⟨c, hc, hkept.trans hkept'⟩

/-- A change of one connection that keeps it. -/
theorem keeps_update {i : Nat} {f : Connection → Connection}
    (hf : ∀ c, t.connections[i]? = some c → c.Kept (f c)) : t.Keeps (t.update i f) := by
  intro j c' hc'
  obtain ⟨c, hc, ⟨-, rfl⟩ | ⟨rfl, rfl⟩⟩ := getElem?_update hc'
  · exact ⟨c', hc, .refl c'⟩
  · exact ⟨c, hc, hf c hc⟩

/-- Beside an operation that leaves the connections alone, a connection is updated. -/
theorem keeps_update_of_eq {i : Nat} {c : Connection} {f : Connection → Connection}
    (h : t'.connections = t.connections) (hc : t.connections[i]? = some c) (hf : c.Kept (f c)) :
    t.Keeps (t'.update i f) := by
  refine (keeps_of_eq h).trans (keeps_update fun d hd => ?_)
  rw [h, hc] at hd
  exact Option.some.inj hd ▸ hf

/-- Queuing a frame keeps every connection. -/
theorem keeps_push {i : Nat} {c : Connection} (hc : t.connections[i]? = some c)
    (hrunning : c.writer = .running) (via : Via) (frame : Frame) :
    t.Keeps (t.update i (.push via frame)) :=
  keeps_update_of_eq rfl hc (Connection.kept_of_writer rfl rfl (.inl hrunning))

/-- Sending a frame keeps every connection. -/
theorem keeps_offer (peerAddr : SocketAddr) (via : Via) (frame : Frame) :
    t.Keeps (t.offer peerAddr via frame) := by
  rcases offer_eq peerAddr via frame t with heq | ⟨i, c, -, hc, hrunning, heq⟩
  · exact keeps_of_eq (by rw [heq])
  · rw [heq]
    exact keeps_push hc hrunning via frame

/-- Handling a frame keeps every connection. -/
theorem keeps_handleFrame (peerAddr : SocketAddr) (frame : Frame) :
    t.Keeps (t.handleFrame peerAddr frame) := by
  unfold handleFrame
  split
  case h_1 => exact keeps_offer peerAddr .autoPong _
  case h_2 => exact keeps_of_eq rfl
  case h_3 => exact keeps_of_eq rfl

/-- A step keeps the connections, or inserts one. -/
theorem Stepped.keeps (hstep : t.Stepped st t') : t.Keeps t' ∨ ∃ peerAddr,
    st = .insert peerAddr ∧ ∀ j c', t'.connections[j]? = some c' →
      t.connections[j]? = some c' ∨ j = t.connections.length ∧ c' = .fresh peerAddr := by
  cases hstep with
  | @inserted peerAddr hmem => exact .inr ⟨peerAddr, rfl, fun _ _ => getElem?_snoc⟩
  | idle | connected | sendRecorded | disconnected | closing => exact .inl (keeps_of_eq rfl)
  | announced hc hphase | established hc hphase | spawned hc hphase | received hc hphase
  | unregistered hc hphase | closed hc hphase | removed hc hphase | finished hc hphase =>
    exact .inl (keeps_update_of_eq rfl hc (Connection.kept_of_ne rfl (by rw [hphase]; decide)))
  | exited hc hphase error =>
    refine .inl (keeps_update_of_eq ?_ hc (Connection.kept_of_ne rfl (by rw [hphase]; decide)))
    cases error <;> rfl
  | @handled i c hc frame hframe =>
    exact .inl ((keeps_handleFrame c.peerAddr frame).trans
      (keeps_update fun _ _ => ⟨rfl, id, id⟩))
  | wrote hc hrunning | writerFailed hc hrunning | writerEnded hc hrunning =>
    exact .inl (keeps_update_of_eq rfl hc (Connection.kept_of_writer rfl rfl (.inl hrunning)))
  | recorded hc hrecording =>
    refine .inl (keeps_update_of_eq rfl hc (Connection.kept_of_writer rfl rfl (.inr ?_)))
    rw [hrecording]
    nofun
  | sent _ hc hrunning frame => exact .inl (keeps_push hc hrunning .sendTo frame)
  | offered peerAddr frame => exact .inl (keeps_offer peerAddr .broadcast frame)

/-- Of two connections to one address, one has come to its end. -/
def AtMostOne (End : Connection → Prop) (t : TcpTransport) : Prop :=
  ∀ (i j : Nat) (c d : Connection), i ≠ j → t.connections[i]? = some c →
    t.connections[j]? = some d → c.peerAddr = d.peerAddr → End c ∨ End d

/-- A connection is inserted where every other one to the address has come to its end. -/
def Exclusive (End : Connection → Prop) (t : TcpTransport) : TransportStep → Prop
  | .insert peerAddr => ∀ d ∈ t.connections, d.peerAddr = peerAddr → End d
  | _ => True

instance (End : Connection → Prop) [DecidablePred End] (t : TcpTransport) :
    ∀ st, Decidable (t.Exclusive End st)
  | .insert peerAddr =>
    inferInstanceAs (Decidable (∀ d ∈ t.connections, d.peerAddr = peerAddr → End d))
  | .connect _ | .task _ _ | .sendTo _ _ | .recordSendTo _ | .broadcast _ _ | .disconnect _
  | .setClosing _ => .isTrue trivial

/-- No step makes a second connection that has not ended. -/
theorem AtMostOne.step {End : Connection → Prop} (hend : ∀ c c', c.Kept c' → End c → End c')
    (h : t.AtMostOne End) (hstep : t.Stepped st t') (hst : t.Exclusive End st) :
    t'.AtMostOne End := by
  intro i j c' d' hne hc' hd' hpeer
  rcases hstep.keeps with hkeeps | ⟨peerAddr, rfl, hnew⟩
  · obtain ⟨c, hc, hckept⟩ := hkeeps i c' hc'
    obtain ⟨d, hd, hdkept⟩ := hkeeps j d' hd'
    rw [hckept.peerAddr_eq, hdkept.peerAddr_eq] at hpeer
    exact (h i j c d hne hc hd hpeer).imp (hend c c' hckept) (hend d d' hdkept)
  · rcases hnew i c' hc' with hc | ⟨rfl, rfl⟩
    · rcases hnew j d' hd' with hd | ⟨rfl, rfl⟩
      · exact h i j c' d' hne hc hd hpeer
      · exact .inl (hst c' (List.mem_of_getElem? hc) hpeer)
    · rcases hnew j d' hd' with hd | ⟨rfl, rfl⟩
      · exact .inr (hst d' (List.mem_of_getElem? hd) hpeer.symm)
      · exact absurd rfl hne

/-- Connections that have not come to their end have different addresses. -/
theorem AtMostOne.peerAddr_ne {End : Connection → Prop} (h : t.AtMostOne End) {i j : Nat}
    {c d : Connection} (hne : i ≠ j) (hc : t.connections[i]? = some c)
    (hd : t.connections[j]? = some d) (hcEnd : ¬ End c) (hdEnd : ¬ End d) :
    d.peerAddr ≠ c.peerAddr := fun hpeer =>
  (h i j c d hne hc hd hpeer.symm).elim hcEnd hdEnd

/-- A new transport has no connections. -/
theorem atMostOne_new (End : Connection → Prop) (maxConnections : UInt64) :
    (new maxConnections).AtMostOne End := by
  intro i j c d _ hc
  cases hc

/-! ## The cleanup -/

/-- The steps of a cleanup leave the pool entry and the sender of every other live connection
in place, and `Disconnected` is sent for an address that no live connection has. -/
def SparesOthers (crc : Crc32c) (t : TcpTransport) (st : TransportStep) : Prop :=
  (∀ (i : Nat) (c : Connection), st = .task i .advance → t.connections[i]? = some c →
    c.phase.isCleanup → ∀ (j : Nat) (d : Connection), j ≠ i → t.connections[j]? = some d →
      d.phase.isLive → (t.step crc st).pool.entry d.peerAddr = t.pool.entry d.peerAddr ∧
        (t.step crc st).sender d.peerAddr = t.sender d.peerAddr) ∧
  ∀ peerAddr reason, (t.step crc st).events = t.events ++ [.disconnected peerAddr reason] →
    ∀ d ∈ t.connections, d.peerAddr = peerAddr → ¬ d.phase.isLive

/-- Operations for one address leave the entries and senders of the others alone. -/
theorem advance_of_ne {i : Nat} {c : Connection} {addr : SocketAddr} (hne : addr ≠ c.peerAddr) :
    (t.advance i c).pool.entry addr = t.pool.entry addr ∧
      (t.advance i c).sender addr = t.sender addr := by
  unfold advance
  split
  case h_1 | h_4 | h_8 | h_9 => exact ⟨rfl, rfl⟩
  case h_2 | h_6 => exact ⟨ConnectionPool.entry_withConnection_of_ne _ t.pool hne, rfl⟩
  case h_3 =>
    split
    case isTrue => exact ⟨rfl, rfl⟩
    case isFalse => exact ⟨rfl, (sender_register t c.peerAddr addr i).trans (if_neg hne)⟩
  case h_5 =>
    split
    case isTrue => exact ⟨rfl, rfl⟩
    case isFalse => exact ⟨rfl, (sender_unregister t c.peerAddr addr).trans (if_neg hne)⟩
  case h_7 =>
    exact ⟨(ConnectionPool.entry_remove t.pool c.peerAddr addr).trans (if_neg hne), rfl⟩

/-- Queuing a frame reports nothing. -/
theorem events_offer (peerAddr : SocketAddr) (via : Via) (frame : Frame) :
    (t.offer peerAddr via frame).events = t.events := by
  obtain ⟨connections, heq⟩ := offer_eq_with peerAddr via frame t
  rw [heq]

/-- `Disconnected` is sent at the end of a cleanup. -/
theorem Stepped.of_disconnected (hstep : t.Stepped st t') {peerAddr : SocketAddr}
    {reason : String} (h : t'.events = t.events ++ [.disconnected peerAddr reason]) :
    ∃ (i : Nat) (c : Connection), t.connections[i]? = some c ∧ c.phase = .removed ∧
      c.peerAddr = peerAddr := by
  have hsilent : t'.events ≠ t.events := by
    rw [h]
    simp
  have hother : ∀ event, t'.events = t.events ++ [event] →
      event = .disconnected peerAddr reason := fun event hevent => by
    simpa using hevent.symm.trans h
  cases hstep with
  | @finished i c hc hphase =>
    cases hother _ rfl
    exact ⟨i, c, hc, hphase, rfl⟩
  | announced => cases hother _ rfl
  | exited _ _ error =>
    cases error with
    | some error => cases hother _ rfl
    | none => exact absurd rfl hsilent
  | @handled _ c _ frame =>
    revert hsilent hother
    change (t.handleFrame c.peerAddr frame).events ≠ t.events →
      (∀ event, (t.handleFrame c.peerAddr frame).events = _ → _) → _
    unfold handleFrame
    split
    case h_1 => exact fun hsilent _ => absurd (events_offer _ _ _) hsilent
    case h_2 => exact fun hsilent _ => absurd rfl hsilent
    case h_3 => exact fun _ hother => by cases hother _ rfl
  | offered => exact absurd (events_offer _ _ _) hsilent
  | _ => exact absurd rfl hsilent

/-- In a run that inserts a connection only where every other one to the address is finished, no
cleanup touches what belongs to another live connection. -/
theorem cleanup_spares_others (crc : Crc32c) (maxConnections : UInt64)
    (steps : List TransportStep)
    (h : Along (Exclusive Connection.Finished) (step crc) (new maxConnections) steps) :
    Along (SparesOthers crc) (step crc) (new maxConnections) steps := by
  refine h.imp (fun t st hone hst => hone.step (fun _ _ hkept => hkept.finished)
    (step_stepped crc t st) hst) ?_ (atMostOne_new _ maxConnections)
  intro t st hone _
  constructor
  · rintro i c rfl hc hcleanup j d hne hd hlive
    have hadvance : t.step crc (.task i .advance) = t.advance i c := by
      rw [step, hc]
      rfl
    rw [hadvance]
    exact advance_of_ne (hone.peerAddr_ne hne.symm hc hd
      (Connection.not_finished_of_isCleanup hcleanup) (Connection.not_finished_of_isLive hlive))
  · intro peerAddr reason hevents d hd hpeer hlive
    obtain ⟨i, c, hc, hphase, rfl⟩ := (step_stepped crc t st).of_disconnected hevents
    obtain ⟨j, hj⟩ := List.getElem?_of_mem hd
    by_cases hij : i = j
    · obtain rfl := Option.some.inj (hc.symm.trans (hij ▸ hj))
      rw [hphase] at hlive
      cases hlive
    · refine hone.peerAddr_ne hij hc hj ?_ (Connection.not_finished_of_isLive hlive) hpeer
      exact Connection.not_finished_of_isCleanup (by rw [hphase]; rfl)

/-- The steps of `connect` or `accept` from the stream to the tasks. -/
def connectSteps (peerAddr : SocketAddr) (i : Nat) : List TransportStep :=
  [.connect peerAddr, .insert peerAddr] ++ List.replicate 3 (.task i .advance)

/-- The peer closes the connection, and the reader cleans up. -/
def closeSteps (i : Nat) : List TransportStep :=
  .task i (.endReading none) :: List.replicate 4 (.task i .advance)

/-- A peer connects again when the cleanup of its first connection is over. The connection to
another peer lives on during the cleanup. -/
theorem cleanup_spares_others_reconnected :
    Along (SparesOthers .castagnoli) (step .castagnoli) (new 8)
      (connectSteps (localPeer 1) 0 ++ connectSteps (localPeer 2) 1 ++ closeSteps 0 ++
        connectSteps (localPeer 1) 2) :=
  cleanup_spares_others .castagnoli 8 _ (by decide)

/-- There are two connections to a peer. The cleanup of the first one takes the sender and the
pool entry of the second one away, and says that the peer is disconnected. -/
theorem cleanup_tears_down_duplicate :
    let steps := connectSteps (localPeer 1) 0 ++ connectSteps (localPeer 1) 1
    let t := steps.foldl (step .castagnoli) (new 8)
    let t' := (closeSteps 0).foldl (step .castagnoli) t
    t.sender (localPeer 1) = some 1 ∧ (t.pool.entry (localPeer 1)).isSome ∧
      t'.connections[1]?.map (·.phase) = some .reading ∧
      t'.sender (localPeer 1) = none ∧ t'.pool.entry (localPeer 1) = none ∧
      .disconnected (localPeer 1) "connection closed" ∈ t'.events := by
  decide

end TcpTransport

end CekyP2P.Transport
