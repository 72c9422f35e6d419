import CekyP2P.Transport.Lifecycle
import Mathlib.Data.List.Chain

/-!
# The state of a pool entry

`set_established`, `set_closing` and `set_closed` set the state of an entry without a look at the
state that it had. The states move forward just if these calls come in the order of the states
between an insertion and the removal that follows it.
-/

namespace CekyP2P.Transport

open Protocol FrameCodec Transfer

/-- The place in the order of the states. -/
def ConnectionState.rank : ConnectionState → Nat
  | connecting => 0
  | established => 1
  | closing => 2
  | closed => 3

/-- What `set_established` may find, to move an entry forward. -/
theorem ConnectionState.rank_le_established_iff (state : ConnectionState) :
    state.rank ≤ ConnectionState.established.rank ↔
      state = .connecting ∨ state = .established := by
  cases state <;> decide

/-- What `set_closing` may find, to move an entry forward. -/
theorem ConnectionState.rank_le_closing_iff (state : ConnectionState) :
    state.rank ≤ ConnectionState.closing.rank ↔ state ≠ .closed := by
  cases state <;> decide

/-- No state is further on than `Closed`. -/
theorem ConnectionState.rank_le_closed (state : ConnectionState) :
    state.rank ≤ ConnectionState.closed.rank := by
  cases state <;> decide

/-- A call that is about the entry of one address in the pool. -/
inductive EntryCall
  /-- `pool.insert` behind its check, which keeps an entry that is there. -/
  | insert
  /-- `set_established`, `set_closing` or `set_closed`. -/
  | set (state : ConnectionState)
  /-- `pool.remove`. -/
  | remove
  deriving DecidableEq

namespace EntryCall

/-- The state of the entry after a call. -/
def stateAfter (state : Option ConnectionState) : EntryCall → Option ConnectionState
  | insert => some (state.getD .connecting)
  | set new => state.map fun _ => new
  | remove => none

/-- The call does not set an entry back. -/
def Onward (state : Option ConnectionState) (call : EntryCall) : Prop :=
  ∀ old new, state = some old → stateAfter state call = some new → old.rank ≤ new.rank

/-- The state that a call sets. -/
def target : EntryCall → Option ConnectionState
  | set state => some state
  | insert | remove => none

/-- What an entry is set to comes in the order of the states, where calls before the insertion find
no entry. -/
def Lifetime (calls : List EntryCall) : Prop :=
  ((calls.dropWhile (· ≠ insert)).filterMap target).IsChain (·.rank ≤ ·.rank)

/-- From each insertion of an entry until its removal, the calls that set its state come in the
order of the states. -/
def Ordered (calls : List EntryCall) : Prop := ∀ part ∈ calls.splitOn remove, Lifetime part

instance lifetimeDecidable (calls : List EntryCall) : Decidable (Lifetime calls) :=
  inferInstanceAs (Decidable (List.IsChain _ _))

instance orderedDecidable (calls : List EntryCall) : Decidable (Ordered calls) :=
  inferInstanceAs (Decidable (∀ part ∈ calls.splitOn remove, Lifetime part))

/-- No call sets back an entry that is not there. -/
theorem onward_none (call : EntryCall) : Onward none call := fun _ _ hold => by cases hold

/-- An insertion that finds an entry keeps its state. -/
theorem onward_insert (state : Option ConnectionState) : Onward state insert := by
  rintro old _ rfl ⟨⟩
  exact le_rfl

/-- A removal leaves no state. -/
theorem onward_remove (state : Option ConnectionState) : Onward state remove := by
  rintro _ _ _ ⟨⟩

/-- A state is set onward if it comes no earlier than the old one. -/
theorem onward_set_iff (old new : ConnectionState) :
    Onward (some old) (set new) ↔ old.rank ≤ new.rank := by
  constructor
  · exact fun h => h old new rfl rfl
  · rintro h _ _ ⟨⟩ ⟨⟩
    exact h

/-- An entry starts with the first state. -/
theorem isChain_connecting_cons (states : List ConnectionState) :
    (ConnectionState.connecting :: states).IsChain (·.rank ≤ ·.rank) ↔
      states.IsChain (·.rank ≤ ·.rank) := by
  rw [List.isChain_cons]
  exact and_iff_right fun state _ => Nat.zero_le state.rank

/-- The part of the calls up to the first removal decides on an entry that is there, the parts
behind it on the entries that come later. -/
theorem along_onward_iff {calls first : List EntryCall} {rest : List (List EntryCall)}
    (hparts : calls.splitOn remove = first :: rest) :
    (Along Onward stateAfter none calls ↔ Lifetime first ∧ ∀ part ∈ rest, Lifetime part) ∧
      ∀ state, Along Onward stateAfter (some state) calls ↔
        (state :: first.filterMap target).IsChain (·.rank ≤ ·.rank) ∧
          ∀ part ∈ rest, Lifetime part := by
  induction calls generalizing first rest with
  | nil =>
    cases hparts
    have hempty : ∀ part ∈ ([] : List (List EntryCall)), Lifetime part := List.forall_mem_nil _
    exact ⟨iff_of_true trivial ⟨.nil, hempty⟩, fun _ => iff_of_true trivial ⟨.singleton _, hempty⟩⟩
  | cons call calls ih =>
    obtain ⟨first', rest', hparts'⟩ :=
      List.exists_cons_of_ne_nil (List.splitOnP_ne_nil (· == remove) calls)
    obtain ⟨ihnone, ihsome⟩ := ih hparts'
    rw [List.splitOn, List.splitOnP_cons_eq_if_modifyHead, hparts'] at hparts
    cases call with
    | remove =>
      cases hparts
      have hrest := ihnone.trans List.forall_mem_cons.symm
      constructor
      · exact (and_iff_right (onward_none _)).trans (hrest.trans (and_iff_right .nil).symm)
      · intro state
        exact (and_iff_right (onward_remove _)).trans
          (hrest.trans (and_iff_right (.singleton state)).symm)
    | insert =>
      cases hparts
      constructor
      · exact (and_iff_right (onward_none _)).trans
          ((ihsome .connecting).trans (and_congr_left' (isChain_connecting_cons _)))
      · exact fun state => (and_iff_right (onward_insert _)).trans (ihsome state)
    | set new =>
      cases hparts
      constructor
      · exact (and_iff_right (onward_none _)).trans ihnone
      · intro state
        change _ ↔ (state :: new :: first'.filterMap target).IsChain _ ∧ _
        rw [List.isChain_cons_cons, and_assoc]
        exact and_congr (onward_set_iff state new) (ihsome new)

/-- No call sets an entry back, just if the calls are ordered. -/
theorem along_onward_none_iff (calls : List EntryCall) :
    Along Onward stateAfter none calls ↔ Ordered calls := by
  obtain ⟨first, rest, hparts⟩ :=
    List.exists_cons_of_ne_nil (List.splitOnP_ne_nil (· == remove) calls)
  have hparts' : calls.splitOn remove = first :: rest := hparts
  rw [Ordered, hparts', List.forall_mem_cons]
  exact (along_onward_iff hparts').1

end EntryCall

/-- The operation of a phase on the entry of its address. -/
def Phase.entryCall : Phase → Option EntryCall
  | .announced => some (.set .established)
  | .unregistered => some (.set .closed)
  | .closed => some .remove
  | _ => none

namespace TcpTransport

open EntryCall

variable {crc : Crc32c} {t t' : TcpTransport} {st : TransportStep} {addr : SocketAddr}

/-- The state of the entry of an address. -/
def entryState (t : TcpTransport) (addr : SocketAddr) : Option ConnectionState :=
  (t.pool.entry addr).map (·.state)

/-- The call with which a step changes the entry of an address, or finds none. -/
def entryCall (t : TcpTransport) (addr : SocketAddr) : TransportStep → Option EntryCall
  | .insert peerAddr => if peerAddr = addr ∧ peerAddr ∈ t.connecting then some .insert else none
  | .task i .advance =>
    t.connections[i]?.bind fun c => if c.peerAddr = addr then c.phase.entryCall else none
  | .setClosing peerAddr =>
    if peerAddr = addr ∧ peerAddr ∈ t.disconnecting then some (.set .closing) else none
  | _ => none

/-- The calls of a run on the entry of an address. -/
def entryCalls (crc : Crc32c) (addr : SocketAddr) :
    TcpTransport → List TransportStep → List EntryCall
  | _, [] => []
  | t, st :: steps => (t.entryCall addr st).toList ++ entryCalls crc addr (t.step crc st) steps

/-- The state of no pool entry goes back. -/
def Forward (t t' : TcpTransport) : Prop := ∀ addr info info', t.pool.entry addr = some info →
  t'.pool.entry addr = some info' → info.state.rank ≤ info'.state.rank

/-- `set_established` finds no entry that is closing or closed, and `set_closing` none that is
closed. -/
def InOrder (t : TcpTransport) : TransportStep → Prop
  | .task i .advance => ∀ c, t.connections[i]? = some c → c.phase = .announced →
      ∀ info, t.pool.entry c.peerAddr = some info →
        info.state = .connecting ∨ info.state = .established
  | .setClosing peerAddr => peerAddr ∈ t.disconnecting →
      ∀ info, t.pool.entry peerAddr = some info → info.state ≠ .closed
  | _ => True

/-- The steps that make a call on an entry, with the call. -/
inductive Called (t : TcpTransport) : TransportStep → SocketAddr → EntryCall → Prop
  | inserted {peerAddr : SocketAddr} : peerAddr ∈ t.connecting →
      Called t (.insert peerAddr) peerAddr .insert
  | closing {peerAddr : SocketAddr} : peerAddr ∈ t.disconnecting →
      Called t (.setClosing peerAddr) peerAddr (.set .closing)
  | established {i : Nat} {c : Connection} : t.connections[i]? = some c → c.phase = .announced →
      Called t (.task i .advance) c.peerAddr (.set .established)
  | closed {i : Nat} {c : Connection} : t.connections[i]? = some c → c.phase = .unregistered →
      Called t (.task i .advance) c.peerAddr (.set .closed)
  | removed {i : Nat} {c : Connection} : t.connections[i]? = some c → c.phase = .closed →
      Called t (.task i .advance) c.peerAddr .remove

/-- Where the call of a step comes from. -/
theorem called_of_entryCall {call : EntryCall} (h : t.entryCall addr st = some call) :
    t.Called st addr call := by
  cases st with
  | insert peerAddr =>
    obtain ⟨⟨rfl, hmem⟩, ⟨⟩⟩ := Option.ite_none_right_eq_some.mp h
    exact .inserted hmem
  | setClosing peerAddr =>
    obtain ⟨⟨rfl, hmem⟩, ⟨⟩⟩ := Option.ite_none_right_eq_some.mp h
    exact .closing hmem
  | task i task =>
    cases task with
    | advance =>
      obtain ⟨c, hc, hcall⟩ := Option.bind_eq_some_iff.mp h
      obtain ⟨rfl, hphase⟩ := Option.ite_none_right_eq_some.mp hcall
      cases hcase : c.phase with
      | announced =>
        rw [hcase] at hphase
        cases hphase
        exact .established hc hcase
      | unregistered =>
        rw [hcase] at hphase
        cases hphase
        exact .closed hc hcase
      | closed =>
        rw [hcase] at hphase
        cases hphase
        exact .removed hc hcase
      | _ =>
        rw [hcase] at hphase
        cases hphase
    | _ => cases h
  | _ => cases h

/-- The state of an entry depends on the pool only. -/
theorem entryState_of_eq (h : t'.pool = t.pool) : t'.entryState addr = t.entryState addr := by
  rw [entryState, h, entryState]

/-- A change of the other fields of an entry. -/
theorem entryState_withConnection_of_state {f : ConnectionInfo → ConnectionInfo}
    (hf : ∀ info, (f info).state = info.state) (peerAddr : SocketAddr) :
    (t.withConnection peerAddr f).entryState addr = t.entryState addr := by
  have hentry := ConnectionPool.entry_withConnection f t.pool peerAddr addr
  rw [entryState, withConnection, hentry, entryState]
  split
  case isTrue => rw [Option.map_map, Function.comp_def, funext hf]
  case isFalse => rfl

/-- Other entries are left. -/
theorem entryState_withConnection_of_ne {peerAddr : SocketAddr} (h : addr ≠ peerAddr)
    (f : ConnectionInfo → ConnectionInfo) :
    (t.withConnection peerAddr f).entryState addr = t.entryState addr :=
  congrArg (Option.map _) (ConnectionPool.entry_withConnection_of_ne f t.pool h)

/-- A setter sets the state of the entry, if there is one. -/
theorem entryState_withConnection {f : ConnectionInfo → ConnectionInfo} {state : ConnectionState}
    (hf : ∀ info, (f info).state = state) :
    (t.withConnection addr f).entryState addr = stateAfter (t.entryState addr) (.set state) := by
  have hentry := ConnectionPool.entry_withConnection f t.pool addr addr
  rw [if_pos rfl] at hentry
  rw [entryState, withConnection, hentry, Option.map_map, Function.comp_def, funext hf, entryState,
    stateAfter, Option.map_map]
  rfl

/-- Queuing a frame leaves the pool. -/
theorem pool_offer (peerAddr : SocketAddr) (via : Via) (frame : Frame) :
    (t.offer peerAddr via frame).pool = t.pool := by
  obtain ⟨connections, heq⟩ := offer_eq_with peerAddr via frame t
  rw [heq]

/-- Handling a frame leaves the states. -/
theorem entryState_handleFrame (peerAddr : SocketAddr) (frame : Frame) :
    (t.handleFrame peerAddr frame).entryState addr = t.entryState addr := by
  unfold handleFrame
  split
  case h_1 => exact entryState_of_eq (pool_offer _ _ _)
  case h_2 =>
    exact entryState_withConnection_of_state (f := .recordPongReceived) (fun _ => rfl) peerAddr
  case h_3 => exact entryState_of_eq rfl

/-- A step that makes no call on an entry leaves its state alone. -/
theorem Stepped.entryState_eq (hstep : t.Stepped st t') (h : t.entryCall addr st = none) :
    t'.entryState addr = t.entryState addr := by
  have hother : ∀ {i : Nat} {c : Connection}, st = .task i .advance → t.connections[i]? = some c →
      c.phase.entryCall ≠ none → addr ≠ c.peerAddr := by
    rintro i c rfl hc hphase rfl
    rw [entryCall, hc, Option.bind_some, if_pos rfl] at h
    exact hphase h
  cases hstep with
  | idle | connected | announced | spawned | unregistered | finished | wrote | writerFailed
  | writerEnded | sent | disconnected => exact entryState_of_eq rfl
  | @inserted peerAddr hmem =>
    have hne : addr ≠ peerAddr := by
      rintro rfl
      rw [entryCall, if_pos ⟨rfl, hmem⟩] at h
      cases h
    rw [entryState, entry_enterPool, if_neg hne]
    rfl
  | @removed i c hc hphase =>
    have hne := hother rfl hc (by rw [hphase]; nofun)
    exact congrArg (Option.map _)
      ((ConnectionPool.entry_remove t.pool c.peerAddr addr).trans (if_neg hne))
  | offered peerAddr frame => exact entryState_of_eq (pool_offer _ _ _)
  | handled => exact entryState_handleFrame _ _
  | exited _ _ error => exact entryState_of_eq (by cases error <;> rfl)
  | @received i c _ _ frame =>
    exact entryState_withConnection_of_state (f := .recordRecv (.ofNat frame.wireSize))
      (fun _ => rfl) c.peerAddr
  | @recorded i c _ wireSize =>
    exact entryState_withConnection_of_state (f := .recordSend (.ofNat wireSize)) (fun _ => rfl)
      c.peerAddr
  | @sendRecorded peerAddr =>
    exact entryState_withConnection_of_state (f := .recordSend 0) (fun _ => rfl) peerAddr
  | @established i c hc hphase =>
    exact entryState_withConnection_of_ne (hother rfl hc (by rw [hphase]; nofun)) _
  | @closed i c hc hphase =>
    exact entryState_withConnection_of_ne (hother rfl hc (by rw [hphase]; nofun)) _
  | @closing peerAddr hmem =>
    refine entryState_withConnection_of_ne ?_ _
    rintro rfl
    rw [entryCall, if_pos ⟨rfl, hmem⟩] at h
    cases h

variable (crc) in
/-- A step that makes a call on an entry does to its state what the call does. -/
theorem entryState_step_of_entryCall {call : EntryCall} (h : t.entryCall addr st = some call) :
    (t.step crc st).entryState addr = stateAfter (t.entryState addr) call := by
  have hadvance : ∀ {i : Nat} {c : Connection}, t.connections[i]? = some c →
      t.step crc (.task i .advance) = t.advance i c := by
    intro i c hc
    rw [step, hc]
    rfl
  cases called_of_entryCall h with
  | inserted hmem =>
    rw [step, if_pos hmem, entryState, entry_enterPool, if_pos rfl, stateAfter, entryState]
    cases t.pool.entry addr <;> rfl
  | closing hmem =>
    rw [step, if_pos hmem]
    exact entryState_withConnection fun _ => rfl
  | established hc hphase =>
    rw [hadvance hc, advance, hphase]
    exact entryState_withConnection fun _ => rfl
  | closed hc hphase =>
    rw [hadvance hc, advance, hphase]
    exact entryState_withConnection fun _ => rfl
  | @removed i c hc hphase =>
    rw [hadvance hc, advance, hphase]
    exact congrArg (Option.map _)
      ((ConnectionPool.entry_remove t.pool c.peerAddr c.peerAddr).trans (if_pos rfl))

/-- The states of all entries, without the entries. -/
theorem forward_iff : t.Forward t' ↔ ∀ addr old new, t.entryState addr = some old →
    t'.entryState addr = some new → old.rank ≤ new.rank := by
  constructor
  · intro h addr old new hold hnew
    obtain ⟨info, hinfo, rfl⟩ := Option.map_eq_some_iff.mp hold
    obtain ⟨info', hinfo', rfl⟩ := Option.map_eq_some_iff.mp hnew
    exact h addr info info' hinfo hinfo'
  · intro h addr info info' hinfo hinfo'
    exact h addr info.state info'.state (Option.map_eq_some_iff.mpr ⟨info, hinfo, rfl⟩)
      (Option.map_eq_some_iff.mpr ⟨info', hinfo', rfl⟩)

/-- A step sets no entry back, just if its call does not. -/
theorem forward_step_iff (crc : Crc32c) (t : TcpTransport) (st : TransportStep) :
    t.Forward (t.step crc st) ↔
      ∀ addr call, t.entryCall addr st = some call → Onward (t.entryState addr) call := by
  rw [forward_iff]
  refine forall_congr' fun addr => ?_
  cases hcall : t.entryCall addr st with
  | none =>
    refine iff_of_true ?_ nofun
    intro old new hold hnew
    rw [(step_stepped crc t st).entryState_eq hcall, hold] at hnew
    exact Option.some.inj hnew ▸ le_rfl
  | some call =>
    rw [entryState_step_of_entryCall crc hcall]
    constructor
    · rintro h _ ⟨⟩
      exact h
    · exact fun h => h call rfl

/-- A setter sets no entry back, just if it finds none that is further on. -/
theorem onward_set_entryState_iff (t : TcpTransport) (addr : SocketAddr) (new : ConnectionState) :
    Onward (t.entryState addr) (.set new) ↔
      ∀ info, t.pool.entry addr = some info → info.state.rank ≤ new.rank := by
  rw [entryState]
  cases t.pool.entry addr with
  | none => exact iff_of_true (onward_none _) nofun
  | some info =>
    refine (onward_set_iff info.state new).trans ⟨?_, fun h => h info rfl⟩
    rintro h _ ⟨⟩
    exact h

/-- Only `set_established` and `set_closing` can set an entry back. -/
theorem inOrder_iff (t : TcpTransport) (st : TransportStep) : t.InOrder st ↔
    ∀ addr call, t.entryCall addr st = some call → Onward (t.entryState addr) call := by
  constructor
  · intro h addr call hcall
    cases called_of_entryCall hcall with
    | inserted => exact onward_insert _
    | removed => exact onward_remove _
    | closing hmem =>
      refine (t.onward_set_entryState_iff addr .closing).mpr fun info hinfo => ?_
      exact info.state.rank_le_closing_iff.mpr (h hmem info hinfo)
    | @established i c hc hphase =>
      refine (t.onward_set_entryState_iff c.peerAddr .established).mpr fun info hinfo => ?_
      exact info.state.rank_le_established_iff.mpr (h c hc hphase info hinfo)
    | @closed i c hc hphase =>
      exact (t.onward_set_entryState_iff c.peerAddr .closed).mpr
        fun info _ => info.state.rank_le_closed
  · intro h
    cases st with
    | setClosing peerAddr =>
      intro hmem info hinfo
      have honward := h peerAddr (.set .closing) (if_pos ⟨rfl, hmem⟩)
      exact info.state.rank_le_closing_iff.mp
        ((t.onward_set_entryState_iff peerAddr .closing).mp honward info hinfo)
    | task i task =>
      cases task with
      | advance =>
        intro c hc hphase info hinfo
        have hcall : t.entryCall c.peerAddr (.task i .advance) = some (.set .established) := by
          rw [entryCall, hc, Option.bind_some, if_pos rfl, hphase]
          rfl
        exact info.state.rank_le_established_iff.mp
          ((t.onward_set_entryState_iff c.peerAddr .established).mp (h _ _ hcall) info hinfo)
      | _ => trivial
    | _ => trivial

/-- The calls of a run on an entry, with the states that they find. -/
theorem along_forward_iff (crc : Crc32c) (t : TcpTransport) (steps : List TransportStep) :
    Along (fun t st => t.Forward (t.step crc st)) (step crc) t steps ↔
      ∀ addr, Along Onward stateAfter (t.entryState addr) (entryCalls crc addr t steps) := by
  induction steps generalizing t with
  | nil => exact iff_of_true trivial fun _ => trivial
  | cons st steps ih =>
    rw [Along, ih, forward_step_iff, ← forall_and]
    refine forall_congr' fun addr => ?_
    rw [entryCalls]
    cases hcall : t.entryCall addr st with
    | none =>
      rw [(step_stepped crc t st).entryState_eq hcall]
      exact and_iff_right (by simp)
    | some call =>
      rw [entryState_step_of_entryCall crc hcall]
      refine and_congr_left' ⟨fun h => h call rfl, ?_⟩
      rintro h _ ⟨⟩
      exact h

/-- The states of all pool entries move forward in a run, just if `set_established` and
`set_closing` find no entry that is further on; and just if, from each insertion of an entry until
its removal, the calls that set its state come in the order of the states. -/
theorem states_move_forward_iff (crc : Crc32c) (maxConnections : UInt64)
    (steps : List TransportStep) :
    (Along (fun t st => t.Forward (t.step crc st)) (step crc) (new maxConnections) steps ↔
      Along InOrder (step crc) (new maxConnections) steps) ∧
    (Along (fun t st => t.Forward (t.step crc st)) (step crc) (new maxConnections) steps ↔
      ∀ addr, Ordered (entryCalls crc addr (new maxConnections) steps)) := by
  constructor
  · exact along_congr (step crc) (fun t st => (forward_step_iff crc t st).trans
      (inOrder_iff t st).symm) (new maxConnections) steps
  · rw [along_forward_iff]
    exact forall_congr' fun addr => along_onward_none_iff _

/-- A second connection to a peer makes its calls before the cleanup of the first one. -/
example : Ordered [.insert, .set .established, .insert, .set .established, .set .closed, .remove] ∧
    ¬Ordered [.insert, .set .established, .set .closing, .insert, .set .established] := by
  decide

/-- A connection is being disconnected when another one to the same peer comes in: the entry
that both share goes back from closing to established. -/
theorem duplicate_reopens_closing_entry :
    let steps := connectSteps (localPeer 1) 0 ++
      [.disconnect (localPeer 1), .setClosing (localPeer 1)]
    let t := steps.foldl (step .castagnoli) (new 8)
    let t' := (connectSteps (localPeer 1) 1).foldl (step .castagnoli) t
    (t.pool.entry (localPeer 1)).map (·.state) = some .closing ∧
      (t'.pool.entry (localPeer 1)).map (·.state) = some .established ∧
      t'.pool.totalRemoved = 0 := by
  decide

end TcpTransport

end CekyP2P.Transport
