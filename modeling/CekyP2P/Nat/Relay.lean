import CekyP2P.Core.FiniteMap
import CekyP2P.Dht.PeerInfo
import CekyP2P.Nat.Stun

/-!
# The relay service

Sessions between two peers that cannot reach each other. A session is opened, accepted by the
second peer, carries traffic, and is closed; sessions that are closed or past a limit stay until
they are cleaned up. Every call reads the clock once; instants and durations are counted in
nanoseconds.
-/

namespace CekyP2P.Relay

open Crypto Transfer Stun Dht

/-- The limits of a relay. -/
structure RelayConfig where
  /-- Bytes per second and session. -/
  maxBandwidthBps : UInt64
  /-- The time without traffic after which a session expires. -/
  idleTimeout : Nat
  maxDuration : Nat
  maxSessions : UInt64
  deriving DecidableEq

/-- `RelayConfig::default`. -/
def RelayConfig.default : RelayConfig where
  maxBandwidthBps := 512 * 1024
  idleTimeout := 60 * 1000000000
  maxDuration := 3600 * 1000000000
  maxSessions := 100

/-- The states of a relay session. -/
inductive RelaySessionState
  | pending | active | closed
  deriving DecidableEq

/-- One end of a relay session, with its traffic. -/
structure RelayPeer where
  peerId : PeerId
  addr : SocketAddr
  bytesSent : UInt64
  bytesReceived : UInt64
  deriving DecidableEq

/-- A peer without traffic. -/
def RelayPeer.new (peerId : PeerId) (addr : SocketAddr) : RelayPeer := ⟨peerId, addr, 0, 0⟩

/-- Two peers whose traffic is relayed. -/
structure RelaySession where
  sessionId : UInt64
  peerA : RelayPeer
  peerB : RelayPeer
  createdAt : Nat
  lastActivity : Nat
  bytesRelayed : UInt64
  state : RelaySessionState
  deriving DecidableEq

namespace RelaySession

/-- The session that `create_session` stores. -/
def new (sessionId : UInt64) (peerA peerB : RelayPeer) (now : Nat) : RelaySession where
  sessionId := sessionId
  peerA := peerA
  peerB := peerB
  createdAt := now
  lastActivity := now
  bytesRelayed := 0
  state := .pending

/-- The session may carry traffic. -/
def activated (now : Nat) (session : RelaySession) : RelaySession :=
  { session with state := .active, lastActivity := now }

/-- The counters after some bytes were relayed. -/
def recorded (bytes : UInt64) (fromA : Bool) (now : Nat) (session : RelaySession) :
    RelaySession :=
  let session := { session with
    bytesRelayed := session.bytesRelayed + bytes
    lastActivity := now }
  if fromA then
    { session with
      peerA := { session.peerA with bytesSent := session.peerA.bytesSent + bytes }
      peerB := { session.peerB with bytesReceived := session.peerB.bytesReceived + bytes } }
  else
    { session with
      peerB := { session.peerB with bytesSent := session.peerB.bytesSent + bytes }
      peerA := { session.peerA with bytesReceived := session.peerA.bytesReceived + bytes } }

/-- The session carries no more traffic. -/
def closed (session : RelaySession) : RelaySession := { session with state := .closed }

/-- The session has had no traffic for too long, or lives for too long. -/
def PastLimit (config : RelayConfig) (now : Nat) (session : RelaySession) : Prop :=
  config.idleTimeout < now - session.lastActivity ∨ config.maxDuration < now - session.createdAt

instance (config : RelayConfig) (now : Nat) (session : RelaySession) :
    Decidable (session.PastLimit config now) := inferInstanceAs (Decidable (_ ∨ _))

/-- The filter of `cleanup_expired`. -/
def IsExpired (config : RelayConfig) (now : Nat) (session : RelaySession) : Prop :=
  session.state = .closed ∨ session.PastLimit config now

instance (config : RelayConfig) (now : Nat) (session : RelaySession) :
    Decidable (session.IsExpired config now) := inferInstanceAs (Decidable (_ ∨ _))

/-- The bandwidth check of `record_relay`: from the first second on, the bytes relayed so far
are compared with the limit. -/
def exceedsBandwidth {F : Type} (f64 : F64 F) (config : RelayConfig) (now : Nat)
    (session : RelaySession) : Bool :=
  let elapsed := now - session.createdAt
  if 1 ≤ elapsed / 1000000000 then
    let bps := f64.div (f64.ofNat session.bytesRelayed.toNat) (PeerScore.asSecs f64 elapsed)
    f64.lt (f64.ofNat config.maxBandwidthBps.toNat) bps
  else false

end RelaySession

/-- The sessions of a relay, under their identifiers. -/
structure RelayService where
  config : RelayConfig
  sessions : AList fun _ : UInt64 => RelaySession
  nextSessionId : UInt64

namespace RelayService

/-- A relay without sessions. -/
def new (config : RelayConfig) : RelayService := ⟨config, ∅, 1⟩

/-- `with_defaults`. -/
def withDefaults : RelayService := new .default

/-- The session with an identifier. -/
def getSession (sessionId : UInt64) (s : RelayService) : Option RelaySession :=
  s.sessions.lookup sessionId

/-- `total_sessions`. -/
def totalSessions (s : RelayService) : Nat := s.sessions.keys.length

/-- The session under an id, changed through `get_mut` or inserted. -/
def putSession (sessionId : UInt64) (session : RelaySession) (s : RelayService) : RelayService :=
  { s with sessions := s.sessions.insert sessionId session }

/-- The ids of the sessions that `cleanup_expired` removes. -/
def expired (now : Nat) (s : RelayService) : List UInt64 :=
  (s.sessions.entries.filter fun entry => entry.2.IsExpired s.config now).map (·.1)

/-- Expired and closed sessions are removed. -/
def cleanupExpired (now : Nat) (s : RelayService) : Nat × RelayService :=
  let expired := s.expired now
  (expired.length, { s with sessions := FiniteMap.eraseAll s.sessions expired })

/-- The capacity check of `create_session`. -/
def AtCapacity (s : RelayService) : Prop := s.config.maxSessions.toNat ≤ s.totalSessions

instance (s : RelayService) : Decidable s.AtCapacity := inferInstanceAs (Decidable (_ ≤ _))

/-- A session under the next id. -/
def opened (peerA peerB : RelayPeer) (now : Nat) (s : RelayService) : RelayService :=
  { s.putSession s.nextSessionId (.new s.nextSessionId peerA peerB now) with
    nextSessionId := s.nextSessionId + 1 }

/-- A new session, if there is room; a full relay cleans up first. -/
def createSession (peerAId : PeerId) (peerAAddr : SocketAddr) (peerBId : PeerId)
    (peerBAddr : SocketAddr) (now : Nat) : Exec NatError RelayService UInt64 := do
  let s ← get
  if s.AtCapacity then
    set (s.cleanupExpired now).2
    let s ← get
    if s.AtCapacity then throw (.error (.relayRefused "relay at capacity"))
  let s ← get
  set (s.opened (.new peerAId peerAAddr) (.new peerBId peerBAddr) now)
  pure s.nextSessionId

/-- A pending session becomes active. -/
def activateSession (sessionId : UInt64) (now : Nat) : Exec NatError RelayService Unit := do
  let s ← get
  let session ← Exec.orError (.relayRefused s!"session {sessionId} not found")
    (s.getSession sessionId)
  if session.state ≠ .pending then
    throw (.error (.relayRefused s!"session {sessionId} not in pending state"))
  else set (s.putSession sessionId (session.activated now))

/-- Traffic of an active session, within its bandwidth. -/
def recordRelay {F : Type} (f64 : F64 F) (sessionId bytes : UInt64) (fromA : Bool) (now : Nat) :
    Exec NatError RelayService Unit := do
  let s ← get
  let session ← Exec.orError (.relayRefused s!"session {sessionId} not found")
    (s.getSession sessionId)
  if session.state ≠ .active then throw (.error (.relayRefused "session not active"))
  else if session.exceedsBandwidth f64 s.config now then
    throw (.error (.relayRefused "bandwidth limit exceeded"))
  else set (s.putSession sessionId (session.recorded bytes fromA now))

/-- A session is closed, and removed by the next cleanup. -/
def closeSession (sessionId : UInt64) (s : RelayService) : RelayService :=
  match s.getSession sessionId with
  | some session => s.putSession sessionId session.closed
  | none => s

/-- Where a packet of a peer goes. -/
def getForwardAddr (sessionId : UInt64) (fromPeer : PeerId) (s : RelayService) :
    Option SocketAddr := do
  let session ← s.getSession sessionId
  if session.state ≠ .active then none
  else if session.peerA.peerId = fromPeer then some session.peerB.addr
  else if session.peerB.peerId = fromPeer then some session.peerA.addr
  else none

section

variable {s : RelayService}

@[simp] theorem getSession_new (config : RelayConfig) (id : UInt64) :
    (new config).getSession id = none := AList.lookup_empty id

/-- One session is replaced. -/
theorem getSession_putSession (s : RelayService) (sessionId id : UInt64)
    (session : RelaySession) : (s.putSession sessionId session).getSession id =
      if id = sessionId then some session else s.getSession id :=
  FiniteMap.lookup_insert s.sessions sessionId id session

/-- One session is added. -/
theorem getSession_opened (s : RelayService) (peerA peerB : RelayPeer) (now : Nat) (id : UInt64) :
    (s.opened peerA peerB now).getSession id =
      if id = s.nextSessionId then some (.new s.nextSessionId peerA peerB now)
      else s.getSession id := getSession_putSession s _ id _

/-- A session is the new one or an old one. -/
theorem mem_getSession_opened {peerA peerB : RelayPeer} {now : Nat} {id : UInt64}
    {session : RelaySession} (h : session ∈ (s.opened peerA peerB now).getSession id) :
    (id = s.nextSessionId ∧ session = .new s.nextSessionId peerA peerB now) ∨
      session ∈ s.getSession id := by
  rw [getSession_opened] at h
  split at h
  case isTrue heq =>
    cases h
    exact .inl ⟨heq, rfl⟩
  case isFalse => exact .inr h

/-- What a cleanup removes. -/
theorem mem_expired {now : Nat} {id : UInt64} :
    id ∈ s.expired now ↔ ∃ session ∈ s.getSession id, session.IsExpired s.config now := by
  simp only [expired, List.mem_map, List.mem_filter, decide_eq_true_eq]
  constructor
  · rintro ⟨entry, ⟨hmem, hexpired⟩, rfl⟩
    exact ⟨entry.2, AList.mem_lookup_iff.mpr hmem, hexpired⟩
  · rintro ⟨session, hmem, hexpired⟩
    exact ⟨⟨id, session⟩, ⟨AList.mem_lookup_iff.mp hmem, hexpired⟩, rfl⟩

/-- The sessions that a cleanup leaves. -/
theorem mem_getSession_cleanupExpired {now : Nat} {id : UInt64} {session : RelaySession} :
    session ∈ (s.cleanupExpired now).2.getSession id ↔
      session ∈ s.getSession id ∧ ¬ session.IsExpired s.config now := by
  have hlookup : (s.cleanupExpired now).2.getSession id =
      if id ∈ s.expired now then none else s.getSession id :=
    FiniteMap.lookup_eraseAll s.sessions (s.expired now) id
  rw [hlookup]
  constructor
  · intro h
    split at h
    · cases h
    case isFalse hnot => exact ⟨h, fun hexpired => hnot (mem_expired.mpr ⟨session, h, hexpired⟩)⟩
  · rintro ⟨hmem, hlive⟩
    rw [if_neg, hmem]
    · rfl
    · intro hexpired
      obtain ⟨session', hmem', hexpired⟩ := mem_expired.mp hexpired
      rw [Option.mem_unique hmem hmem'] at hlive
      exact hlive hexpired

/-- Replacing a session does not change their number. -/
theorem totalSessions_putSession {sessionId : UInt64} {session : RelaySession}
    (h : session ∈ s.getSession sessionId) (session' : RelaySession) :
    (s.putSession sessionId session').totalSessions = s.totalSessions :=
  FiniteMap.length_keys_insert_of_some h session'

/-- One session is added. -/
theorem totalSessions_opened_le (s : RelayService) (peerA peerB : RelayPeer) (now : Nat) :
    (s.opened peerA peerB now).totalSessions ≤ s.totalSessions + 1 :=
  FiniteMap.length_keys_insert_le s.nextSessionId _

/-- A cleanup adds no sessions. -/
theorem totalSessions_cleanupExpired_le (s : RelayService) (now : Nat) :
    (s.cleanupExpired now).2.totalSessions ≤ s.totalSessions :=
  FiniteMap.length_keys_eraseAll_le s.sessions _

/-- The service at the end of the capacity check. -/
def makeRoom (now : Nat) (s : RelayService) : RelayService :=
  if s.AtCapacity then (s.cleanupExpired now).2 else s

/-- A session is created where there is room after a cleanup of a full relay. -/
theorem createSession_eq (s : RelayService) (peerAId : PeerId) (peerAAddr : SocketAddr)
    (peerBId : PeerId) (peerBAddr : SocketAddr) (now : Nat) :
    createSession peerAId peerAAddr peerBId peerBAddr now s =
      if (s.makeRoom now).AtCapacity then
        .error (.error (.relayRefused "relay at capacity")) (s.makeRoom now)
      else
        .ok (s.makeRoom now).nextSessionId
          ((s.makeRoom now).opened (.new peerAId peerAAddr) (.new peerBId peerBAddr) now) := by
  rw [createSession, Exec.get_bind_apply, makeRoom]
  by_cases hfull : s.AtCapacity
  · rw [if_pos hfull, if_pos hfull]
    rw [Exec.set_bind_apply, Exec.get_bind_apply]
    by_cases hstill : (s.cleanupExpired now).2.AtCapacity
    · rw [if_pos hstill, if_pos hstill]
      rfl
    · rw [if_neg hstill, if_neg hstill]
      rfl
  · rw [if_neg hfull, if_neg hfull, if_neg hfull]
    rfl

/-- `activate_session` changes a pending session, or nothing. -/
theorem activateSession_cases (s : RelayService) (sessionId : UInt64) (now : Nat) :
    (∃ e, activateSession sessionId now s = .error e s) ∨
      ∃ session ∈ s.getSession sessionId, session.state = .pending ∧
        activateSession sessionId now s =
          .ok () (s.putSession sessionId (session.activated now)) := by
  rw [activateSession, Exec.get_bind_apply, Exec.bind_apply]
  cases hsession : s.getSession sessionId with
  | none => exact .inl ⟨_, rfl⟩
  | some session =>
    simp only [Exec.orError_some, Option.mem_some_iff, exists_eq_left']
    by_cases hstate : session.state = .pending
    · rw [if_neg (not_not_intro hstate)]
      exact .inr ⟨hstate, rfl⟩
    · rw [if_pos hstate]
      exact .inl ⟨_, rfl⟩

/-- `record_relay` counts the bytes of an active session under the bandwidth limit, or changes
nothing. -/
theorem recordRelay_cases {F : Type} (f64 : F64 F) (s : RelayService) (sessionId bytes : UInt64)
    (fromA : Bool) (now : Nat) :
    ((∃ e, recordRelay f64 sessionId bytes fromA now s = .error e s) ∧
      ∀ session ∈ s.getSession sessionId, session.state = .active →
        session.exceedsBandwidth f64 s.config now = true) ∨
      ∃ session ∈ s.getSession sessionId, session.state = .active ∧
        session.exceedsBandwidth f64 s.config now = false ∧
        recordRelay f64 sessionId bytes fromA now s =
          .ok () (s.putSession sessionId (session.recorded bytes fromA now)) := by
  rw [recordRelay, Exec.get_bind_apply, Exec.bind_apply]
  cases hsession : s.getSession sessionId with
  | none => exact .inl ⟨⟨_, rfl⟩, nofun⟩
  | some session =>
    simp only [Exec.orError_some, Option.mem_some_iff, exists_eq_left', forall_eq']
    by_cases hstate : session.state = .active
    · rw [if_neg (not_not_intro hstate)]
      cases hover : session.exceedsBandwidth f64 s.config now with
      | true => exact .inl ⟨⟨_, rfl⟩, fun _ => rfl⟩
      | false => exact .inr ⟨hstate, rfl, rfl⟩
    · rw [if_pos hstate]
      exact .inl ⟨⟨_, rfl⟩, fun hactive => absurd hactive hstate⟩

end

end RelayService

/-- A call of the service. -/
inductive RelayCall
  | createSession (peerAId : PeerId) (peerAAddr : SocketAddr) (peerBId : PeerId)
      (peerBAddr : SocketAddr)
  | activateSession (sessionId : UInt64)
  | recordRelay (sessionId bytes : UInt64) (fromA : Bool)
  | closeSession (sessionId : UInt64)
  | cleanupExpired
  | getForwardAddr (sessionId : UInt64) (fromPeer : PeerId)

/-- A call at a time. -/
structure RelayEvent where
  now : Nat
  call : RelayCall

namespace RelayService

variable {F : Type} (f64 : F64 F)

/-- The service after a call, however it ends. -/
def after (s : RelayService) (e : RelayEvent) : RelayService :=
  match e.call with
  | .createSession peerAId peerAAddr peerBId peerBAddr =>
    Exec.stateAfter (createSession peerAId peerAAddr peerBId peerBAddr e.now s)
  | .activateSession sessionId => Exec.stateAfter (activateSession sessionId e.now s)
  | .recordRelay sessionId bytes fromA =>
    Exec.stateAfter (recordRelay f64 sessionId bytes fromA e.now s)
  | .closeSession sessionId => s.closeSession sessionId
  | .cleanupExpired => (s.cleanupExpired e.now).2
  | .getForwardAddr _ _ => s

/-- Several events, one after the other. -/
def run (s : RelayService) (events : List RelayEvent) : RelayService := events.foldl (after f64) s

end RelayService

end CekyP2P.Relay
