import CekyP2P.Nat.Relay

/-!
# The sessions of a relay service

What a call can do to the sessions: each of them takes one of a few steps or leaves, and at most
one is opened, under the next id. From this follow the invariants of every run.
-/

namespace CekyP2P.Relay

open Crypto Transfer Stun Dht

/-- The order in which a session goes through its states. -/
def RelaySessionState.rank : RelaySessionState → Nat
  | .pending => 0
  | .active => 1
  | .closed => 2

namespace RelaySession

variable {now : Nat} {session session' : RelaySession}

/-- What a call does to a session that stays. -/
inductive Step (now : Nat) (session : RelaySession) : RelaySession → Prop
  | same : Step now session session
  | activated (hstate : session.state = .pending) : Step now session (session.activated now)
  | recorded (bytes : UInt64) (fromA : Bool) (hstate : session.state = .active) :
    Step now session (session.recorded bytes fromA now)
  | closed : Step now session session.closed

/-- Traffic keeps the identifier. -/
@[simp] theorem sessionId_recorded (bytes : UInt64) (fromA : Bool) :
    (session.recorded bytes fromA now).sessionId = session.sessionId := by
  cases fromA <;> rfl

/-- Traffic keeps the state. -/
@[simp] theorem state_recorded (bytes : UInt64) (fromA : Bool) :
    (session.recorded bytes fromA now).state = session.state := by
  cases fromA <;> rfl

/-- Traffic keeps the time of creation. -/
@[simp] theorem createdAt_recorded (bytes : UInt64) (fromA : Bool) :
    (session.recorded bytes fromA now).createdAt = session.createdAt := by
  cases fromA <;> rfl

/-- Traffic is activity. -/
@[simp] theorem lastActivity_recorded (bytes : UInt64) (fromA : Bool) :
    (session.recorded bytes fromA now).lastActivity = now := by
  cases fromA <;> rfl

/-- Traffic is counted. -/
@[simp] theorem bytesRelayed_recorded (bytes : UInt64) (fromA : Bool) :
    (session.recorded bytes fromA now).bytesRelayed = session.bytesRelayed + bytes := by
  cases fromA <;> rfl

/-- Every byte that one peer has sent was received by the other one and is counted once. -/
structure Balanced (session : RelaySession) : Prop where
  relayed_eq : session.bytesRelayed = session.peerA.bytesSent + session.peerB.bytesSent
  sentByA_eq : session.peerA.bytesSent = session.peerB.bytesReceived
  sentByB_eq : session.peerB.bytesSent = session.peerA.bytesReceived

/-- Traffic keeps a session balanced. -/
theorem Balanced.recorded (h : session.Balanced) (bytes : UInt64) (fromA : Bool) (now : Nat) :
    (session.recorded bytes fromA now).Balanced := by
  cases fromA with
  | true =>
    refine ⟨?_, congrArg (· + bytes) h.sentByA_eq, h.sentByB_eq⟩
    change session.bytesRelayed + bytes =
      session.peerA.bytesSent + bytes + session.peerB.bytesSent
    rw [h.relayed_eq, UInt64.add_assoc, UInt64.add_comm _ bytes, ← UInt64.add_assoc]
  | false =>
    refine ⟨?_, h.sentByA_eq, congrArg (· + bytes) h.sentByB_eq⟩
    change session.bytesRelayed + bytes =
      session.peerA.bytesSent + (session.peerB.bytesSent + bytes)
    rw [h.relayed_eq, UInt64.add_assoc]

/-- A step keeps a session balanced. -/
theorem Step.balanced (hstep : Step now session session') (h : session.Balanced) :
    session'.Balanced := by
  cases hstep with
  | same => exact h
  | activated => exact ⟨h.1, h.2, h.3⟩
  | recorded bytes fromA => exact h.recorded bytes fromA now
  | closed => exact ⟨h.1, h.2, h.3⟩

/-- A step keeps the identifier. -/
theorem Step.sessionId_eq (hstep : Step now session session') :
    session'.sessionId = session.sessionId := by
  cases hstep <;> simp [RelaySession.activated, RelaySession.closed]

/-- No step leads back. -/
theorem Step.rank_le (hstep : Step now session session') :
    session.state.rank ≤ session'.state.rank := by
  cases hstep with
  | same => exact Nat.le_refl _
  | activated hstate => simp [hstate, RelaySessionState.rank]
  | recorded => rw [state_recorded]
  | closed => cases h : session.state <;> simp [RelaySession.closed, RelaySessionState.rank]

end RelaySession

namespace RelayService

open RelaySession

variable {F : Type} {f64 : F64 F} {now : Nat} {s s' : RelayService}

/-- Nothing is opened: sessions take a step or leave. -/
structure Kept (now : Nat) (s s' : RelayService) : Prop where
  config_eq : s'.config = s.config
  nextSessionId_eq : s'.nextSessionId = s.nextSessionId
  total_le : s'.totalSessions ≤ s.totalSessions
  sessions : ∀ id, ∀ session' ∈ s'.getSession id, ∃ session ∈ s.getSession id,
    Step now session session'

/-- Nothing happens. -/
theorem Kept.refl (now : Nat) (s : RelayService) : Kept now s s :=
  ⟨rfl, rfl, Nat.le_refl _, fun _ session h => ⟨session, h, .same⟩⟩

/-- One session takes a step. -/
theorem kept_putSession {sessionId : UInt64} {session session' : RelaySession}
    (h : session ∈ s.getSession sessionId) (hstep : Step now session session') :
    Kept now s (s.putSession sessionId session') := by
  refine ⟨rfl, rfl, (totalSessions_putSession h session').le, fun id session'' hmem => ?_⟩
  rw [getSession_putSession] at hmem
  split at hmem
  case isTrue heq =>
    cases hmem
    exact ⟨session, heq ▸ h, hstep⟩
  case isFalse => exact ⟨session'', hmem, .same⟩

/-- A cleanup keeps what it leaves. -/
theorem kept_cleanupExpired (now : Nat) (s : RelayService) :
    Kept now s (s.cleanupExpired now).2 :=
  ⟨rfl, rfl, totalSessions_cleanupExpired_le s now,
    fun _ session h => ⟨session, (mem_getSession_cleanupExpired.mp h).1, .same⟩⟩

/-- Making room keeps what it leaves. -/
theorem kept_makeRoom (now : Nat) (s : RelayService) : Kept now s (s.makeRoom now) := by
  rw [makeRoom]
  split
  · exact kept_cleanupExpired now s
  · exact .refl now s

/-- What a call does: nothing is opened, or a session under the next id while there is room. -/
inductive Changes (now : Nat) (s : RelayService) : Option UInt64 → RelayService → Prop
  | kept {s' : RelayService} (h : Kept now s s') : Changes now s none s'
  | opened {s' : RelayService} (h : Kept now s s') (hroom : ¬ s'.AtCapacity) (peerAId : PeerId)
      (peerAAddr : SocketAddr) (peerBId : PeerId) (peerBAddr : SocketAddr) :
    Changes now s (some s'.nextSessionId)
      (s'.opened (.new peerAId peerAAddr) (.new peerBId peerBAddr) now)

/-- The configuration never changes. -/
theorem Changes.config_eq {id : Option UInt64} (h : Changes now s id s') :
    s'.config = s.config := by
  cases h with
  | kept hkept => exact hkept.config_eq
  | opened hkept => exact hkept.config_eq

/-- The id that a call of `create_session` returns. -/
def opens (s : RelayService) (e : RelayEvent) : Option UInt64 :=
  match e.call with
  | .createSession peerAId peerAAddr peerBId peerBAddr =>
    match createSession peerAId peerAAddr peerBId peerBAddr e.now s with
    | .ok sessionId _ => some sessionId
    | .error _ _ => none
  | _ => none

/-- What an event can do. -/
theorem changes_after (f64 : F64 F) (s : RelayService) (e : RelayEvent) :
    Changes e.now s (s.opens e) (s.after f64 e) := by
  obtain ⟨now, call⟩ := e
  cases call with
  | createSession peerAId peerAAddr peerBId peerBAddr =>
    simp only [opens, after, createSession_eq]
    by_cases hroom : (s.makeRoom now).AtCapacity
    · simp only [if_pos hroom]
      exact .kept (kept_makeRoom now s)
    · simp only [if_neg hroom]
      exact .opened (kept_makeRoom now s) hroom peerAId peerAAddr peerBId peerBAddr
  | activateSession sessionId =>
    refine .kept ?_
    rcases activateSession_cases s sessionId now with ⟨e, heq⟩ | ⟨session, hmem, hstate, heq⟩
    · simp only [after, heq]
      exact .refl now s
    · simp only [after, heq]
      exact kept_putSession hmem (.activated hstate)
  | recordRelay sessionId bytes fromA =>
    refine .kept ?_
    rcases recordRelay_cases f64 s sessionId bytes fromA now with
      ⟨⟨e, heq⟩, -⟩ | ⟨session, hmem, hstate, -, heq⟩
    · simp only [after, heq]
      exact .refl now s
    · simp only [after, heq]
      exact kept_putSession hmem (.recorded bytes fromA hstate)
  | closeSession sessionId =>
    refine .kept ?_
    simp only [after, closeSession]
    cases hsession : s.getSession sessionId with
    | none => exact .refl now s
    | some session => exact kept_putSession hsession .closed
  | cleanupExpired => exact .kept (kept_cleanupExpired now s)
  | getForwardAddr => exact .kept (.refl now s)

/-- The ids that the calls of `create_session` return. -/
def issued (f64 : F64 F) : RelayService → List RelayEvent → List UInt64
  | _, [] => []
  | s, e :: events => (s.opens e).toList ++ issued f64 (s.after f64 e) events

/-- The service after `n` creations. -/
structure Opened (config : RelayConfig) (n : Nat) (s : RelayService) : Prop where
  config_eq : s.config = config
  nextSessionId_eq : s.nextSessionId = UInt64.ofNat (n + 1)
  total_le : s.totalSessions ≤ config.maxSessions.toNat
  sessions : ∀ id, ∀ session ∈ s.getSession id,
    session.sessionId = id ∧ id.toNat ≤ n ∧ session.Balanced

/-- No session was opened yet. -/
theorem opened_new (config : RelayConfig) : Opened config 0 (new config) :=
  ⟨rfl, rfl, Nat.zero_le _, fun id session h => by simp at h⟩

variable {config : RelayConfig} {n : Nat}

/-- No session is opened. -/
theorem Opened.kept (h : Opened config n s) (hkept : Kept now s s') : Opened config n s' := by
  refine ⟨hkept.config_eq.trans h.config_eq, hkept.nextSessionId_eq.trans h.nextSessionId_eq,
    hkept.total_le.trans h.total_le, fun id session' hmem => ?_⟩
  obtain ⟨session, hsession, hstep⟩ := hkept.sessions id session' hmem
  obtain ⟨hid, hle, hbalanced⟩ := h.sessions id session hsession
  exact ⟨hstep.sessionId_eq.trans hid, hle, hstep.balanced hbalanced⟩

/-- The next identifier is the number of sessions so far plus one. -/
theorem Opened.toNat_nextSessionId (h : Opened config n s) (hfew : n + 1 < 2 ^ 64) :
    s.nextSessionId.toNat = n + 1 := by
  rw [h.nextSessionId_eq, UInt64.toNat_ofNat', Nat.mod_eq_of_lt hfew]

/-- One session is opened. -/
theorem Opened.opened (h : Opened config n s) (hfew : n + 1 < 2 ^ 64) (hroom : ¬ s.AtCapacity)
    (peerAId : PeerId) (peerAAddr : SocketAddr) (peerBId : PeerId) (peerBAddr : SocketAddr)
    (now : Nat) : Opened config (n + 1)
      (s.opened (.new peerAId peerAAddr) (.new peerBId peerBAddr) now) := by
  refine ⟨h.config_eq, ?_, ?_, fun id session hmem => ?_⟩
  · change s.nextSessionId + 1 = _
    rw [h.nextSessionId_eq, UInt64.ofNat_add (n + 1)]
    rfl
  · refine (totalSessions_opened_le s _ _ now).trans ?_
    rw [AtCapacity, h.config_eq] at hroom
    omega
  · rcases mem_getSession_opened hmem with ⟨rfl, rfl⟩ | hmem
    · rw [h.toNat_nextSessionId hfew]
      exact ⟨rfl, Nat.le_refl _, rfl, rfl, rfl⟩
    · obtain ⟨hid, hle, hbalanced⟩ := h.sessions id session hmem
      exact ⟨hid, hle.trans (Nat.le_succ n), hbalanced⟩

/-- What an event does to the count. -/
theorem Opened.changes (h : Opened config n s) {id : Option UInt64} (hchanges : Changes now s id s')
    (hfew : n + id.toList.length < 2 ^ 64) : Opened config (n + id.toList.length) s' := by
  cases hchanges with
  | kept hkept => exact h.kept hkept
  | opened hkept hroom peerAId peerAAddr peerBId peerBAddr =>
    exact (h.kept hkept).opened hfew hroom peerAId peerAAddr peerBId peerBAddr now

/-- A call that opens a session gives it the next id. -/
theorem Opened.opens_eq (h : Opened config n s) {id : Option UInt64}
    (hchanges : Changes now s id s') :
    id.toList = (List.range' (n + 1) id.toList.length).map UInt64.ofNat := by
  cases hchanges with
  | kept => rfl
  | opened hkept => simp [(h.kept hkept).nextSessionId_eq]

/-- The count over several events. -/
theorem Opened.run (h : Opened config n s) (events : List RelayEvent)
    (hfew : n + (s.issued f64 events).length < 2 ^ 64) :
    Opened config (n + (s.issued f64 events).length) (s.run f64 events) := by
  induction events generalizing n s with
  | nil => exact h
  | cons e events ih =>
    rw [issued, List.length_append, ← Nat.add_assoc] at hfew ⊢
    exact ih (h.changes (changes_after f64 s e) (by omega)) hfew

/-- Ids are issued in order. -/
theorem Opened.issued_eq (h : Opened config n s) (events : List RelayEvent)
    (hfew : n + (s.issued f64 events).length < 2 ^ 64) :
    s.issued f64 events =
      (List.range' (n + 1) (s.issued f64 events).length).map UInt64.ofNat := by
  induction events generalizing n s with
  | nil => rfl
  | cons e events ih =>
    rw [issued, List.length_append, ← Nat.add_assoc] at hfew
    have hchanges := changes_after f64 s e
    have hrest := ih (h.changes hchanges (by omega)) hfew
    rw [issued, List.length_append, ← List.range'_append_1, List.map_append, ← h.opens_eq hchanges,
      Nat.add_right_comm, ← hrest]

/-- A call does not open a session under an id that was issued before. -/
theorem Opened.session_step (h : Opened config n s) {new : Option UInt64}
    (hchanges : Changes now s new s') (hfew : n + new.toList.length < 2 ^ 64) {id : UInt64}
    (hid : id.toNat ≤ n) :
    ∀ session' ∈ s'.getSession id, ∃ session ∈ s.getSession id, Step now session session' := by
  cases hchanges with
  | kept hkept => exact hkept.sessions id
  | opened hkept hroom =>
    intro session' hmem
    rcases mem_getSession_opened hmem with ⟨rfl, -⟩ | hmem
    · rw [(h.kept hkept).toNat_nextSessionId hfew] at hid
      omega
    · exact hkept.sessions id session' hmem

/-- A session that was opened before has moved forward, or is gone for good. -/
theorem Opened.session_run (h : Opened config n s) (events : List RelayEvent)
    (hfew : n + (s.issued f64 events).length < 2 ^ 64) {id : UInt64} (hid : id.toNat ≤ n) :
    ∀ session' ∈ (s.run f64 events).getSession id,
      ∃ session ∈ s.getSession id, session.state.rank ≤ session'.state.rank := by
  induction events generalizing n s with
  | nil => exact fun session' h => ⟨session', h, Nat.le_refl _⟩
  | cons e events ih =>
    rw [issued, List.length_append, ← Nat.add_assoc] at hfew
    intro session'' hmem
    have hchanges := changes_after f64 s e
    obtain ⟨session', hsession', hle⟩ :=
      ih (h.changes hchanges (by omega)) hfew (by omega) session'' hmem
    obtain ⟨session, hsession, hstep⟩ := h.session_step hchanges (by omega) hid session' hsession'
    exact ⟨session, hsession, hstep.rank_le.trans hle⟩

/-- The identifiers of a run in two parts. -/
theorem issued_append (f64 : F64 F) (s : RelayService) (first rest : List RelayEvent) :
    s.issued f64 (first ++ rest) = s.issued f64 first ++ (s.run f64 first).issued f64 rest := by
  induction first generalizing s with
  | nil => rfl
  | cons e first ih =>
    rw [List.cons_append, issued, issued, ih, List.append_assoc]
    rfl

/-- A run in two parts. -/
theorem run_append (f64 : F64 F) (s : RelayService) (first rest : List RelayEvent) :
    s.run f64 (first ++ rest) = (s.run f64 first).run f64 rest := List.foldl_append

/-- The count from the start. -/
theorem opened_run (f64 : F64 F) (config : RelayConfig) (events : List RelayEvent)
    (hfew : ((new config).issued f64 events).length < 2 ^ 64) :
    Opened config ((new config).issued f64 events).length ((new config).run f64 events) := by
  have hrun := (opened_new config).run events ((Nat.zero_add _).trans_lt hfew)
  rwa [Nat.zero_add] at hrun

/-- What has happened to a session between two states of a run. -/
theorem session_between (f64 : F64 F) (config : RelayConfig) (first rest : List RelayEvent)
    (hfew : ((new config).issued f64 (first ++ rest)).length < 2 ^ 64) {id : UInt64}
    (hid : id.toNat ≤ ((new config).issued f64 first).length) :
    ∀ session' ∈ ((new config).run f64 (first ++ rest)).getSession id,
      ∃ session ∈ ((new config).run f64 first).getSession id,
        session.state.rank ≤ session'.state.rank := by
  rw [issued_append, List.length_append] at hfew
  rw [run_append]
  exact (opened_run f64 config first (by omega)).session_run rest hfew hid

/-- No id is issued twice. -/
theorem issued_nodup (f64 : F64 F) (config : RelayConfig) (events : List RelayEvent)
    (hfew : ((new config).issued f64 events).length < 2 ^ 64) :
    ((new config).issued f64 events).Nodup := by
  have hzero := (Nat.zero_add _).trans_lt hfew
  rw [(opened_new config).issued_eq events hzero]
  refine List.Nodup.map_on (fun a ha b hb heq => ?_) List.nodup_range'
  rw [List.mem_range'_1] at ha hb
  have htoNat := congrArg UInt64.toNat heq
  rwa [UInt64.toNat_ofNat', UInt64.toNat_ofNat', Nat.mod_eq_of_lt (by omega),
    Nat.mod_eq_of_lt (by omega)] at htoNat

/-- A refused activation changes nothing. -/
theorem eq_of_activateSession_error {sessionId : UInt64} {e : Stop NatError}
    (h : activateSession sessionId now s = .error e s') : s' = s := by
  rcases activateSession_cases s sessionId now with ⟨e', heq⟩ | ⟨session, -, -, heq⟩
  · rw [heq] at h
    cases h
    rfl
  · rw [heq] at h
    cases h

/-- Refused traffic changes nothing. -/
theorem eq_of_recordRelay_error {sessionId bytes : UInt64} {fromA : Bool} {e : Stop NatError}
    (h : recordRelay f64 sessionId bytes fromA now s = .error e s') : s' = s := by
  rcases recordRelay_cases f64 s sessionId bytes fromA now with
    ⟨⟨e', heq⟩, -⟩ | ⟨session, -, -, -, heq⟩
  · rw [heq] at h
    cases h
    rfl
  · rw [heq] at h
    cases h

/-- The state of the service after some calls, and how it came about. -/
structure Sound (f64 : F64 F) (config : RelayConfig) (events : List RelayEvent) : Prop where
  within_capacity : ((new config).run f64 events).totalSessions ≤ config.maxSessions.toNat
  stored_under_id : ∀ id, ∀ session ∈ ((new config).run f64 events).getSession id,
    session.sessionId = id
  /-- With the last id the counter starts over. -/
  below_next : ((new config).issued f64 events).length < 2 ^ 64 - 1 →
    ∀ id, ∀ session ∈ ((new config).run f64 events).getSession id,
      id < ((new config).run f64 events).nextSessionId
  issued_once : ((new config).issued f64 events).Nodup
  /-- As long as a session is there, its state moves forward. -/
  forward : ∀ first rest, events = first ++ rest →
    ∀ id, ∀ session ∈ ((new config).run f64 first).getSession id,
      ∀ session' ∈ ((new config).run f64 events).getSession id,
        session.state.rank ≤ session'.state.rank
  gone : ∀ first second rest, events = first ++ second ++ rest →
    ∀ id, ((new config).run f64 first).getSession id ≠ none →
      ((new config).run f64 (first ++ second)).getSession id = none →
      ((new config).run f64 events).getSession id = none
  balanced : ∀ id, ∀ session ∈ ((new config).run f64 events).getSession id, session.Balanced
  activateSession_fails : ∀ sessionId now e s',
    activateSession sessionId now ((new config).run f64 events) = .error e s' →
      s' = (new config).run f64 events
  recordRelay_fails : ∀ sessionId bytes fromA now e s',
    recordRelay f64 sessionId bytes fromA now ((new config).run f64 events) = .error e s' →
      s' = (new config).run f64 events

/-- The service is sound in every run with fewer than 2^64 sessions. -/
theorem service_sound (f64 : F64 F) (config : RelayConfig) (events : List RelayEvent)
    (hfew : ((new config).issued f64 events).length < 2 ^ 64) : Sound f64 config events := by
  have hrun := opened_run f64 config events hfew
  have hissued : ∀ first rest, events = first ++ rest → ∀ id,
      ((new config).run f64 first).getSession id ≠ none →
        id.toNat ≤ ((new config).issued f64 first).length := by
    rintro first rest rfl id hid
    rw [issued_append, List.length_append] at hfew
    obtain ⟨session, hsession⟩ := Option.ne_none_iff_exists'.mp hid
    exact ((opened_run f64 config first (by omega)).sessions id session hsession).2.1
  refine ⟨hrun.total_le, fun id session h => (hrun.sessions id session h).1, ?_, ?_, ?_, ?_,
    fun id session h => (hrun.sessions id session h).2.2,
    fun _ _ _ _ => eq_of_activateSession_error, fun _ _ _ _ _ _ => eq_of_recordRelay_error⟩
  · intro hmore id session h
    have hle := (hrun.sessions id session h).2.1
    rw [UInt64.lt_iff_toNat_lt, hrun.toNat_nextSessionId (by omega)]
    omega
  · exact issued_nodup f64 config events hfew
  · rintro first rest rfl id session h session' h'
    have hid := hissued first rest rfl id (Option.ne_none_iff_exists'.mpr ⟨session, h⟩)
    obtain ⟨session₀, h₀, hle⟩ := session_between f64 config first rest hfew hid session' h'
    rwa [Option.mem_unique h h₀]
  · rintro first second rest rfl id hid hnone
    have hid := hissued first (second ++ rest) (List.append_assoc ..) id hid
    have hmore : ((new config).issued f64 first).length ≤
        ((new config).issued f64 (first ++ second)).length := by
      rw [issued_append, List.length_append]
      exact Nat.le_add_right _ _
    rw [Option.eq_none_iff_forall_not_mem]
    intro session' h'
    obtain ⟨session, h, -⟩ :=
      session_between f64 config (first ++ second) rest hfew (hid.trans hmore) session' h'
    rw [hnone] at h
    cases h

/-- A peer whose identifier repeats one byte. -/
def peer (byte : UInt8) : PeerId := ⟨Vector.replicate 32 byte⟩

/-- An address on the local host. -/
def addr (port : UInt16) : SocketAddr := ⟨.v4 (Ipv4Addr.new 127 0 0 1), port⟩

/-- Two peers exchange a few bytes. -/
def oneSession : List RelayEvent :=
  [⟨0, .createSession (peer 1) (addr 9001) (peer 2) (addr 9002)⟩, ⟨1, .activateSession 1⟩,
    ⟨2, .recordRelay 1 1024 true⟩, ⟨3, .recordRelay 1 512 false⟩]

/-- A run with one session. -/
theorem oneSession_sound : Sound F64.exact .default oneSession :=
  service_sound .exact .default oneSession (by decide +kernel)

/-! ## The last id -/

/-- A relay with room for one session, which is idle at once. -/
def oneAtATime : RelayConfig := { RelayConfig.default with idleTimeout := 0, maxSessions := 1 }

/-- A session is created at every instant. -/
def creations (n : Nat) : List RelayEvent :=
  (List.range n).map fun now => ⟨now, .createSession (peer 1) (addr 9001) (peer 2) (addr 9002)⟩

/-- The creations are in the order of their times. -/
theorem times_creations (n : Nat) : ((creations n).map (·.now)).Pairwise (· ≤ ·) := by
  have htimes : (creations n).map (·.now) = List.range n := by
    rw [creations, List.map_map]
    exact List.map_id _
  rw [htimes]
  exact List.pairwise_lt_range.imp Nat.le_of_lt

/-- The last creation of many. -/
theorem run_creations_succ (f64 : F64 F) (s : RelayService) (n : Nat) :
    s.run f64 (creations (n + 1)) = Exec.stateAfter
      (createSession (peer 1) (addr 9001) (peer 2) (addr 9002) n (s.run f64 (creations n))) := by
  rw [creations, List.range_succ, List.map_append, run_append]
  rfl

/-- Every session is removed by the next creation. -/
theorem makeRoom_oneAtATime (hconfig : s.config = oneAtATime)
    (hidle : ∀ id, ∀ session ∈ s.getSession id, session.lastActivity < now) :
    ¬ (s.makeRoom now).AtCapacity ∧
      ∀ id, ∀ session ∈ (s.makeRoom now).getSession id, session ∈ s.getSession id := by
  by_cases hfull : s.AtCapacity
  · have hnone : ∀ id, (s.cleanupExpired now).2.getSession id = none := by
      intro id
      rw [Option.eq_none_iff_forall_not_mem]
      intro session hmem
      obtain ⟨hsession, hlive⟩ := mem_getSession_cleanupExpired.mp hmem
      refine hlive (.inr (.inl ?_))
      rw [hconfig]
      exact Nat.sub_pos_of_lt (hidle id session hsession)
    rw [makeRoom, if_pos hfull]
    constructor
    · rw [AtCapacity, totalSessions, FiniteMap.keys_eq_nil hnone]
      change ¬ s.config.maxSessions.toNat ≤ 0
      rw [hconfig]
      decide
    · intro id session hmem
      rw [hnone] at hmem
      cases hmem
  · rw [makeRoom, if_neg hfull]
    exact ⟨hfull, fun _ _ hmem => hmem⟩

/-- The state after many creations, one at a time. -/
theorem run_creations (f64 : F64 F) (n : Nat) :
    ((new oneAtATime).run f64 (creations n)).config = oneAtATime ∧
      ((new oneAtATime).run f64 (creations n)).nextSessionId = UInt64.ofNat (n + 1) ∧
      (∀ id, ∀ session ∈ ((new oneAtATime).run f64 (creations n)).getSession id,
        session.lastActivity < n) ∧
      (n ≠ 0 → ((new oneAtATime).run f64 (creations n)).getSession (UInt64.ofNat n) ≠ none) := by
  induction n with
  | zero => exact ⟨rfl, rfl, fun id session h => by simp [creations, run] at h, by simp⟩
  | succ n ih =>
    obtain ⟨hconfig, hnext, hidle, -⟩ := ih
    rw [run_creations_succ]
    generalize (new oneAtATime).run f64 (creations n) = s at hconfig hnext hidle ⊢
    obtain ⟨hroom, hsame⟩ := makeRoom_oneAtATime hconfig hidle
    have hkept := kept_makeRoom n s
    rw [createSession_eq, if_neg hroom]
    refine ⟨hkept.config_eq.trans hconfig, ?_, fun id session hmem => ?_, fun _ => ?_⟩
    · change (s.makeRoom n).nextSessionId + 1 = _
      rw [hkept.nextSessionId_eq, hnext, UInt64.ofNat_add (n + 1)]
      rfl
    · rcases mem_getSession_opened hmem with ⟨-, rfl⟩ | hmem
      · exact Nat.lt_succ_self n
      · exact (hidle id session (hsame id session hmem)).trans (Nat.lt_succ_self n)
    · change (opened _ _ n (s.makeRoom n)).getSession _ ≠ none
      rw [getSession_opened, if_pos (hnext.symm.trans hkept.nextSessionId_eq.symm)]
      exact Option.some_ne_none _

/-- An event issues at most one identifier. -/
theorem length_issued_le (f64 : F64 F) (s : RelayService) (events : List RelayEvent) :
    (s.issued f64 events).length ≤ events.length := by
  induction events generalizing s with
  | nil => exact Nat.le_refl _
  | cons e events ih =>
    have hone : (s.opens e).toList.length ≤ 1 := by cases s.opens e <;> simp
    have hrest := ih (s.after f64 e)
    rw [issued, List.length_append, List.length_cons]
    omega

/-- After as many creations as there are ids but one, the last session has the last id and the
counter is at zero. -/
theorem last_id_not_below :
    ((creations (2 ^ 64 - 1)).map (·.now)).Pairwise (· ≤ ·) ∧
      ((new oneAtATime).issued .exact (creations (2 ^ 64 - 1))).length < 2 ^ 64 ∧
      ∃ id, ∃ session ∈ ((new oneAtATime).run .exact (creations (2 ^ 64 - 1))).getSession id,
        ¬ id < ((new oneAtATime).run .exact (creations (2 ^ 64 - 1))).nextSessionId := by
  refine ⟨?_, ?_, UInt64.ofNat (2 ^ 64 - 1), ?_⟩
  · exact times_creations _
  · refine (length_issued_le .exact (new oneAtATime) _).trans_lt ?_
    rw [creations, List.length_map, List.length_range]
    decide
  · obtain ⟨-, hnext, -, hlast⟩ := run_creations F64.exact (2 ^ 64 - 1)
    obtain ⟨session, hsession⟩ := Option.ne_none_iff_exists'.mp (hlast (by decide))
    refine ⟨session, hsession, ?_⟩
    rw [hnext]
    decide

end RelayService

end CekyP2P.Relay
