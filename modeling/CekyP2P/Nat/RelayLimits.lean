import Mathlib.Algebra.Order.Field.Rat
import Mathlib.Tactic.FieldSimp
import CekyP2P.Nat.RelaySessions

/-!
# The limits of a relay service

Sessions are meant to end when they have been idle or have lived for too long, and to stay under a
bandwidth. The time limits are looked at in a cleanup only, and the bandwidth check looks at the
bytes relayed before the call.
-/

namespace CekyP2P.Relay

open Crypto Transfer Stun Dht

namespace RelaySession

variable {config : RelayConfig} {now earlier : Nat} {session session' : RelaySession}

/-- Neither limit has passed. -/
theorem not_pastLimit : ¬ session.PastLimit config now ↔
    now - session.createdAt ≤ config.maxDuration ∧
      now - session.lastActivity ≤ config.idleTimeout := by
  rw [PastLimit, not_or, Nat.not_lt, Nat.not_lt, and_comm]

/-- A session does not come to be past a limit at an earlier time. -/
theorem Step.not_pastLimit (hstep : Step now session session') (hle : earlier ≤ now)
    (h : session.state ≠ .closed → ¬ session.PastLimit config earlier) :
    session'.state ≠ .closed → ¬ session'.PastLimit config earlier := by
  have hidle : earlier - now ≤ config.idleTimeout := by omega
  cases hstep with
  | same => exact h
  | activated hstate =>
    intro _
    have hlimits := RelaySession.not_pastLimit.mp (h (by simp [hstate]))
    exact RelaySession.not_pastLimit.mpr ⟨hlimits.1, hidle⟩
  | recorded bytes fromA hstate =>
    intro _
    have hlimits := RelaySession.not_pastLimit.mp (h (by simp [hstate]))
    rw [RelaySession.not_pastLimit, createdAt_recorded, lastActivity_recorded]
    exact ⟨hlimits.1, hidle⟩
  | closed => exact fun hstate => absurd rfl hstate

end RelaySession

namespace RelayService

variable {F : Type} {f64 : F64 F} {now : Nat} {s s' : RelayService} {e : RelayEvent}

/-! ## Time limits -/

/-- A call that lets traffic through finds the session within its limits. -/
def RespectsLimits (f64 : F64 F) (s : RelayService) (e : RelayEvent) : Prop :=
  match e.call with
  | .recordRelay sessionId bytes fromA =>
    Exec.isOk (recordRelay f64 sessionId bytes fromA e.now s) = true →
      ∀ session ∈ s.getSession sessionId,
        e.now - session.createdAt ≤ s.config.maxDuration ∧
          e.now - session.lastActivity ≤ s.config.idleTimeout
  | .getForwardAddr sessionId fromPeer =>
    (s.getForwardAddr sessionId fromPeer).isSome = true →
      ∀ session ∈ s.getSession sessionId,
        e.now - session.createdAt ≤ s.config.maxDuration ∧
          e.now - session.lastActivity ≤ s.config.idleTimeout
  | _ => True

instance (f64 : F64 F) (s : RelayService) (e : RelayEvent) :
    Decidable (s.RespectsLimits f64 e) := by
  unfold RespectsLimits
  split <;> infer_instance

/-- The session whose traffic a call is to let through, among some sessions: it is active, under
the bandwidth limit, and the packet comes from one of its peers. -/
def traffic (f64 : F64 F) (config : RelayConfig) (sessions : UInt64 → Option RelaySession)
    (e : RelayEvent) : Option RelaySession :=
  match e.call with
  | .recordRelay sessionId _ _ => (sessions sessionId).filter fun session =>
    session.state = .active ∧ session.exceedsBandwidth f64 config e.now = false
  | .getForwardAddr sessionId fromPeer => (sessions sessionId).filter fun session =>
    session.state = .active ∧
      (session.peerA.peerId = fromPeer ∨ session.peerB.peerId = fromPeer)
  | _ => none

/-- The session of a call is active, and the session of the call wherever it is found. -/
theorem of_mem_traffic {config : RelayConfig} {sessions : UInt64 → Option RelaySession}
    {session : RelaySession} (h : session ∈ traffic f64 config sessions e) :
    ∃ id, session ∈ sessions id ∧ session.state = .active ∧
      ∀ others : UInt64 → Option RelaySession, session ∈ others id →
        session ∈ traffic f64 config others e := by
  obtain ⟨now, call⟩ := e
  cases call with
  | recordRelay sessionId bytes fromA =>
    obtain ⟨hmem, hlets⟩ := Option.mem_filter_iff.mp h
    refine ⟨sessionId, hmem, (of_decide_eq_true hlets).1, fun others hother => ?_⟩
    exact Option.mem_filter_iff.mpr ⟨hother, hlets⟩
  | getForwardAddr sessionId fromPeer =>
    obtain ⟨hmem, hlets⟩ := Option.mem_filter_iff.mp h
    refine ⟨sessionId, hmem, (of_decide_eq_true hlets).1, fun others hother => ?_⟩
    exact Option.mem_filter_iff.mpr ⟨hother, hlets⟩
  | _ => cases h

/-- When traffic is recorded. -/
theorem isOk_recordRelay {sessionId bytes : UInt64} {fromA : Bool} :
    Exec.isOk (recordRelay f64 sessionId bytes fromA now s) = true ↔
      ∃ session ∈ s.getSession sessionId, session.state = .active ∧
        session.exceedsBandwidth f64 s.config now = false := by
  rcases recordRelay_cases f64 s sessionId bytes fromA now with
    ⟨⟨e, heq⟩, hover⟩ | ⟨session, hmem, hstate, hunder, heq⟩
  · rw [heq]
    refine iff_of_false Bool.false_ne_true ?_
    rintro ⟨session, hmem, hstate, hunder⟩
    rw [hover session hmem hstate] at hunder
    cases hunder
  · rw [heq]
    exact iff_of_true rfl ⟨session, hmem, hstate, hunder⟩

/-- When an address is returned. -/
theorem isSome_getForwardAddr {sessionId : UInt64} {fromPeer : PeerId} :
    (s.getForwardAddr sessionId fromPeer).isSome = true ↔
      ∃ session ∈ s.getSession sessionId, session.state = .active ∧
        (session.peerA.peerId = fromPeer ∨ session.peerB.peerId = fromPeer) := by
  rw [getForwardAddr]
  cases s.getSession sessionId with
  | none => simp
  | some session =>
    simp only [Option.bind_eq_bind, Option.bind_some, Option.mem_some_iff, exists_eq_left']
    by_cases hstate : session.state = .active
    · by_cases ha : session.peerA.peerId = fromPeer
      · simp [hstate, ha]
      · by_cases hb : session.peerB.peerId = fromPeer <;> simp [hstate, ha, hb]
    · simp [hstate]

/-- A property of what a value is, if it is of a kind. -/
theorem forall_of_exists_iff {α : Type} {p q : α → Prop} [DecidablePred p] (o : Option α) :
    ((∃ a ∈ o, p a) → ∀ a ∈ o, q a) ↔ ∀ a ∈ o.filter p, q a := by
  cases o with
  | none => simp
  | some a => by_cases hp : p a <;> simp [hp]

/-- A service respects the limits where no session that is past one is let through. -/
theorem respectsLimits_iff : s.RespectsLimits f64 e ↔
    ∀ session ∈ traffic f64 s.config s.getSession e, ¬ session.PastLimit s.config e.now := by
  obtain ⟨now, call⟩ := e
  simp only [RelaySession.not_pastLimit]
  cases call with
  | recordRelay sessionId bytes fromA =>
    simp only [RespectsLimits, isOk_recordRelay]
    exact forall_of_exists_iff (s.getSession sessionId)
  | getForwardAddr sessionId fromPeer =>
    simp only [RespectsLimits, isSome_getForwardAddr]
    exact forall_of_exists_iff (s.getSession sessionId)
  | _ => exact iff_of_true trivial nofun

/-- The call removes the sessions that have expired. -/
def CleansUp (s : RelayService) (e : RelayEvent) : Prop :=
  match e.call with
  | .cleanupExpired => True
  | .createSession _ _ _ _ => s.AtCapacity
  | _ => False

instance (s : RelayService) (e : RelayEvent) : Decidable (s.CleansUp e) := by
  unfold CleansUp
  split <;> infer_instance

section

variable {time : Nat} (hle : time ≤ now) (h : ∀ id, ∀ session ∈ s.getSession id,
  session.state ≠ .closed → ¬ session.PastLimit s.config time)

include hle h

/-- A session that is kept is not past a limit at an earlier time if it was not before. -/
theorem Kept.not_pastLimit (hkept : Kept now s s') : ∀ id, ∀ session ∈ s'.getSession id,
    session.state ≠ .closed → ¬ session.PastLimit s.config time := by
  intro id session' hmem
  obtain ⟨session, hsession, hstep⟩ := hkept.sessions id session' hmem
  exact hstep.not_pastLimit hle (h id session hsession)

/-- A call leaves no session past a limit at an earlier time if there was none before. -/
theorem Changes.not_pastLimit {id : Option UInt64} (hchanges : Changes now s id s') :
    ∀ id, ∀ session ∈ s'.getSession id,
      session.state ≠ .closed → ¬ session.PastLimit s.config time := by
  cases hchanges with
  | kept hkept => exact hkept.not_pastLimit hle h
  | opened hkept =>
    intro id session hmem
    rcases mem_getSession_opened hmem with ⟨-, rfl⟩ | hmem
    · intro _
      rw [RelaySession.not_pastLimit]
      change time - now ≤ _ ∧ time - now ≤ _
      omega
    · exact hkept.not_pastLimit hle h id session hmem

end

/-- A cleanup leaves no session that is past a limit. -/
theorem after_cleansUp (f64 : F64 F) (h : s.CleansUp e) :
    ∀ id, ∀ session ∈ (s.after f64 e).getSession id, ¬ session.PastLimit s.config e.now := by
  obtain ⟨now, call⟩ := e
  have hclean : ∀ id, ∀ session ∈ (s.cleanupExpired now).2.getSession id,
      ¬ session.PastLimit s.config now := by
    intro id session hmem hpast
    exact (mem_getSession_cleanupExpired.mp hmem).2 (.inr hpast)
  cases call with
  | cleanupExpired => exact hclean
  | createSession peerAId peerAAddr peerBId peerBAddr =>
    have hfull : s.AtCapacity := h
    simp only [after, createSession_eq, makeRoom, if_pos hfull]
    split
    · exact hclean
    · intro id session hmem
      rcases mem_getSession_opened hmem with ⟨-, rfl⟩ | hmem
      · simp [RelaySession.not_pastLimit, RelaySession.new]
      · exact hclean id session hmem
  | _ => exact h.elim

/-- Storing a session takes none out. -/
theorem getSession_putSession_ne_none {id : UInt64} (h : s.getSession id ≠ none)
    (sessionId : UInt64) (session : RelaySession) :
    (s.putSession sessionId session).getSession id ≠ none := by
  rw [getSession_putSession]
  split
  · exact Option.some_ne_none _
  · exact h

/-- A session that a cleanup takes out has expired. -/
theorem isExpired_of_cleanupExpired {id : UInt64} {session : RelaySession} {now : Nat}
    (h : session ∈ s.getSession id) (hgone : (s.cleanupExpired now).2.getSession id = none) :
    session.IsExpired s.config now := by
  by_contra hlive
  have hmem := mem_getSession_cleanupExpired.mpr ⟨h, hlive⟩
  cases hgone.symm.trans hmem

/-- Only a cleanup takes a session out, and only one that has expired. -/
theorem cleansUp_of_removed {id : UInt64} {session : RelaySession}
    (h : session ∈ s.getSession id) (hgone : (s.after f64 e).getSession id = none) :
    s.CleansUp e ∧ session.IsExpired s.config e.now := by
  obtain ⟨now, call⟩ := e
  have hthere : s.getSession id ≠ none := Option.ne_none_iff_exists'.mpr ⟨session, h⟩
  cases call with
  | cleanupExpired => exact ⟨trivial, isExpired_of_cleanupExpired h hgone⟩
  | createSession peerAId peerAAddr peerBId peerBAddr =>
    simp only [after, createSession_eq, makeRoom] at hgone
    by_cases hfull : s.AtCapacity
    · refine ⟨hfull, isExpired_of_cleanupExpired h ?_⟩
      simp only [if_pos hfull] at hgone
      split at hgone
      · exact hgone
      · exact of_not_not fun hne => getSession_putSession_ne_none hne _ _ hgone
    · simp only [if_neg hfull] at hgone
      exact absurd hgone (getSession_putSession_ne_none hthere _ _)
  | activateSession sessionId =>
    rcases activateSession_cases s sessionId now with ⟨e, heq⟩ | ⟨session', -, -, heq⟩
    · simp only [after, heq] at hgone
      exact absurd hgone hthere
    · simp only [after, heq] at hgone
      exact absurd hgone (getSession_putSession_ne_none hthere _ _)
  | recordRelay sessionId bytes fromA =>
    rcases recordRelay_cases f64 s sessionId bytes fromA now with
      ⟨⟨e, heq⟩, -⟩ | ⟨session', -, -, -, heq⟩
    · simp only [after, heq] at hgone
      exact absurd hgone hthere
    · simp only [after, heq] at hgone
      exact absurd hgone (getSession_putSession_ne_none hthere _ _)
  | closeSession sessionId =>
    simp only [after, closeSession] at hgone
    split at hgone
    · exact absurd hgone (getSession_putSession_ne_none hthere _ _)
    · exact absurd hgone hthere
  | getForwardAddr sessionId fromPeer => exact absurd hgone hthere

end RelayService

/-- A service with the history of its sessions and of its cleanups. -/
structure Watched where
  service : RelayService
  /-- Every session as it was last in the map, also after a cleanup has removed it. -/
  known : UInt64 → Option RelaySession
  /-- The times of the cleanups. -/
  cleanups : List Nat

namespace Watched

variable {F : Type} {f64 : F64 F} {w : Watched} {e : RelayEvent}

/-- A new service has no history. -/
def new (config : RelayConfig) : Watched := ⟨.new config, fun _ => none, []⟩

/-- The history goes on with the service. -/
def after (f64 : F64 F) (w : Watched) (e : RelayEvent) : Watched where
  service := w.service.after f64 e
  known id := ((w.service.after f64 e).getSession id).or (w.known id)
  cleanups := if w.service.CleansUp e then e.now :: w.cleanups else w.cleanups

/-- When traffic comes for a session that was active when it was last in the map and is past a
limit by now, a cleanup has run after that limit had passed. -/
def CleanedUp (f64 : F64 F) (w : Watched) (e : RelayEvent) : Prop :=
  ∀ session ∈ RelayService.traffic f64 w.service.config w.known e,
    session.PastLimit w.service.config e.now →
      ∃ time ∈ w.cleanups, session.PastLimit w.service.config time

instance (f64 : F64 F) (w : Watched) (e : RelayEvent) : Decidable (w.CleanedUp f64 e) :=
  inferInstanceAs (Decidable (∀ session ∈ RelayService.traffic f64 _ w.known e, _))

/-- What the history says of the map. -/
structure Recorded (w : Watched) : Prop where
  /-- The sessions in the map are known as they are. -/
  present : ∀ id, ∀ session ∈ w.service.getSession id, session ∈ w.known id
  /-- A session that has left the map was closed, or past a limit at a cleanup. -/
  gone : ∀ id, w.service.getSession id = none → ∀ session ∈ w.known id,
    session.state = .closed ∨ ∃ time ∈ w.cleanups, session.PastLimit w.service.config time
  /-- No session in the map was past a limit at a cleanup. -/
  clean : ∀ time ∈ w.cleanups, ∀ id, ∀ session ∈ w.service.getSession id,
    session.state ≠ .closed → ¬ session.PastLimit w.service.config time

/-- Nothing has happened. -/
theorem recorded_new (config : RelayConfig) : (new config).Recorded where
  present id session h := by
    rw [new, RelayService.getSession_new] at h
    cases h
  gone _ _ _ h := by cases h
  clean _ h := by cases h

/-- A cleanup is recorded with its time. -/
theorem mem_cleanups_after {time : Nat} :
    time ∈ (w.after f64 e).cleanups ↔
      w.service.CleansUp e ∧ time = e.now ∨ time ∈ w.cleanups := by
  rw [after]
  split
  case isTrue h => simp [h]
  case isFalse h => simp [h]

/-- A call keeps what the history says. -/
theorem Recorded.after (h : w.Recorded) (f64 : F64 F) (hle : ∀ time ∈ w.cleanups, time ≤ e.now) :
    (w.after f64 e).Recorded := by
  have hchanges := RelayService.changes_after f64 w.service e
  have hconfig : (w.after f64 e).service.config = w.service.config := hchanges.config_eq
  refine ⟨fun id session hmem => ?_, fun id hnone session hmem => ?_,
    fun time htime id session hmem hstate => ?_⟩
  · exact (congrArg (·.or (w.known id)) hmem).trans Option.some_or
  · have hafter : (w.after f64 e).known id = w.known id :=
      (congrArg (·.or (w.known id)) hnone).trans Option.none_or
    have hknown : session ∈ w.known id := hafter ▸ hmem
    rw [hconfig]
    cases hbefore : w.service.getSession id with
    | none =>
      refine (h.gone id hbefore session hknown).imp_right fun ⟨time, htime, hpast⟩ => ?_
      exact ⟨time, mem_cleanups_after.mpr (.inr htime), hpast⟩
    | some session' =>
      obtain rfl : session = session' := Option.mem_unique hknown (h.present id session' hbefore)
      obtain ⟨hcleans, hexpired⟩ := RelayService.cleansUp_of_removed hbefore hnone
      refine hexpired.imp_right fun hpast => ?_
      exact ⟨e.now, mem_cleanups_after.mpr (.inl ⟨hcleans, rfl⟩), hpast⟩
  · rw [hconfig]
    rcases mem_cleanups_after.mp htime with ⟨hcleans, rfl⟩ | htime
    · exact RelayService.after_cleansUp f64 hcleans id session hmem
    · exact RelayService.Changes.not_pastLimit (hle time htime) (h.clean time htime) hchanges id
        session hmem hstate

/-- A session that is past a limit is let through just if no cleanup has run since. -/
theorem Recorded.cleanedUp_iff (h : w.Recorded) :
    w.CleanedUp f64 e ↔ w.service.RespectsLimits f64 e := by
  rw [RelayService.respectsLimits_iff]
  constructor
  · intro hcleaned session hmem hpast
    obtain ⟨id, hsession, hstate, hfound⟩ := RelayService.of_mem_traffic hmem
    have hknown := hfound w.known (h.present id session hsession)
    obtain ⟨time, htime, hpast'⟩ := hcleaned session hknown hpast
    exact h.clean time htime id session hsession (by simp [hstate]) hpast'
  · intro hrespects session hmem hpast
    obtain ⟨id, hknown, hstate, hfound⟩ := RelayService.of_mem_traffic hmem
    cases hsession : w.service.getSession id with
    | none =>
      rcases h.gone id hsession session hknown with hclosed | hcleaned
      · rw [hstate] at hclosed
        cases hclosed
      · exact hcleaned
    | some session' =>
      obtain rfl : session = session' := Option.mem_unique hknown (h.present id session' hsession)
      exact absurd hpast (hrespects session (hfound w.service.getSession hsession))

/-- At times in order, traffic finds every session within its time limits just if, whenever it
comes for a session that is past one, a cleanup has run since that limit had passed. -/
theorem respectsLimits_run_iff (f64 : F64 F) (config : RelayConfig) (events : List RelayEvent)
    (htimes : (events.map (·.now)).Pairwise (· ≤ ·)) :
    Along (RelayService.RespectsLimits f64) (RelayService.after f64) (.new config) events ↔
      Along (CleanedUp f64) (Watched.after f64) (new config) events := by
  have hpart : Along (fun w : Watched => w.service.RespectsLimits f64) (Watched.after f64)
      (new config) events ↔
      Along (RelayService.RespectsLimits f64) (RelayService.after f64) (.new config) events :=
    along_part service (fun _ _ => rfl) _ events
  rw [← hpart]
  refine along_congr_of (I := fun w events => w.Recorded ∧
    (∀ time ∈ w.cleanups, ∀ e ∈ events, time ≤ e.now) ∧
    (events.map (·.now)).Pairwise (· ≤ ·)) ?_ ?_ ⟨recorded_new config, nofun, htimes⟩
  · rintro w e events ⟨hrecorded, hle, htimes⟩
    rw [List.map_cons, List.pairwise_cons] at htimes
    have hbefore : ∀ time ∈ w.cleanups, time ≤ e.now :=
      fun time htime => hle time htime e List.mem_cons_self
    refine ⟨hrecorded.after f64 hbefore, ?_, htimes.2⟩
    intro time htime e' he'
    rcases mem_cleanups_after.mp htime with ⟨-, rfl⟩ | htime
    · exact htimes.1 e'.now (List.mem_map_of_mem he')
    · exact hle time htime e' (List.mem_cons_of_mem e he')
  · rintro w e events ⟨hrecorded, -⟩
    exact hrecorded.cleanedUp_iff.symm

open RelayService (peer addr)

/-- A session is used again after two minutes. -/
def lateTraffic : List RelayEvent :=
  [⟨0, .createSession (peer 1) (addr 9001) (peer 2) (addr 9002)⟩, ⟨0, .activateSession 1⟩,
    ⟨120 * 1000000000, .getForwardAddr 1 (peer 1)⟩, ⟨120 * 1000000000, .recordRelay 1 1024 true⟩]

/-- Traffic passes a session that has been idle for too long. -/
theorem lateTraffic_not_respectsLimits :
    (lateTraffic.map (·.now)).Pairwise (· ≤ ·) ∧
      ¬ Along (RelayService.RespectsLimits .exact) (RelayService.after .exact) (.new .default)
        lateTraffic := by decide +kernel

/-- The same with a cleanup before. -/
def lateTrafficCleaned : List RelayEvent :=
  lateTraffic.take 2 ++ ⟨120 * 1000000000, .cleanupExpired⟩ :: lateTraffic.drop 2

/-- With a cleanup in time, it does not. -/
theorem lateTrafficCleaned_respectsLimits :
    Along (RelayService.RespectsLimits .exact) (RelayService.after .exact) (.new .default)
      lateTrafficCleaned :=
  (respectsLimits_run_iff .exact .default lateTrafficCleaned (by decide)).mpr (by decide +kernel)

end Watched

/-! ## Bandwidth -/

/-- The bytes that the bandwidth limit allows a session until a time. -/
def RelaySession.allowance (config : RelayConfig) (now : Nat) (session : RelaySession) : ℚ :=
  config.maxBandwidthBps.toNat * ((now - session.createdAt : Nat) / 1000000000)

/-- Traffic does not change what a session is allowed by now. -/
theorem RelaySession.allowance_recorded (config : RelayConfig) (session : RelaySession)
    (bytes : UInt64) (fromA : Bool) (now : Nat) :
    (session.recorded bytes fromA now).allowance config now = session.allowance config now := by
  rw [allowance, createdAt_recorded, allowance]

/-- Exact durations in seconds. -/
theorem asSecs_exact (duration : Nat) :
    PeerScore.asSecs F64.exact duration = (duration / 1000000000 : ℚ) := by
  have hsplit : (duration : ℚ) =
      (duration / 1000000000 : Nat) * 1000000000 + (duration % 1000000000 : Nat) := by
    exact_mod_cast (Nat.div_add_mod' duration 1000000000).symm
  rw [hsplit, add_div, mul_div_cancel_right₀ _ (by decide)]
  rfl

/-- With exact numbers the check compares the bytes relayed so far with the allowance. -/
theorem RelaySession.exceedsBandwidth_exact {config : RelayConfig} {now : Nat}
    {session : RelaySession} (hage : 1000000000 ≤ now - session.createdAt) :
    session.exceedsBandwidth F64.exact config now = true ↔
      session.allowance config now < session.bytesRelayed.toNat := by
  have hsecs : 1 ≤ (now - session.createdAt) / 1000000000 :=
    (Nat.one_le_div_iff (by decide)).mpr hage
  have hpos : (0 : ℚ) < (now - session.createdAt : Nat) / 1000000000 :=
    div_pos (Nat.cast_pos.mpr (by omega)) (by decide)
  simp only [exceedsBandwidth, if_pos hsecs, asSecs_exact]
  change decide (_ < _) = true ↔ _
  rw [decide_eq_true_iff]
  exact lt_div_iff₀ hpos

/-- The arguments of a call of `record_relay` for a session, and its time. -/
structure RelayRecord where
  bytes : UInt64
  fromA : Bool
  now : Nat

namespace RelayService

variable {sessionId : UInt64} {s : RelayService} {r : RelayRecord}

/-- The service after some traffic. -/
def afterRecord (sessionId : UInt64) (s : RelayService) (r : RelayRecord) : RelayService :=
  Exec.stateAfter (recordRelay F64.exact sessionId r.bytes r.fromA r.now s)

/-- After a call that succeeds, the session is under the bandwidth limit from its first second
on. -/
def WithinBandwidth (sessionId : UInt64) (s : RelayService) (r : RelayRecord) : Prop :=
  Exec.isOk (recordRelay F64.exact sessionId r.bytes r.fromA r.now s) = true →
    ∀ session ∈ (s.afterRecord sessionId r).getSession sessionId,
      1000000000 ≤ r.now - session.createdAt →
        session.bytesRelayed.toNat ≤ session.allowance s.config r.now

instance (sessionId : UInt64) (s : RelayService) (r : RelayRecord) :
    Decidable (s.WithinBandwidth sessionId r) := inferInstanceAs (Decidable (_ → _))

/-- A session that has not used up its allowance has room for the bytes of the call. -/
def FitsAllowance (sessionId : UInt64) (s : RelayService) (r : RelayRecord) : Prop :=
  ∀ session ∈ s.getSession sessionId, session.state = .active →
    1000000000 ≤ r.now - session.createdAt →
      session.bytesRelayed.toNat ≤ session.allowance s.config r.now →
        (session.bytesRelayed + r.bytes).toNat ≤ session.allowance s.config r.now

/-- Traffic stays within the bandwidth just if it fits what is allowed and not yet used. -/
theorem withinBandwidth_iff : s.WithinBandwidth sessionId r ↔ s.FitsAllowance sessionId r := by
  rw [WithinBandwidth, afterRecord]
  rcases recordRelay_cases F64.exact s sessionId r.bytes r.fromA r.now with
    ⟨⟨e, heq⟩, hover⟩ | ⟨session, hmem, hstate, hunder, heq⟩
  · rw [heq]
    refine iff_of_true (fun hok => absurd hok Bool.false_ne_true) ?_
    intro session hmem hstate hage hleft
    have hexceeds := (RelaySession.exceedsBandwidth_exact hage).mp (hover session hmem hstate)
    exact absurd hleft (not_le.mpr hexceeds)
  · have hafter : (s.putSession sessionId (session.recorded r.bytes r.fromA r.now)).getSession
        sessionId = some (session.recorded r.bytes r.fromA r.now) := by
      rw [getSession_putSession, if_pos rfl]
    rw [heq]
    constructor
    · intro h session₀ hmem₀ _ hage _
      rw [Option.mem_unique hmem₀ hmem] at hage ⊢
      have hwithin := h rfl _ hafter (by rwa [RelaySession.createdAt_recorded])
      rwa [RelaySession.bytesRelayed_recorded, RelaySession.allowance_recorded] at hwithin
    · intro h _ session' hmem' hage
      rw [Option.mem_unique hmem' hafter] at hage ⊢
      rw [RelaySession.createdAt_recorded] at hage
      rw [RelaySession.bytesRelayed_recorded, RelaySession.allowance_recorded]
      refine h session hmem hstate hage (not_lt.mp fun hlt => ?_)
      rw [(RelaySession.exceedsBandwidth_exact hage).mpr hlt] at hunder
      cases hunder

/-- With exact numbers a session stays under the bandwidth limit just if every call that the check
lets through from the first second on brings no more bytes than the limit leaves. -/
theorem withinBandwidth_run_iff (sessionId : UInt64) (s : RelayService)
    (records : List RelayRecord) :
    Along (WithinBandwidth sessionId) (afterRecord sessionId) s records ↔
      Along (FitsAllowance sessionId) (afterRecord sessionId) s records :=
  along_congr _ (fun _ _ => withinBandwidth_iff) s records

/-- A session that has relayed nothing yet. -/
def freshSession : RelayService := (new .default).run F64.exact (oneSession.take 2)

/-- One gigabyte passes in the first second. -/
theorem burst_not_withinBandwidth :
    ¬ Along (WithinBandwidth 1) (afterRecord 1) freshSession
      [⟨1024 * 1024 * 1024, true, 1000000000⟩] := by decide +kernel

end RelayService

end CekyP2P.Relay
