import CekyP2P.Core.Symbolic
import CekyP2P.Crypto.NoiseCalls

/-!
# Handshakes on a network controlled by an adversary

The handshake code runs on symbolic bytes. Any number of honest nodes hold any
number of handshakes, each called in any order; every message a call receives is
one the adversary can compute from what was sent so far with the secrets of its own.
-/

namespace CekyP2P.Crypto

/-- Secret scalars: the honest nodes' static secrets, the ephemeral secrets their calls
draw, and the adversary's own. -/
inductive Name
  | static (node : Nat)
  | msg1Ephemeral (k : Nat)
  | msg2Ephemeral (k : Nat)
  | adversary (k : Nat)

/-- The secrets in the adversary's hands. -/
inductive Name.Held : Name → Prop
  | adversary (k : Nat) : Held (.adversary k)

/-- The adversary holds no ephemeral secret of an initiator. -/
theorem Name.not_held_msg1Ephemeral (k : Nat) : ¬Name.Held (.msg1Ephemeral k) := nofun

/-- The adversary holds no ephemeral secret of a responder. -/
theorem Name.not_held_msg2Ephemeral (k : Nat) : ¬Name.Held (.msg2Ephemeral k) := nofun

/-- The adversary holds no static secret of an honest node. -/
theorem Name.not_held_static (node : Nat) : ¬Name.Held (.static node) := nofun

/-- The symbols that stand for bytes. -/
abbrev SymByte := Symbol Name

/-- The suite of the handshake on symbolic bytes. -/
@[irreducible] noncomputable def symbolicSuite : Suite SymByte Name where
  lit := Symbol.lit
  publicKey := Symbol.publicKey
  dh := Symbol.diffieHellman
  sha256 := Symbol.digest
  hmacSha256 := Symbol.authenticate
  aead :=
    { encrypt := fun key nonce msg aad => some (Symbol.encrypt key.toList nonce.toList aad msg)
      decrypt := fun key nonce msg aad => Symbol.decrypt key.toList nonce.toList aad msg }

section

variable (x : Name) (point : Vector SymByte 32) (key : Vector SymByte 32)
  (nonce : Vector SymByte 12) (msg aad : List SymByte)

@[simp] theorem symbolicSuite_lit : symbolicSuite.lit = Symbol.lit := by rw [symbolicSuite]

@[simp] theorem symbolicSuite_publicKey : symbolicSuite.publicKey x = Symbol.publicKey x := by
  rw [symbolicSuite]

@[simp] theorem symbolicSuite_dh :
    symbolicSuite.dh x point = Symbol.diffieHellman x point := by
  rw [symbolicSuite]

@[simp] theorem symbolicSuite_sha256 : symbolicSuite.sha256 msg = Symbol.digest msg := by
  rw [symbolicSuite]

@[simp] theorem symbolicSuite_hmacSha256 :
    symbolicSuite.hmacSha256 msg aad = Symbol.authenticate msg aad := by
  rw [symbolicSuite]

@[simp] theorem symbolicSuite_encrypt : symbolicSuite.aead.encrypt key nonce msg aad =
    some (Symbol.encrypt key.toList nonce.toList aad msg) := by
  rw [symbolicSuite]

@[simp] theorem symbolicSuite_decrypt : symbolicSuite.aead.decrypt key nonce msg aad =
    Symbol.decrypt key.toList nonce.toList aad msg := by
  rw [symbolicSuite]

end

/-- The symbolic suite has the laws. -/
theorem symbolicSuite_lawful : symbolicSuite.Lawful where
  dh_comm a b := by
    simp only [symbolicSuite_dh, symbolicSuite_publicKey]
    exact Symbol.diffieHellman_comm a b
  aead :=
    { encrypt_isSome := by
        intro key nonce msg aad _
        rw [symbolicSuite_encrypt, Option.isSome_some]
      encrypt_length := by
        intro key nonce msg aad c h
        rw [symbolicSuite_encrypt, Option.some.injEq] at h
        rw [← h]
        exact Symbol.length_encrypt _ _ _ _
      decrypt_encrypt := by
        intro key nonce msg aad c h
        rw [symbolicSuite_encrypt, Option.some.injEq] at h
        rw [symbolicSuite_decrypt]
        exact Symbol.decrypt_eq_some.mpr h.symm
      decrypt_length := by
        intro key nonce msg aad p h
        rw [symbolicSuite_decrypt] at h
        rw [Symbol.decrypt_eq_some.mp h]
        exact Symbol.length_encrypt _ _ _ _ }

/-- The identity of an honest node. -/
noncomputable def honest (node : Nat) : Identity symbolicSuite :=
  ⟨.static node, symbolicSuite.publicKey (.static node), rfl⟩

/-- The static key of an honest node. -/
theorem honest_x25519PublicKey (node : Nat) :
    (honest node).x25519PublicKey = Symbol.publicKey (.static node) :=
  symbolicSuite_publicKey _

/-- What an honest node has done; received messages are recorded as they came. -/
inductive Event
  /-- `process_message1_create_message2` returned `Ok` on `msg1`. -/
  | sentMsg2 (node : Nat) (msg1 : List SymByte) (ephemeral : Name)
  /-- `process_message2_create_message3` returned `Ok`: the initiator is complete. -/
  | sentMsg3 (node : Nat) (ephemeral : Name) (remoteEphemeral : List SymByte)
      (remoteStatic : Vector SymByte 32)
  /-- `process_message3` returned `Ok`: the responder is complete. -/
  | finished (node : Nat) (remoteEphemeral : Vector SymByte 32) (ephemeral : Name)
      (remoteStatic : Vector SymByte 32)

/-- A handshake and the node it runs on. -/
structure Session where
  node : Nat
  handshake : NoiseHandshake symbolicSuite

/-- The event of a successful call that leaves `after`. -/
def Session.event (s : Session) (call : HandshakeCall SymByte Name)
    (after : NoiseHandshake symbolicSuite) : Option Event :=
  match call with
  | .createMessage1 _ => none
  | .processMessage1CreateMessage2 ephemeral msg1 => some (.sentMsg2 s.node msg1 ephemeral)
  | .processMessage2CreateMessage3 msg2 =>
    match s.handshake.state, after.state with
    | .initSentMsg1 ephemeral _, .complete _ _ remoteStatic =>
      some (.sentMsg3 s.node ephemeral (msg2.take 32) remoteStatic)
    | _, _ => none
  | .processMessage3 _ =>
    match s.handshake.state, after.state with
    | .respSentMsg2 remoteEphemeral ephemeral, .complete _ _ remoteStatic =>
      some (.finished s.node remoteEphemeral ephemeral remoteStatic)
    | _, _ => none

/-- All handshakes of all honest nodes, what was sent and what happened. -/
structure World where
  sessions : List Session
  /-- Number of the next ephemeral secret. -/
  fresh : Nat
  network : List (List SymByte)
  events : List Event

namespace World

/-- Nobody has started a handshake, and nothing was sent. -/
def start : World := ⟨[], 0, [], []⟩

/-- The bytes the adversary can compute. -/
def Known (w : World) : SymByte → Prop :=
  Symbol.Knows Name.Held fun b => ∃ msg ∈ w.network, b ∈ msg

/-- Ephemeral secrets are fresh and received messages come from the adversary. -/
def Allowed (w : World) : HandshakeCall SymByte Name → Prop
  | .createMessage1 ephemeral => ephemeral = .msg1Ephemeral w.fresh
  | .processMessage1CreateMessage2 ephemeral msg1 =>
    ephemeral = .msg2Ephemeral w.fresh ∧ ∀ b ∈ msg1, w.Known b
  | .processMessage2CreateMessage3 msg2 => ∀ b ∈ msg2, w.Known b
  | .processMessage3 msg3 => ∀ b ∈ msg3, w.Known b

/-- The world after session `s`, at position `i`, carries out a call. A reply goes to the
network, and a panic ends the session. -/
noncomputable def afterCall (w : World) (i : Nat) (s : Session)
    (call : HandshakeCall SymByte Name) : World :=
  match NoiseHandshake.perform call s.handshake with
  | .ok reply n =>
    { sessions := w.sessions.set i { s with handshake := n }
      fresh := w.fresh + 1
      network := w.network ++ reply.toList
      events := w.events ++ (s.event call n).toList }
  | .error (.error _) n =>
    { w with sessions := w.sessions.set i { s with handshake := n }, fresh := w.fresh + 1 }
  | .error _ _ => { w with sessions := w.sessions.eraseIdx i, fresh := w.fresh + 1 }

/-- One step of the world. -/
inductive Step (w : World) : World → Prop
  | newInitiator (node : Nat) :
      Step w { w with sessions := w.sessions ++ [⟨node, .newInitiator (honest node)⟩] }
  | newResponder (node : Nat) :
      Step w { w with sessions := w.sessions ++ [⟨node, .newResponder (honest node)⟩] }
  | call (i : Nat) (s : Session) (call : HandshakeCall SymByte Name)
      (hsession : w.sessions[i]? = some s) (hallowed : w.Allowed call) :
      Step w (w.afterCall i s call)

/-- The worlds that a run can reach. -/
inductive Reachable : World → Prop
  | start : Reachable World.start
  | step {w w' : World} : Reachable w → Step w w' → Reachable w'

end World

end CekyP2P.Crypto
