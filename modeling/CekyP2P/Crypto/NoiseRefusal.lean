import CekyP2P.Crypto.NoiseAgreement
import CekyP2P.Crypto.NoiseCalls

/-!
# What a refused handshake message leaves behind

The methods mix what they read into the hash and the chaining key before they decrypt. A
message that is refused by a decryption has therefore moved the handshake on, and the genuine
message that comes after it does not decrypt any more.
-/

namespace CekyP2P.Crypto

variable {β σ : Type} {S : Suite β σ}

namespace NoiseHandshake

/-- The message is refused before anything is mixed in: for its length, or because the
handshake does not wait for it. -/
def RefusedEarly (n : NoiseHandshake S) : HandshakeCall β σ → Prop
  | .processMessage2CreateMessage3 msg2 =>
    (∀ e p, n.state ≠ .initSentMsg1 e p) ∨ msg2.length < 96
  | .processMessage3 _ => ∀ re e, n.state ≠ .respSentMsg2 re e
  | _ => True

/-- What is mixed in leaves hash and chaining key as they are: a fixed point of the hash
functions. -/
inductive FixedPoint (n : NoiseHandshake S) : HandshakeCall β σ → Prop
  | ephemeral {e : σ} {p re : Vector β 32} {c1 c2 : List β}
      (hstate : n.state = .initSentMsg1 e p) (hc1 : c1.length = 48)
      (hstatic : (n.initiatedEe e re).opened (n.cipherKey (S.dh e re).toList) c1 = none)
      (hh : S.sha256 (n.h.toList ++ re.toList) = n.h)
      (hck : (S.hkdf n.ck (S.dh e re).toList).1 = n.ck) :
      FixedPoint n (.processMessage2CreateMessage3 (re.toList ++ c1 ++ c2))
  | static {e : σ} {p re rs : Vector β 32} {c1 c2 : List β}
      (hstate : n.state = .initSentMsg1 e p) (hc1 : c1.length = 48)
      (hstatic : (n.initiatedEe e re).opened (n.cipherKey (S.dh e re).toList) c1 =
        some rs.toList)
      (hh : S.sha256 ((S.sha256 (n.h.toList ++ re.toList)).toList ++ c1) = n.h)
      (hck : (S.hkdf (S.hkdf n.ck (S.dh e re).toList).1 (S.dh e rs).toList).1 = n.ck) :
      FixedPoint n (.processMessage2CreateMessage3 (re.toList ++ c1 ++ c2))
  | chaining {re : Vector β 32} {e : σ} {msg3 : List β} (hstate : n.state = .respSentMsg2 re e)
      (hck : (S.hkdf n.ck []).1 = n.ck) : FixedPoint n (.processMessage3 msg3)

/-- Hash, chaining key and state are what they were. -/
def SameAs (n' n : NoiseHandshake S) : Prop := n'.h = n.h ∧ n'.ck = n.ck ∧ n'.state = n.state

variable {n n' : NoiseHandshake S} {err : CryptoError}

/-- A handshake is what it was. -/
theorem sameAs_refl (n : NoiseHandshake S) : n.SameAs n := ⟨rfl, rfl, rfl⟩

/-- A message 2 of fewer than 96 bytes is refused at once. -/
theorem processMessage2CreateMessage3_of_short {e : σ} {p : Vector β 32} {msg2 : List β}
    (hstate : n.state = .initSentMsg1 e p) (hlen : msg2.length < 96) :
    processMessage2CreateMessage3 msg2 n =
      .error (.error (.handshakeFailed s!"msg2 too short: {msg2.length} bytes")) n := by
  simp [processMessage2CreateMessage3, hstate, hlen]

/-- A decryption of message 2 fails only on a handshake that waits for it, and on a message
that is long enough. -/
theorem not_refusedEarly {e : σ} {p : Vector β 32} {msg2 : List β}
    (hstate : n.state = .initSentMsg1 e p)
    (h : processMessage2CreateMessage3 msg2 n = .error (.error .decryptionFailed) n') :
    ¬n.RefusedEarly (.processMessage2CreateMessage3 msg2) := by
  rintro (hwait | hlen)
  · exact hwait e p hstate
  · rw [processMessage2CreateMessage3_of_short hstate hlen] at h
    cases h

/-- The two fixed points of message 2, by the decryption that refuses it. -/
theorem fixedPoint_message2_iff {e : σ} {p re : Vector β 32} {c1 c2 : List β}
    (hstate : n.state = .initSentMsg1 e p) (hc1 : c1.length = 48) :
    n.FixedPoint (.processMessage2CreateMessage3 (re.toList ++ c1 ++ c2)) ↔
      ((n.initiatedEe e re).opened (n.cipherKey (S.dh e re).toList) c1 = none ∧
        (n.initiatedEe e re).SameAs n) ∨
      ∃ rs : Vector β 32, (n.initiatedEe e re).opened (n.cipherKey (S.dh e re).toList) c1 =
        some rs.toList ∧ (n.initiatedEs e re c1 rs).SameAs n := by
  constructor
  · generalize hmsg : re.toList ++ c1 ++ c2 = msg2
    intro hfixed
    cases hfixed with
    | ephemeral hstate' hc1' hstatic hh hck =>
      obtain ⟨rfl, rfl, rfl⟩ := fields_injective hmsg (hc1.trans hc1'.symm)
      obtain ⟨rfl, rfl⟩ := InternalState.initSentMsg1.inj (hstate.symm.trans hstate')
      exact .inl ⟨hstatic, hh, hck, rfl⟩
    | static hstate' hc1' hstatic hh hck =>
      obtain ⟨rfl, rfl, rfl⟩ := fields_injective hmsg (hc1.trans hc1'.symm)
      obtain ⟨rfl, rfl⟩ := InternalState.initSentMsg1.inj (hstate.symm.trans hstate')
      exact .inr ⟨_, hstatic, hh, hck, rfl⟩
  · rintro (⟨hstatic, hh, hck, -⟩ | ⟨rs, hstatic, hh, hck, -⟩)
    · exact .ephemeral hstate hc1 hstatic hh hck
    · exact .static hstate hc1 hstatic hh hck

/-- When a refused message 2 leaves no trace. -/
theorem refused_message2 (hS : S.aead.Lawful) {msg2 : List β}
    (h : processMessage2CreateMessage3 msg2 n = .error (.error err) n') :
    n'.SameAs n ↔ n.RefusedEarly (.processMessage2CreateMessage3 msg2) ∨
      n.FixedPoint (.processMessage2CreateMessage3 msg2) := by
  have hout := processMessage2CreateMessage3_outcome hS msg2 n
  rw [h] at hout
  cases hout with
  | wrongState hstate => exact iff_of_true (sameAs_refl n) (.inl (.inl hstate))
  | tooShort e p hstate hlen => exact iff_of_true (sameAs_refl n) (.inl (.inr hlen))
  | staticRejected e p re c1 c2 hstate hmsg hc1 hstatic =>
    subst hmsg
    rw [or_iff_right (not_refusedEarly hstate h), fixedPoint_message2_iff hstate hc1]
    refine ⟨fun hsame => .inl ⟨hstatic, hsame⟩, ?_⟩
    rintro (⟨-, hsame⟩ | ⟨rs, hopened, -⟩)
    · exact hsame
    · exact absurd (hstatic.symm.trans hopened) nofun
  | payloadRejected e p re c1 c2 rs hstate hmsg hc1 hstatic hpayload =>
    subst hmsg
    rw [or_iff_right (not_refusedEarly hstate h), fixedPoint_message2_iff hstate hc1]
    refine ⟨fun hsame => .inr ⟨rs, hstatic, hsame⟩, ?_⟩
    rintro (⟨hrejected, -⟩ | ⟨rs', hopened, hsame⟩)
    · exact absurd (hstatic.symm.trans hrejected) nofun
    · rw [Vector.toList_inj.mp (Option.some.inj (hstatic.symm.trans hopened))]
      exact hsame
  | staticFailed e p re c1 c2 rs hstate hmsg hc1 hown =>
    obtain ⟨c3, hc3⟩ := exists_sealed hS (n.initiatedS e re c1 rs c2)
      ((n.initiatedEs e re c1 rs).cipherKey []) (p := n.identity.x25519PublicKey.toList) (by simp)
    rw [hc3] at hown
    cases hown

/-- When a refused message 3 leaves no trace. -/
theorem refused_message3 {msg3 : List β}
    (h : processMessage3 msg3 n = .error (.error err) n') :
    n'.SameAs n ↔ n.RefusedEarly (.processMessage3 msg3) ∨
      n.FixedPoint (.processMessage3 msg3) := by
  have hout := processMessage3_outcome msg3 n
  rw [h] at hout
  cases hout with
  | wrongState hstate => exact iff_of_true (sameAs_refl n) (.inl hstate)
  | staticRejected re e hstate hstatic =>
    rw [or_iff_right fun hwait => hwait re e hstate]
    constructor
    · rintro ⟨-, hck, -⟩
      exact .chaining hstate hck
    · intro hfixed
      cases hfixed with
      | chaining hstate' hck => exact ⟨rfl, hck, rfl⟩

/-- Identity and role never change, so that the rest decides. -/
theorem SameAs.eq (hsame : n'.SameAs n) (hidentity : n'.identity = n.identity)
    (hrole : n'.isInitiator = n.isInitiator) : n' = n := by
  obtain ⟨hh, hck, hstate⟩ := hsame
  cases n
  cases n'
  simp_all

/-- For every handshake and every refused message: hash, chaining key and state are as before
just if it was refused before anything was mixed in, or at a fixed point of the hash
functions; and then the whole handshake is as before, so that it treats every later message
as if this one had not come. -/
theorem refused_message_unchanged_iff (hS : S.aead.Lawful) {call : HandshakeCall β σ}
    (h : perform call n = .error (.error err) n') :
    (n'.SameAs n ↔ n.RefusedEarly call ∨ n.FixedPoint call) ∧ (n'.SameAs n → n' = n) := by
  have howner := owner_next hS n call
  rw [next, h] at howner
  refine ⟨?_, fun hsame => hsame.eq howner.1 howner.2⟩
  cases call with
  | createMessage1 e =>
    obtain rfl := createMessage1_eq_error (Exec.map_eq_error.mp h)
    exact iff_of_true (sameAs_refl _) (.inl trivial)
  | processMessage1CreateMessage2 e msg1 =>
    obtain ⟨rfl, -⟩ := processMessage1CreateMessage2_eq_error hS (Exec.map_eq_error.mp h)
    exact iff_of_true (sameAs_refl _) (.inl trivial)
  | processMessage2CreateMessage3 msg2 => exact refused_message2 hS (Exec.map_eq_error.mp h)
  | processMessage3 msg3 => exact refused_message3 (Exec.map_eq_error.mp h)

/-- An initiator that has sent message 1. -/
def waitingInitiator : NoiseHandshake xorSuite :=
  (newInitiator (xorIdentity (Vector.replicate 32 1))).next
    (.createMessage1 (Vector.replicate 32 3))

/-- A message 2 that is one byte too short is refused without a trace. -/
theorem short_message2_unchanged :
    (waitingInitiator.next (.processMessage2CreateMessage3 (List.replicate 95 7))).SameAs
      waitingInitiator := by
  obtain ⟨err, hrefused⟩ : ∃ err, perform (.processMessage2CreateMessage3 (List.replicate 95 7))
      waitingInitiator = .error (.error err) waitingInitiator :=
    ⟨_, Exec.map_eq_error.mpr (processMessage2CreateMessage3_of_short rfl (by decide))⟩
  have hnext : waitingInitiator.next (.processMessage2CreateMessage3 (List.replicate 95 7)) =
      waitingInitiator := by
    rw [next, hrefused]
    rfl
  rw [hnext]
  exact (refused_message_unchanged_iff xorSuite_lawful.aead hrefused).1.mpr
    (.inl (.inr (by decide)))

/-! ## A forged message shuts the genuine one out -/

/-- An evaluation suite in which every byte of the transcript counts. -/
def checksumSuite : Suite UInt8 (Vector UInt8 32) :=
  byteSuite id (Vector.zipWith (· ^^^ ·)) (fun data => Vector.replicate 32 (checksum data))
    checksumAead

/-- The suite has the laws. -/
theorem checksumSuite_lawful : checksumSuite.Lawful where
  dh_comm a b := by
    ext i hi
    simp [checksumSuite, byteSuite, UInt8.xor_comm]
  aead := checksumAead_lawful

/-- In this suite a secret is its own public key. -/
theorem checksumSuite_publicKey (secret : Vector UInt8 32) :
    secret = checksumSuite.publicKey secret := rfl

/-- An identity of this suite. -/
def checksumIdentity (secret : Vector UInt8 32) : Identity checksumSuite :=
  ⟨secret, secret, checksumSuite_publicKey secret⟩

/-- The bytes that a call returns. -/
def replyOf (call : HandshakeCall UInt8 (Vector UInt8 32)) (n : NoiseHandshake checksumSuite) :
    List UInt8 :=
  match perform call n with
  | .ok (some reply) _ => reply
  | _ => []

/-- The error that a call returns. -/
def errorOf (call : HandshakeCall UInt8 (Vector UInt8 32)) (n : NoiseHandshake checksumSuite) :
    Option CryptoError :=
  match perform call n with
  | .error (.error err) _ => some err
  | _ => none

/-- An initiator that has sent message 1. -/
def sampleInitiator : NoiseHandshake checksumSuite :=
  (newInitiator (checksumIdentity (Vector.replicate 32 1))).next
    (.createMessage1 (Vector.replicate 32 3))

/-- The answer of a responder to it. -/
def sampleMsg2 : List UInt8 :=
  replyOf (.processMessage1CreateMessage2 (Vector.replicate 32 4) (List.replicate 32 3))
    (newResponder (checksumIdentity (Vector.replicate 32 2)))

/-- The answer with its last byte changed, as it may arrive first. -/
def forgedMsg2 : List UInt8 := sampleMsg2.take 95 ++ (sampleMsg2.drop 95).map (· ^^^ 0xFF)

/-- In a lawful suite the genuine answer is accepted; the forged one is refused, and moves hash
and chaining key on; after it the genuine one is refused as well. -/
theorem forged_message2_shuts_out_genuine : checksumSuite.Lawful ∧
    let genuine := .processMessage2CreateMessage3 sampleMsg2
    let forged := .processMessage2CreateMessage3 forgedMsg2
    Exec.isOk (perform genuine sampleInitiator) = true ∧
      errorOf forged sampleInitiator = some .decryptionFailed ∧
      (sampleInitiator.next forged).h ≠ sampleInitiator.h ∧
      (sampleInitiator.next forged).ck ≠ sampleInitiator.ck ∧
      errorOf genuine (sampleInitiator.next forged) = some .decryptionFailed :=
  ⟨checksumSuite_lawful, by decide +kernel⟩

end NoiseHandshake

end CekyP2P.Crypto
