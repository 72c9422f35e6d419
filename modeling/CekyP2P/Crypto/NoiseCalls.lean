import CekyP2P.Crypto.NoiseSteps

/-!
# Calls on a handshake, and which of them crash

The three messages are checked differently: message 1 for its exact length,
message 2 for a least length, message 3 not at all. A call therefore returns unless
it is a third message of the wrong length that nevertheless authenticates.
-/

namespace CekyP2P.Crypto

variable {β σ : Type} {S : Suite β σ}

/-- A call a node makes on a handshake, with the bytes received and the fresh
ephemeral secret it draws. -/
inductive HandshakeCall (β σ : Type)
  | createMessage1 (ephemeral : σ)
  | processMessage1CreateMessage2 (ephemeral : σ) (msg1 : List β)
  | processMessage2CreateMessage3 (msg2 : List β)
  | processMessage3 (msg3 : List β)

namespace NoiseHandshake

/-- Carry out a call; the last one has no message to send. -/
def perform : HandshakeCall β σ → HandshakeM S (Option (List β))
  | .createMessage1 ephemeral => some <$> createMessage1 ephemeral
  | .processMessage1CreateMessage2 ephemeral msg1 =>
    some <$> processMessage1CreateMessage2 ephemeral msg1
  | .processMessage2CreateMessage3 msg2 => some <$> processMessage2CreateMessage3 msg2
  | .processMessage3 msg3 => (fun _ => none) <$> processMessage3 msg3

/-- The handshake after a call. -/
def next (n : NoiseHandshake S) (call : HandshakeCall β σ) : NoiseHandshake S :=
  Exec.stateAfter (perform call n)

/-- No call changes the identity or the role. -/
theorem owner_next (hS : S.aead.Lawful) (n : NoiseHandshake S) (call : HandshakeCall β σ) :
    (n.next call).identity = n.identity ∧ (n.next call).isInitiator = n.isInitiator := by
  rw [next]
  cases call with
  | createMessage1 e =>
    have hout := createMessage1_outcome e n
    rw [perform, Exec.stateAfter_map]
    generalize createMessage1 e n = result at hout
    cases hout <;> exact ⟨rfl, rfl⟩
  | processMessage1CreateMessage2 e msg1 =>
    have hout := processMessage1CreateMessage2_outcome e msg1 n
    rw [perform, Exec.stateAfter_map]
    generalize processMessage1CreateMessage2 e msg1 n = result at hout
    cases hout <;> simp [Exec.stateAfter, respondedEe, respondedEs]
  | processMessage2CreateMessage3 msg2 =>
    have hout := processMessage2CreateMessage3_outcome hS msg2 n
    rw [perform, Exec.stateAfter_map]
    generalize processMessage2CreateMessage3 msg2 n = result at hout
    cases hout <;> simp [Exec.stateAfter, initiatedEe, initiatedEs, initiatedS, initiatedSe]
  | processMessage3 msg3 =>
    have hout := processMessage3_outcome msg3 n
    rw [perform, Exec.stateAfter_map]
    generalize processMessage3 msg3 n = result at hout
    cases hout <;> exact ⟨rfl, rfl⟩

/-- The call ends with `Ok` or `Err`. -/
def Returns (n : NoiseHandshake S) (call : HandshakeCall β σ) : Prop :=
  Exec.Returned (perform call n)

instance (n : NoiseHandshake S) (call : HandshakeCall β σ) : Decidable (n.Returns call) :=
  inferInstanceAs (Decidable (Exec.Returned _))

/-- A third message that reaches a waiting responder has 48 bytes or does not open. -/
def WellSized (n : NoiseHandshake S) : HandshakeCall β σ → Prop
  | .processMessage3 msg3 => ∀ re e, n.state = .respSentMsg2 re e →
      msg3.length = 48 ∨ S.aead.decrypt (S.hkdf n.ck []).2 (S.nonce 0) msg3 n.h.toList = none
  | _ => True

/-- The first message is made without a panic. -/
theorem createMessage1_returned (e : σ) (n : NoiseHandshake S) :
    Exec.Returned (createMessage1 e n) := by
  have hout := createMessage1_outcome e n
  cases hr : createMessage1 e n <;> rw [hr] at hout <;> cases hout <;> trivial

/-- The first message is handled without a panic. -/
theorem processMessage1CreateMessage2_returned (e : σ) (msg1 : List β) (n : NoiseHandshake S) :
    Exec.Returned (processMessage1CreateMessage2 e msg1 n) := by
  have hout := processMessage1CreateMessage2_outcome e msg1 n
  cases hr : processMessage1CreateMessage2 e msg1 n <;> rw [hr] at hout <;> cases hout <;> trivial

/-- The second message is handled without a panic. -/
theorem processMessage2CreateMessage3_returned (hS : S.aead.Lawful) (msg2 : List β)
    (n : NoiseHandshake S) : Exec.Returned (processMessage2CreateMessage3 msg2 n) := by
  have hout := processMessage2CreateMessage3_outcome hS msg2 n
  cases hr : processMessage2CreateMessage3 msg2 n <;> rw [hr] at hout <;> cases hout <;> trivial

/-- The third message is handled without a panic just if what it decrypts to has 32 bytes. -/
theorem processMessage3_returned_iff (hS : S.aead.Lawful) (msg3 : List β)
    (n : NoiseHandshake S) :
    Exec.Returned (processMessage3 msg3 n) ↔ WellSized n (.processMessage3 msg3) := by
  have hout := processMessage3_outcome msg3 n
  generalize processMessage3 msg3 n = r at hout
  cases hout with
  | wrongState hstate => exact ⟨fun _ re e he => absurd he (hstate re e), fun _ => trivial⟩
  | staticRejected re e hstate hstatic => exact ⟨fun _ _ _ _ => .inr hstatic, fun _ => trivial⟩
  | wrongLength re e p hstate hstatic hlen =>
    refine ⟨False.elim, fun hsized => ?_⟩
    rcases hsized re e hstate with h48 | hnone
    · have := hS.decrypt_length hstatic
      simp only [tagSize] at this
      omega
    · rw [opened, keyed_h, cipherKey, hnone] at hstatic
      cases hstatic
  | finished re e rs hstate hstatic =>
    refine ⟨fun _ _ _ _ => .inl ?_, fun _ => trivial⟩
    simpa [tagSize] using hS.decrypt_length hstatic

/-- A call returns just if what it has to copy has the right size. -/
theorem returns_iff_wellSized (hS : S.aead.Lawful) (n : NoiseHandshake S)
    (call : HandshakeCall β σ) : n.Returns call ↔ n.WellSized call := by
  cases call with
  | createMessage1 e =>
    rw [Returns, perform, Exec.returned_map]
    exact iff_of_true (createMessage1_returned e n) trivial
  | processMessage1CreateMessage2 e msg1 =>
    rw [Returns, perform, Exec.returned_map]
    exact iff_of_true (processMessage1CreateMessage2_returned e msg1 n) trivial
  | processMessage2CreateMessage3 msg2 =>
    rw [Returns, perform, Exec.returned_map]
    exact iff_of_true (processMessage2CreateMessage3_returned hS msg2 n) trivial
  | processMessage3 msg3 =>
    rw [Returns, perform, Exec.returned_map]
    exact processMessage3_returned_iff hS msg3 n

/-- From any state, and so from every reachable one, all calls of a run return exactly
when each third message that authenticates has the length of an encrypted key. -/
theorem calls_return_iff (hS : S.aead.Lawful) (n : NoiseHandshake S)
    (calls : List (HandshakeCall β σ)) :
    Along Returns next n calls ↔ Along WellSized next n calls :=
  along_congr next (returns_iff_wellSized hS) n calls

/-- A responder that has answered message 1 returns on every 48-byte third message. -/
theorem calls_return_xor :
    Along Returns next (newResponder (xorIdentity (Vector.replicate 32 2)))
      [.processMessage1CreateMessage2 (Vector.replicate 32 4) (List.replicate 32 3),
        .processMessage3 (List.replicate 48 1)] :=
  (calls_return_iff xorSuite_lawful.aead _ _).mpr ⟨trivial, fun _ _ _ => .inl rfl, trivial⟩

/-- A peer that encrypts 33 bytes in place of its static key crashes the responder. -/
theorem oversized_static_key_crashes :
    ¬ Along Returns next (newResponder (xorIdentity (Vector.replicate 32 2)))
      [.processMessage1CreateMessage2 (Vector.replicate 32 4) (List.replicate 32 3),
        .processMessage3 (List.replicate 33 1 ++ List.replicate 16 0)] := by
  decide +kernel

end NoiseHandshake

end CekyP2P.Crypto
