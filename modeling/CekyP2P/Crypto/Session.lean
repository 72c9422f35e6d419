import CekyP2P.Crypto.Aead
import CekyP2P.Crypto.ReplayWindow
import CekyP2P.Crypto.Types

/-!
# Secure sessions

Sending draws a nonce from a 64-bit counter, receiving consults the replay
window and then the cipher. The window is marked before the tag is verified, so
a frame that fails authentication uses up its nonce: the failure stays invisible
to later calls exactly when the window refused the nonce anyway.
-/

namespace CekyP2P.Crypto

/-- `MAX_NONCE`: the last nonce a session may use. -/
def maxNonceValue : UInt64 := ((1 : UInt64) <<< 48) - 1

/-- An encrypted session after a successful handshake. -/
structure SecureSession where
  sendKey : Vector UInt8 32
  recvKey : Vector UInt8 32
  /-- Outgoing nonce counter. -/
  sendNonce : UInt64
  /-- Highest nonce of a frame that was decrypted. -/
  recvNonceMax : UInt64
  replayWindow : ReplayWindow
  remoteStatic : Vector UInt8 32

/-- Four zero bytes followed by the little-endian counter. -/
def buildNonce (counter : UInt64) : Vector UInt8 12 :=
  Vector.replicate 4 (0 : UInt8) ++ toLeBytes counter

/-- Different counters make different nonces. -/
theorem buildNonce_injective : Function.Injective buildNonce := by
  intro a b h
  unfold buildNonce at h
  exact toLeBytes_injective (Vector.append_inj h).2

namespace SecureSession

/-- A session on fresh counters; 32-byte keys never make the ciphers fail to initialise. -/
def fromKeys (keys : SessionKeys UInt8) : SecureSession where
  sendKey := keys.sendKey
  recvKey := keys.recvKey
  sendNonce := 0
  recvNonceMax := 0
  replayWindow := ReplayWindow.new
  remoteStatic := keys.remoteStatic

variable (aead : Aead UInt8)

/-- The common body of the two sending calls: the counter moves even when the call fails. -/
def sealFrame (s : SecureSession) (plaintext ad : List UInt8) :
    Except CryptoError (UInt64 × List UInt8) × SecureSession :=
  let nonceVal := s.sendNonce
  let s := { s with sendNonce := s.sendNonce + 1 }
  if nonceVal > maxNonceValue then (.error .nonceOverflow, s)
  else
    match aead.encrypt s.sendKey (buildNonce nonceVal) plaintext ad with
    | none => (.error (.handshakeFailed "AEAD encrypt failed"), s)
    | some ciphertext => (.ok (nonceVal, ciphertext), s)

/-- Encrypt without associated data. -/
def encrypt (s : SecureSession) (plaintext : List UInt8) :
    Except CryptoError (UInt64 × List UInt8) × SecureSession :=
  s.sealFrame aead plaintext []

/-- Encrypt with associated data. -/
def encryptWithAd (s : SecureSession) (plaintext ad : List UInt8) :
    Except CryptoError (UInt64 × List UInt8) × SecureSession :=
  s.sealFrame aead plaintext ad

/-- The common body of the two receiving calls. -/
def openFrame (s : SecureSession) (nonceVal : UInt64) (ciphertext ad : List UInt8) :
    Except CryptoError (List UInt8) × SecureSession :=
  let (fresh, window) := s.replayWindow.checkAndMark nonceVal
  let s := { s with replayWindow := window }
  if !fresh then (.error (.replayDetected nonceVal), s)
  else
    match aead.decrypt s.recvKey (buildNonce nonceVal) ciphertext ad with
    | none => (.error .decryptionFailed, s)
    | some plaintext => (.ok plaintext, { s with recvNonceMax := max s.recvNonceMax nonceVal })

/-- Decrypt a frame that carries no associated data. -/
def decrypt (s : SecureSession) (nonceVal : UInt64) (ciphertext : List UInt8) :
    Except CryptoError (List UInt8) × SecureSession :=
  s.openFrame aead nonceVal ciphertext []

/-- Decrypt a frame with associated data. -/
def decryptWithAd (s : SecureSession) (nonceVal : UInt64) (ciphertext ad : List UInt8) :
    Except CryptoError (List UInt8) × SecureSession :=
  s.openFrame aead nonceVal ciphertext ad

variable {aead}

/-- A sending call succeeds with the nonce of the counter, up to the last one. -/
theorem sealFrame_eq_ok {s : SecureSession} {plaintext ad ciphertext : List UInt8}
    {nonceVal : UInt64} : (s.sealFrame aead plaintext ad).1 = .ok (nonceVal, ciphertext) ↔
      nonceVal = s.sendNonce ∧ nonceVal ≤ maxNonceValue ∧
        aead.encrypt s.sendKey (buildNonce nonceVal) plaintext ad = some ciphertext := by
  unfold sealFrame
  by_cases hmax : s.sendNonce > maxNonceValue
  · simp only [hmax, if_true, reduceCtorEq, false_iff]
    rintro ⟨rfl, hle, -⟩
    exact UInt64.not_le.mpr hmax hle
  · simp only [hmax, if_false]
    constructor
    · intro h
      cases hseal : aead.encrypt s.sendKey (buildNonce s.sendNonce) plaintext ad with
      | none => simp [hseal] at h
      | some c =>
        simp only [hseal, Except.ok.injEq, Prod.mk.injEq] at h
        obtain ⟨rfl, rfl⟩ := h
        exact ⟨rfl, UInt64.not_lt.mp hmax, hseal⟩
    · rintro ⟨rfl, -, hseal⟩
      simp only [hseal]

/-- Whatever comes of a sending call, it moves the counter and nothing else. -/
theorem sealFrame_snd (s : SecureSession) (plaintext ad : List UInt8) :
    (s.sealFrame aead plaintext ad).2 = { s with sendNonce := s.sendNonce + 1 } := by
  simp only [sealFrame]
  split
  · rfl
  · split <;> rfl

/-- The peer of a session is fixed. -/
theorem remoteStatic_encrypt (s : SecureSession) (plaintext : List UInt8) :
    (s.encrypt aead plaintext).2.remoteStatic = s.remoteStatic := by
  rw [encrypt, sealFrame_snd]

/-- An encryption keeps the key. -/
theorem sendKey_encrypt (s : SecureSession) (plaintext : List UInt8) :
    (s.encrypt aead plaintext).2.sendKey = s.sendKey := by
  rw [encrypt, sealFrame_snd]

/-- A decryption keeps the static key of the peer. -/
theorem remoteStatic_decrypt (s : SecureSession) (nonceVal : UInt64) (ciphertext : List UInt8) :
    (s.decrypt aead nonceVal ciphertext).2.remoteStatic = s.remoteStatic := by
  simp only [decrypt, openFrame]
  split
  · rfl
  · split <;> rfl

/-- A decryption keeps the key for sending. -/
theorem sendKey_decrypt (s : SecureSession) (nonceVal : UInt64) (ciphertext : List UInt8) :
    (s.decrypt aead nonceVal ciphertext).2.sendKey = s.sendKey := by
  simp only [decrypt, openFrame]
  split
  · rfl
  · split <;> rfl

/-- A refused nonce ends the call before anything is touched. -/
theorem openFrame_of_refuses {s : SecureSession} {nonceVal : UInt64}
    (h : s.replayWindow.Refuses nonceVal) (ciphertext ad : List UInt8) :
    s.openFrame aead nonceVal ciphertext ad = (.error (.replayDetected nonceVal), s) := by
  have hrej := ReplayWindow.checkAndMark_rejected (ReplayWindow.checkAndMark_eq_false_iff.mpr h)
  simp only [openFrame, hrej, Bool.not_false, if_true]

/-- Any other nonce is marked whatever the cipher then says. -/
theorem openFrame_of_not_refuses {s : SecureSession} {nonceVal : UInt64}
    (h : ¬ s.replayWindow.Refuses nonceVal) (ciphertext ad : List UInt8) :
    s.openFrame aead nonceVal ciphertext ad =
      match aead.decrypt s.recvKey (buildNonce nonceVal) ciphertext ad with
      | none => (.error .decryptionFailed,
          { s with replayWindow := (s.replayWindow.checkAndMark nonceVal).2 })
      | some plaintext => (.ok plaintext,
          { s with
            replayWindow := (s.replayWindow.checkAndMark nonceVal).2
            recvNonceMax := max s.recvNonceMax nonceVal }) := by
  rw [← ReplayWindow.checkAndMark_eq_false_iff, Bool.not_eq_false] at h
  simp only [openFrame, h, Bool.not_true, Bool.false_eq_true, if_false]

end SecureSession

/-! ## Failed frames -/

/-- A receiving call with its arguments. -/
inductive DecryptCall
  | decrypt (nonce : UInt64) (ciphertext : List UInt8)
  | decryptWithAd (nonce : UInt64) (ciphertext ad : List UInt8)

namespace DecryptCall

/-- The nonce of a call. -/
def nonce : DecryptCall → UInt64
  | decrypt n _ => n
  | decryptWithAd n _ _ => n

/-- The ciphertext of a call. -/
def ciphertext : DecryptCall → List UInt8
  | decrypt _ c => c
  | decryptWithAd _ c _ => c

/-- The associated data of a call. -/
def ad : DecryptCall → List UInt8
  | decrypt _ _ => []
  | decryptWithAd _ _ ad => ad

end DecryptCall

namespace SecureSession

variable (aead : Aead UInt8)

/-- Execute one receiving call. -/
def receive (s : SecureSession) : DecryptCall → Except CryptoError (List UInt8) × SecureSession
  | .decrypt n c => s.decrypt aead n c
  | .decryptWithAd n c ad => s.decryptWithAd aead n c ad

/-- The results of a sequence of receiving calls. -/
def results (s : SecureSession) : List DecryptCall → List (Except CryptoError (List UInt8))
  | [] => []
  | call :: calls => (s.receive aead call).1 :: results (s.receive aead call).2 calls

/-- The session after a sequence of receiving calls. -/
def after (s : SecureSession) (calls : List DecryptCall) : SecureSession :=
  calls.foldl (fun s call => (s.receive aead call).2) s

/-- The calls of a sequence that return a plaintext. -/
def delivered (s : SecureSession) : List DecryptCall → List DecryptCall
  | [] => []
  | call :: calls =>
    match (s.receive aead call).1 with
    | .ok _ => call :: delivered (s.receive aead call).2 calls
    | .error _ => delivered (s.receive aead call).2 calls

/-- If the call fails, no later sequence of calls can tell that it was made. -/
def FailureInvisible (s : SecureSession) (call : DecryptCall) : Prop :=
  (∃ e, (s.receive aead call).1 = .error e) →
    ∀ later, (s.receive aead call).2.results aead later = s.results aead later

/-- The window refuses the nonce on its own, or the frame is genuine. -/
def Harmless (s : SecureSession) (call : DecryptCall) : Prop :=
  s.replayWindow.Refuses call.nonce ∨
    (aead.decrypt s.recvKey (buildNonce call.nonce) call.ciphertext call.ad).isSome = true

/-- Every call of the sequence is harmless in the state in which it is made. -/
def AllHarmless (s : SecureSession) : List DecryptCall → Prop
  | [] => True
  | call :: calls => s.Harmless aead call ∧ AllHarmless (s.receive aead call).2 calls

variable {aead}

/-- Both calls open a frame. -/
theorem receive_eq (s : SecureSession) (call : DecryptCall) :
    s.receive aead call = s.openFrame aead call.nonce call.ciphertext call.ad := by
  cases call <;> rfl

/-- A harmless call that fails leaves the session exactly as it was. -/
theorem Harmless.unchanged {s : SecureSession} {call : DecryptCall} (h : s.Harmless aead call)
    {e : CryptoError} (hfail : (s.receive aead call).1 = .error e) :
    (s.receive aead call).2 = s := by
  rw [receive_eq] at hfail ⊢
  by_cases href : s.replayWindow.Refuses call.nonce
  · rw [openFrame_of_refuses href]
  · obtain ⟨p, hp⟩ := Option.isSome_iff_exists.mp (h.resolve_left href)
    rw [openFrame_of_not_refuses href, hp] at hfail
    cases hfail

/-- A forged frame on a fresh nonce shows when the same frame is offered again: the
second attempt is answered as a replay. -/
theorem harmless_of_failureInvisible {s : SecureSession} {call : DecryptCall}
    (h : s.FailureInvisible aead call) : s.Harmless aead call := by
  by_contra hbad
  rw [Harmless, not_or, Bool.not_eq_true, Option.isSome_eq_false_iff,
    Option.isNone_iff_eq_none] at hbad
  obtain ⟨href, hnone⟩ := hbad
  have hcall : s.receive aead call = s.openFrame aead call.nonce call.ciphertext call.ad :=
    s.receive_eq call
  rw [openFrame_of_not_refuses href, hnone] at hcall
  have hagain := h ⟨.decryptionFailed, by rw [hcall]⟩ [call]
  have hrefused := ReplayWindow.refuses_after_accept href
  simp only [results, hcall, receive_eq] at hagain
  rw [openFrame_of_refuses hrefused] at hagain
  cases hagain

/-- Deleting every failed call from a harmless sequence changes nothing. -/
theorem AllHarmless.after_delivered {s : SecureSession} {calls : List DecryptCall}
    (h : s.AllHarmless aead calls) :
    s.after aead calls = s.after aead (s.delivered aead calls) := by
  induction calls generalizing s with
  | nil => rfl
  | cons call calls ih =>
    have hrest := ih h.2
    cases hres : (s.receive aead call).1 with
    | ok p =>
      simp only [delivered, hres]
      exact hrest
    | error e =>
      have hsame := h.1.unchanged hres
      simp only [delivered, hres]
      rw [hsame] at hrest ⊢
      change (s.receive aead call).2.after aead calls = _
      rw [hsame, hrest]

/-- A failed frame goes unnoticed by all later calls exactly when the window refused
its nonce in the first place, and a sequence in which every call is of that kind or
genuine leaves the session as its successful calls alone do. -/
theorem failed_frames_invisible_iff (aead : Aead UInt8) :
    (∀ (s : SecureSession) (call : DecryptCall),
      s.FailureInvisible aead call ↔ s.Harmless aead call) ∧
    ∀ (s : SecureSession) (calls : List DecryptCall), s.AllHarmless aead calls →
      s.after aead calls = s.after aead (s.delivered aead calls) := by
  refine ⟨fun s call => ⟨harmless_of_failureInvisible, ?_⟩, fun s calls h => h.after_delivered⟩
  rintro h ⟨e, he⟩ later
  rw [h.unchanged he]

/-- The complementary keys of a sender and a receiver. -/
def senderKeys : SessionKeys UInt8 :=
  ⟨Vector.replicate 32 0x42, Vector.replicate 32 0x84, Vector.replicate 32 0xFF⟩

/-- The other end of the keys for tests. -/
def receiverKeys : SessionKeys UInt8 :=
  ⟨Vector.replicate 32 0x84, Vector.replicate 32 0x42, Vector.replicate 32 0xFF⟩

/-- A delivered frame followed by an altered copy of it: the copy leaves no mark. -/
theorem failed_frames_invisible_replayed :
    (fromKeys receiverKeys).AllHarmless zeroTagAead
      [.decrypt 0 ([1, 2, 3] ++ List.replicate 16 0), .decrypt 0 [9, 9, 9]] ∧
    (fromKeys receiverKeys).after zeroTagAead
        [.decrypt 0 ([1, 2, 3] ++ List.replicate 16 0), .decrypt 0 [9, 9, 9]] =
      (fromKeys receiverKeys).after zeroTagAead ((fromKeys receiverKeys).delivered zeroTagAead
        [.decrypt 0 ([1, 2, 3] ++ List.replicate 16 0), .decrypt 0 [9, 9, 9]]) := by
  have hfresh : ¬ (fromKeys receiverKeys).replayWindow.Refuses 0 := by decide
  have hall : (fromKeys receiverKeys).AllHarmless zeroTagAead
      [.decrypt 0 ([1, 2, 3] ++ List.replicate 16 0), .decrypt 0 [9, 9, 9]] := by
    refine ⟨Or.inr rfl, Or.inl ?_, trivial⟩
    simp only [receive, decrypt, openFrame_of_not_refuses hfresh]
    exact ReplayWindow.refuses_after_accept hfresh
  exact ⟨hall, (failed_frames_invisible_iff zeroTagAead).2 _ _ hall⟩

/-- One forged frame with nonce 0 makes the peer's genuine frame 0 fail as a replay. -/
theorem forged_frame_blocks_genuine :
    ((fromKeys senderKeys).encrypt zeroTagAead [1, 2, 3]).1 =
      .ok (0, [1, 2, 3] ++ List.replicate 16 0) ∧
    (fromKeys receiverKeys).results zeroTagAead [.decrypt 0 ([1, 2, 3] ++ List.replicate 16 0)] =
      [.ok [1, 2, 3]] ∧
    ((fromKeys receiverKeys).receive zeroTagAead (.decrypt 0 [9, 9, 9])).1 =
      .error .decryptionFailed ∧
    ((fromKeys receiverKeys).receive zeroTagAead (.decrypt 0 [9, 9, 9])).2.results zeroTagAead
      [.decrypt 0 ([1, 2, 3] ++ List.replicate 16 0)] = [.error (.replayDetected 0)] ∧
    ¬ (fromKeys receiverKeys).FailureInvisible zeroTagAead (.decrypt 0 [9, 9, 9]) := by
  have hfresh : ¬ (fromKeys receiverKeys).replayWindow.Refuses 0 := by decide
  have hgenuine : (fromKeys receiverKeys).results zeroTagAead
      [.decrypt 0 ([1, 2, 3] ++ List.replicate 16 0)] = [.ok [1, 2, 3]] := by
    simp only [results, receive, decrypt, openFrame_of_not_refuses hfresh]
    rfl
  have hforged : (fromKeys receiverKeys).receive zeroTagAead (.decrypt 0 [9, 9, 9]) =
      (.error .decryptionFailed, { fromKeys receiverKeys with
        replayWindow := (ReplayWindow.new.checkAndMark 0).2 }) := by
    simp only [receive, decrypt, openFrame_of_not_refuses hfresh]
    rfl
  have hblocked : ((fromKeys receiverKeys).receive zeroTagAead (.decrypt 0 [9, 9, 9])).2.results
      zeroTagAead [.decrypt 0 ([1, 2, 3] ++ List.replicate 16 0)] =
      [.error (.replayDetected 0)] := by
    rw [hforged]
    simp only [results, receive, decrypt]
    rw [openFrame_of_refuses (ReplayWindow.refuses_after_accept hfresh)]
  refine ⟨rfl, hgenuine, by rw [hforged], hblocked, fun h => ?_⟩
  have hsame := h ⟨_, by rw [hforged]⟩ [.decrypt 0 ([1, 2, 3] ++ List.replicate 16 0)]
  rw [hgenuine, hblocked] at hsame
  cases hsame

end SecureSession

end CekyP2P.Crypto
