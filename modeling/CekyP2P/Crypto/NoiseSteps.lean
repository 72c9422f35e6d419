import CekyP2P.Crypto.Noise

/-!
# What a handshake call does

Each handshake method is inverted once: an inductive relation lists every way in
which it can end, with the state it leaves and what was decrypted or encrypted on
the way. Crash freedom, key agreement and authentication are read off these lists.
-/

namespace CekyP2P.Crypto.NoiseHandshake

variable {β σ : Type} {S : Suite β σ}

/-! ## Symmetric state

The pure counterparts of the steps above, in which the outcomes of the four methods
are stated. -/

/-- The handshake after mixing `data` into the hash. -/
def mixed (n : NoiseHandshake S) (data : List β) : NoiseHandshake S :=
  { n with h := S.sha256 (n.h.toList ++ data) }

/-- The handshake after deriving the next chaining key from `ikm`. -/
def keyed (n : NoiseHandshake S) (ikm : List β) : NoiseHandshake S :=
  { n with ck := (S.hkdf n.ck ikm).1 }

/-- The cipher key derived together with the next chaining key. -/
def cipherKey (n : NoiseHandshake S) (ikm : List β) : Vector β 32 := (S.hkdf n.ck ikm).2

/-- The ciphertext under the running hash, with nonce counter 0 as everywhere in the source. -/
def sealed (n : NoiseHandshake S) (key : Vector β 32) (plaintext : List β) : Option (List β) :=
  S.aead.encrypt key (S.nonce 0) plaintext n.h.toList

/-- The plaintext under the running hash. -/
def opened (n : NoiseHandshake S) (key : Vector β 32) (ciphertext : List β) : Option (List β) :=
  S.aead.decrypt key (S.nonce 0) ciphertext n.h.toList

section

variable (n : NoiseHandshake S) (l : List β)

@[simp] theorem mixed_identity : (n.mixed l).identity = n.identity := rfl
@[simp] theorem keyed_identity : (n.keyed l).identity = n.identity := rfl
@[simp] theorem mixed_isInitiator : (n.mixed l).isInitiator = n.isInitiator := rfl
@[simp] theorem keyed_isInitiator : (n.keyed l).isInitiator = n.isInitiator := rfl
@[simp] theorem keyed_h : (n.keyed l).h = n.h := rfl

@[simp] theorem mixed_cipherKey (ikm : List β) :
    (n.mixed l).cipherKey ikm = n.cipherKey ikm := rfl

@[simp] theorem mixHash_apply : mixHash l n = .ok () (n.mixed l) := rfl

@[simp] theorem advanceKey_apply : advanceKey l n = .ok (n.cipherKey l) (n.keyed l) := rfl

@[simp] theorem setState_apply (state : InternalState β σ) :
    setState state n = .ok () { n with state := state } := rfl

/-- An encryption that succeeds. -/
theorem encryptWithAd_of_sealed {key : Vector β 32} {ct : List β}
    (hsealed : n.sealed key l = some ct) : encryptWithAd key 0 l n = .ok ct n := by
  simp only [sealed] at hsealed
  simp [encryptWithAd, hsealed]

/-- An encryption that fails. -/
theorem encryptWithAd_of_sealed_none {key : Vector β 32} (hsealed : n.sealed key l = none) :
    encryptWithAd key 0 l n = .error (.error (.handshakeFailed "AEAD encryption failed")) n := by
  simp only [sealed] at hsealed
  simp [encryptWithAd, hsealed]

/-- A decryption that succeeds. -/
theorem decryptWithAd_of_opened {key : Vector β 32} {p : List β}
    (hopened : n.opened key l = some p) : decryptWithAd key 0 l n = .ok p n := by
  simp only [opened] at hopened
  simp [decryptWithAd, hopened]

/-- A decryption that fails. -/
theorem decryptWithAd_of_opened_none {key : Vector β 32} (hopened : n.opened key l = none) :
    decryptWithAd key 0 l n = .error (.error .decryptionFailed) n := by
  simp only [opened] at hopened
  simp [decryptWithAd, hopened]

end

/-- A short plaintext is always encrypted. -/
theorem exists_sealed (hS : S.aead.Lawful) (n : NoiseHandshake S) (key : Vector β 32)
    {p : List β} (hp : p.length ≤ 32) : ∃ ct, n.sealed key p = some ct :=
  Option.isSome_iff_exists.mp (hS.encrypt_isSome _ _ _ _ (by omega))

/-! ## What each method does -/

/-- A handshake call that has returned or stopped, with the state it leaves. -/
abbrev Outcome (S : Suite β σ) (α : Type) :=
  EStateM.Result (Stop CryptoError) (NoiseHandshake S) α

/-- Every way in which `create_message1` can end. -/
inductive CreateOutcome (e : σ) (n : NoiseHandshake S) : Outcome S (List β) → Prop
  | started (hinit : n.isInitiator = true) (hstate : n.state ≠ .new) : CreateOutcome e n
      (.error (.error (.invalidHandshakeState "New" "\"not New\"")) n)
  | sent : CreateOutcome e n (.ok (S.publicKey e).toList
      { n.mixed (S.publicKey e).toList with state := .initSentMsg1 e (S.publicKey e) })

/-- The outcomes of making message 1. -/
theorem createMessage1_outcome (e : σ) (n : NoiseHandshake S) :
    CreateOutcome e n (createMessage1 e n) := by
  simp only [createMessage1, Exec.bind_apply, Exec.get_apply]
  cases hinit : n.isInitiator with
  | false => exact .sent
  | true =>
    cases hstate : n.state with
    | new => exact .sent
    | initSentMsg1 e' p | respSentMsg2 re e' | complete sendKey recvKey rs =>
      exact .started hinit (by simp [hstate])

/-- The responder after both ephemeral keys and `ee`. -/
def respondedEe (n : NoiseHandshake S) (e : σ) (re : Vector β 32) : NoiseHandshake S :=
  ((n.mixed re.toList).mixed (S.publicKey e).toList).keyed (S.dh e re).toList

/-- The key under which the responder's static key is sent. -/
def staticKey2 (n : NoiseHandshake S) (e : σ) (re : Vector β 32) : Vector β 32 :=
  n.cipherKey (S.dh e re).toList

/-- The responder after sending its static key as `c1`, and `es`. -/
def respondedEs (n : NoiseHandshake S) (e : σ) (re : Vector β 32) (c1 : List β) :
    NoiseHandshake S :=
  ((n.respondedEe e re).mixed c1).keyed (S.dh n.identity.x25519Secret re).toList

/-- The key under which the responder's empty payload is sent. -/
def payloadKey2 (n : NoiseHandshake S) (e : σ) (re : Vector β 32) : Vector β 32 :=
  (n.respondedEe e re).cipherKey (S.dh n.identity.x25519Secret re).toList

/-- Every way in which `process_message1_create_message2` can end. -/
inductive Message1Outcome (e : σ) (msg1 : List β) (n : NoiseHandshake S) :
    Outcome S (List β) → Prop
  | wrongLength (hlen : msg1.length ≠ 32) : Message1Outcome e msg1 n
      (.error (.error (.handshakeFailed s!"msg1 should be 32 bytes, got {msg1.length}")) n)
  | staticFailed (re : Vector β 32) (hmsg : msg1 = re.toList)
      (hstatic : (n.respondedEe e re).sealed (n.staticKey2 e re)
        n.identity.x25519PublicKey.toList = none) :
      Message1Outcome e msg1 n
        (.error (.error (.handshakeFailed "AEAD encryption failed")) (n.respondedEe e re))
  | payloadFailed (re : Vector β 32) (c1 : List β) (hmsg : msg1 = re.toList)
      (hpayload : (n.respondedEs e re c1).sealed (n.payloadKey2 e re) [] = none) :
      Message1Outcome e msg1 n
        (.error (.error (.handshakeFailed "AEAD encryption failed")) (n.respondedEs e re c1))
  | answered (re : Vector β 32) (c1 c2 : List β) (hmsg : msg1 = re.toList)
      (hstatic : (n.respondedEe e re).sealed (n.staticKey2 e re)
        n.identity.x25519PublicKey.toList = some c1)
      (hpayload : (n.respondedEs e re c1).sealed (n.payloadKey2 e re) [] = some c2) :
      Message1Outcome e msg1 n (.ok ((S.publicKey e).toList ++ c1 ++ c2)
        { (n.respondedEs e re c1).mixed c2 with state := .respSentMsg2 re e })

/-- The outcomes of handling message 1. -/
theorem processMessage1CreateMessage2_outcome (e : σ) (msg1 : List β) (n : NoiseHandshake S) :
    Message1Outcome e msg1 n (processMessage1CreateMessage2 e msg1 n) := by
  by_cases hlen : msg1.length = 32
  · obtain ⟨re, rfl⟩ := Exec.exists_vector_of_length hlen
    simp only [processMessage1CreateMessage2, hlen, ne_eq, not_true_eq_false, if_false,
      Exec.bind_apply, Exec.copyFromSlice_toList, mixHash_apply, advanceKey_apply,
      Exec.get_apply, mixed_cipherKey, setState_apply, Exec.pure_apply]
    cases hstatic : (n.respondedEe e re).sealed (n.staticKey2 e re)
        n.identity.x25519PublicKey.toList with
    | none =>
      have henc := encryptWithAd_of_sealed_none _ _ hstatic
      simp only [respondedEe, staticKey2] at henc
      simp only [mixed_identity, keyed_identity, henc]
      exact .staticFailed re rfl hstatic
    | some c1 =>
      have henc := encryptWithAd_of_sealed _ _ hstatic
      simp only [respondedEe, staticKey2] at henc
      simp only [mixed_identity, keyed_identity, henc]
      cases hpayload : (n.respondedEs e re c1).sealed (n.payloadKey2 e re) [] with
      | none =>
        have henc' := encryptWithAd_of_sealed_none _ _ hpayload
        simp only [respondedEs, payloadKey2, respondedEe] at henc'
        simp only [henc']
        exact .payloadFailed re c1 rfl hpayload
      | some c2 =>
        have henc' := encryptWithAd_of_sealed _ _ hpayload
        simp only [respondedEs, payloadKey2, respondedEe] at henc'
        simp only [henc']
        exact .answered re c1 c2 rfl hstatic hpayload
  · have hrun : processMessage1CreateMessage2 e msg1 n =
        .error (.error (.handshakeFailed s!"msg1 should be 32 bytes, got {msg1.length}")) n := by
      simp [processMessage1CreateMessage2, hlen]
    rw [hrun]
    exact .wrongLength hlen

/-- The initiator after the responder's ephemeral key and `ee`. -/
def initiatedEe (n : NoiseHandshake S) (e : σ) (re : Vector β 32) : NoiseHandshake S :=
  (n.mixed re.toList).keyed (S.dh e re).toList

/-- The initiator after the responder's static key `rs`, received as `c1`, and `es`. -/
def initiatedEs (n : NoiseHandshake S) (e : σ) (re : Vector β 32) (c1 : List β)
    (rs : Vector β 32) : NoiseHandshake S :=
  ((n.initiatedEe e re).mixed c1).keyed (S.dh e rs).toList

/-- The initiator after the responder's payload `c2`, ready to send its static key. -/
def initiatedS (n : NoiseHandshake S) (e : σ) (re : Vector β 32) (c1 : List β)
    (rs : Vector β 32) (c2 : List β) : NoiseHandshake S :=
  ((n.initiatedEs e re c1 rs).mixed c2).keyed []

/-- The initiator after sending its static key as `c3`, and `se`. -/
def initiatedSe (n : NoiseHandshake S) (e : σ) (re : Vector β 32) (c1 : List β)
    (rs : Vector β 32) (c2 c3 : List β) : NoiseHandshake S :=
  ((n.initiatedS e re c1 rs c2).mixed c3).keyed (S.dh n.identity.x25519Secret re).toList

/-- Every way in which `process_message2_create_message3` can end. -/
inductive Message2Outcome (msg2 : List β) (n : NoiseHandshake S) : Outcome S (List β) → Prop
  | wrongState (hstate : ∀ e p, n.state ≠ .initSentMsg1 e p) : Message2Outcome msg2 n
      (.error (.error (.invalidHandshakeState "InitSentMsg1" "other")) n)
  | tooShort (e : σ) (p : Vector β 32) (hstate : n.state = .initSentMsg1 e p)
      (hlen : msg2.length < 96) : Message2Outcome msg2 n
      (.error (.error (.handshakeFailed s!"msg2 too short: {msg2.length} bytes")) n)
  | staticRejected (e : σ) (p re : Vector β 32) (c1 c2 : List β)
      (hstate : n.state = .initSentMsg1 e p) (hmsg : msg2 = re.toList ++ c1 ++ c2)
      (hc1 : c1.length = 48)
      (hstatic : (n.initiatedEe e re).opened (n.cipherKey (S.dh e re).toList) c1 = none) :
      Message2Outcome msg2 n (.error (.error .decryptionFailed) (n.initiatedEe e re))
  | payloadRejected (e : σ) (p re : Vector β 32) (c1 c2 : List β) (rs : Vector β 32)
      (hstate : n.state = .initSentMsg1 e p) (hmsg : msg2 = re.toList ++ c1 ++ c2)
      (hc1 : c1.length = 48)
      (hstatic : (n.initiatedEe e re).opened (n.cipherKey (S.dh e re).toList) c1 =
        some rs.toList)
      (hpayload : (n.initiatedEs e re c1 rs).opened
        ((n.initiatedEe e re).cipherKey (S.dh e rs).toList) c2 = none) :
      Message2Outcome msg2 n (.error (.error .decryptionFailed) (n.initiatedEs e re c1 rs))
  | staticFailed (e : σ) (p re : Vector β 32) (c1 c2 : List β) (rs : Vector β 32)
      (hstate : n.state = .initSentMsg1 e p) (hmsg : msg2 = re.toList ++ c1 ++ c2)
      (hc1 : c1.length = 48)
      (hown : (n.initiatedS e re c1 rs c2).sealed ((n.initiatedEs e re c1 rs).cipherKey [])
        n.identity.x25519PublicKey.toList = none) :
      Message2Outcome msg2 n (.error (.error (.handshakeFailed "AEAD encryption failed"))
        (n.initiatedS e re c1 rs c2))
  | answered (e : σ) (p re : Vector β 32) (c1 c2 : List β) (rs : Vector β 32)
      (payload c3 : List β) (hstate : n.state = .initSentMsg1 e p)
      (hmsg : msg2 = re.toList ++ c1 ++ c2)
      (hc1 : c1.length = 48)
      (hstatic : (n.initiatedEe e re).opened (n.cipherKey (S.dh e re).toList) c1 =
        some rs.toList)
      (hpayload : (n.initiatedEs e re c1 rs).opened
        ((n.initiatedEe e re).cipherKey (S.dh e rs).toList) c2 = some payload)
      (hown : (n.initiatedS e re c1 rs c2).sealed ((n.initiatedEs e re c1 rs).cipherKey [])
        n.identity.x25519PublicKey.toList = some c3) :
      Message2Outcome msg2 n (.ok c3
        { n.initiatedSe e re c1 rs c2 c3 with
          state := .complete (S.hkdf (n.initiatedSe e re c1 rs c2 c3).ck []).1
            (S.hkdf (n.initiatedSe e re c1 rs c2 c3).ck []).2 rs })

/-- A message of at least 96 bytes splits into the three fields of message 2. -/
theorem exists_fields_of_length_le {msg2 : List β} (hlen : ¬msg2.length < 96) :
    ∃ (re : Vector β 32) (c1 c2 : List β), msg2 = re.toList ++ c1 ++ c2 ∧ c1.length = 48 := by
  refine ⟨⟨(msg2.take 32).toArray, by simp; omega⟩, (msg2.drop 32).take 48, msg2.drop 80, ?_, ?_⟩
  · rw [show msg2.drop 80 = (msg2.drop 32).drop 48 by simp, List.append_assoc,
      List.take_append_drop]
    simp [Vector.toList]
  · simp
    omega

section

variable {re : Vector β 32} {c1 c2 : List β} {n : NoiseHandshake S}

/-- The ephemeral key of message 2. -/
private theorem slice_ephemeral :
    (Exec.slice (re.toList ++ c1 ++ c2) 0 32 : HandshakeM S (List β)) n = .ok re.toList n := by
  rw [Exec.slice_of_le (by omega) (by simp)]
  simp

/-- The encrypted static key of message 2. -/
private theorem slice_static (hc1 : c1.length = 48) :
    (Exec.slice (re.toList ++ c1 ++ c2) 32 80 : HandshakeM S (List β)) n = .ok c1 n := by
  rw [Exec.slice_of_le (by omega) (by simp; omega)]
  simp [List.take_append, hc1]

/-- The encrypted payload of message 2. -/
private theorem slice_payload (hc1 : c1.length = 48) :
    (Exec.slice (re.toList ++ c1 ++ c2) 80 (re.toList ++ c1 ++ c2).length :
      HandshakeM S (List β)) n = .ok c2 n := by
  rw [Exec.slice_of_le (by simp; omega) le_rfl, List.take_length]
  simp [List.drop_append, hc1]

end

/-- The outcomes of handling message 2. -/
theorem processMessage2CreateMessage3_outcome (hS : S.aead.Lawful) (msg2 : List β)
    (n : NoiseHandshake S) :
    Message2Outcome msg2 n (processMessage2CreateMessage3 msg2 n) := by
  simp only [processMessage2CreateMessage3, Exec.bind_apply, Exec.get_apply]
  cases hstate : n.state with
  | new | respSentMsg2 re e | complete sendKey recvKey rs => exact .wrongState (by simp [hstate])
  | initSentMsg1 e p =>
    by_cases hlen : msg2.length < 96
    · simp only [hlen, Nat.reduceAdd, if_true, Exec.throw_apply]
      exact .tooShort e p hstate hlen
    obtain ⟨re, c1, c2, rfl, hc1⟩ := exists_fields_of_length_le hlen
    simp only [hlen, Nat.reduceAdd, if_false, Exec.bind_apply, slice_ephemeral, slice_static hc1,
      slice_payload hc1, Exec.copyFromSlice_toList, mixHash_apply, advanceKey_apply,
      mixed_cipherKey, setState_apply, Exec.pure_apply, Exec.get_apply]
    cases hstatic : (n.initiatedEe e re).opened (n.cipherKey (S.dh e re).toList) c1 with
    | none =>
      have hdec := decryptWithAd_of_opened_none _ _ hstatic
      simp only [initiatedEe] at hdec
      simp only [hdec]
      exact .staticRejected e p re c1 c2 hstate rfl hc1 hstatic
    | some rsb =>
      have hrs : rsb.length = 32 := by
        have := hS.decrypt_length hstatic
        simp only [tagSize] at this
        omega
      obtain ⟨rs, rfl⟩ := Exec.exists_vector_of_length hrs
      have hdec := decryptWithAd_of_opened _ _ hstatic
      simp only [initiatedEe] at hdec
      simp only [hdec, Exec.copyFromSlice_toList, mixed_cipherKey]
      cases hpayload : (n.initiatedEs e re c1 rs).opened
          ((n.initiatedEe e re).cipherKey (S.dh e rs).toList) c2 with
      | none =>
        have hdec' := decryptWithAd_of_opened_none _ _ hpayload
        simp only [initiatedEs, initiatedEe] at hdec'
        simp only [hdec']
        exact .payloadRejected e p re c1 c2 rs hstate rfl hc1 hstatic hpayload
      | some payload =>
        have hdec' := decryptWithAd_of_opened _ _ hpayload
        simp only [initiatedEs, initiatedEe] at hdec'
        simp only [hdec']
        cases hown : (n.initiatedS e re c1 rs c2).sealed
            ((n.initiatedEs e re c1 rs).cipherKey []) n.identity.x25519PublicKey.toList with
        | none =>
          have henc := encryptWithAd_of_sealed_none _ _ hown
          simp only [initiatedS, initiatedEs, initiatedEe] at henc
          simp only [henc]
          exact .staticFailed e p re c1 c2 rs hstate rfl hc1 hown
        | some c3 =>
          have henc := encryptWithAd_of_sealed _ _ hown
          simp only [initiatedS, initiatedEs, initiatedEe] at henc
          simp only [henc]
          exact .answered e p re c1 c2 rs payload c3 hstate rfl hc1 hstatic hpayload hown

/-- The responder after message 3 with the initiator's static key `rs`, and `se`. -/
def respondedSe (n : NoiseHandshake S) (e : σ) (msg3 : List β) (rs : Vector β 32) :
    NoiseHandshake S :=
  ((n.keyed []).mixed msg3).keyed (S.dh e rs).toList

/-- Every way in which `process_message3` can end. -/
inductive Message3Outcome (msg3 : List β) (n : NoiseHandshake S) : Outcome S Unit → Prop
  | wrongState (hstate : ∀ re e, n.state ≠ .respSentMsg2 re e) : Message3Outcome msg3 n
      (.error (.error (.invalidHandshakeState "RespSentMsg2" "other")) n)
  | staticRejected (re : Vector β 32) (e : σ) (hstate : n.state = .respSentMsg2 re e)
      (hstatic : (n.keyed []).opened (n.cipherKey []) msg3 = none) :
      Message3Outcome msg3 n (.error (.error .decryptionFailed) (n.keyed []))
  | wrongLength (re : Vector β 32) (e : σ) (p : List β) (hstate : n.state = .respSentMsg2 re e)
      (hstatic : (n.keyed []).opened (n.cipherKey []) msg3 = some p) (hlen : p.length ≠ 32) :
      Message3Outcome msg3 n (.error .panicked ((n.keyed []).mixed msg3))
  | finished (re : Vector β 32) (e : σ) (rs : Vector β 32)
      (hstate : n.state = .respSentMsg2 re e)
      (hstatic : (n.keyed []).opened (n.cipherKey []) msg3 = some rs.toList) :
      Message3Outcome msg3 n (.ok ()
        { n.respondedSe e msg3 rs with
          state := .complete (S.hkdf (n.respondedSe e msg3 rs).ck []).2
            (S.hkdf (n.respondedSe e msg3 rs).ck []).1 rs })

/-- The outcomes of handling message 3. -/
theorem processMessage3_outcome (msg3 : List β) (n : NoiseHandshake S) :
    Message3Outcome msg3 n (processMessage3 msg3 n) := by
  simp only [processMessage3, Exec.bind_apply, Exec.get_apply]
  cases hstate : n.state with
  | new | initSentMsg1 e p | complete sendKey recvKey rs => exact .wrongState (by simp [hstate])
  | respSentMsg2 re e =>
    simp only [Exec.bind_apply, advanceKey_apply]
    cases hstatic : (n.keyed []).opened (n.cipherKey []) msg3 with
    | none =>
      simp only [decryptWithAd_of_opened_none _ _ hstatic]
      exact .staticRejected re e hstate hstatic
    | some p =>
      simp only [decryptWithAd_of_opened _ _ hstatic, mixHash_apply]
      by_cases hlen : p.length = 32
      · obtain ⟨rs, rfl⟩ := Exec.exists_vector_of_length hlen
        simp only [Exec.copyFromSlice_toList, Exec.get_apply, setState_apply]
        exact .finished re e rs hstate hstatic
      · simp only [Exec.copyFromSlice_of_ne hlen]
        exact .wrongLength re e p hstate hstatic hlen

/-- Session keys come out of a complete handshake. -/
theorem intoSessionKeys_eq_ok {n : NoiseHandshake S} {sendKey recvKey rs : Vector β 32} :
    intoSessionKeys n = .ok ⟨sendKey, recvKey, rs⟩ ↔ n.state = .complete sendKey recvKey rs := by
  unfold intoSessionKeys
  split <;> simp_all

/-! ## Successful and refused calls -/

section

variable {e : σ} {msg reply : List β} {n n' : NoiseHandshake S}

/-- What a message 1 is made of, and what it leaves. -/
theorem createMessage1_eq_ok (h : createMessage1 e n = .ok reply n') :
    reply = (S.publicKey e).toList ∧
      n' = { n.mixed (S.publicKey e).toList with state := .initSentMsg1 e (S.publicKey e) } := by
  have hout := createMessage1_outcome e n
  rw [h] at hout
  cases hout with
  | sent => exact ⟨rfl, rfl⟩

/-- What a message 2 is made of, and what it leaves. -/
theorem processMessage1CreateMessage2_eq_ok
    (h : processMessage1CreateMessage2 e msg n = .ok reply n') :
    ∃ re c1 c2, msg = re.toList ∧
      (n.respondedEe e re).sealed (n.staticKey2 e re) n.identity.x25519PublicKey.toList =
        some c1 ∧
      (n.respondedEs e re c1).sealed (n.payloadKey2 e re) [] = some c2 ∧
      reply = (S.publicKey e).toList ++ c1 ++ c2 ∧
      n' = { (n.respondedEs e re c1).mixed c2 with state := .respSentMsg2 re e } := by
  have hout := processMessage1CreateMessage2_outcome e msg n
  rw [h] at hout
  cases hout with
  | answered re c1 c2 hmsg hstatic hpayload =>
    exact ⟨re, c1, c2, hmsg, hstatic, hpayload, rfl, rfl⟩

/-- What a message 3 is made of, and what it leaves. -/
theorem processMessage2CreateMessage3_eq_ok (hS : S.aead.Lawful)
    (h : processMessage2CreateMessage3 msg n = .ok reply n') :
    ∃ e p re c1 c2 rs payload, n.state = .initSentMsg1 e p ∧ msg = re.toList ++ c1 ++ c2 ∧
      (n.initiatedEs e re c1 rs).opened ((n.initiatedEe e re).cipherKey (S.dh e rs).toList) c2 =
        some payload ∧
      (n.initiatedS e re c1 rs c2).sealed ((n.initiatedEs e re c1 rs).cipherKey [])
        n.identity.x25519PublicKey.toList = some reply ∧
      n' = { n.initiatedSe e re c1 rs c2 reply with
        state := .complete (S.hkdf (n.initiatedSe e re c1 rs c2 reply).ck []).1
          (S.hkdf (n.initiatedSe e re c1 rs c2 reply).ck []).2 rs } := by
  have hout := processMessage2CreateMessage3_outcome hS msg n
  rw [h] at hout
  cases hout with
  | answered e p re c1 c2 rs payload c3 hstate hmsg hc1 hstatic hpayload hown =>
    exact ⟨e, p, re, c1, c2, rs, payload, hstate, hmsg, hpayload, hown, rfl⟩

/-- What an accepted message 3 is, and what it leaves. -/
theorem processMessage3_eq_ok {u : Unit} (h : processMessage3 msg n = .ok u n') :
    ∃ re e rs, n.state = .respSentMsg2 re e ∧
      (n.keyed []).opened (n.cipherKey []) msg = some rs.toList ∧
      n' = { n.respondedSe e msg rs with
        state := .complete (S.hkdf (n.respondedSe e msg rs).ck []).2
          (S.hkdf (n.respondedSe e msg rs).ck []).1 rs } := by
  have hout := processMessage3_outcome msg n
  rw [h] at hout
  cases hout with
  | finished re e rs hstate hstatic => exact ⟨re, e, rs, hstate, hstatic, rfl⟩

/-- A refused call of `create_message1` changes nothing. -/
theorem createMessage1_eq_error {stop : Stop CryptoError}
    (h : createMessage1 e n = .error stop n') : n' = n := by
  have hout := createMessage1_outcome e n
  rw [h] at hout
  cases hout with
  | started hinit hstate => rfl

/-- A first message is refused for its length only, without a trace. -/
theorem processMessage1CreateMessage2_eq_error (hS : S.aead.Lawful) {stop : Stop CryptoError}
    (h : processMessage1CreateMessage2 e msg n = .error stop n') :
    n' = n ∧ msg.length ≠ 32 := by
  have hout := processMessage1CreateMessage2_outcome e msg n
  rw [h] at hout
  cases hout with
  | wrongLength hlen => exact ⟨rfl, hlen⟩
  | staticFailed re hmsg hstatic =>
    obtain ⟨c1, hc1⟩ := exists_sealed hS (n.respondedEe e re) (n.staticKey2 e re)
      (p := n.identity.x25519PublicKey.toList) (by simp)
    rw [hc1] at hstatic
    cases hstatic
  | payloadFailed re c1 hmsg hpayload =>
    obtain ⟨c2, hc2⟩ := exists_sealed hS (n.respondedEs e re c1) (n.payloadKey2 e re)
      (p := []) (by simp)
    rw [hc2] at hpayload
    cases hpayload

/-- A refused second message leaves identity and state, and changes a key only while the
initiator waits for it. -/
theorem processMessage2CreateMessage3_eq_error (hS : S.aead.Lawful) {stop : Stop CryptoError}
    (h : processMessage2CreateMessage3 msg n = .error stop n') :
    n'.identity = n.identity ∧ n'.state = n.state ∧
      (n' = n ∨ ∃ e p, n.state = .initSentMsg1 e p) := by
  have hout := processMessage2CreateMessage3_outcome hS msg n
  rw [h] at hout
  cases hout with
  | wrongState hstate => exact ⟨rfl, rfl, .inl rfl⟩
  | tooShort e p hstate hlen => exact ⟨rfl, rfl, .inl rfl⟩
  | staticRejected e p re c1 c2 hstate => exact ⟨rfl, rfl, .inr ⟨e, p, hstate⟩⟩
  | payloadRejected e p re c1 c2 rs hstate => exact ⟨rfl, rfl, .inr ⟨e, p, hstate⟩⟩
  | staticFailed e p re c1 c2 rs hstate => exact ⟨rfl, rfl, .inr ⟨e, p, hstate⟩⟩

/-- A refused third message advances the chaining key of a waiting responder. -/
theorem processMessage3_eq_error {err : CryptoError}
    (h : processMessage3 msg n = .error (.error err) n') :
    n' = n ∨ n' = n.keyed [] := by
  have hout := processMessage3_outcome msg n
  rw [h] at hout
  cases hout with
  | wrongState hstate => exact .inl rfl
  | staticRejected re e hstate hstatic => exact .inr rfl

end

end CekyP2P.Crypto.NoiseHandshake
