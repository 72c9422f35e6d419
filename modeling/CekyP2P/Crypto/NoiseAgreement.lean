import CekyP2P.Crypto.NoiseSteps

/-!
# Key agreement of the handshake

Initiator and responder are written separately. They are kept together by one
relation on their symmetric states, which every matching pair of steps preserves;
the keys of an undisturbed run are then equal because the chaining keys are.
-/

namespace CekyP2P.Crypto.NoiseHandshake

variable {β σ : Type} {S : Suite β σ}

/-- Two handshakes with the same running hash and chaining key. -/
structure InSync (n m : NoiseHandshake S) : Prop where
  h_eq : n.h = m.h
  ck_eq : n.ck = m.ck

namespace InSync

variable {n m : NoiseHandshake S}

/-- Parties that mix in the same data stay in sync. -/
theorem mixed (hs : InSync n m) (data : List β) : InSync (n.mixed data) (m.mixed data) :=
  ⟨by simp only [NoiseHandshake.mixed, hs.h_eq], hs.ck_eq⟩

/-- Parties that mix in the same secret stay in sync. -/
theorem keyed (hs : InSync n m) {ikm ikm' : List β} (hikm : ikm = ikm') :
    InSync (n.keyed ikm) (m.keyed ikm') :=
  ⟨hs.h_eq, by simp only [NoiseHandshake.keyed, hs.ck_eq, hikm]⟩

/-- Parties in sync derive the same key from the same secret. -/
theorem cipherKey_eq (hs : InSync n m) {ikm ikm' : List β} (hikm : ikm = ikm') :
    n.cipherKey ikm = m.cipherKey ikm' := by
  simp only [cipherKey, hs.ck_eq, hikm]

/-- What one side encrypts the other side decrypts, under keys that agree. -/
theorem opened_of_sealed (hs : InSync n m) (hS : S.aead.Lawful) {key key' : Vector β 32}
    (hkey : key = key') {p ct : List β} (hsealed : m.sealed key' p = some ct) :
    n.opened key ct = some p := by
  rw [opened, hkey, hs.h_eq]
  exact hS.decrypt_encrypt hsealed

end InSync

/-- The fields of message 2 can be read off again. -/
theorem fields_injective {re re' : Vector β 32} {c1 c1' c2 c2' : List β}
    (h : re.toList ++ c1 ++ c2 = re'.toList ++ c1' ++ c2') (hlen : c1.length = c1'.length) :
    re = re' ∧ c1 = c1' ∧ c2 = c2' := by
  simp only [List.append_assoc] at h
  obtain ⟨hre, hrest⟩ := List.append_inj h (by simp)
  obtain ⟨hc1, hc2⟩ := List.append_inj hrest hlen
  exact ⟨Vector.toList_inj.mp hre, hc1, hc2⟩

/-- A responder answers every 32-byte first message. -/
theorem processMessage1CreateMessage2_of_lawful (hS : S.aead.Lawful) (e : σ) (re : Vector β 32)
    (m : NoiseHandshake S) :
    ∃ c1 c2, (m.respondedEe e re).sealed (m.staticKey2 e re)
        m.identity.x25519PublicKey.toList = some c1 ∧
      (m.respondedEs e re c1).sealed (m.payloadKey2 e re) [] = some c2 ∧
      processMessage1CreateMessage2 e re.toList m = .ok ((S.publicKey e).toList ++ c1 ++ c2)
        { (m.respondedEs e re c1).mixed c2 with state := .respSentMsg2 re e } := by
  cases hr : processMessage1CreateMessage2 e re.toList m with
  | ok reply m' =>
    obtain ⟨re', c1, c2, hmsg, hstatic, hpayload, rfl, rfl⟩ :=
      processMessage1CreateMessage2_eq_ok hr
    obtain rfl := Vector.toList_inj.mp hmsg
    exact ⟨c1, c2, hstatic, hpayload, rfl⟩
  | error stop m' => exact absurd (by simp) (processMessage1CreateMessage2_eq_error hS hr).2

/-- An initiator answers a second message whose static key and payload it can open. -/
theorem processMessage2CreateMessage3_of_opened (hS : S.aead.Lawful) {n : NoiseHandshake S}
    {e : σ} {p re rs : Vector β 32} {c1 c2 payload : List β}
    (hstate : n.state = .initSentMsg1 e p) (hc1 : c1.length = 48) (hc2 : 16 ≤ c2.length)
    (hstatic : (n.initiatedEe e re).opened (n.cipherKey (S.dh e re).toList) c1 = some rs.toList)
    (hpayload : (n.initiatedEs e re c1 rs).opened
      ((n.initiatedEe e re).cipherKey (S.dh e rs).toList) c2 = some payload) :
    ∃ c3, (n.initiatedS e re c1 rs c2).sealed ((n.initiatedEs e re c1 rs).cipherKey [])
        n.identity.x25519PublicKey.toList = some c3 ∧
      processMessage2CreateMessage3 (re.toList ++ c1 ++ c2) n = .ok c3
        { n.initiatedSe e re c1 rs c2 c3 with
          state := .complete (S.hkdf (n.initiatedSe e re c1 rs c2 c3).ck []).1
            (S.hkdf (n.initiatedSe e re c1 rs c2 c3).ck []).2 rs } := by
  have hout := processMessage2CreateMessage3_outcome hS (re.toList ++ c1 ++ c2) n
  generalize hr : processMessage2CreateMessage3 (re.toList ++ c1 ++ c2) n = r at hout
  cases hout with
  | wrongState hwrong => exact absurd hstate (hwrong e p)
  | tooShort e' p' hstate' hlen =>
    simp only [List.length_append, Vector.length_toList] at hlen
    omega
  | staticRejected e' p' re' c1' c2' hstate' hmsg hc1' hstatic' =>
    obtain ⟨rfl, rfl⟩ : e = e' ∧ p = p' := by simpa [hstate] using hstate'
    obtain ⟨rfl, rfl, rfl⟩ := fields_injective hmsg (hc1.trans hc1'.symm)
    rw [hstatic] at hstatic'
    cases hstatic'
  | payloadRejected e' p' re' c1' c2' rs' hstate' hmsg hc1' hstatic' hpayload' =>
    obtain ⟨rfl, rfl⟩ : e = e' ∧ p = p' := by simpa [hstate] using hstate'
    obtain ⟨rfl, rfl, rfl⟩ := fields_injective hmsg (hc1.trans hc1'.symm)
    obtain rfl : rs = rs' := Vector.toList_inj.mp (by simpa [hstatic] using hstatic')
    rw [hpayload] at hpayload'
    cases hpayload'
  | staticFailed e' p' re' c1' c2' rs' hstate' hmsg hc1' hown =>
    obtain ⟨c3, hc3⟩ := exists_sealed hS (n.initiatedS e' re' c1' rs' c2')
      ((n.initiatedEs e' re' c1' rs').cipherKey []) (p := n.identity.x25519PublicKey.toList)
      (by simp)
    rw [hc3] at hown
    cases hown
  | answered e' p' re' c1' c2' rs' payload' c3 hstate' hmsg hc1' hstatic' hpayload' hown =>
    obtain ⟨rfl, rfl⟩ : e = e' ∧ p = p' := by simpa [hstate] using hstate'
    obtain ⟨rfl, rfl, rfl⟩ := fields_injective hmsg (hc1.trans hc1'.symm)
    obtain rfl : rs = rs' := Vector.toList_inj.mp (by simpa [hstatic] using hstatic')
    exact ⟨c3, hown, rfl⟩

/-- A responder finishes on a third message that opens to a public key. -/
theorem processMessage3_of_opened {m : NoiseHandshake S} {re : Vector β 32} {e : σ}
    {msg3 : List β} {rs : Vector β 32} (hstate : m.state = .respSentMsg2 re e)
    (hstatic : (m.keyed []).opened (m.cipherKey []) msg3 = some rs.toList) :
    processMessage3 msg3 m = .ok ()
      { m.respondedSe e msg3 rs with
        state := .complete (S.hkdf (m.respondedSe e msg3 rs).ck []).2
          (S.hkdf (m.respondedSe e msg3 rs).ck []).1 rs } := by
  have hout := processMessage3_outcome msg3 m
  generalize hr : processMessage3 msg3 m = r at hout
  cases hout with
  | wrongState hwrong => exact absurd hstate (hwrong re e)
  | staticRejected re' e' hstate' hstatic' =>
    rw [hstatic] at hstatic'
    cases hstatic'
  | wrongLength re' e' p hstate' hstatic' hlen =>
    obtain rfl : rs.toList = p := by simpa [hstatic] using hstatic'
    simp at hlen
  | finished re' e' rs' hstate' hstatic' =>
    obtain ⟨rfl, rfl⟩ : re = re' ∧ e = e' := by simpa [hstate] using hstate'
    obtain rfl : rs = rs' := Vector.toList_inj.mp (by simpa [hstatic] using hstatic')
    rfl

/-- The messages and states of an undisturbed run. -/
theorem exists_undisturbed_run (hS : S.Lawful) (a b : Identity S) (ea eb : σ) :
    ∃ (c1 c2 c3 : List β) (a1 a2 b1 b2 : NoiseHandshake S) (k k' : Vector β 32),
      createMessage1 ea (newInitiator a) = .ok (S.publicKey ea).toList a1 ∧
      a1.state = .initSentMsg1 ea (S.publicKey ea) ∧
      processMessage1CreateMessage2 eb (S.publicKey ea).toList (newResponder b) =
        .ok ((S.publicKey eb).toList ++ c1 ++ c2) b1 ∧
      b1.state = .respSentMsg2 (S.publicKey ea) eb ∧
      processMessage2CreateMessage3 ((S.publicKey eb).toList ++ c1 ++ c2) a1 = .ok c3 a2 ∧
      processMessage3 c3 b1 = .ok () b2 ∧
      a2.state = .complete k k' b.x25519PublicKey ∧
      b2.state = .complete k' k a.x25519PublicKey := by
  obtain ⟨c1, c2, hc1, hc2, hmsg2⟩ := processMessage1CreateMessage2_of_lawful hS.aead eb
    (S.publicKey ea) (newResponder b)
  set a1 : NoiseHandshake S := { (newInitiator a).mixed (S.publicKey ea).toList with
    state := .initSentMsg1 ea (S.publicKey ea) } with ha1
  set b1 : NoiseHandshake S := { ((newResponder b).respondedEs eb (S.publicKey ea) c1).mixed c2
    with state := .respSentMsg2 (S.publicKey ea) eb } with hb1
  have hdhEe : S.dh ea (S.publicKey eb) = S.dh eb (S.publicKey ea) := hS.dh_comm ea eb
  have hdhEs : S.dh ea b.x25519PublicKey = S.dh b.x25519Secret (S.publicKey ea) := by
    rw [b.public_eq, hS.dh_comm]
  have hdhSe : S.dh a.x25519Secret (S.publicKey eb) = S.dh eb a.x25519PublicKey := by
    rw [a.public_eq, hS.dh_comm]
  have hstart : InSync a1 ((newResponder b).mixed (S.publicKey ea).toList) := ⟨rfl, rfl⟩
  have hee : InSync (a1.initiatedEe ea (S.publicKey eb))
      ((newResponder b).respondedEe eb (S.publicKey ea)) :=
    (hstart.mixed _).keyed (by rw [hdhEe])
  have hes : InSync (a1.initiatedEs ea (S.publicKey eb) c1 b.x25519PublicKey)
      ((newResponder b).respondedEs eb (S.publicKey ea) c1) :=
    (hee.mixed c1).keyed (congrArg Vector.toList hdhEs)
  have hstatic := hee.opened_of_sealed hS.aead
    (hstart.cipherKey_eq (congrArg Vector.toList hdhEe)) hc1
  have hpayload := hes.opened_of_sealed hS.aead
    (hee.cipherKey_eq (congrArg Vector.toList hdhEs)) hc2
  obtain ⟨c3, hc3, hmsg3⟩ := processMessage2CreateMessage3_of_opened hS.aead (n := a1) rfl
    (by simp [hS.aead.encrypt_length hc1, tagSize]) (by simp [hS.aead.encrypt_length hc2, tagSize])
    hstatic hpayload
  have hs : InSync (b1.keyed []) (a1.initiatedS ea (S.publicKey eb) c1 b.x25519PublicKey c2) :=
    ⟨(hes.mixed c2).h_eq.symm, ((hes.mixed c2).keyed rfl).ck_eq.symm⟩
  have hopen := hs.opened_of_sealed hS.aead
    (show b1.cipherKey [] = _ from (hes.cipherKey_eq rfl).symm) hc3
  have hse := (hs.mixed c3).keyed (congrArg Vector.toList hdhSe.symm)
  have hfinish := processMessage3_of_opened (m := b1) rfl hopen
  refine ⟨c1, c2, c3, a1, _, b1, _, _, _, rfl, rfl, hmsg2, rfl, hmsg3, hfinish, rfl, ?_⟩
  exact congrArg (fun ck => InternalState.complete (S.hkdf ck []).2 (S.hkdf ck []).1
    a.x25519PublicKey) hse.ck_eq

/-- Messages delivered unaltered and in order complete both sides, with the two cipher
keys swapped and each side knowing the other's static key. -/
theorem undisturbed_handshake_agrees (hS : S.Lawful) (a b : Identity S) (ea eb : σ) :
    ∃ (msg1 msg2 msg3 : List β) (a1 a2 b1 b2 : NoiseHandshake S) (k k' : Vector β 32),
      createMessage1 ea (newInitiator a) = .ok msg1 a1 ∧
      processMessage1CreateMessage2 eb msg1 (newResponder b) = .ok msg2 b1 ∧
      processMessage2CreateMessage3 msg2 a1 = .ok msg3 a2 ∧
      processMessage3 msg3 b1 = .ok () b2 ∧
      intoSessionKeys a2 = .ok ⟨k, k', b.x25519PublicKey⟩ ∧
      intoSessionKeys b2 = .ok ⟨k', k, a.x25519PublicKey⟩ := by
  obtain ⟨c1, c2, c3, a1, a2, b1, b2, k, k', h1, -, h2, -, h3, h4, ha, hb⟩ :=
    exists_undisturbed_run hS a b ea eb
  exact ⟨_, _, c3, a1, a2, b1, b2, k, k', h1, h2, h3, h4, intoSessionKeys_eq_ok.mpr ha,
    intoSessionKeys_eq_ok.mpr hb⟩

/-- Two nodes of the evaluation suite agree. -/
theorem undisturbed_handshake_agrees_xor :
    xorSuite.Lawful ∧
    ∃ (msg1 msg2 msg3 : List UInt8) (a1 a2 b1 b2 : NoiseHandshake xorSuite)
      (k k' : Vector UInt8 32),
      createMessage1 (Vector.replicate 32 3) (newInitiator (xorIdentity (Vector.replicate 32 1))) =
        .ok msg1 a1 ∧
      processMessage1CreateMessage2 (Vector.replicate 32 4) msg1
        (newResponder (xorIdentity (Vector.replicate 32 2))) = .ok msg2 b1 ∧
      processMessage2CreateMessage3 msg2 a1 = .ok msg3 a2 ∧
      processMessage3 msg3 b1 = .ok () b2 ∧
      intoSessionKeys a2 = .ok ⟨k, k', Vector.replicate 32 2⟩ ∧
      intoSessionKeys b2 = .ok ⟨k', k, Vector.replicate 32 1⟩ :=
  ⟨xorSuite_lawful, undisturbed_handshake_agrees xorSuite_lawful
    (xorIdentity (Vector.replicate 32 1)) (xorIdentity (Vector.replicate 32 2)) _ _⟩

end CekyP2P.Crypto.NoiseHandshake
