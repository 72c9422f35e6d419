import CekyP2P.Core.Trace
import CekyP2P.Crypto.Session

/-!
# One direction of a secure channel

A sending and a receiving session run interleaved; the receiver's inputs are
chosen by the network. The cipher is ideal: it may look at everything encrypted
so far and opens only what was encrypted under the same key, nonce and
associated data. Every delivered plaintext then has its own earlier sending
call, because the sender's counter never repeats a nonce and the receiver's
window never accepts one twice.
-/

namespace CekyP2P.Crypto

/-- One encryption made by the cipher. -/
structure SealedFrame where
  key : Vector UInt8 32
  nonce : Vector UInt8 12
  ad : List UInt8
  plaintext : List UInt8
  ciphertext : List UInt8
  deriving DecidableEq

/-- An ideal cipher. What decryption answers may depend on the encryptions made so
far, and it succeeds only on one of them. -/
structure IdealAead where
  encrypt : (key : Vector UInt8 32) → (nonce : Vector UInt8 12) → (msg aad : List UInt8) →
    Option (List UInt8)
  decrypt : List SealedFrame → (key : Vector UInt8 32) → (nonce : Vector UInt8 12) →
    (msg aad : List UInt8) → Option (List UInt8)
  sound : ∀ {log key nonce msg aad p}, decrypt log key nonce msg aad = some p →
    ⟨key, nonce, aad, p, msg⟩ ∈ log

/-- The cipher at a given moment. -/
def IdealAead.withLog (ideal : IdealAead) (log : List SealedFrame) : Aead UInt8 :=
  ⟨ideal.encrypt, ideal.decrypt log⟩

/-- The calls of the two parties; those of the receiver have adversarial arguments. -/
inductive ChannelCall
  | encrypt (plaintext : List UInt8)
  | encryptWithAd (plaintext ad : List UInt8)
  | decrypt (nonce : UInt64) (ciphertext : List UInt8)
  | decryptWithAd (nonce : UInt64) (ciphertext ad : List UInt8)

/-- A finished call with its arguments and result. -/
inductive ChannelEvent
  | sent (plaintext ad : List UInt8) (result : Except CryptoError (UInt64 × List UInt8))
  | received (nonce : UInt64) (ciphertext ad : List UInt8)
      (result : Except CryptoError (List UInt8))

/-- Both sessions, the encryptions made so far and the calls in the order they were made. -/
structure Channel where
  sender : SecureSession
  receiver : SecureSession
  log : List SealedFrame
  trace : List ChannelEvent

namespace Channel

/-- Two fresh sessions. -/
def start (senderKeys receiverKeys : SessionKeys UInt8) : Channel :=
  ⟨SecureSession.fromKeys senderKeys, SecureSession.fromKeys receiverKeys, [], []⟩

/-- The encryption behind the result of a sending call. -/
def sealedBy (key : Vector UInt8 32) (plaintext ad : List UInt8) :
    Except CryptoError (UInt64 × List UInt8) → List SealedFrame
  | .ok (nonce, ciphertext) => [⟨key, buildNonce nonce, ad, plaintext, ciphertext⟩]
  | .error _ => []

/-- Record a sending call. -/
def send (c : Channel) (plaintext ad : List UInt8)
    (out : Except CryptoError (UInt64 × List UInt8) × SecureSession) : Channel :=
  { c with
    sender := out.2
    log := c.log ++ sealedBy c.sender.sendKey plaintext ad out.1
    trace := c.trace ++ [.sent plaintext ad out.1] }

/-- Record a receiving call. -/
def receive (c : Channel) (nonce : UInt64) (ciphertext ad : List UInt8)
    (out : Except CryptoError (List UInt8) × SecureSession) : Channel :=
  { c with
    receiver := out.2
    trace := c.trace ++ [.received nonce ciphertext ad out.1] }

/-- Execute one call. -/
def step (ideal : IdealAead) (c : Channel) : ChannelCall → Channel
  | .encrypt p => c.send p [] (c.sender.encrypt (ideal.withLog c.log) p)
  | .encryptWithAd p ad => c.send p ad (c.sender.encryptWithAd (ideal.withLog c.log) p ad)
  | .decrypt n ct => c.receive n ct [] (c.receiver.decrypt (ideal.withLog c.log) n ct)
  | .decryptWithAd n ct ad =>
    c.receive n ct ad (c.receiver.decryptWithAd (ideal.withLog c.log) n ct ad)

/-- Execute an interleaving of calls. -/
def run (ideal : IdealAead) (c : Channel) (calls : List ChannelCall) : Channel :=
  calls.foldl (step ideal) c

/-- A step is a sending call or a receiving call through the common bodies. -/
theorem step_cases (ideal : IdealAead) (c : Channel) (call : ChannelCall) :
    (∃ p ad, step ideal c call = c.send p ad (c.sender.sealFrame (ideal.withLog c.log) p ad)) ∨
    ∃ n ct ad, step ideal c call =
      c.receive n ct ad (c.receiver.openFrame (ideal.withLog c.log) n ct ad) := by
  cases call with
  | encrypt p => exact Or.inl ⟨p, [], rfl⟩
  | encryptWithAd p ad => exact Or.inl ⟨p, ad, rfl⟩
  | decrypt n ct => exact Or.inr ⟨n, ct, [], rfl⟩
  | decryptWithAd n ct ad => exact Or.inr ⟨n, ct, ad, rfl⟩

end Channel

/-- The nonce a successful sending call used. -/
def ChannelEvent.sentNonce : ChannelEvent → Option UInt64
  | .sent _ _ (.ok (n, _)) => some n
  | _ => none

/-- The nonce of a frame that was delivered. -/
def ChannelEvent.deliveredNonce : ChannelEvent → Option UInt64
  | .received n _ _ (.ok _) => some n
  | _ => none

/-- The event of an encryption. -/
def ChannelEvent.isSent : ChannelEvent → Bool
  | .sent _ _ _ => true
  | .received _ _ _ _ => false

/-- A call that encrypts. -/
def ChannelCall.isEncrypt : ChannelCall → Bool
  | .encrypt _ | .encryptWithAd _ _ => true
  | .decrypt _ _ | .decryptWithAd _ _ _ => false

/-- A nonce was sent if the encryption succeeded. -/
theorem ChannelEvent.exists_of_sentNonce {p ad : List UInt8}
    {result : Except CryptoError (UInt64 × List UInt8)} {n : UInt64}
    (h : sentNonce (.sent p ad result) = some n) : ∃ ct, result = .ok (n, ct) := by
  cases result with
  | error e => cases h
  | ok r =>
    cases h
    exact ⟨r.2, rfl⟩

/-- A nonce was delivered if the decryption succeeded. -/
theorem ChannelEvent.exists_of_deliveredNonce {ct ad : List UInt8}
    {result : Except CryptoError (List UInt8)} {n m : UInt64}
    (h : deliveredNonce (.received n ct ad result) = some m) : m = n ∧ ∃ p, result = .ok p := by
  cases result with
  | error e => cases h
  | ok p =>
    cases h
    exact ⟨rfl, p, rfl⟩

/-- A sealed frame comes from an encryption that succeeded. -/
theorem Channel.exists_of_mem_sealedBy {key : Vector UInt8 32} {p ad : List UInt8}
    {result : Except CryptoError (UInt64 × List UInt8)} {f : SealedFrame}
    (h : f ∈ sealedBy key p ad result) :
    ∃ n ct, result = .ok (n, ct) ∧ f = ⟨key, buildNonce n, ad, p, ct⟩ := by
  cases result with
  | error e => cases h
  | ok r => exact ⟨r.1, r.2, rfl, List.mem_singleton.mp h⟩

/-- What a sending call does: the counter always moves by one, and success uses the
old counter value as nonce. -/
theorem SecureSession.sealFrame_spec (aead : Aead UInt8) (s : SecureSession)
    (p ad : List UInt8) :
    (s.sealFrame aead p ad).2 = { s with sendNonce := s.sendNonce + 1 } ∧
      ∀ n ct, (s.sealFrame aead p ad).1 = .ok (n, ct) → n = s.sendNonce ∧ n ≤ maxNonceValue := by
  refine ⟨sealFrame_snd s p ad, fun n ct h => ?_⟩
  obtain ⟨hnonce, hle, -⟩ := sealFrame_eq_ok.mp h
  exact ⟨hnonce, hle⟩

/-- What a receiving call does: the window moves as `check_and_mark` prescribes, and a
plaintext comes only from the cipher on a nonce the window accepted. -/
theorem SecureSession.openFrame_spec (aead : Aead UInt8) (s : SecureSession) (n : UInt64)
    (ct ad : List UInt8) :
    (s.openFrame aead n ct ad).2.replayWindow = (s.replayWindow.checkAndMark n).2 ∧
      (s.openFrame aead n ct ad).2.recvKey = s.recvKey ∧
      ∀ p, (s.openFrame aead n ct ad).1 = .ok p →
        (s.replayWindow.checkAndMark n).1 = true ∧
          aead.decrypt s.recvKey (buildNonce n) ct ad = some p := by
  by_cases href : s.replayWindow.Refuses n
  · have hrej := ReplayWindow.checkAndMark_rejected
      (ReplayWindow.checkAndMark_eq_false_iff.mpr href)
    rw [openFrame_of_refuses href, hrej]
    exact ⟨rfl, rfl, fun p h => by cases h⟩
  · rw [openFrame_of_not_refuses href]
    rw [← ReplayWindow.checkAndMark_eq_false_iff, Bool.not_eq_false] at href
    cases aead.decrypt s.recvKey (buildNonce n) ct ad with
    | none => exact ⟨rfl, rfl, fun p h => by cases h⟩
    | some p =>
      refine ⟨rfl, rfl, fun q h => ⟨href, ?_⟩⟩
      simpa only [Except.ok.injEq, Option.some.injEq] using h

namespace Channel

/-- How many sending calls were made. -/
def sentCount (c : Channel) : Nat := c.trace.countP ChannelEvent.isSent

section

variable (c : Channel) (p ad : List UInt8) (n : UInt64) (ct : List UInt8)
  (sealing : Except CryptoError (UInt64 × List UInt8) × SecureSession)
  (opening : Except CryptoError (List UInt8) × SecureSession)

/-- An encryption is counted, whether it succeeds or not. -/
theorem sentCount_send : (c.send p ad sealing).sentCount = c.sentCount + 1 := by
  simp [sentCount, Channel.send, ChannelEvent.isSent]

/-- A decryption is not counted. -/
theorem sentCount_receive : (c.receive n ct ad opening).sentCount = c.sentCount := by
  simp [sentCount, Channel.receive, ChannelEvent.isSent]

/-- An encryption delivers nothing. -/
theorem deliveredNonces_send :
    (c.send p ad sealing).trace.filterMap ChannelEvent.deliveredNonce =
      c.trace.filterMap ChannelEvent.deliveredNonce := by
  simp [Channel.send, ChannelEvent.deliveredNonce]

/-- A decryption sends nothing. -/
theorem sentNonces_receive :
    (c.receive n ct ad opening).trace.filterMap ChannelEvent.sentNonce =
      c.trace.filterMap ChannelEvent.sentNonce := by
  simp [Channel.receive, ChannelEvent.sentNonce]

end

/-- What every interleaving keeps. -/
structure Inv (c : Channel) : Prop where
  /-- The counter is the number of sending calls. -/
  counter : c.sender.sendNonce = UInt64.ofNat c.sentCount
  /-- Below a full turn of the counter nonces are used once, and in range. -/
  sent_nodup : c.sentCount ≤ 2 ^ 64 → (c.trace.filterMap ChannelEvent.sentNonce).Nodup
  sent_lt : c.sentCount ≤ 2 ^ 64 →
    ∀ n ∈ c.trace.filterMap ChannelEvent.sentNonce, n.toNat < c.sentCount
  sent_le : ∀ n ∈ c.trace.filterMap ChannelEvent.sentNonce, n ≤ maxNonceValue
  /-- Everything the cipher encrypted was a successful sending call. -/
  logged : ∀ f ∈ c.log, ∃ (i : Nat) (n : UInt64), buildNonce n = f.nonce ∧
    c.trace[i]? = some (.sent f.plaintext f.ad (.ok (n, f.ciphertext)))
  /-- Every delivered frame was sent before. -/
  origin : ∀ (j : Nat) (n : UInt64) (ct ad p : List UInt8),
    c.trace[j]? = some (.received n ct ad (.ok p)) →
      ∃ i, i < j ∧ c.trace[i]? = some (.sent p ad (.ok (n, ct)))
  /-- The window knows every delivered nonce, and none is delivered twice. -/
  window : ∃ accepted : Finset Nat, c.receiver.replayWindow.Records accepted ∧
    ∀ n ∈ c.trace.filterMap ChannelEvent.deliveredNonce, n.toNat ∈ accepted
  delivered_nodup : (c.trace.filterMap ChannelEvent.deliveredNonce).Nodup

/-- A new channel satisfies the invariant. -/
theorem inv_start (senderKeys receiverKeys : SessionKeys UInt8) :
    (start senderKeys receiverKeys).Inv where
  counter := rfl
  sent_nodup _ := List.nodup_nil
  sent_lt _ := by simp [start]
  sent_le := by simp [start]
  logged := by simp [start]
  origin := by simp [start]
  window := ⟨∅, ReplayWindow.records_new, by simp [start]⟩
  delivered_nodup := List.nodup_nil

/-- Before a full turn the counter is the number of sending calls. -/
theorem Inv.toNat_sendNonce {c : Channel} (h : c.Inv) (hlt : c.sentCount < 2 ^ 64) :
    c.sender.sendNonce.toNat = c.sentCount := by
  rw [h.counter, UInt64.toNat_ofNat_of_lt' hlt]

/-- Events of a call keep the earlier ones in place. -/
theorem Inv.origin_snoc {c : Channel} (h : c.Inv) {event : ChannelEvent}
    (hnew : ∀ n ct ad p, event = .received n ct ad (.ok p) →
      ∃ i : Nat, c.trace[i]? = some (.sent p ad (.ok (n, ct))))
    (j : Nat) (n : UInt64) (ct ad p : List UInt8)
    (hj : (c.trace ++ [event])[j]? = some (.received n ct ad (.ok p))) :
    ∃ i, i < j ∧ (c.trace ++ [event])[i]? = some (.sent p ad (.ok (n, ct))) := by
  rcases getElem?_snoc hj with hold | ⟨rfl, hlast⟩
  · obtain ⟨i, hi, he⟩ := h.origin j n ct ad p hold
    exact ⟨i, hi, getElem?_snoc_of_some he⟩
  · obtain ⟨i, he⟩ := hnew n ct ad p hlast.symm
    exact ⟨i, (List.getElem?_eq_some_iff.mp he).1, getElem?_snoc_of_some he⟩

/-- A sending call keeps the invariant: its nonce is the number of earlier calls. -/
theorem Inv.send {c : Channel} (h : c.Inv) (ideal : IdealAead) (p ad : List UInt8) :
    (c.send p ad (c.sender.sealFrame (ideal.withLog c.log) p ad)).Inv := by
  obtain ⟨hnext, hok⟩ := c.sender.sealFrame_spec (ideal.withLog c.log) p ad
  generalize c.sender.sealFrame (ideal.withLog c.log) p ad = out at hnext hok ⊢
  have hnew : ∀ n, ChannelEvent.sentNonce (.sent p ad out.1) = some n →
      n = c.sender.sendNonce ∧ n ≤ maxNonceValue := by
    intro n hn
    obtain ⟨ct, hresult⟩ := ChannelEvent.exists_of_sentNonce hn
    exact hok n ct hresult
  constructor
  case counter =>
    rw [sentCount_send]
    change out.2.sendNonce = _
    rw [hnext, UInt64.ofNat_add, ← h.counter]
    rfl
  case sent_nodup =>
    intro hle
    rw [sentCount_send] at hle
    refine nodup_filterMap_snoc (h.sent_nodup (by omega)) fun n hn hmem => ?_
    have hlt := h.sent_lt (by omega) n hmem
    rw [(hnew n hn).1, h.toNat_sendNonce (by omega)] at hlt
    omega
  case sent_lt =>
    intro hle n hn
    rw [sentCount_send] at hle ⊢
    rcases mem_filterMap_snoc.mp hn with hold | hlast
    · exact Nat.lt_succ_of_lt (h.sent_lt (by omega) n hold)
    · rw [(hnew n hlast).1, h.toNat_sendNonce (by omega)]
      omega
  case sent_le =>
    intro n hn
    rcases mem_filterMap_snoc.mp hn with hold | hlast
    · exact h.sent_le n hold
    · exact (hnew n hlast).2
  case logged =>
    intro f hf
    rcases List.mem_append.mp hf with hf | hf
    · obtain ⟨i, n, hn, hi⟩ := h.logged f hf
      exact ⟨i, n, hn, getElem?_snoc_of_some hi⟩
    · obtain ⟨m, ct, hresult, rfl⟩ := exists_of_mem_sealedBy hf
      refine ⟨c.trace.length, m, rfl, ?_⟩
      simp [Channel.send, hresult]
  case origin => exact h.origin_snoc nofun
  case window =>
    rw [deliveredNonces_send]
    exact h.window
  case delivered_nodup =>
    rw [deliveredNonces_send]
    exact h.delivered_nodup

/-- A receiving call keeps the invariant: what the cipher opens is in its log, and the
window turns down every nonce it has seen. -/
theorem Inv.receive {c : Channel} (h : c.Inv) (ideal : IdealAead) (n : UInt64)
    (ct ad : List UInt8) :
    (c.receive n ct ad (c.receiver.openFrame (ideal.withLog c.log) n ct ad)).Inv := by
  obtain ⟨hwindow, -, hok⟩ := c.receiver.openFrame_spec (ideal.withLog c.log) n ct ad
  generalize c.receiver.openFrame (ideal.withLog c.log) n ct ad = out at hwindow hok ⊢
  obtain ⟨accepted, hrec, hmem⟩ := h.window
  obtain ⟨hres, hnext⟩ := hrec.checkAndMark n
  have hnew : ∀ m, ChannelEvent.deliveredNonce (.received n ct ad out.1) = some m →
      m = n ∧ Fresh replayWindowSize accepted n.toNat := by
    intro m hm
    obtain ⟨hm, q, hresult⟩ := ChannelEvent.exists_of_deliveredNonce hm
    refine ⟨hm, ?_⟩
    by_contra hstale
    rw [(hok q hresult).1, freshStep, if_neg hstale] at hres
    cases hres
  constructor
  case counter =>
    rw [sentCount_receive]
    exact h.counter
  case sent_nodup =>
    rw [sentCount_receive, sentNonces_receive]
    exact h.sent_nodup
  case sent_lt =>
    rw [sentCount_receive, sentNonces_receive]
    exact h.sent_lt
  case sent_le =>
    rw [sentNonces_receive]
    exact h.sent_le
  case logged =>
    intro f hf
    obtain ⟨i, m, hm, hi⟩ := h.logged f hf
    exact ⟨i, m, hm, getElem?_snoc_of_some hi⟩
  case origin =>
    refine h.origin_snoc fun m ct' ad' q hlast => ?_
    rw [ChannelEvent.received.injEq] at hlast
    obtain ⟨rfl, rfl, rfl, hq⟩ := hlast
    obtain ⟨i, k, hk, hi⟩ := h.logged _ (ideal.sound (hok q hq).2)
    rw [buildNonce_injective hk] at hi
    exact ⟨i, hi⟩
  case window =>
    refine ⟨_, by rw [Channel.receive, hwindow]; exact hnext, fun m hm => ?_⟩
    rw [freshStep]
    rcases mem_filterMap_snoc.mp hm with hold | hlast
    · split
      · exact Finset.mem_insert_of_mem (hmem m hold)
      · exact hmem m hold
    · obtain ⟨rfl, hfresh⟩ := hnew m hlast
      rw [if_pos hfresh]
      exact Finset.mem_insert_self _ _
  case delivered_nodup =>
    refine nodup_filterMap_snoc h.delivered_nodup fun m hm hdelivered => ?_
    obtain ⟨rfl, hfresh⟩ := hnew m hm
    exact hfresh.1 (hmem m hdelivered)

/-- The invariant holds after every interleaving. -/
theorem inv_run (ideal : IdealAead) (senderKeys receiverKeys : SessionKeys UInt8)
    (calls : List ChannelCall) : (run ideal (start senderKeys receiverKeys) calls).Inv := by
  refine List.foldlRecOn calls (step ideal) (inv_start _ _) fun c hc call _ => ?_
  rcases step_cases ideal c call with ⟨p, ad, he⟩ | ⟨n, ct, ad, he⟩
  · rw [he]
    exact hc.send ideal p ad
  · rw [he]
    exact hc.receive ideal n ct ad

/-- Sending calls leave one sending event each. -/
theorem sentCount_run (ideal : IdealAead) (c : Channel) (calls : List ChannelCall) :
    (run ideal c calls).sentCount = c.sentCount + calls.countP ChannelCall.isEncrypt := by
  induction calls generalizing c with
  | nil => rfl
  | cons call calls ih =>
    have hstep : (step ideal c call).sentCount =
        c.sentCount + if call.isEncrypt then 1 else 0 := by
      cases call <;> simp [step, sentCount_send, sentCount_receive, ChannelCall.isEncrypt]
    have hrun : run ideal c (call :: calls) = run ideal (step ideal c call) calls := rfl
    rw [hrun, ih, hstep, List.countP_cons]
    omega

/-- A choice of origins for the delivered frames. -/
theorem Inv.exists_origin {c : Channel} (h : c.Inv) : ∃ origin : Nat → Nat,
    ∀ (j : Nat) (n : UInt64) (ct ad p : List UInt8),
      c.trace[j]? = some (.received n ct ad (.ok p)) →
        origin j < j ∧ c.trace[origin j]? = some (.sent p ad (.ok (n, ct))) := by
  have horigin : ∀ j : Nat, ∃ i : Nat, ∀ (n : UInt64) (ct ad p : List UInt8),
      c.trace[j]? = some (.received n ct ad (.ok p)) →
        i < j ∧ c.trace[i]? = some (.sent p ad (.ok (n, ct))) := by
    intro j
    by_cases hj : ∃ (n : UInt64) (ct ad p : List UInt8),
        c.trace[j]? = some (.received n ct ad (.ok p))
    · obtain ⟨n, ct, ad, p, hj⟩ := hj
      obtain ⟨i, hi, he⟩ := h.origin j n ct ad p hj
      refine ⟨i, fun n' ct' ad' p' hj' => ?_⟩
      rw [hj] at hj'
      simp only [Option.some.injEq, ChannelEvent.received.injEq, Except.ok.injEq] at hj'
      obtain ⟨rfl, rfl, rfl, rfl⟩ := hj'
      exact ⟨hi, he⟩
    · exact ⟨0, fun n ct ad p h => absurd ⟨n, ct, ad, p, h⟩ hj⟩
  choose origin horigin using horigin
  exact ⟨origin, horigin⟩

/-- Authenticity and at-most-once delivery against an active network: every delivered
plaintext has its own earlier successful sending call with the same plaintext,
associated data, nonce and ciphertext, and no two successful sending calls share a
nonce or exceed the last admissible one. With unrelated keys nothing is delivered, so
the keys need no assumption. -/
theorem delivered_frames_have_distinct_origins (ideal : IdealAead)
    (senderKeys receiverKeys : SessionKeys UInt8) (calls : List ChannelCall)
    (hcalls : calls.countP ChannelCall.isEncrypt < 2 ^ 64) :
    let t := (run ideal (start senderKeys receiverKeys) calls).trace
    (∃ origin : Nat → Nat,
      (∀ (j : Nat) (n : UInt64) (ct ad p : List UInt8),
        t[j]? = some (.received n ct ad (.ok p)) →
          origin j < j ∧ t[origin j]? = some (.sent p ad (.ok (n, ct)))) ∧
      ∀ (j k : Nat) (n m : UInt64) (ct ad p ct' ad' p' : List UInt8),
        t[j]? = some (.received n ct ad (.ok p)) →
        t[k]? = some (.received m ct' ad' (.ok p')) → j ≠ k → origin j ≠ origin k) ∧
    (∀ (i k : Nat) (n m : UInt64) (p ad ct p' ad' ct' : List UInt8),
      t[i]? = some (.sent p ad (.ok (n, ct))) →
      t[k]? = some (.sent p' ad' (.ok (m, ct'))) → i ≠ k → n ≠ m) ∧
    ∀ (i : Nat) (n : UInt64) (p ad ct : List UInt8),
      t[i]? = some (.sent p ad (.ok (n, ct))) → n.toNat ≤ 2 ^ 48 - 1 := by
  intro t
  have hinv := inv_run ideal senderKeys receiverKeys calls
  have hcount := sentCount_run ideal (start senderKeys receiverKeys) calls
  have hzero : (start senderKeys receiverKeys).sentCount = 0 := rfl
  have hsent := hinv.sent_nodup (by omega)
  obtain ⟨origin, horigin⟩ := hinv.exists_origin
  refine ⟨⟨origin, horigin, ?_⟩, ?_, ?_⟩
  · intro j k n m ct ad p ct' ad' p' hj hk hne he
    have hsj := (horigin j n ct ad p hj).2
    have hsk := (horigin k m ct' ad' p' hk).2
    rw [he, hsk] at hsj
    simp only [Option.some.injEq, ChannelEvent.sent.injEq, Except.ok.injEq,
      Prod.mk.injEq] at hsj
    exact hne (eq_of_nodup_filterMap hinv.delivered_nodup hj hk rfl (hsj.2.2.1 ▸ rfl))
  · rintro i k n m p ad ct p' ad' ct' hi hk hne rfl
    exact hne (eq_of_nodup_filterMap hsent hi hk rfl rfl)
  · intro i n p ad ct hi
    have hle := hinv.sent_le n (List.mem_filterMap.mpr ⟨_, List.mem_of_getElem? hi, rfl⟩)
    exact UInt64.le_iff_toNat_le.mp hle

/-- The cipher that appends a zero tag and opens exactly what it has encrypted. -/
def loggedZeroTag : IdealAead where
  encrypt := zeroTagAead.encrypt
  decrypt log key nonce msg aad :=
    (log.find? fun f =>
      f.key = key ∧ f.nonce = nonce ∧ f.ad = aad ∧ f.ciphertext = msg).map SealedFrame.plaintext
  sound {log key nonce msg aad p} h := by
    obtain ⟨f, hf, rfl⟩ := Option.map_eq_some_iff.mp h
    have hmatch := List.find?_some hf
    simp only [decide_eq_true_eq] at hmatch
    obtain ⟨rfl, rfl, rfl, rfl⟩ := hmatch
    exact List.mem_of_find?_eq_some hf

/-- Two frames delivered in reverse order, with a replay between them. -/
def reorderedCalls : List ChannelCall :=
  [.encrypt [1], .encryptWithAd [2] [7], .decryptWithAd 1 ([2] ++ List.replicate 16 0) [7],
    .decryptWithAd 1 ([2] ++ List.replicate 16 0) [7], .decrypt 0 ([1] ++ List.replicate 16 0)]

/-- Both frames arrive, each once, and each with an origin of its own. -/
theorem reorderedCalls_have_distinct_origins :
    let t := (run loggedZeroTag (start SecureSession.senderKeys SecureSession.receiverKeys)
      reorderedCalls).trace
    reorderedCalls.countP ChannelCall.isEncrypt < 2 ^ 64 ∧
    t.filterMap ChannelEvent.deliveredNonce = [1, 0] ∧
    ∃ origin : Nat → Nat,
      (∀ (j : Nat) (n : UInt64) (ct ad p : List UInt8),
        t[j]? = some (.received n ct ad (.ok p)) →
          origin j < j ∧ t[origin j]? = some (.sent p ad (.ok (n, ct)))) ∧
      ∀ (j k : Nat) (n m : UInt64) (ct ad p ct' ad' p' : List UInt8),
        t[j]? = some (.received n ct ad (.ok p)) →
        t[k]? = some (.received m ct' ad' (.ok p')) → j ≠ k → origin j ≠ origin k :=
  ⟨by decide, by decide, (delivered_frames_have_distinct_origins loggedZeroTag
    SecureSession.senderKeys SecureSession.receiverKeys reorderedCalls (by decide)).1⟩

end Channel

end CekyP2P.Crypto
