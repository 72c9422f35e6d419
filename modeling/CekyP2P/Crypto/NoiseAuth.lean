import CekyP2P.Crypto.NoiseWorld

/-!
# Which side of the handshake is authenticated

Every tag an honest node checks under a key the adversary cannot compute was made by
an honest node, and the key tells by which call: `es` binds message 2 to the
responder's static key. Message 3 is encrypted before `se` is mixed, so its tag
shows only that the sender took part in `ee` and `es`; a responder learns who sent it
only when the ephemeral key of message 1 was not the adversary's.
-/

namespace CekyP2P.Crypto

open CekyP2P.Symbol (Public)

/-! ## Key derivation on symbolic bytes -/

section

/-- The new chaining key is a code over the old one and the secret. -/
theorem hkdf_fst (ck : Vector SymByte 32) (ikm : List SymByte) :
    (symbolicSuite.hkdf ck ikm).1 = Symbol.authenticate
      (Symbol.authenticate ck.toList ikm).toList [.lit 0x01] := by
  simp [Suite.hkdf]

/-- The cipher key is a code over the new chaining key. -/
theorem hkdf_snd (ck : Vector SymByte 32) (ikm : List SymByte) :
    (symbolicSuite.hkdf ck ikm).2 = Symbol.authenticate
      (Symbol.authenticate ck.toList ikm).toList
      ((symbolicSuite.hkdf ck ikm).1.toList ++ [.lit 0x02]) := by
  simp [Suite.hkdf]

variable {ck ck' : Vector SymByte 32} {ikm ikm' : List SymByte}
  {sealedBy : (key msg : List SymByte) → Prop}

/-- A chaining key determines what it was derived from. -/
theorem hkdf_fst_inj (h : (symbolicSuite.hkdf ck ikm).1 = (symbolicSuite.hkdf ck' ikm').1) :
    ck = ck' ∧ ikm = ikm' := by
  rw [hkdf_fst, hkdf_fst] at h
  obtain ⟨hck, hikm⟩ := Symbol.authenticate_inj.mp
    (Vector.toList_inj.mp (Symbol.authenticate_inj.mp h).1)
  exact ⟨Vector.toList_inj.mp hck, hikm⟩

/-- A cipher key determines what it was derived from. -/
theorem hkdf_snd_inj (h : (symbolicSuite.hkdf ck ikm).2 = (symbolicSuite.hkdf ck' ikm').2) :
    ck = ck' ∧ ikm = ikm' := by
  rw [hkdf_snd, hkdf_snd] at h
  obtain ⟨hck, hikm⟩ := Symbol.authenticate_inj.mp
    (Vector.toList_inj.mp (Symbol.authenticate_inj.mp h).1)
  exact ⟨Vector.toList_inj.mp hck, hikm⟩

/-- A public output reveals that the chaining key and the input were public. -/
theorem public_hkdf_fst
    (h : ∀ b ∈ (symbolicSuite.hkdf ck ikm).1.toList, Public Name.Held sealedBy b) :
    (∀ b ∈ ck.toList, Public Name.Held sealedBy b) ∧
      ∀ b ∈ ikm, Public Name.Held sealedBy b := by
  rw [hkdf_fst] at h
  exact Symbol.public_authenticate (Symbol.public_authenticate h).1

/-- A cipher key is public only if all that it was derived from is. -/
theorem public_hkdf_snd
    (h : ∀ b ∈ (symbolicSuite.hkdf ck ikm).2.toList, Public Name.Held sealedBy b) :
    (∀ b ∈ ck.toList, Public Name.Held sealedBy b) ∧
      ∀ b ∈ ikm, Public Name.Held sealedBy b := by
  rw [hkdf_snd] at h
  exact Symbol.public_authenticate (Symbol.public_authenticate h).1

end

/-! ## What honest nodes encrypt -/

/-- The ciphertexts of honest nodes: the key tells the call and, with the events, by whom
it was made. -/
inductive HonestSeal (events : List Event) : (key msg : List SymByte) → Prop
  | static2 (ck : Vector SymByte 32) (k : Nat) (re : Vector SymByte 32) (node : Nat) :
      HonestSeal events
        (symbolicSuite.hkdf ck (Symbol.diffieHellman (.msg2Ephemeral k) re).toList).2.toList
        (Symbol.publicKey (.static node)).toList
  | payload2 (ck : Vector SymByte 32) (node : Nat) (re : Vector SymByte 32) (e : Name)
      (hevent : .sentMsg2 node re.toList e ∈ events) :
      HonestSeal events
        (symbolicSuite.hkdf ck (Symbol.diffieHellman (.static node) re).toList).2.toList []
  | static3 (c : Vector SymByte 32) (k : Nat) (re rs : Vector SymByte 32) (node : Nat)
      (hevent : .sentMsg3 node (.msg1Ephemeral k) re.toList rs ∈ events) :
      HonestSeal events
        (symbolicSuite.hkdf (symbolicSuite.hkdf
            (symbolicSuite.hkdf c (Symbol.diffieHellman (.msg1Ephemeral k) re).toList).1
            (Symbol.diffieHellman (.msg1Ephemeral k) rs).toList).1 []).2.toList
        (Symbol.publicKey (.static node)).toList

/-- What was sealed honestly stays so when more happens. -/
theorem HonestSeal.mono {events events' : List Event} (hsub : events ⊆ events')
    {key msg : List SymByte} (h : HonestSeal events key msg) : HonestSeal events' key msg := by
  cases h with
  | static2 ck k re node => exact .static2 ck k re node
  | payload2 ck node re e hevent => exact .payload2 ck node re e (hsub hevent)
  | static3 c k re rs node hevent => exact .static3 c k re rs node (hsub hevent)

/-- A byte that may be in the adversary's hands after the given events. -/
abbrev PublicAfter (events : List Event) : SymByte → Prop :=
  Public Name.Held (HonestSeal events)

/-- Public keys are public at all times. -/
theorem publicAfter_publicKey (events : List Event) (x : Name) :
    ∀ b ∈ (Symbol.publicKey x).toList, PublicAfter events b := by
  intro b hb
  obtain ⟨i, rfl⟩ : ∃ i, Symbol.pub x i = b := by
    simpa [Symbol.publicKey, Vector.mem_ofFn] using hb
  exact .pub x i

/-- What honest parties seal during a handshake is public anyway. -/
theorem HonestSeal.public_msg {events : List Event} {key msg : List SymByte}
    (h : HonestSeal events key msg) : ∀ b ∈ msg, PublicAfter events b := by
  cases h with
  | static2 ck k re node => exact publicAfter_publicKey _ _
  | payload2 ck node re e hevent => simp
  | static3 c k re rs node hevent => exact publicAfter_publicKey _ _

/-- An honest ciphertext is public. -/
theorem HonestSeal.public_encrypt {events : List Event} {key msg : List SymByte}
    (h : HonestSeal events key msg) (nonce ad : List SymByte) :
    ∀ b ∈ Symbol.encrypt key nonce ad msg, PublicAfter events b := by
  intro b hb
  obtain ⟨i, -, rfl⟩ := Symbol.mem_encrypt.mp hb
  exact .honest i h

/-- A Diffie-Hellman value is never the empty input. -/
theorem dh_toList_ne_nil (x : Name) (point : Vector SymByte 32) :
    (Symbol.diffieHellman x point).toList ≠ [] := by
  intro h
  simpa using congrArg List.length h

/-- The payload key of message 2 was used by the responder whose static key it is, on the
initiator's own ephemeral key. -/
theorem HonestSeal.sentMsg2 {events : List Event} {ck : Vector SymByte 32} {k j : Nat}
    {msg : List SymByte}
    (h : HonestSeal events (symbolicSuite.hkdf ck (Symbol.diffieHellman (.msg1Ephemeral k)
      (Symbol.publicKey (.static j))).toList).2.toList msg) :
    ∃ e, .sentMsg2 j (Symbol.publicKey (.msg1Ephemeral k)).toList e ∈ events := by
  generalize hkey : (symbolicSuite.hkdf ck (Symbol.diffieHellman (.msg1Ephemeral k)
    (Symbol.publicKey (.static j))).toList).2.toList = key at h
  cases h with
  | static2 ck' k' re node =>
    have hdh := Vector.toList_inj.mp (hkdf_snd_inj (Vector.toList_inj.mp hkey)).2
    rcases Symbol.diffieHellman_eq hdh with ⟨hname, -⟩ | ⟨hpoint, -⟩
    · cases hname
    · cases Symbol.publicKey_injective hpoint
  | payload2 ck' node re e hevent =>
    have hdh := Vector.toList_inj.mp (hkdf_snd_inj (Vector.toList_inj.mp hkey)).2
    rcases Symbol.diffieHellman_eq hdh with ⟨hname, -⟩ | ⟨hpoint, hre⟩
    · cases hname
    · obtain ⟨rfl⟩ := Symbol.publicKey_injective hpoint
      exact ⟨e, hre ▸ hevent⟩
  | static3 c k' re rs node hevent =>
    exact absurd (hkdf_snd_inj (Vector.toList_inj.mp hkey)).2 (dh_toList_ne_nil _ _)

/-! ## Sessions -/

/-- The chaining keys of a responder that waits for message 3: `ee` and `es` are mixed in,
and then nothing for each message that was refused. -/
inductive Waiting (node : Nat) (re : Vector SymByte 32) (e : Name) : Vector SymByte 32 → Prop
  | answered (c : Vector SymByte 32) : Waiting node re e
      (symbolicSuite.hkdf (symbolicSuite.hkdf c (Symbol.diffieHellman e re).toList).1
        (Symbol.diffieHellman (.static node) re).toList).1
  | refused {ck : Vector SymByte 32} : Waiting node re e ck →
      Waiting node re e (symbolicSuite.hkdf ck []).1

/-- A waiting responder's chaining key is out of reach unless `re` is the adversary's. -/
theorem Waiting.held_of_public {node k : Nat} {re ck : Vector SymByte 32}
    {sealedBy : (key msg : List SymByte) → Prop} (h : Waiting node re (.msg2Ephemeral k) ck)
    (hpublic : ∀ b ∈ ck.toList, Public Name.Held sealedBy b) :
    ∃ y, Name.Held y ∧ re = Symbol.publicKey y := by
  induction h with
  | answered c =>
    have hee := (public_hkdf_fst (public_hkdf_fst hpublic).1).2
    exact Symbol.public_diffieHellman (Name.not_held_msg2Ephemeral k) hee
  | refused _ ih => exact ih (public_hkdf_fst hpublic).1

/-- The key of message 3 was used by an initiator on this responder's ephemeral key. -/
theorem Waiting.sentMsg3 {events : List Event} {node k j : Nat} {re ck : Vector SymByte 32}
    (hw : Waiting node re (.msg2Ephemeral k) ck)
    (h : HonestSeal events (symbolicSuite.hkdf ck []).2.toList
      (Symbol.publicKey (.static j)).toList) :
    ∃ e rs, .sentMsg3 j e (Symbol.publicKey (.msg2Ephemeral k)).toList rs ∈ events := by
  generalize hkey : (symbolicSuite.hkdf ck []).2.toList = key at h
  generalize hmsg : (Symbol.publicKey (Name.static j)).toList = msg at h
  cases h with
  | static2 ck' k' re' node' =>
    exact absurd (hkdf_snd_inj (Vector.toList_inj.mp hkey)).2.symm (dh_toList_ne_nil _ _)
  | payload2 ck' node' re' e hevent =>
    exact absurd (hkdf_snd_inj (Vector.toList_inj.mp hkey)).2.symm (dh_toList_ne_nil _ _)
  | static3 c k' re' rs node' hevent =>
    obtain ⟨rfl⟩ := Symbol.publicKey_injective (Vector.toList_inj.mp hmsg)
    have hck := (hkdf_snd_inj (Vector.toList_inj.mp hkey)).1
    cases hw with
    | answered c' =>
      have hee := (hkdf_fst_inj (hkdf_fst_inj hck).1).2
      rcases Symbol.diffieHellman_eq (Vector.toList_inj.mp hee) with ⟨hname, -⟩ | ⟨-, hre'⟩
      · cases hname
      · exact ⟨_, rs, hre' ▸ hevent⟩
    | refused _ => exact absurd (hkdf_fst_inj hck).2.symm (dh_toList_ne_nil _ _)

/-- What holds of every handshake of an honest node. -/
structure Session.Inv (s : Session) : Prop where
  identity_eq : s.handshake.identity = honest s.node
  initiator : ∀ e p, s.handshake.state = .initSentMsg1 e p → ∃ k, e = .msg1Ephemeral k
  responder : ∀ re e, s.handshake.state = .respSentMsg2 re e →
    ∃ k, e = .msg2Ephemeral k ∧ Waiting s.node re e s.handshake.ck

/-- What holds in every reachable world. -/
structure World.Inv (w : World) : Prop where
  sessions : ∀ s ∈ w.sessions, s.Inv
  network : ∀ msg ∈ w.network, ∀ b ∈ msg, PublicAfter w.events b
  initiator : ∀ node e re j, .sentMsg3 node e re (Symbol.publicKey (.static j)) ∈ w.events →
    ∃ e', .sentMsg2 j (Symbol.publicKey e).toList e' ∈ w.events
  responder : ∀ node re e j, .finished node re e (Symbol.publicKey (.static j)) ∈ w.events →
    (∀ y, Name.Held y → re ≠ Symbol.publicKey y) →
    ∃ e' rs, .sentMsg3 j e' (Symbol.publicKey e).toList rs ∈ w.events

/-- What the adversary can send is public. -/
theorem World.Inv.public_of_known {w : World} (hw : w.Inv) {b : SymByte} (hb : w.Known b) :
    PublicAfter w.events b :=
  hb.public (fun _ ⟨msg, hmsg, hmem⟩ => hw.network msg hmsg _ hmem)
    (fun _ _ hseal => hseal.public_msg)

/-! ## One call -/

/-- What a successful call owes: the session keeps its invariant, the reply is public once
the event is recorded, and the event is authenticated. -/
structure Session.Sound (s : Session) (events : List Event) (call : HandshakeCall SymByte Name)
    (reply : Option (List SymByte)) (n : NoiseHandshake symbolicSuite) : Prop where
  inv : Session.Inv { s with handshake := n }
  reply_public : ∀ msg ∈ reply, ∀ b ∈ msg, PublicAfter (events ++ (s.event call n).toList) b
  initiator : ∀ node e re j,
    s.event call n = some (.sentMsg3 node e re (Symbol.publicKey (.static j))) →
    ∃ e', .sentMsg2 j (Symbol.publicKey e).toList e' ∈ events
  responder : ∀ node re e j,
    s.event call n = some (.finished node re e (Symbol.publicKey (.static j))) →
    (∀ y, Name.Held y → re ≠ Symbol.publicKey y) →
    ∃ e' rs, .sentMsg3 j e' (Symbol.publicKey e).toList rs ∈ events

section

variable {s : Session} {events : List Event} {msg reply : List SymByte}
  {n : NoiseHandshake symbolicSuite}

/-- The first message of an honest initiator. -/
theorem Session.Inv.createMessage1_sound (hs : s.Inv) {k : Nat}
    (hrun : NoiseHandshake.createMessage1 (.msg1Ephemeral k) s.handshake = .ok reply n) :
    s.Sound events (.createMessage1 (.msg1Ephemeral k)) (some reply) n := by
  obtain ⟨rfl, rfl⟩ := NoiseHandshake.createMessage1_eq_ok hrun
  refine ⟨⟨hs.identity_eq, ?_, ?_⟩, ?_, ?_, ?_⟩
  · intro e p hstate
    simp only [InternalState.initSentMsg1.injEq] at hstate
    exact ⟨k, hstate.1.symm⟩
  · intro re e hstate
    simp only [reduceCtorEq] at hstate
  · intro msg hmsg
    obtain rfl := Option.some.inj hmsg
    rw [symbolicSuite_publicKey]
    exact publicAfter_publicKey _ _
  · intro node e re j hevent
    simp only [event, reduceCtorEq] at hevent
  · intro node re e j hevent
    simp only [event, reduceCtorEq] at hevent

/-- An honest party uses its own static secret. -/
theorem Session.Inv.secret_eq (hs : s.Inv) :
    s.handshake.identity.x25519Secret = .static s.node := by
  rw [hs.identity_eq, honest]

/-- An honest party sends its own static key. -/
theorem Session.Inv.public_eq (hs : s.Inv) :
    s.handshake.identity.x25519PublicKey = Symbol.publicKey (.static s.node) := by
  rw [hs.identity_eq, honest_x25519PublicKey]

/-- The second message of an honest responder. -/
theorem Session.Inv.processMessage1_sound (hs : s.Inv) {k : Nat}
    (hrun : NoiseHandshake.processMessage1CreateMessage2 (.msg2Ephemeral k) msg s.handshake =
      .ok reply n) :
    s.Sound events (.processMessage1CreateMessage2 (.msg2Ephemeral k) msg) (some reply) n := by
  obtain ⟨re, c1, c2, rfl, hstatic, hpayload, rfl, hn⟩ :=
    NoiseHandshake.processMessage1CreateMessage2_eq_ok hrun
  have hck : n.ck = (symbolicSuite.hkdf (symbolicSuite.hkdf s.handshake.ck
      (Symbol.diffieHellman (.msg2Ephemeral k) re).toList).1
      (Symbol.diffieHellman (.static s.node) re).toList).1 := by
    rw [hn, ← symbolicSuite_dh, ← symbolicSuite_dh, ← hs.secret_eq]
    rfl
  refine ⟨⟨?_, ?_, ?_⟩, ?_, ?_, ?_⟩
  · rw [hn]
    exact hs.identity_eq
  · intro e p hstate
    simp only [hn, reduceCtorEq] at hstate
  · intro re' e hstate
    simp only [hn, InternalState.respSentMsg2.injEq] at hstate
    obtain ⟨rfl, rfl⟩ := hstate
    exact ⟨k, rfl, hck ▸ .answered s.handshake.ck⟩
  · intro msg hmsg b hb
    obtain rfl := Option.some.inj hmsg
    rw [NoiseHandshake.sealed, hs.public_eq, symbolicSuite_encrypt, Option.some.injEq] at hstatic
    rw [NoiseHandshake.sealed, symbolicSuite_encrypt, Option.some.injEq] at hpayload
    simp only [List.mem_append, or_assoc] at hb
    rcases hb with hb | hb | hb
    · rw [symbolicSuite_publicKey] at hb
      exact publicAfter_publicKey _ _ b hb
    · rw [← hstatic] at hb
      refine HonestSeal.public_encrypt ?_ _ _ b hb
      rw [NoiseHandshake.staticKey2, NoiseHandshake.cipherKey, symbolicSuite_dh]
      exact .static2 _ k re s.node
    · rw [← hpayload] at hb
      refine HonestSeal.public_encrypt ?_ _ _ b hb
      rw [NoiseHandshake.payloadKey2, NoiseHandshake.cipherKey, symbolicSuite_dh, hs.secret_eq]
      exact .payload2 _ s.node re (.msg2Ephemeral k) (by simp [event])
  · intro node e re j hevent
    simp only [event, Option.some.injEq, reduceCtorEq] at hevent
  · intro node re e j hevent
    simp only [event, Option.some.injEq, reduceCtorEq] at hevent

/-- A completed handshake owes nothing but its identity. -/
theorem Session.Inv.of_complete (hs : s.Inv) {sendKey recvKey rs : Vector SymByte 32}
    (hidentity : n.identity = s.handshake.identity)
    (hcomplete : n.state = .complete sendKey recvKey rs) :
    Session.Inv { s with handshake := n } where
  identity_eq := hidentity.trans hs.identity_eq
  initiator := by
    intro e p hstate
    simp only [hcomplete, reduceCtorEq] at hstate
  responder := by
    intro re e hstate
    simp only [hcomplete, reduceCtorEq] at hstate

/-- The third message of an honest initiator, who has authenticated the responder. The payload opens
under a key from `es`, which only that responder can compute. -/
theorem Session.Inv.processMessage2_sound (hs : s.Inv)
    (hinput : ∀ b ∈ msg, PublicAfter events b)
    (hrun : NoiseHandshake.processMessage2CreateMessage3 msg s.handshake = .ok reply n) :
    s.Sound events (.processMessage2CreateMessage3 msg) (some reply) n := by
  obtain ⟨e, p, re, c1, c2, rs, payload, hstate, rfl, hpayload, hown, hn⟩ :=
    NoiseHandshake.processMessage2CreateMessage3_eq_ok symbolicSuite_lawful.aead hrun
  obtain ⟨k, rfl⟩ := hs.initiator e p hstate
  have hevent : s.event (.processMessage2CreateMessage3 (re.toList ++ c1 ++ c2)) n =
      some (.sentMsg3 s.node (.msg1Ephemeral k) re.toList rs) := by
    simp [event, hstate, hn]
  refine ⟨hs.of_complete (by rw [hn]; rfl) (by rw [hn]), ?_, ?_, ?_⟩
  · intro msg hmsg b hb
    obtain rfl := Option.some.inj hmsg
    rw [NoiseHandshake.sealed, hs.public_eq, symbolicSuite_encrypt, Option.some.injEq] at hown
    rw [← hown] at hb
    refine HonestSeal.public_encrypt ?_ _ _ b hb
    have hmem : Event.sentMsg3 s.node (.msg1Ephemeral k) re.toList rs ∈
        events ++ [Event.sentMsg3 s.node (.msg1Ephemeral k) re.toList rs] := by simp
    have hseal := HonestSeal.static3 s.handshake.ck k re rs s.node hmem
    rw [← symbolicSuite_dh, ← symbolicSuite_dh] at hseal
    rw [hevent]
    exact hseal
  · intro node e re' j hevent'
    rw [hevent, Option.some.injEq, Event.sentMsg3.injEq] at hevent'
    obtain ⟨-, rfl, -, rfl⟩ := hevent'
    rw [NoiseHandshake.opened, symbolicSuite_decrypt, Symbol.decrypt_eq_some,
      NoiseHandshake.cipherKey, symbolicSuite_dh] at hpayload
    refine HonestSeal.sentMsg2 (Symbol.sealedBy_of_public_encrypt (fun hkey => ?_)
      (hpayload ▸ fun b hb => hinput b (List.mem_append_right _ hb)))
    obtain ⟨y, hheld, hy⟩ := Symbol.public_diffieHellman (Name.not_held_msg1Ephemeral k)
      (public_hkdf_snd hkey).2
    rw [Symbol.publicKey_inj] at hy
    exact Name.not_held_static j (hy ▸ hheld)
  · intro node re' e j hevent'
    rw [hevent] at hevent'
    simp only [Option.some.injEq, reduceCtorEq] at hevent'

/-- The end of the handshake for an honest responder. The initiator is authenticated only if the
adversary does not hold the secret of `re`: the message opens under a key from `ee` and `es`, and no
secret of the initiator but that of `re` is in it. -/
theorem Session.Inv.processMessage3_sound (hs : s.Inv)
    (hinput : ∀ b ∈ msg, PublicAfter events b) {u : Unit}
    (hrun : NoiseHandshake.processMessage3 msg s.handshake = .ok u n) :
    s.Sound events (.processMessage3 msg) none n := by
  obtain ⟨re, e, rs, hstate, hopened, hn⟩ := NoiseHandshake.processMessage3_eq_ok hrun
  obtain ⟨k, rfl, hwaiting⟩ := hs.responder re e hstate
  have hevent : s.event (.processMessage3 msg) n =
      some (.finished s.node re (.msg2Ephemeral k) rs) := by
    simp [event, hstate, hn]
  refine ⟨hs.of_complete (by rw [hn]; rfl) (by rw [hn]), nofun, ?_, ?_⟩
  · intro node e re' j hevent'
    rw [hevent] at hevent'
    simp only [Option.some.injEq, reduceCtorEq] at hevent'
  · intro node re' e j hevent' hforeign
    rw [hevent, Option.some.injEq, Event.finished.injEq] at hevent'
    obtain ⟨-, rfl, rfl, rfl⟩ := hevent'
    rw [NoiseHandshake.opened, symbolicSuite_decrypt, Symbol.decrypt_eq_some,
      NoiseHandshake.cipherKey] at hopened
    refine hwaiting.sentMsg3 (Symbol.sealedBy_of_public_encrypt (fun hkey => ?_)
      (hopened ▸ hinput))
    obtain ⟨y, hheld, hy⟩ := hwaiting.held_of_public (public_hkdf_snd hkey).1
    exact hforeign y hheld hy

/-- A refused call keeps the session's invariant. -/
theorem Session.Inv.refused (hs : s.Inv) {call : HandshakeCall SymByte Name} {err : CryptoError}
    (hrun : NoiseHandshake.perform call s.handshake = .error (.error err) n) :
    Session.Inv { s with handshake := n } := by
  cases call with
  | createMessage1 e =>
    obtain rfl := NoiseHandshake.createMessage1_eq_error (Exec.map_eq_error.mp hrun)
    exact hs
  | processMessage1CreateMessage2 e msg =>
    obtain ⟨rfl, -⟩ := NoiseHandshake.processMessage1CreateMessage2_eq_error
      symbolicSuite_lawful.aead (Exec.map_eq_error.mp hrun)
    exact hs
  | processMessage2CreateMessage3 msg =>
    obtain ⟨hidentity, hstate, hsame⟩ := NoiseHandshake.processMessage2CreateMessage3_eq_error
      symbolicSuite_lawful.aead (Exec.map_eq_error.mp hrun)
    rcases hsame with rfl | ⟨e, p, hinit⟩
    · exact hs
    · refine ⟨hidentity.trans hs.identity_eq, fun e p h => hs.initiator e p (hstate ▸ h), ?_⟩
      intro re e h
      simp only [hstate, hinit, reduceCtorEq] at h
  | processMessage3 msg =>
    rcases NoiseHandshake.processMessage3_eq_error (Exec.map_eq_error.mp hrun) with rfl | rfl
    · exact hs
    · refine ⟨hs.identity_eq, hs.initiator, fun re e h => ?_⟩
      obtain ⟨k, rfl, hwaiting⟩ := hs.responder re e h
      exact ⟨k, rfl, hwaiting.refused⟩

end

/-- Every call that returns a value is sound, whatever the adversary sent. -/
theorem World.Inv.call_sound {w : World} (hw : w.Inv) {s : Session} (hs : s.Inv)
    {call : HandshakeCall SymByte Name} (hallowed : w.Allowed call)
    {reply : Option (List SymByte)} {n : NoiseHandshake symbolicSuite}
    (hrun : NoiseHandshake.perform call s.handshake = .ok reply n) :
    s.Sound w.events call reply n := by
  cases call with
  | createMessage1 e =>
    obtain rfl := hallowed
    obtain ⟨msg, hrun', rfl⟩ := Exec.map_eq_ok.mp hrun
    exact hs.createMessage1_sound hrun'
  | processMessage1CreateMessage2 e msg1 =>
    obtain ⟨rfl, -⟩ := hallowed
    obtain ⟨msg, hrun', rfl⟩ := Exec.map_eq_ok.mp hrun
    exact hs.processMessage1_sound hrun'
  | processMessage2CreateMessage3 msg2 =>
    obtain ⟨msg, hrun', rfl⟩ := Exec.map_eq_ok.mp hrun
    exact hs.processMessage2_sound (fun b hb => hw.public_of_known (hallowed b hb)) hrun'
  | processMessage3 msg3 =>
    obtain ⟨u, hrun', rfl⟩ := Exec.map_eq_ok.mp hrun
    exact hs.processMessage3_sound (fun b hb => hw.public_of_known (hallowed b hb)) hrun'

end CekyP2P.Crypto
