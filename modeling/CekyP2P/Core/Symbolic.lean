import Mathlib.Data.Sym.Sym2
import Mathlib.Data.List.OfFn
import Mathlib.Data.Vector.Basic

/-!
# Symbolic cryptography at the level of bytes

Byte strings are lists of symbols, each of which names one byte of a value and the
value itself as a term: a public key, a Diffie-Hellman secret, a hash, a MAC or a
ciphertext. Equal strings therefore come from equal terms, and a string glued
together from pieces of others is none of these values. `Knows` is what an
adversary can compute from what it has seen with the secrets it holds; `Public` is
an upper bound for it that a protocol's invariant can carry.
-/

namespace CekyP2P

/-- One byte of a term over secret names `ν`. -/
inductive Symbol (ν : Type)
  | lit (b : UInt8)
  | pub (x : ν) (i : Fin 32)
  | dh (pair : Sym2 ν) (i : Fin 32)
  /-- The result of multiplying a string that is no public key. -/
  | dhRaw (x : ν) (point : List (Symbol ν)) (i : Fin 32)
  | hash (data : List (Symbol ν)) (i : Fin 32)
  | mac (key data : List (Symbol ν)) (i : Fin 32)
  | cipher (key nonce ad msg : List (Symbol ν)) (i : Nat)

namespace Symbol

variable {ν : Type}

/-! ## The primitives -/

/-- The public key of a secret. -/
def publicKey (x : ν) : Vector (Symbol ν) 32 := Vector.ofFn (pub x)

/-- The secret that two parties share. -/
def dhShared (pair : Sym2 ν) : Vector (Symbol ν) 32 := Vector.ofFn (dh pair)

open Classical in
/-- Multiplication of a point by a secret. -/
noncomputable def diffieHellman (x : ν) (point : Vector (Symbol ν) 32) : Vector (Symbol ν) 32 :=
  if h : ∃ y, point = publicKey y then dhShared s(x, h.choose)
  else Vector.ofFn (dhRaw x point.toList)

/-- A hash value. -/
def digest (data : List (Symbol ν)) : Vector (Symbol ν) 32 := Vector.ofFn (hash data)

/-- An authentication code. -/
def authenticate (key data : List (Symbol ν)) : Vector (Symbol ν) 32 :=
  Vector.ofFn (mac key data)

/-- A ciphertext of the message's length and 16 bytes more. -/
def encrypt (key nonce ad msg : List (Symbol ν)) : List (Symbol ν) :=
  List.ofFn fun i : Fin (msg.length + 16) => cipher key nonce ad msg i

open Classical in
/-- Decryption succeeds on ciphertexts made with the same key, nonce and associated data. -/
noncomputable def decrypt (key nonce ad ct : List (Symbol ν)) : Option (List (Symbol ν)) :=
  if h : ∃ msg, ct = encrypt key nonce ad msg then some h.choose else none

/-- Arrays of symbols are compared element by element. -/
theorem ofFn_eq_ofFn {n : Nat} {f g : Fin n → Symbol ν} (h : Vector.ofFn f = Vector.ofFn g)
    (i : Fin n) : f i = g i := by
  have := congrArg (fun v : Vector (Symbol ν) n => v[i]) h
  simpa using this

/-- Different secrets have different public keys. -/
theorem publicKey_injective : Function.Injective (publicKey : ν → Vector (Symbol ν) 32) := by
  intro x y h
  have := ofFn_eq_ofFn h 0
  simpa using this

@[simp] theorem publicKey_inj {x y : ν} : publicKey x = publicKey y ↔ x = y :=
  publicKey_injective.eq_iff

/-- With a public key, the result is the shared secret of the pair. -/
theorem diffieHellman_publicKey (x y : ν) :
    diffieHellman x (publicKey y) = dhShared s(x, y) := by
  have h : ∃ z, publicKey y = publicKey z := ⟨y, rfl⟩
  rw [diffieHellman, dif_pos h, ← publicKey_injective h.choose_spec]

/-- Both parties get the same secret. -/
theorem diffieHellman_comm (x y : ν) :
    diffieHellman x (publicKey y) = diffieHellman y (publicKey x) := by
  rw [diffieHellman_publicKey, diffieHellman_publicKey, Sym2.eq_swap]

/-- With a point that is no public key, the result is a symbol of its own. -/
theorem diffieHellman_of_ne {x : ν} {point : Vector (Symbol ν) 32}
    (h : ∀ y, point ≠ publicKey y) :
    diffieHellman x point = Vector.ofFn (dhRaw x point.toList) := by
  rw [diffieHellman, dif_neg (by simpa using h)]

/-- Equal results come from the same pair of keys, or from the same secret and point. -/
theorem diffieHellman_eq {x x' : ν} {point point' : Vector (Symbol ν) 32}
    (h : diffieHellman x point = diffieHellman x' point') :
    (x = x' ∧ point = point') ∨ (point = publicKey x' ∧ point' = publicKey x) := by
  by_cases hp : ∃ y, point = publicKey y <;> by_cases hp' : ∃ y, point' = publicKey y
  · obtain ⟨y, rfl⟩ := hp
    obtain ⟨y', rfl⟩ := hp'
    rw [diffieHellman_publicKey, diffieHellman_publicKey] at h
    have hpair : s(x, y) = s(x', y') := by simpa using ofFn_eq_ofFn h 0
    rcases Sym2.eq_iff.mp hpair with ⟨rfl, rfl⟩ | ⟨rfl, rfl⟩
    · exact .inl ⟨rfl, rfl⟩
    · exact .inr ⟨rfl, rfl⟩
  · obtain ⟨y, rfl⟩ := hp
    rw [diffieHellman_publicKey, diffieHellman_of_ne (by simpa using hp')] at h
    have := ofFn_eq_ofFn h 0
    simp at this
  · obtain ⟨y', rfl⟩ := hp'
    rw [diffieHellman_publicKey, diffieHellman_of_ne (by simpa using hp)] at h
    have := ofFn_eq_ofFn h 0
    simp at this
  · rw [diffieHellman_of_ne (by simpa using hp), diffieHellman_of_ne (by simpa using hp')] at h
    have := ofFn_eq_ofFn h 0
    simp only [dhRaw.injEq, Vector.toList_inj, and_true] at this
    exact .inl this

@[simp] theorem authenticate_inj {key data key' data' : List (Symbol ν)} :
    authenticate key data = authenticate key' data' ↔ key = key' ∧ data = data' := by
  refine ⟨fun h => ?_, fun ⟨hk, hd⟩ => by rw [hk, hd]⟩
  have := ofFn_eq_ofFn h 0
  simpa using this

@[simp] theorem length_encrypt (key nonce ad msg : List (Symbol ν)) :
    (encrypt key nonce ad msg).length = msg.length + 16 := by
  simp [encrypt]

/-- The symbols of a ciphertext. -/
theorem mem_encrypt {key nonce ad msg : List (Symbol ν)} {b : Symbol ν} :
    b ∈ encrypt key nonce ad msg ↔ ∃ i < msg.length + 16, b = cipher key nonce ad msg i := by
  simp only [encrypt, List.mem_ofFn]
  exact ⟨fun ⟨i, hi⟩ => ⟨i, i.isLt, hi.symm⟩, fun ⟨i, hi, hb⟩ => ⟨⟨i, hi⟩, hb.symm⟩⟩

/-- A ciphertext determines everything that it was made of. -/
theorem encrypt_inj {key nonce ad msg key' nonce' ad' msg' : List (Symbol ν)}
    (h : encrypt key nonce ad msg = encrypt key' nonce' ad' msg') :
    key = key' ∧ nonce = nonce' ∧ ad = ad' ∧ msg = msg' := by
  have hmem : cipher key nonce ad msg 0 ∈ encrypt key nonce ad msg :=
    mem_encrypt.mpr ⟨0, by omega, rfl⟩
  rw [h, mem_encrypt] at hmem
  obtain ⟨i, -, hi⟩ := hmem
  simp only [cipher.injEq] at hi
  exact ⟨hi.1, hi.2.1, hi.2.2.1, hi.2.2.2.1⟩

/-- Decryption opens what was encrypted with the same key, nonce and data, and nothing else. -/
theorem decrypt_eq_some {key nonce ad ct msg : List (Symbol ν)} :
    decrypt key nonce ad ct = some msg ↔ ct = encrypt key nonce ad msg := by
  rw [decrypt]
  split
  case isTrue h =>
    rw [Option.some.injEq]
    refine ⟨fun hmsg => hmsg ▸ h.choose_spec, fun hct => ?_⟩
    exact (encrypt_inj (h.choose_spec.symm.trans hct)).2.2.2
  case isFalse h => exact ⟨(nomatch ·), fun hct => absurd ⟨msg, hct⟩ h⟩

/-! ## The adversary -/

/-- The bytes an adversary can compute from those it has seen, with the secrets it
holds. Every public key counts as known. -/
inductive Knows (held : ν → Prop) (seen : Symbol ν → Prop) : Symbol ν → Prop
  | seen {b} : seen b → Knows held seen b
  | lit (b) : Knows held seen (.lit b)
  | pub (x i) : Knows held seen (.pub x i)
  | dh {x pair} (i) : held x → x ∈ pair → Knows held seen (.dh pair i)
  | dhRaw {x point} (i) : held x → (∀ b ∈ point, Knows held seen b) →
      Knows held seen (.dhRaw x point i)
  | hash {data} (i) : (∀ b ∈ data, Knows held seen b) → Knows held seen (.hash data i)
  | mac {key data} (i) : (∀ b ∈ key, Knows held seen b) → (∀ b ∈ data, Knows held seen b) →
      Knows held seen (.mac key data i)
  | encrypt {key nonce ad msg} (i) : (∀ b ∈ key, Knows held seen b) →
      (∀ b ∈ nonce, Knows held seen b) → (∀ b ∈ ad, Knows held seen b) →
      (∀ b ∈ msg, Knows held seen b) → Knows held seen (.cipher key nonce ad msg i)
  | decrypt {key nonce ad msg i b} : (∀ b ∈ key, Knows held seen b) →
      Knows held seen (.cipher key nonce ad msg i) → b ∈ msg → Knows held seen b

/-- A bound on the adversary's knowledge when the honest parties encrypt as `sealedBy`
tells: no other value that depends on a secret of theirs is ever sent. -/
inductive Public (held : ν → Prop) (sealedBy : (key msg : List (Symbol ν)) → Prop) :
    Symbol ν → Prop
  | lit (b) : Public held sealedBy (.lit b)
  | pub (x i) : Public held sealedBy (.pub x i)
  | dh {x pair} (i) : held x → x ∈ pair → Public held sealedBy (.dh pair i)
  | dhRaw {x point} (i) : held x → Public held sealedBy (.dhRaw x point i)
  | hash (data i) : Public held sealedBy (.hash data i)
  | mac {key data} (i) : (∀ b ∈ key, Public held sealedBy b) →
      (∀ b ∈ data, Public held sealedBy b) → Public held sealedBy (.mac key data i)
  | encrypt {key nonce ad msg} (i) : (∀ b ∈ key, Public held sealedBy b) →
      (∀ b ∈ msg, Public held sealedBy b) → Public held sealedBy (.cipher key nonce ad msg i)
  | honest {key nonce ad msg} (i) : sealedBy key msg →
      Public held sealedBy (.cipher key nonce ad msg i)

section

variable {held : ν → Prop} {seen : Symbol ν → Prop}
  {sealedBy sealedBy' : (key msg : List (Symbol ν)) → Prop}

/-! ### What can be computed -/

/-- Public keys are known. -/
theorem knows_publicKey (x : ν) : ∀ b ∈ (publicKey x).toList, Knows held seen b := by
  intro b hb
  obtain ⟨i, rfl⟩ : ∃ i, pub x i = b := by simpa [publicKey] using hb
  exact .pub x i

/-- Who holds one of two secrets knows what they share. -/
theorem knows_diffieHellman {y : ν} (x : ν) (hy : held y) :
    ∀ b ∈ (diffieHellman x (publicKey y)).toList, Knows held seen b := by
  intro b hb
  rw [diffieHellman_publicKey] at hb
  obtain ⟨i, rfl⟩ : ∃ i, dh s(x, y) i = b := by simpa [dhShared] using hb
  exact .dh i hy (Sym2.mem_mk_right x y)

/-- Who knows the data knows its hash. -/
theorem knows_digest {data : List (Symbol ν)} (h : ∀ b ∈ data, Knows held seen b) :
    ∀ b ∈ (digest data).toList, Knows held seen b := by
  intro b hb
  obtain ⟨i, rfl⟩ : ∃ i, hash data i = b := by simpa [digest] using hb
  exact .hash i h

/-- Who knows key and data knows the code. -/
theorem knows_authenticate {key data : List (Symbol ν)} (hkey : ∀ b ∈ key, Knows held seen b)
    (hdata : ∀ b ∈ data, Knows held seen b) :
    ∀ b ∈ (authenticate key data).toList, Knows held seen b := by
  intro b hb
  obtain ⟨i, rfl⟩ : ∃ i, mac key data i = b := by simpa [authenticate] using hb
  exact .mac i hkey hdata

/-- Who knows all parts can encrypt. -/
theorem knows_encrypt {key nonce ad msg : List (Symbol ν)} (hkey : ∀ b ∈ key, Knows held seen b)
    (hnonce : ∀ b ∈ nonce, Knows held seen b) (had : ∀ b ∈ ad, Knows held seen b)
    (hmsg : ∀ b ∈ msg, Knows held seen b) :
    ∀ b ∈ encrypt key nonce ad msg, Knows held seen b := by
  intro b hb
  obtain ⟨i, -, rfl⟩ := mem_encrypt.mp hb
  exact .encrypt i hkey hnonce had hmsg

/-! ### What cannot -/

/-- More honest ciphertexts make no byte less public. -/
theorem Public.mono (hmono : ∀ key msg, sealedBy key msg → sealedBy' key msg) {b : Symbol ν}
    (h : Public held sealedBy b) : Public held sealedBy' b := by
  induction h with
  | lit b => exact .lit b
  | pub x i => exact .pub x i
  | dh i hx hmem => exact .dh i hx hmem
  | dhRaw i hx => exact .dhRaw i hx
  | hash data i => exact .hash data i
  | mac i _ _ ihk ihd => exact .mac i ihk ihd
  | encrypt i _ _ ihk ihm => exact .encrypt i ihk ihm
  | honest i hs => exact .honest i (hmono _ _ hs)

/-- The adversary never leaves the bound if what it sees and what honest parties
encrypt is within it. -/
theorem Knows.public (hseen : ∀ b, seen b → Public held sealedBy b)
    (hplain : ∀ key msg, sealedBy key msg → ∀ b ∈ msg, Public held sealedBy b) {b : Symbol ν}
    (h : Knows held seen b) : Public held sealedBy b := by
  induction h with
  | seen hb => exact hseen _ hb
  | lit b => exact .lit b
  | pub x i => exact .pub x i
  | dh i hx hmem => exact .dh i hx hmem
  | dhRaw i hx _ _ => exact .dhRaw i hx
  | hash i _ _ => exact .hash _ i
  | mac i _ _ ihk ihd => exact .mac i ihk ihd
  | encrypt i _ _ _ _ ihk _ _ ihm => exact .encrypt i ihk ihm
  | decrypt _ _ hmem _ ihc =>
    cases ihc with
    | encrypt _ _ hmsg => exact hmsg _ hmem
    | honest _ hs => exact hplain _ _ hs _ hmem

/-- A public MAC reveals that its key and its input are public. -/
theorem public_authenticate {key data : List (Symbol ν)}
    (h : ∀ b ∈ (authenticate key data).toList, Public held sealedBy b) :
    (∀ b ∈ key, Public held sealedBy b) ∧ ∀ b ∈ data, Public held sealedBy b := by
  have hb : Public held sealedBy (.mac key data 0) :=
    h _ (by simp [authenticate, Vector.mem_ofFn])
  cases hb with
  | mac _ hk hd => exact ⟨hk, hd⟩

/-- A public Diffie-Hellman value has a secret that the adversary holds. -/
theorem public_diffieHellman {x : ν} {point : Vector (Symbol ν) 32} (hx : ¬held x)
    (h : ∀ b ∈ (diffieHellman x point).toList, Public held sealedBy b) :
    ∃ y, held y ∧ point = publicKey y := by
  by_cases hp : ∃ y, point = publicKey y
  · obtain ⟨y, rfl⟩ := hp
    rw [diffieHellman_publicKey] at h
    have hb : Public held sealedBy (.dh s(x, y) 0) := h _ (by simp [dhShared, Vector.mem_ofFn])
    cases hb with
    | dh _ hheld hmem =>
      rcases Sym2.mem_iff.mp hmem with rfl | rfl
      · exact absurd hheld hx
      · exact ⟨_, hheld, rfl⟩
  · rw [diffieHellman_of_ne (by simpa using hp)] at h
    have hb : Public held sealedBy (.dhRaw x point.toList 0) := h _ (by simp [Vector.mem_ofFn])
    cases hb with
    | dhRaw _ hheld => exact absurd hheld hx

/-- A ciphertext made of public bytes under a key that is not public was made by an
honest party. -/
theorem sealedBy_of_public_encrypt {key nonce ad msg : List (Symbol ν)}
    (hkey : ¬∀ b ∈ key, Public held sealedBy b)
    (h : ∀ b ∈ encrypt key nonce ad msg, Public held sealedBy b) : sealedBy key msg := by
  have hb := h _ (mem_encrypt.mpr ⟨0, by omega, rfl⟩)
  cases hb with
  | encrypt _ hk _ => exact absurd hk hkey
  | honest _ hs => exact hs

end

end Symbol

end CekyP2P
