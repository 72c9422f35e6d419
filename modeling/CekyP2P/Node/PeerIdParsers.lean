import CekyP2P.Crypto.PeerIdText
import CekyP2P.Node.EventLoop

/-!
# The parsers of peer identifiers

Identifiers in text come to a node by `PeerId::from_str` and by two branches of the event loop,
which call `hex::decode`. `ConnectPeerId` ignores identifiers of another length than 32 bytes,
`SendMessagePeerId` panics on them. The three parsers agree except on texts of three kinds: an even
number of digits other than 64, a pair that cuts a character, and a sign in place of a digit.
-/

namespace CekyP2P.Node

open Crypto Dht Protocol Transfer Transport

/-- What becomes of a text. -/
inductive Parsed
  | accepted (id : PeerId)
  | rejected
  | panicked
  deriving DecidableEq

namespace Parsed

/-- The outcome of a function that may fail. -/
def ofResult {ε : Type} : Except (Stop ε) PeerId → Parsed
  | .ok id => accepted id
  | .error (.error _) => rejected
  | .error _ => panicked

end Parsed

/-- The first lines of a branch, with what becomes of an identifier of another length. -/
def branchParse (otherLength : Parsed) (s : String) : Parsed :=
  match hexDecode s with
  | some bytes =>
    if h : bytes.length = 32 then .accepted ⟨⟨bytes.toArray, PeerId.size_toArray h⟩⟩
    else otherLength
  | none => .rejected

/-- How the command to connect reads an identifier. -/
def connectParse (peerIdHex : String) : Parsed := branchParse .rejected peerIdHex

/-- How the command to send a text reads an identifier. -/
def messageParse (target : String) : Parsed := branchParse .panicked target

/-- How `from_str` reads an identifier. -/
def fromStrParse (s : String) : Parsed := .ofResult (PeerId.fromStr s)

namespace ControlPlane

variable {σ : Type} {S : Suite UInt8 σ} {F : Type}

/-- The lines of `ConnectPeerId` after the parse. -/
def connectTo (id : PeerId) : ControlM S F Unit := do
  match ← routingGet id with
  | some peerInfo => emit (.command (.connect peerInfo.addr))
  | none => do
    let n ← get
    sendEncryptedAll .findNode (FindNode.encode ⟨id.bytes⟩) n.peerStates.keys
    modify fun n => { n with pendingDhtConnects := insert id n.pendingDhtConnects }

/-- The lines of `SendMessagePeerId` after the parse. -/
def messageTo (message : String) (id : PeerId) : ControlM S F Unit := do
  match ← routingGet id with
  | some peerInfo => sendEncrypted peerInfo.addr .data (utf8Bytes message)
  | none => pure ()

/-- A branch that goes on with the identifier, or ends. -/
def follow (accepted : PeerId → ControlM S F Unit) : Parsed → ControlM S F Unit
  | .accepted id => accepted id
  | .rejected => pure ()
  | .panicked => throw .panicked

/-- The command to connect follows its parser. -/
theorem connectPeerId_eq (peerIdHex : String) :
    (connectPeerId peerIdHex : ControlM S F Unit) = follow connectTo (connectParse peerIdHex) := by
  rw [connectPeerId, connectParse, branchParse]
  cases hexDecode peerIdHex with
  | none => rfl
  | some bytes =>
    by_cases hlength : bytes.length = 32
    · simp only [hlength, ↓reduceIte, ↓reduceDIte, Exec.copyFromSlice, pure_bind]
      rfl
    · simp only [hlength, ↓reduceIte, ↓reduceDIte]
      rfl

/-- The command to send a text follows its parser. -/
theorem sendMessagePeerId_eq (target message : String) :
    (sendMessagePeerId target message : ControlM S F Unit) =
      follow (messageTo message) (messageParse target) := by
  rw [sendMessagePeerId, messageParse, branchParse]
  cases hexDecode target with
  | none => rfl
  | some bytes =>
    by_cases hlength : bytes.length = 32
    · simp only [hlength, ↓reduceDIte, Exec.copyFromSlice, pure_bind]
      rfl
    · simp only [hlength, ↓reduceDIte, Exec.copyFromSlice]
      rfl

/-! ## Branches that have an identifier return -/

/-- A table with all its buckets can be searched. -/
theorem isOk_routingGet {n : ControlPlane S F}
    (hbuckets : n.routingTable.buckets.length = numBuckets) (id : PeerId) :
    Exec.isOk (routingGet id n) = true := by
  have hget : ∃ found, RoutingTable.get id n.routingTable = .ok found n.routingTable := by
    rw [RoutingTable.get, Exec.get_bind_apply]
    cases hindex : n.routingTable.bucketIndex id with
    | none => exact ⟨none, rfl⟩
    | some i =>
      have hlt : i < n.routingTable.buckets.length := hbuckets ▸ PeerId.bucketIndex_lt hindex
      simp only [Exec.index_of_lt hlt, pure_bind]
      exact ⟨_, rfl⟩
  obtain ⟨found, hget⟩ := hget
  rw [routingGet, Exec.get_bind_apply, Exec.bind_apply, Exec.call, hget]
  rfl

/-- Sending what was encrypted never fails. -/
theorem isOk_emitEncrypted (addr : SocketAddr) (msgType : MessageType)
    (result : Except CryptoError (UInt64 × List UInt8)) (n : ControlPlane S F) :
    Exec.isOk (emitEncrypted addr msgType result n) = true := by
  cases result with
  | ok sent => rfl
  | error e => rfl

/-- Encrypting and sending never fails. -/
theorem isOk_sendEncrypted (addr : SocketAddr) (msgType : MessageType) (data : List UInt8)
    (n : ControlPlane S F) : Exec.isOk (sendEncrypted addr msgType data n) = true := by
  rw [sendEncrypted, Exec.get_bind_apply]
  cases n.session addr with
  | none => rfl
  | some session =>
    exact Exec.isOk_bind rfl fun _ t => isOk_emitEncrypted addr msgType _ t

/-- Sending to several peers never fails. -/
theorem isOk_sendEncryptedAll (msgType : MessageType) (data : List UInt8) (addrs : List SocketAddr)
    (n : ControlPlane S F) : Exec.isOk (sendEncryptedAll msgType data addrs n) = true := by
  induction addrs generalizing n with
  | nil => rfl
  | cons addr addrs ih =>
    exact Exec.isOk_bind (isOk_sendEncrypted addr msgType data n) fun _ t => ih t

section

variable {n : ControlPlane S F} (hbuckets : n.routingTable.buckets.length = numBuckets)

include hbuckets

/-- Seeking a peer never fails. -/
theorem isOk_connectTo (id : PeerId) : Exec.isOk (connectTo id n) = true := by
  refine Exec.isOk_bind (isOk_routingGet hbuckets id) fun found t => ?_
  cases found with
  | none =>
    refine Exec.isOk_bind rfl fun m t => ?_
    exact Exec.isOk_bind (isOk_sendEncryptedAll _ _ _ t) fun _ _ => rfl
  | some peerInfo => rfl

/-- Sending a text to a peer never fails. -/
theorem isOk_messageTo (message : String) (id : PeerId) :
    Exec.isOk (messageTo message id n) = true := by
  refine Exec.isOk_bind (isOk_routingGet hbuckets id) fun found t => ?_
  cases found with
  | none => rfl
  | some peerInfo => exact isOk_sendEncrypted _ _ _ t

end

/-- A branch begins with a parser: it goes on with the identifier that was accepted, and panics
exactly if the parser does. -/
structure BeginsWith (branch : ControlM S F Unit) (accepted : PeerId → ControlM S F Unit)
    (parsed : Parsed) : Prop where
  follows : branch = follow accepted parsed
  returns : ∀ n : ControlPlane S F, n.routingTable.buckets.length = numBuckets →
    (Exec.isOk (branch n) = true ↔ parsed ≠ .panicked)

/-- A command panics exactly if its parser does. -/
theorem beginsWith_follow {accepted : PeerId → ControlM S F Unit}
    (h : ∀ n : ControlPlane S F, n.routingTable.buckets.length = numBuckets →
      ∀ id, Exec.isOk (accepted id n) = true) (parsed : Parsed) :
    BeginsWith (follow accepted parsed) accepted parsed where
  follows := rfl
  returns := by
    intro n hbuckets
    cases parsed with
    | accepted id => exact iff_of_true (h n hbuckets id) nofun
    | rejected => exact iff_of_true rfl nofun
    | panicked => exact iff_of_false nofun fun hne => hne rfl

end ControlPlane

/-! ## Agreement -/

/-- What a parser should do with a text: accept it if it is 64 hexadecimal digits, as the
identifier that is encoded as the text in lower case, and never panic. -/
structure Parsed.Right (s : String) (parsed : Parsed) : Prop where
  total : parsed ≠ .panicked
  accepts : (∃ id, parsed = .accepted id) ↔ IsIdText s
  names : ∀ id, parsed = .accepted id → hexEncode id.bytes.toList = s.toLower

/-- The three parsers do the same, and what they should. -/
structure ParsersAgree (s : String) : Prop where
  connect : connectParse s = fromStrParse s
  message : messageParse s = fromStrParse s
  right : (fromStrParse s).Right s

/-- An even number of hexadecimal digits, but not 64. -/
def OtherLength (s : String) : Prop :=
  (Text.bytes s).length % 2 = 0 ∧ (∀ b ∈ Text.bytes s, isHexDigit b = true) ∧
    (Text.bytes s).length ≠ 64

/-- A text of even length with a pair that ends inside a character, after pairs that are read. -/
def CutsCharacter (s : String) : Prop :=
  (Text.bytes s).length % 2 = 0 ∧ cutsCharacter (Text.bytes s) = true

/-- 32 pairs of digits, some of them with a plus sign in place of the first digit. -/
def Signed (s : String) : Prop :=
  (Text.bytes s).length = 64 ∧ Text.allPairs readsPair (Text.bytes s) = true ∧
    0x2b ∈ Text.bytes s

/-- The two ways to read a digit agree. -/
theorem hexDigit_eq_toDigit (c : UInt8) : hexDigit c = toDigit c := by
  revert c
  decide +kernel

/-- Two digits are a number. -/
theorem shiftLeft_or {high low : UInt8} (hhigh : high < 16) (hlow : low < 16) :
    high <<< 4 ||| low = high * 16 + low := by
  have hhigh' : high.toNat < 16 := UInt8.lt_iff_toNat_lt.mp hhigh
  have hlow' : low.toNat < 2 ^ 4 := UInt8.lt_iff_toNat_lt.mp hlow
  have hshift : (high <<< 4).toNat = 2 ^ 4 * high.toNat := by
    simp only [UInt8.toNat_shiftLeft, UInt8.reduceToNat, Nat.shiftLeft_eq, Nat.reduceMod]
    omega
  have hvalue : (high * 16 + low).toNat = 2 ^ 4 * high.toNat + low.toNat := toNat_value hhigh hlow
  rw [← UInt8.toNat_inj, UInt8.toNat_or, hshift, hvalue, Nat.two_pow_add_eq_or_of_lt hlow']

/-- Decoding pairs is reading them. -/
theorem hexPairs_eq (l : List UInt8) : hexPairs l = Text.readPairs digitPair l := by
  induction l using hexPairs.induct with
  | case1 => rfl
  | case2 => rfl
  | case3 a b rest ih =>
    rw [hexPairs, Text.readPairs, digitPair, ih, hexDigit_eq_toDigit, hexDigit_eq_toDigit]
    cases ha : toDigit a with
    | none => rfl
    | some high =>
      cases hb : toDigit b with
      | none => rfl
      | some low =>
        have hvalue := shiftLeft_or (hexChar_of_toDigit ha).1 (hexChar_of_toDigit hb).1
        simp [hvalue]

/-- `hex::decode` reads pairs of digits. -/
theorem hexDecode_eq (s : String) : hexDecode s = Text.readPairs digitPair (Text.bytes s) :=
  hexPairs_eq _

section

variable {s : String} {id : PeerId}

/-- What `from_str` accepts. -/
theorem fromStrParse_eq_accepted : fromStrParse s = .accepted id ↔
    Text.readPairs radixPair (Text.bytes s) = some id.bytes.toList := by
  have hread := idRead_fromStr s
  rw [fromStrParse]
  generalize PeerId.fromStr s = result at hread
  cases hread with
  | accepted hread =>
    rw [hread, Parsed.ofResult, Parsed.accepted.injEq, Option.some.injEq, PeerId.toList_inj]
  | cut heven hcut =>
    rw [readPairs_of_cutsCharacter hcut]
    exact iff_of_false nofun nofun
  | invalid e hread hcut => exact iff_of_false nofun (hread id)

/-- When `from_str` panics. -/
theorem fromStrParse_eq_panicked : fromStrParse s = .panicked ↔ CutsCharacter s := by
  have hread := idRead_fromStr s
  rw [fromStrParse]
  generalize PeerId.fromStr s = result at hread
  cases hread with
  | accepted hread =>
    refine iff_of_false nofun fun h => ?_
    cases hread.symm.trans (readPairs_of_cutsCharacter h.2)
  | cut heven hcut => exact iff_of_true rfl ⟨heven, hcut⟩
  | invalid e hread hcut =>
    refine iff_of_false nofun fun h => ?_
    cases (hcut h.1).symm.trans h.2

example : fromStrParse "a€" = .panicked := by decide +kernel

/-- What the commands accept. -/
theorem branchParse_eq_accepted {otherLength : Parsed} (h : ∀ id, otherLength ≠ .accepted id) :
    branchParse otherLength s = .accepted id ↔
      Text.readPairs digitPair (Text.bytes s) = some id.bytes.toList := by
  rw [branchParse, hexDecode_eq]
  cases Text.readPairs digitPair (Text.bytes s) with
  | none => exact iff_of_false nofun nofun
  | some bytes =>
    by_cases hlength : bytes.length = 32
    · simp only [hlength, ↓reduceDIte]
      rw [Parsed.accepted.injEq, Option.some.injEq, ← PeerId.toList_inj]
      rfl
    · simp only [hlength, ↓reduceDIte]
      refine iff_of_false (h id) fun hid => ?_
      cases hid
      exact hlength Vector.length_toList

/-- The command to connect never panics. -/
theorem connectParse_ne_panicked (s : String) : connectParse s ≠ .panicked := by
  rw [connectParse, branchParse]
  cases hexDecode s with
  | none => nofun
  | some bytes =>
    simp only
    split <;> nofun

/-- When the command to send a text panics. -/
theorem messageParse_eq_panicked : messageParse s = .panicked ↔ OtherLength s := by
  rw [messageParse, branchParse, hexDecode_eq, OtherLength, ← and_assoc,
    ← isSome_readPairs_digitPair]
  cases hread : Text.readPairs digitPair (Text.bytes s) with
  | none => exact iff_of_false nofun fun h => nomatch h.1
  | some bytes =>
    rw [Text.length_of_readPairs hread]
    by_cases hlength : bytes.length = 32
    · simp [hlength]
    · simp [hlength]
      omega

end

/-- Outcomes that agree on what is accepted and when it panics are the same. -/
theorem Parsed.eq_of {p q : Parsed} (haccepted : ∀ id, p = .accepted id ↔ q = .accepted id)
    (hpanicked : p = .panicked ↔ q = .panicked) : p = q := by
  cases q with
  | accepted id => exact (haccepted id).mpr rfl
  | panicked => exact hpanicked.mpr rfl
  | rejected =>
    cases p with
    | accepted id => cases (haccepted id).mp rfl
    | panicked => cases hpanicked.mp rfl
    | rejected => rfl

/-- Pairs with a sign are read as an identifier by `from_str`. -/
theorem Signed.exists_accepted {s : String} (h : Signed s) :
    ∃ id, fromStrParse s = .accepted id := by
  obtain ⟨hlength, hpairs, -⟩ := h
  rw [← isSome_readPairs_radixPair] at hpairs
  obtain ⟨id, hread⟩ := exists_readPairs_eq_iff.mpr ⟨hlength, hpairs⟩
  exact ⟨id, fromStrParse_eq_accepted.mpr hread⟩

/-- Without signs, both ways to read pairs agree. -/
theorem readPairs_of_not_signed {s : String} (h : ¬Signed s) (id : PeerId) :
    Text.readPairs radixPair (Text.bytes s) = some id.bytes.toList ↔
      Text.readPairs digitPair (Text.bytes s) = some id.bytes.toList := by
  rw [readPairs_digitPair_eq_some]
  refine (and_iff_left_of_imp fun hread hsign => ?_).symm
  obtain ⟨hlength, hsome⟩ := exists_readPairs_eq_iff.mp ⟨id, hread⟩
  rw [isSome_readPairs_radixPair] at hsome
  exact h ⟨hlength, hsome, hsign⟩

/-- Where the parsers agree, there is no sign. -/
theorem ParsersAgree.not_signed {s : String} (h : ParsersAgree s) : ¬Signed s := by
  intro hsigned
  obtain ⟨id, hread⟩ := isIdText_iff_readPairs.mp (h.right.accepts.mp hsigned.exists_accepted)
  exact (readPairs_digitPair_eq_some.mp hread).2 hsigned.2.2

/-- Where nothing is in the way, the parsers agree. -/
theorem parsersAgree_of_not {s : String} (hlength : ¬OtherLength s) (hcut : ¬CutsCharacter s)
    (hsigned : ¬Signed s) : ParsersAgree s := by
  have haccepted : ∀ id, fromStrParse s = .accepted id ↔
      Text.readPairs digitPair (Text.bytes s) = some id.bytes.toList := fun id =>
    fromStrParse_eq_accepted.trans (readPairs_of_not_signed hsigned id)
  have htotal : fromStrParse s ≠ .panicked := fun h => hcut (fromStrParse_eq_panicked.mp h)
  refine ⟨Parsed.eq_of ?_ ?_, Parsed.eq_of ?_ ?_, htotal, ?_, ?_⟩
  · intro id
    rw [haccepted id]
    exact branchParse_eq_accepted nofun
  · exact iff_of_false (connectParse_ne_panicked s) htotal
  · intro id
    rw [haccepted id]
    exact branchParse_eq_accepted nofun
  · exact iff_of_false (fun h => hlength (messageParse_eq_panicked.mp h)) htotal
  · rw [isIdText_iff_readPairs]
    exact exists_congr haccepted
  · intro id hid
    exact hexEncode_of_readPairs ((haccepted id).mp hid)

/-- The branches begin with the parsers, and the three parsers agree exactly on the texts that are
none of the three kinds. -/
theorem parsers_agree_iff {σ : Type} (S : Suite UInt8 σ) (F : Type) (s message : String) :
    ControlPlane.BeginsWith (ControlPlane.connectPeerId s : ControlM S F Unit)
      ControlPlane.connectTo (connectParse s) ∧
    ControlPlane.BeginsWith (ControlPlane.sendMessagePeerId s message : ControlM S F Unit)
      (ControlPlane.messageTo message) (messageParse s) ∧
    (ParsersAgree s ↔ ¬OtherLength s ∧ ¬CutsCharacter s ∧ ¬Signed s) := by
  refine ⟨?_, ?_, ?_⟩
  · rw [ControlPlane.connectPeerId_eq]
    exact ControlPlane.beginsWith_follow (fun _ hbuckets => ControlPlane.isOk_connectTo hbuckets) _
  · rw [ControlPlane.sendMessagePeerId_eq]
    exact ControlPlane.beginsWith_follow
      (fun _ hbuckets => ControlPlane.isOk_messageTo hbuckets message) _
  constructor
  · intro h
    refine ⟨fun hlength => ?_, fun hcut => ?_, h.not_signed⟩
    · exact h.right.total (h.message.symm.trans (messageParse_eq_panicked.mpr hlength))
    · exact h.right.total (fromStrParse_eq_panicked.mpr hcut)
  · rintro ⟨hlength, hcut, hsigned⟩
    exact parsersAgree_of_not hlength hcut hsigned

/-- A message to the identifier `00` ends the task; the other parsers reject it. -/
theorem parsers_differ_short :
    messageParse "00" = .panicked ∧ connectParse "00" = .rejected ∧
      fromStrParse "00" = .rejected ∧ ¬ParsersAgree "00" := by
  have hmessage : messageParse "00" = .panicked := by decide +kernel
  have hfromStr : fromStrParse "00" = .rejected := by decide +kernel
  refine ⟨hmessage, by decide +kernel, hfromStr, ?_⟩
  intro h
  cases hmessage.symm.trans (h.message.trans hfromStr)

end CekyP2P.Node
