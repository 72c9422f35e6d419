import CekyP2P.Node.Additions

/-!
# Who can read a message to a peer identifier

A message to an identifier goes to the session at the address that the routing table gives for
it. The table takes addresses from `Ping`, `Pong` and `FindNodeResp` frames as they come, and
a session says nothing about an identifier: the event loop never calls `verify_peer_binding`.
-/

namespace CekyP2P.Node

open Crypto Dht Protocol Transfer Transport

variable {σ : Type} {S : Suite UInt8 σ} {F : Type} {f64 : F64 F}

/-- One of the shown keys and signatures binds an X25519 key to an identifier. -/
def Proved (sha256 : List UInt8 → Vector UInt8 32) (verify : Ed25519Verify)
    (shown : List (Vector UInt8 32 × Vector UInt8 64)) (key : Vector UInt8 32) (id : PeerId) :
    Prop :=
  ∃ proof ∈ shown, verifyPeerBinding sha256 verify proof.1 key proof.2 = .ok id

instance (sha256 : List UInt8 → Vector UInt8 32) (verify : Ed25519Verify)
    (shown : List (Vector UInt8 32 × Vector UInt8 64)) (key : Vector UInt8 32) (id : PeerId) :
    Decidable (Proved sha256 verify shown key id) :=
  inferInstanceAs (Decidable (∃ proof ∈ shown, _))

namespace ControlPlane

/-! ## Messages to an identifier -/

section

variable (verify : Ed25519Verify) (shown : List (Vector UInt8 32 × Vector UInt8 64))

/-- Whoever holds the session at the address of a contact has proved to own its identifier. -/
def Owned (n : ControlPlane S F) : Prop :=
  ∀ c ∈ n.routingTable.contacts, ∀ key, n.remoteStatic c.2 = some key →
    Proved S.sha256 verify shown key c.1

/-- A contact is filed under the address of a session only if the peer of the session has proved
to own the identifier, and so is a session established at the address of a contact. -/
structure Vetted (n : ControlPlane S F) (input : Input) : Prop where
  filed : ∀ c ∈ n.filed input, ∀ session, n.session c.2 = some session →
    Proved S.sha256 verify shown session.remoteStatic c.1
  established : ∀ e ∈ n.established input, ∀ p ∈ n.routingTable.allPeers, p.addr = e.1 →
    Proved S.sha256 verify shown e.2 p.peerId

variable {verify shown} {n n' : ControlPlane S F}

/-- A vetted step keeps the table owned. -/
theorem Owned.step (howned : n.Owned verify shown) {env : Env σ} {input : Input}
    (hvetted : n.Vetted verify shown input) :
    (Exec.stateAfter (step f64 env input n)).Owned verify shown := by
  intro c hc key hkey
  have hwithin : Within (n.filed input) (n.established input) n
    (Exec.stateAfter (ControlPlane.step f64 env input n)) := within_step env input
  rcases hwithin.contacts c hc with hc | hc
  · rcases hwithin.keys c.2 key hkey with hkey | hkey
    · exact howned c hc key hkey
    · obtain ⟨p, hp, rfl⟩ := List.mem_map.mp hc
      exact hvetted.established _ hkey p hp rfl
  · rcases hwithin.keys c.2 key hkey with hkey | hkey
    · obtain ⟨session, hsession, rfl⟩ := Option.map_eq_some_iff.mp hkey
      exact hvetted.filed c hc session hsession
    · rcases filed_eq_nil_or n input with hnil | hnil
      · rw [hnil] at hc
        cases hc
      · rw [hnil] at hkey
        cases hkey

/-- Along vetted runs the table is owned. -/
theorem owned_of_reachable {identity : Identity S} {peerId : PeerId} {tcpAddr : SocketAddr}
    {now : Nat}
    (h : Reachable f64 (Vetted verify shown) (start identity peerId tcpAddr now) n) :
    n.Owned verify shown := by
  induction h with
  | start =>
    intro c hc
    rw [start, RoutingTable.contacts_new] at hc
    cases hc
  | @step n n' env input _ hvetted hstep howned =>
    have hafter : (Exec.stateAfter (ControlPlane.step f64 env input n)).Owned verify shown :=
      howned.step hvetted
    rw [hstep] at hafter
    exact hafter

/-- Between the two states the message was encrypted under the session with an address and
sent there. -/
def Delivers (n n' : ControlPlane S F) (message : String) (addr : SocketAddr)
    (session : SecureSession) : Prop :=
  n.session addr = some session ∧ ∃ encNonce ciphertext,
    (session.encrypt S.aead (utf8Bytes message)).1 = .ok (encNonce, ciphertext) ∧
    n'.outbox = n.outbox ++
      [.sendTo addr (.new .data Flags.empty.withEncrypted encNonce ciphertext)]

/-- A text is delivered over a session, or nothing is sent. -/
theorem sendEncrypted_data {addr : SocketAddr} {message : String}
    (h : sendEncrypted addr .data (utf8Bytes message) n = .ok () n') :
    n'.outbox = n.outbox ∨ ∃ session, Delivers n n' message addr session := by
  rw [sendEncrypted, Exec.get_bind_apply] at h
  cases hsession : n.session addr with
  | none =>
    rw [hsession] at h
    cases h
    exact .inl rfl
  | some session =>
    rw [hsession] at h
    cases hresult : (session.encrypt S.aead (utf8Bytes message)).1 with
    | error e =>
      simp only [hresult] at h
      cases h
      exact .inl rfl
    | ok sent =>
      simp only [hresult] at h
      cases h
      exact .inr ⟨session, hsession, sent.1, sent.2, hresult, rfl⟩

/-- What is found was filed. -/
theorem routingGet_eq_ok {peerId : PeerId} {found : Option (PeerInfo F)}
    (h : routingGet peerId n = .ok found n') :
    n' = n ∧ ∀ p, found = some p → (peerId, p.addr) ∈ n.routingTable.contacts := by
  rw [routingGet, Exec.get_bind_apply, Exec.bind_apply, Exec.call] at h
  cases hget : RoutingTable.get peerId n.routingTable with
  | ok found' table =>
    rw [hget] at h
    cases h
    refine ⟨rfl, ?_⟩
    rintro p rfl
    exact RoutingTable.mem_contacts_of_get hget
  | error e table =>
    rw [hget] at h
    cases e with
    | error e =>
      cases h
      refine ⟨rfl, ?_⟩
      rintro p ⟨⟩
    | panicked => cases h
    | blocked => cases h

/-- A message to an identifier goes to the session at an address filed for it. -/
theorem sendMessagePeerId_cases {env : Env σ} {target message : String}
    (h : step f64 env (.command (.sendMessagePeerId target message)) n = .ok () n') :
    n'.outbox = n.outbox ∨ ∃ (id : PeerId) (addr : SocketAddr) (session : SecureSession),
      hexDecode target = some id.bytes.toList ∧ (id, addr) ∈ n.routingTable.contacts ∧
        Delivers n n' message addr session := by
  rw [step, handleCommand, sendMessagePeerId] at h
  cases htarget : hexDecode target with
  | none =>
    rw [htarget] at h
    cases h
    exact .inl rfl
  | some bytes =>
    rw [htarget] at h
    obtain ⟨idBytes, n₁, hcopy, h⟩ := Exec.bind_eq_ok.mp h
    obtain ⟨rfl, rfl⟩ := Exec.copyFromSlice_eq_ok.mp hcopy
    obtain ⟨found, n₂, hget, h⟩ := Exec.bind_eq_ok.mp h
    obtain ⟨rfl, hfound⟩ := routingGet_eq_ok hget
    cases found with
    | none =>
      cases h
      exact .inl rfl
    | some peerInfo =>
      rcases sendEncrypted_data h with hsame | ⟨session, hdelivers⟩
      · exact .inl hsame
      · exact .inr ⟨⟨idBytes⟩, peerInfo.addr, session, rfl, hfound peerInfo rfl, hdelivers⟩

variable (verify shown) in
/-- A command to send a message to an identifier sent nothing, or sent the message under the session
of a peer that has proved to own the identifier. -/
def SentToOwner (target message : String) (n n' : ControlPlane S F) : Prop :=
  n'.outbox = n.outbox ∨ ∃ (id : PeerId) (addr : SocketAddr) (session : SecureSession),
    hexDecode target = some id.bytes.toList ∧ Delivers n n' message addr session ∧
      Proved S.sha256 verify shown session.remoteStatic id

/-- In a run whose inputs are all vetted, messages to identifiers reach only their owners. -/
theorem sentToOwner_of_vetted {identity : Identity S} {peerId : PeerId} {tcpAddr : SocketAddr}
    {now : Nat} (hreach : Reachable f64 (Vetted verify shown) (start identity peerId tcpAddr now) n)
    {env : Env σ} {target message : String}
    (hstep : step f64 env (.command (.sendMessagePeerId target message)) n = .ok () n') :
    SentToOwner verify shown target message n n' := by
  rcases sendMessagePeerId_cases hstep with
    hsame | ⟨id, addr, session, htarget, hcontact, hdelivers⟩
  · exact .inl hsame
  · refine .inr ⟨id, addr, session, htarget, hdelivers, ?_⟩
    refine owned_of_reachable hreach (id, addr) hcontact _ ?_
    rw [remoteStatic, hdelivers.1]
    rfl

end

/-! ## Two runs with a caller

A caller connects, completes the handshake with its key, and answers a lookup that was never made
with an identifier and its own address. -/

/-- Arithmetic for runs in which no score is compared. -/
def wholeF64 : F64 Nat where
  ofNat n := n
  add := (· + ·)
  sub := (· - ·)
  mul := (· * ·)
  div := (· / ·)
  min := min
  max := max
  log2 := Nat.log2
  lt a b := a < b
  greatest := 2 ^ 64

/-- A signature scheme for evaluation: the signature names the key and the message. -/
def namingVerify : Ed25519Verify := fun publicKey message signature =>
  signature.toList = publicKey.toList ++ message

/-- A node that waits for others. -/
def listener : ControlPlane xorSuite Nat :=
  start (xorIdentity (Vector.replicate 32 2)) ⟨Vector.replicate 32 0⟩
    ⟨.v4 (Ipv4Addr.new 10 0 0 2), 7000⟩ 0

/-- An environment in which every dial succeeds. -/
def quietEnv : Env (Vector UInt8 32) := ⟨true, true, Vector.replicate 32 4, 0⟩

/-- The address of the caller. -/
def callerAddr : SocketAddr := ⟨.v4 (Ipv4Addr.new 10 0 0 1), 7000⟩

/-- The static key of the caller. -/
def callerKey : Vector UInt8 32 := Vector.replicate 32 1

/-- The key under which the caller signs. -/
def callerPk : Vector UInt8 32 := Vector.replicate 32 5

/-- The identifier of the caller. -/
def callerId : PeerId := ⟨Vector.replicate 32 7⟩

/-- The identifier of the caller, as it is typed. -/
def callerHex : String := "0707070707070707070707070707070707070707070707070707070707070707"

/-- The caller's proof that it owns its identifier. -/
def callerProof : Vector UInt8 32 × Vector UInt8 64 := (callerPk, callerPk ++ callerKey)

/-- The static key of another peer. -/
def otherKey : Vector UInt8 32 := Vector.replicate 32 9

/-- The key under which another peer signs. -/
def otherPk : Vector UInt8 32 := (Vector.replicate 31 5).push 6

/-- The identifier of somebody else. -/
def otherId : PeerId := ⟨Vector.replicate 32 8⟩

/-- The identifier of another peer, as it is typed. -/
def otherHex : String := "0808080808080808080808080808080808080808080808080808080808080808"

/-- The proof that another peer shows. -/
def otherProof : Vector UInt8 32 × Vector UInt8 64 := (otherPk, otherPk ++ otherKey)

/-- The inputs from a caller that claims `id` for its address. -/
def callerInputs (id : PeerId) : List Input :=
  [.event (.connected callerAddr),
    .event (.frameReceived callerAddr (.new .handshake Flags.empty 0 (List.replicate 32 3))),
    .event (.frameReceived callerAddr
      (.new .handshake Flags.empty 0 (callerKey.toList ++ List.replicate tagSize 0))),
    .event (.frameReceived callerAddr (.new .findNodeResp Flags.empty.withEncrypted 0
      (FindNodeResp.encode ⟨[(id.bytes, callerAddr)]⟩ ++ List.replicate tagSize 0)))]

/-- The listener after these inputs. -/
def called (id : PeerId) : ControlPlane xorSuite Nat :=
  (callerInputs id).foldl (fun n input => Exec.stateAfter (step wholeF64 quietEnv input n)) listener

/-- And after a message to the claimed identifier. -/
def messaged (id : PeerId) (targetHex : String) : ControlPlane xorSuite Nat :=
  Exec.stateAfter
    (step wholeF64 quietEnv (.command (.sendMessagePeerId targetHex "hello")) (called id))

/-- A text is delivered to one address. -/
theorem Delivers.unique {n n' : ControlPlane S F} {message : String} {addr addr' : SocketAddr}
    {session session' : SecureSession} (h : Delivers n n' message addr session)
    (h' : Delivers n n' message addr' session') : addr = addr' ∧ session = session' := by
  obtain ⟨hsession, _, _, -, hsent⟩ := h
  obtain ⟨hsession', _, _, -, hsent'⟩ := h'
  rw [hsent, List.append_cancel_left_eq, List.singleton_inj, Output.sendTo.injEq] at hsent'
  obtain ⟨rfl, -⟩ := hsent'
  rw [hsession] at hsession'
  exact ⟨rfl, Option.some.inj hsession'⟩

/-- A message to somebody else, who has proved to own the identifier, is encrypted to the
caller. -/
theorem message_misdirected_to_caller :
    Reachable wholeF64 (fun _ _ => True) listener (called otherId) ∧
    step wholeF64 quietEnv (.command (.sendMessagePeerId otherHex "hello")) (called otherId) =
      .ok () (messaged otherId otherHex) ∧
    hexDecode otherHex = some otherId.bytes.toList ∧
    Proved xorSuite.sha256 namingVerify [otherProof] otherKey otherId ∧
    (∃ session, Delivers (called otherId) (messaged otherId otherHex) "hello" callerAddr session ∧
      session.remoteStatic = callerKey) ∧
    ¬SentToOwner namingVerify [otherProof] otherHex "hello" (called otherId)
      (messaged otherId otherHex) := by
  have hreach : Reachable wholeF64 (fun _ _ => True) listener (called otherId) := by
    refine Reachable.start.foldl quietEnv ?_
    exact ⟨⟨trivial, by decide +kernel⟩, ⟨trivial, by decide +kernel⟩,
      ⟨trivial, by decide +kernel⟩, ⟨trivial, by decide +kernel⟩, trivial⟩
  have hstep : step wholeF64 quietEnv (.command (.sendMessagePeerId otherHex "hello"))
      (called otherId) = .ok () (messaged otherId otherHex) :=
    Exec.eq_ok_of_isOk (by decide +kernel)
  have hhex : hexDecode otherHex = some otherId.bytes.toList := by decide +kernel
  have hkey : (called otherId).remoteStatic callerAddr = some callerKey := by decide +kernel
  have hcontacts : (called otherId).routingTable.contacts = [(otherId, callerAddr)] := by
    decide +kernel
  have hsent : (messaged otherId otherHex).outbox ≠ (called otherId).outbox := by decide +kernel
  have hnone : ¬Proved xorSuite.sha256 namingVerify [otherProof] callerKey otherId := by
    decide +kernel
  obtain ⟨id, addr, session, -, hcontact, hdelivers⟩ :=
    (sendMessagePeerId_cases hstep).resolve_left hsent
  rw [hcontacts, List.mem_singleton] at hcontact
  cases hcontact
  have hstatic : session.remoteStatic = callerKey := by
    rw [remoteStatic, hdelivers.1] at hkey
    exact Option.some.inj hkey
  refine ⟨hreach, hstep, hhex, by decide +kernel, ⟨session, hdelivers, hstatic⟩, ?_⟩
  rintro (hsame | ⟨id, addr, session', htarget, hdelivers', hproved⟩)
  · exact hsent hsame
  · obtain ⟨rfl, rfl⟩ := hdelivers.unique hdelivers'
    have hid : otherId = id := congrArg PeerId.mk
      (Vector.toList_inj.mp (Option.some.inj (hhex.symm.trans htarget)))
    rw [hstatic] at hproved
    exact hnone (hid ▸ hproved)

/-- Nothing is filed, and nothing was before. -/
theorem vetted_of_filed_nil {verify : Ed25519Verify}
    {shown : List (Vector UInt8 32 × Vector UInt8 64)} {n : ControlPlane S F} {input : Input}
    (hfiled : n.filed input = []) (hcontacts : n.routingTable.contacts = []) :
    n.Vetted verify shown input where
  filed := by
    rw [hfiled]
    exact nofun
  established := by
    intro e _ p hp
    rw [List.map_eq_nil_iff.mp hcontacts] at hp
    cases hp

/-- One contact is filed, and the peer of the session at its address has proved to own it. -/
theorem vetted_of_filed_singleton {verify : Ed25519Verify}
    {shown : List (Vector UInt8 32 × Vector UInt8 64)} {n : ControlPlane S F} {input : Input}
    {c : PeerId × SocketAddr} {k : Vector UInt8 32} (hfiled : n.filed input = [c])
    (hestablished : n.established input = []) (hkey : n.remoteStatic c.2 = some k)
    (hproved : Proved S.sha256 verify shown k c.1) : n.Vetted verify shown input where
  filed := by
    intro c' hc' session hsession
    rw [hfiled, List.mem_singleton] at hc'
    subst hc'
    rw [remoteStatic, hsession] at hkey
    cases hkey
    exact hproved
  established := by
    rw [hestablished]
    exact List.forall_mem_nil _

/-- The caller's own identifier is vetted, and a message to it reaches the caller. -/
theorem message_reaches_caller :
    Reachable wholeF64 (Vetted namingVerify [callerProof]) listener (called callerId) ∧
    (messaged callerId callerHex).outbox ≠ (called callerId).outbox ∧
    SentToOwner namingVerify [callerProof] callerHex "hello" (called callerId)
      (messaged callerId callerHex) := by
  have hreach : Reachable wholeF64 (Vetted namingVerify [callerProof]) listener
      (called callerId) := by
    refine Reachable.start.foldl quietEnv ?_
    refine ⟨⟨?_, by decide +kernel⟩, ⟨?_, by decide +kernel⟩, ⟨?_, by decide +kernel⟩,
      ⟨?_, by decide +kernel⟩, trivial⟩
    · exact vetted_of_filed_nil (by decide +kernel) (by decide +kernel)
    · exact vetted_of_filed_nil (by decide +kernel) (by decide +kernel)
    · exact vetted_of_filed_nil (by decide +kernel) (by decide +kernel)
    · exact vetted_of_filed_singleton (c := (callerId, callerAddr)) (k := callerKey)
        (by decide +kernel) (by decide +kernel) (by decide +kernel) (by decide +kernel)
  refine ⟨hreach, by decide +kernel, sentToOwner_of_vetted hreach (Exec.eq_ok_of_isOk ?_)⟩
  decide +kernel

end ControlPlane

end CekyP2P.Node
