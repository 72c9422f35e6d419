import CekyP2P.Node.Changes
import CekyP2P.Node.TypeBinding

/-!
# Sessions over whole runs

What other peers do, and what is asked of other peers, neither changes the state of a peer nor
sends anything to it. As long as nothing ends a session, it keeps its keys, and whatever goes to
its peer is encrypted under its key with a nonce that was not used before: no message of a
handshake and nothing in the open. The loop dials on its own account at most once for each command
that looked for somebody.
-/

namespace CekyP2P.Node

open Crypto Dht Protocol Transfer Transport

variable {σ : Type} {S : Suite UInt8 σ} {F : Type} {f64 : F64 F}

/-- The frame that an output sends to an address. -/
def Output.frameTo (addr : SocketAddr) : Output → Option Frame
  | .sendTo a frame => if a = addr then some frame else none
  | _ => none

/-- The frames that outputs send to an address. -/
def sentTo (addr : SocketAddr) (outputs : List Output) : List Frame :=
  outputs.filterMap (Output.frameTo addr)

/-- A command of the loop to itself. -/
def Output.isCommand : Output → Bool
  | .command _ => true
  | _ => false

namespace ControlPlane

variable {addr : SocketAddr} {scope : List SocketAddr} {input : Input} {heard : Option Dispatch}
  {completed : List (SocketAddr × Vector UInt8 32)} {calls : List SealCall}
  {n n' : ControlPlane S F}

/-- A node keeps its keys, its identifier and its address. -/
structure SameNode (n n' : ControlPlane S F) : Prop where
  identity_eq : n'.identity = n.identity
  peerId_eq : n'.peerId = n.peerId
  tcpAddr_eq : n'.tcpAddr = n.tcpAddr

/-- A node that stays the same twice is the same. -/
theorem SameNode.trans {m : ControlPlane S F} (h : SameNode n m) (h' : SameNode m n') :
    SameNode n n' :=
  ⟨h'.identity_eq.trans h.identity_eq, h'.peerId_eq.trans h.peerId_eq,
    h'.tcpAddr_eq.trans h.tcpAddr_eq⟩

/-- No change is one of the node's identity or address. -/
theorem Change.sameNode (h : Change f64 scope input heard completed calls n n') :
    SameNode n n' := by
  cases h <;> exact ⟨rfl, rfl, rfl⟩

/-- No step changes the node's identity or address. -/
theorem sameNode_step (f64 : F64 F) (env : Env σ) (input : Input) (n : ControlPlane S F) :
    SameNode n (Exec.stateAfter (step f64 env input n)) := by
  obtain ⟨_, -, hchanges⟩ : Changes f64 _ input _ _ _ n _ := changes_step env input
  exact hchanges.lift (Q := fun _ => SameNode) (fun _ => ⟨rfl, rfl, rfl⟩)
    (fun h h' => h.trans h') fun h => h.sameNode

/-- No run changes the node's identity or address. -/
theorem sameNode_of_reachable {P : ControlPlane S F → Input → Prop} {first : ControlPlane S F}
    (h : Reachable f64 P first n) : SameNode first n := by
  induction h with
  | start => exact ⟨rfl, rfl, rfl⟩
  | @step n n' env input _ _ hstep ih =>
    have hnext := sameNode_step f64 env input n
    rw [hstep] at hnext
    exact ih.trans hnext

/-! ## The outputs of an iteration -/

/-- What an input can make the loop put out. -/
inductive Emitted (S : Suite UInt8 σ) (F : Type) (input : Input) (heard : Option Dispatch) :
    Output → Prop
  | report (output : Output) (h : output.Report input) : Emitted S F input heard output
  | command (command : ApiCommand) : Emitted S F input heard (.command command)
  | greeting (addr : SocketAddr) (message : List UInt8) :
      Emitted S F input heard (hello addr message)
  | announcement (addr : SocketAddr) (nonce : UInt64) (ciphertext : List UInt8) :
      Emitted S F input heard (.sendTo addr (.new .ping Flags.empty.withEncrypted nonce ciphertext))
  | encrypted (addr : SocketAddr) (msgType : MessageType) (nonce : UInt64)
      (ciphertext data : List UInt8) (n : ControlPlane S F)
      (h : Origin n input heard msgType data) : Emitted S F input heard
        (.sendTo addr (.new msgType Flags.empty.withEncrypted nonce ciphertext))

/-- Each change sends what its input calls for. -/
theorem Change.emits (h : Change f64 scope input heard completed calls n n') :
    Appends (Emitted S F input heard) n n' := by
  have hsent : ∀ {a : SocketAddr} {msgType result},
      (∀ nonce ciphertext, Emitted S F input heard
        (.sendTo a (.new msgType Flags.empty.withEncrypted nonce ciphertext))) →
      ∀ output ∈ sentBy a msgType result, Emitted S F input heard output := by
    intro a msgType result hall output hmem
    cases result with
    | ok sent =>
      rw [List.mem_singleton.mp hmem]
      exact hall _ _
    | error e => cases hmem
  cases h with
  | report output hreport =>
    exact ⟨[output], rfl, List.forall_mem_singleton.mpr (.report output hreport)⟩
  | greet a message => exact ⟨[_], rfl, List.forall_mem_singleton.mpr (.greeting a message)⟩
  | redirect | dial => exact ⟨[.command _], rfl, List.forall_mem_singleton.mpr (.command _)⟩
  | seek | file | await | remove | putBack | decrypt => exact appends_of_eq rfl
  | encrypt a msgType data session horigin =>
    exact ⟨_, rfl, hsent fun nonce ciphertext => .encrypted a msgType nonce ciphertext _ _ horigin⟩
  | establish a keys =>
    exact ⟨_, rfl, hsent fun nonce ciphertext => .announcement a nonce ciphertext⟩

/-- Each step sends what its input calls for. -/
theorem emits_step (f64 : F64 F) (env : Env σ) (input : Input) (n : ControlPlane S F) :
    Appends (Emitted S F input (n.dispatched input)) n
      (Exec.stateAfter (step f64 env input n)) := by
  obtain ⟨_, -, hchanges⟩ : Changes f64 _ input _ _ _ n _ := changes_step env input
  exact hchanges.lift (Q := fun _ => Appends (Emitted S F input (n.dispatched input)))
    (fun _ => appends_of_eq rfl) (fun h h' => h.trans h') fun h => h.emits

/-- Where the outputs of an iteration are known, they are what its input can make of it. -/
theorem emitted_of_step {env : Env σ} {outputs : List Output}
    (houtbox : (Exec.stateAfter (step f64 env input n)).outbox = n.outbox ++ outputs) :
    ∀ output ∈ outputs, Emitted S F input (n.dispatched input) output := by
  obtain ⟨outputs', houtbox', hemitted⟩ := emits_step f64 env input n
  obtain rfl := List.append_cancel_left (houtbox.symm.trans houtbox')
  exact hemitted

/-- What an iteration sends to a peer is of a handshake, or announces our identifier, or is what
the input gives it to say. -/
theorem origin_of_sent {env : Env σ} {outputs : List Output}
    (houtbox : (Exec.stateAfter (step f64 env input n)).outbox = n.outbox ++ outputs) {f : Frame}
    (hf : f ∈ sentTo addr outputs) :
    f.header.msgType = .handshake ∨ f.header.msgType = .ping ∨
      ∃ (m : ControlPlane S F) (data : List UInt8),
        Origin m input (n.dispatched input) f.header.msgType data := by
  obtain ⟨output, hmem, hframe⟩ := List.mem_filterMap.mp hf
  cases emitted_of_step houtbox output hmem with
  | report _ hreport =>
    cases output with
    | sendTo a frame => cases hreport
    | _ => cases hframe
  | command => cases hframe
  | greeting =>
    obtain ⟨-, ⟨⟩⟩ := Option.ite_none_right_eq_some.mp hframe
    exact .inl rfl
  | announcement =>
    obtain ⟨-, ⟨⟩⟩ := Option.ite_none_right_eq_some.mp hframe
    exact .inr (.inl rfl)
  | encrypted a msgType nonce ciphertext data m horigin =>
    obtain ⟨-, ⟨⟩⟩ := Option.ite_none_right_eq_some.mp hframe
    exact .inr (.inr ⟨m, data, horigin⟩)

/-! ## Peers that an input is not about -/

/-- The state of a peer is as it was, and nothing was said to it or of it. -/
structure Untouched (addr : SocketAddr) (n n' : ControlPlane S F) : Prop where
  state_eq : n'.peerStates.lookup addr = n.peerStates.lookup addr
  outbox : Appends (fun output => addr ∉ output.about) n n'

/-- Nothing has happened. -/
theorem Untouched.refl (addr : SocketAddr) (n : ControlPlane S F) : Untouched addr n n :=
  ⟨rfl, appends_of_eq rfl⟩

/-- Untouched twice is untouched. -/
theorem Untouched.trans {m : ControlPlane S F} (h : Untouched addr n m)
    (h' : Untouched addr m n') : Untouched addr n n' :=
  ⟨h'.state_eq.trans h.state_eq, h.outbox.trans h'.outbox⟩

/-- Storing the state of one peer leaves that of another. -/
theorem lookup_insert_of_ne {a : SocketAddr} (hne : addr ≠ a)
    (m : AList fun _ : SocketAddr => PeerState S) (state : PeerState S) :
    (m.insert a state).lookup addr = m.lookup addr := by
  rw [FiniteMap.lookup_insert, if_neg hne]

/-- The state of a peer changes only where it is met, or where its session is used. -/
theorem Change.lookup_eq (h : Change f64 scope input heard completed calls n n')
    (hmeets : addr ∉ input.meets) (hquiet : addr ∈ scope → n.session addr = none) :
    n'.peerStates.lookup addr = n.peerStates.lookup addr := by
  have hunmet : ∀ {a : SocketAddr}, a ∈ input.meets → addr ≠ a := by
    rintro a ha rfl
    exact hmeets ha
  cases h with
  | report | greet | redirect | dial | seek | file => rfl
  | await a state ha => exact lookup_insert_of_ne (hunmet ha) _ _
  | remove a ha => rw [FiniteMap.lookup_erase, if_neg (hunmet ha)]
  | putBack a state hlookup =>
    rw [FiniteMap.lookup_insert, FiniteMap.lookup_erase]
    split
    case isTrue heq => rw [heq, hlookup]
    case isFalse => rfl
  | encrypt a msgType data session _ hscope hsession =>
    refine lookup_insert_of_ne ?_ _ _
    rintro rfl
    cases (hquiet hscope).symm.trans hsession
  | decrypt a frame session hinput =>
    have ha : a ∈ input.meets := by
      rw [hinput]
      exact List.mem_singleton_self a
    exact lookup_insert_of_ne (hunmet ha) _ _
  | establish a keys ha => exact lookup_insert_of_ne (hunmet ha) _ _

variable (S) in
/-- What a session sends between two moments, where `encrypt` was called `count` times. -/
structure Carried (s : SecureSession) (count : Nat) (frames : List Frame) (s' : SecureSession) :
    Prop where
  sendKey_eq : s'.sendKey = s.sendKey
  recvKey_eq : s'.recvKey = s.recvKey
  remoteStatic_eq : s'.remoteStatic = s.remoteStatic
  sendNonce_eq : s'.sendNonce.toNat = s.sendNonce.toNat + count
  length_le : frames.length ≤ count
  encrypted : ∀ f ∈ frames, f.header.flags.isEncrypted = true ∧
    ∃ data, Encrypts S (s.sendKey, f) data
  nonces : ∀ f ∈ frames, s.sendNonce ≤ f.header.requestId ∧ f.header.requestId < s'.sendNonce
  increasing : frames.Pairwise fun f g => f.header.requestId < g.header.requestId

section

variable {s s' s'' : SecureSession} {count count' : Nat} {frames frames' : List Frame}

/-- A session that has carried nothing. -/
theorem Carried.refl (s : SecureSession) : Carried S s 0 [] s :=
  ⟨rfl, rfl, rfl, rfl, Nat.le_refl _, List.forall_mem_nil _, List.forall_mem_nil _, .nil⟩

/-- What a session carries adds up. -/
theorem Carried.trans (h : Carried S s count frames s') (h' : Carried S s' count' frames' s'') :
    Carried S s (count + count') (frames ++ frames') s'' where
  sendKey_eq := h'.sendKey_eq.trans h.sendKey_eq
  recvKey_eq := h'.recvKey_eq.trans h.recvKey_eq
  remoteStatic_eq := h'.remoteStatic_eq.trans h.remoteStatic_eq
  sendNonce_eq := by
    rw [h'.sendNonce_eq, h.sendNonce_eq, Nat.add_assoc]
  length_le := by
    rw [List.length_append]
    exact Nat.add_le_add h.length_le h'.length_le
  encrypted := by
    intro f hf
    rcases List.mem_append.mp hf with hf | hf
    · exact h.encrypted f hf
    · rw [← h.sendKey_eq]
      exact h'.encrypted f hf
  nonces := by
    have hle : s.sendNonce ≤ s'.sendNonce := by
      rw [UInt64.le_iff_toNat_le, h.sendNonce_eq]
      exact Nat.le_add_right _ _
    have hle' : s'.sendNonce ≤ s''.sendNonce := by
      rw [UInt64.le_iff_toNat_le, h'.sendNonce_eq]
      exact Nat.le_add_right _ _
    intro f hf
    rcases List.mem_append.mp hf with hf | hf
    · exact ⟨(h.nonces f hf).1, UInt64.lt_of_lt_of_le (h.nonces f hf).2 hle'⟩
    · exact ⟨UInt64.le_trans hle (h'.nonces f hf).1, (h'.nonces f hf).2⟩
  increasing := by
    rw [List.pairwise_append]
    refine ⟨h.increasing, h'.increasing, fun f hf g hg => ?_⟩
    exact UInt64.lt_of_lt_of_le (h.nonces f hf).2 (h'.nonces g hg).1

/-- A call of `encrypt` before the counter wraps. -/
theorem carried_encrypt (msgType : MessageType) (data : List UInt8)
    (hwrap : s.sendNonce.toNat + 1 < 2 ^ 64) :
    Carried S s 1 (sentTo addr (sentBy addr msgType (s.encrypt S.aead data).1))
      (s.encrypt S.aead data).2 := by
  have hafter : (s.encrypt S.aead data).2 = { s with sendNonce := s.sendNonce + 1 } :=
    SecureSession.sealFrame_snd s data []
  have hnonce : (s.sendNonce + 1).toNat = s.sendNonce.toNat + 1 := by
    rw [UInt64.toNat_add]
    exact Nat.mod_eq_of_lt hwrap
  rw [hafter]
  cases hresult : (s.encrypt S.aead data).1 with
  | error e =>
    exact ⟨rfl, rfl, rfl, hnonce, Nat.zero_le _, List.forall_mem_nil _, List.forall_mem_nil _, .nil⟩
  | ok sent =>
    obtain ⟨hsent, -, hsealed⟩ := SecureSession.sealFrame_eq_ok.mp hresult
    have hframes : sentTo addr (sentBy addr msgType (.ok sent)) =
        [.new msgType Flags.empty.withEncrypted sent.1 sent.2] := by
      simp [sentTo, sentBy, Output.frameTo]
    rw [hframes]
    refine ⟨rfl, rfl, rfl, hnonce, Nat.le_refl _, List.forall_mem_singleton.mpr ⟨?_, data, hsealed⟩,
      List.forall_mem_singleton.mpr ⟨?_, ?_⟩, List.pairwise_singleton _ _⟩
    · change Flags.empty.withEncrypted.isEncrypted = true
      decide
    · change s.sendNonce ≤ sent.1
      rw [hsent]
      exact UInt64.le_refl _
    · change sent.1 < s.sendNonce + 1
      rw [hsent, UInt64.lt_iff_toNat_lt, hnonce]
      exact Nat.lt_succ_self _

/-- A call of `decrypt` does not touch what is sent. -/
theorem carried_decrypt (requestId : UInt64) (payload : List UInt8) :
    Carried S s 0 [] (s.decrypt S.aead requestId payload).2 := by
  have hkept : (s.decrypt S.aead requestId payload).2.recvKey = s.recvKey ∧
      (s.decrypt S.aead requestId payload).2.sendNonce = s.sendNonce := by
    simp only [SecureSession.decrypt, SecureSession.openFrame]
    split
    · exact ⟨rfl, rfl⟩
    · split <;> exact ⟨rfl, rfl⟩
  exact ⟨s.sendKey_decrypt requestId payload, hkept.1, s.remoteStatic_decrypt requestId payload,
    congrArg UInt64.toNat hkept.2, Nat.le_refl _, List.forall_mem_nil _, List.forall_mem_nil _,
    .nil⟩

end

/-- The calls of `encrypt` for an address. -/
def callsFor (addr : SocketAddr) (calls : List SealCall) : Nat :=
  (calls.map SealCall.addr).count addr

/-- One call. -/
theorem callsFor_singleton (call : SealCall) :
    callsFor addr [call] = if call.addr = addr then 1 else 0 := by
  simp [callsFor, List.count_singleton]

/-- What is sent to one peer is not sent to another. -/
theorem sentTo_sentBy_of_ne {a : SocketAddr} (hne : a ≠ addr) (msgType : MessageType)
    (result : Except CryptoError (UInt64 × List UInt8)) :
    sentTo addr (sentBy a msgType result) = [] := by
  cases result with
  | ok sent => simp [sentTo, sentBy, Output.frameTo, hne]
  | error e => rfl

/-- What a change does with a session that it does not end. -/
inductive Use (addr : SocketAddr) (input : Input) (heard : Option Dispatch)
    (n n' : ControlPlane S F) (s : SecureSession) : List SealCall → Prop
  | idle {calls : List SealCall} (outputs : List Output) (hcalls : callsFor addr calls = 0)
      (hsession : n'.session addr = some s) (houtbox : n'.outbox = n.outbox ++ outputs)
      (hsent : sentTo addr outputs = []) : Use addr input heard n n' s calls
  | encrypt (msgType : MessageType) (data : List UInt8)
      (horigin : Origin n input heard msgType data)
      (hsession : n'.session addr = some (s.encrypt S.aead data).2)
      (houtbox : n'.outbox = n.outbox ++ sentBy addr msgType (s.encrypt S.aead data).1) :
      Use addr input heard n n' s [⟨addr, s, msgType, data⟩]
  | decrypt (frame : Frame) (hinput : input = .event (.frameReceived addr frame))
      (hsession : n'.session addr =
        some (s.decrypt S.aead frame.header.requestId frame.payload).2)
      (houtbox : n'.outbox = n.outbox) : Use addr input heard n n' s []

/-- Each change uses a session for its peer only. -/
theorem Change.use (h : Change f64 scope input heard completed calls n n')
    (hended : addr ∉ input.ended) {s : SecureSession} (hs : n.session addr = some s) :
    Use addr input heard n n' s calls := by
  have hquiet : ∀ outputs : List Output, n'.session addr = n.session addr →
      n'.outbox = n.outbox ++ outputs → sentTo addr outputs = [] → Use addr input heard n n' s [] :=
    fun outputs hsession houtbox hsent => .idle outputs rfl (hsession.trans hs) houtbox hsent
  have hopen : ∀ {a : SocketAddr}, a ∈ input.ended ∨ n.session a = none → addr ≠ a := by
    rintro _ (ha | hnone) rfl
    · exact hended ha
    · cases hnone.symm.trans hs
  have hlookup : ∀ {a : SocketAddr}, n.peerStates.lookup a = none → n.session a = none := by
    intro a hnone
    rw [session, hnone]
    rfl
  have hother : ∀ {a : SocketAddr} {state : PeerState S}
      {peerStates : AList fun _ : SocketAddr => PeerState S}, addr ≠ a →
      peerStates = n.peerStates.insert a state → n'.peerStates = peerStates →
      n'.session addr = n.session addr := by
    rintro a state _ hne rfl hstates
    rw [session, session, hstates, lookup_insert_of_ne hne]
  cases h with
  | report output hreport =>
    refine hquiet [output] rfl rfl ?_
    cases output with
    | sendTo a frame => cases hreport
    | _ => rfl
  | greet a message _ h =>
    refine hquiet [hello a message] rfl rfl ?_
    simp [sentTo, hello, Output.frameTo, (hopen h).symm]
  | redirect | dial => exact hquiet [.command _] rfl rfl rfl
  | seek | file => exact hquiet [] rfl (List.append_nil _).symm rfl
  | await a state _ _ h =>
    exact hquiet [] (hother (hopen (h.imp id hlookup)) rfl rfl) (List.append_nil _).symm rfl
  | remove a _ h =>
    refine hquiet [] ?_ (List.append_nil _).symm rfl
    rw [session_erase, if_neg (hopen h)]
  | putBack a state h =>
    exact hquiet [] (session_insert_erase h addr) (List.append_nil _).symm rfl
  | encrypt a msgType data session horigin _ h =>
    by_cases hne : a = addr
    · subst hne
      cases h.symm.trans hs
      exact .encrypt msgType data horigin ((session_insert rfl a).trans (if_pos rfl)) rfl
    · refine .idle _ ?_ ((hother (Ne.symm hne) rfl rfl).trans hs) rfl
        (sentTo_sentBy_of_ne hne msgType _)
      rw [callsFor_singleton, if_neg hne]
  | decrypt a frame session hinput h =>
    by_cases hne : a = addr
    · subst hne
      cases h.symm.trans hs
      exact .decrypt frame hinput ((session_insert rfl a).trans (if_pos rfl)) rfl
    · exact hquiet [] (hother (Ne.symm hne) rfl rfl) (List.append_nil _).symm rfl
  | establish a keys _ h =>
    have hne := hopen (.inr (hlookup h))
    refine .idle _ ?_ ((hother hne rfl rfl).trans hs) rfl
      (sentTo_sentBy_of_ne (Ne.symm hne) .ping _)
    rw [callsFor_singleton, if_neg (Ne.symm hne)]

/-- A session goes on, and what is sent to its peer is what the session carries. -/
def Carries (addr : SocketAddr) (calls : List SealCall) (n n' : ControlPlane S F) : Prop :=
  ∀ s, n.session addr = some s → s.sendNonce.toNat + callsFor addr calls < 2 ^ 64 →
    ∃ s' outputs, n'.session addr = some s' ∧ n'.outbox = n.outbox ++ outputs ∧
      Carried S s (callsFor addr calls) (sentTo addr outputs) s'

/-- A node that has carried nothing. -/
theorem Carries.refl (addr : SocketAddr) (n : ControlPlane S F) : Carries addr [] n n :=
  fun s hs _ => ⟨s, [], hs, (List.append_nil _).symm, .refl s⟩

/-- What a node carries adds up. -/
theorem Carries.trans {m : ControlPlane S F} {rest : List SealCall} (h : Carries addr calls n m)
    (h' : Carries addr rest m n') : Carries addr (calls ++ rest) n n' := by
  intro s hs hwrap
  have hcount : callsFor addr (calls ++ rest) = callsFor addr calls + callsFor addr rest := by
    simp only [callsFor, List.map_append, List.count_append]
  rw [hcount] at hwrap ⊢
  obtain ⟨s₁, outputs, hs₁, houtbox, hcarried⟩ := h s hs (by omega)
  obtain ⟨s₂, outputs', hs₂, houtbox', hcarried'⟩ := h' s₁ hs₁ (by
    rw [hcarried.sendNonce_eq]
    omega)
  refine ⟨s₂, outputs ++ outputs', hs₂, ?_, ?_⟩
  · rw [houtbox', houtbox, List.append_assoc]
  · rw [sentTo, List.filterMap_append]
    exact hcarried.trans hcarried'

/-- Each change carries what was encrypted in it. -/
theorem Change.carries (h : Change f64 scope input heard completed calls n n')
    (hended : addr ∉ input.ended) :
    Carries addr calls n n' := by
  intro s hs hwrap
  cases h.use hended hs with
  | idle outputs hcalls hsession houtbox hsent =>
    refine ⟨s, outputs, hsession, houtbox, ?_⟩
    rw [hcalls, hsent]
    exact .refl s
  | encrypt msgType data _ hsession houtbox =>
    rw [callsFor_singleton, if_pos rfl] at hwrap ⊢
    exact ⟨_, _, hsession, houtbox, carried_encrypt msgType data hwrap⟩
  | decrypt frame _ hsession houtbox =>
    exact ⟨_, [], hsession, houtbox.trans (List.append_nil _).symm, carried_decrypt _ _⟩

/-- An iteration that does not end a session calls `encrypt` on it at most once. -/
theorem carries_step (env : Env σ) (hended : addr ∉ input.ended) :
    ∃ calls, callsFor addr calls ≤ 1 ∧
      Carries addr calls n (Exec.stateAfter (step f64 env input n)) := by
  obtain ⟨calls, hcalls, hchanges⟩ : Changes f64 _ input _ _ _ n _ := changes_step env input
  refine ⟨calls, ?_, hchanges.lift (Q := Carries addr) (Carries.refl addr)
    (fun h h' => h.trans h') fun h => h.carries hended⟩
  exact (hcalls.count_le addr).trans
    (List.nodup_iff_count_le_one.mp (nodup_concerned n input) addr)

/-- An input that leaves a session open, and does not find its counter about to wrap. -/
def KeepsOpen (addr : SocketAddr) (n : ControlPlane S F) (input : Input) : Prop :=
  addr ∉ input.ended ∧ ∀ s, n.session addr = some s → s.sendNonce.toNat + 1 < 2 ^ 64

/-- As long as nothing ends a session, it keeps its keys, and everything that is sent to its peer is
encrypted under its key, with a nonce above all that were used before. -/
theorem carried_of_reachable {first : ControlPlane S F} {s : SecureSession}
    (h : Reachable f64 (KeepsOpen addr) first n) (hs : first.session addr = some s) :
    ∃ count s' outputs, n.session addr = some s' ∧ n.outbox = first.outbox ++ outputs ∧
      Carried S s count (sentTo addr outputs) s' := by
  induction h with
  | start => exact ⟨0, s, [], hs, (List.append_nil _).symm, .refl s⟩
  | step env input _ hkeeps hstep ih =>
    obtain ⟨count, s₁, outputs, hs₁, houtbox, hcarried⟩ := ih
    obtain ⟨calls, hcalls, hcarries⟩ : ∃ calls, callsFor addr calls ≤ 1 ∧
        Carries addr calls _ (Exec.stateAfter (ControlPlane.step f64 env input _)) :=
      carries_step env hkeeps.1
    have hwrap := hkeeps.2 s₁ hs₁
    rw [hstep] at hcarries
    obtain ⟨s₂, outputs', hs₂, houtbox', hcarried'⟩ := hcarries s₁ hs₁ (by omega)
    refine ⟨count + callsFor addr calls, s₂, outputs ++ outputs', hs₂, ?_, ?_⟩
    · rw [← List.append_assoc, ← houtbox]
      exact houtbox'
    · rw [sentTo, List.filterMap_append]
      exact hcarried.trans hcarried'

/-- A message is sent on a session. -/
theorem carried_of_greeting :
    ∃ count s' outputs,
      (World.greeted.node .dialer).session World.listenerAddr = some s' ∧
      (World.greeted.node .dialer).outbox = (World.twoNodes .dialer).outbox ++ outputs ∧
      Carried xorSuite (.fromKeys SecureSession.senderKeys) count
        (sentTo World.listenerAddr outputs) s' := by
  have hreach : Reachable wholeF64 (KeepsOpen World.listenerAddr) (World.twoNodes .dialer)
      (World.greeted.node .dialer) := by
    refine .step quietEnv World.greeting .start ⟨by decide, fun s hs => ?_⟩
      (Exec.eq_ok_of_isOk (by decide +kernel))
    cases (show (World.twoNodes .dialer).session World.listenerAddr =
      some (.fromKeys SecureSession.senderKeys) from rfl).symm.trans hs
    decide
  exact carried_of_reachable hreach rfl

/-! ## Dialing -/

/-- What the loop has dialed on its own account, and may still dial. -/
def dials (n : ControlPlane S F) : Nat :=
  n.outbox.countP Output.isCommand + n.pendingDhtConnects.card

/-- Without commands, no dial is added. -/
theorem dials_le_of_outputs (outputs : List Output)
    (hoff : ∀ output ∈ outputs, output.isCommand = false)
    (houtbox : n'.outbox = n.outbox ++ outputs)
    (hpending : n'.pendingDhtConnects = n.pendingDhtConnects) : n'.dials ≤ n.dials := by
  have hzero : outputs.countP Output.isCommand = 0 :=
    List.countP_eq_zero.mpr fun output hmem => by rw [hoff output hmem]; exact Bool.false_ne_true
  rw [dials, dials, houtbox, hpending, List.countP_append, hzero, Nat.add_zero]

/-- What is sent to a peer is no command. -/
theorem isCommand_of_mem_sentBy {a : SocketAddr} {msgType : MessageType}
    {result : Except CryptoError (UInt64 × List UInt8)} (output : Output)
    (h : output ∈ sentBy a msgType result) : output.isCommand = false := by
  cases result with
  | ok sent =>
    rw [List.mem_singleton.mp h]
    rfl
  | error e => cases h

/-- Only the command to look for somebody makes the loop dial more. -/
theorem Change.dials_le (h : Change f64 scope input heard completed calls n n')
    (hasks : input.asks = false) :
    n'.dials ≤ n.dials := by
  cases h with
  | report output hreport =>
    refine dials_le_of_outputs [output] (List.forall_mem_singleton.mpr ?_) rfl rfl
    cases output with
    | sendTo a frame => cases hreport
    | command command => cases hreport
    | _ => rfl
  | greet a message =>
    exact dials_le_of_outputs [hello a message] (List.forall_mem_singleton.mpr rfl) rfl rfl
  | seek id hseeks | redirect id addr hseeks =>
    rw [Input.asks_of_seeks hseeks] at hasks
    cases hasks
  | dial id addr hpending =>
    have hcard := Finset.card_erase_add_one hpending
    simp only [dials, List.countP_append, List.countP_singleton, Output.isCommand, if_true]
    omega
  | file | await | remove | putBack | decrypt => exact Nat.le_refl _
  | encrypt | establish => exact dials_le_of_outputs _ isCommand_of_mem_sentBy rfl rfl

/-- An input that asks for no peer adds no dial. -/
theorem dials_le_of_changes {tags : List SocketAddr}
    (h : Changes f64 scope input heard completed tags n n') (hasks : input.asks = false) :
    n'.dials ≤ n.dials := by
  obtain ⟨_, -, hchanges⟩ := h
  exact hchanges.lift (Q := fun _ n n' => n'.dials ≤ n.dials) (fun _ => Nat.le_refl _)
    (fun h h' => h'.trans h) fun h => h.dials_le hasks

/-- What is sent to all sessions dials nobody, whatever it is sent for. -/
theorem dials_sendEncryptedAll (f64 : F64 F) (msgType : MessageType) (data : List UInt8)
    (addrs : List SocketAddr) (n : ControlPlane S F) :
    (Exec.stateAfter (sendEncryptedAll msgType data addrs n)).dials ≤ n.dials := by
  have hchanges : Changes f64 addrs (.transferFrame n.tcpAddr (.new msgType Flags.empty 0 data))
      none [] addrs n (Exec.stateAfter (sendEncryptedAll msgType data addrs n)) :=
    changes_sendEncryptedAll (fun _ => .transfer _ _ rfl) (List.Subset.refl _) n
  exact dials_le_of_changes hchanges rfl

/-- A lookup is one more to dial, now or when it has found its target. -/
theorem dials_connectTo (f64 : F64 F) (id : PeerId) :
    (Exec.stateAfter (connectTo id n)).dials ≤ n.dials + 1 := by
  rcases stateAfter_connectTo id n with hafter | ⟨addr, -, hafter⟩ | hafter
  · rw [hafter]
    exact Nat.le_succ _
  · rw [hafter]
    simp only [dials, List.countP_append, List.countP_singleton, Output.isCommand, if_true]
    omega
  · rw [hafter]
    have hle := dials_sendEncryptedAll f64 .findNode (FindNode.encode ⟨id.bytes⟩) n.peerStates.keys
      n
    generalize Exec.stateAfter (sendEncryptedAll .findNode _ _ n) = asked at hle ⊢
    have hcard := Finset.card_insert_le id asked.pendingDhtConnects
    simp only [dials] at hle ⊢
    omega

/-- Each step adds at most the dial that was asked for. -/
theorem dials_step (f64 : F64 F) (env : Env σ) (input : Input) (n : ControlPlane S F) :
    (Exec.stateAfter (step f64 env input n)).dials ≤ n.dials + if input.asks then 1 else 0 := by
  cases hasks : input.asks with
  | false => exact dials_le_of_changes (changes_step env input : Changes f64 _ _ _ _ _ n _) hasks
  | true =>
    cases input with
    | command command =>
      cases command with
      | connectPeerId peerIdHex =>
        rw [step, handleCommand, connectPeerId_eq]
        cases connectParse peerIdHex with
        | accepted id => exact dials_connectTo f64 id
        | rejected | panicked => exact Nat.le_succ _
      | _ => cases hasks
    | _ => cases hasks

variable (f64) in
/-- The states that a run of the loop leads to, with the inputs that it has taken. -/
inductive Ran (first : ControlPlane S F) : List Input → ControlPlane S F → Prop
  | start : Ran first [] first
  | step {inputs : List Input} {n n' : ControlPlane S F} (env : Env σ) (input : Input) :
      Ran first inputs n → ControlPlane.step f64 env input n = .ok () n' →
      Ran first (inputs ++ [input]) n'

/-- The state after further inputs, if no iteration on the way panics. -/
theorem Ran.foldl {first : ControlPlane S F} {taken : List Input} (h : Ran f64 first taken n)
    (env : Env σ) {inputs : List Input}
    (halong : Along (fun n input => Exec.isOk (ControlPlane.step f64 env input n) = true)
      (fun n input => Exec.stateAfter (ControlPlane.step f64 env input n)) n inputs) :
    Ran f64 first (taken ++ inputs) (inputs.foldl
      (fun n input => Exec.stateAfter (ControlPlane.step f64 env input n)) n) := by
  induction inputs generalizing taken n with
  | nil =>
    rw [List.append_nil]
    exact h
  | cons input inputs ih =>
    have hrest := ih (h.step env input (Exec.eq_ok_of_isOk halong.1)) halong.2
    rwa [List.append_assoc] at hrest

/-- Whatever peers answer, the loop dials on its own account at most once for each command that
looked for somebody; commands that found nobody so far are counted. -/
theorem dialed_le_asked {identity : Identity S} {peerId : PeerId} {tcpAddr : SocketAddr}
    {now : Nat} {inputs : List Input} (h : Ran f64 (start identity peerId tcpAddr now) inputs n) :
    n.outbox.countP Output.isCommand + n.pendingDhtConnects.card ≤ inputs.countP Input.asks := by
  change n.dials ≤ _
  induction h with
  | start => exact Nat.le_refl _
  | @step inputs n n' env input _ hstep ih =>
    have hnext := dials_step f64 env input n
    rw [hstep] at hnext
    rw [List.countP_append, List.countP_singleton]
    exact hnext.trans (Nat.add_le_add_right ih _)

/-- A lookup for a caller, and then the caller. -/
def soughtCaller : List Input := .command (.connectPeerId callerHex) :: callerInputs callerId

/-- The listener after these inputs. -/
def foundCaller : ControlPlane xorSuite Nat :=
  soughtCaller.foldl (fun n input => Exec.stateAfter (step wholeF64 quietEnv input n)) listener

/-- The answer that a caller gives makes the listener dial once. -/
theorem caller_dialed_once : foundCaller.outbox.countP Output.isCommand = 1 ∧
    foundCaller.outbox.countP Output.isCommand + foundCaller.pendingDhtConnects.card ≤
      soughtCaller.countP Input.asks :=
  ⟨by decide +kernel, dialed_le_asked (Ran.start.foldl quietEnv (by decide +kernel))⟩

end ControlPlane

end CekyP2P.Node
