import CekyP2P.Node.Handshakes
import CekyP2P.Protocol.RoundTrip

/-!
# The contacts of a network

Any number of nodes run their event loops, and a network between them loses, repeats, delays and
misdirects frames as it likes. It cannot make ciphertexts, and it does not alter the types of
frames; pings and pongs never come past the transport. Then whatever a routing table holds is a
node of the network with the address on which it listens; but a node becomes known only after
somebody has looked for its very identifier. Whom a loop dials on its own account is whom it was
told to look for.
-/

namespace CekyP2P.Node

open Crypto Dht Protocol Transfer Transport Endpoint

variable {σ : Type} {S : Suite UInt8 σ} {F : Type} {f64 : F64 F}

/-! ## What one iteration can learn and say -/

/-- A payload of a lookup names what was sought, and one of an answer names contacts of some
kind. -/
def Vouched (sought : PeerId → Prop) (truth : PeerId × SocketAddr → Prop) (msgType : MessageType)
    (data : List UInt8) : Prop :=
  (msgType = .findNode → ∃ id, sought id ∧ data = FindNode.encode ⟨id.bytes⟩) ∧
  (msgType = .findNodeResp → ∃ peers : List (Vector UInt8 32 × SocketAddr), peers.length ≤ 255 ∧
    (∀ peer ∈ peers, truth (⟨peer.1⟩, peer.2)) ∧ data = FindNodeResp.encode ⟨peers⟩)

/-- Only requests and their answers carry identifiers to vouch for. -/
theorem vouched_of_ne {sought : PeerId → Prop} {truth : PeerId × SocketAddr → Prop}
    {msgType : MessageType} (hask : msgType ≠ .findNode) (hanswer : msgType ≠ .findNodeResp)
    (data : List UInt8) : Vouched sought truth msgType data :=
  ⟨fun h => absurd h hask, fun h => absurd h hanswer⟩

/-- More knowledge vouches for as much. -/
theorem Vouched.imp {sought sought' : PeerId → Prop} {truth truth' : PeerId × SocketAddr → Prop}
    {msgType : MessageType} {data : List UInt8} (h : Vouched sought truth msgType data)
    (hsought : ∀ id, sought id → sought' id) (htruth : ∀ c, truth c → truth' c) :
    Vouched sought' truth' msgType data := by
  refine ⟨fun hask => ?_, fun hanswer => ?_⟩
  · obtain ⟨id, hid, hdata⟩ := h.1 hask
    exact ⟨id, hsought id hid, hdata⟩
  · obtain ⟨peers, hlength, hpeers, hdata⟩ := h.2 hanswer
    exact ⟨peers, hlength, fun peer hpeer => htruth _ (hpeers peer hpeer), hdata⟩

namespace ControlPlane

variable {scope : List SocketAddr} {input : Input} {heard : Option Dispatch}
  {completed : List (SocketAddr × Vector UInt8 32)} {calls : List SealCall}
  {n n' : ControlPlane S F} {own : PeerId → Prop}
  {truth : PeerId × SocketAddr → Prop}

/-- A node that knows contacts of some kind, waits for identifiers of some kind, and has dialed
contacts with such identifiers. -/
structure Informed (own : PeerId → Prop) (truth : PeerId × SocketAddr → Prop)
    (n : ControlPlane S F) : Prop where
  contacts : ∀ c ∈ n.routingTable.contacts, truth c
  pending : ∀ id ∈ n.pendingDhtConnects, own id
  dialed : ∀ addr, .command (.connect addr) ∈ n.outbox → ∃ id, own id ∧ truth (id, addr)

/-- More knowledge informs as much. -/
theorem Informed.imp {own' : PeerId → Prop} {truth' : PeerId × SocketAddr → Prop}
    (h : n.Informed own truth) (hown : ∀ id, own id → own' id) (htruth : ∀ c, truth c → truth' c) :
    n.Informed own' truth' := by
  refine ⟨fun c hc => htruth c (h.contacts c hc), fun id hid => hown id (h.pending id hid),
    fun addr haddr => ?_⟩
  obtain ⟨id, hid, hcontact⟩ := h.dialed addr haddr
  exact ⟨id, hown id hid, htruth _ hcontact⟩

/-- Outputs that dial nobody. -/
theorem Informed.of_outputs (h : n.Informed own truth) {outputs : List Output}
    (hoff : ∀ output ∈ outputs, output.isCommand = false)
    (htable : n'.routingTable = n.routingTable)
    (hpending : n'.pendingDhtConnects = n.pendingDhtConnects)
    (houtbox : n'.outbox = n.outbox ++ outputs) : n'.Informed own truth := by
  refine ⟨htable ▸ h.contacts, hpending ▸ h.pending, fun addr haddr => ?_⟩
  rw [houtbox] at haddr
  rcases List.mem_append.mp haddr with hold | hnew
  · exact h.dialed addr hold
  · cases hoff _ hnew

/-- One more contact is dialed. -/
theorem Informed.dial (h : n.Informed own truth) {id : PeerId} {addr : SocketAddr} (hid : own id)
    (hcontact : truth (id, addr)) (htable : n'.routingTable = n.routingTable)
    (hpending : n'.pendingDhtConnects ⊆ n.pendingDhtConnects)
    (houtbox : n'.outbox = n.outbox ++ [.command (.connect addr)]) : n'.Informed own truth := by
  refine ⟨htable ▸ h.contacts, fun id hid => h.pending id (hpending hid), fun a ha => ?_⟩
  rw [houtbox] at ha
  rcases List.mem_append.mp ha with hold | hnew
  · exact h.dialed a hold
  · cases List.mem_singleton.mp hnew
    exact ⟨id, hid, hcontact⟩

/-- The closest peers are contacts. -/
theorem mem_contacts_of_mem_findClosest {t : RoutingTable F} {target : PeerId} {count : Nat}
    {p : PeerInfo F} (h : p ∈ t.findClosest target count) : (p.peerId, p.addr) ∈ t.contacts := by
  have hsorted := List.mem_of_mem_take h
  have hall := (List.mem_insertionSort _).mp hsorted
  exact List.mem_map_of_mem (List.mem_of_mem_filter hall)

/-- Who is written to is a contact. -/
theorem mem_contacts_of_mem_contact {id : PeerId} {addr : SocketAddr} (h : addr ∈ n.contact id) :
    (id, addr) ∈ n.routingTable.contacts := by
  rw [contact] at h
  split at h
  case h_1 peerInfo table hget =>
    rw [List.mem_singleton.mp h]
    exact RoutingTable.mem_contacts_of_get hget
  case h_2 => cases h

/-- A change files and seeks only what its input names. -/
theorem Change.informed (h : Change f64 scope input heard completed calls n n')
    (hseeks : ∀ id, input.seeks = some id → own id)
    (hnames : ∀ c, input.Names heard c → truth c) (hn : n.Informed own truth) :
    n'.Informed own truth := by
  cases h with
  | report output hreport =>
    refine hn.of_outputs (List.forall_mem_singleton.mpr ?_) rfl rfl rfl
    cases output with
    | sendTo a frame => cases hreport
    | command command => cases hreport
    | _ => rfl
  | greet a message => exact hn.of_outputs (List.forall_mem_singleton.mpr rfl) rfl rfl rfl
  | seek id hseek =>
    refine ⟨hn.contacts, fun other hother => ?_, hn.dialed⟩
    rcases Finset.mem_insert.mp hother with rfl | hold
    · exact hseeks other hseek
    · exact hn.pending other hold
  | redirect id addr hseek hcontact =>
    exact hn.dial (hseeks id hseek) (hn.contacts _ (mem_contacts_of_mem_contact hcontact)) rfl
      (Finset.Subset.refl _) rfl
  | dial id addr hpending hname =>
    exact hn.dial (hn.pending id hpending) (hnames _ hname) rfl (Finset.erase_subset _ _) rfl
  | file id addr now hname =>
    refine ⟨fun c hc => ?_, hn.pending, hn.dialed⟩
    rcases RoutingTable.contacts_insert f64 n.routingTable id addr now c hc with hold | rfl
    · exact hn.contacts c hold
    · exact hnames _ hname
  | await | remove | putBack | decrypt =>
    exact hn.of_outputs (List.forall_mem_nil _) rfl rfl (List.append_nil _).symm
  | encrypt | establish => exact hn.of_outputs isCommand_of_mem_sentBy rfl rfl rfl

/-- A step files and seeks only what its input names. -/
theorem informed_of_changes (h : Labelled (Change f64 scope input heard completed) calls n n')
    (hseeks : ∀ id, input.seeks = some id → own id)
    (hnames : ∀ c, input.Names heard c → truth c) (hn : n.Informed own truth) :
    n'.Informed own truth :=
  h.lift (Q := fun _ n n' => n.Informed own truth → n'.Informed own truth) (fun _ h => h)
    (fun h h' hn => h' (h hn)) (fun h hn => h.informed hseeks hnames hn) hn

/-- What a node says is vouched for, where what it is asked about and what it knows is. -/
theorem Origin.vouched {msgType : MessageType} {data : List UInt8}
    (h : Origin n input heard msgType data) (htyped : input.Typed) {sought : PeerId → Prop}
    (hseeks : ∀ id, input.seeks = some id → sought id) (hn : n.Informed own truth)
    (hself : ∀ d, heard = some d → d.AsksFor n.peerId → truth (n.peerId, n.tcpAddr)) :
    Vouched sought truth msgType data := by
  cases h with
  | message | pong => exact vouched_of_ne MessageType.noConfusion MessageType.noConfusion _
  | lookup id hseek => exact ⟨fun _ => ⟨id, hseeks id hseek, rfl⟩, MessageType.noConfusion⟩
  | answer target d hheard hasks =>
    refine ⟨MessageType.noConfusion, fun _ => ⟨_, ?_, ?_, rfl⟩⟩
    · rw [closestPeers]
      split
      · exact Nat.succ_le_succ (Nat.zero_le _)
      · rw [List.length_map]
        have hlength : (n.routingTable.findClosest target 20).length ≤ 20 := by
          rw [RoutingTable.findClosest]
          exact List.length_take_le _ _
        omega
    · rw [closestPeers]
      split
      case isTrue htarget =>
        refine List.forall_mem_singleton.mpr (hself d hheard ?_)
        rw [← htarget]
        exact hasks
      case isFalse =>
        refine List.forall_mem_map.mpr fun p hp => hn.contacts _ ?_
        exact mem_contacts_of_mem_findClosest hp
  | transfer peerAddr frame hinput =>
    rw [hinput, Input.Typed] at htyped
    refine vouched_of_ne ?_ ?_ _
    · rintro htype
      rw [htype] at htyped
      exact absurd htyped (by decide)
    · rintro htype
      rw [htype] at htyped
      exact absurd htyped (by decide)

/-- What an iteration can say on a session that it establishes or ends: no lookup and no answer. -/
theorem Origin.ne_of_not_open {msgType : MessageType} {data : List UInt8} {m : ControlPlane S F}
    (h : Origin m input (n.dispatched input) msgType data) (htyped : input.Typed)
    {addr : SocketAddr} (hmeets : addr ∈ input.meets)
    (hopen : addr ∈ input.ended ∨ n.session addr = none) :
    msgType ≠ .findNode ∧ msgType ≠ .findNodeResp := by
  cases h with
  | message | pong => exact ⟨MessageType.noConfusion, MessageType.noConfusion⟩
  | lookup id hseek =>
    cases input with
    | command command =>
      cases command with
      | connectPeerId peerIdHex => cases hmeets
      | _ => cases hseek
    | _ => cases hseek
  | answer target d hheard hasks =>
    obtain ⟨peerAddr, frame, session, rfl, -, hsession, -⟩ := exists_of_dispatched hheard
    obtain rfl := List.mem_singleton.mp hmeets
    rcases hopen with hended | hnone
    · cases hended
    · cases hnone.symm.trans hsession
  | transfer peerAddr frame hinput =>
    rw [hinput] at hmeets
    cases hmeets

/-- What comes up in the course of an iteration is vouched for. -/
theorem Spoken.vouched {key : Vector UInt8 32} {f : Frame}
    (h : Spoken f64 scope input heard completed n key f) (htyped : input.Typed)
    {sought : PeerId → Prop}
    (hown : ∀ id, input.seeks = some id → own id) (hseeks : ∀ id, own id → sought id)
    (hnames : ∀ c, input.Names heard c → truth c)
    (hself : ∀ d, heard = some d → d.AsksFor n.peerId → truth (n.peerId, n.tcpAddr))
    (hn : n.Informed own truth) :
    ∃ data, Encrypts S (key, f) data ∧ Vouched sought truth f.header.msgType data := by
  obtain ⟨calls, m, data, hchanges, horigin, hsealed⟩ := h
  have hsame : SameNode n m :=
    hchanges.lift (Q := fun _ => SameNode) (fun _ => ⟨rfl, rfl, rfl⟩) (fun h h' => h.trans h')
      fun h => h.sameNode
  refine ⟨data, hsealed, horigin.vouched htyped (fun id hid => hseeks id (hown id hid))
    (informed_of_changes hchanges hown hnames hn) ?_⟩
  rw [hsame.peerId_eq, hsame.tcpAddr_eq]
  exact hself

/-- On a session that is not there before the iteration, or that it ends, there is no lookup and no
answer. -/
theorem ne_of_not_open {env : Env σ} (htyped : input.Typed) {outputs : List Output}
    (houtbox : (Exec.stateAfter (step f64 env input n)).outbox = n.outbox ++ outputs)
    {addr : SocketAddr} {frame : Frame} (hmem : .sendTo addr frame ∈ outputs)
    (hopen : addr ∈ input.ended ∨ n.session addr = none) :
    frame.header.msgType ≠ .findNode ∧ frame.header.msgType ≠ .findNodeResp := by
  by_cases hmeets : addr ∈ input.meets
  · have hemitted : Emitted S F input (n.dispatched input) (.sendTo addr frame) :=
      emitted_of_step houtbox _ hmem
    cases hemitted with
    | report _ hreport => cases hreport
    | greeting | announcement => exact ⟨MessageType.noConfusion, MessageType.noConfusion⟩
    | encrypted _ msgType nonce ciphertext data m horigin =>
      exact horigin.ne_of_not_open htyped hmeets hopen
  · have hnone : n.session addr = none :=
      hopen.resolve_left fun hended => hmeets (Input.mem_meets_of_mem_ended hended)
    obtain ⟨-, outputs', houtbox', hquiet⟩ :
        Waits addr n (Exec.stateAfter (step f64 env input n)) := waits_step env hmeets hnone
    obtain rfl := List.append_cancel_left (houtbox.symm.trans houtbox')
    have hframe : Output.frameTo addr (.sendTo addr frame) = some frame := if_pos rfl
    cases hframe.symm.trans (hquiet _ hmem)

/-- What an iteration sends on its sessions is vouched for. -/
theorem vouched_of_mem_sealedFrames {env : Env σ} (hstep : step f64 env input n = .ok () n')
    (htyped : input.Typed) {sought : PeerId → Prop}
    (hown : ∀ id, input.seeks = some id → own id) (hseeks : ∀ id, own id → sought id)
    (hnames : ∀ c, input.Names (n.dispatched input) c → truth c)
    (hself : ∀ d, n.dispatched input = some d → d.AsksFor n.peerId → truth (n.peerId, n.tcpAddr))
    (hn : n.Informed own truth) {f : Vector UInt8 32 × Frame} (hf : f ∈ n.sealedFrames n') :
    ∃ data, Encrypts S f data ∧ Vouched sought truth f.2.header.msgType data := by
  obtain ⟨data, hdata⟩ := encrypts_of_mem_sealedFrames hstep hf
  obtain ⟨outputs, houtbox, -⟩ := emits_step f64 env input n
  have hdrop : n'.outbox.drop n.outbox.length = outputs := by
    rw [hstep] at houtbox
    rw [show n'.outbox = n.outbox ++ outputs from houtbox, List.drop_left]
  rw [sealedFrames, hdrop] at hf
  obtain ⟨output, hmem, hsealed⟩ := List.mem_filterMap.mp hf
  cases output with
  | sendTo addr frame =>
    obtain ⟨-, hsealed⟩ := Option.ite_none_right_eq_some.mp hsealed
    obtain ⟨s', hs', rfl⟩ := Option.map_eq_some_iff.mp hsealed
    by_cases hopen : addr ∈ input.ended ∨ n.session addr = none
    · obtain ⟨hask, hanswer⟩ := ne_of_not_open htyped houtbox hmem hopen
      exact ⟨data, hdata, vouched_of_ne hask hanswer data⟩
    · obtain ⟨hended, hsome⟩ := not_or.mp hopen
      obtain ⟨s, hs⟩ := Option.ne_none_iff_exists'.mp hsome
      obtain ⟨⟨s'', hs'', hkey, -⟩, outputs', houtbox', hspoken⟩ :
          Talks f64 addr _ input _ _ s n (Exec.stateAfter (step f64 env input n)) :=
        talks_step env hended hs
      obtain rfl := List.append_cancel_left (houtbox.symm.trans houtbox')
      rw [hstep] at hs''
      cases hs'.symm.trans hs''
      rw [hkey]
      exact (hspoken _ hmem frame (if_pos rfl)).vouched htyped hown hseeks hnames hself hn
  | _ => cases hsealed

end ControlPlane

/-! ## The network -/

/-- Some nodes, with what they have sent on their sessions and what each was told to look for. -/
structure Swarm (ι : Type) (S : Suite UInt8 σ) (F : Type) where
  node : ι → ControlPlane S F
  sent : List (Vector UInt8 32 × Frame)
  sought : ι → List PeerId

namespace Swarm

variable {ι : Type} [DecidableEq ι]

/-- The nodes have just started. -/
def fresh (identity : ι → Identity S) (peerId : ι → PeerId) (tcpAddr : ι → SocketAddr)
    (now : ι → Nat) : Swarm ι S F :=
  ⟨fun i => .start (identity i) (peerId i) (tcpAddr i) (now i), [], fun _ => []⟩

/-- An iteration of one node. -/
def after (w : Swarm ι S F) (i : ι) (input : Input) (n' : ControlPlane S F) : Swarm ι S F where
  node := Function.update w.node i n'
  sent := w.sent ++ (w.node i).sealedFrames n'
  sought := Function.update w.sought i (w.sought i ++ input.seeks.toList)

omit [DecidableEq ι] in
/-- What may come to a node. A frame is no ping and no pong, and if it opens under a session, some
node has sent it under this key and with this type. -/
def Delivers (w : Swarm ι S F) (i : ι) : Input → Prop
  | .event (.frameReceived peerAddr frame) => Forwarded frame ∧
    ∀ session ∈ (w.node i).session peerAddr,
      (S.aead.decrypt session.recvKey (buildNonce frame.header.requestId) frame.payload []).isSome →
      ∃ f ∈ w.sent, f.2.header.msgType = frame.header.msgType ∧
        f.2.header.requestId = frame.header.requestId ∧ f.2.payload = frame.payload ∧
        f.1 = session.recvKey
  | input => input.Typed

omit [DecidableEq ι] in
instance decidableDelivers (w : Swarm ι S F) (i : ι) : DecidablePred (w.Delivers i)
  | .event (.frameReceived _ _) => instDecidableAnd
  | .event (.connected _) | .event (.disconnected _ _) | .event (.error _ _) | .command _ =>
    instDecidableTrue
  | .transferFrame _ frame => inferInstanceAs (Decidable (frame.header.msgType ∈ transferTypes))

variable (f64) in
/-- The states that a network comes to, whatever its nodes are asked and whatever arrives when. -/
inductive Reachable (first : Swarm ι S F) : Swarm ι S F → Prop
  | start : Reachable first first
  | step {w : Swarm ι S F} {n' : ControlPlane S F} (i : ι) (env : Env σ) (input : Input) :
      Reachable first w → w.Delivers i input →
      ControlPlane.step f64 env input (w.node i) = .ok () n' →
      Reachable first (w.after i input n')

variable (f64) in
/-- The swarm after a move of one node. -/
def play (env : Env σ) (w : Swarm ι S F) (move : ι × Input) : Swarm ι S F :=
  w.after move.1 move.2 (Exec.stateAfter (ControlPlane.step f64 env move.2 (w.node move.1)))

/-- Moves that are delivered and handled are a run. -/
theorem Reachable.foldl {first w : Swarm ι S F} (h : Reachable f64 first w) (env : Env σ)
    {moves : List (ι × Input)}
    (halong : Along (fun w move => w.Delivers move.1 move.2 ∧
        Exec.isOk (ControlPlane.step f64 env move.2 (w.node move.1)) = true)
      (play f64 env) w moves) :
    Reachable f64 first (moves.foldl (play f64 env) w) := by
  refine Along.invariant (I := Reachable f64 first) ?_ halong h
  rintro w ⟨i, input⟩ h ⟨hdelivers, hok⟩
  exact h.step i env input hdelivers (Exec.eq_ok_of_isOk hok)

/-- Somebody has looked for an identifier. -/
def Sought (w : Swarm ι S F) (id : PeerId) : Prop := ∃ k, id ∈ w.sought k

/-- A node with the address on which it listens, for which somebody has looked. -/
def Known (w : Swarm ι S F) (c : PeerId × SocketAddr) : Prop :=
  (∃ j, c = ((w.node j).peerId, (w.node j).tcpAddr)) ∧ w.Sought c.1

/-- What the nodes know and what they have sent is known in the swarm. -/
structure Truthful (w : Swarm ι S F) : Prop where
  informed : ∀ i, (w.node i).Informed (· ∈ w.sought i) w.Known
  vouched : ∀ f ∈ w.sent, ∃ data, Encrypts S f data ∧
    Vouched w.Sought w.Known f.2.header.msgType data

variable {w : Swarm ι S F} {i : ι} {input : Input} {n' : ControlPlane S F}

omit [DecidableEq ι] in
/-- A payload that a node dispatches is vouched for. -/
theorem Truthful.heard (h : w.Truthful) (haead : S.aead.Lawful) (hdelivers : w.Delivers i input)
    {d : Dispatch} (hd : (w.node i).dispatched input = some d) :
    d.msgType ≠ .ping ∧ d.msgType ≠ .pong ∧ Vouched w.Sought w.Known d.msgType d.data := by
  obtain ⟨peerAddr, frame, session, rfl, -, hsession, -, hopened, -, htype⟩ :=
    ControlPlane.exists_of_dispatched hd
  obtain ⟨hforwarded, hsent⟩ := hdelivers
  have hdecrypt := ((session.openFrame_spec S.aead frame.header.requestId frame.payload []).2.2
    d.data hopened).2
  obtain ⟨f, hf, hmsg, hnonce, hpayload, hkey⟩ := hsent session hsession (by rw [hdecrypt]; rfl)
  obtain ⟨data, hencrypts, hvouched⟩ := h.vouched f hf
  have hsame := haead.decrypt_encrypt hencrypts
  rw [hkey, hnonce, hpayload, hdecrypt, Option.some_inj] at hsame
  rw [htype, hsame]
  exact ⟨hforwarded.1, hforwarded.2, hmsg ▸ hvouched⟩

omit [DecidableEq ι] in
/-- The contacts that a node is told of are known. -/
theorem Truthful.names (h : w.Truthful) (haead : S.aead.Lawful) (hdelivers : w.Delivers i input)
    {c : PeerId × SocketAddr} (hc : input.Names ((w.node i).dispatched input) c) : w.Known c := by
  obtain ⟨peerAddr, -, d, hd, hfiled⟩ := hc
  obtain ⟨hping, hpong, -, hanswer⟩ := h.heard haead hdelivers hd
  unfold filedBy at hfiled
  split at hfiled
  case h_1 htype => exact absurd htype hping
  case h_2 htype => exact absurd htype hpong
  case h_3 htype =>
    obtain ⟨peers, hlength, hpeers, hdata⟩ := hanswer htype
    have hdecode : FindNodeResp.decode d.data = .ok ⟨peers⟩ :=
      FindNodeResp.decode_eq_ok.mpr ⟨hlength, [], by rw [hdata, List.append_nil]⟩
    simp only [hdecode] at hfiled
    obtain ⟨peer, hpeer, rfl⟩ := List.mem_map.mp hfiled
    exact hpeers peer hpeer
  case h_4 => cases hfiled

omit [DecidableEq ι] in
/-- A node that is asked for itself was sought. -/
theorem Truthful.self (h : w.Truthful) (haead : S.aead.Lawful) (hdelivers : w.Delivers i input)
    {d : Dispatch} (hd : (w.node i).dispatched input = some d)
    (hasks : d.AsksFor (w.node i).peerId) :
    w.Known ((w.node i).peerId, (w.node i).tcpAddr) := by
  obtain ⟨-, -, hlookup, -⟩ := h.heard haead hdelivers hd
  obtain ⟨id, hid, hdata⟩ := hlookup hasks.1
  have hdecode := hasks.2
  rw [hdata, FindNode.decode_encode] at hdecode
  have hbytes : id.bytes = (w.node i).peerId.bytes :=
    congrArg FindNode.target (Except.ok.inj hdecode)
  have hself : id = (w.node i).peerId := congrArg PeerId.mk hbytes
  rw [hself] at hid
  exact ⟨⟨i, rfl⟩, hid⟩

/-- Who is sought stays sought. -/
theorem mem_sought_after {j : ι} {id : PeerId} (h : id ∈ w.sought j) :
    id ∈ (w.after i input n').sought j := by
  by_cases hj : j = i
  · subst hj
    simp [after, h]
  · simpa [after, hj] using h

/-- Who is sought by some node stays sought. -/
theorem Sought.after {id : PeerId} (h : w.Sought id) : (w.after i input n').Sought id := by
  obtain ⟨k, hk⟩ := h
  exact ⟨k, mem_sought_after hk⟩

/-- What is known stays known. -/
theorem Known.after {c : PeerId × SocketAddr} (h : w.Known c)
    (hsame : ControlPlane.SameNode (w.node i) n') : (w.after i input n').Known c := by
  obtain ⟨⟨j, rfl⟩, hsought⟩ := h
  refine ⟨⟨j, ?_⟩, hsought.after⟩
  by_cases hj : j = i
  · subst hj
    simp [Swarm.after, hsame.peerId_eq, hsame.tcpAddr_eq]
  · simp [Swarm.after, hj]

/-- Every step keeps the swarm truthful. -/
theorem Truthful.step (h : w.Truthful) (haead : S.aead.Lawful) {env : Env σ}
    (hdelivers : w.Delivers i input)
    (hstep : ControlPlane.step f64 env input (w.node i) = .ok () n') :
    (w.after i input n').Truthful := by
  have hsame : ControlPlane.SameNode (w.node i) n' := by
    have hsame := ControlPlane.sameNode_step f64 env input (w.node i)
    rwa [hstep] at hsame
  have hown : ∀ id, input.seeks = some id → id ∈ (w.after i input n').sought i := by
    intro id hid
    simp [after, hid]
  have hknown : ∀ c, w.Known c → (w.after i input n').Known c := fun c hc => hc.after hsame
  have hbefore : (w.node i).Informed (· ∈ (w.after i input n').sought i)
      (w.after i input n').Known :=
    (h.informed i).imp (fun id hid => mem_sought_after hid) hknown
  have hnames : ∀ c, input.Names ((w.node i).dispatched input) c → (w.after i input n').Known c :=
    fun c hc => hknown c (h.names haead hdelivers hc)
  have htyped : input.Typed := by
    cases input with
    | event event => trivial
    | command command => trivial
    | transferFrame peerAddr frame => exact hdelivers
  refine ⟨fun j => ?_, fun f hf => ?_⟩
  · by_cases hj : j = i
    · subst hj
      obtain ⟨_, -, hchanges⟩ : ControlPlane.Changes f64 _ input _ _ _ (w.node j) _ :=
        ControlPlane.changes_step env input
      rw [hstep] at hchanges
      have hafter := ControlPlane.informed_of_changes hchanges hown hnames hbefore
      have hnode : (w.after j input n').node j = n' := Function.update_self _ _ _
      rw [hnode]
      exact hafter
    · have hnode : (w.after i input n').node j = w.node j := Function.update_of_ne hj _ _
      rw [hnode]
      exact (h.informed j).imp (fun id hid => mem_sought_after hid) hknown
  · rcases List.mem_append.mp hf with hold | hnew
    · obtain ⟨data, hdata, hvouched⟩ := h.vouched f hold
      exact ⟨data, hdata, hvouched.imp (fun id hid => hid.after) hknown⟩
    · exact ControlPlane.vouched_of_mem_sealedFrames hstep htyped hown (fun id hid => ⟨i, hid⟩)
        hnames (fun d hd hasks => hknown _ (h.self haead hdelivers hd hasks)) hbefore hnew

variable {identity : ι → Identity S} {peerId : ι → PeerId} {tcpAddr : ι → SocketAddr}
  {now : ι → Nat}

/-- Every run leaves identifiers and addresses. -/
theorem sameNode_of_reachable (h : Reachable f64 (fresh identity peerId tcpAddr now) w) (j : ι) :
    (w.node j).peerId = peerId j ∧ (w.node j).tcpAddr = tcpAddr j := by
  induction h with
  | start => exact ⟨rfl, rfl⟩
  | @step w n' i env input _ _ hstep ih =>
    have hsame := ControlPlane.sameNode_step f64 env input (w.node i)
    rw [hstep] at hsame
    by_cases hj : j = i
    · subst hj
      simp only [after, Function.update_self]
      exact ⟨hsame.peerId_eq.trans ih.1, hsame.tcpAddr_eq.trans ih.2⟩
    · simp only [after, Function.update_of_ne hj]
      exact ih

end Swarm

end CekyP2P.Node
