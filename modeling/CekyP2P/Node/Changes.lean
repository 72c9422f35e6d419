import CekyP2P.Core.Labelled
import CekyP2P.Node.PeerIdParsers

/-!
# The changes of an iteration

An iteration of the event loop is a sequence of small changes. An input is about some addresses,
and the iteration touches the states of these addresses only; a handshake moves only where its peer
is met, and a session ends only where the input says so; a lookup begins only with the command for
one, and a message is sent and reported only for one; what the table files and whom the loop dials,
the frame has named that the iteration dispatches. The calls of `encrypt` label the changes: no
iteration makes two of them for one address.
-/

namespace CekyP2P

open Crypto Dht Protocol Transfer Transport

/-- The peer that an event is about. -/
def Transport.TransportEvent.peer : TransportEvent → Option SocketAddr
  | .connected peerAddr | .disconnected peerAddr _ | .frameReceived peerAddr _ => some peerAddr
  | .error peerAddr _ => peerAddr

namespace Node

variable {σ : Type} {S : Suite UInt8 σ} {F : Type}

/-- The peer that an event of the API is about. -/
def ApiEvent.peer : ApiEvent → SocketAddr
  | .peerConnected peer | .peerDisconnected peer _ | .fileOfferReceived peer _ _
  | .messageReceived peer _ => peer

/-- The address that a command names. -/
def ApiCommand.about : ApiCommand → List SocketAddr
  | .connect addr | .sendFile addr _ | .sendMessage addr _ => [addr]
  | .connectPeerId _ | .sendMessagePeerId _ _ => []

/-- The address that an output names. -/
def Output.about : Output → List SocketAddr
  | .sendTo addr _ | .offerFile addr _ _ | .handleOffer addr _ => [addr]
  | .apiEvent event => [event.peer]
  | .command request => request.about
  | .handleTransfer _ _ => []

/-- A payload that was decrypted under a key and dispatched under a message type. -/
structure Dispatch where
  key : Vector UInt8 32
  msgType : MessageType
  data : List UInt8
  deriving DecidableEq

/-- The static key of the session that a handshake call completes. -/
def completedKey {α : Type} :
    EStateM.Result (Stop CryptoError) (NoiseHandshake S) α → Option (Vector UInt8 32)
  | .ok _ handshake => handshake.intoSessionKeys.toOption.map (·.remoteStatic)
  | .error _ _ => none

/-- The static key of the session that a handshake message completes, if it does. -/
def PeerState.completes (payload : List UInt8) : PeerState S → Option (Vector UInt8 32)
  | .initiatorWaitMsg2 handshake =>
    completedKey (NoiseHandshake.processMessage2CreateMessage3 payload handshake)
  | .responderWaitMsg3 handshake => completedKey (NoiseHandshake.processMessage3 payload handshake)
  | _ => none

/-- The contacts that a decrypted frame asks the table to file. -/
def filedBy (peerAddr : SocketAddr) (msgType : MessageType) (data : List UInt8) :
    List (PeerId × SocketAddr) :=
  match msgType with
  | .ping | .pong =>
    if h : data.length = 32 then [(⟨⟨data.toArray, PeerId.size_toArray h⟩⟩, peerAddr)] else []
  | .findNodeResp =>
    match FindNodeResp.decode data with
    | .ok resp => resp.peers.map fun peer => (⟨peer.1⟩, peer.2)
    | .error _ => []
  | _ => []

/-- The types of the frames that the transfer manager makes. -/
def transferTypes : List MessageType :=
  [.fileOffer, .fileAccept, .creditUpdate, .fileChunkAck, .fileComplete, .fileChunk]

/-- An input that is for the transfer manager: the command to send a file, or one of its frames from
a peer. -/
def Input.ForManager : Input → Prop
  | .command (.sendFile _ _) => True
  | .event (.frameReceived _ frame) => frame.header.msgType ∈ transferTypes
  | _ => False

/-- An output for the API or for the transfer manager. A message is reported only where its frame
has come. -/
def Output.Report (input : Input) : Output → Prop
  | .sendTo _ _ | .command _ => False
  | .offerFile _ _ _ | .handleOffer _ _ | .handleTransfer _ _ => input.ForManager
  | .apiEvent (.messageReceived peer _) => ∃ frame, input = .event (.frameReceived peer frame) ∧
    frame.header.msgType = .data
  | _ => True

/-- A message of a handshake goes out in the open. -/
def hello (addr : SocketAddr) (message : List UInt8) : Output :=
  .sendTo addr (.new .handshake Flags.empty 0 message)

/-- A call of `encrypt` on a session, for a frame of some type to its peer. -/
structure SealCall where
  addr : SocketAddr
  session : SecureSession
  msgType : MessageType
  data : List UInt8

/-- The addresses whose session an input may end. -/
def Input.ended : Input → List SocketAddr
  | .command (.connect addr) | .event (.disconnected addr _) | .event (.error (some addr) _) =>
    [addr]
  | _ => []

/-- The addresses with which an input may begin, continue or end a handshake. -/
def Input.meets : Input → List SocketAddr
  | .command (.connect addr) => [addr]
  | .event e => e.peer.toList
  | _ => []

/-- An input that may end a session concerns the handshake with that peer. -/
theorem Input.mem_meets_of_mem_ended {input : Input} {addr : SocketAddr} (h : addr ∈ input.ended) :
    addr ∈ input.meets := by
  cases input with
  | command command =>
    cases command with
    | connect a => exact h
    | _ => cases h
  | event event =>
    cases event with
    | disconnected a reason => exact h
    | error a error =>
      cases a with
      | some a => exact h
      | none => cases h
    | _ => cases h
  | transferFrame a frame => cases h

/-- The text of a command that sends one. -/
def Input.text : Input → Option String
  | .command (.sendMessage _ message) | .command (.sendMessagePeerId _ message) => some message
  | _ => none

/-- The command that looks for an identifier. -/
def Input.asks : Input → Bool
  | .command (.connectPeerId _) => true
  | _ => false

/-- The identifier that a command looks for. -/
def Input.seeks : Input → Option PeerId
  | .command (.connectPeerId peerIdHex) =>
    match connectParse peerIdHex with
    | .accepted id => some id
    | _ => none
  | _ => none

/-- Seeking a peer is asking for it. -/
theorem Input.asks_of_seeks {input : Input} {id : PeerId} (h : input.seeks = some id) :
    input.asks = true := by
  cases input with
  | command command =>
    cases command with
    | connectPeerId peerIdHex => rfl
    | _ => cases h
  | _ => cases h

/-- A contact that the payload names which an input makes the loop dispatch. -/
def Input.Names (input : Input) (heard : Option Dispatch) (contact : PeerId × SocketAddr) : Prop :=
  ∃ peerAddr ∈ input.meets, ∃ d, heard = some d ∧ contact ∈ filedBy peerAddr d.msgType d.data

/-- A dispatched payload that asks for the peers closest to an identifier. -/
def Dispatch.AsksFor (target : PeerId) (d : Dispatch) : Prop :=
  d.msgType = .findNode ∧ FindNode.decode d.data = .ok ⟨target.bytes⟩

namespace ControlPlane

/-- The payload that an input makes the loop dispatch. -/
def dispatched (n : ControlPlane S F) : Input → Option Dispatch
  | .event (.frameReceived peerAddr frame) =>
    if frame.header.msgType = .handshake then none
    else
      match n.session peerAddr with
      | some session =>
        if frame.header.flags.isEncrypted then
          match (session.decrypt S.aead frame.header.requestId frame.payload).1 with
          | .ok data => some ⟨session.recvKey, frame.header.msgType, data⟩
          | .error _ => none
        else none
      | none => none
  | _ => none

/-- The address and the static key of the session that an input establishes. -/
def established (n : ControlPlane S F) : Input → List (SocketAddr × Vector UInt8 32)
  | .event (.frameReceived peerAddr frame) =>
    if frame.header.msgType = .handshake then
      (((n.peerStates.lookup peerAddr).bind (·.completes frame.payload)).map
        fun key => (peerAddr, key)).toList
    else []
  | _ => []

/-- The output of a call of `encrypt`. -/
def sentBy (addr : SocketAddr) (msgType : MessageType) :
    Except CryptoError (UInt64 × List UInt8) → List Output
  | .ok (encNonce, ciphertext) =>
    [.sendTo addr (.new msgType Flags.empty.withEncrypted encNonce ciphertext)]
  | .error _ => []

/-- A result of `encrypt` is sent, or dropped. -/
theorem emitEncrypted_apply (addr : SocketAddr) (msgType : MessageType)
    (result : Except CryptoError (UInt64 × List UInt8)) (n : ControlPlane S F) :
    emitEncrypted addr msgType result n =
      .ok () { n with outbox := n.outbox ++ sentBy addr msgType result } := by
  cases result with
  | ok sent => rfl
  | error e =>
    rw [sentBy, List.append_nil]
    rfl

/-- A dispatched payload was opened under the session with the sender's address. -/
theorem exists_of_dispatched {n : ControlPlane S F} {input : Input} {d : Dispatch}
    (h : n.dispatched input = some d) :
    ∃ peerAddr frame session, input = .event (.frameReceived peerAddr frame) ∧
      frame.header.msgType ≠ .handshake ∧ n.session peerAddr = some session ∧
      frame.header.flags.isEncrypted = true ∧
      (session.decrypt S.aead frame.header.requestId frame.payload).1 = .ok d.data ∧
      d.key = session.recvKey ∧ d.msgType = frame.header.msgType := by
  unfold dispatched at h
  split at h
  case h_2 => cases h
  case h_1 peerAddr frame =>
    split at h
    case isTrue => cases h
    case isFalse hmsg =>
      split at h
      case h_2 => cases h
      case h_1 session hsession =>
        split at h
        case isFalse => cases h
        case isTrue hencrypted =>
          split at h
          case h_2 => cases h
          case h_1 data hopened =>
            cases h
            exact ⟨peerAddr, frame, session, rfl, hmsg, hsession, hencrypted, hopened, rfl, rfl⟩

/-- The address that the table has for an identifier. -/
def contact (n : ControlPlane S F) (id : PeerId) : List SocketAddr :=
  match RoutingTable.get id n.routingTable with
  | .ok (some peerInfo) _ => [peerInfo.addr]
  | _ => []

/-- The address that the table has for the identifier in a message command. -/
def contactOf (n : ControlPlane S F) (target : String) : List SocketAddr :=
  match messageParse target with
  | .accepted id => n.contact id
  | _ => []

/-- The addresses that an input is about. -/
def concerned (n : ControlPlane S F) : Input → List SocketAddr
  | .command (.connect addr) => [addr]
  | .command (.connectPeerId _) => n.peerStates.keys
  | .command (.sendFile target _) | .command (.sendMessage target _) => [target]
  | .command (.sendMessagePeerId target _) => n.contactOf target
  | .event event => event.peer.toList
  | .transferFrame peerAddr _ => [peerAddr]

/-- What a node says on its sessions, and when. -/
inductive Origin (n : ControlPlane S F) (input : Input) (heard : Option Dispatch) :
    MessageType → List UInt8 → Prop
  | message (text : String) (hinput : input.text = some text) :
      Origin n input heard .data (utf8Bytes text)
  | lookup (id : PeerId) (hseeks : input.seeks = some id) :
      Origin n input heard .findNode (FindNode.encode ⟨id.bytes⟩)
  | pong (peerAddr : SocketAddr) (frame : Frame)
      (hinput : input = .event (.frameReceived peerAddr frame))
      (hping : frame.header.msgType = .ping) : Origin n input heard .pong n.peerId.bytes.toList
  | answer (target : PeerId) (d : Dispatch) (hheard : heard = some d)
      (hasks : d.AsksFor target) :
      Origin n input heard .findNodeResp (FindNodeResp.encode ⟨n.closestPeers target⟩)
  | transfer (peerAddr : SocketAddr) (frame : Frame)
      (hinput : input = .transferFrame peerAddr frame) :
      Origin n input heard frame.header.msgType frame.payload

/-- One change of an iteration, with the call of `encrypt` that it makes. -/
inductive Change (f64 : F64 F) (scope : List SocketAddr) (input : Input) (heard : Option Dispatch)
    (completed : List (SocketAddr × Vector UInt8 32)) :
    List SealCall → ControlPlane S F → ControlPlane S F → Prop
  | report {n : ControlPlane S F} (output : Output) (hreport : output.Report input)
      (hscope : ∀ addr ∈ output.about, addr ∈ scope) :
      Change f64 scope input heard completed [] n { n with outbox := n.outbox ++ [output] }
  /-- A message of a handshake, where there is no session. -/
  | greet {n : ControlPlane S F} (addr : SocketAddr) (message : List UInt8)
      (hmeets : addr ∈ input.meets) (h : addr ∈ input.ended ∨ n.session addr = none) :
      Change f64 scope input heard completed [] n
        { n with outbox := n.outbox ++ [hello addr message] }
  /-- A lookup begins. -/
  | seek {n : ControlPlane S F} (id : PeerId) (hseeks : input.seeks = some id) :
      Change f64 scope input heard completed [] n
        { n with pendingDhtConnects := insert id n.pendingDhtConnects }
  /-- A lookup is not needed. -/
  | redirect {n : ControlPlane S F} (id : PeerId) (addr : SocketAddr)
      (hseeks : input.seeks = some id) (hcontact : addr ∈ n.contact id) :
      Change f64 scope input heard completed [] n
        { n with outbox := n.outbox ++ [.command (.connect addr)] }
  /-- A lookup has found its target. -/
  | dial {n : ControlPlane S F} (id : PeerId) (addr : SocketAddr)
      (hpending : id ∈ n.pendingDhtConnects) (hnames : input.Names heard (id, addr)) :
      Change f64 scope input heard completed [] n
        { n with
          pendingDhtConnects := n.pendingDhtConnects.erase id
          outbox := n.outbox ++ [.command (.connect addr)] }
  | file {n : ControlPlane S F} (id : PeerId) (addr : SocketAddr) (now : Nat)
      (hnames : input.Names heard (id, addr)) :
      Change f64 scope input heard completed [] n
        { n with
          routingTable := Exec.stateAfter (RoutingTable.insert f64 id addr now n.routingTable) }
  /-- A handshake begins or goes on. -/
  | await {n : ControlPlane S F} (addr : SocketAddr) (state : PeerState S)
      (hmeets : addr ∈ input.meets) (hstate : state.session = none)
      (h : addr ∈ input.ended ∨ n.peerStates.lookup addr = none) :
      Change f64 scope input heard completed [] n
        { n with peerStates := n.peerStates.insert addr state }
  | remove {n : ControlPlane S F} (addr : SocketAddr) (hmeets : addr ∈ input.meets)
      (h : addr ∈ input.ended ∨ n.session addr = none) :
      Change f64 scope input heard completed [] n { n with peerStates := n.peerStates.erase addr }
  /-- A session is taken out and put back. -/
  | putBack {n : ControlPlane S F} (addr : SocketAddr) (state : PeerState S)
      (h : n.peerStates.lookup addr = some state) :
      Change f64 scope input heard completed [] n
        { n with peerStates := (n.peerStates.erase addr).insert addr state }
  | encrypt {n : ControlPlane S F} (addr : SocketAddr) (msgType : MessageType)
      (data : List UInt8) (session : SecureSession)
      (horigin : Origin n input heard msgType data) (hscope : addr ∈ scope)
      (h : n.session addr = some session) :
      Change f64 scope input heard completed [⟨addr, session, msgType, data⟩] n
        { n with
          peerStates := n.peerStates.insert addr (.secure (session.encrypt S.aead data).2)
          outbox := n.outbox ++ sentBy addr msgType (session.encrypt S.aead data).1 }
  | decrypt {n : ControlPlane S F} (addr : SocketAddr) (frame : Frame) (session : SecureSession)
      (hinput : input = .event (.frameReceived addr frame)) (h : n.session addr = some session) :
      Change f64 scope input heard completed [] n
        { n with
          peerStates := n.peerStates.insert addr
            (.secure (session.decrypt S.aead frame.header.requestId frame.payload).2) }
  | establish {n : ControlPlane S F} (addr : SocketAddr) (keys : SessionKeys UInt8)
      (hmeets : addr ∈ input.meets) (h : n.peerStates.lookup addr = none)
      (hcompleted : (addr, keys.remoteStatic) ∈ completed) :
      Change f64 scope input heard completed
        [⟨addr, .fromKeys keys, .ping, n.peerId.bytes.toList⟩] n
        { n with
          outbox := n.outbox ++ sentBy addr .ping
            ((SecureSession.fromKeys keys).encrypt S.aead n.peerId.bytes.toList).1
          peerStates := n.peerStates.insert addr (.secure
            ((SecureSession.fromKeys keys).encrypt S.aead n.peerId.bytes.toList).2) }

/-- The changes of an iteration, with at most one call of `encrypt` for each of some addresses. -/
abbrev Changes (f64 : F64 F) (scope : List SocketAddr) (input : Input) (heard : Option Dispatch)
    (completed : List (SocketAddr × Vector UInt8 32)) :
    List SocketAddr → ControlPlane S F → ControlPlane S F → Prop :=
  Traced (Change f64 scope input heard completed) SealCall.addr

section

variable {f64 : F64 F} {scope tags : List SocketAddr} {input : Input} {heard : Option Dispatch}
  {completed : List (SocketAddr × Vector UInt8 32)} {n : ControlPlane S F}

/-! ## Sending on a session -/

/-- A report to the user or to the manager changes nothing else. -/
theorem changes_report (output : Output) (hreport : output.Report input)
    (hscope : ∀ addr ∈ output.about, addr ∈ scope) :
    Exec.Moves (Changes f64 scope input heard completed tags) (emit output : ControlM S F Unit) :=
  Exec.moves_modify fun _ => .quiet (.report output hreport hscope)

/-- What sending to one peer changes. -/
theorem changes_sendEncrypted {addr : SocketAddr} (hscope : addr ∈ scope) {msgType : MessageType}
    {data : List UInt8} (horigin : Origin n input heard msgType data) :
    Changes f64 scope input heard completed [addr] n
      (Exec.stateAfter (sendEncrypted addr msgType data n)) := by
  rw [sendEncrypted, Exec.get_bind_apply]
  cases hsession : n.session addr with
  | none => exact Std.Refl.refl n
  | some session =>
    have hchange : Change f64 scope input heard completed _ n _ :=
      .encrypt addr msgType data session horigin hscope hsession
    simp only
    rw [Exec.bind_apply]
    change Changes f64 scope input heard completed [addr] n
      (Exec.stateAfter (emitEncrypted addr msgType _ _))
    rw [emitEncrypted_apply]
    exact ⟨_, List.Sublist.refl _, .single hchange⟩

/-- What sending to several peers changes. -/
theorem changes_sendEncryptedAll {msgType : MessageType} {data : List UInt8}
    (horigin : ∀ n : ControlPlane S F, Origin n input heard msgType data)
    {addrs : List SocketAddr} (hscope : addrs ⊆ scope) :
    Exec.Moves (Changes f64 scope input heard completed addrs)
      (sendEncryptedAll msgType data addrs : ControlM S F Unit) := by
  induction addrs with
  | nil => exact Exec.moves_pure _
  | cons addr addrs ih =>
    obtain ⟨haddr, haddrs⟩ := List.cons_subset.mp hscope
    have hsend : Exec.Moves (Changes f64 scope input heard completed [addr])
        (sendEncrypted addr msgType data : ControlM S F Unit) :=
      fun n => changes_sendEncrypted haddr (horigin n)
    exact hsend.append fun _ => ih haddrs

/-! ## Commands -/

/-- What dialling an address changes. -/
theorem changes_connect (env : Env σ) {addr : SocketAddr} (hmeets : addr ∈ input.meets)
    (hended : addr ∈ input.ended) :
    Exec.Moves (Changes f64 scope input heard completed [])
      (connect env addr : ControlM S F Unit) := by
  rw [connect]
  split
  case isFalse => exact Exec.moves_pure _
  case isTrue =>
    refine Exec.moves_get_bind fun n => ?_
    refine ((Exec.moves_call _ _).bind fun result => ?_) n
    obtain ⟨result, handshake⟩ := result
    cases result with
    | error e => exact Exec.moves_pure _
    | ok msg1 =>
      refine Exec.Moves.bind
        (Exec.moves_modify fun _ => .quiet (.greet addr msg1 hmeets (.inl hended))) fun _ => ?_
      split
      · exact Exec.moves_modify fun _ => .quiet (.await addr _ hmeets rfl (.inl hended))
      · exact Exec.moves_pure _

/-- What is looked up in the table is the contact; the state is not touched. -/
theorem routingGet_apply (id : PeerId) (n : ControlPlane S F) :
    (∃ e, routingGet id n = .error e n ∧ n.contact id = []) ∨
      ∃ found : Option (PeerInfo F), routingGet id n = .ok found n ∧
        n.contact id = (found.map (·.addr)).toList := by
  rw [routingGet, Exec.get_bind_apply, Exec.bind_apply, Exec.call, contact]
  cases RoutingTable.get id n.routingTable with
  | ok found table =>
    refine .inr ⟨found, rfl, ?_⟩
    cases found <;> rfl
  | error e table =>
    cases e with
    | error e => exact .inr ⟨none, rfl, rfl⟩
    | panicked | blocked => exact .inl ⟨_, rfl, rfl⟩

/-- What `ConnectPeerId` does once it has an identifier: nothing, or it has the address, or it asks
everybody and waits. -/
theorem stateAfter_connectTo (id : PeerId) (n : ControlPlane S F) :
    let asked : ControlPlane S F := Exec.stateAfter
      (sendEncryptedAll .findNode (FindNode.encode ⟨id.bytes⟩) n.peerStates.keys n)
    let after := Exec.stateAfter (connectTo id n)
    after = n ∨ (∃ addr ∈ n.contact id,
        after = { n with outbox := n.outbox ++ [.command (.connect addr)] }) ∨
      after = { asked with pendingDhtConnects := insert id asked.pendingDhtConnects } := by
  intro asked after
  rcases routingGet_apply id n with ⟨e, hget, -⟩ | ⟨found, hget, hcontact⟩
  · left
    simp only [after, connectTo, Exec.bind_apply, hget]
    rfl
  · right
    cases found with
    | some peerInfo =>
      refine .inl ⟨peerInfo.addr, hcontact ▸ List.mem_singleton_self _, ?_⟩
      simp only [after, connectTo, Exec.bind_apply, hget]
      rfl
    | none =>
      obtain ⟨m, hm⟩ : ∃ m, sendEncryptedAll .findNode (FindNode.encode ⟨id.bytes⟩)
          n.peerStates.keys n = .ok () m :=
        ⟨_, Exec.eq_ok_of_isOk (isOk_sendEncryptedAll _ _ _ n)⟩
      right
      simp only [after, asked, connectTo, Exec.bind_apply, hget, Exec.get_apply, hm]
      rfl

/-- What seeking a peer changes. -/
theorem changes_connectTo {id : PeerId} (hscope : n.peerStates.keys ⊆ scope)
    (hseeks : input.seeks = some id) :
    Changes f64 scope input heard completed n.peerStates.keys n
      (Exec.stateAfter (connectTo id n)) := by
  rcases stateAfter_connectTo id n with hafter | ⟨addr, hcontact, hafter⟩ | hafter
  · rw [hafter]
    exact Std.Refl.refl n
  · rw [hafter]
    exact .quiet (.redirect id addr hseeks hcontact)
  · rw [hafter]
    exact (changes_sendEncryptedAll (fun _ => .lookup id hseeks) hscope n).before_quiet
      (.seek id hseeks)

/-- What the command to connect to a peer changes. -/
theorem changes_connectPeerId {peerIdHex : String} (hscope : n.peerStates.keys ⊆ scope)
    (hinput : input = .command (.connectPeerId peerIdHex)) :
    Changes f64 scope input heard completed n.peerStates.keys n
      (Exec.stateAfter (connectPeerId peerIdHex n)) := by
  rw [connectPeerId_eq]
  cases hparse : connectParse peerIdHex with
  | accepted id =>
    refine changes_connectTo hscope ?_
    rw [hinput]
    simp only [Input.seeks, hparse]
  | rejected | panicked => exact Std.Refl.refl n

/-- What sending a text to a peer changes. -/
theorem changes_messageTo {message : String} (hinput : input.text = some message) {id : PeerId}
    (hscope : n.contact id ⊆ scope) :
    Changes f64 scope input heard completed (n.contact id) n
      (Exec.stateAfter (messageTo message id n)) := by
  rw [messageTo, Exec.bind_apply]
  rcases routingGet_apply id n with ⟨e, hget, hcontact⟩ | ⟨found, hget, hcontact⟩
  · rw [hget]
    exact Std.Refl.refl n
  · rw [hget]
    cases found with
    | none => exact Std.Refl.refl n
    | some peerInfo =>
      rw [hcontact] at hscope ⊢
      exact changes_sendEncrypted (hscope List.mem_cons_self) (.message message hinput)

/-- What the command to send a text changes. -/
theorem changes_sendMessagePeerId (target : String) {message : String}
    (hinput : input.text = some message) (hscope : n.contactOf target ⊆ scope) :
    Changes f64 scope input heard completed (n.contactOf target) n
      (Exec.stateAfter (sendMessagePeerId target message n)) := by
  rw [sendMessagePeerId_eq]
  rw [contactOf] at hscope ⊢
  cases htarget : messageParse target with
  | accepted id =>
    rw [htarget] at hscope
    exact changes_messageTo hinput hscope
  | rejected | panicked => exact Std.Refl.refl n

/-- A command touches the addresses that it is about. -/
theorem changes_handleCommand (env : Env σ) (command : ApiCommand) :
    Changes f64 (n.concerned (.command command)) (.command command) heard completed
      (n.concerned (.command command)) n
      (Exec.stateAfter (handleCommand env command n)) := by
  cases command with
  | connect addr =>
    exact (changes_connect env List.mem_cons_self List.mem_cons_self n).mono (List.nil_sublist _)
  | connectPeerId peerIdHex => exact changes_connectPeerId (fun _ h => h) rfl
  | sendFile target filePath =>
    rw [handleCommand, sendFile, Exec.get_bind_apply]
    split
    · have hreport : (Output.offerFile target filePath 1000).Report
          (.command (.sendFile target filePath)) := trivial
      exact changes_report _ hreport (fun _ h => h) n
    · exact Std.Refl.refl n
  | sendMessage target message =>
    exact changes_sendEncrypted List.mem_cons_self (.message message rfl)
  | sendMessagePeerId target message => exact changes_sendMessagePeerId target rfl fun _ h => h

/-! ## Handshakes -/

/-- The key of a handshake whose last call has succeeded. -/
theorem completedKey_of_intoSessionKeys {α : Type} {a : α} {handshake : NoiseHandshake S}
    {sessionKeys : SessionKeys UInt8} (h : handshake.intoSessionKeys = .ok sessionKeys) :
    completedKey (.ok a handshake) = some sessionKeys.remoteStatic := by
  rw [completedKey, h]
  rfl

/-- The session of a complete handshake, after its state was taken out. -/
theorem changes_completeHandshake {peerAddr : SocketAddr} (hmeets : peerAddr ∈ input.meets)
    (hnone : n.peerStates.lookup peerAddr = none) (handshake : NoiseHandshake S)
    (hcompleted : ∀ keys, handshake.intoSessionKeys = .ok keys →
      (peerAddr, keys.remoteStatic) ∈ completed) :
    Changes f64 scope input heard completed [peerAddr] n
      (Exec.stateAfter (completeHandshake peerAddr handshake n)) := by
  rw [completeHandshake, Exec.get_bind_apply]
  cases hkeys : handshake.intoSessionKeys with
  | error e => exact Std.Refl.refl n
  | ok keys =>
    have hchange : Change f64 scope input heard completed _ n _ :=
      .establish peerAddr keys hmeets hnone (hcompleted keys hkeys)
    simp only
    rw [Exec.bind_apply, emitEncrypted_apply]
    exact ⟨_, List.Sublist.refl _, .single hchange⟩

/-- The next step of a handshake, after its state was taken out. -/
theorem changes_advanceHandshake (env : Env σ) {peerAddr : SocketAddr}
    (hmeets : peerAddr ∈ input.meets) (hnone : n.peerStates.lookup peerAddr = none)
    (payload : List UInt8) {state : PeerState S} (hstate : state.session = none)
    (hcompleted : ∀ key, state.completes payload = some key → (peerAddr, key) ∈ completed) :
    Changes f64 scope input heard completed [peerAddr] n
      (Exec.stateAfter (advanceHandshake env peerAddr payload state n)) := by
  have hgreet : ∀ message, Change f64 scope input heard completed [] n
      { n with outbox := n.outbox ++ [hello peerAddr message] } :=
    fun message => .greet peerAddr message hmeets (.inr (by rw [session, hnone]; rfl))
  cases state with
  | initiatorWaitMsg2 handshake =>
    rw [advanceHandshake, Exec.bind_apply, Exec.call]
    cases hresult : NoiseHandshake.processMessage2CreateMessage3 payload handshake with
    | ok msg3 handshake' =>
      refine .after_quiet (hgreet msg3) (changes_completeHandshake
        (n := { n with outbox := n.outbox ++ [hello peerAddr msg3] }) hmeets hnone handshake'
        fun keys hkeys => hcompleted _ ?_)
      rw [PeerState.completes, hresult]
      exact completedKey_of_intoSessionKeys hkeys
    | error e handshake' => cases e <;> exact Std.Refl.refl n
  | responderWaitMsg1 handshake =>
    rw [advanceHandshake, Exec.bind_apply, Exec.call]
    cases NoiseHandshake.processMessage1CreateMessage2 env.ephemeral payload handshake with
    | ok msg2 handshake' =>
      exact .after_quiet (hgreet msg2) (.quiet (.await peerAddr _ hmeets rfl (.inr hnone)))
    | error e handshake' => cases e <;> exact Std.Refl.refl n
  | responderWaitMsg3 handshake =>
    rw [advanceHandshake, Exec.bind_apply, Exec.call]
    cases hresult : NoiseHandshake.processMessage3 payload handshake with
    | ok _ handshake' =>
      refine changes_completeHandshake hmeets hnone handshake' fun keys hkeys => hcompleted _ ?_
      rw [PeerState.completes, hresult]
      exact completedKey_of_intoSessionKeys hkeys
    | error e handshake' => cases e <;> exact Std.Refl.refl n
  | secure session => cases hstate

/-- What a handshake frame changes. -/
theorem changes_handleHandshake (env : Env σ) {peerAddr : SocketAddr}
    (hmeets : peerAddr ∈ input.meets) (payload : List UInt8)
    (hcompleted : ∀ key, (n.peerStates.lookup peerAddr).bind (·.completes payload) = some key →
      (peerAddr, key) ∈ completed) :
    Changes f64 scope input heard completed [peerAddr] n
      (Exec.stateAfter (handleHandshake env peerAddr payload n)) := by
  rw [handleHandshake, Exec.get_bind_apply]
  cases hlookup : n.peerStates.lookup peerAddr with
  | none => exact Std.Refl.refl n
  | some state =>
    rw [hlookup] at hcompleted
    cases hstate : state.session with
    | none =>
      have hsession : n.session peerAddr = none := by
        rw [session, hlookup]
        exact hstate
      have hremove : Change f64 scope input heard completed [] n _ :=
        .remove peerAddr hmeets (.inr hsession)
      exact .after_quiet hremove (changes_advanceHandshake env hmeets (AList.lookup_erase _ _)
        payload hstate hcompleted)
    | some session =>
      cases state with
      | secure session' => exact .quiet (.putBack peerAddr _ hlookup)
      | _ => cases hstate

/-! ## Frames on a session -/

/-- What filing a contact changes. -/
theorem changes_routingInsert (now : Nat) {peerId : PeerId} {addr : SocketAddr}
    (hnames : input.Names heard (peerId, addr)) :
    Exec.Moves (Changes f64 scope input heard completed [])
      (routingInsert f64 now peerId addr : ControlM S F Unit) := by
  intro n
  have hchange : Change f64 scope input heard completed [] n _ := .file peerId addr now hnames
  rw [routingInsert, Exec.get_bind_apply, Exec.bind_apply, Exec.call]
  cases hresult : RoutingTable.insert f64 peerId addr now n.routingTable with
  | ok inserted table =>
    rw [hresult] at hchange
    exact .quiet hchange
  | error e table =>
    rw [hresult] at hchange
    cases e with
    | error e => exact .quiet hchange
    | panicked => exact Std.Refl.refl n
    | blocked => exact Std.Refl.refl n

/-- What an announcement changes. -/
theorem changes_announce (now : Nat) {peerAddr : SocketAddr} {data : List UInt8}
    (hnames : ∀ contact ∈ filedBy peerAddr .pong data, input.Names heard contact) :
    Exec.Moves (Changes f64 scope input heard completed [])
      (announce f64 now peerAddr data : ControlM S F Unit) := by
  rw [announce]
  split
  case isFalse => exact Exec.moves_pure _
  case isTrue hlength =>
    intro n
    rw [Exec.bind_apply, Exec.copyFromSlice_of_length hlength]
    refine changes_routingInsert now (hnames _ ?_) n
    simp [filedBy, hlength]

/-- What a ping changes. -/
theorem changes_handlePing (now : Nat) {peerAddr : SocketAddr} {frame : Frame}
    (hinput : input = .event (.frameReceived peerAddr frame)) (hping : frame.header.msgType = .ping)
    (hscope : peerAddr ∈ scope) {data : List UInt8}
    (hnames : ∀ contact ∈ filedBy peerAddr .ping data, input.Names heard contact) :
    Exec.Moves (Changes f64 scope input heard completed [peerAddr])
      (handlePing f64 now peerAddr data : ControlM S F Unit) := by
  refine (changes_announce now hnames).quiet_bind fun _ => ?_
  split
  · exact Exec.moves_get_bind fun n =>
      changes_sendEncrypted hscope (.pong peerAddr frame hinput hping)
  · exact Exec.moves_pure _

/-- What a request for peers changes. -/
theorem changes_handleFindNode {peerAddr : SocketAddr} (hscope : peerAddr ∈ scope)
    {d : Dispatch} (hheard : heard = some d) (htype : d.msgType = .findNode) :
    Exec.Moves (Changes f64 scope input heard completed [peerAddr])
      (handleFindNode peerAddr d.data : ControlM S F Unit) := by
  intro n
  rw [handleFindNode, Exec.bind_apply]
  cases hdecode : FindNode.decode d.data with
  | ok request =>
    exact changes_sendEncrypted hscope (.answer ⟨request.target⟩ d hheard ⟨htype, hdecode⟩)
  | error e => cases e <;> exact Std.Refl.refl n

/-- What filing several contacts changes. -/
theorem changes_filePeers (now : Nat) {peers : List (Vector UInt8 32 × SocketAddr)}
    (hnames : ∀ peer ∈ peers, input.Names heard (⟨peer.1⟩, peer.2)) :
    Exec.Moves (Changes f64 scope input heard completed [])
      (filePeers f64 now peers : ControlM S F Unit) := by
  induction peers with
  | nil => exact Exec.moves_pure _
  | cons peer peers ih =>
    obtain ⟨hpeer, hpeers⟩ := List.forall_mem_cons.mp hnames
    refine (changes_routingInsert now hpeer).bind fun _ => Exec.moves_get_bind fun n => ?_
    split
    case isTrue hpending =>
      have hchange : Change f64 scope input heard completed [] n _ := .dial _ peer.2 hpending hpeer
      exact .after_quiet hchange (ih hpeers _)
    case isFalse => exact ih hpeers n

/-- What an answer with peers changes. -/
theorem changes_handleFindNodeResp (now : Nat) {peerAddr : SocketAddr} {data : List UInt8}
    (hnames : ∀ contact ∈ filedBy peerAddr .findNodeResp data, input.Names heard contact) :
    Exec.Moves (Changes f64 scope input heard completed [])
      (handleFindNodeResp f64 now data : ControlM S F Unit) := by
  intro n
  rw [handleFindNodeResp, Exec.bind_apply]
  cases hdecode : FindNodeResp.decode data with
  | ok resp =>
    refine changes_filePeers now (fun peer hpeer => hnames _ ?_) n
    simp only [filedBy, hdecode]
    exact List.mem_map.mpr ⟨peer, hpeer, rfl⟩
  | error e => cases e <;> exact Std.Refl.refl n

/-- What an offer changes. -/
theorem changes_handleFileOffer {peerAddr : SocketAddr} (hscope : peerAddr ∈ scope)
    (hmanager : input.ForManager) (data : List UInt8) :
    Exec.Moves (Changes f64 scope input heard completed [])
      (handleFileOffer peerAddr data : ControlM S F Unit) := by
  refine (Exec.moves_okValue _).bind fun offer => ?_
  cases offer with
  | some offer =>
    have hscope := List.forall_mem_singleton.mpr hscope
    exact (changes_report (.apiEvent (.fileOfferReceived _ _ _)) trivial hscope).bind
      fun _ => changes_report (.handleOffer _ _) hmanager hscope
  | none => exact Exec.moves_pure _

/-- What a text changes. -/
theorem changes_handleData {peerAddr : SocketAddr} {frame : Frame}
    (hinput : input = .event (.frameReceived peerAddr frame)) (hdata : frame.header.msgType = .data)
    (hscope : peerAddr ∈ scope) (data : List UInt8) :
    Exec.Moves (Changes f64 scope input heard completed [])
      (handleData peerAddr data : ControlM S F Unit) := by
  rw [handleData]
  split
  · exact changes_report (.apiEvent _) ⟨frame, hinput, hdata⟩ (List.forall_mem_singleton.mpr hscope)
  · exact Exec.moves_pure _

/-- A decrypted frame touches the peer that sent it. -/
theorem changes_dispatch (now : Nat) {peerAddr : SocketAddr} {frame : Frame}
    (hinput : input = .event (.frameReceived peerAddr frame)) (hscope : peerAddr ∈ scope)
    {d : Dispatch} (hheard : heard = some d) (hmsg : d.msgType = frame.header.msgType) :
    Exec.Moves (Changes f64 scope input heard completed [peerAddr])
      (dispatch f64 now peerAddr d.msgType d.data : ControlM S F Unit) := by
  have hnames : ∀ contact ∈ filedBy peerAddr d.msgType d.data, input.Names heard contact := by
    refine fun contact hcontact => ⟨peerAddr, ?_, d, hheard, hcontact⟩
    rw [hinput]
    exact List.mem_singleton_self _
  have hmanager : d.msgType ∈ transferTypes → input.ForManager := by
    intro hmem
    rw [hinput, Input.ForManager, ← hmsg]
    exact hmem
  cases htype : d.msgType with
  | fileOffer =>
    have hfor := hmanager (htype ▸ by decide)
    exact (changes_handleFileOffer hscope hfor d.data).mono (List.nil_sublist _)
  | fileAccept | fileChunk | fileChunkAck | creditUpdate =>
    have hfor := hmanager (htype ▸ by decide)
    exact changes_report (.handleTransfer _ d.data) hfor (List.forall_mem_nil _)
  | data =>
    exact (changes_handleData hinput (hmsg ▸ htype) hscope d.data).mono (List.nil_sublist _)
  | ping =>
    rw [htype] at hnames
    exact changes_handlePing now hinput (hmsg ▸ htype) hscope hnames
  | pong =>
    rw [htype] at hnames
    exact (changes_announce now hnames).mono (List.nil_sublist _)
  | findNode => exact changes_handleFindNode hscope hheard htype
  | findNodeResp =>
    rw [htype] at hnames
    exact (changes_handleFindNodeResp now hnames).mono (List.nil_sublist _)
  | _ => exact Exec.moves_pure _

/-- What an encrypted frame changes. -/
theorem changes_handleSecureFrame (now : Nat) {peerAddr : SocketAddr} {frame : Frame}
    (hinput : input = .event (.frameReceived peerAddr frame)) (hscope : peerAddr ∈ scope)
    (hmsg : frame.header.msgType ≠ .handshake) :
    Changes f64 scope input (n.dispatched input) completed [peerAddr] n
      (Exec.stateAfter (handleSecureFrame f64 now peerAddr frame n)) := by
  rw [handleSecureFrame, Exec.get_bind_apply]
  cases hsession : n.session peerAddr with
  | none => exact Std.Refl.refl n
  | some session =>
    simp only
    split
    case isFalse => exact Std.Refl.refl n
    case isTrue hencrypted =>
      have hchange : Change f64 scope input (n.dispatched input) completed [] n _ :=
        .decrypt peerAddr frame session hinput hsession
      refine Exec.traced_quiet_bind (.quiet hchange) fun _ => ?_
      cases hopened : (session.decrypt S.aead frame.header.requestId frame.payload).1 with
      | ok data =>
        have hheard : n.dispatched input = some ⟨session.recvKey, frame.header.msgType, data⟩ := by
          rw [hinput, dispatched, if_neg hmsg, hsession]
          simp only [hencrypted, if_true, hopened]
        exact changes_dispatch now hinput hscope hheard rfl
      | error e => exact Exec.moves_pure _

/-! ## An iteration -/

/-- What an event of the transport changes. -/
theorem changes_handleEvent (env : Env σ) (event : TransportEvent) :
    Changes f64 (n.concerned (.event event)) (.event event) (n.dispatched (.event event))
      (n.established (.event event)) (n.concerned (.event event)) n
      (Exec.stateAfter (handleEvent f64 env event n)) := by
  cases event with
  | connected peerAddr =>
    have hreport : Change f64 [peerAddr] (.event (.connected peerAddr)) none [] [] n _ :=
      .report (.apiEvent (.peerConnected peerAddr)) trivial fun _ h => h
    refine .after_quiet hreport ?_
    change Changes f64 _ _ _ _ _ _ (Exec.stateAfter ((if peerAddr ∈ n.peerStates then
      (pure () : ControlM S F Unit) else _) _))
    split
    · exact Std.Refl.refl _
    case isFalse habsent =>
      exact .quiet (.await peerAddr _ List.mem_cons_self rfl
        (.inr (AList.lookup_eq_none.mpr habsent)))
  | disconnected peerAddr reason =>
    have hreport : Change f64 [peerAddr] (.event (.disconnected peerAddr reason)) none [] [] n _ :=
      .report (.apiEvent (.peerDisconnected peerAddr reason)) trivial fun _ h => h
    exact .after_quiet hreport
      (.quiet (.remove peerAddr List.mem_cons_self (.inl List.mem_cons_self)))
  | error peerAddr error =>
    cases peerAddr with
    | none => exact Std.Refl.refl n
    | some addr => exact .quiet (.remove addr List.mem_cons_self (.inl List.mem_cons_self))
  | frameReceived peerAddr frame =>
    rw [handleEvent]
    split
    case isTrue hmsg =>
      refine changes_handleHandshake env List.mem_cons_self frame.payload fun key hkey => ?_
      rw [established, if_pos hmsg, hkey]
      exact List.mem_singleton_self _
    case isFalse hmsg => exact changes_handleSecureFrame env.now rfl List.mem_cons_self hmsg

/-- What an iteration does. -/
theorem changes_step (env : Env σ) (input : Input) :
    Changes f64 (n.concerned input) input (n.dispatched input) (n.established input)
      (n.concerned input) n (Exec.stateAfter (step f64 env input n)) := by
  cases input with
  | command command => exact changes_handleCommand env command
  | event event => exact changes_handleEvent env event
  | transferFrame peerAddr frame =>
    exact changes_sendEncrypted List.mem_cons_self (.transfer peerAddr frame rfl)

/-- No address is written to twice. -/
theorem nodup_contact (n : ControlPlane S F) (id : PeerId) : (n.contact id).Nodup := by
  rw [contact]
  split
  · exact List.nodup_singleton _
  · exact List.nodup_nil

/-- An input names no address twice. -/
theorem nodup_concerned (n : ControlPlane S F) (input : Input) : (n.concerned input).Nodup := by
  cases input with
  | event event =>
    rw [concerned]
    cases event.peer with
    | none => exact List.nodup_nil
    | some addr => exact List.nodup_singleton addr
  | transferFrame peerAddr frame => exact List.nodup_singleton peerAddr
  | command command =>
    cases command with
    | connectPeerId peerIdHex => exact n.peerStates.keys_nodup
    | sendMessagePeerId target message =>
      rw [concerned, contactOf]
      split
      · exact n.nodup_contact _
      · exact List.nodup_nil
    | _ => exact List.nodup_singleton _

end

end ControlPlane

end Node

end CekyP2P
