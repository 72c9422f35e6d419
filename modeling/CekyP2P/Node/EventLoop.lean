import CekyP2P.Core.FiniteMap
import CekyP2P.Crypto.Noise
import CekyP2P.Crypto.Session
import CekyP2P.Dht.Routing
import CekyP2P.Protocol.Dht
import CekyP2P.Protocol.TransferCodec
import CekyP2P.Transport.Connection

/-!
# The event loop of a node

The control plane: a handshake or a session for each connected address, the routing table,
and the lookups that wait for an answer. One call of `step` is one iteration of the loop. What
the transport answers, the time and the fresh ephemeral secrets are arguments, and what the
loop sends is logged. The transfer manager is a component of its own: the log has what is
handed to it, and the frames that it wants sent are inputs.
-/

namespace CekyP2P.Node

open Crypto Dht Protocol Transfer Transport

variable {σ : Type}

/-- How far the handshake with a peer has come. -/
inductive PeerState (S : Suite UInt8 σ)
  | initiatorWaitMsg2 (handshake : NoiseHandshake S)
  | responderWaitMsg1 (handshake : NoiseHandshake S)
  | responderWaitMsg3 (handshake : NoiseHandshake S)
  | secure (session : SecureSession)

/-- Commands sent from the API to the event loop. -/
inductive ApiCommand
  | connect (addr : SocketAddr)
  | connectPeerId (peerIdHex : String)
  | sendFile (target : SocketAddr) (filePath : PathBuf)
  | sendMessage (target : SocketAddr) (message : String)
  | sendMessagePeerId (target : String) (message : String)
  deriving DecidableEq

/-- Events for the subscribers of the API. -/
inductive ApiEvent
  | peerConnected (peer : SocketAddr)
  | peerDisconnected (peer : SocketAddr) (reason : String)
  | fileOfferReceived (peer : SocketAddr) (fileName : String) (totalSize : UInt64)
  | messageReceived (peer : SocketAddr) (message : String)
  deriving DecidableEq

/-- What the loop sends, reports and starts. -/
inductive Output
  | sendTo (addr : SocketAddr) (frame : Frame)
  /-- A command for the loop's own channel. -/
  | command (command : ApiCommand)
  | apiEvent (event : ApiEvent)
  | offerFile (target : SocketAddr) (filePath : PathBuf) (chunkSize : UInt32)
  | handleOffer (peer : SocketAddr) (offer : FileOffer)
  /-- The payload of another transfer message. -/
  | handleTransfer (msgType : MessageType) (data : List UInt8)
  deriving DecidableEq

/-- The state of the loop. -/
structure ControlPlane (S : Suite UInt8 σ) (F : Type) where
  identity : Identity S
  /-- `identity.peer_id`. -/
  peerId : PeerId
  /-- `config.tcp_addr`. -/
  tcpAddr : SocketAddr
  routingTable : RoutingTable F
  peerStates : AList fun _ : SocketAddr => PeerState S
  pendingDhtConnects : Finset PeerId
  outbox : List Output

/-- What the environment answers during an iteration. -/
structure Env (σ : Type) where
  /-- `connect` succeeds. -/
  connected : Bool
  /-- `send_to` succeeds. -/
  sent : Bool
  /-- The ephemeral secret that a handshake draws. -/
  ephemeral : σ
  now : Nat

/-- What the loop waits for. -/
inductive Input
  | command (command : ApiCommand)
  | event (event : TransportEvent)
  /-- A frame of the transfer manager. -/
  | transferFrame (peerAddr : SocketAddr) (frame : Frame)
  deriving DecidableEq

/-- `hex::decode` of one character. -/
def hexDigit (c : UInt8) : Option UInt8 :=
  if 0x41 ≤ c ∧ c ≤ 0x46 then some (c - 0x41 + 10)
  else if 0x61 ≤ c ∧ c ≤ 0x66 then some (c - 0x61 + 10)
  else if 0x30 ≤ c ∧ c ≤ 0x39 then some (c - 0x30)
  else none

/-- Decode pairs of digits. -/
def hexPairs : List UInt8 → Option (List UInt8)
  | [] => some []
  | [_] => none
  | high :: low :: rest => do
    let high ← hexDigit high
    let low ← hexDigit low
    let bytes ← hexPairs rest
    some ((high <<< 4 ||| low) :: bytes)

/-- `hex::decode`. -/
def hexDecode (s : String) : Option (List UInt8) := hexPairs (utf8Bytes s)

namespace PeerState

/-- The session of a peer, once the handshake is complete. -/
def session {S : Suite UInt8 σ} : PeerState S → Option SecureSession
  | secure session => some session
  | _ => none

end PeerState

/-- A branch of the event loop; it has no error value to return. -/
abbrev ControlM (S : Suite UInt8 σ) (F α : Type) := Exec Empty (ControlPlane S F) α

namespace ControlPlane

variable {S : Suite UInt8 σ} {F : Type}

/-- The state before the loop. The handshakes with the seeds are started as `Connect` starts
one. -/
def start (identity : Identity S) (peerId : PeerId) (tcpAddr : SocketAddr) (now : Nat) :
    ControlPlane S F where
  identity := identity
  peerId := peerId
  tcpAddr := tcpAddr
  routingTable := .new peerId now
  peerStates := ∅
  pendingDhtConnects := ∅
  outbox := []

/-- The session with an address, where the handshake is complete. -/
def session (n : ControlPlane S F) (addr : SocketAddr) : Option SecureSession :=
  (n.peerStates.lookup addr).bind PeerState.session

/-- Add to what the loop has sent. -/
def emit (output : Output) : ControlM S F Unit :=
  modify fun n => { n with outbox := n.outbox ++ [output] }

/-- Store the state of a peer. -/
def insertState (addr : SocketAddr) (state : PeerState S) : ControlM S F Unit :=
  modify fun n => { n with peerStates := n.peerStates.insert addr state }

/-- Forget the state of a peer. -/
def removeState (addr : SocketAddr) : ControlM S F Unit :=
  modify fun n => { n with peerStates := n.peerStates.erase addr }

/-- An encrypted frame, if the call of `encrypt` succeeded. -/
def emitEncrypted (addr : SocketAddr) (msgType : MessageType) :
    Except CryptoError (UInt64 × List UInt8) → ControlM S F Unit
  | .ok (encNonce, ciphertext) =>
    emit (.sendTo addr (.new msgType Flags.empty.withEncrypted encNonce ciphertext))
  | .error _ => pure ()

/-- Encrypt under the session with an address and send; every branch that sends on a session
has these lines. -/
def sendEncrypted (addr : SocketAddr) (msgType : MessageType) (data : List UInt8) :
    ControlM S F Unit := do
  let n ← get
  match n.session addr with
  | some session => do
    let encrypted := session.encrypt S.aead data
    insertState addr (.secure encrypted.2)
    emitEncrypted addr msgType encrypted.1
  | none => pure ()

/-- Send to several peers, one after the other. -/
def sendEncryptedAll (msgType : MessageType) (data : List UInt8) :
    List SocketAddr → ControlM S F Unit
  | [] => pure ()
  | addr :: addrs => do
    sendEncrypted addr msgType data
    sendEncryptedAll msgType data addrs

/-! ## Commands -/

/-- Dial an address and send the first message of the handshake. -/
def connect (env : Env σ) (addr : SocketAddr) : ControlM S F Unit := do
  if env.connected then do
    let n ← get
    let (result, handshake) ← Exec.call (NoiseHandshake.createMessage1 env.ephemeral)
      (NoiseHandshake.newInitiator n.identity)
    match result with
    | .ok msg1 => do
      emit (.sendTo addr (.new .handshake Flags.empty 0 msg1))
      if env.sent then insertState addr (.initiatorWaitMsg2 handshake) else pure ()
    | .error _ => pure ()
  else pure ()

/-- Look a peer up in the routing table. -/
def routingGet (peerId : PeerId) : ControlM S F (Option (PeerInfo F)) := do
  let n ← get
  let (result, _) ← Exec.call (RoutingTable.get peerId) n.routingTable
  match result with
  | .ok found => pure found
  | .error _ => pure none

/-- Look for a peer by its identifier: connect to it if it is known, or ask every peer with a
session. -/
def connectPeerId (peerIdHex : String) : ControlM S F Unit := do
  match hexDecode peerIdHex with
  | some bytes =>
    if bytes.length = 32 then do
      let id ← Exec.copyFromSlice 32 bytes
      match ← routingGet ⟨id⟩ with
      | some peerInfo => emit (.command (.connect peerInfo.addr))
      | none => do
        let n ← get
        sendEncryptedAll .findNode (FindNode.encode ⟨id⟩) n.peerStates.keys
        modify fun n => { n with pendingDhtConnects := insert ⟨id⟩ n.pendingDhtConnects }
    else pure ()
  | none => pure ()

/-- Offer a file to a peer whose state is known. -/
def sendFile (target : SocketAddr) (filePath : PathBuf) : ControlM S F Unit := do
  let n ← get
  if target ∈ n.peerStates then emit (.offerFile target filePath 1000) else pure ()

/-- Send a text to an address. -/
def sendMessage (target : SocketAddr) (message : String) : ControlM S F Unit :=
  sendEncrypted target .data (utf8Bytes message)

/-- Unlike `ConnectPeerId`, the length of the identifier is not checked before it is copied. -/
def sendMessagePeerId (target message : String) : ControlM S F Unit := do
  match hexDecode target with
  | some bytes => do
    let idBytes ← Exec.copyFromSlice 32 bytes
    match ← routingGet ⟨idBytes⟩ with
    | some peerInfo => sendEncrypted peerInfo.addr .data (utf8Bytes message)
    | none => pure ()
  | none => pure ()

/-- The loop's branch for commands. -/
def handleCommand (env : Env σ) : ApiCommand → ControlM S F Unit
  | .connect addr => connect env addr
  | .connectPeerId peerIdHex => connectPeerId peerIdHex
  | .sendFile target filePath => sendFile target filePath
  | .sendMessage target message => sendMessage target message
  | .sendMessagePeerId target message => sendMessagePeerId target message

/-! ## Handshakes -/

/-- The session of a complete handshake; the first frame on it announces our identifier. -/
def completeHandshake (peerAddr : SocketAddr) (handshake : NoiseHandshake S) :
    ControlM S F Unit := do
  let n ← get
  match handshake.intoSessionKeys with
  | .ok keys => do
    let announced := (SecureSession.fromKeys keys).encrypt S.aead n.peerId.bytes.toList
    emitEncrypted peerAddr .ping announced.1
    insertState peerAddr (.secure announced.2)
  | .error _ => pure ()

/-- The next step of a handshake, after its state was taken out of the map. -/
def advanceHandshake (env : Env σ) (peerAddr : SocketAddr) (payload : List UInt8) :
    PeerState S → ControlM S F Unit
  | .initiatorWaitMsg2 handshake => do
    let (result, handshake) ←
      Exec.call (NoiseHandshake.processMessage2CreateMessage3 payload) handshake
    match result with
    | .ok msg3 => do
      emit (.sendTo peerAddr (.new .handshake Flags.empty 0 msg3))
      completeHandshake peerAddr handshake
    | .error _ => pure ()
  | .responderWaitMsg1 handshake => do
    let (result, handshake) ←
      Exec.call (NoiseHandshake.processMessage1CreateMessage2 env.ephemeral payload) handshake
    match result with
    | .ok msg2 => do
      emit (.sendTo peerAddr (.new .handshake Flags.empty 0 msg2))
      insertState peerAddr (.responderWaitMsg3 handshake)
    | .error _ => pure ()
  | .responderWaitMsg3 handshake => do
    let (result, handshake) ← Exec.call (NoiseHandshake.processMessage3 payload) handshake
    match result with
    | .ok () => completeHandshake peerAddr handshake
    | .error _ => pure ()
  | .secure session => insertState peerAddr (.secure session)

/-- A handshake frame takes the state of its peer further. -/
def handleHandshake (env : Env σ) (peerAddr : SocketAddr) (payload : List UInt8) :
    ControlM S F Unit := do
  let n ← get
  match n.peerStates.lookup peerAddr with
  | some state => do
    removeState peerAddr
    advanceHandshake env peerAddr payload state
  | none => pure ()

/-! ## Frames on a session -/

variable (f64 : F64 F)

/-- `let _ = routing_table.insert(..)`. -/
def routingInsert (now : Nat) (peerId : PeerId) (addr : SocketAddr) : ControlM S F Unit := do
  let n ← get
  let (_, routingTable) ← Exec.call (RoutingTable.insert f64 peerId addr now) n.routingTable
  modify fun n => { n with routingTable }

/-- An identifier that a peer announces of itself; other lengths are ignored. -/
def announce (now : Nat) (peerAddr : SocketAddr) (data : List UInt8) : ControlM S F Unit := do
  if data.length = 32 then do
    let idBytes ← Exec.copyFromSlice 32 data
    routingInsert f64 now ⟨idBytes⟩ peerAddr
  else pure ()

/-- A ping with an identifier is answered with our own. -/
def handlePing (now : Nat) (peerAddr : SocketAddr) (data : List UInt8) : ControlM S F Unit := do
  announce f64 now peerAddr data
  if data.length = 32 then do
    let n ← get
    sendEncrypted peerAddr .pong n.peerId.bytes.toList
  else pure ()

/-- The peers that answer a lookup. -/
def closestPeers (n : ControlPlane S F) (target : PeerId) : List (Vector UInt8 32 × SocketAddr) :=
  if target = n.peerId then [(n.peerId.bytes, n.tcpAddr)]
  else (n.routingTable.findClosest target 20).map fun p => (p.peerId.bytes, p.addr)

/-- A request is answered with the closest peers. -/
def handleFindNode (peerAddr : SocketAddr) (data : List UInt8) : ControlM S F Unit := do
  match ← Exec.okValue (FindNode.decode data) with
  | some request => do
    let n ← get
    sendEncrypted peerAddr .findNodeResp (FindNodeResp.encode ⟨n.closestPeers ⟨request.target⟩⟩)
  | none => pure ()

/-- The loop over the peers of a response: each is filed under the address given for it. -/
def filePeers (now : Nat) : List (Vector UInt8 32 × SocketAddr) → ControlM S F Unit
  | [] => pure ()
  | (idBytes, addr) :: peers => do
    routingInsert f64 now ⟨idBytes⟩ addr
    let n ← get
    if ⟨idBytes⟩ ∈ n.pendingDhtConnects then do
      set { n with pendingDhtConnects := n.pendingDhtConnects.erase ⟨idBytes⟩ }
      emit (.command (.connect addr))
    else pure ()
    filePeers now peers

/-- The peers of an answer are filed. -/
def handleFindNodeResp (now : Nat) (data : List UInt8) : ControlM S F Unit := do
  match ← Exec.okValue (FindNodeResp.decode data) with
  | some resp => filePeers f64 now resp.peers
  | none => pure ()

/-- An offer is reported and handed to the manager. -/
def handleFileOffer (peerAddr : SocketAddr) (data : List UInt8) : ControlM S F Unit := do
  match ← Exec.okValue (FileOffer.decode data) with
  | some offer => do
    emit (.apiEvent (.fileOfferReceived peerAddr offer.fileName offer.fileSize))
    emit (.handleOffer peerAddr offer)
  | none => pure ()

/-- A text is reported. -/
def handleData (peerAddr : SocketAddr) (data : List UInt8) : ControlM S F Unit :=
  match String.fromUTF8? ⟨data.toArray⟩ with
  | some message => emit (.apiEvent (.messageReceived peerAddr message))
  | none => pure ()

/-- What happens with a frame that was decrypted. -/
def dispatch (now : Nat) (peerAddr : SocketAddr) (msgType : MessageType) (data : List UInt8) :
    ControlM S F Unit :=
  match msgType with
  | .fileOffer => handleFileOffer peerAddr data
  | .fileAccept | .fileChunk | .fileChunkAck | .creditUpdate => emit (.handleTransfer msgType data)
  | .data => handleData peerAddr data
  | .ping => handlePing f64 now peerAddr data
  | .pong => announce f64 now peerAddr data
  | .findNode => handleFindNode peerAddr data
  | .findNodeResp => handleFindNodeResp f64 now data
  | _ => pure ()

/-- A frame other than a handshake message counts only encrypted and on a session. -/
def handleSecureFrame (now : Nat) (peerAddr : SocketAddr) (frame : Frame) :
    ControlM S F Unit := do
  let n ← get
  match n.session peerAddr with
  | some session =>
    if frame.header.flags.isEncrypted then do
      let opened := session.decrypt S.aead frame.header.requestId frame.payload
      insertState peerAddr (.secure opened.2)
      match opened.1 with
      | .ok data => dispatch f64 now peerAddr frame.header.msgType data
      | .error _ => pure ()
    else pure ()
  | none => pure ()

/-- The loop's branch for events of the transport. -/
def handleEvent (env : Env σ) : TransportEvent → ControlM S F Unit
  | .connected peerAddr => do
    emit (.apiEvent (.peerConnected peerAddr))
    let n ← get
    if peerAddr ∈ n.peerStates then pure ()
    else insertState peerAddr (.responderWaitMsg1 (NoiseHandshake.newResponder n.identity))
  | .disconnected peerAddr reason => do
    emit (.apiEvent (.peerDisconnected peerAddr reason))
    removeState peerAddr
  | .frameReceived peerAddr frame =>
    if frame.header.msgType = .handshake then handleHandshake env peerAddr frame.payload
    else handleSecureFrame f64 env.now peerAddr frame
  | .error (some addr) _ => removeState addr
  | .error none _ => pure ()

/-- One iteration of the event loop. -/
def step (env : Env σ) : Input → ControlM S F Unit
  | .command command => handleCommand env command
  | .event event => handleEvent f64 env event
  | .transferFrame peerAddr frame => sendEncrypted peerAddr frame.header.msgType frame.payload

/-- The states that a run of the loop passes through, every iteration of which meets `P`. A
panic ends the task. -/
inductive Reachable (P : ControlPlane S F → Input → Prop) (first : ControlPlane S F) :
    ControlPlane S F → Prop
  | start : Reachable P first first
  | step {n n' : ControlPlane S F} (env : Env σ) (input : Input) : Reachable P first n →
      P n input → step f64 env input n = .ok () n' → Reachable P first n'

/-- A state after further inputs, if no iteration on the way panics. -/
theorem Reachable.foldl {f64 : F64 F} {P : ControlPlane S F → Input → Prop}
    {first n : ControlPlane S F}
    (h : Reachable f64 P first n) (env : Env σ) {inputs : List Input}
    (halong : Along (fun n input => P n input ∧ Exec.isOk (ControlPlane.step f64 env input n))
      (fun n input => Exec.stateAfter (ControlPlane.step f64 env input n)) n inputs) :
    Reachable f64 P first
      (inputs.foldl (fun n input => Exec.stateAfter (ControlPlane.step f64 env input n)) n) := by
  refine Along.invariant (I := Reachable f64 P first) ?_ halong h
  rintro n input h ⟨hP, hok⟩
  exact h.step env input hP (Exec.eq_ok_of_isOk hok)

end ControlPlane

end CekyP2P.Node
