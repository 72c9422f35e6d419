import Mathlib.Data.UInt

/-!
# Frames

Message types, flags, headers and frames of the wire protocol.
-/

namespace CekyP2P.Protocol

/-- `MAGIC`. -/
def magic : UInt16 := 0xCE4B

/-- `VERSION`. -/
def version : UInt8 := 1

/-- `HEADER_SIZE`. -/
def headerSize : Nat := 21

/-- `MAX_PAYLOAD_SIZE`: 16 MB. -/
def maxPayloadSize : UInt32 := 16 * 1024 * 1024

/-- The types of messages. -/
inductive MessageType
  | handshake | ping | pong | disconnect
  | findNode | findNodeResp | store | storeResp | findValue | findValueResp
  | data | dataAck | creditUpdate | fileOffer | fileAccept | fileReject | fileChunk
  | fileChunkAck | fileComplete | fileCancel
  | natProbe | natProbeResp | holePunch | holePunchResp | relayRequest | relayData
  deriving DecidableEq

namespace MessageType

/-- The byte of a type. -/
def asByte : MessageType → UInt8
  | handshake => 0x01
  | ping => 0x02
  | pong => 0x03
  | disconnect => 0x04
  | findNode => 0x10
  | findNodeResp => 0x11
  | store => 0x12
  | storeResp => 0x13
  | findValue => 0x14
  | findValueResp => 0x15
  | data => 0x20
  | dataAck => 0x21
  | creditUpdate => 0x22
  | fileOffer => 0x23
  | fileAccept => 0x24
  | fileReject => 0x25
  | fileChunk => 0x26
  | fileChunkAck => 0x27
  | fileComplete => 0x28
  | fileCancel => 0x29
  | natProbe => 0x30
  | natProbeResp => 0x31
  | holePunch => 0x32
  | holePunchResp => 0x33
  | relayRequest => 0x34
  | relayData => 0x35

/-- The type of a byte. -/
def fromByte (b : UInt8) : Option MessageType :=
  match b with
  | 0x01 => some handshake
  | 0x02 => some ping
  | 0x03 => some pong
  | 0x04 => some disconnect
  | 0x10 => some findNode
  | 0x11 => some findNodeResp
  | 0x12 => some store
  | 0x13 => some storeResp
  | 0x14 => some findValue
  | 0x15 => some findValueResp
  | 0x20 => some data
  | 0x21 => some dataAck
  | 0x22 => some creditUpdate
  | 0x23 => some fileOffer
  | 0x24 => some fileAccept
  | 0x25 => some fileReject
  | 0x26 => some fileChunk
  | 0x27 => some fileChunkAck
  | 0x28 => some fileComplete
  | 0x29 => some fileCancel
  | 0x30 => some natProbe
  | 0x31 => some natProbeResp
  | 0x32 => some holePunch
  | 0x33 => some holePunchResp
  | 0x34 => some relayRequest
  | 0x35 => some relayData
  | _ => none

/-- The table of message types is read the same way in both directions. -/
theorem fromByte_eq_some {b : UInt8} {t : MessageType} : fromByte b = some t ↔ b = t.asByte := by
  constructor
  · intro h
    unfold fromByte at h
    split at h <;> cases h <;> rfl
  · rintro rfl
    cases t <;> rfl

end MessageType

/-- The flags byte; reserved bits are kept. -/
structure Flags where
  bits : UInt8
  deriving DecidableEq

namespace Flags

/-- `Flags::ENCRYPTED`. -/
def encrypted : UInt8 := 1

/-- No flag is set. -/
def empty : Flags := ⟨0⟩

/-- The payload is encrypted. -/
def isEncrypted (flags : Flags) : Bool := flags.bits &&& encrypted != 0

/-- The flags of an encrypted payload. -/
def withEncrypted (flags : Flags) : Flags := ⟨flags.bits ||| encrypted⟩

end Flags

/-- The header of a frame. -/
structure FrameHeader where
  magic : UInt16
  version : UInt8
  msgType : MessageType
  flags : Flags
  payloadLen : UInt32
  requestId : UInt64
  checksum : UInt32
  deriving DecidableEq

/-- A frame of the protocol. -/
structure Frame where
  header : FrameHeader
  payload : List UInt8
  deriving DecidableEq

/-- `Frame::new`; the checksum is computed during encoding. -/
def Frame.new (msgType : MessageType) (flags : Flags) (requestId : UInt64)
    (payload : List UInt8) : Frame where
  header :=
    { magic := Protocol.magic
      version := Protocol.version
      msgType, flags
      payloadLen := UInt32.ofNat payload.length
      requestId
      checksum := 0 }
  payload := payload

@[simp] theorem Frame.payload_new (msgType : MessageType) (flags : Flags) (requestId : UInt64)
    (payload : List UInt8) : (Frame.new msgType flags requestId payload).payload = payload := rfl

/-- `Frame::simple`: no flags and no payload. -/
def Frame.simple (msgType : MessageType) (requestId : UInt64) : Frame :=
  .new msgType .empty requestId []

/-- `wire_size`. -/
def Frame.wireSize (frame : Frame) : Nat := headerSize + frame.payload.length

/-- The errors of the codec and of the stream it reads. -/
inductive ProtocolError
  | invalidMagic (got : UInt16)
  | unsupportedVersion (version : UInt8)
  | unknownMessageType (code : UInt8)
  | payloadTooLarge (size : UInt32)
  | checksumMismatch (expected got : UInt32)
  | io (error : String)
  deriving DecidableEq

end CekyP2P.Protocol
