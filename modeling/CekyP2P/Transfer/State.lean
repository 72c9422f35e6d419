import CekyP2P.Protocol.Transfer

/-!
# State of active transfers

A memory map is the list of its bytes. SHA-256 is a parameter of the functions
that hash.
-/

namespace CekyP2P.Transfer

open Protocol

/-- The addresses of both families. -/
inductive IpAddr
  | v4 (octets : Vector UInt8 4)
  | v6 (octets : Vector UInt8 16)
  deriving DecidableEq

/-- `Ipv4Addr::new`. -/
def Ipv4Addr.new (a b c d : UInt8) : Vector UInt8 4 := #v[a, b, c, d]

/-- An address with a port. -/
structure SocketAddr where
  ip : IpAddr
  port : UInt16
  deriving DecidableEq

/-- A path is its text. -/
structure PathBuf where
  text : String
  deriving DecidableEq

/-- `Path::join`: an absolute argument replaces the base, and a separator is added where
the base does not end in one. -/
def PathBuf.join (base : PathBuf) (name : String) : PathBuf :=
  if name.toList.head? = some '/' then ⟨name⟩
  else if base.text = "" ∨ base.text.toList.getLast? = some '/' then ⟨base.text ++ name⟩
  else ⟨base.text ++ "/" ++ name⟩

/-- State for a transfer where we are sending a file. -/
structure SendingState where
  peer : SocketAddr
  fileMap : List UInt8
  bitfield : List UInt8
  credits : UInt32
  chunkSize : UInt32
  totalChunks : UInt32
  currentChunkIdx : UInt32
  deriving DecidableEq

/-- State for a transfer where we are receiving a file. -/
structure ReceivingState where
  peer : SocketAddr
  fileMap : List UInt8
  expectedRoot : Vector UInt8 32
  bitfield : List UInt8
  chunkSize : UInt32
  totalChunks : UInt32
  receivedChunks : UInt32
  filePath : PathBuf
  deriving DecidableEq

/-- A transfer is sent or received. -/
inductive TransferState
  | sending (state : SendingState)
  | receiving (state : ReceivingState)
  deriving DecidableEq

/-! ## Hashes -/

section

variable (sha256 : List UInt8 → Vector UInt8 32)

/-- SHA-256 of a single chunk. -/
def hashChunk (data : List UInt8) : Vector UInt8 32 := sha256 data

/-- The chunk hashes that `calculate_file_hash` feeds to the root hasher: one for each
full buffer and one for a shorter last one. -/
def chunkHashes (chunkSize : Nat) (rest : List UInt8) : List UInt8 :=
  let buffer := rest.take chunkSize
  if _hempty : buffer.length = 0 then []
  else (hashChunk sha256 buffer).toList ++ chunkHashes chunkSize (rest.drop chunkSize)
termination_by rest.length
decreasing_by
  simp only [buffer, List.length_take] at _hempty
  simp only [List.length_drop]
  omega

/-- The root of a file: the hash of its concatenated chunk hashes. -/
def calculateFileHash (file : List UInt8) (chunkSize : UInt32) : Vector UInt8 32 :=
  sha256 (chunkHashes sha256 chunkSize.toNat file)

end

/-! ## Offsets -/

/-- Start of a chunk as both sides compute it: the product is taken in 32 bits. -/
def chunkStart (chunkIndex chunkSize : UInt32) : Nat := (chunkIndex * chunkSize).toNat

/-- End of a chunk on the sending side. -/
def chunkEnd (fileLen : Nat) (chunkIndex chunkSize : UInt32) : Nat :=
  min (chunkStart chunkIndex chunkSize + chunkSize.toNat) fileLen

end CekyP2P.Transfer
