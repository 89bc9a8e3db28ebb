import InkHole.Names
import Mathlib.Algebra.Order.Ring.Nat

/-! The messages of a transfer, the records the receiver keeps of it, and the foreign
code their checks call. -/

namespace InkHole

abbrev Bytes := List UInt8

inductive TransferKind where
  | file
  | folderV1
  deriving DecidableEq, Repr

inductive FolderEntryKind where
  | file
  | directory
  deriving DecidableEq, Repr

structure FolderEntry where
  path : String
  kind : FolderEntryKind
  size : Nat
  modifiedMs : Int
  blake3 : String
  deriving DecidableEq, Repr

structure FolderManifest where
  version : Nat
  entries : List FolderEntry
  deriving DecidableEq, Repr

structure DeviceSummary where
  instanceId : String
  name : String
  publicKey : String
  deriving DecidableEq, Repr

/-- The fields of an offer that its signature covers. -/
structure SignableOffer where
  protocol : Nat
  transferId : String
  filename : String
  kind : TransferKind
  size : Nat
  modifiedMs : Int
  blake3 : String
  sender : DeviceSummary
  deriving DecidableEq, Repr

structure TransferOffer extends SignableOffer where
  signature : String
  deriving DecidableEq, Repr

structure TransferReceipt where
  transferId : String
  size : Nat
  blake3 : String
  deriving DecidableEq, Repr

inductive TransferResponse where
  | resume (offset : Nat)
  | folderResume (fileIndex : Nat) (offset : Nat) (completed : Nat)
  | complete (receipt : TransferReceipt)
  | rejected (error : CoreError)
  deriving DecidableEq, Repr

structure StoredOffer where
  transferId : String
  filename : String
  kind : TransferKind
  size : Nat
  modifiedMs : Int
  blake3 : String
  senderInstanceId : String
  senderPublicKey : String
  deriving DecidableEq, Repr

def StoredOffer.of (offer : TransferOffer) : StoredOffer where
  transferId := offer.transferId
  filename := safeFilename offer.filename
  kind := offer.kind
  size := offer.size
  modifiedMs := offer.modifiedMs
  blake3 := offer.blake3
  senderInstanceId := offer.sender.instanceId
  senderPublicKey := offer.sender.publicKey

structure CommitRecord where
  offer : StoredOffer
  destination : String
  manifest : Option FolderManifest
  deriving DecidableEq, Repr

structure DoneRecord where
  offer : StoredOffer
  destination : String
  receipt : TransferReceipt
  manifest : Option FolderManifest
  deriving DecidableEq, Repr

/-- The documents the receiver stores. -/
inductive Record where
  | metadata (offer : StoredOffer)
  | manifest (manifest : FolderManifest)
  | commit (commit : CommitRecord)
  | done (done : DoneRecord)
  deriving DecidableEq, Repr

/-- Code outside the repository: hashing, JSON, UUIDs, base64, signatures, Unicode. -/
class Externals where
  blake3Hex : Bytes → String
  offerJson : SignableOffer → Bytes
  manifestJson : FolderManifest → Bytes
  recordJson : Record → Bytes
  parseUuid : String → Bool
  base64Decode : String → Option Bytes
  validVerifyingKey : Bytes → Bool
  verify : Bytes → Bytes → Bytes → Bool
  nfc : List Char → List Char
  toLowercase : Char → List Char
  /-- Every spelling of a UUID that parses has digits, and is made of hexadecimal digits,
  hyphens, braces and the prefix `urn:uuid:`. -/
  parseUuid_chars : ∀ s, parseUuid s = true → s.toList ≠ [] ∧
    ∀ c ∈ s.toList, c ∈ "0123456789abcdefABCDEF-{}urnid:".toList

variable [Externals]

/-- What a file holds. A stored document is kept as the value it encodes, its bytes
being those of its JSON text. -/
inductive Contents where
  | bytes (b : Bytes)
  | json (r : Record)
  deriving DecidableEq, Repr

def Contents.toBytes : Contents → Bytes
  | .bytes b => b
  | .json r => Externals.recordJson r

def Contents.append (chunk : Bytes) (c : Contents) : Contents := .bytes (c.toBytes ++ chunk)

/-- A write at an offset: the gap after a shorter file reads as zeros. -/
def Contents.writeAt (offset : Nat) (chunk : Bytes) (c : Contents) : Contents :=
  .bytes (c.toBytes.take offset ++ List.replicate (offset - c.toBytes.length) 0 ++ chunk ++
    c.toBytes.drop (offset + chunk.length))

instance : FileData Contents where
  empty := .bytes []
  size c := c.toBytes.length

def Contents.blake3Hex (c : Contents) : String := Externals.blake3Hex c.toBytes

end InkHole
