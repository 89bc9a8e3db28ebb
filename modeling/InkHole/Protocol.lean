import InkHole.Data

/-! Validation of offers and folder manifests. -/

set_option linter.unusedSectionVars false

namespace InkHole

open Externals

def ensure (condition : Bool) (error : CoreError) : Except CoreError Unit :=
  if condition then .ok () else .error error

theorem ensure_bind {α : Type} {b : Bool} {e : CoreError} {f : Unit → Except CoreError α} {a : α} :
    (ensure b e >>= f) = .ok a ↔ b = true ∧ f () = .ok a := by
  cases b <;> simp [ensure, Bind.bind, Except.bind]

theorem bind_eq_ok {α γ : Type} {x : Except CoreError α} {f : α → Except CoreError γ} {b : γ} :
    (x >>= f) = .ok b ↔ ∃ a, x = .ok a ∧ f a = .ok b := by
  cases x <;> simp [bind, Except.bind]

variable [Externals]

def quicProtocolVersion : Nat := 2
def maxFileSize : Nat := 2 ^ 40
def maxFolderEntries : Nat := 100000
def u64Max : Nat := 2 ^ 64 - 1

def offerSignatureDomain : Bytes := "inkhole/quic/offer/v2\x00".toUTF8.toList
def folderManifestDomain : Bytes := "inkhole/quic/folder-manifest/v1\x00".toUTF8.toList

def lowerHex (c : Char) : Bool := c.isDigit || ('a' ≤ c && c ≤ 'f')

def validBlake3 (value : String) : Bool := value.utf8ByteSize == 64 && value.toList.all lowerHex

def validInstanceId (value : String) : Bool := value.utf8ByteSize == 32 && value.toList.all lowerHex

def isWhitespace (c : Char) : Bool :=
  let n := c.toNat
  (9 ≤ n && n ≤ 13) || n == 0x20 || n == 0x85 || n == 0xA0 || n == 0x1680 ||
    (0x2000 ≤ n && n ≤ 0x200A) || n == 0x2028 || n == 0x2029 || n == 0x202F || n == 0x205F ||
    n == 0x3000

def TransferOffer.signingBytes (offer : TransferOffer) : Bytes :=
  offerSignatureDomain ++ offerJson offer.toSignableOffer

def decodeSized (encoded : String) (length : Nat) (message : String) : Except CoreError Bytes :=
  match base64Decode encoded with
  | some b => if b.length = length then .ok b else .error (.invalidTransfer message)
  | none => .error (.invalidTransfer message)

def TransferOffer.validate (offer : TransferOffer) : Except CoreError Unit := do
  ensure (offer.protocol == quicProtocolVersion)
    (.invalidTransfer s!"unsupported QUIC protocol version {offer.protocol}")
  ensure (parseUuid offer.transferId) (.invalidTransfer "invalid transfer_id")
  ensure (offer.filename.utf8ByteSize ≤ 4096) (.invalidTransfer "filename is too long")
  ensure (offer.size ≤ maxFileSize) (.invalidTransfer "file is too large")
  ensure (0 ≤ offer.modifiedMs) (.invalidTransfer "modified_ms cannot be negative")
  ensure (validBlake3 offer.blake3) (.invalidTransfer "invalid BLAKE3 digest")
  ensure (validInstanceId offer.sender.instanceId) (.invalidTransfer "invalid sender instance id")
  ensure (!offer.sender.name.toList.all isWhitespace && offer.sender.name.utf8ByteSize ≤ 255)
    (.invalidTransfer "invalid sender name")
  let publicKey ← decodeSized offer.sender.publicKey 32 "invalid sender public key"
  let signature ← decodeSized offer.signature 64 "invalid offer signature"
  ensure (validVerifyingKey publicKey) (.invalidTransfer "invalid sender public key")
  ensure (verify publicKey offer.signingBytes signature)
    (.invalidTransfer "offer signature verification failed")

def canonicalFolderPath (path : String) : List Char := (nfc path.toList).flatMap toLowercase

/-- The prefixes of a path that end before one of its slashes. -/
def folderAncestors (path : List Char) : List (List Char) :=
  ((List.range path.length).filter fun i => path[i]? == some '/').map fun i => path.take i

def rsplitSlash (path : List Char) : Option (List Char) :=
  if '/' ∈ path then some ((path.reverse.dropWhile (· != '/')).drop 1).reverse else none

def checkedAdd (a b : Nat) : Option Nat := if a + b ≤ u64Max then some (a + b) else none

/-- The accumulators of the validation loop. -/
structure ManifestScan where
  previousPath : Option String := none
  canonicalPaths : List (List Char) := []
  filePaths : List (List Char) := []
  totalSize : Nat := 0

def FolderManifest.validateEntry (scan : ManifestScan) (entry : FolderEntry) :
    Except CoreError ManifestScan := do
  validateFolderRelativePath entry.path
  ensure (!scan.previousPath.any fun previous => decide (entry.path ≤ previous))
    (.invalidTransfer "folder manifest paths are not strictly sorted")
  let canonical := canonicalFolderPath entry.path
  ensure ((rsplitSlash canonical).all fun parent => scan.canonicalPaths.contains parent)
    (.invalidTransfer "folder manifest is missing a parent directory")
  ensure (!scan.canonicalPaths.contains canonical)
    (.invalidTransfer "folder contains a cross-platform duplicate path")
  ensure ((folderAncestors canonical).all fun ancestor => !scan.filePaths.contains ancestor)
    (.invalidTransfer "folder entry is nested below a file")
  ensure (0 ≤ entry.modifiedMs) (.invalidTransfer "folder entry modified_ms cannot be negative")
  let seen := { scan with
    previousPath := some entry.path
    canonicalPaths := canonical :: scan.canonicalPaths }
  match entry.kind with
  | .file =>
    ensure (entry.size ≤ maxFileSize && validBlake3 entry.blake3)
      (.invalidTransfer "invalid folder file metadata")
    match checkedAdd scan.totalSize entry.size with
    | none => .error (.invalidTransfer "folder size overflow")
    | some total =>
      ensure (total ≤ maxFileSize) (.invalidTransfer "folder is too large")
      return { seen with filePaths := canonical :: scan.filePaths, totalSize := total }
  | .directory =>
    ensure (entry.size == 0 && entry.blake3.isEmpty)
      (.invalidTransfer "invalid folder directory metadata")
    return seen

def FolderManifest.validate (manifest : FolderManifest) : Except CoreError Nat := do
  ensure (manifest.version == 1)
    (.invalidTransfer s!"unsupported folder manifest version {manifest.version}")
  ensure (manifest.entries.length ≤ maxFolderEntries)
    (.invalidTransfer "folder contains too many entries")
  let scan ← manifest.entries.foldlM FolderManifest.validateEntry {}
  return scan.totalSize

def FolderManifest.digest (manifest : FolderManifest) : Except CoreError String := do
  let _ ← manifest.validate
  return blake3Hex (folderManifestDomain ++ manifestJson manifest)

def FolderManifest.validateOffer (manifest : FolderManifest) (offer : TransferOffer) :
    Except CoreError Unit := do
  let mismatch : CoreError := .invalidTransfer "folder manifest does not match its offer"
  ensure (offer.kind == .folderV1) mismatch
  let size ← manifest.validate
  ensure (size == offer.size) mismatch
  let digest ← manifest.digest
  ensure (digest == offer.blake3) mismatch

end InkHole
