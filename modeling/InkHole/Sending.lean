import InkHole.Transport

/-! The sender of a folder, from the answer of the receiver on. -/

set_option linter.unusedSectionVars false

namespace InkHole

open InkHole.CoreM

variable [Externals]

/-- `files` are the sources of the file entries of the manifest, in their order. -/
structure FolderSource where
  manifest : FolderManifest
  files : List Path
  deriving DecidableEq, Repr

def validateReceipt (offer : TransferOffer) (receipt : TransferReceipt) : Except CoreError Unit :=
  if receipt.transferId ≠ offer.transferId ∨ receipt.size ≠ offer.size ∨ receipt.blake3 ≠ offer.blake3 then
    .error (.protocol "receiver returned a mismatched completion receipt")
  else .ok ()

/-- What is checked of the position that a receiver asks for. The number of bytes before it
is returned. -/
def checkFolderResume (entries : List FolderEntry) (fileIndex offset completed : Nat) : Except CoreError Nat := do
  ensure (decide (fileIndex ≤ entries.length)) (.protocol "receiver returned an invalid folder file index")
  match (entries.take fileIndex).foldlM (fun total entry => checkedAdd total entry.size) 0 with
  | none => .error (.protocol "folder resume size overflow")
  | some expectedCompleted =>
    ensure (!(completed != expectedCompleted || (fileIndex == entries.length && offset != 0) ||
      entries[fileIndex]?.any fun entry => decide (entry.size < offset)))
      (.protocol "receiver returned an inconsistent folder checkpoint")
    match checkedAdd completed offset with
    | none => .error (.protocol "folder progress overflow")
    | some sent => return sent

/-- Each read brings a byte, so that `size - sent` steps are enough fuel. -/
def sendInto (size : Nat) (changed : CoreError) : Nat → Nat → Incoming → Except CoreError (Bytes × Incoming)
  | 0, _, file => return ([], file)
  | fuel + 1, sent, file => do
    if size ≤ sent then return ([], file)
    else
      match ← file.read (min (size - sent) transferBufferSize) with
      | none => throw changed
      | some (chunk, rest) =>
        let (bytes, rest) ← sendInto size changed fuel (sent + chunk.length) rest
        return (chunk ++ bytes, rest)

/-- The file is read from where the receiver has it up to. `reads` tells how much each read gives. -/
def sendEntry (reads : List Nat) (entry : FolderEntry) (source : Path) (entryOffset : Nat) : CoreM Bytes := do
  let changed : CoreError := .invalidTransfer s!"source file changed while sending folder: {entry.path}"
  let metadata ← fs (.symlinkMetadata source)
  throwIf (metadata.kind ≠ .file ∨ metadata.len ≠ entry.size) changed
  let contents ← fs (.read source)
  let file : Incoming := ⟨contents.toBytes.drop entryOffset, reads, .finished⟩
  let (bytes, rest) ← (sendInto entry.size changed (entry.size - entryOffset) entryOffset file : Except CoreError _)
  let extra ← (rest.read 1 : Except CoreError _)
  throwIf extra.isSome (.invalidTransfer s!"source file grew while sending folder: {entry.path}")
  return bytes

def sendEntries (reads : Path → List Nat) : List (FolderEntry × Path) → Nat → CoreM Bytes
  | [], _ => return []
  | (entry, source) :: rest, entryOffset => do
    let bytes ← sendEntry (reads source) entry source entryOffset
    let more ← sendEntries reads rest 0
    return bytes ++ more

namespace FolderSource

variable (source : FolderSource) (reads : Path → List Nat)

/-- The bytes written to the stream before it is finished. -/
def emit (fileIndex offset completed : Nat) : CoreM Bytes := do
  let entries := source.manifest.files
  let _ ← checkFolderResume entries fileIndex offset completed
  sendEntries reads ((entries.zip source.files).drop fileIndex) offset

/-- The last answer of the receiver. `display` gives the text of an error. -/
def confirm (display : CoreError → String) (offer : TransferOffer) :
    TransferResponse → Except CoreError TransferReceipt
  | .complete receipt => do
    validateReceipt offer receipt
    return receipt
  | .rejected reason => .error (.protocol s!"receiver rejected transfer: {display reason}")
  | .resume _ => .error (.protocol "receiver returned a duplicate resume response")
  | .folderResume .. => .error (.protocol "receiver returned a duplicate resume response")

/-- What was written to the stream, and the receipt. The receiver answers once before the bytes
of the files and once after them. -/
def sendFolderStream (display : CoreError → String) (offer : TransferOffer) (response : TransferResponse)
    (confirmation : Bytes → TransferResponse) : CoreM (Bytes × TransferReceipt) := do
  throwIf (source.manifest.files.length ≠ source.files.length)
    (.invalidTransfer "folder source no longer matches its manifest")
  match response with
  | .complete receipt =>
    validateReceipt offer receipt
    return ([], receipt)
  | .rejected reason => throw (.protocol s!"receiver rejected transfer: {display reason}")
  | .resume _ => throw (.protocol "receiver returned a file resume response for a folder")
  | .folderResume fileIndex offset completed =>
    let bytes ← source.emit reads fileIndex offset completed
    let receipt ← confirm display offer (confirmation bytes)
    return (bytes, receipt)

end FolderSource

end InkHole
