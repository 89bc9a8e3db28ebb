import InkHole.Inbox
import InkHole.World

/-! The transfer store: the operations by which a receiver prepares, checks and commits
a transfer. -/

namespace InkHole

open InkHole.CoreM

variable [Externals]

def stateDirectory : String := ".inkhole-transfers"

/-- `serial` tells store objects apart: each has its own locks. -/
structure TransferStore where
  serial : Nat
  inbox : Path
  categoryRoots : InboxCategoryRoots
  deriving DecidableEq, Repr

structure PreparedTransfer where
  partPath : Path
  offset : Nat
  deriving DecidableEq, Repr

structure PreparedFolderTransfer where
  stagingPath : Path
  fileIndex : Nat
  offset : Nat
  completed : Nat
  deriving DecidableEq, Repr

structure CompletedTransfer where
  receipt : TransferReceipt
  destination : Path
  deriving DecidableEq, Repr

inductive PrepareOutcome where
  | resume (prepared : PreparedTransfer)
  | complete (completed : CompletedTransfer)
  deriving DecidableEq, Repr

inductive PrepareFolderOutcome where
  | resume (prepared : PreparedFolderTransfer)
  | complete (completed : CompletedTransfer)
  deriving DecidableEq, Repr

structure StatePaths where
  part : Path
  folderPart : Path
  metadata : Path
  manifest : Path
  commit : Path
  done : Path
  deriving DecidableEq, Repr

namespace TransferStore

def destinationRoot (s : TransferStore) (offer : TransferOffer) : Path :=
  s.categoryRoots.rootFor s.inbox offer.kind (safeFilename offer.filename)

def destinationRootStored (s : TransferStore) (offer : StoredOffer) : Path :=
  s.categoryRoots.rootFor s.inbox offer.kind offer.filename

def paths (s : TransferStore) (offer : TransferOffer) : StatePaths :=
  let pre : Path := offer.transferId :: stateDirectory :: s.destinationRoot offer
  { part := pre.withExtension "part"
    folderPart := pre.withExtension "folder.part"
    metadata := pre.withExtension "json"
    manifest := pre.withExtension "manifest.json"
    commit := pre.withExtension "commit.json"
    done := pre.withExtension "done.json" }

end TransferStore

def TransferOffer.receipt (offer : TransferOffer) : TransferReceipt :=
  ⟨offer.transferId, offer.size, offer.blake3⟩

def StoredOffer.receipt (offer : StoredOffer) : TransferReceipt :=
  ⟨offer.transferId, offer.size, offer.blake3⟩

/-! Files and records. -/

def Record.toMetadata : Record → Option StoredOffer
  | .metadata o => some o
  | _ => none

def Record.toManifest : Record → Option FolderManifest
  | .manifest m => some m
  | _ => none

def Record.toCommit : Record → Option CommitRecord
  | .commit c => some c
  | _ => none

def Record.toDone : Record → Option DoneRecord
  | .done d => some d
  | _ => none

def readJsonOptional {α : Type} (decode : Record → Option α) (p : Path) : CoreM (Option α) := do
  match ← attempt (.read p) with
  | .ok (.json r) =>
    match decode r with
    | some v => return some v
    | none => throw .json
  | .ok (.bytes _) => throw .json
  | .error .notFound => return none
  | .error e => throw (.io e)

def removeIfExists (p : Path) : CoreM Unit := do
  match ← attempt (.removeFile p) with
  | .ok () => return ()
  | .error .notFound => return ()
  | .error e => throw (.io e)

/-- The rename replaces the document in one step; only if it fails is the old one
removed first. -/
def atomicWriteJson (p : Path) (value : Record) : CoreM Unit := do
  let uuid ← newUuid
  let temporary := p.withExtension ("tmp-" ++ uuid)
  fs (.openFile temporary { createNew := true })
  fs (.edit temporary fun _ => .json value)
  fs (.sync temporary)
  match ← attempt (.rename temporary p) with
  | .ok () => return ()
  | .error _ =>
    let _ ← attempt (.removeFile p)
    match ← attempt (.rename temporary p) with
    | .ok () => return ()
    | .error e =>
      let _ ← attempt (.removeFile temporary)
      throw (.io e)

def blake3FileHex (p : Path) : CoreM String := do
  let contents ← fs (.read p)
  return contents.blake3Hex

def removeEntry (p : Path) (kind : FileKind) : CoreM Unit :=
  if kind = .dir then fs (.removeDir p) else fs (.removeFile p)

def removeAll (p : Path) : List (Path × FileKind) → CoreM Unit
  | [] => return ()
  | (relative, kind) :: rest => do
    removeEntry (relative ++ p) kind
    removeAll p rest

def removeDirAll (p : Path) : CoreM Unit := do
  let entries ← fs (.walk p)
  removeAll p entries
  fs (.removeDir p)

def removeDirAllIfExists (p : Path) : CoreM Unit := do
  match ← attempt (.symlinkMetadata p) with
  | .ok metadata =>
    match metadata.kind with
    | .symlink => fs (.removeFile p)
    | .dir => removeDirAll p
    | _ => throw (.invalidTransfer "folder checkpoint root is not a directory")
  | .error .notFound => return ()
  | .error e => throw (.io e)

/-- The modification time is not part of the model's tree, so that this only fails when
the path does. -/
def applyModifiedTime (p : Path) (_modifiedMs : Int) : CoreM Unit := fs (.setModified p)

def ensureSameOffer (expected actual : StoredOffer) : Except CoreError Unit :=
  if expected ≠ actual then
    .error (.invalidTransfer "transfer_id was reused with different metadata")
  else .ok ()

def ensureSameManifest (expected : FolderManifest) (actual : Option FolderManifest) :
    Except CoreError Unit :=
  if actual ≠ some expected then
    .error (.invalidTransfer "transfer_id was reused with a different folder manifest")
  else .ok ()

def ensureFileDestination (p : Path) (size : Nat) (digest : String) : CoreM Unit := do
  let metadata ← fs (.symlinkMetadata p)
  throwIf (metadata.kind ≠ .file) (.invalidTransfer "file destination is not a regular file")
  throwIf (metadata.len ≠ size) (.digestMismatch p)
  let actual ← blake3FileHex p
  throwIf (actual ≠ digest) (.digestMismatch p)

/-! Folders. -/

def folderEntryPath (root : Path) (relative : String) : Except CoreError Path := do
  validateFolderRelativePath relative
  return (components relative).reverse ++ root

def ensureDirectoryExists (p : Path) : CoreM Unit := do
  let metadata ← fs (.symlinkMetadata p)
  throwIf (metadata.kind ≠ .dir) (.invalidTransfer "folder path contains a non-directory component")

def ensureDirectory (p : Path) : CoreM Unit := do
  match ← attempt (.symlinkMetadata p) with
  | .ok metadata =>
    throwIf (metadata.kind ≠ .dir) (.invalidTransfer "folder checkpoint root is not a directory")
  | .error .notFound =>
    match ← attempt (.createDir p) with
    | .ok () => return ()
    | .error .alreadyExists => ensureDirectoryExists p
    | .error e => throw (.io e)
  | .error e => throw (.io e)

def makeDirectory (p : Path) : CoreM Unit := do
  match ← attempt (.createDir p) with
  | .ok () => return ()
  | .error .alreadyExists => ensureDirectoryExists p
  | .error e => throw (.io e)

def makeDirectories : Path → List String → CoreM Unit
  | _, [] => return ()
  | current, component :: rest => do
    makeDirectory (component :: current)
    makeDirectories (component :: current) rest

def ensureSafeParentDirectories (root : Path) (relative : String) : CoreM Unit := do
  validateFolderRelativePath relative
  ensureDirectoryExists root
  makeDirectories root (components relative).dropLast

def FolderManifest.files (manifest : FolderManifest) : List FolderEntry :=
  manifest.entries.filter fun e => e.kind = .file

def FolderManifest.directories (manifest : FolderManifest) : List FolderEntry :=
  manifest.entries.filter fun e => e.kind = .directory

def createDirectories (root : Path) : List FolderEntry → CoreM Unit
  | [] => return ()
  | entry :: rest => do
    ensureSafeParentDirectories root entry.path
    let path ← folderEntryPath root entry.path
    makeDirectory path
    createDirectories root rest

def createManifestDirectories (root : Path) (manifest : FolderManifest) : CoreM Unit := do
  ensureDirectoryExists root
  createDirectories root manifest.directories

def applyTimes (root : Path) : List FolderEntry → CoreM Unit
  | [] => return ()
  | entry :: rest => do
    let path ← folderEntryPath root entry.path
    applyModifiedTime path entry.modifiedMs
    applyTimes root rest

/-- Directories last, the deepest first, so that no time is changed again. -/
def applyManifestTimes (root : Path) (manifest : FolderManifest) : CoreM Unit := do
  applyTimes root manifest.files
  applyTimes root (manifest.directories.insertionSort fun e f =>
    (f.path.toList.count '/') ≤ (e.path.toList.count '/'))

def FolderManifest.expected (manifest : FolderManifest) (relative : String) : Option FolderEntry :=
  manifest.entries.find? fun e => e.path = relative

def checkItem (manifest : FolderManifest) (path : Path) (relative : String)
    (directories : List (Path × String)) : CoreM (List (Path × String)) := do
  let mismatch : CoreError := .invalidTransfer "folder entry does not match its manifest"
  let some entry := manifest.expected relative
    | throw (.invalidTransfer "folder contains an unexpected entry")
  let metadata ← fs (.symlinkMetadata path)
  match entry.kind, metadata.kind with
  | _, .symlink => throw (.invalidTransfer "folder contains a symbolic link")
  | .directory, .dir => return (path, relative) :: directories
  | .file, .file =>
    throwIf (metadata.len ≠ entry.size) mismatch
    let digest ← blake3FileHex path
    throwIf (digest ≠ entry.blake3) mismatch
    return directories
  | _, _ => throw mismatch

def checkItems (manifest : FolderManifest) (directory : Path) (parent : String) :
    List String → List (Path × String) → List String →
    CoreM (List (Path × String) × List String)
  | [], directories, seen => return (directories, seen)
  | name :: names, directories, seen => do
    let relative := if parent = "" then name else parent ++ "/" ++ name
    validateFolderRelativePath relative
    throwIf (manifest.expected relative).isNone
      (.invalidTransfer "folder contains an unexpected entry")
    throwIf (relative ∈ seen) (.invalidTransfer "folder contains a duplicate entry")
    let directories ← checkItem manifest (name :: directory) relative directories
    checkItems manifest directory parent names directories (relative :: seen)

/-- The stack of directories still to read. Each of them but the root is an entry of
the manifest met once, so that the fuel of one step an entry does not run out. -/
def walkFolder (manifest : FolderManifest) : Nat → List (Path × String) → List String →
    CoreM (List String)
  | _, [], seen => return seen
  | 0, _, _ => throw (.invalidTransfer "folder contains a duplicate entry")
  | fuel + 1, (directory, parent) :: rest, seen => do
    let names ← fs (.readDir directory)
    let (directories, seen) ← checkItems manifest directory parent names rest seen
    walkFolder manifest fuel directories seen

def validateFolderContents (root : Path) (manifest : FolderManifest) : CoreM Unit := do
  let _ ← manifest.validate
  ensureDirectoryExists root
  let seen ← walkFolder manifest (manifest.entries.length + 1) [(root, "")] []
  throwIf (seen.length ≠ manifest.entries.length)
    (.invalidTransfer "folder is missing a manifest entry")

namespace TransferStore

variable (s : TransferStore)

/-- The rest of a handler runs under the lock of its transfer id. -/
def lockTransfer {α : Type} (transferId : String) (body : CoreM α) : CoreM α :=
  withLock (.transfer s.serial transferId) body

/-! Destinations. -/

def uniqueFrom (root : Path) (stem extension : String) : Nat → Nat → CoreM String
  | 0, _ => throw (.invalidTransfer "cannot allocate a destination filename")
  | fuel + 1, index => do
    let candidate := stem ++ " (" ++ toString index ++ ")" ++ extension
    if !(← fs (.tryExists (candidate :: root))) then return candidate
    uniqueFrom root stem extension fuel (index + 1)

/-- The numbers tried run from 2 to the greatest `u32`. -/
def uniqueDestination (root : Path) (filename : String) : CoreM String := do
  if !(← fs (.tryExists (filename :: root))) then return filename
  let (stem, extension) := splitExtension filename
  uniqueFrom root stem extension (2 ^ 32 - 2) 2

/-- Only the commit of a folder has a manifest to compare. -/
def ensureRecordedManifest (manifest recorded : Option FolderManifest) : Except CoreError Unit :=
  match manifest with
  | some m => ensureSameManifest m recorded
  | none => .ok ()

/-- Moves an item to its destination, unless an earlier attempt has done it. -/
def moveOnce (src dst : Path) : CoreM Unit := do
  if !(← fs (.tryExists dst)) then fs (.rename src dst)

/-- The commit record of a transfer, an old one or one for a name that is free now. A
folder offers its manifest too. -/
def commitRecord (offer : TransferOffer) (manifest : Option FolderManifest) :
    CoreM CommitRecord := do
  let paths := s.paths offer
  let stored := StoredOffer.of offer
  match ← readJsonOptional Record.toCommit paths.commit with
  | some record =>
    ensureSameOffer stored record.offer
    ensureRecordedManifest manifest record.manifest
    validateDestinationName record.destination
    return record
  | none =>
    let destination ← uniqueDestination (s.destinationRoot offer) stored.filename
    let record : CommitRecord := ⟨stored, destination, manifest⟩
    atomicWriteJson paths.commit (.commit record)
    return record

/-! Files. -/

def validateCompleted (done : DoneRecord) : CoreM (Option CompletedTransfer) := do
  validateDestinationName done.destination
  let destination := done.destination :: s.destinationRootStored done.offer
  if !(← fs (.tryExists destination)) then return none
  ensureFileDestination destination done.receipt.size done.receipt.blake3
  return some ⟨done.receipt, destination⟩

def recoverCommit (commit : CommitRecord) (paths : StatePaths) :
    CoreM (Option CompletedTransfer) := do
  validateDestinationName commit.destination
  let destination := commit.destination :: s.destinationRootStored commit.offer
  if !(← fs (.tryExists destination)) then return none
  ensureFileDestination destination commit.offer.size commit.offer.blake3
  let receipt := commit.offer.receipt
  atomicWriteJson paths.done (.done ⟨commit.offer, commit.destination, receipt, none⟩)
  removeIfExists paths.part
  removeIfExists paths.metadata
  removeIfExists paths.commit
  return some ⟨receipt, destination⟩

def replayDone (expected : StoredOffer) (paths : StatePaths) : CoreM (Option CompletedTransfer) := do
  match ← readJsonOptional Record.toDone paths.done with
  | none => return none
  | some done =>
    ensureSameOffer expected done.offer
    match ← s.validateCompleted done with
    | some completed => return some completed
    | none =>
      removeIfExists paths.done
      return none

def replayCommit (expected : StoredOffer) (paths : StatePaths) :
    CoreM (Option CompletedTransfer) := do
  match ← readJsonOptional Record.toCommit paths.commit with
  | none => return none
  | some commit =>
    ensureSameOffer expected commit.offer
    s.recoverCommit commit paths

def discardPart (paths : StatePaths) : CoreM Unit := do
  if ← fs (.tryExists paths.part) then removeIfExists paths.part

def keepMetadata (expected : StoredOffer) (paths : StatePaths) : CoreM Unit := do
  match ← readJsonOptional Record.toMetadata paths.metadata with
  | some stored => ensureSameOffer expected stored
  | none =>
    discardPart paths
    atomicWriteJson paths.metadata (.metadata expected)

def partLength (paths : StatePaths) : CoreM Nat := do
  match ← attempt (.metadata paths.part) with
  | .ok metadata => return metadata.len
  | .error .notFound =>
    fs (.openFile paths.part { create := true, truncate := true })
    fs (.sync paths.part)
    return 0
  | .error e => throw (.io e)

def prepare (offer : TransferOffer) : CoreM PrepareOutcome := do
  offer.validate
  throwIf (offer.kind ≠ .file)
    (.invalidTransfer "folder transfers are not enabled in this protocol revision")
  let expected := StoredOffer.of offer
  let paths := s.paths offer
  if let some completed ← s.replayDone expected paths then return .complete completed
  if let some completed ← s.replayCommit expected paths then return .complete completed
  keepMetadata expected paths
  let offset ← partLength paths
  throwIf (offer.size < offset) (.invalidTransfer "partial transfer is larger than the offer")
  return .resume ⟨paths.part, offset⟩

/-- The part of `finalize` under the commit lock. -/
def commitFile (offer : TransferOffer) : CoreM CompletedTransfer := do
  let paths := s.paths offer
  let commit ← s.commitRecord offer none
  let destination := commit.destination :: s.destinationRoot offer
  moveOnce paths.part destination
  ensureFileDestination destination offer.size offer.blake3
  applyModifiedTime destination offer.modifiedMs
  atomicWriteJson paths.done
    (.done ⟨StoredOffer.of offer, commit.destination, offer.receipt, none⟩)
  removeIfExists paths.metadata
  removeIfExists paths.commit
  return ⟨offer.receipt, destination⟩

def finalize (offer : TransferOffer) : CoreM CompletedTransfer := do
  let paths := s.paths offer
  let metadata ← fs (.metadata paths.part)
  throwIf (metadata.len ≠ offer.size)
    (.invalidTransfer s!"received {metadata.len} of {offer.size} bytes")
  let digest ← blake3FileHex paths.part
  if digest ≠ offer.blake3 then
    removeIfExists paths.part
    removeIfExists paths.metadata
    removeIfExists paths.commit
    throw (.digestMismatch paths.part)
  else withLock (.commit s.serial) (s.commitFile offer)

/-! Folders. -/

def validateCompletedFolder (done : DoneRecord) : CoreM (Option CompletedTransfer) := do
  validateDestinationName done.destination
  let some manifest := done.manifest
    | throw (.invalidTransfer "completed folder manifest is missing")
  let destination := done.destination :: s.destinationRootStored done.offer
  if !(← fs (.tryExists destination)) then return none
  validateFolderContents destination manifest
  return some ⟨done.receipt, destination⟩

def recoverFolderCommit (commit : CommitRecord) (paths : StatePaths) :
    CoreM (Option CompletedTransfer) := do
  validateDestinationName commit.destination
  let some manifest := commit.manifest
    | throw (.invalidTransfer "folder commit manifest is missing")
  let destination := commit.destination :: s.destinationRootStored commit.offer
  if !(← fs (.tryExists destination)) then return none
  validateFolderContents destination manifest
  let receipt := commit.offer.receipt
  atomicWriteJson paths.done (.done ⟨commit.offer, commit.destination, receipt, some manifest⟩)
  removeDirAllIfExists paths.folderPart
  removeIfExists paths.metadata
  removeIfExists paths.manifest
  removeIfExists paths.commit
  return some ⟨receipt, destination⟩

def replayFolderDone (expected : StoredOffer) (manifest : FolderManifest) (paths : StatePaths) :
    CoreM (Option CompletedTransfer) := do
  match ← readJsonOptional Record.toDone paths.done with
  | none => return none
  | some done =>
    ensureSameOffer expected done.offer
    ensureSameManifest manifest done.manifest
    match ← s.validateCompletedFolder done with
    | some completed => return some completed
    | none =>
      removeIfExists paths.done
      return none

def replayFolderCommit (expected : StoredOffer) (manifest : FolderManifest) (paths : StatePaths) :
    CoreM (Option CompletedTransfer) := do
  match ← readJsonOptional Record.toCommit paths.commit with
  | none => return none
  | some commit =>
    ensureSameOffer expected commit.offer
    ensureSameManifest manifest commit.manifest
    s.recoverFolderCommit commit paths

def keepFolderMetadata (expected : StoredOffer) (manifest : FolderManifest) (paths : StatePaths) :
    CoreM Unit := do
  match ← readJsonOptional Record.toMetadata paths.metadata with
  | some stored =>
    ensureSameOffer expected stored
    match ← readJsonOptional Record.toManifest paths.manifest with
    | some storedManifest => ensureSameManifest manifest (some storedManifest)
    | none => throw (.invalidTransfer "folder transfer manifest is missing")
  | none =>
    removeDirAllIfExists paths.folderPart
    removeIfExists paths.manifest
    atomicWriteJson paths.metadata (.metadata expected)
    atomicWriteJson paths.manifest (.manifest manifest)

/-- The first file of the staging tree that is not complete. -/
def resumePosition (staging : Path) : List FolderEntry → Nat → Nat → CoreM PreparedFolderTransfer
  | [], fileIndex, completed => return ⟨staging, fileIndex, 0, completed⟩
  | entry :: rest, fileIndex, completed => do
    let path ← folderEntryPath staging entry.path
    ensureSafeParentDirectories staging entry.path
    match ← attempt (.symlinkMetadata path) with
    | .error .notFound => return ⟨staging, fileIndex, 0, completed⟩
    | .error e => throw (.io e)
    | .ok metadata =>
      throwIf (metadata.kind ≠ .file)
        (.invalidTransfer "folder checkpoint contains a non-regular file")
      throwIf (entry.size < metadata.len)
        (.invalidTransfer "folder checkpoint file is larger than declared")
      if metadata.len < entry.size then return ⟨staging, fileIndex, metadata.len, completed⟩
      else
        let digest ← blake3FileHex path
        if digest ≠ entry.blake3 then
          removeIfExists path
          return ⟨staging, fileIndex, 0, completed⟩
        else
          match checkedAdd completed entry.size with
          | some total => resumePosition staging rest (fileIndex + 1) total
          | none => throw (.invalidTransfer "folder checkpoint size overflow")

def prepareFolder (offer : TransferOffer) (manifest : FolderManifest) :
    CoreM PrepareFolderOutcome := do
  offer.validate
  manifest.validateOffer offer
  let expected := StoredOffer.of offer
  let paths := s.paths offer
  if let some completed ← s.replayFolderDone expected manifest paths then
    return .complete completed
  if let some completed ← s.replayFolderCommit expected manifest paths then
    return .complete completed
  keepFolderMetadata expected manifest paths
  ensureDirectory paths.folderPart
  let prepared ← resumePosition paths.folderPart manifest.files 0 0
  return .resume prepared

/-- The file to go on with is there with the length agreed on, or new. -/
def checkCheckpoint (path : Path) (offset : Nat) : CoreM Unit := do
  match ← attempt (.symlinkMetadata path) with
  | .ok metadata =>
    throwIf (metadata.kind ≠ .file)
      (.invalidTransfer "folder checkpoint path is not a regular file")
    throwIf (0 < offset ∧ metadata.len ≠ offset)
      (.invalidTransfer "folder checkpoint offset changed")
  | .error e => throwIf (¬ (e = .notFound ∧ offset = 0)) (.io e)

def openFolderFile (prepared : PreparedFolderTransfer) (entry : FolderEntry) (offset : Nat) :
    CoreM Path := do
  throwIf (entry.kind ≠ .file ∨ entry.size < offset)
    (.invalidTransfer "invalid folder file checkpoint")
  let path ← folderEntryPath prepared.stagingPath entry.path
  ensureSafeParentDirectories prepared.stagingPath entry.path
  checkCheckpoint path offset
  fs (.openFile path { create := true, truncate := offset == 0 })
  return path

def folderFileIntact (path : Path) (entry : FolderEntry) : CoreM Bool := do
  let metadata ← fs (.symlinkMetadata path)
  if metadata.kind ≠ .file ∨ metadata.len ≠ entry.size then return false
  else
    let digest ← blake3FileHex path
    return digest == entry.blake3

def verifyFolderFile (prepared : PreparedFolderTransfer) (entry : FolderEntry) : CoreM Unit := do
  let path ← folderEntryPath prepared.stagingPath entry.path
  ensureSafeParentDirectories prepared.stagingPath entry.path
  if ← folderFileIntact path entry then applyModifiedTime path entry.modifiedMs
  else
    removeIfExists path
    throw (.digestMismatch path)

/-- The part of `finalize_folder` under the commit lock. -/
def commitFolder (offer : TransferOffer) (manifest : FolderManifest)
    (prepared : PreparedFolderTransfer) : CoreM CompletedTransfer := do
  let paths := s.paths offer
  let commit ← s.commitRecord offer (some manifest)
  let destination := commit.destination :: s.destinationRoot offer
  moveOnce prepared.stagingPath destination
  validateFolderContents destination manifest
  applyModifiedTime destination offer.modifiedMs
  atomicWriteJson paths.done
    (.done ⟨StoredOffer.of offer, commit.destination, offer.receipt, some manifest⟩)
  removeIfExists paths.metadata
  removeIfExists paths.manifest
  removeIfExists paths.commit
  return ⟨offer.receipt, destination⟩

def finalizeFolder (offer : TransferOffer) (manifest : FolderManifest)
    (prepared : PreparedFolderTransfer) : CoreM CompletedTransfer := do
  manifest.validateOffer offer
  createManifestDirectories prepared.stagingPath manifest
  validateFolderContents prepared.stagingPath manifest
  applyManifestTimes prepared.stagingPath manifest
  withLock (.commit s.serial) (s.commitFolder offer manifest prepared)

/-! Opening a store. -/

def isDirectory (p : Path) : CoreM Bool := do
  match ← attempt (.metadata p) with
  | .ok metadata => return metadata.kind = .dir
  | .error _ => return false

def createDirAll : Path → CoreM Unit
  | [] => return ()
  | name :: p => do
    match ← attempt (.createDir (name :: p)) with
    | .ok () => return ()
    | .error .notFound =>
      createDirAll p
      match ← attempt (.createDir (name :: p)) with
      | .ok () => return ()
      | .error e => if ← isDirectory (name :: p) then return () else throw (.io e)
    | .error e => if ← isDirectory (name :: p) then return () else throw (.io e)

/-- `stale` tells which entries nothing has touched for the time of retention. -/
def pruneEntry (stale : Path → Bool) (p : Path) : CoreM Unit := do
  match ← attempt (.symlinkMetadata p) with
  | .error _ => return ()
  | .ok metadata =>
    if stale p then
      if metadata.kind = .dir then ignoring (removeDirAll p) else ignoring (fs (.removeFile p))
    else return ()

def pruneEntries (stale : Path → Bool) (directory : Path) : List String → CoreM Unit
  | [] => return ()
  | name :: names => do
    pruneEntry stale (name :: directory)
    pruneEntries stale directory names

def pruneStaleState (stale : Path → Bool) (directory : Path) : CoreM Unit := do
  match ← attempt (.readDir directory) with
  | .ok names => pruneEntries stale directory names
  | .error _ => return ()

def openRoots (stale : Path → Bool) : List Path → CoreM Unit
  | [] => return ()
  | root :: roots => do
    createDirAll (stateDirectory :: root)
    pruneStaleState stale (stateDirectory :: root)
    openRoots stale roots

def withCategoryRoots (stale : Path → Bool) (serial : Nat) (inbox : Path)
    (categoryRoots : InboxCategoryRoots) : CoreM TransferStore := do
  openRoots stale (categoryRoots.allRoots inbox)
  return ⟨serial, inbox, categoryRoots⟩

end TransferStore

end InkHole
