import InkHole.Manifests
import InkHole.Sending

/-! The scan of a source folder lists what lies below its root, whatever the order in which
the directories are read. -/

set_option linter.unusedSectionVars false

namespace InkHole

/-- The name of a directory entry: text, or bytes that are no text. -/
inductive OsName where
  | unicode (name : String)
  | other (bytes : Bytes)
  deriving DecidableEq, Repr

def OsName.intoString : OsName → Option String
  | .unicode name => some name
  | .other _ => none

/-- A source tree. Times are in milliseconds since 1970, where the file system has them. -/
inductive SourceNode where
  | file (contents : Bytes) (modified : Option Int)
  | directory (children : List (OsName × SourceNode)) (modified : Option Int)
  | symlink
  | special

/-- The points at which a scan can be cancelled or a call of it can fail. The entries of a
directory are counted by those that come after them. -/
inductive ScanPoint where
  | start
  | directory (p : Path)
  | entry (p : Path) (after : Nat)
  | metadata (p : Path)
  | openFile (p : Path)
  | chunk (p : Path) (offset : Nat)
  | metadataAgain (p : Path)
  deriving DecidableEq, Repr

/-- What a scan depends on beside the tree. -/
structure Scanning where
  /-- The order in which `read_dir` gives the entries of a directory. -/
  readDir : Path → List (OsName × SourceNode) → List (OsName × SourceNode)
  readDir_perm : ∀ p children, (readDir p children).Perm children
  /-- How many bytes a read of a file would give at an offset. -/
  reads : Path → Nat → Nat
  /-- The clock, where it is asked in place of a modification time. -/
  now : Path → Int
  cancelled : ScanPoint → Bool
  failure : ScanPoint → Option IoError

def hashBufferSize : Nat := 1024 * 1024

structure ScannedEntry where
  wire : FolderEntry
  source : Option Path
  deriving DecidableEq, Repr

/-- A directory on the stack. The tree does not change, so that its entries are those that were
there when it was found. -/
structure ScanDirectory where
  directory : Path
  relativeParent : String
  children : List (OsName × SourceNode)

def modifiedMs (now : Path → Int) (p : Path) (modified : Option Int) : Int :=
  min (max 0 (modified.getD (now p))) (2 ^ 63 - 1)

namespace Scanning

variable (s : Scanning)

def checkCancelled (point : ScanPoint) : Except CoreError Unit :=
  if s.cancelled point then .error .cancelled else .ok ()

def attempt (point : ScanPoint) : Except CoreError Unit :=
  match s.failure point with
  | some error => .error (.io error)
  | none => .ok ()

section Hash

/-- The bytes that went into the hasher, and their number. Each read but the last brings a byte,
so that one step more than the file has bytes is enough fuel. -/
def hashChunks (p : Path) : Nat → Bytes → Nat → Bytes → Except CoreError (Bytes × Nat)
  | 0, hashed, total, _ => return (hashed, total)
  | fuel + 1, hashed, total, rest => do
    s.checkCancelled (.chunk p total)
    s.attempt (.chunk p total)
    if rest = [] then return (hashed, total)
    else
      let read := rest.take (max 1 (min (s.reads p total) hashBufferSize))
      match checkedAdd total read.length with
      | none => throw (.invalidTransfer "folder size overflow")
      | some total => hashChunks p fuel (hashed ++ read) total (rest.drop read.length)

variable [Externals]

def hashFile (p : Path) (contents : Bytes) : Except CoreError (String × Nat) := do
  s.attempt (.openFile p)
  let (hashed, total) ← s.hashChunks p (contents.length + 1) [] 0 contents
  return (Externals.blake3Hex hashed, total)

end Hash

variable [Externals]

/-- One entry of a directory, and what it puts on the stack. The second look at the metadata of a
file finds the same file, so that only the number of bytes is left to compare. -/
def scanEntry (directory : Path) (relativeParent : String) (after : Nat) :
    OsName × SourceNode → Except CoreError (ScannedEntry × List ScanDirectory)
  | (name, node) => do
    s.checkCancelled (.entry directory after)
    s.attempt (.entry directory after)
    match name.intoString with
    | none => throw (.invalidTransfer "folder contains a non-UTF-8 filename")
    | some name =>
      let relative := childPath relativeParent name
      validateFolderRelativePath relative
      let source := name :: directory
      s.attempt (.metadata source)
      match node with
      | .symlink => throw (.invalidTransfer s!"folder contains a symbolic link: {relative}")
      | .directory children modified =>
        return (⟨⟨relative, .directory, 0, modifiedMs s.now source modified, ""⟩, none⟩,
          [⟨source, relative, children⟩])
      | .file contents modified => do
        let (digest, bytesRead) ← s.hashFile source contents
        s.attempt (.metadataAgain source)
        ensure (bytesRead == contents.length)
          (.invalidTransfer s!"source file changed while scanning: {relative}")
        return (⟨⟨relative, .file, contents.length, modifiedMs s.now source modified, digest⟩, some source⟩, [])
      | .special => throw (.invalidTransfer s!"folder contains a special file: {relative}")

def scanEntries (directory : Path) (relativeParent : String) : List (OsName × SourceNode) →
    List ScannedEntry → List ScanDirectory → Except CoreError (List ScannedEntry × List ScanDirectory)
  | [], scanned, directories => return (scanned, directories)
  | child :: rest, scanned, directories => do
    let (entry, found) ← s.scanEntry directory relativeParent rest.length child
    ensure ((scanned ++ [entry]).length ≤ maxFolderEntries)
      (.invalidTransfer "folder contains too many entries")
    scanEntries directory relativeParent rest (scanned ++ [entry]) (found ++ directories)

def scanDirectory (d : ScanDirectory) (scanned : List ScannedEntry) (directories : List ScanDirectory) :
    Except CoreError (List ScannedEntry × List ScanDirectory) := do
  s.checkCancelled (.directory d.directory)
  s.attempt (.directory d.directory)
  s.scanEntries d.directory d.relativeParent (s.readDir d.directory d.children) scanned directories

/-- The loop over the stack. There is no result when the fuel runs out. -/
def scanDirectories : Nat → List ScannedEntry → List ScanDirectory → Option (Except CoreError (List ScannedEntry))
  | _, scanned, [] => some (.ok scanned)
  | 0, _, _ :: _ => none
  | fuel + 1, scanned, d :: directories =>
    match s.scanDirectory d scanned directories with
    | .error e => some (.error e)
    | .ok (scanned, directories) => scanDirectories fuel scanned directories

end Scanning

variable [Externals]

def ScannedEntry.sort (scanned : List ScannedEntry) : List ScannedEntry :=
  scanned.insertionSort fun left right => left.wire.path ≤ right.wire.path

def FolderSource.ofScanned (scanned : List ScannedEntry) : Except CoreError FolderSource := do
  let sorted := ScannedEntry.sort scanned
  let manifest : FolderManifest := ⟨1, sorted.map ScannedEntry.wire⟩
  let _ ← manifest.validate
  return ⟨manifest, sorted.filterMap ScannedEntry.source⟩

namespace Scanning

def checkRoot (s : Scanning) (root : Path) : SourceNode → Except CoreError ScanDirectory
  | node => do
    s.checkCancelled .start
    s.attempt (.metadata root)
    match node with
    | .directory children _ => return ⟨root, "", children⟩
    | _ => throw (.invalidTransfer "source path is not a regular directory")

def scanFolder (s : Scanning) (root : Path) (node : SourceNode) (fuel : Nat) :
    Option (Except CoreError FolderSource) :=
  match s.checkRoot root node with
  | .error e => some (.error e)
  | .ok d => (s.scanDirectories fuel [] [d]).map (· >>= FolderSource.ofScanned)

end Scanning

end InkHole
