import InkHole.Patterns
import InkHole.SafeNames

/-! The exporter of received items. It copies an item from the app's own inbox to a place that the user
sees, and then deletes the item from the inbox. Any step on the way may fail. -/

set_option linter.unusedSectionVars false

namespace InkHole

open Patterns

/-- The entries of a folder in the order of their names: the first one, what is inside it and the rest. -/
inductive Entries where
  | nil
  | file (name : String) (data : Bytes) (rest : Entries)
  | folder (name : String) (inside : Entries) (rest : Entries)
  deriving DecidableEq

inductive Received where
  | file (name : String) (data : Bytes)
  | folder (name : String) (entries : Entries)
  deriving DecidableEq

def Received.name : Received → String
  | .file name _ => name
  | .folder name _ => name

/-- What stands in a directory of the user. A file is closed once all of it was written without an error. -/
inductive Document where
  | file (name : String) (data : Bytes) (closed : Bool)
  | folder (name : String) (entries : List Document)

def Document.name : Document → String
  | .file name _ _ => name
  | .folder name _ => name

/-- A row of the media store. -/
structure MediaRow where
  directory : List String
  displayName : String
  pending : Bool
  data : Bytes
  deriving DecidableEq

/-- The directory as text ends in a slash. -/
def MediaRow.relativePath (row : MediaRow) : List Char :=
  row.directory.flatMap fun name => name.toList ++ ['/']

namespace ReceiveFiles

def maxFilenameBytes : Nat := 240

def utf8Prefix (maxBytes : Nat) : List Char → List Char
  | [] => []
  | c :: cs => if maxBytes < c.utf8Size then [] else c :: utf8Prefix (maxBytes - c.utf8Size) cs

def safeName (raw : String) : String :=
  let trimmed := trimEndMatches dotOrSpace (replaceReserved (basename raw.toList))
  let name := if trimmed = [] ∨ trimmed = ['.'] ∨ trimmed = ['.', '.'] then "unknown".toList else trimmed
  let cut := trimEndMatches dotOrSpace (utf8Prefix maxFilenameBytes name)
  if cut = [] then "unknown" else String.ofList cut

def numbered (name : String) (n : Nat) : String :=
  (splitExtension name).1 ++ " (" ++ toString n ++ ")" ++ (splitExtension name).2

def numberedDirectory (name : String) (n : Nat) : String := name ++ " (" ++ toString n ++ ")"

/-- A name that is not in use, the wanted one if possible. Among more numbers than there are names one
is free. -/
def unique (number : String → Nat → String) (there : List String) (name : String) : String :=
  if name ∈ there then
    number name (firstFree (fun n => decide (number name n ∈ there)) (there.length + 1) 2)
  else name

def uniqueFile (there : List String) (name : String) : String := unique numbered there name

def uniqueDirectory (there : List String) (name : String) : String := unique numberedDirectory there name

end ReceiveFiles

namespace Exporter

open ReceiveFiles

/-- Which steps of a copy succeed. The steps are told apart by the path of the source below the exported
item, the name of the entry first. A stream breaks after some bytes, if it does. -/
structure CopyFaults where
  created : List String → Bool
  opened : List String → Bool
  broken : List String → Option Nat

/-- What an export depends on. `left` is what deleting the source leaves of it. -/
structure Environment where
  sdk : Nat
  permission : Bool
  treeChosen : Bool
  treeAvailable : Bool
  treeWritable : Bool
  label : Option String
  label_ne : label ≠ some ""
  tree : CopyFaults
  treeDeleted : Bool
  queried : String → Bool
  media : CopyFaults
  published : List String → Bool
  withdrawn : List String → Bool
  directoryMade : Bool
  legacy : CopyFaults
  legacyDeleted : Bool
  left : Option Received

/-- The directory tree that was chosen, the rows of the media store, the public directory of older
devices, and what is left of the source. -/
structure Places where
  tree : List Document
  rows : List MediaRow
  downloads : List Document
  source : Option Received

structure Outcome where
  name : String
  location : String
  deriving DecidableEq

def Environment.treeLabel (env : Environment) : String := env.label.getD "自定义目录"

def uniqueDocumentName (there : List String) (name : String) : String := unique numbered there name

/-- The names that the copies of files and of folders get, where the given names are there. -/
structure Naming where
  file : List String → String → String
  folder : List String → String → String

def documentNaming : Naming := ⟨fun there name => uniqueDocumentName there (safeName name), fun _ => safeName⟩

def plainNaming : Naming := ⟨fun _ name => name, fun _ name => name⟩

/-- Copies entries into a directory, and tells whether all went well and what was written. -/
def copyInto (naming : Naming) (faults : CopyFaults) : List String → List String → Entries → Bool × List Document
  | _, _, .nil => (true, [])
  | path, there, .file name data rest =>
    let target := naming.file there name
    if !faults.created (name :: path) then (false, [])
    else if !faults.opened (name :: path) then (false, [.file target [] false])
    else match faults.broken (name :: path) with
      | some bytes => (false, [.file target (data.take bytes) false])
      | none =>
        let later := copyInto naming faults path (there ++ [target]) rest
        (later.1, .file target data true :: later.2)
  | path, there, .folder name inside rest =>
    let target := naming.folder there name
    if !faults.created (name :: path) then (false, [])
    else
      let inner := copyInto naming faults (name :: path) [] inside
      if !inner.1 then (false, [.folder target inner.2])
      else
        let later := copyInto naming faults path (there ++ [target]) rest
        (later.1, .folder target inner.2 :: later.2)

/-- The copy of a file whose target has been created. What was written stays. -/
def copyFile (faults : CopyFaults) (target : String) (data : Bytes) : Bool × List Document :=
  if !faults.opened [] then (false, [.file target [] false])
  else match faults.broken [] with
    | some bytes => (false, [.file target (data.take bytes) false])
    | none => (true, [.file target data true])

/-- The copy of a folder whose target has been created. The target is deleted again, if that succeeds,
when not all of the folder was copied. -/
def copyFolder (naming : Naming) (faults : CopyFaults) (deleted : Bool) (target : String) (entries : Entries) :
    Bool × List Document :=
  let copied := copyInto naming faults [] [] entries
  if copied.1 then (true, [.folder target copied.2])
  else if deleted then (false, [])
  else (false, [.folder target copied.2])

/-- No outcome stands for an exception. -/
def exportToTree (env : Environment) (source : Received) (p : Places) : Option Outcome × Places :=
  if !env.treeAvailable || !env.treeWritable || !env.tree.created [] then (none, p)
  else
    let target := uniqueDocumentName (p.tree.map Document.name) (safeName source.name)
    let copied := match source with
      | .folder _ entries => copyFolder documentNaming env.tree env.treeDeleted target entries
      | .file _ data => copyFile env.tree target data
    let there := { p with tree := p.tree ++ copied.2 }
    if copied.1 then (some ⟨target, env.treeLabel⟩, { there with source := env.left })
    else (none, there)

def publicInbox : List String := ["Download", "InkHole"]

/-- A file that gets a row in the media store. -/
structure MediaFile where
  path : List String
  directory : List String
  name : String
  data : Bytes

/-- Whether a row was inserted and filled, and the row that there is then. -/
def insertRow (faults : CopyFaults) (file : MediaFile) : Bool × Option MediaRow :=
  if !faults.created file.path then (false, none)
  else if !faults.opened file.path then (false, some ⟨file.directory, file.name, true, []⟩)
  else match faults.broken file.path with
    | some bytes => (false, some ⟨file.directory, file.name, true, file.data.take bytes⟩)
    | none => (true, some ⟨file.directory, file.name, true, file.data⟩)

/-- The rows come with the paths of their files. -/
def insertRows (faults : CopyFaults) : List MediaFile → Bool × List (List String × MediaRow)
  | [] => (true, [])
  | file :: files =>
    let inserted := insertRow faults file
    if !inserted.1 then (false, inserted.2.toList.map fun row => (file.path, row))
    else
      let later := insertRows faults files
      (later.1, (inserted.2.toList.map fun row => (file.path, row)) ++ later.2)

def publishRows (published : List String → Bool) :
    List (List String × MediaRow) → Bool × List (List String × MediaRow)
  | [] => (true, [])
  | row :: rows =>
    if !published row.1 then (false, row :: rows)
    else
      let later := publishRows published rows
      (later.1, (row.1, { row.2 with pending := false }) :: later.2)

/-- Inserts and publishes rows. If that fails, all that were inserted are deleted again, as far as that
goes. -/
def exportRows (env : Environment) (files : List MediaFile) : Bool × List MediaRow :=
  let inserted := insertRows env.media files
  let published := if inserted.1 then publishRows env.published inserted.2 else (false, inserted.2)
  if published.1 then (true, published.2.map Prod.snd)
  else (false, (published.2.filter fun row => !env.withdrawn row.1).map Prod.snd)

/-- The files below a directory, with their paths. -/
def Entries.files : List String → Entries → List (List String × Bytes)
  | _, .nil => []
  | path, .file name data rest => (name :: path, data) :: Entries.files path rest
  | path, .folder name inside rest => Entries.files (name :: path) inside ++ Entries.files path rest

def slashed (path : List String) : String := "/".intercalate path.reverse

/-- The order of the files is that of their relative paths. -/
def sortedFiles (entries : Entries) : List (List String × Bytes) :=
  (Entries.files [] entries).mergeSort fun a b => decide (slashed a.1 ≤ slashed b.1)

def mediaFile (publicRoot : String) (file : List String × Bytes) : MediaFile :=
  ⟨file.1, publicInbox ++ publicRoot :: file.1.tail.reverse, file.1.headD "", file.2⟩

/-- A query that fails finds nothing. -/
def mediaStoreFolderExists (env : Environment) (rows : List MediaRow) (name : String) : Bool :=
  env.queried name &&
    rows.any fun row => like ("Download/InkHole/".toList ++ name.toList ++ "/%".toList) row.relativePath

/-- Numbers of more digits than a path has characters are free. -/
def searchBound (rows : List MediaRow) : Nat := 10 ^ ((rows.map fun row => row.relativePath.length).foldr max 0 + 1)

def uniqueMediaStoreFolderName (env : Environment) (rows : List MediaRow) (name : String) : String :=
  if mediaStoreFolderExists env rows name then
    numberedDirectory name (firstFree (fun n => mediaStoreFolderExists env rows (numberedDirectory name n))
      (searchBound rows) 2)
  else name

def exportFolderToDownloads (env : Environment) (name : String) (entries : Entries) (p : Places) :
    Outcome × Places :=
  let files := sortedFiles entries
  if 29 ≤ env.sdk then
    if files = [] then (⟨name, "Download/InkHole"⟩, { p with source := env.left })
    else
      let publicRoot := uniqueMediaStoreFolderName env p.rows name
      let exported := exportRows env (files.map (mediaFile publicRoot))
      if exported.1 then
        (⟨publicRoot, "Download/InkHole"⟩, { p with rows := p.rows ++ exported.2, source := env.left })
      else (⟨name, ""⟩, { p with rows := p.rows ++ exported.2 })
  else if env.permission && env.directoryMade && env.legacy.created [] then
    let destination := uniqueDirectory (p.downloads.map Document.name) name
    let copied := copyFolder plainNaming env.legacy env.legacyDeleted destination entries
    let there := { p with downloads := p.downloads ++ copied.2 }
    if copied.1 then (⟨destination, "Download/InkHole"⟩, { there with source := env.left })
    else (⟨name, ""⟩, there)
  else (⟨name, ""⟩, p)

def exportToDownloads (env : Environment) (source : Received) (p : Places) : Outcome × Places :=
  match source with
  | .folder name entries => exportFolderToDownloads env name entries p
  | .file name data =>
    if 29 ≤ env.sdk then
      let exported := exportRows env [⟨[], publicInbox, name, data⟩]
      if exported.1 then (⟨name, "Download/InkHole"⟩, { p with rows := p.rows ++ exported.2, source := env.left })
      else (⟨name, ""⟩, { p with rows := p.rows ++ exported.2 })
    else if env.permission && env.directoryMade && env.legacy.created [] then
      let candidate := uniqueFile (p.downloads.map Document.name) name
      let copied := copyFile env.legacy candidate data
      let there := { p with downloads := p.downloads ++ copied.2 }
      if copied.1 then (⟨candidate, "Download/InkHole"⟩, { there with source := env.left })
      else (⟨name, ""⟩, there)
    else (⟨name, ""⟩, p)

/-- An export to the chosen tree that fails is tried again with the downloads. -/
def exportReceived (env : Environment) (source : Received) (p : Places) : Outcome × Places :=
  if env.treeChosen then
    match exportToTree env source p with
    | (some outcome, p) => (outcome, p)
    | (none, p) => exportToDownloads env source p
  else exportToDownloads env source p

end Exporter

end InkHole
