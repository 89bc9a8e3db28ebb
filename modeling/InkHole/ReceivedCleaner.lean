import InkHole.Exporter

/-! The cleaner of received items. It looks for the file of each record in the app's own inbox, in the
chosen tree and then in the downloads. -/

namespace InkHole

namespace ReceivedCleaner

open Patterns ReceiveFiles

/-- What a deletion of rows selects, with the arguments of the query. -/
inductive Selection where
  | displayName (name : String) (pattern : List Char)
  | relativePath (pattern : List Char)

def Selection.selects : Selection → MediaRow → Bool
  | .displayName name pattern, row => row.displayName == name || like pattern row.displayName.toList
  | .relativePath pattern, row => like pattern row.relativePath

/-- What the platform does. The states of its files are those of `σ`, the trees that can be chosen are in
`τ` and the documents inside them in `δ`. A call that throws is one that finds or deletes nothing. The
deletions of rows are told apart by the index of the record. -/
structure Device (σ τ δ : Type) where
  sdk : Nat
  publicDirectory : String
  fileExists : σ → String → Bool
  isDirectory : σ → String → Bool
  deleteFile : σ → String → Bool × σ
  deleteRecursively : σ → String → Bool × σ
  fromTreeUri : String → Option τ
  findFile : σ → τ → String → Option δ
  deleteDocument : σ → δ → Bool × σ
  deleteThrows : Nat → Selection → Bool

/-- The files, and the rows of the media store that the app owns. -/
structure Storage (σ : Type) where
  files : σ
  rows : List MediaRow

structure Outcome where
  deleted : Nat
  skipped : Nat
  deriving DecidableEq

variable {σ τ δ : Type}

def deletePath (device : Device σ τ δ) (path : String) (s : Storage σ) : Bool × Storage σ :=
  if !device.fileExists s.files path then (false, s)
  else
    let gone := if device.isDirectory s.files path then device.deleteRecursively s.files path
      else device.deleteFile s.files path
    (gone.1, { s with files := gone.2 })

def deletePrivate (device : Device σ τ δ) (path : String) (s : Storage σ) : Bool × Storage σ :=
  if path = "" then (false, s) else deletePath device path s

/-- The last component of a path. -/
def fileName (path : String) : String :=
  String.ofList ((path.toList.reverse.dropWhile (· == '/')).takeWhile (· != '/')).reverse

/-- The file as it is called in the inbox comes before the name of the record. -/
def candidates (path name : String) : List String :=
  ((if path = "" then [] else [fileName path]) ++ [name]).eraseDups

def deleteFirst (device : Device σ τ δ) (tree : τ) : List String → Storage σ → Bool × Storage σ
  | [], s => (false, s)
  | candidate :: rest, s =>
    match device.findFile s.files tree candidate with
    | none => deleteFirst device tree rest s
    | some target =>
      let gone := device.deleteDocument s.files target
      if gone.1 then (true, { s with files := gone.2 })
      else deleteFirst device tree rest { s with files := gone.2 }

def deleteFromTree (device : Device σ τ δ) (tree : Option τ) (name path : String) (s : Storage σ) :
    Bool × Storage σ :=
  match tree with
  | none => (false, s)
  | some tree => deleteFirst device tree (candidates path name) s

def filesNamed (name : String) : Selection := .displayName name (name.toList ++ " (%".toList)

def filesBelow (name : String) : Selection :=
  .relativePath ("Download/InkHole/".toList ++ name.toList ++ "/%".toList)

/-- The number of rows that were deleted, which is none if the deletion throws. -/
def deleteRows (device : Device σ τ δ) (index : Nat) (selection : Selection) (s : Storage σ) :
    Nat × Storage σ :=
  if device.deleteThrows index selection then (0, s)
  else ((s.rows.filter selection.selects).length,
    { s with rows := s.rows.filter fun row => !selection.selects row })

def deleteFromLegacyDownloads (device : Device σ τ δ) (name : String) (s : Storage σ) : Bool × Storage σ :=
  deletePath device (device.publicDirectory ++ "/InkHole/" ++ name) s

def deleteFromMediaStore (device : Device σ τ δ) (index : Nat) (name : String) (s : Storage σ) :
    Bool × Storage σ :=
  if device.sdk < 29 then deleteFromLegacyDownloads device name s
  else
    let filesRemoved := deleteRows device index (filesNamed name) s
    if 0 < filesRemoved.1 then (true, filesRemoved.2)
    else
      let folderRemoved := deleteRows device index (filesBelow name) filesRemoved.2
      (decide (0 < folderRemoved.1), folderRemoved.2)

/-- The turn of one record. -/
def clearOne (device : Device σ τ δ) (tree : Option τ) (index : Nat) (path name : String) (s : Storage σ) :
    Bool × Storage σ :=
  let inInbox := deletePrivate device path s
  if inInbox.1 then inInbox
  else
    let inTree := deleteFromTree device tree name path inInbox.2
    if inTree.1 then inTree
    else deleteFromMediaStore device index name inTree.2

/-- The names come with their indices. -/
def clearFrom (device : Device σ τ δ) (tree : Option τ) (paths : List String) :
    List (String × Nat) → Storage σ → Outcome × Storage σ
  | [], s => (⟨0, 0⟩, s)
  | (raw, index) :: rest, s =>
    let removed := clearOne device tree index (paths.getD index "") (safeName raw) s
    let later := clearFrom device tree paths rest removed.2
    (if removed.1 then ⟨later.1.deleted + 1, later.1.skipped⟩ else ⟨later.1.deleted, later.1.skipped + 1⟩, later.2)

def chosenTree (device : Device σ τ δ) (treeUri : Option String) : Option τ :=
  (treeUri.filter (· ≠ "")).bind device.fromTreeUri

def clear (device : Device σ τ δ) (paths names : List String) (treeUri : Option String) (s : Storage σ) :
    Outcome × Storage σ :=
  clearFrom device (chosenTree device treeUri) paths names.zipIdx s

/-! Which rows are the copies of a record. -/

/-- A number stands in front of the extension or at the end. -/
def Variant (name other : String) : Prop :=
  other = name ∨ ∃ n, other = numbered name n ∨ other = numberedDirectory name n

/-- The row is that of an exported file, or of a file in an exported folder. -/
def ExportedAs (name : String) (row : MediaRow) : Prop :=
  (row.relativePath = "Download/InkHole/".toList ∧ Variant name row.displayName) ∨
    ∃ folder, (folder = name ∨ ∃ n, folder = numberedDirectory name n) ∧
      "Download/InkHole/".toList ++ folder.toList ++ ['/'] <+: row.relativePath

def Listed (names : List String) (row : MediaRow) : Prop := ∃ raw ∈ names, ExportedAs (safeName raw) row

/-! The rows that the turn of one record removes. -/

/-- Neither the inbox nor the tree had the file of the record. -/
def AsksMediaStore (device : Device σ τ δ) (tree : Option τ) (path name : String) (s : Storage σ) : Prop :=
  29 ≤ device.sdk ∧ (deletePrivate device path s).1 = false ∧
    (deleteFromTree device tree name path (deletePrivate device path s).2).1 = false

/-- The folder is looked for if no file has the name. -/
def Takes (device : Device σ τ δ) (index : Nat) (name : String) (rows : List MediaRow) (row : MediaRow) : Prop :=
  (device.deleteThrows index (filesNamed name) = false ∧ (filesNamed name).selects row = true) ∨
    ((device.deleteThrows index (filesNamed name) = true ∨ ∀ other ∈ rows, (filesNamed name).selects other = false) ∧
      device.deleteThrows index (filesBelow name) = false ∧ (filesBelow name).selects row = true)

theorem deletePath_rows (device : Device σ τ δ) (path : String) (s : Storage σ) :
    (deletePath device path s).2.rows = s.rows := by
  rw [deletePath]
  split <;> rfl

theorem deletePrivate_rows (device : Device σ τ δ) (path : String) (s : Storage σ) :
    (deletePrivate device path s).2.rows = s.rows := by
  rw [deletePrivate]
  split
  · rfl
  · exact deletePath_rows device path s

theorem deleteFirst_rows (device : Device σ τ δ) (tree : τ) (names : List String) (s : Storage σ) :
    (deleteFirst device tree names s).2.rows = s.rows := by
  induction names generalizing s with
  | nil => rfl
  | cons candidate rest ih =>
    rw [deleteFirst]
    split
    · exact ih s
    · dsimp only
      split
      · rfl
      · exact ih _

theorem deleteFromTree_rows (device : Device σ τ δ) (tree : Option τ) (name path : String) (s : Storage σ) :
    (deleteFromTree device tree name path s).2.rows = s.rows := by
  cases tree with
  | none => rfl
  | some tree => exact deleteFirst_rows device tree (candidates path name) s

theorem mem_deleteRows {device : Device σ τ δ} {index : Nat} {selection : Selection} {s : Storage σ}
    {row : MediaRow} :
    row ∈ (deleteRows device index selection s).2.rows ↔
      row ∈ s.rows ∧ ¬ (device.deleteThrows index selection = false ∧ selection.selects row = true) := by
  rw [deleteRows]
  by_cases hthrows : device.deleteThrows index selection = true
  · simp [hthrows]
  · simp [hthrows]

theorem deleteRows_eq_zero {device : Device σ τ δ} {index : Nat} {selection : Selection} {s : Storage σ} :
    (deleteRows device index selection s).1 = 0 ↔
      device.deleteThrows index selection = true ∨ ∀ other ∈ s.rows, selection.selects other = false := by
  rw [deleteRows]
  by_cases hthrows : device.deleteThrows index selection = true
  · simp [hthrows]
  · simp [hthrows]

theorem mem_deleteFromMediaStore {device : Device σ τ δ} {index : Nat} {name : String} {s : Storage σ}
    {row : MediaRow} (hsdk : 29 ≤ device.sdk) :
    row ∈ (deleteFromMediaStore device index name s).2.rows ↔
      row ∈ s.rows ∧ ¬ Takes device index name s.rows row := by
  rw [deleteFromMediaStore, if_neg (by omega)]
  have hzero := @deleteRows_eq_zero σ τ δ device index (filesNamed name) s
  have hfiles := @mem_deleteRows σ τ δ device index (filesNamed name) s row
  dsimp only
  by_cases hremoved : (deleteRows device index (filesNamed name) s).1 = 0
  · rw [if_neg (by omega), mem_deleteRows, hfiles, Takes, ← hzero]
    simp only [hremoved, true_and]
    tauto
  · rw [if_pos (by omega), hfiles, Takes, ← hzero]
    simp only [hremoved, false_and, or_false]

/-- What is left after the turn of a record. -/
theorem mem_clearOne {device : Device σ τ δ} {tree : Option τ} {index : Nat} {path name : String} {s : Storage σ}
    {row : MediaRow} :
    row ∈ (clearOne device tree index path name s).2.rows ↔
      row ∈ s.rows ∧ ¬ (AsksMediaStore device tree path name s ∧ Takes device index name s.rows row) := by
  have hinbox := deletePrivate_rows device path s
  have htree := deleteFromTree_rows device tree name path (deletePrivate device path s).2
  rw [clearOne, AsksMediaStore]
  dsimp only
  by_cases hprivate : (deletePrivate device path s).1 = true
  · rw [if_pos hprivate, hinbox]
    simp [hprivate]
  · rw [if_neg hprivate]
    by_cases hchosen : (deleteFromTree device tree name path (deletePrivate device path s).2).1 = true
    · rw [if_pos hchosen, htree, hinbox]
      simp [hchosen]
    · rw [if_neg hchosen]
      by_cases hsdk : 29 ≤ device.sdk
      · rw [mem_deleteFromMediaStore hsdk, htree, hinbox]
        simp [hsdk, hprivate, hchosen]
      · rw [deleteFromMediaStore, if_pos (by omega), deleteFromLegacyDownloads, deletePath_rows, htree, hinbox]
        simp [hsdk]

/-! The whole run. -/

/-- In the turn of each record the media store has no row that is taken without being listed. -/
def Spares (device : Device σ τ δ) (tree : Option τ) (paths listed : List String) :
    List (String × Nat) → Storage σ → Prop
  | [], _ => True
  | (raw, index) :: rest, s =>
    (AsksMediaStore device tree (paths.getD index "") (safeName raw) s →
      ∀ row ∈ s.rows, Takes device index (safeName raw) s.rows row → Listed listed row) ∧
    Spares device tree paths listed rest (clearOne device tree index (paths.getD index "") (safeName raw) s).2

theorem clearFrom_subset {device : Device σ τ δ} {tree : Option τ} {paths : List String}
    {names : List (String × Nat)} {s : Storage σ} : (clearFrom device tree paths names s).2.rows ⊆ s.rows := by
  induction names generalizing s with
  | nil => exact List.Subset.refl _
  | cons name rest ih =>
    intro row hrow
    exact (mem_clearOne.mp (ih hrow)).1

theorem clearFrom_listed_iff {device : Device σ τ δ} {tree : Option τ} {paths listed : List String}
    {names : List (String × Nat)} {s : Storage σ} :
    (∀ row ∈ s.rows, row ∉ (clearFrom device tree paths names s).2.rows → Listed listed row) ↔
      Spares device tree paths listed names s := by
  induction names generalizing s with
  | nil => exact ⟨fun _ => trivial, fun _ row hrow hgone => absurd hrow hgone⟩
  | cons name rest ih =>
    obtain ⟨raw, index⟩ := name
    rw [Spares, ← ih]
    change (∀ row ∈ s.rows, row ∉ (clearFrom device tree paths rest
      (clearOne device tree index (paths.getD index "") (safeName raw) s).2).2.rows → Listed listed row) ↔ _
    constructor
    · intro hall
      constructor
      · intro hasks row hrow htakes
        refine hall row hrow fun hleft => ?_
        exact (mem_clearOne.mp (clearFrom_subset hleft)).2 ⟨hasks, htakes⟩
      · intro row hrow hgone
        exact hall row (mem_clearOne.mp hrow).1 hgone
    · rintro ⟨hfirst, hlater⟩ row hrow hgone
      by_cases hleft : row ∈ (clearOne device tree index (paths.getD index "") (safeName raw) s).2.rows
      · exact hlater row hleft hgone
      · rw [mem_clearOne, not_and, not_not] at hleft
        obtain ⟨hasks, htakes⟩ := hleft hrow
        exact hfirst hasks row hrow htakes

/-- Only rows of listed records are removed exactly if no turn takes others. -/
theorem clear_listed_iff (device : Device σ τ δ) (paths names : List String) (treeUri : Option String)
    (s : Storage σ) :
    (∀ row ∈ s.rows, row ∉ (clear device paths names treeUri s).2.rows → Listed names row) ↔
      Spares device (chosenTree device treeUri) paths names names.zipIdx s :=
  clearFrom_listed_iff

/-- A device without files, on which every deletion of rows goes through. -/
def emptyDevice : Device Unit Unit Unit where
  sdk := 29
  publicDirectory := "/storage/emulated/0/Download"
  fileExists _ _ := false
  isDirectory _ _ := false
  deleteFile _ _ := (false, ())
  deleteRecursively _ _ := (false, ())
  fromTreeUri _ := none
  findFile _ _ _ := none
  deleteDocument _ _ := (false, ())
  deleteThrows _ _ := false

/-- The file of that name in the folder `photos`. -/
def photo : MediaRow := ⟨["Download", "InkHole", "photos"], "a.txt", false, []⟩

/-- The received file `a.txt` takes the file of the same name in another received folder with it. -/
theorem clear_takes_other_folder :
    photo ∉ (clear emptyDevice ["/inbox/a.txt"] ["a.txt"] none
        ⟨(), [⟨["Download", "InkHole"], "a.txt", false, []⟩, photo]⟩).2.rows ∧
      ¬ Listed ["a.txt"] photo := by
  refine ⟨by decide +kernel, ?_⟩
  rintro ⟨raw, hraw, hcopy⟩
  rw [List.mem_singleton] at hraw
  subst hraw
  have hname : safeName "a.txt" = "a.txt" := by decide +kernel
  rw [hname] at hcopy
  rcases hcopy with ⟨hpath, -⟩ | ⟨folder, hfolder, hbelow⟩
  · exact absurd hpath (by decide)
  · have hstarts : ∃ rest, folder.toList = 'a' :: rest := by
      rcases hfolder with rfl | ⟨n, rfl⟩
      · exact ⟨".txt".toList, rfl⟩
      · rw [numberedDirectory, String.append_assoc, String.append_assoc, String.toList_append]
        exact ⟨_, rfl⟩
    obtain ⟨rest, hrest⟩ := hstarts
    have hphotos : photo.relativePath = "Download/InkHole/".toList ++ "photos/".toList := by decide
    rw [hrest, hphotos, List.append_assoc, List.prefix_append_right_inj] at hbelow
    exact absurd (List.cons_prefix_cons.mp hbelow).1 (by decide)

end ReceivedCleaner

end InkHole
