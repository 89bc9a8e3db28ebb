import InkHole.Layout
import InkHole.Transport

/-! What the operations of the store touch, whatever the file system answers: most only
read, and the others keep to the state files of their own transfer. -/

set_option linter.unusedSectionVars false

namespace InkHole

open Fallible

variable {α β : Type}

variable [Externals]

def FsOp.Reads : FsOp Contents β → Prop
  | .symlinkMetadata _ => True
  | .metadata _ => True
  | .tryExists _ => True
  | .read _ => True
  | .readDir _ => True
  | .walk _ => True
  | .sync _ => True
  | .setModified _ => True
  | _ => False

def Call.Reads : Call β → Prop
  | .fs op => op.Reads
  | _ => False

/-- The call asks whether a path exists. -/
def Call.Looks : Call β → Prop
  | .fs (.tryExists _) => True
  | _ => False

/-- The call changes the state files of one transfer only, and never the part itself. A
document is renamed into its place from beside it. -/
def Layout.TameOp (L : Layout) (id : String) : FsOp Contents β → Prop
  | .createDir p => L.Owned id p
  | .openFile p _ => L.Owned id p
  | .edit p _ => L.Owned id p ∧ ∀ r ∈ L.roots, p ≠ statePath r id "part"
  | .removeFile p => L.Owned id p
  | .removeDir p => L.Owned id p
  | .rename src dst => ∃ r ∈ L.roots, ∃ (n : RecordName) (uuid : String),
      src = statePath r id (n.temporary uuid) ∧ dst = statePath r id n.extension
  | _ => True

def Layout.Tame (L : Layout) (id : String) : Call β → Prop
  | .fs op => L.TameOp id op
  | .newUuid => True
  | .emit (.received ..) => False
  | .emit _ => True
  | .respond (.complete _) => False
  | .respond _ => True
  | .lock _ => False
  | .unlock _ => False

theorem Layout.tame_of_reads {L : Layout} {id : String} {c : Call β} (h : c.Reads) : L.Tame id c := by
  cases c with
  | fs op => cases op <;> trivial
  | _ => cases h

/-! Single calls. -/

section Calls

variable {N : ∀ {δ : Type}, Call δ → Prop} {op : FsOp Contents β}

theorem uses_attempt (h : N (.fs op)) : Uses N (fun _ => True) (CoreM.attempt op) :=
  uses_run.mpr ⟨h, fun _ _ _ => trivial⟩

theorem uses_fs (h : N (.fs op)) : Uses N (fun _ => True) (CoreM.fs op) :=
  uses_run.mpr ⟨h, fun _ _ _ => trivial⟩

theorem uses_newUuid (h : N .newUuid) : Uses N (fun _ => True) CoreM.newUuid :=
  uses_run.mpr ⟨h, fun _ _ _ => trivial⟩

theorem uses_throwIf (bad : Prop) [Decidable bad] (e : CoreError) :
    Uses N (fun _ => ¬ bad) (CoreM.throwIf bad e) := by
  rw [CoreM.throwIf]
  split
  · exact uses_throw e
  · next h => exact uses_pure h

end Calls

/-! Operations that only read. -/

section Reads

theorem reads_attempt {op : FsOp Contents β} (h : op.Reads) :
    Uses Call.Reads (fun _ => True) (CoreM.attempt op) := uses_attempt h

theorem reads_fs {op : FsOp Contents β} (h : op.Reads) :
    Uses Call.Reads (fun _ => True) (CoreM.fs op) := uses_fs h

theorem reads_readJsonOptional (decode : Record → Option α) (p : Path) :
    Uses Call.Reads (fun _ => True) (readJsonOptional decode p) := by
  rw [readJsonOptional]
  refine uses_bind (reads_attempt trivial) fun r _ => ?_
  split
  · split
    · exact uses_pure trivial
    · exact uses_throw _
  · exact uses_throw _
  · exact uses_pure trivial
  · exact uses_throw _

theorem reads_blake3FileHex (p : Path) : Uses Call.Reads (fun _ => True) (blake3FileHex p) := by
  rw [blake3FileHex]
  exact uses_bind (reads_fs trivial) fun _ _ => uses_pure trivial

theorem reads_applyModifiedTime (p : Path) (ms : Int) :
    Uses Call.Reads (fun _ => True) (applyModifiedTime p ms) := reads_fs trivial

theorem reads_ensureFileDestination (p : Path) (size : Nat) (digest : String) :
    Uses Call.Reads (fun _ => True) (ensureFileDestination p size digest) := by
  rw [ensureFileDestination]
  refine uses_bind (reads_fs trivial) fun metadata _ => ?_
  refine uses_bind (uses_throwIf _ _) fun _ _ => ?_
  refine uses_bind (uses_throwIf _ _) fun _ _ => ?_
  refine uses_bind (reads_blake3FileHex p) fun actual _ => ?_
  exact (uses_throwIf _ _).any

theorem reads_ensureDirectoryExists (p : Path) :
    Uses Call.Reads (fun _ => True) (ensureDirectoryExists p) := by
  rw [ensureDirectoryExists]
  refine uses_bind (reads_fs trivial) fun metadata _ => ?_
  exact (uses_throwIf _ _).any

theorem reads_applyTimes (root : Path) (entries : List FolderEntry) :
    Uses Call.Reads (fun _ => True) (applyTimes root entries) := by
  induction entries with
  | nil => exact uses_pure trivial
  | cons entry rest ih =>
    rw [applyTimes]
    refine uses_bind (uses_lift fun _ _ => trivial) fun path _ => ?_
    exact uses_bind (reads_applyModifiedTime path _) fun _ _ => ih

theorem reads_applyManifestTimes (root : Path) (manifest : FolderManifest) :
    Uses Call.Reads (fun _ => True) (applyManifestTimes root manifest) :=
  uses_bind (reads_applyTimes root _) fun _ _ => reads_applyTimes root _

theorem reads_checkItem (manifest : FolderManifest) (path : Path) (relative : String)
    (directories : List (Path × String)) :
    Uses Call.Reads (fun _ => True) (checkItem manifest path relative directories) := by
  rw [checkItem]
  split
  · refine uses_bind (reads_fs trivial) fun metadata _ => ?_
    split
    · exact uses_throw _
    · exact uses_pure trivial
    · refine uses_bind (uses_throwIf _ _) fun _ _ => ?_
      refine uses_bind (reads_blake3FileHex path) fun digest _ => ?_
      exact uses_bind (uses_throwIf _ _) fun _ _ => uses_pure trivial
    · exact uses_throw _
  · exact uses_throw _

theorem reads_checkItems (manifest : FolderManifest) (directory : Path) (parent : String)
    (names : List String) (directories : List (Path × String)) (seen : List String) :
    Uses Call.Reads (fun _ => True) (checkItems manifest directory parent names directories seen) := by
  induction names generalizing directories seen with
  | nil => exact uses_pure trivial
  | cons name names ih =>
    rw [checkItems]
    refine uses_bind (uses_lift fun _ _ => trivial) fun _ _ => ?_
    refine uses_bind (uses_throwIf _ _) fun _ _ => ?_
    refine uses_bind (uses_throwIf _ _) fun _ _ => ?_
    exact uses_bind (reads_checkItem manifest _ _ directories) fun _ _ => ih _ _

theorem reads_walkFolder (manifest : FolderManifest) (fuel : Nat) (stack : List (Path × String))
    (seen : List String) : Uses Call.Reads (fun _ => True) (walkFolder manifest fuel stack seen) := by
  induction fuel generalizing stack seen with
  | zero =>
    cases stack with
    | nil => exact uses_pure trivial
    | cons top rest => exact uses_throw _
  | succ fuel ih =>
    cases stack with
    | nil => exact uses_pure trivial
    | cons top rest =>
      rw [walkFolder]
      refine uses_bind (reads_fs trivial) fun names _ => ?_
      exact uses_bind (reads_checkItems manifest _ _ names rest seen) fun r _ => ih r.1 r.2

theorem reads_validateFolderContents (root : Path) (manifest : FolderManifest) :
    Uses Call.Reads (fun _ => True) (validateFolderContents root manifest) := by
  rw [validateFolderContents]
  refine uses_bind (uses_lift fun _ _ => trivial) fun _ _ => ?_
  refine uses_bind (reads_ensureDirectoryExists root) fun _ _ => ?_
  refine uses_bind (reads_walkFolder manifest _ _ _) fun seen _ => ?_
  exact (uses_throwIf _ _).any

namespace TransferStore

theorem looks_uniqueFrom (root : Path) (stem extension : String) (fuel index : Nat) :
    Uses Call.Looks (fun _ => True) (uniqueFrom root stem extension fuel index) := by
  induction fuel generalizing index with
  | zero => exact uses_throw _
  | succ fuel ih =>
    rw [uniqueFrom]
    refine uses_bind (uses_fs trivial) fun found _ => ?_
    split
    · exact uses_pure trivial
    · exact ih _

theorem looks_uniqueDestination (root : Path) (filename : String) :
    Uses Call.Looks (fun _ => True) (uniqueDestination root filename) := by
  rw [uniqueDestination]
  refine uses_bind (uses_fs trivial) fun found _ => ?_
  split
  · exact uses_pure trivial
  · exact looks_uniqueFrom root _ _ _ _

variable (s : TransferStore)

theorem reads_validateCompleted (done : DoneRecord) :
    Uses Call.Reads (fun _ => True) (s.validateCompleted done) := by
  rw [validateCompleted]
  refine uses_bind (uses_lift fun _ _ => trivial) fun _ _ => ?_
  refine uses_bind (reads_fs trivial) fun found _ => ?_
  split
  · exact uses_pure trivial
  · exact uses_bind (reads_ensureFileDestination _ _ _) fun _ _ => uses_pure trivial

theorem reads_validateCompletedFolder (done : DoneRecord) :
    Uses Call.Reads (fun _ => True) (s.validateCompletedFolder done) := by
  rw [validateCompletedFolder]
  refine uses_bind (uses_lift fun _ _ => trivial) fun _ _ => ?_
  split
  · refine uses_bind (reads_fs trivial) fun found _ => ?_
    split
    · exact uses_pure trivial
    · exact uses_bind (reads_validateFolderContents _ _) fun _ _ => uses_pure trivial
  · exact uses_throw _

end TransferStore

end Reads

/-! Paths into a folder, and the directories made on the way there. -/

section Directories

variable {N : ∀ {δ : Type}, Call δ → Prop} {root : Path}

theorem folderEntryPath_eq {root path : Path} {relative : String}
    (h : folderEntryPath root relative = .ok path) : path = (components relative).reverse ++ root := by
  rw [folderEntryPath] at h
  cases hv : validateFolderRelativePath relative with
  | error e => simp [hv, Bind.bind, Except.bind] at h
  | ok _ =>
    simp only [hv, Bind.bind, Except.bind, pure, Except.pure, Except.ok.injEq] at h
    exact h.symm

theorem uses_folderEntryPath (root : Path) (relative : String) :
    Uses N (fun path => root <:+ path) (liftM (folderEntryPath root relative) : CoreM Path) :=
  uses_lift fun path h => by
    rw [folderEntryPath_eq h]
    exact List.suffix_append _ root

variable (hreads : ∀ {δ : Type} {c : Call δ}, c.Reads → N c)
  (hmake : ∀ p, root <:+ p → N (.fs (.createDir p)))

include hreads hmake

theorem uses_makeDirectory : Uses N (fun _ => True) (makeDirectory root) := by
  rw [makeDirectory]
  refine uses_bind (uses_attempt (hmake root List.suffix_rfl)) fun made _ => ?_
  split
  · exact uses_pure trivial
  · exact (reads_ensureDirectoryExists root).mono (fun _ => hreads) fun _ _ => trivial
  · exact uses_throw _

theorem uses_makeDirectories (names : List String) : Uses N (fun _ => True) (makeDirectories root names) := by
  induction names generalizing root with
  | nil => exact uses_pure trivial
  | cons name names ih =>
    have hbelow : ∀ p, name :: root <:+ p → N (.fs (.createDir p)) := fun p hp =>
      hmake p ((List.suffix_cons name root).trans hp)
    rw [makeDirectories]
    exact uses_bind (uses_makeDirectory hreads hbelow) fun _ _ => ih hbelow

theorem uses_ensureSafeParentDirectories (relative : String) :
    Uses N (fun _ => True) (ensureSafeParentDirectories root relative) := by
  have hexists := (reads_ensureDirectoryExists root).mono (fun {_} _ hc => hreads hc) fun _ _ => trivial
  rw [ensureSafeParentDirectories]
  refine uses_bind (uses_lift fun _ _ => trivial) fun _ _ => ?_
  refine uses_bind hexists fun _ _ => ?_
  exact uses_makeDirectories hreads hmake _

end Directories

/-! Operations that change the state files of their own transfer. -/

section Tame

variable {L : Layout} {id : String} {p : Path}

theorem Fallible.Uses.tame {Q : α → Prop} {x : CoreM α} (h : Uses Call.Reads Q x) :
    Uses (L.Tame id) Q x := h.mono (fun _ => Layout.tame_of_reads) fun _ h => h

theorem tame_attempt {op : FsOp Contents β} (h : L.TameOp id op) :
    Uses (L.Tame id) (fun _ => True) (CoreM.attempt op) := uses_attempt h

theorem tame_fs {op : FsOp Contents β} (h : L.TameOp id op) :
    Uses (L.Tame id) (fun _ => True) (CoreM.fs op) := uses_fs h

theorem tame_removeIfExists (hp : L.Owned id p) :
    Uses (L.Tame id) (fun _ => True) (removeIfExists p) := by
  rw [removeIfExists]
  refine uses_bind (tame_attempt hp) fun r _ => ?_
  split
  · exact uses_pure trivial
  · exact uses_pure trivial
  · exact uses_throw _

/-- The name a document is written under is not that of a part. -/
theorem not_part_temporary {r r' : Path} (n : RecordName) (uuid : String) :
    statePath r id (n.temporary uuid) ≠ statePath r' id "part" := by
  intro he
  exact n.temporary_ne uuid "part" (by simp) (stateName_inj.mp (List.cons.inj he).1)

theorem tame_atomicWriteJson (hid : StateId id) {r : Path} (hr : r ∈ L.roots) (n : RecordName)
    (value : Record) :
    Uses (L.Tame id) (fun _ => True) (atomicWriteJson (statePath r id n.extension) value) := by
  have howned : ∀ uuid, L.Owned id (statePath r id (n.temporary uuid)) := fun uuid =>
    L.owned_statePath hr id _
  rw [atomicWriteJson]
  refine uses_bind (uses_newUuid trivial) fun uuid _ => ?_
  have hrename : L.TameOp id (.rename (statePath r id (n.temporary uuid)) (statePath r id n.extension)) :=
    ⟨r, hr, n, uuid, rfl, rfl⟩
  rw [temporary_path hid]
  refine uses_bind (tame_fs (howned uuid)) fun _ _ => ?_
  refine uses_bind (tame_fs ⟨howned uuid, fun _ _ => not_part_temporary n uuid⟩) fun _ _ => ?_
  refine uses_bind (tame_fs trivial) fun _ _ => ?_
  refine uses_bind (tame_attempt hrename) fun first _ => ?_
  split
  · exact uses_pure trivial
  · refine uses_bind (tame_attempt (L.owned_statePath hr id _)) fun _ _ => ?_
    refine uses_bind (tame_attempt hrename) fun second _ => ?_
    split
    · exact uses_pure trivial
    · exact uses_bind (tame_attempt (howned uuid)) fun _ _ => uses_throw _

theorem tame_removeAll (hp : L.Owned id p) (entries : List (Path × FileKind)) :
    Uses (L.Tame id) (fun _ => True) (removeAll p entries) := by
  induction entries with
  | nil => exact uses_pure trivial
  | cons entry rest ih =>
    rw [removeAll]
    have habove := hp.above (List.suffix_append entry.1 p)
    refine uses_bind (Q := fun _ => True) ?_ fun _ _ => ih
    rw [removeEntry]
    split
    · exact tame_fs habove
    · exact tame_fs habove

theorem tame_removeDirAllIfExists (hp : L.Owned id p) :
    Uses (L.Tame id) (fun _ => True) (removeDirAllIfExists p) := by
  rw [removeDirAllIfExists]
  refine uses_bind (tame_attempt trivial) fun r _ => ?_
  split
  · split
    · exact tame_fs hp
    · rw [removeDirAll]
      refine uses_bind (tame_fs trivial) fun entries _ => ?_
      exact uses_bind (tame_removeAll hp entries) fun _ _ => tame_fs hp
    · exact uses_throw _
  · exact uses_pure trivial
  · exact uses_throw _

theorem tame_ensureDirectory (hp : L.Owned id p) :
    Uses (L.Tame id) (fun _ => True) (ensureDirectory p) := by
  rw [ensureDirectory]
  refine uses_bind (tame_attempt trivial) fun r _ => ?_
  split
  · exact (uses_throwIf _ _).any
  · refine uses_bind (tame_attempt hp) fun made _ => ?_
    split
    · exact uses_pure trivial
    · exact (reads_ensureDirectoryExists p).tame
    · exact uses_throw _
  · exact uses_throw _

theorem tame_makeDirectory (hp : L.Owned id p) :
    Uses (L.Tame id) (fun _ => True) (makeDirectory p) :=
  uses_makeDirectory L.tame_of_reads fun _ hq => hp.above hq

theorem tame_ensureSafeParentDirectories (hp : L.Owned id p) (relative : String) :
    Uses (L.Tame id) (fun _ => True) (ensureSafeParentDirectories p relative) :=
  uses_ensureSafeParentDirectories L.tame_of_reads (fun _ hq => hp.above hq) relative

theorem tame_createDirectories (hp : L.Owned id p) (entries : List FolderEntry) :
    Uses (L.Tame id) (fun _ => True) (createDirectories p entries) := by
  induction entries with
  | nil => exact uses_pure trivial
  | cons entry rest ih =>
    rw [createDirectories]
    refine uses_bind (tame_ensureSafeParentDirectories hp entry.path) fun _ _ => ?_
    refine uses_bind (uses_folderEntryPath p entry.path) fun path hpath => ?_
    exact uses_bind (tame_makeDirectory (hp.above hpath)) fun _ _ => ih

theorem tame_createManifestDirectories (hp : L.Owned id p) (manifest : FolderManifest) :
    Uses (L.Tame id) (fun _ => True) (createManifestDirectories p manifest) :=
  uses_bind (reads_ensureDirectoryExists p).tame fun _ _ => tame_createDirectories hp _

namespace TransferStore

variable (s : TransferStore) {r : Path}

theorem tame_recoverCommit (hid : StateId id) (hr : r ∈ L.roots) (commit : CommitRecord) :
    Uses (L.Tame id) (fun _ => True) (s.recoverCommit commit (statePaths r id)) := by
  rw [recoverCommit]
  refine uses_bind (uses_lift fun _ _ => trivial) fun _ _ => ?_
  refine uses_bind (tame_fs trivial) fun found _ => ?_
  split
  · exact uses_pure trivial
  · refine uses_bind (reads_ensureFileDestination _ _ _).tame fun _ _ => ?_
    refine uses_bind (tame_atomicWriteJson hid hr .done _) fun _ _ => ?_
    refine uses_bind (tame_removeIfExists (L.owned_statePath hr id "part")) fun _ _ => ?_
    refine uses_bind (tame_removeIfExists (L.owned_statePath hr id "json")) fun _ _ => ?_
    refine uses_bind (tame_removeIfExists (L.owned_statePath hr id "commit.json")) fun _ _ => ?_
    exact uses_pure trivial

theorem tame_recoverFolderCommit (hid : StateId id) (hr : r ∈ L.roots) (commit : CommitRecord) :
    Uses (L.Tame id) (fun _ => True) (s.recoverFolderCommit commit (statePaths r id)) := by
  rw [recoverFolderCommit]
  refine uses_bind (uses_lift fun _ _ => trivial) fun _ _ => ?_
  split
  · refine uses_bind (tame_fs trivial) fun found _ => ?_
    split
    · exact uses_pure trivial
    · refine uses_bind (reads_validateFolderContents _ _).tame fun _ _ => ?_
      refine uses_bind (tame_atomicWriteJson hid hr .done _) fun _ _ => ?_
      refine uses_bind (tame_removeDirAllIfExists (L.owned_statePath hr id "folder.part")) fun _ _ => ?_
      refine uses_bind (tame_removeIfExists (L.owned_statePath hr id "json")) fun _ _ => ?_
      refine uses_bind (tame_removeIfExists (L.owned_statePath hr id "manifest.json")) fun _ _ => ?_
      refine uses_bind (tame_removeIfExists (L.owned_statePath hr id "commit.json")) fun _ _ => ?_
      exact uses_pure trivial
  · exact uses_throw _

theorem tame_replayDone (hr : r ∈ L.roots) (expected : StoredOffer) :
    Uses (L.Tame id) (fun _ => True) (s.replayDone expected (statePaths r id)) := by
  rw [replayDone]
  refine uses_bind (reads_readJsonOptional _ _).tame fun found _ => ?_
  split
  · exact uses_pure trivial
  · next done =>
    refine uses_bind (uses_lift fun _ _ => trivial) fun _ _ => ?_
    refine uses_bind (s.reads_validateCompleted done).tame fun completed _ => ?_
    split
    · exact uses_pure trivial
    · refine uses_bind (tame_removeIfExists (L.owned_statePath hr id "done.json")) fun _ _ => ?_
      exact uses_pure trivial

theorem tame_replayFolderDone (hr : r ∈ L.roots) (expected : StoredOffer) (manifest : FolderManifest) :
    Uses (L.Tame id) (fun _ => True) (s.replayFolderDone expected manifest (statePaths r id)) := by
  rw [replayFolderDone]
  refine uses_bind (reads_readJsonOptional _ _).tame fun found _ => ?_
  split
  · exact uses_pure trivial
  · next done =>
    refine uses_bind (uses_lift fun _ _ => trivial) fun _ _ => ?_
    refine uses_bind (uses_lift fun _ _ => trivial) fun _ _ => ?_
    refine uses_bind (s.reads_validateCompletedFolder done).tame fun completed _ => ?_
    split
    · exact uses_pure trivial
    · refine uses_bind (tame_removeIfExists (L.owned_statePath hr id "done.json")) fun _ _ => ?_
      exact uses_pure trivial

theorem tame_replayCommit (hid : StateId id) (hr : r ∈ L.roots) (expected : StoredOffer) :
    Uses (L.Tame id) (fun _ => True) (s.replayCommit expected (statePaths r id)) := by
  rw [replayCommit]
  refine uses_bind (reads_readJsonOptional _ _).tame fun found _ => ?_
  split
  · exact uses_pure trivial
  · exact uses_bind (uses_lift fun _ _ => trivial) fun _ _ => s.tame_recoverCommit hid hr _

theorem tame_replayFolderCommit (hid : StateId id) (hr : r ∈ L.roots) (expected : StoredOffer)
    (manifest : FolderManifest) :
    Uses (L.Tame id) (fun _ => True) (s.replayFolderCommit expected manifest (statePaths r id)) := by
  rw [replayFolderCommit]
  refine uses_bind (reads_readJsonOptional _ _).tame fun found _ => ?_
  split
  · exact uses_pure trivial
  · refine uses_bind (uses_lift fun _ _ => trivial) fun _ _ => ?_
    exact uses_bind (uses_lift fun _ _ => trivial) fun _ _ => s.tame_recoverFolderCommit hid hr _

theorem tame_keepMetadata (hid : StateId id) (hr : r ∈ L.roots) (expected : StoredOffer) :
    Uses (L.Tame id) (fun _ => True) (keepMetadata expected (statePaths r id)) := by
  rw [keepMetadata]
  refine uses_bind (reads_readJsonOptional _ _).tame fun found _ => ?_
  split
  · exact uses_lift fun _ _ => trivial
  · refine uses_bind (Q := fun _ => True) ?_ fun _ _ => tame_atomicWriteJson hid hr .metadata _
    rw [discardPart]
    refine uses_bind (tame_fs trivial) fun found _ => ?_
    split
    · exact tame_removeIfExists (L.owned_statePath hr id "part")
    · exact uses_pure trivial

theorem tame_keepFolderMetadata (hid : StateId id) (hr : r ∈ L.roots) (expected : StoredOffer)
    (manifest : FolderManifest) :
    Uses (L.Tame id) (fun _ => True) (keepFolderMetadata expected manifest (statePaths r id)) := by
  rw [keepFolderMetadata]
  refine uses_bind (reads_readJsonOptional _ _).tame fun found _ => ?_
  split
  · refine uses_bind (uses_lift fun _ _ => trivial) fun _ _ => ?_
    refine uses_bind (reads_readJsonOptional _ _).tame fun stored _ => ?_
    split
    · exact uses_lift fun _ _ => trivial
    · exact uses_throw _
  · refine uses_bind (tame_removeDirAllIfExists (L.owned_statePath hr id "folder.part")) fun _ _ => ?_
    refine uses_bind (tame_removeIfExists (L.owned_statePath hr id "manifest.json")) fun _ _ => ?_
    refine uses_bind (tame_atomicWriteJson hid hr .metadata _) fun _ _ => ?_
    exact tame_atomicWriteJson hid hr .manifest _

theorem tame_resumePosition (hp : L.Owned id p) (entries : List FolderEntry) (fileIndex completed : Nat) :
    Uses (L.Tame id) (fun prepared => prepared.stagingPath = p)
      (resumePosition p entries fileIndex completed) := by
  induction entries generalizing fileIndex completed with
  | nil => exact uses_pure rfl
  | cons entry rest ih =>
    rw [resumePosition]
    refine uses_bind (uses_folderEntryPath p entry.path) fun path hpath => ?_
    refine uses_bind (tame_ensureSafeParentDirectories hp entry.path) fun _ _ => ?_
    refine uses_bind (tame_attempt trivial) fun found _ => ?_
    split
    · exact uses_pure rfl
    · exact uses_throw _
    · refine uses_bind (uses_throwIf _ _) fun _ _ => ?_
      refine uses_bind (uses_throwIf _ _) fun _ _ => ?_
      split
      · exact uses_pure rfl
      · refine uses_bind (reads_blake3FileHex path).tame fun digest _ => ?_
        split
        · exact uses_bind (tame_removeIfExists (hp.above hpath)) fun _ _ => uses_pure rfl
        · split
          · exact ih _ _
          · exact uses_throw _

theorem tame_openFolderFile {prepared : PreparedFolderTransfer} (hp : L.Owned id prepared.stagingPath)
    (entry : FolderEntry) (offset : Nat) :
    Uses (L.Tame id) (fun path => prepared.stagingPath <:+ path)
      (openFolderFile prepared entry offset) := by
  rw [openFolderFile]
  refine uses_bind (uses_throwIf _ _) fun _ _ => ?_
  refine uses_bind (uses_folderEntryPath _ entry.path) fun path hpath => ?_
  refine uses_bind (tame_ensureSafeParentDirectories hp entry.path) fun _ _ => ?_
  refine uses_bind (Q := fun _ => True) ?_ fun _ _ => ?_
  · rw [checkCheckpoint]
    refine uses_bind (tame_attempt trivial) fun found _ => ?_
    split
    · refine uses_bind (uses_throwIf _ _) fun _ _ => ?_
      exact (uses_throwIf _ _).any
    · exact (uses_throwIf _ _).any
  · exact uses_bind (tame_fs (hp.above hpath)) fun _ _ => uses_pure hpath

theorem tame_verifyFolderFile {prepared : PreparedFolderTransfer} (hp : L.Owned id prepared.stagingPath)
    (entry : FolderEntry) :
    Uses (L.Tame id) (fun _ => True) (verifyFolderFile prepared entry) := by
  rw [verifyFolderFile]
  refine uses_bind (uses_folderEntryPath _ entry.path) fun path hpath => ?_
  refine uses_bind (tame_ensureSafeParentDirectories hp entry.path) fun _ _ => ?_
  refine uses_bind (Q := fun _ => True) ?_ fun intact _ => ?_
  · rw [folderFileIntact]
    refine uses_bind (tame_fs trivial) fun metadata _ => ?_
    split
    · exact uses_pure trivial
    · exact uses_bind (reads_blake3FileHex path).tame fun _ _ => uses_pure trivial
  · split
    · exact (reads_applyModifiedTime _ _).tame
    · exact uses_bind (tame_removeIfExists (hp.above hpath)) fun _ _ => uses_throw _

end TransferStore

end Tame

/-! Opening a store: its state directories are made, and old entries of them removed. -/

section Opening

variable {L : Layout} {p : Path}

def Layout.Opens (L : Layout) : Call β → Prop
  | .fs (.createDir p) => ∃ r ∈ L.roots, p <:+ stateDirectory :: r
  | .fs (.removeFile p) => L.Inside p
  | .fs (.removeDir p) => L.Inside p
  | c => c.Reads

theorem opens_attempt {op : FsOp Contents β} (h : L.Opens (.fs op)) :
    Uses L.Opens (fun _ => True) (CoreM.attempt op) := uses_attempt h

theorem opens_fs {op : FsOp Contents β} (h : L.Opens (.fs op)) :
    Uses L.Opens (fun _ => True) (CoreM.fs op) := uses_fs h

theorem uses_ignoring {N : ∀ {δ : Type}, Call δ → Prop} {Q : α → Prop} {x : CoreM α}
    (h : Uses N Q x) : Uses N (fun _ => True) (CoreM.ignoring x) := by
  rw [uses_run] at h ⊢
  rw [CoreM.ignoring, ExceptT.run_mk, Program.uses_bind]
  exact h.mono (fun _ h => h) fun _ _ _ _ => trivial

theorem opens_removeAll (hp : L.Inside p) (entries : List (Path × FileKind)) :
    Uses L.Opens (fun _ => True) (removeAll p entries) := by
  induction entries with
  | nil => exact uses_pure trivial
  | cons entry rest ih =>
    rw [removeAll]
    have habove := hp.above (List.suffix_append entry.1 p)
    refine uses_bind (Q := fun _ => True) ?_ fun _ _ => ih
    rw [removeEntry]
    split
    · exact opens_fs habove
    · exact opens_fs habove

namespace TransferStore

theorem opens_isDirectory (p : Path) : Uses L.Opens (fun _ => True) (isDirectory p) := by
  rw [isDirectory]
  refine uses_bind (opens_attempt trivial) fun r _ => ?_
  split
  · exact uses_pure trivial
  · exact uses_pure trivial

theorem opens_createDirAll (hp : ∃ r ∈ L.roots, p <:+ stateDirectory :: r) :
    Uses L.Opens (fun _ => True) (createDirAll p) := by
  induction p with
  | nil => exact uses_pure trivial
  | cons name p ih =>
    have hfailed : ∀ e, Uses L.Opens (fun _ => True)
        (do if ← isDirectory (name :: p) then return () else throw (.io e) : CoreM Unit) := by
      intro e
      refine uses_bind (opens_isDirectory _) fun found _ => ?_
      split
      · exact uses_pure trivial
      · exact uses_throw _
    rw [createDirAll]
    refine uses_bind (opens_attempt hp) fun first _ => ?_
    split
    · exact uses_pure trivial
    · obtain ⟨r, hr, hs⟩ := hp
      refine uses_bind (ih ⟨r, hr, (List.suffix_cons name p).trans hs⟩) fun _ _ => ?_
      refine uses_bind (opens_attempt ⟨r, hr, hs⟩) fun second _ => ?_
      split
      · exact uses_pure trivial
      · exact hfailed _
    · exact hfailed _

theorem opens_pruneEntry (stale : Path → Bool) (hp : L.Inside p) :
    Uses L.Opens (fun _ => True) (pruneEntry stale p) := by
  rw [pruneEntry]
  refine uses_bind (opens_attempt trivial) fun r _ => ?_
  split
  · exact uses_pure trivial
  · split
    · split
      · refine uses_ignoring (Q := fun _ => True) ?_
        rw [removeDirAll]
        refine uses_bind (opens_fs trivial) fun entries _ => ?_
        exact uses_bind (opens_removeAll hp entries) fun _ _ => opens_fs hp
      · exact uses_ignoring (opens_fs hp)
    · exact uses_pure trivial

theorem opens_pruneEntries (stale : Path → Bool) {r : Path} (hr : r ∈ L.roots) (names : List String) :
    Uses L.Opens (fun _ => True) (pruneEntries stale (stateDirectory :: r) names) := by
  induction names with
  | nil => exact uses_pure trivial
  | cons name names ih =>
    exact uses_bind (opens_pruneEntry stale ⟨r, hr, name, [], rfl⟩) fun _ _ => ih

theorem opens_openRoots (stale : Path → Bool) {roots : List Path} (hr : ∀ r ∈ roots, r ∈ L.roots) :
    Uses L.Opens (fun _ => True) (openRoots stale roots) := by
  induction roots with
  | nil => exact uses_pure trivial
  | cons r roots ih =>
    have hmem := hr r List.mem_cons_self
    rw [openRoots]
    refine uses_bind (opens_createDirAll ⟨r, hmem, List.suffix_rfl⟩) fun _ _ => ?_
    refine uses_bind (Q := fun _ => True) ?_ fun _ _ => ih fun r h => hr r (List.mem_cons_of_mem _ h)
    rw [pruneStaleState]
    refine uses_bind (opens_attempt trivial) fun listed _ => ?_
    split
    · exact opens_pruneEntries stale hmem _
    · exact uses_pure trivial

theorem opens_withCategoryRoots (stale : Path → Bool) (serial : Nat) {inbox : Path}
    {categoryRoots : InboxCategoryRoots} (hr : ∀ r ∈ categoryRoots.allRoots inbox, r ∈ L.roots) :
    Uses L.Opens (fun _ => True) (withCategoryRoots stale serial inbox categoryRoots) := by
  rw [withCategoryRoots]
  exact uses_bind (opens_openRoots stale hr) fun _ _ => uses_pure trivial

end TransferStore

end Opening

end InkHole
