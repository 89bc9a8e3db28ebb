import InkHole.Documents
import InkHole.FolderPaths

/-! The names of the entries that a store makes: those of a folder are the components of its paths,
and the others lie in a state directory itself. -/

set_option linter.unusedSectionVars false

namespace InkHole

open Fallible TransferStore

/-- A name that a file system has. -/
def ProperName (name : String) : Prop := '/' ∉ name.toList ∧ name ≠ ""

theorem Portable.proper {name : String} (h : Portable name.toList) : ProperName name := by
  refine ⟨fun hc => absurd (h.separators _ hc) (by decide), ?_⟩
  rintro rfl
  exact h.nonempty rfl

namespace Layout

variable {L : Layout} {r : Path}

/-- The last name is proper, unless it is one that the store itself keeps in a state directory. -/
def Spelled (L : Layout) (p : Path) : Prop :=
  ∀ name q, p = name :: q → ProperName name ∨ ∃ r ∈ L.roots, q = stateDirectory :: r

theorem spelled_of_proper {name : String} {p : Path} (h : ProperName name) : L.Spelled (name :: p) := by
  rintro _ _ ⟨⟩
  exact .inl h

theorem spelled_state (hr : r ∈ L.roots) (name : String) : L.Spelled (name :: stateDirectory :: r) := by
  rintro _ _ ⟨⟩
  exact .inr ⟨r, hr, rfl⟩

theorem spelled_statePath (hr : r ∈ L.roots) (id extension : String) : L.Spelled (statePath r id extension) :=
  spelled_state hr _

variable [Externals] {β : Type}

/-- The entry that the call makes has a name of that kind. -/
def Spells (L : Layout) : Call β → Prop
  | .fs (.createDir p) => L.Spelled p
  | .fs (.openFile p _) => L.Spelled p
  | .fs (.rename _ dst) => L.Spelled dst
  | _ => True

theorem spells_of_reads {c : Call β} (h : c.Reads) : L.Spells c := by
  cases c with
  | fs op => cases op <;> trivial
  | _ => trivial

end Layout

section Spells

variable [Externals] {α β : Type} {L : Layout} {r : Path} {id : String} {Q : α → Prop} {x : CoreM α}

theorem Fallible.Uses.spells (h : Uses Call.Reads Q x) : Uses L.Spells Q x :=
  h.mono (fun _ => Layout.spells_of_reads) fun _ h => h

theorem spells_attempt {op : FsOp Contents β} (h : L.Spells (.fs op)) :
    Uses L.Spells (fun _ => True) (CoreM.attempt op) := uses_attempt h

theorem spells_fs {op : FsOp Contents β} (h : L.Spells (.fs op)) :
    Uses L.Spells (fun _ => True) (CoreM.fs op) := uses_fs h

theorem spells_removeIfExists (p : Path) : Uses L.Spells (fun _ => True) (removeIfExists p) := by
  rw [removeIfExists]
  refine uses_bind (spells_attempt trivial) fun r _ => ?_
  split
  · exact uses_pure trivial
  · exact uses_pure trivial
  · exact uses_throw _

theorem spells_removeDirAllIfExists (p : Path) : Uses L.Spells (fun _ => True) (removeDirAllIfExists p) := by
  have hall : ∀ entries, Uses L.Spells (fun _ => True) (removeAll p entries) := by
    intro entries
    induction entries with
    | nil => exact uses_pure trivial
    | cons entry rest ih =>
      rw [removeAll]
      refine uses_bind (Q := fun _ => True) ?_ fun _ _ => ih
      rw [removeEntry]
      split
      · exact spells_fs trivial
      · exact spells_fs trivial
  rw [removeDirAllIfExists]
  refine uses_bind (spells_attempt trivial) fun r _ => ?_
  split
  · split
    · exact spells_fs trivial
    · rw [removeDirAll]
      refine uses_bind (spells_fs trivial) fun entries _ => ?_
      exact uses_bind (hall entries) fun _ _ => spells_fs trivial
    · exact uses_throw _
  · exact uses_pure trivial
  · exact uses_throw _

theorem spells_atomicWriteJson (hr : r ∈ L.roots) (name : String) (value : Record) :
    Uses L.Spells (fun _ => True) (atomicWriteJson (name :: stateDirectory :: r) value) := by
  have hstate := fun name => Layout.spelled_state hr name
  rw [atomicWriteJson]
  refine uses_bind (uses_newUuid trivial) fun uuid _ => ?_
  refine uses_bind (spells_fs (hstate _)) fun _ _ => ?_
  refine uses_bind (spells_fs trivial) fun _ _ => ?_
  refine uses_bind (spells_fs trivial) fun _ _ => ?_
  refine uses_bind (spells_attempt (hstate name)) fun first _ => ?_
  split
  · exact uses_pure trivial
  · refine uses_bind (spells_attempt trivial) fun _ _ => ?_
    refine uses_bind (spells_attempt (hstate name)) fun second _ => ?_
    split
    · exact uses_pure trivial
    · exact uses_bind (spells_attempt trivial) fun _ _ => uses_throw _

theorem spells_ensureDirectory {p : Path} (hp : L.Spelled p) :
    Uses L.Spells (fun _ => True) (ensureDirectory p) := by
  rw [ensureDirectory]
  refine uses_bind (spells_attempt trivial) fun r _ => ?_
  split
  · exact (uses_throwIf _ _).any
  · refine uses_bind (spells_attempt hp) fun made _ => ?_
    split
    · exact uses_pure trivial
    · exact (reads_ensureDirectoryExists p).spells
    · exact uses_throw _
  · exact uses_throw _

/-! Folders. -/

theorem spells_makeDirectory {p : Path} (hp : L.Spelled p) : Uses L.Spells (fun _ => True) (makeDirectory p) := by
  rw [makeDirectory]
  refine uses_bind (spells_attempt hp) fun made _ => ?_
  split
  · exact uses_pure trivial
  · exact (reads_ensureDirectoryExists p).spells
  · exact uses_throw _

theorem spells_makeDirectories (root : Path) {names : List String} (h : ∀ name ∈ names, ProperName name) :
    Uses L.Spells (fun _ => True) (makeDirectories root names) := by
  induction names generalizing root with
  | nil => exact uses_pure trivial
  | cons name names ih =>
    obtain ⟨hname, hnames⟩ := List.forall_mem_cons.mp h
    rw [makeDirectories]
    exact uses_bind (spells_makeDirectory (Layout.spelled_of_proper hname)) fun _ _ => ih _ hnames

theorem proper_components {relative : String} (h : validateFolderRelativePath relative = .ok ()) :
    ∀ name ∈ components relative, ProperName name :=
  fun name hname => ⟨not_mem_components hname, (valid_components h).2 name hname⟩

theorem spells_ensureSafeParentDirectories (root : Path) (relative : String) :
    Uses L.Spells (fun _ => True) (ensureSafeParentDirectories root relative) := by
  rw [ensureSafeParentDirectories]
  refine uses_bind (uses_lift fun _ h => h) fun _ h => ?_
  refine uses_bind (reads_ensureDirectoryExists root).spells fun _ _ => ?_
  exact spells_makeDirectories root fun name hname => proper_components h name (List.dropLast_subset _ hname)

/-- The path of an entry ends with a component. -/
theorem spelled_folderEntryPath (root : Path) (relative : String) :
    Uses L.Spells L.Spelled (liftM (folderEntryPath root relative) : CoreM Path) := by
  refine uses_lift fun path h => ?_
  have hv : validateFolderRelativePath relative = .ok () := by
    rw [folderEntryPath] at h
    exact (bind_eq_ok.mp h).choose_spec.1
  rw [folderEntryPath_eq h]
  intro name q hp
  obtain ⟨names, last, hlast⟩ := (List.eq_nil_or_concat (components relative)).resolve_left (components_ne_nil relative)
  simp only [hlast, List.concat_eq_append, List.reverse_append, List.reverse_singleton,
    List.cons_append, List.cons.injEq] at hp
  exact .inl (hp.1 ▸ proper_components hv last (by simp [hlast]))

theorem spells_createManifestDirectories (root : Path) (manifest : FolderManifest) :
    Uses L.Spells (fun _ => True) (createManifestDirectories root manifest) := by
  have hall : ∀ entries, Uses L.Spells (fun _ => True) (createDirectories root entries) := by
    intro entries
    induction entries with
    | nil => exact uses_pure trivial
    | cons entry rest ih =>
      rw [createDirectories]
      refine uses_bind (spells_ensureSafeParentDirectories root entry.path) fun _ _ => ?_
      refine uses_bind (spelled_folderEntryPath root entry.path) fun path hpath => ?_
      exact uses_bind (spells_makeDirectory hpath) fun _ _ => ih
  exact uses_bind (reads_ensureDirectoryExists root).spells fun _ _ => hall _

theorem spells_resumePosition (staging : Path) (entries : List FolderEntry) (fileIndex completed : Nat) :
    Uses L.Spells (fun _ => True) (resumePosition staging entries fileIndex completed) := by
  induction entries generalizing fileIndex completed with
  | nil => exact uses_pure trivial
  | cons entry rest ih =>
    rw [resumePosition]
    refine uses_bind (uses_lift fun _ _ => trivial) fun path _ => ?_
    refine uses_bind (spells_ensureSafeParentDirectories _ _) fun _ _ => ?_
    refine uses_bind (spells_attempt trivial) fun found _ => ?_
    split
    · exact uses_pure trivial
    · exact uses_throw _
    · refine uses_bind (uses_throwIf _ _) fun _ _ => ?_
      refine uses_bind (uses_throwIf _ _) fun _ _ => ?_
      split
      · exact uses_pure trivial
      · refine uses_bind (reads_blake3FileHex path).spells fun digest _ => ?_
        split
        · exact uses_bind (spells_removeIfExists path) fun _ _ => uses_pure trivial
        · split
          · exact ih _ _
          · exact uses_throw _

theorem spells_openFolderFile (prepared : PreparedFolderTransfer) (entry : FolderEntry) (offset : Nat) :
    Uses L.Spells (fun _ => True) (openFolderFile prepared entry offset) := by
  rw [openFolderFile]
  refine uses_bind (uses_throwIf _ _) fun _ _ => ?_
  refine uses_bind (spelled_folderEntryPath _ _) fun path hpath => ?_
  refine uses_bind (spells_ensureSafeParentDirectories _ _) fun _ _ => ?_
  refine uses_bind (Q := fun _ => True) ?_ fun _ _ => ?_
  · rw [checkCheckpoint]
    refine uses_bind (spells_attempt trivial) fun found _ => ?_
    split
    · refine uses_bind (uses_throwIf _ _) fun _ _ => ?_
      exact (uses_throwIf _ _).any
    · exact (uses_throwIf _ _).any
  · exact uses_bind (spells_fs hpath) fun _ _ => uses_pure trivial

theorem spells_verifyFolderFile (prepared : PreparedFolderTransfer) (entry : FolderEntry) :
    Uses L.Spells (fun _ => True) (verifyFolderFile prepared entry) := by
  rw [verifyFolderFile]
  refine uses_bind (uses_lift fun _ _ => trivial) fun path _ => ?_
  refine uses_bind (spells_ensureSafeParentDirectories _ _) fun _ _ => ?_
  refine uses_bind (Q := fun _ => True) ?_ fun intact _ => ?_
  · rw [folderFileIntact]
    refine uses_bind (spells_fs trivial) fun metadata _ => ?_
    split
    · exact uses_pure trivial
    · exact uses_bind (reads_blake3FileHex path).spells fun _ _ => uses_pure trivial
  · split
    · exact (reads_applyModifiedTime _ _).spells
    · exact uses_bind (spells_removeIfExists path) fun _ _ => uses_throw _

/-! State files. -/

theorem spells_keepMetadata (hr : r ∈ L.roots) (expected : StoredOffer) :
    Uses L.Spells (fun _ => True) (keepMetadata expected (statePaths r id)) := by
  rw [keepMetadata]
  refine uses_bind (reads_readJsonOptional _ _).spells fun found _ => ?_
  split
  · exact uses_lift fun _ _ => trivial
  · refine uses_bind (Q := fun _ => True) ?_ fun _ _ => spells_atomicWriteJson hr _ _
    rw [discardPart]
    refine uses_bind (spells_fs trivial) fun there _ => ?_
    split
    · exact spells_removeIfExists _
    · exact uses_pure trivial

theorem spells_keepFolderMetadata (hr : r ∈ L.roots) (expected : StoredOffer) (manifest : FolderManifest) :
    Uses L.Spells (fun _ => True) (keepFolderMetadata expected manifest (statePaths r id)) := by
  rw [keepFolderMetadata]
  refine uses_bind (reads_readJsonOptional _ _).spells fun found _ => ?_
  split
  · refine uses_bind (uses_lift fun _ _ => trivial) fun _ _ => ?_
    refine uses_bind (reads_readJsonOptional _ _).spells fun stored _ => ?_
    split
    · exact uses_lift fun _ _ => trivial
    · exact uses_throw _
  · refine uses_bind (spells_removeDirAllIfExists _) fun _ _ => ?_
    refine uses_bind (spells_removeIfExists _) fun _ _ => ?_
    refine uses_bind (spells_atomicWriteJson hr _ _) fun _ _ => ?_
    exact spells_atomicWriteJson hr _ _

theorem spells_partLength (hr : r ∈ L.roots) :
    Uses L.Spells (fun _ => True) (partLength (statePaths r id)) := by
  rw [partLength]
  refine uses_bind (spells_attempt trivial) fun found _ => ?_
  split
  · exact uses_pure trivial
  · refine uses_bind (spells_fs (Layout.spelled_statePath hr _ _)) fun _ _ => ?_
    exact uses_bind (spells_fs trivial) fun _ _ => uses_pure trivial
  · exact uses_throw _

end Spells

end InkHole
