import InkHole.FolderPaths
import InkHole.Footprint
import InkHole.Guards
import InkHole.LinkedPaths
import InkHole.Operations

/-! What the folder operations of the store do to the paths of a staging tree, with links anywhere in it
or above it. -/

set_option linter.unusedSectionVars false

namespace InkHole

open InkHole.CoreM Fallible FileTree

section Staged

variable [Externals] {β : Type} {t t' : FileTree Contents} {w w' : World} {root folder q : Path} {name : String}

/-- A regular file stands there, as the system reports it without following a link. -/
def FileTree.Regular (t : FileTree Contents) (p : Path) : Prop := ∃ len, t.stat (t.locate p) = .ok ⟨.file, len⟩

/-- What may be asked of the entry `q` of the folder. Files are opened only where a regular file or
nothing is, and what is removed is what is there, if anything is found. -/
def FsOp.Heeds (t : FileTree Contents) (root q : Path) : FsOp Contents β → Prop
  | .symlinkMetadata _ => t.Reached root q
  | .createDir _ => t.Reached root q
  | .openFile _ _ => t.Reached root q ∧
      (t.Regular (q ++ root) ∨ t.stat (t.locate (q ++ root)) = .error .notFound)
  | .read _ => t.Reached root q ∧ t.Regular (q ++ root)
  | .setModified _ => t.Reached root q ∧ t.Regular (q ++ root)
  | .removeFile _ => ∀ place, t.locate (q ++ root) = .ok place → t.Reached root q
  | .removeDir _ => ∀ place, t.locate (q ++ root) = .ok place → t.Reached root q
  | _ => False

/-- The call looks through a link in the last component, were one there. -/
def FsOp.Follows : FsOp Contents β → Prop
  | .openFile _ _ => True
  | .read _ => True
  | .setModified _ => True
  | _ => False

/-- The call goes to the entry itself, below the place of the folder, and changes nothing outside. -/
structure FsOp.Confined (t : FileTree Contents) (root q : Path) (op : FsOp Contents β) : Prop where
  inside : ∀ folder place, t.locate root = .ok folder → t.locate (q ++ root) = .ok place → place = q ++ folder
  direct : ∀ folder, t.locate root = .ok folder → op.Follows → t.resolve (q ++ root) = .ok (q ++ folder)
  outside : ∀ folder, t.locate root = .ok folder → ∀ p, ¬ folder <:+ p → (op.exec t).2.get p = t.get p

/-- Every call below the folder heeds what is there, the calls of `exempt` apart. -/
def Call.Staged (exempt : ∀ {δ : Type}, FsOp Contents δ → Prop) (root : Path) (c : Call β) (w : World) : Prop :=
  match c with
  | .fs op => ∀ q, q ≠ [] → q ++ root ∈ op.paths → op.Heeds w.fs root q ∧ op.Confined w.fs root q ∨ exempt op
  | _ => True

/-- The call reads at the path or below it. -/
def Call.Within (p : Path) : Call β → Prop
  | .fs op => op.Reads ∧ ∀ r ∈ op.paths, p <:+ r
  | _ => False

/-- The call is given no path longer than this, or is let through. -/
def Call.Off (exempt : ∀ {δ : Type}, FsOp Contents δ → Prop) (length : Nat) : Call β → Prop
  | .fs op => (∀ p ∈ op.paths, p.length ≤ length) ∨ exempt op
  | _ => True

/-- A read by which a folder that has been delivered is checked. -/
def TransferStore.ChecksDelivered (s : TransferStore) (op : FsOp Contents β) : Prop :=
  op.Reads ∧ ∃ (offer : StoredOffer) (name : String), ∀ p ∈ op.paths, name :: s.destinationRootStored offer <:+ p

/-! A call that heeds what is there stays inside. -/

theorem putOr_outside {place : Path} {n : Node Contents} (hplace : folder <:+ place) {p : Path} (hp : ¬ folder <:+ p) :
    (t.putOr place n).2.get p = t.get p := by
  rw [get_putOr, if_neg]
  rintro ⟨-, rfl⟩
  exact hp hplace

theorem erase_outside {place : Path} (hplace : folder <:+ place) {p : Path} (hp : ¬ folder <:+ p) :
    (t.erase place).get p = t.get p := by
  rcases get_erase_or t place p with h | ⟨rfl, -⟩
  · exact h
  · exact absurd hplace hp

theorem FileTree.Reached.regular_resolve (h : t.Reached root q) (hroot : t.locate root = .ok folder)
    (hr : t.Regular (q ++ root) ∨ t.stat (t.locate (q ++ root)) = .error .notFound) :
    t.resolve (q ++ root) = .ok (q ++ folder) := by
  have hplace := h.place hroot
  refine resolve_of_locate hplace fun target hlink => ?_
  rw [Regular, hplace, stat, hlink] at hr
  rcases hr with ⟨len, hr⟩ | hr
  · cases hr
  · cases hr

theorem openAt_outside {p place : Path} {o : OpenOptions} (hlocate : t.locate p = .ok place)
    (hresolve : t.resolve p = .ok place) (hplace : folder <:+ place) {r : Path} (hr : ¬ folder <:+ r) :
    (t.openAt p o).2.get r = t.get r := by
  rw [openAt, hlocate, hresolve]
  by_cases hnew : o.createNew = true
  · simp only [hnew, if_true]
    split
    · rfl
    · exact putOr_outside hplace hr
  · simp only [Bool.eq_false_iff.mpr hnew, Bool.false_eq_true, if_false]
    split
    · split
      · exact putOr_outside hplace hr
      · rfl
    · split
      · exact putOr_outside hplace hr
      · rfl
    · rfl

theorem makeDir_outside {p place : Path} (hlocate : t.locate p = .ok place) (hplace : folder <:+ place) {r : Path}
    (hr : ¬ folder <:+ r) : (t.makeDir p).2.get r = t.get r := by
  rw [makeDir, hlocate]
  simp only
  split
  · rfl
  · exact putOr_outside hplace hr

theorem unlink_outside {p : Path} (hplace : ∀ place, t.locate p = .ok place → folder <:+ place) {r : Path}
    (hr : ¬ folder <:+ r) : (t.unlink p).2.get r = t.get r := by
  rw [unlink]
  cases hlocate : t.locate p with
  | error e => rfl
  | ok place =>
    simp only
    split
    · rfl
    · rfl
    · exact erase_outside (hplace place hlocate) hr

theorem removeEmptyDir_outside {p : Path} (hplace : ∀ place, t.locate p = .ok place → folder <:+ place) {r : Path}
    (hr : ¬ folder <:+ r) : (t.removeEmptyDir p).2.get r = t.get r := by
  rw [removeEmptyDir]
  cases hlocate : t.locate p with
  | error e => rfl
  | ok place =>
    simp only
    split
    · rfl
    · split
      · exact erase_outside (hplace place hlocate) hr
      · rfl
    · rfl

theorem FileTree.Reached.inside (h : ∀ place, t.locate (q ++ root) = .ok place → t.Reached root q) :
    ∀ folder place, t.locate root = .ok folder → t.locate (q ++ root) = .ok place → place = q ++ folder := by
  intro folder place hroot hlocate
  rw [(h place hlocate).place hroot] at hlocate
  exact (Except.ok.inj hlocate).symm

/-- The call of `op`, if it is a call at the entry `q`, keeps to it. -/
theorem FsOp.Heeds.confined {op : FsOp Contents β} (h : op.Heeds t root q) (hq : op.paths = [q ++ root]) :
    op.Confined t root q := by
  have hsuffix : ∀ folder, folder <:+ q ++ folder := fun folder => List.suffix_append q folder
  cases op with
  | symlinkMetadata p => exact ⟨Reached.inside fun _ _ => h, fun _ _ hf => hf.elim, fun _ _ _ _ => rfl⟩
  | createDir p =>
    obtain rfl : p = q ++ root := List.singleton_inj.mp hq
    refine ⟨Reached.inside fun _ _ => h, fun _ _ hf => hf.elim, fun folder hroot r hr => ?_⟩
    exact makeDir_outside (h.place hroot) (hsuffix folder) hr
  | openFile p o =>
    obtain rfl : p = q ++ root := List.singleton_inj.mp hq
    have hresolve folder (hroot : t.locate root = .ok folder) := h.1.regular_resolve hroot h.2
    refine ⟨Reached.inside fun _ _ => h.1, fun folder hroot _ => hresolve folder hroot, fun folder hroot r hr => ?_⟩
    exact openAt_outside (h.1.place hroot) (hresolve folder hroot) (hsuffix folder) hr
  | read p =>
    exact ⟨Reached.inside fun _ _ => h.1, fun folder hroot _ => h.1.regular_resolve hroot (.inl h.2), fun _ _ _ _ => rfl⟩
  | setModified p =>
    exact ⟨Reached.inside fun _ _ => h.1, fun folder hroot _ => h.1.regular_resolve hroot (.inl h.2), fun _ _ _ _ => rfl⟩
  | removeFile p =>
    obtain rfl : p = q ++ root := List.singleton_inj.mp hq
    have hinside := Reached.inside h
    refine ⟨hinside, fun _ _ hf => hf.elim, fun folder hroot r hr => ?_⟩
    exact unlink_outside (fun place hplace => hinside folder place hroot hplace ▸ hsuffix folder) hr
  | removeDir p =>
    obtain rfl : p = q ++ root := List.singleton_inj.mp hq
    have hinside := Reached.inside h
    refine ⟨hinside, fun _ _ hf => hf.elim, fun folder hroot r hr => ?_⟩
    exact removeEmptyDir_outside (fun place hplace => hinside folder place hroot hplace ▸ hsuffix folder) hr
  | _ => exact h.elim

variable {exempt : ∀ {δ : Type}, FsOp Contents δ → Prop} {op : FsOp Contents β}

theorem Call.staged_of_heeds (hq : op.paths = [q ++ root]) (h : q ≠ [] → op.Heeds w.fs root q) :
    Call.Staged exempt root (.fs op) w := by
  intro q' hne hmem
  rw [hq, List.mem_singleton] at hmem
  obtain rfl := List.append_cancel_right hmem
  exact .inl ⟨h hne, (h hne).confined hq⟩

/-- A call elsewhere is not a call below the folder. -/
theorem Call.staged_of_off (h : ∀ p ∈ op.paths, p.length ≤ root.length) : Call.Staged exempt root (.fs op) w := by
  intro q hne hmem
  have hle := h _ hmem
  have hpos := List.length_pos_iff.mpr hne
  rw [List.length_append] at hle
  omega

/-! Single calls, and what is known after them. -/

theorem guarded_attempt (h : Call.Staged exempt root (.fs op) w) :
    Guarded (Call.Staged exempt root) (fun r w' => r = (op.exec w.fs).1 ∧ w'.fs = (op.exec w.fs).2)
      (CoreM.attempt op) w := by
  rw [guarded_run]
  refine ⟨h, fun a ha => ?_⟩
  obtain rfl := Except.ok.inj ha
  exact ⟨rfl, rfl⟩

theorem guarded_fs (h : Call.Staged exempt root (.fs op) w) :
    Guarded (Call.Staged exempt root) (fun a w' => (op.exec w.fs).1 = .ok a ∧ w'.fs = (op.exec w.fs).2)
      (CoreM.fs op) w := by
  rw [guarded_run]
  refine ⟨h, fun a ha => ?_⟩
  refine ⟨?_, rfl⟩
  change (op.exec w.fs).1.mapError CoreError.io = .ok a at ha
  cases hr : (op.exec w.fs).1 with
  | ok b =>
    rw [hr] at ha
    exact congrArg _ (Except.ok.inj ha)
  | error e =>
    rw [hr] at ha
    cases ha

theorem guarded_throwIf {N : ∀ {δ : Type}, Call δ → World → Prop} {bad : Prop} [Decidable bad] {e : CoreError} :
    Guarded N (fun _ w' => ¬ bad ∧ w' = w) (CoreM.throwIf bad e) w := by
  rw [CoreM.throwIf]
  split
  · exact guarded_throw e
  · next h => exact guarded_pure ⟨h, rfl⟩

/-! The operations, one after the other. -/

theorem paths_off {p : Path} (h : p = root) : Call.Staged exempt root (.fs (.symlinkMetadata p)) w :=
  Call.staged_of_off fun r hr => by
    rw [FsOp.paths, List.mem_singleton] at hr
    rw [hr, h]

/-- After the check of a directory, it is one. -/
theorem guarded_ensureDirectoryExists (h : q ≠ [] → w.fs.Reached root q) :
    Guarded (Call.Staged exempt root)
      (fun _ w' => w.fs.stat (w.fs.locate (q ++ root)) = .ok ⟨.dir, 0⟩ ∧ w'.fs = w.fs)
      (ensureDirectoryExists (q ++ root)) w := by
  rw [ensureDirectoryExists]
  refine guarded_bind (guarded_fs (Call.staged_of_heeds rfl h)) fun metadata w' hw => ?_
  refine guarded_throwIf.mono (fun _ _ hc => hc) fun _ w'' hk => ?_
  obtain ⟨hstat, hfs⟩ := hw
  obtain ⟨hkind, rfl⟩ := hk
  change w.fs.stat (w.fs.locate (q ++ root)) = .ok metadata at hstat
  obtain ⟨place, hlocate, hdir⟩ := stat_dir hstat (not_not.mp hkind)
  exact ⟨by rw [hlocate, hdir], hfs⟩

theorem makeDir_ok (h : t.makeDir (name :: q) = (.ok (), t')) :
    t.Grows t' ∧ t'.stat (t'.locate (name :: q)) = .ok ⟨.dir, 0⟩ := by
  rw [makeDir] at h
  cases hlocate : t.locate (name :: q) with
  | error e =>
    rw [hlocate] at h
    cases h
  | ok place =>
    rw [hlocate] at h
    simp only at h
    split at h
    · cases h
    · next hfree =>
      rw [Bool.or_eq_true, not_or] at hfree
      have hnone : t.get place = none := by simpa using hfree.2
      have hne : place ≠ [] := by simpa using hfree.1
      rw [putOr] at h
      split at h
      · next hput =>
        obtain rfl : t.put place .dir = t' := congrArg Prod.snd h
        have hget := get_put hput
        have hgrows : t.Grows (t.put place .dir) := by
          refine ⟨fun p n hn => ?_, ?_⟩
          · have hp : p ≠ place := fun he => by rw [he, hnone] at hn; cases hn
            rw [hget, if_neg hp, hn]
          · rw [hget, if_neg hne.symm]
        refine ⟨hgrows, ?_⟩
        rw [hgrows.locate hlocate, stat, hget, if_pos rfl]
        rfl
      · cases h

/-- A directory that is made, or found, on the way down. -/
theorem guarded_makeDirectory (h : w.fs.Paved root q) :
    Guarded (Call.Staged exempt root) (fun _ w' => w'.fs.Paved root (name :: q))
      (makeDirectory (name :: q ++ root)) w := by
  have hreached := h.reached name
  rw [makeDirectory]
  refine guarded_bind (guarded_attempt (Call.staged_of_heeds rfl fun _ => hreached)) fun r w' hw => ?_
  obtain ⟨hr, hfs⟩ := hw
  have hexec : w.fs.makeDir (name :: (q ++ root)) = (r, w'.fs) := Prod.ext hr.symm hfs.symm
  split
  · obtain ⟨hgrows, hdir⟩ := makeDir_ok hexec
    exact guarded_pure ((hgrows.paved h).cons hdir)
  · have hsame : w'.fs = w.fs := by
      rw [hfs]
      exact FsOp.exec_error hr.symm
    rw [← hsame] at h hreached
    refine (guarded_ensureDirectoryExists fun _ => hreached).mono (fun _ _ hc => hc) fun _ w'' hw => ?_
    rw [hw.2]
    exact h.cons hw.1
  · exact guarded_throw _

theorem guarded_makeDirectories (names : List String) (h : w.fs.Paved root q) :
    Guarded (Call.Staged exempt root) (fun _ w' => w'.fs.Paved root (names.reverse ++ q))
      (makeDirectories (q ++ root) names) w := by
  induction names generalizing q w with
  | nil => exact guarded_pure h
  | cons name names ih =>
    rw [makeDirectories]
    refine guarded_bind (guarded_makeDirectory h) fun _ w' hw => ?_
    rw [List.reverse_cons, List.append_assoc, List.singleton_append]
    exact ih hw

/-- The parents of an entry are directories from here on. -/
theorem guarded_ensureSafeParentDirectories (relative : String) :
    Guarded (Call.Staged exempt root) (fun _ w' => w'.fs.Paved root (components relative).dropLast.reverse)
      (ensureSafeParentDirectories root relative) w := by
  rw [ensureSafeParentDirectories]
  refine guarded_bind (guarded_lift (Q := fun _ _ => True) fun _ _ => trivial) fun _ w' _ => ?_
  refine guarded_bind (guarded_ensureDirectoryExists (q := []) fun hne => absurd rfl hne) fun _ w'' hroot => ?_
  have hpaved : w''.fs.Paved root [] := by
    intro s hs
    obtain rfl := List.suffix_nil.mp hs
    rw [hroot.2]
    exact hroot.1
  have hmake : Guarded (Call.Staged exempt root)
      (fun _ w' => w'.fs.Paved root ((components relative).dropLast.reverse ++ []))
      (makeDirectories root (components relative).dropLast) w'' := guarded_makeDirectories _ hpaved
  simpa only [List.append_nil] using hmake

/-- The path of an entry is one step below its parents. -/
theorem reversed_components (relative : String) :
    ∃ name, (components relative).reverse = name :: (components relative).dropLast.reverse := by
  have hne := components_ne_nil relative
  refine ⟨(components relative).getLast hne, ?_⟩
  rw [← List.reverse_concat', List.dropLast_append_getLast hne]

theorem guarded_folderEntryPath {N : ∀ {δ : Type}, Call δ → World → Prop} (relative : String) :
    Guarded N (fun path w' => path = (components relative).reverse ++ root ∧ w' = w)
      (liftM (folderEntryPath root relative) : CoreM Path) w :=
  guarded_lift fun _ h => ⟨folderEntryPath_eq h, rfl⟩

theorem guarded_symlinkMetadata (h : w.fs.Reached root q) :
    Guarded (Call.Staged exempt root) (fun r w' => r = w.fs.stat (w.fs.locate (q ++ root)) ∧ w'.fs = w.fs)
      (attempt (.symlinkMetadata (q ++ root))) w := by
  have hcall : Call.Staged exempt root (.fs (.symlinkMetadata (q ++ root))) w :=
    Call.staged_of_heeds rfl fun _ => h
  exact guarded_attempt hcall

theorem guarded_checkCheckpoint {offset : Nat} (h : w.fs.Reached root q) :
    Guarded (Call.Staged exempt root)
      (fun _ w' => w'.fs.Reached root q ∧
        (w'.fs.Regular (q ++ root) ∨ w'.fs.stat (w'.fs.locate (q ++ root)) = .error .notFound))
      (TransferStore.checkCheckpoint (q ++ root) offset) w := by
  rw [TransferStore.checkCheckpoint]
  refine guarded_bind (guarded_symlinkMetadata h) fun r w₁ hw => ?_
  obtain ⟨hr, hfs⟩ := hw
  rw [← hfs] at h hr
  split
  · next metadata =>
    refine guarded_bind guarded_throwIf fun _ w₂ hk => ?_
    obtain ⟨hkind, rfl⟩ := hk
    refine guarded_throwIf.mono (fun _ _ hc => hc) fun _ w₃ hs => ?_
    obtain ⟨-, rfl⟩ := hs
    have hfile : metadata = ⟨.file, metadata.len⟩ := by
      rw [← not_not.mp hkind]
    exact ⟨h, .inl ⟨metadata.len, by rw [← hr, ← hfile]⟩⟩
  · next e =>
    refine guarded_throwIf.mono (fun _ _ hc => hc) fun _ w₂ hs => ?_
    obtain ⟨hnew, rfl⟩ := hs
    have he := (not_not.mp hnew).1
    exact ⟨h, .inr (by rw [← hr, he])⟩

theorem guarded_openFolderFile (prepared : PreparedFolderTransfer) (entry : FolderEntry) (offset : Nat) :
    Guarded (Call.Staged exempt prepared.stagingPath) (fun _ _ => True)
      (TransferStore.openFolderFile prepared entry offset) w := by
  obtain ⟨name, hname⟩ := reversed_components entry.path
  rw [TransferStore.openFolderFile]
  refine guarded_bind guarded_throwIf fun _ w₁ _ => ?_
  refine guarded_bind (guarded_folderEntryPath entry.path) fun path w₂ hpath => ?_
  obtain ⟨rfl, -⟩ := hpath
  rw [hname]
  refine guarded_bind (guarded_ensureSafeParentDirectories entry.path) fun _ w₃ hpaved => ?_
  refine guarded_bind (guarded_checkCheckpoint (hpaved.reached name)) fun _ w₄ hentry => ?_
  refine guarded_bind (guarded_fs (Call.staged_of_heeds rfl fun _ => hentry)) fun _ _ _ => ?_
  exact guarded_pure trivial

theorem guarded_blake3FileHex (h : w.fs.Reached root q) (hr : w.fs.Regular (q ++ root)) :
    Guarded (Call.Staged exempt root) (fun _ w' => w'.fs = w.fs) (blake3FileHex (q ++ root)) w := by
  rw [blake3FileHex]
  refine guarded_bind (guarded_fs (Call.staged_of_heeds rfl fun _ => ⟨h, hr⟩)) fun contents w' hw => ?_
  exact guarded_pure hw.2

theorem guarded_removeIfExists (h : w.fs.Reached root q) :
    Guarded (Call.Staged exempt root) (fun _ _ => True) (removeIfExists (q ++ root)) w := by
  rw [removeIfExists]
  refine guarded_bind (guarded_attempt (Call.staged_of_heeds rfl fun _ _ _ => h)) fun r _ _ => ?_
  split
  · exact guarded_pure trivial
  · exact guarded_pure trivial
  · exact guarded_throw _

theorem guarded_folderFileIntact {entry : FolderEntry} (h : w.fs.Reached root q) :
    Guarded (Call.Staged exempt root)
      (fun intact w' => w'.fs.Reached root q ∧ (intact = true → w'.fs.Regular (q ++ root)))
      (TransferStore.folderFileIntact (q ++ root) entry) w := by
  rw [TransferStore.folderFileIntact]
  refine guarded_bind (guarded_fs (Call.staged_of_heeds rfl fun _ => h)) fun metadata w₁ hw => ?_
  obtain ⟨hstat, hfs⟩ := hw
  change w.fs.stat (w.fs.locate (q ++ root)) = .ok metadata at hstat
  change w₁.fs = w.fs at hfs
  rw [← hfs] at h hstat
  split
  · exact guarded_pure ⟨h, fun hc => by cases hc⟩
  · next hkind =>
    rw [not_or, not_not] at hkind
    have hregular : w₁.fs.Regular (q ++ root) := ⟨metadata.len, by rw [hstat, ← hkind.1]⟩
    refine guarded_bind (guarded_blake3FileHex h hregular) fun digest w₂ hw => ?_
    rw [← hw] at h hregular
    exact guarded_pure ⟨h, fun _ => hregular⟩

theorem guarded_verifyFolderFile (prepared : PreparedFolderTransfer) (entry : FolderEntry) :
    Guarded (Call.Staged exempt prepared.stagingPath) (fun _ _ => True)
      (TransferStore.verifyFolderFile prepared entry) w := by
  obtain ⟨name, hname⟩ := reversed_components entry.path
  rw [TransferStore.verifyFolderFile]
  refine guarded_bind (guarded_folderEntryPath entry.path) fun path w₁ hpath => ?_
  obtain ⟨rfl, -⟩ := hpath
  rw [hname]
  refine guarded_bind (guarded_ensureSafeParentDirectories entry.path) fun _ w₂ hpaved => ?_
  refine guarded_bind (guarded_folderFileIntact (hpaved.reached name)) fun intact w₃ hentry => ?_
  split
  · next hintact =>
    rw [applyModifiedTime]
    refine (guarded_fs (Call.staged_of_heeds rfl fun _ => ?_)).any
    exact ⟨hentry.1, hentry.2 hintact⟩
  · exact guarded_bind (guarded_removeIfExists hentry.1) fun _ _ _ => guarded_throw _

theorem guarded_createDirectories (entries : List FolderEntry) :
    Guarded (Call.Staged exempt root) (fun _ _ => True) (createDirectories root entries) w := by
  induction entries generalizing w with
  | nil => exact guarded_pure trivial
  | cons entry rest ih =>
    obtain ⟨name, hname⟩ := reversed_components entry.path
    rw [createDirectories]
    refine guarded_bind (guarded_ensureSafeParentDirectories entry.path) fun _ w₁ hpaved => ?_
    refine guarded_bind (guarded_folderEntryPath entry.path) fun path w₂ hpath => ?_
    obtain ⟨rfl, rfl⟩ := hpath
    rw [hname]
    exact guarded_bind (guarded_makeDirectory hpaved) fun _ _ _ => ih

theorem guarded_createManifestDirectories (manifest : FolderManifest) :
    Guarded (Call.Staged exempt root) (fun _ _ => True) (createManifestDirectories root manifest) w := by
  rw [createManifestDirectories]
  refine guarded_bind (guarded_ensureDirectoryExists (q := []) fun hne => absurd rfl hne) fun _ _ _ => ?_
  exact guarded_createDirectories _

/-! The removal of a staging tree. Its entries go the deepest first, each of them still reached through
the directories it was found in. -/

theorem mem_below {p relative : Path} {kind : FileKind} (h : (relative, kind) ∈ t.below p) :
    ∃ n, t.get (relative ++ p) = some n := by
  rw [FileTree.below, List.mem_filterMap] at h
  obtain ⟨r, hr, hentry⟩ := h
  rw [List.mem_insertionSort, List.mem_filter] at hr
  have hsuffix := (of_decide_eq_true hr.2).1
  obtain ⟨n, hn, heq⟩ := Option.map_eq_some_iff.mp hentry
  have hrelative : relative = r.take (r.length - p.length) := (congrArg Prod.fst heq).symm
  exact ⟨n, by rw [hrelative, ← suffix_iff_take.mp hsuffix, hn]⟩

theorem erase_grows {place : Path} (hne : place ≠ []) : (t.erase place).Grows t := by
  constructor
  · intro p n hn
    rcases get_erase_or t place p with h | ⟨-, h⟩
    · rwa [h] at hn
    · rw [h] at hn
      cases hn
  · rcases get_erase_or t place [] with h | ⟨h, -⟩
    · exact h.symm
    · exact absurd h.symm hne

theorem locate_ne_nil {p place : Path} (hp : p ≠ []) (h : t.locate p = .ok place) : place ≠ [] := by
  cases p with
  | nil => exact absurd rfl hp
  | cons name p =>
    obtain ⟨parent, -, -, rfl⟩ := locate_cons_ok h
    exact List.cons_ne_nil name parent

theorem unlink_grows {p : Path} (hp : p ≠ []) : (t.unlink p).2.Grows t := by
  rw [unlink]
  cases hlocate : t.locate p with
  | error e => exact Grows.refl t
  | ok place =>
    simp only
    split
    · exact Grows.refl t
    · exact Grows.refl t
    · exact erase_grows (locate_ne_nil hp hlocate)

theorem removeEmptyDir_grows {p : Path} (hp : p ≠ []) : (t.removeEmptyDir p).2.Grows t := by
  rw [removeEmptyDir]
  cases hlocate : t.locate p with
  | error e => exact Grows.refl t
  | ok place =>
    simp only
    split
    · exact Grows.refl t
    · split
      · exact erase_grows (locate_ne_nil hp hlocate)
      · exact Grows.refl t
    · exact Grows.refl t

theorem guarded_removeAll {entries : List (Path × FileKind)} (hne : root ≠ []) (hroot : t.locate root = .ok folder)
    (hfolder : t.stat (.ok folder) = .ok ⟨.dir, 0⟩)
    (hentries : ∀ e ∈ entries, ∃ n, t.get (e.1 ++ folder) = some n) (hg : w.fs.Grows t) :
    Guarded (Call.Staged exempt root) (fun _ _ => True) (removeAll root entries) w := by
  induction entries generalizing w with
  | nil => exact guarded_pure trivial
  | cons entry rest ih =>
    obtain ⟨relative, kind⟩ := entry
    rw [List.forall_mem_cons] at hentries
    have hpath : relative ++ root ≠ [] := List.append_ne_nil_of_right_ne_nil relative hne
    have hheeds : ∀ place, w.fs.locate (relative ++ root) = .ok place → w.fs.Reached root relative := by
      intro place hlocate
      obtain ⟨n, hn⟩ := hentries.1
      cases relative with
      | nil => exact fun s hs hne => absurd (List.suffix_nil.mp hs) hne
      | cons name relative => exact (hg.paved_of_entry hroot hfolder hn hlocate).reached name
    have hfile : Call.Staged exempt root (.fs (.removeFile (relative ++ root))) w :=
      Call.staged_of_heeds rfl fun _ => hheeds
    have hdir : Call.Staged exempt root (.fs (.removeDir (relative ++ root))) w :=
      Call.staged_of_heeds rfl fun _ => hheeds
    rw [removeAll]
    refine guarded_bind (Q := fun _ w' => w'.fs.Grows t) ?_ fun _ w' hw => ih hentries.2 hw
    rw [removeEntry]
    split
    · refine (guarded_fs hdir).mono (fun _ _ hc => hc) fun _ w' hw => ?_
      rw [hw.2]
      exact (removeEmptyDir_grows hpath).trans hg
    · refine (guarded_fs hfile).mono (fun _ _ hc => hc) fun _ w' hw => ?_
      rw [hw.2]
      exact (unlink_grows hpath).trans hg

theorem staged_at_root (hq : op.paths = [root]) : Call.Staged exempt root (.fs op) w :=
  Call.staged_of_off fun p hp => by
    rw [hq, List.mem_singleton] at hp
    rw [hp]

theorem guarded_removeDirAllIfExists (hne : root ≠ []) :
    Guarded (Call.Staged exempt root) (fun _ _ => True) (removeDirAllIfExists root) w := by
  rw [removeDirAllIfExists]
  refine guarded_bind (guarded_attempt (staged_at_root rfl)) fun r w₁ hw => ?_
  obtain ⟨hr, hfs⟩ := hw
  change w₁.fs = w.fs at hfs
  change r = w.fs.stat (w.fs.locate root) at hr
  split
  · next metadata =>
    split
    · exact (guarded_fs (staged_at_root rfl)).any
    · next hkind =>
      obtain ⟨folder, hroot, hfolder⟩ := stat_dir hr.symm hkind
      rw [← hfs] at hroot hfolder
      rw [removeDirAll]
      refine guarded_bind (guarded_fs (staged_at_root rfl)) fun entries w₂ hw => ?_
      obtain ⟨hentries, hfs₂⟩ := hw
      have hbelow : w₁.fs.below folder = entries := by
        change (w₁.fs.locate root).map w₁.fs.below = .ok entries at hentries
        rw [hroot] at hentries
        exact Except.ok.inj hentries
      have hthere : ∀ e ∈ entries, ∃ n, w₁.fs.get (e.1 ++ folder) = some n := by
        intro e he
        rw [← hbelow] at he
        exact mem_below he
      have hgrows : w₂.fs.Grows w₁.fs := by
        rw [hfs₂]
        exact Grows.refl w₁.fs
      refine guarded_bind (guarded_removeAll hne hroot hfolder hthere hgrows) fun _ w₃ _ => ?_
      exact (guarded_fs (staged_at_root rfl)).any
    · exact guarded_throw _
  · exact guarded_pure trivial
  · exact guarded_throw _

theorem guarded_ensureDirectory : Guarded (Call.Staged exempt root) (fun _ _ => True) (ensureDirectory root) w := by
  rw [ensureDirectory]
  refine guarded_bind (guarded_attempt (staged_at_root rfl)) fun r w₁ _ => ?_
  split
  · exact guarded_throwIf.any
  · refine guarded_bind (guarded_attempt (staged_at_root rfl)) fun r w₂ _ => ?_
    split
    · exact guarded_pure trivial
    · exact (guarded_ensureDirectoryExists (q := []) fun hne => absurd rfl hne).any
    · exact guarded_throw _
  · exact guarded_throw _

theorem guarded_resumePosition (entries : List FolderEntry) (fileIndex completed : Nat) :
    Guarded (Call.Staged exempt root) (fun _ _ => True)
      (TransferStore.resumePosition root entries fileIndex completed) w := by
  induction entries generalizing fileIndex completed w with
  | nil => exact guarded_pure trivial
  | cons entry rest ih =>
    obtain ⟨name, hname⟩ := reversed_components entry.path
    rw [TransferStore.resumePosition]
    refine guarded_bind (guarded_folderEntryPath entry.path) fun path w₁ hpath => ?_
    obtain ⟨rfl, rfl⟩ := hpath
    rw [hname]
    refine guarded_bind (guarded_ensureSafeParentDirectories entry.path) fun _ w₂ hpaved => ?_
    have hreached := hpaved.reached name
    refine guarded_bind (guarded_symlinkMetadata hreached) fun r w₃ hw => ?_
    obtain ⟨hr, hfs⟩ := hw
    rw [← hfs] at hreached hr
    split
    · exact guarded_pure trivial
    · exact guarded_throw _
    · next metadata =>
      refine guarded_bind guarded_throwIf fun _ w₄ hk => ?_
      obtain ⟨hkind, rfl⟩ := hk
      refine guarded_bind guarded_throwIf fun _ w₅ hs => ?_
      obtain ⟨-, rfl⟩ := hs
      split
      · exact guarded_pure trivial
      · have hregular : w₅.fs.Regular (name :: (components entry.path).dropLast.reverse ++ root) :=
          ⟨metadata.len, by rw [← hr, ← not_not.mp hkind]⟩
        refine guarded_bind (guarded_blake3FileHex hreached hregular) fun digest w₆ hw => ?_
        rw [← hw] at hreached
        split
        · exact guarded_bind (guarded_removeIfExists hreached) fun _ _ _ => guarded_pure trivial
        · split
          · exact ih _ _
          · exact guarded_throw _

/-! The calls beside the staging tree: the documents of the transfer, and the check of a folder that has
been delivered. -/

theorem Call.Off.staged {c : Call β} (h : c.Off exempt root.length) : c.Staged exempt root w := by
  cases c with
  | fs op =>
    rcases h with h | h
    · exact Call.staged_of_off h
    · exact fun _ _ _ => .inr h
  | _ => exact trivial

theorem guarded_of_off {α : Type} {x : CoreM α} {V : α → Prop} (h : Uses (Call.Off exempt root.length) V x) :
    Guarded (Call.Staged exempt root) (fun a _ => V a) x w := h.guarded (fun _ _ hc => hc.staged) w

section Within

variable {N : ∀ {δ : Type}, Call δ → Prop} {p : Path} (hn : ∀ {δ : Type} {c : Call δ}, c.Within p → N c)
include hn

theorem within_fs (op : FsOp Contents β) (hop : op.Reads) (hp : ∀ r ∈ op.paths, p <:+ r) :
    Uses N (fun _ => True) (CoreM.fs op) := uses_fs (hn ⟨hop, hp⟩)

theorem within_ensureDirectoryExists {r : Path} (hr : p <:+ r) : Uses N (fun _ => True) (ensureDirectoryExists r) := by
  rw [ensureDirectoryExists]
  refine uses_bind (within_fs hn _ trivial (by simpa [FsOp.paths] using hr)) fun metadata _ => ?_
  exact (uses_throwIf _ _).any

theorem within_checkItem (manifest : FolderManifest) {path : Path} (hpath : p <:+ path) (relative : String)
    {directories : List (Path × String)} (hd : ∀ x ∈ directories, p <:+ x.1) :
    Uses N (fun kept => ∀ x ∈ kept, p <:+ x.1) (checkItem manifest path relative directories) := by
  rw [checkItem]
  split
  · refine uses_bind (within_fs hn _ trivial (by simpa [FsOp.paths] using hpath)) fun metadata _ => ?_
    split
    · exact uses_throw _
    · exact uses_pure (List.forall_mem_cons.mpr ⟨hpath, hd⟩)
    · refine uses_bind (uses_throwIf _ _) fun _ _ => ?_
      refine uses_bind (Q := fun _ => True) ?_ fun digest _ => ?_
      · rw [blake3FileHex]
        exact uses_bind (within_fs hn _ trivial (by simpa [FsOp.paths] using hpath)) fun _ _ => uses_pure trivial
      · exact uses_bind (uses_throwIf _ _) fun _ _ => uses_pure hd
    · exact uses_throw _
  · exact uses_throw _

theorem within_checkItems (manifest : FolderManifest) {directory : Path} (hdir : p <:+ directory) (parent : String)
    (names : List String) {directories : List (Path × String)} (hd : ∀ x ∈ directories, p <:+ x.1)
    (seen : List String) :
    Uses N (fun r => ∀ x ∈ r.1, p <:+ x.1) (checkItems manifest directory parent names directories seen) := by
  induction names generalizing directories seen with
  | nil => exact uses_pure hd
  | cons name names ih =>
    rw [checkItems]
    refine uses_bind (uses_lift fun _ _ => trivial) fun _ _ => ?_
    refine uses_bind (uses_throwIf _ _) fun _ _ => ?_
    refine uses_bind (uses_throwIf _ _) fun _ _ => ?_
    have hitem := hdir.trans (List.suffix_cons name directory)
    exact uses_bind (within_checkItem hn manifest hitem _ hd) fun kept hk => ih hk _

theorem within_walkFolder (manifest : FolderManifest) (fuel : Nat) {stack : List (Path × String)}
    (hs : ∀ x ∈ stack, p <:+ x.1) (seen : List String) :
    Uses N (fun _ => True) (walkFolder manifest fuel stack seen) := by
  induction fuel generalizing stack seen with
  | zero =>
    cases stack with
    | nil => exact uses_pure trivial
    | cons top rest => exact uses_throw _
  | succ fuel ih =>
    cases stack with
    | nil => exact uses_pure trivial
    | cons top rest =>
      obtain ⟨htop, hrest⟩ := List.forall_mem_cons.mp hs
      rw [walkFolder]
      refine uses_bind (within_fs hn _ trivial (by simpa [FsOp.paths] using htop)) fun names _ => ?_
      exact uses_bind (within_checkItems hn manifest htop _ names hrest seen) fun r hr => ih hr r.2

theorem within_validateFolderContents (manifest : FolderManifest) :
    Uses N (fun _ => True) (validateFolderContents p manifest) := by
  rw [validateFolderContents]
  refine uses_bind (uses_lift fun _ _ => trivial) fun _ _ => ?_
  refine uses_bind (within_ensureDirectoryExists hn List.suffix_rfl) fun _ _ => ?_
  have hstart : ∀ x ∈ [(p, "")], p <:+ x.1 := by
    intro x hx
    obtain rfl := List.mem_singleton.mp hx
    exact List.suffix_rfl
  refine uses_bind (within_walkFolder hn manifest _ hstart _) fun seen _ => ?_
  exact (uses_throwIf _ _).any

end Within

section Documents

variable {length : Nat} {p : Path} (hp : p.length ≤ length)
include hp

theorem off_of_path (op : FsOp Contents β) (h : ∀ r ∈ op.paths, r.length = p.length) :
    Call.Off exempt length (.fs op) := .inl fun r hr => by
  rw [h r hr]
  exact hp

theorem off_readJsonOptional {α : Type} (decode : Record → Option α) :
    Uses (Call.Off exempt length) (fun _ => True) (readJsonOptional decode p) := by
  rw [readJsonOptional]
  refine uses_bind (uses_attempt (off_of_path hp _ (by simp [FsOp.paths]))) fun r _ => ?_
  split
  · split
    · exact uses_pure trivial
    · exact uses_throw _
  · exact uses_throw _
  · exact uses_pure trivial
  · exact uses_throw _

theorem off_removeIfExists : Uses (Call.Off exempt length) (fun _ => True) (removeIfExists p) := by
  rw [removeIfExists]
  refine uses_bind (uses_attempt (off_of_path hp _ (by simp [FsOp.paths]))) fun r _ => ?_
  split
  · exact uses_pure trivial
  · exact uses_pure trivial
  · exact uses_throw _

theorem off_atomicWriteJson (value : Record) :
    Uses (Call.Off exempt length) (fun _ => True) (atomicWriteJson p value) := by
  have hlength : ∀ extension, (p.withExtension extension).length = p.length := by
    intro extension
    cases p <;> rfl
  rw [atomicWriteJson]
  refine uses_bind (uses_newUuid trivial) fun uuid _ => ?_
  refine uses_bind (uses_fs (off_of_path hp _ (by simp [FsOp.paths, hlength]))) fun _ _ => ?_
  refine uses_bind (uses_fs (off_of_path hp _ (by simp [FsOp.paths, hlength]))) fun _ _ => ?_
  refine uses_bind (uses_fs (off_of_path hp _ (by simp [FsOp.paths, hlength]))) fun _ _ => ?_
  refine uses_bind (uses_attempt (off_of_path hp _ (by simp [FsOp.paths, hlength]))) fun renamed _ => ?_
  split
  · exact uses_pure trivial
  · refine uses_bind (uses_attempt (off_of_path hp _ (by simp [FsOp.paths]))) fun _ _ => ?_
    refine uses_bind (uses_attempt (off_of_path hp _ (by simp [FsOp.paths, hlength]))) fun second _ => ?_
    split
    · exact uses_pure trivial
    · refine uses_bind (uses_attempt (off_of_path hp _ (by simp [FsOp.paths, hlength]))) fun _ _ => ?_
      exact uses_throw _

end Documents

section Prepare

open TransferStore

variable (s : TransferStore) (offer : TransferOffer)

theorem off_delivered {destination : String} {stored : StoredOffer} {length : Nat} {δ : Type} {c : Call δ}
    (h : c.Within (destination :: s.destinationRootStored stored)) : c.Off s.ChecksDelivered length := by
  cases c with
  | fs op => exact .inr ⟨h.1, stored, destination, h.2⟩
  | _ => exact h.elim

theorem off_tryExists (destination : String) (stored : StoredOffer) (length : Nat) :
    Uses (Call.Off s.ChecksDelivered length) (fun _ => True)
      (CoreM.fs (.tryExists (destination :: s.destinationRootStored stored))) := by
  have hpaths : ∀ r ∈ FsOp.paths (.tryExists (destination :: s.destinationRootStored stored) : FsOp Contents Bool),
      destination :: s.destinationRootStored stored <:+ r := by
    intro r hr
    rw [FsOp.paths, List.mem_singleton] at hr
    subst hr
    exact List.suffix_rfl
  exact within_fs (off_delivered s) _ trivial hpaths

/-- All documents of a transfer lie beside its staging tree. -/
theorem paths_length : (s.paths offer).metadata.length ≤ (s.paths offer).folderPart.length ∧
    (s.paths offer).manifest.length ≤ (s.paths offer).folderPart.length ∧
    (s.paths offer).commit.length ≤ (s.paths offer).folderPart.length ∧
    (s.paths offer).done.length ≤ (s.paths offer).folderPart.length ∧ (s.paths offer).folderPart ≠ [] := by
  simp [TransferStore.paths, Path.withExtension]

theorem off_validateCompletedFolder (done : DoneRecord) (length : Nat) :
    Uses (Call.Off s.ChecksDelivered length) (fun _ => True) (s.validateCompletedFolder done) := by
  rw [validateCompletedFolder]
  refine uses_bind (uses_lift fun _ _ => trivial) fun _ _ => ?_
  split
  · refine uses_bind (off_tryExists s _ _ length) fun found _ => ?_
    split
    · exact uses_pure trivial
    · exact uses_bind (within_validateFolderContents (off_delivered s) _) fun _ _ => uses_pure trivial
  · exact uses_throw _

theorem off_replayFolderDone (expected : StoredOffer) (manifest : FolderManifest) :
    Uses (Call.Off s.ChecksDelivered (s.paths offer).folderPart.length) (fun _ => True)
      (s.replayFolderDone expected manifest (s.paths offer)) := by
  obtain ⟨-, -, -, hdone, -⟩ := paths_length s offer
  rw [replayFolderDone]
  refine uses_bind (off_readJsonOptional hdone _) fun found _ => ?_
  split
  · exact uses_pure trivial
  · refine uses_bind (uses_lift fun _ _ => trivial) fun _ _ => ?_
    refine uses_bind (uses_lift fun _ _ => trivial) fun _ _ => ?_
    refine uses_bind (off_validateCompletedFolder s _ _) fun completed _ => ?_
    split
    · exact uses_pure trivial
    · exact uses_bind (off_removeIfExists hdone) fun _ _ => uses_pure trivial

theorem guarded_recoverFolderCommit (commit : CommitRecord) :
    Guarded (Call.Staged s.ChecksDelivered (s.paths offer).folderPart) (fun _ _ => True)
      (s.recoverFolderCommit commit (s.paths offer)) w := by
  obtain ⟨hmetadata, hmanifest, hcommit, hdone, hne⟩ := paths_length s offer
  rw [recoverFolderCommit]
  refine guarded_bind (guarded_lift (Q := fun _ _ => True) fun _ _ => trivial) fun _ w₁ _ => ?_
  split
  · refine guarded_bind (guarded_of_off (off_tryExists s _ _ _)) fun found w₂ _ => ?_
    split
    · exact guarded_pure trivial
    · refine guarded_bind (guarded_of_off (within_validateFolderContents (off_delivered s) _)) fun _ w₃ _ => ?_
      refine guarded_bind (guarded_of_off (off_atomicWriteJson hdone _)) fun _ w₄ _ => ?_
      refine guarded_bind (guarded_removeDirAllIfExists hne) fun _ w₅ _ => ?_
      refine guarded_bind (guarded_of_off (off_removeIfExists hmetadata)) fun _ w₆ _ => ?_
      refine guarded_bind (guarded_of_off (off_removeIfExists hmanifest)) fun _ w₇ _ => ?_
      refine guarded_bind (guarded_of_off (off_removeIfExists hcommit)) fun _ w₈ _ => ?_
      exact guarded_pure trivial
  · exact guarded_throw _

theorem guarded_replayFolderCommit (expected : StoredOffer) (manifest : FolderManifest) :
    Guarded (Call.Staged s.ChecksDelivered (s.paths offer).folderPart) (fun _ _ => True)
      (s.replayFolderCommit expected manifest (s.paths offer)) w := by
  obtain ⟨-, -, hcommit, -, -⟩ := paths_length s offer
  rw [replayFolderCommit]
  refine guarded_bind (guarded_of_off (off_readJsonOptional hcommit _)) fun found w₁ _ => ?_
  split
  · exact guarded_pure trivial
  · refine guarded_bind (guarded_lift (Q := fun _ _ => True) fun _ _ => trivial) fun _ w₂ _ => ?_
    refine guarded_bind (guarded_lift (Q := fun _ _ => True) fun _ _ => trivial) fun _ w₃ _ => ?_
    exact guarded_recoverFolderCommit s offer _

theorem guarded_keepFolderMetadata (expected : StoredOffer) (manifest : FolderManifest) :
    Guarded (Call.Staged s.ChecksDelivered (s.paths offer).folderPart) (fun _ _ => True)
      (keepFolderMetadata expected manifest (s.paths offer)) w := by
  obtain ⟨hmetadata, hmanifest, -, -, hne⟩ := paths_length s offer
  rw [keepFolderMetadata]
  refine guarded_bind (guarded_of_off (off_readJsonOptional hmetadata _)) fun found w₁ _ => ?_
  split
  · refine guarded_bind (guarded_lift (Q := fun _ _ => True) fun _ _ => trivial) fun _ w₂ _ => ?_
    refine guarded_bind (guarded_of_off (off_readJsonOptional hmanifest _)) fun stored w₃ _ => ?_
    split
    · exact guarded_lift fun _ _ => trivial
    · exact guarded_throw _
  · refine guarded_bind (guarded_removeDirAllIfExists hne) fun _ w₂ _ => ?_
    refine guarded_bind (guarded_of_off (off_removeIfExists hmanifest)) fun _ w₃ _ => ?_
    refine guarded_bind (guarded_of_off (off_atomicWriteJson hmetadata _)) fun _ w₄ _ => ?_
    exact guarded_of_off (off_atomicWriteJson hmanifest _)

theorem guarded_prepareFolder (manifest : FolderManifest) :
    Guarded (Call.Staged s.ChecksDelivered (s.paths offer).folderPart) (fun _ _ => True)
      (s.prepareFolder offer manifest) w := by
  rw [prepareFolder]
  refine guarded_bind (guarded_lift (Q := fun _ _ => True) fun _ _ => trivial) fun _ w₁ _ => ?_
  refine guarded_bind (guarded_lift (Q := fun _ _ => True) fun _ _ => trivial) fun _ w₂ _ => ?_
  refine guarded_bind (guarded_of_off (off_replayFolderDone s offer _ _)) fun done w₃ _ => ?_
  cases done with
  | some completed => exact guarded_pure trivial
  | none =>
    refine guarded_bind (guarded_replayFolderCommit s offer _ _) fun commit w₄ _ => ?_
    cases commit with
    | some completed => exact guarded_pure trivial
    | none =>
      refine guarded_bind (guarded_keepFolderMetadata s offer _ _) fun _ w₅ _ => ?_
      refine guarded_bind guarded_ensureDirectory fun _ w₆ _ => ?_
      refine guarded_bind (guarded_resumePosition _ _ _) fun prepared w₇ _ => ?_
      exact guarded_pure trivial

end Prepare

/-- Nothing is let through. -/
def FsOp.Unexempt (_ : FsOp Contents β) : Prop := False

end Staged

attribute [local instance] Sample.externals

namespace Sample

/-- A link where a received file is expected. -/
def linkedStage : World :=
  ⟨(FileTree.empty.put ["stage"] .dir).put ["a", "stage"] (.symlink ["elsewhere"]), 0, []⟩

def linkedStaging : PreparedFolderTransfer := ⟨["stage"], 0, 0, 0⟩

def linkedEntry : FolderEntry := ⟨"a", .file, 1, 0, digest [65]⟩

end Sample

end InkHole
