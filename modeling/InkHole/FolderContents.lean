import InkHole.FolderWalk
import InkHole.LinkedPaths
import InkHole.Operations

/-! The check of a folder, whatever tree it is given: the walk comes to its end, and it accepts the
folder exactly when the folder holds what the manifest lists. -/

set_option linter.unusedSectionVars false

namespace InkHole

open InkHole.CoreM Fallible FileTree FolderManifest

section Walks

variable [Externals] {w : World} {root folder : Path} {m : FolderManifest} {relative parent : String}
  {names seen seen' : List String} {directories kept : List (Path × String)}

/-- The loop over the stack of directories, as long as it takes: the stack, what was seen, and what
comes of it. -/
inductive Walked (w : World) (m : FolderManifest) :
    List (Path × String) → List String → Except CoreError (List String) → Prop
  | done (seen : List String) : Walked w m [] seen (.ok seen)
  | failed {directory : Path} {parent : String} {rest : List (Path × String)} {seen : List String}
      {e : CoreError} (h : eval (CoreM.fs (.readDir directory) >>= fun names =>
        checkItems m directory parent names rest seen) w = .error e) :
      Walked w m ((directory, parent) :: rest) seen (.error e)
  | next {directory : Path} {parent : String} {rest kept : List (Path × String)} {seen seen' : List String}
      {outcome : Except CoreError (List String)}
      (h : eval (CoreM.fs (.readDir directory) >>= fun names =>
        checkItems m directory parent names rest seen) w = .ok (kept, seen'))
      (hrest : Walked w m kept seen' outcome) :
      Walked w m ((directory, parent) :: rest) seen outcome

/-! The walk ends: each directory that it comes to is an entry that it has not seen before. -/

theorem eval_checkItem_length {p : Path} (h : eval (checkItem m p relative directories) w = .ok kept) :
    kept.length ≤ directories.length + 1 := by
  have hreads : (FsOp.symlinkMetadata (D := Contents) p).Reads := trivial
  rw [checkItem] at h
  split at h
  · obtain ⟨metadata, -, h⟩ := eval_bind_ok (reads_fs hreads) h
    split at h
    · cases h
    · obtain rfl := Except.ok.inj h
      rw [List.length_cons]
    · obtain ⟨-, h⟩ := eval_throwIf_bind_ok h
      obtain ⟨digest, -, h⟩ := eval_bind_ok (reads_blake3FileHex p) h
      obtain ⟨-, h⟩ := eval_throwIf_bind_ok h
      obtain rfl := Except.ok.inj h
      exact Nat.le_succ _
    · cases h
  · cases h

/-- What the items of one directory add. -/
structure Advanced (m : FolderManifest) (directories kept : List (Path × String)) (seen seen' : List String) :
    Prop where
  nodup : seen.Nodup → seen'.Nodup
  listed : seen ⊆ m.entries.map FolderEntry.path → seen' ⊆ m.entries.map FolderEntry.path
  length_le : seen.length ≤ seen'.length
  kept_le : kept.length + seen.length ≤ directories.length + seen'.length

theorem Advanced.refl : Advanced m directories directories seen seen :=
  ⟨fun h => h, fun h => h, Nat.le_refl _, Nat.le_refl _⟩

theorem eval_checkItems_advanced {directory : Path}
    (h : eval (checkItems m directory parent names directories seen) w = .ok (kept, seen')) :
    Advanced m directories kept seen seen' := by
  induction names generalizing directories seen with
  | nil =>
    obtain ⟨rfl, rfl⟩ := Prod.mk.inj (Except.ok.inj h)
    exact Advanced.refl
  | cons name names ih =>
    rw [checkItems] at h
    obtain ⟨-, -, h⟩ := eval_lift_bind_ok h
    obtain ⟨hexpected, h⟩ := eval_throwIf_bind_ok h
    obtain ⟨hseen, h⟩ := eval_throwIf_bind_ok h
    obtain ⟨directories', hitem, h⟩ := eval_bind_ok (reads_checkItem m _ _ _) h
    change ¬ (m.expected (childPath parent name)).isNone = true at hexpected
    change childPath parent name ∉ seen at hseen
    have hsome : m.expected (childPath parent name) ≠ none := fun hc => hexpected (by rw [hc]; rfl)
    obtain ⟨e, he⟩ := Option.ne_none_iff_exists'.mp hsome
    obtain ⟨hmem, hpath⟩ := expected_some he
    have hg : Advanced m directories' kept (childPath parent name :: seen) seen' := ih h
    have hlength := eval_checkItem_length hitem
    have hle := hg.length_le
    have hkept := hg.kept_le
    rw [List.length_cons] at hle hkept
    refine ⟨fun hn => hg.nodup (List.nodup_cons.mpr ⟨hseen, hn⟩), fun hs => hg.listed ?_, by omega, by omega⟩
    exact List.cons_subset.mpr ⟨hpath ▸ List.mem_map_of_mem hmem, hs⟩

theorem eval_walkFolder_zero {top : Path × String} {rest : List (Path × String)} :
    eval (walkFolder m 0 (top :: rest) seen) w = .error (.invalidTransfer "folder contains a duplicate entry") := rfl

theorem eval_walkFolder_succ {directory : Path} {rest : List (Path × String)} {fuel : Nat} :
    eval (walkFolder m (fuel + 1) ((directory, parent) :: rest) seen) w =
      eval (CoreM.fs (.readDir directory) >>= fun names => checkItems m directory parent names rest seen) w >>=
        fun r => eval (walkFolder m fuel r.1 r.2) w := by
  have hreads : (FsOp.readDir (D := Contents) directory).Reads := trivial
  rw [walkFolder, eval_bind (reads_fs hreads), eval_bind (reads_fs hreads)]
  cases eval (CoreM.fs (.readDir directory)) w with
  | error e => rfl
  | ok names =>
    change eval (checkItems m directory parent names rest seen >>= fun r => _) w = _
    rw [eval_bind (reads_checkItems m _ _ _ _ _)]
    rfl

/-- A step for each directory that waits and each entry not seen yet is enough. -/
theorem walked_of_fuel {stack : List (Path × String)} (hnodup : seen.Nodup)
    (hlisted : seen ⊆ m.entries.map FolderEntry.path) {fuel : Nat}
    (hfuel : stack.length + (m.entries.length - seen.length) ≤ fuel) :
    Walked w m stack seen (eval (walkFolder m fuel stack seen) w) := by
  induction fuel generalizing stack seen with
  | zero =>
    obtain rfl : stack = [] := List.length_eq_zero_iff.mp (by omega)
    exact .done seen
  | succ fuel ih =>
    cases stack with
    | nil => exact .done seen
    | cons top rest =>
      obtain ⟨directory, parent⟩ := top
      rw [eval_walkFolder_succ]
      cases hr : eval (CoreM.fs (.readDir directory) >>= fun names =>
          checkItems m directory parent names rest seen) w with
      | error e => exact .failed hr
      | ok r =>
        obtain ⟨kept, seen'⟩ := r
        have hreads : (FsOp.readDir (D := Contents) directory).Reads := trivial
        obtain ⟨names, -, hitems⟩ := eval_bind_ok (reads_fs hreads) hr
        have hg := eval_checkItems_advanced hitems
        have hbound := (List.subperm_of_subset (hg.nodup hnodup) (hg.listed hlisted)).length_le
        have hle := hg.length_le
        have hkept := hg.kept_le
        rw [List.length_map] at hbound
        rw [List.length_cons] at hfuel
        exact .next hr (ih (hg.nodup hnodup) (hg.listed hlisted) (by omega))

/-- The loop has no more than one outcome. -/
theorem Walked.unique {stack : List (Path × String)} {outcome outcome' : Except CoreError (List String)}
    (h : Walked w m stack seen outcome) (h' : Walked w m stack seen outcome') : outcome = outcome' := by
  induction h with
  | done seen =>
    cases h'
    rfl
  | failed h =>
    cases h' with
    | failed h' =>
      rw [h] at h'
      exact congrArg _ (Except.error.inj h')
    | next h' _ =>
      rw [h] at h'
      cases h'
  | next h _ ih =>
    cases h' with
    | failed h' =>
      rw [h] at h'
      cases h'
    | next h' hrest' =>
      rw [h] at h'
      obtain ⟨rfl, rfl⟩ := Prod.mk.inj (Except.ok.inj h')
      exact ih hrest'

/-! A folder that is reached through a link is checked as the directory that the link leads to. -/

/-- A directory of the stack, by its path from the folder. -/
def under (root : Path) (x : Path × String) : Path × String := (x.1 ++ root, x.2)

theorem ok_bind {ε α β : Type} (a : α) (f : α → Except ε β) : (Except.ok a >>= f) = f a := rfl

theorem error_bind {ε α β : Type} (e : ε) (f : α → Except ε β) : (Except.error e >>= f) = .error e := rfl

variable (htwin : w.fs.Twin root folder)
include htwin

theorem FileTree.Twin.eval_symlinkMetadata (q : Path) : eval (CoreM.fs (.symlinkMetadata (q ++ root))) w =
    eval (CoreM.fs (.symlinkMetadata (q ++ folder))) w := by
  rw [eval_fs, eval_fs, FsOp.exec, FsOp.exec, htwin.locate q]

theorem FileTree.Twin.eval_readDir (q : Path) : eval (CoreM.fs (.readDir (q ++ root))) w =
    eval (CoreM.fs (.readDir (q ++ folder))) w := by
  rw [eval_fs, eval_fs, FsOp.exec, FsOp.exec, listDir, listDir, htwin.resolve q]

theorem FileTree.Twin.eval_blake3FileHex (q : Path) :
    eval (blake3FileHex (q ++ root)) w = eval (blake3FileHex (q ++ folder)) w := by
  have hreads : ∀ p, (FsOp.read (D := Contents) p).Reads := fun _ => trivial
  rw [blake3FileHex, blake3FileHex, eval_bind (reads_fs (hreads _)), eval_bind (reads_fs (hreads _)), eval_fs,
    eval_fs, FsOp.exec, FsOp.exec, readFile, readFile, htwin.resolve q]

/-- Two answers that name the same directories, each below its own folder. -/
def Alike (root folder : Path) (x y : Except CoreError (List (Path × String))) : Prop :=
  ∃ r : Except CoreError (List (Path × String)), x = r.map (List.map (under root)) ∧ y = r.map (List.map (under folder))

theorem FileTree.Twin.checkItem (m : FolderManifest) (relative : String) (directories : List (Path × String))
    (q : Path) : Alike root folder
    (eval (checkItem m (q ++ root) relative (directories.map (under root))) w)
    (eval (checkItem m (q ++ folder) relative (directories.map (under folder))) w) := by
  have hreads : ∀ p, (FsOp.symlinkMetadata (D := Contents) p).Reads := fun _ => trivial
  have hfail : ∀ e, Alike root folder (.error e) (.error e) := fun e => ⟨.error e, rfl, rfl⟩
  rw [InkHole.checkItem, InkHole.checkItem]
  cases m.expected relative with
  | none => exact hfail _
  | some entry =>
    simp only
    rw [eval_bind (reads_fs (hreads _)), eval_bind (reads_fs (hreads _)), htwin.eval_symlinkMetadata q]
    cases eval (CoreM.fs (.symlinkMetadata (q ++ folder))) w with
    | error e => exact hfail e
    | ok metadata =>
      change Alike root folder (eval _ w) (eval _ w)
      cases entry.kind with
      | directory =>
        cases metadata.kind with
        | dir => exact ⟨.ok ((q, relative) :: directories), rfl, rfl⟩
        | _ => exact hfail _
      | file =>
        cases metadata.kind with
        | file =>
          change Alike root folder
            (eval (throwIf _ _ >>= fun _ => blake3FileHex _ >>= fun digest => throwIf _ _ >>= fun _ => pure _) w)
            (eval (throwIf _ _ >>= fun _ => blake3FileHex _ >>= fun digest => throwIf _ _ >>= fun _ => pure _) w)
          rw [eval_throwIf_bind, eval_throwIf_bind, eval_bind (reads_blake3FileHex _),
            eval_bind (reads_blake3FileHex _), htwin.eval_blake3FileHex q]
          split
          · exact hfail _
          · cases eval (blake3FileHex (q ++ folder)) w with
            | error e => exact hfail e
            | ok digest =>
              change Alike root folder (eval (throwIf _ _ >>= fun _ => pure _) w)
                (eval (throwIf _ _ >>= fun _ => pure _) w)
              rw [eval_throwIf_bind, eval_throwIf_bind]
              split
              · exact hfail _
              · exact ⟨.ok directories, rfl, rfl⟩
        | _ => exact hfail _

theorem FileTree.Twin.checkItems (m : FolderManifest) (parent : String) (names : List String)
    (directories : List (Path × String)) (seen : List String) (q : Path) :
    ∃ r : Except CoreError (List (Path × String) × List String),
      eval (checkItems m (q ++ root) parent names (directories.map (under root)) seen) w =
        r.map (Prod.map (List.map (under root)) id) ∧
      eval (checkItems m (q ++ folder) parent names (directories.map (under folder)) seen) w =
        r.map (Prod.map (List.map (under folder)) id) := by
  induction names generalizing directories seen with
  | nil => exact ⟨.ok (directories, seen), rfl, rfl⟩
  | cons name names ih =>
    rw [InkHole.checkItems, InkHole.checkItems]
    rw [eval_lift_bind, eval_lift_bind]
    cases validateFolderRelativePath (if parent = "" then name else parent ++ "/" ++ name) with
    | error e => exact ⟨.error e, rfl, rfl⟩
    | ok u =>
      change ∃ r, eval (throwIf _ _ >>= fun _ => throwIf _ _ >>= fun _ => _) w = _ ∧
        eval (throwIf _ _ >>= fun _ => throwIf _ _ >>= fun _ => _) w = _
      generalize (if parent = "" then name else parent ++ "/" ++ name) = relative
      rw [eval_throwIf_bind, eval_throwIf_bind, eval_throwIf_bind, eval_throwIf_bind,
        eval_bind (reads_checkItem m _ _ _), eval_bind (reads_checkItem m _ _ _)]
      by_cases hexpected : (m.expected relative).isNone = true
      · rw [if_pos hexpected, if_pos hexpected]
        exact ⟨.error _, rfl, rfl⟩
      · rw [if_neg hexpected, if_neg hexpected]
        by_cases hseen : relative ∈ seen
        · rw [if_pos hseen, if_pos hseen]
          exact ⟨.error _, rfl, rfl⟩
        · rw [if_neg hseen, if_neg hseen]
          obtain ⟨r, hroot, hfolder⟩ := htwin.checkItem m relative directories (name :: q)
          rw [List.cons_append] at hroot hfolder
          rw [hroot, hfolder]
          cases r with
          | error e => exact ⟨.error e, rfl, rfl⟩
          | ok directories' => exact ih directories' (relative :: seen)

theorem FileTree.Twin.walkFolder (m : FolderManifest) (directories : List (Path × String)) (seen : List String)
    (fuel : Nat) :
    eval (walkFolder m fuel (directories.map (under root)) seen) w =
      eval (walkFolder m fuel (directories.map (under folder)) seen) w := by
  induction fuel generalizing directories seen with
  | zero =>
    cases directories with
    | nil => rw [List.map_nil, List.map_nil]
    | cons top rest => rw [List.map_cons, List.map_cons, eval_walkFolder_zero, eval_walkFolder_zero]
  | succ fuel ih =>
    cases directories with
    | nil => rw [List.map_nil, List.map_nil]
    | cons top rest =>
      obtain ⟨q, parent⟩ := top
      have hreads : ∀ p, (FsOp.readDir (D := Contents) p).Reads := fun _ => trivial
      rw [List.map_cons, List.map_cons, under, under, eval_walkFolder_succ, eval_walkFolder_succ,
        eval_bind (reads_fs (hreads _)), eval_bind (reads_fs (hreads _)), htwin.eval_readDir q]
      cases eval (CoreM.fs (.readDir (q ++ folder))) w with
      | error e => rw [error_bind, error_bind, error_bind, error_bind]
      | ok names =>
        obtain ⟨r, hroot, hfolder⟩ := htwin.checkItems m parent names rest seen q
        simp only [ok_bind, hroot, hfolder]
        cases r with
        | error e => rw [Except.map, Except.map, error_bind]
        | ok kept =>
          simp only [Except.map, ok_bind]
          exact ih kept.1 kept.2

omit htwin

/-- A folder is checked where its path leads: there has to be a directory. -/
theorem eval_ensureDirectoryExists_iff : eval (ensureDirectoryExists root) w = .ok () ↔
    ∃ folder, w.fs.locate root = .ok folder ∧ w.fs.stat (.ok folder) = .ok ⟨.dir, 0⟩ := by
  have hreads : (FsOp.symlinkMetadata (D := Contents) root).Reads := trivial
  rw [ensureDirectoryExists]
  constructor
  · intro h
    obtain ⟨metadata, hmetadata, h⟩ := eval_bind_ok (reads_fs hreads) h
    have hkind : metadata.kind = .dir := by
      rw [eval_throwIf] at h
      split at h
      · cases h
      · next hk => exact not_not.mp hk
    rw [eval_fs, FsOp.exec] at hmetadata
    cases hstat : w.fs.stat (w.fs.locate root) with
    | error e =>
      rw [hstat] at hmetadata
      cases hmetadata
    | ok metadata' =>
      rw [hstat] at hmetadata
      obtain rfl := Except.ok.inj hmetadata
      exact stat_dir hstat hkind
  · rintro ⟨folder, hlocate, hstat⟩
    rw [eval_fs_bind _ hreads, FsOp.exec, hlocate, hstat]
    rfl

/-- The check of a folder always ends, and it accepts the folder exactly when a directory is there
and the entries below it are those of the manifest, with their kinds, their sizes and their digests. -/
theorem folder_contents_exact {size : Nat} (hv : m.validate = .ok size) (hnamed : w.fs.Named []) :
    (∃ outcome, Walked w m [(root, "")] [] outcome ∧
      eval (walkFolder m (m.entries.length + 1) [(root, "")] []) w = outcome) ∧
    (eval (validateFolderContents root m) w = .ok () ↔
      ∃ folder, w.fs.locate root = .ok folder ∧ w.fs.stat (.ok folder) = .ok ⟨.dir, 0⟩ ∧
        Matches w.fs folder m) := by
  have hl := (validate_ok hv).1
  constructor
  · exact ⟨_, walked_of_fuel List.nodup_nil (List.nil_subset _) (by simp; omega), rfl⟩
  · rw [validateFolderContents, eval_lift_bind, hv]
    change eval (ensureDirectoryExists root >>= fun _ => _) w = _ ↔ _
    rw [eval_bind (reads_ensureDirectoryExists root)]
    by_cases hensure : eval (ensureDirectoryExists root) w = .ok ()
    · obtain ⟨folder, hlocate, hstat⟩ := eval_ensureDirectoryExists_iff.mp hensure
      have hdir := isDir_of_stat hstat
      have hreaches : w.fs.Reaches folder := by
        rcases isDir_iff.mp hdir with rfl | hget
        · exact ⟨fun q hq hne => absurd (List.suffix_nil.mp hq) hne, .inl rfl⟩
        · exact ⟨Real.of_get hget, .inr hget⟩
      have hbelow : w.fs.Named folder := fun name p hp _ => hnamed name p hp (List.nil_suffix)
      have hsame : eval (walkFolder m (m.entries.length + 1) [(root, "")] []) w =
          eval (walkFolder m (m.entries.length + 1) [(folder, "")] []) w :=
        (Twin.of_locate hlocate hdir).walkFolder m [([], "")] [] _
      have hiff := eval_walk_iff hl hbelow hreaches
      rw [eval_bind (reads_walkFolder m _ _ _)] at hiff
      rw [hensure]
      change eval (walkFolder m _ _ _ >>= fun seen => _) w = _ ↔ _
      rw [eval_bind (reads_walkFolder m _ _ _), hsame, hiff]
      constructor
      · exact fun hm => ⟨folder, hlocate, hstat, hm⟩
      · rintro ⟨folder', hlocate', -, hm⟩
        obtain rfl := Except.ok.inj (hlocate.symm.trans hlocate')
        exact hm
    · refine iff_of_false (fun h => ?_) fun h => ?_
      · cases he : eval (ensureDirectoryExists root) w with
        | error e =>
          rw [he] at h
          cases h
        | ok u => exact hensure he
      · obtain ⟨folder, hlocate, hstat, -⟩ := h
        exact hensure (eval_ensureDirectoryExists_iff.mpr ⟨folder, hlocate, hstat⟩)

theorem named_of_plain {t : FileTree Contents}
    (h : ∀ e ∈ t.entries, ∀ name ∈ e.1, '/' ∉ name.toList ∧ name ≠ "") : t.Named [] := by
  intro name p hget _
  obtain ⟨n, hn⟩ := Option.ne_none_iff_exists'.mp hget
  have hsome : (t.entries.lookup (name :: p)).isSome = true := by
    rw [show t.entries.lookup (name :: p) = some n from hn]
    rfl
  obtain ⟨e, he, hpath⟩ := List.lookup_isSome_iff.mp hsome
  have hpath : name :: p = e.1 := eq_of_beq hpath
  exact h e he name (hpath ▸ List.mem_cons_self)

end Walks

attribute [local instance] Sample.externals

namespace Sample

def contents : FolderManifest := ⟨1, [⟨"a", .directory, 0, 0, ""⟩, ⟨"a/x", .file, 1, 0, digest [65]⟩]⟩

/-- A folder that is reached through a link above it. -/
def linked : World :=
  ⟨((((FileTree.empty.put ["inbox"] .dir).put ["folder", "inbox"] .dir).put ["a", "folder", "inbox"] .dir).put
    ["x", "a", "folder", "inbox"] (.file (.bytes [65]))).put ["link"] (.symlink ["inbox"]), 0, []⟩

end Sample

theorem folder_contents_exact_sample :
    ∃ folder, Sample.linked.fs.locate ["folder", "link"] = .ok folder ∧
      Sample.linked.fs.stat (.ok folder) = .ok ⟨.dir, 0⟩ ∧ Matches Sample.linked.fs folder Sample.contents := by
  have hvalid : Sample.contents.validate = .ok 1 := by decide +kernel
  have hnamed : Sample.linked.fs.Named [] := named_of_plain (by decide +kernel)
  have hcheck : eval (validateFolderContents ["folder", "link"] Sample.contents) Sample.linked = .ok () := by
    decide +kernel
  exact (folder_contents_exact hvalid hnamed).2.mp hcheck

end InkHole
