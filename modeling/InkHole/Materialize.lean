import InkHole.Operations
import InkHole.Staging

/-! A manifest that is accepted need not be one whose files can be written down: its parents are
looked for under a canonical spelling, and made under the spelling of each path. -/

set_option linter.unusedSectionVars false

namespace InkHole

open InkHole.CoreM Fallible FileTree FolderManifest

section Materialize

variable [Externals] {w : World} {root : Path} {m : FolderManifest} {content : FolderEntry → Bytes}

/-- Each file written at its path, its parents made before. -/
def writeEntries (root : Path) (content : FolderEntry → Bytes) : List FolderEntry → CoreM Unit
  | [] => return ()
  | entry :: rest => do
    ensureSafeParentDirectories root entry.path
    let path ← folderEntryPath root entry.path
    fs (.openFile path { create := true, truncate := true })
    fs (.edit path fun _ => .bytes (content entry))
    writeEntries root content rest

/-- The folder that a sender of this manifest has delivered. -/
def materialize (root : Path) (m : FolderManifest) (content : FolderEntry → Bytes) : CoreM Unit := do
  writeEntries root content m.files
  createManifestDirectories root m

/-- The parent of each entry is a directory of the manifest in the same spelling. -/
def FolderManifest.Spelled (m : FolderManifest) : Prop :=
  ∀ e ∈ m.entries, ∀ parent, rsplitSlash e.path.toList = some parent →
    ∃ d ∈ m.entries, d.kind = .directory ∧ d.path.toList = parent

theorem rsplitSlash_childPath {parent name : String} (hs : '/' ∉ name.toList) (hp : parent ≠ "") :
    rsplitSlash (childPath parent name).toList = some parent.toList := by
  have hl : (childPath parent name).toList = parent.toList ++ '/' :: name.toList := by
    simp [childPath, hp]
  exact rsplitSlash_some.mpr ⟨name.toList, hl, hs⟩

theorem rsplitSlash_plain {name : String} (hs : '/' ∉ name.toList) :
    rsplitSlash name.toList = none := if_neg hs

variable {P : Path → Node Contents → Prop} {F : CoreError → World → Prop}

/-- Nothing that was there is gone. -/
def Grown (w w' : World) : Prop := ∀ p, w.fs.get p ≠ none → w'.fs.get p ≠ none

theorem Grown.refl (w : World) : Grown w w := fun _ h => h

theorem Grown.trans {w₁ w₂ w₃ : World} (h : Grown w₁ w₂) (h' : Grown w₂ w₃) : Grown w₁ w₃ :=
  fun p hp => h' p (h p hp)

theorem Extends.grown {w w' : World} (h : Extends w w') : Grown w w' := by
  intro p hp
  obtain ⟨n, hn⟩ := Option.ne_none_iff_exists'.mp hp
  rw [h p n hn]
  exact Option.some_ne_none n

theorem grown_sets {w w' : World} {p : Path} {n : Node Contents} (h : Sets w.fs w'.fs p (some n)) :
    Grown w w' := by
  intro q hq
  rw [h q]
  split
  · exact Option.some_ne_none n
  · exact hq

/-- A file is written over nothing or over a file. -/
theorem along_writeEntry {name : String} {q : Path} {b : Bytes} {Q : Unit → World → Prop}
    {rest : CoreM Unit} (h : Holding P root w.fs) (hparent : w.fs.get (q ++ root) = some .dir)
    (hp : Fits P F (name :: q ++ root) (.file (.bytes b)))
    (hq : ∀ w', Holding P root w'.fs → Grown w w' → w'.fs.get (name :: q ++ root) ≠ none →
      Along (fun _ => True) Q F rest w') :
    Along (fun _ => True) Q F (do
      fs (.openFile (name :: q ++ root) { create := true, truncate := true })
      fs (.edit (name :: q ++ root) fun _ => .bytes b)
      rest) w := by
  have hne : name :: q ≠ [] := List.cons_ne_nil name q
  have hpath : name :: q ++ root ≠ [] := List.cons_ne_nil _ _
  have hwrite : ∀ {t : FileTree Contents}, Sets w.fs t (name :: q ++ root) (some (.file FileData.empty)) →
      w.fs.openAt (name :: q ++ root) { create := true, truncate := true } = (.ok (), t) →
      Along (fun _ => True) Q F (do
        fs (.openFile (name :: q ++ root) { create := true, truncate := true })
        fs (.edit (name :: q ++ root) fun _ => .bytes b)
        rest) w := by
    intro t hs ht
    refine along_bind (Q := fun _ w' => w'.fs = t) (along_fs_done ht fun w' hw' => ⟨trivial, hw'⟩) ?_
    rintro - w₁ rfl
    obtain ⟨t₂, ht₂, hs₂⟩ := editAt_file hs.at hpath fun _ => Contents.bytes b
    refine along_bind (Q := fun _ w' => w'.fs = t₂) (along_fs_done ht₂ fun w' hw' => ⟨trivial, hw'⟩) ?_
    rintro - w₂ rfl
    have hboth : Sets w.fs w₂.fs (name :: q ++ root) (some (.file (.bytes b))) := by
      intro p
      rw [hs₂ p]
      split
      · rfl
      · next hp => exact hs.off hp
    exact hq w₂ (h.sets hboth hne hp.1 (.inr ⟨_, rfl⟩)) (grown_sets hboth) (by rw [hboth.at]; simp)
  cases hn : w.fs.get (name :: q ++ root) with
  | none =>
    obtain ⟨t, ht, hs⟩ := openAt_new (Real.child hparent name) hpath hn
      (o := { create := true, truncate := true }) (.inr rfl)
    exact hwrite hs ht
  | some n =>
    obtain ⟨hn', hk⟩ := h.below _ hne n hn
    have hl : n.isSymlink = false := by rcases hk with rfl | ⟨d, rfl⟩ <;> rfl
    by_cases hf : ∃ d, n = .file d
    · obtain ⟨d, rfl⟩ := hf
      obtain ⟨t, ht, hs⟩ := openAt_over hn hpath (o := { create := true, truncate := true }) rfl rfl
      exact hwrite hs ht
    · have hother := openAt_other hn hl (fun d he => hf ⟨d, he⟩)
        (o := { create := true, truncate := true }) rfl
      refine along_bind (Q := fun _ _ => False) (along_fs_failed hother trivial ?_) fun _ _ h => h.elim
      refine hp.2 n hn' (fun hk => hf ?_) _ w
      cases n with
      | file d => exact ⟨d, rfl⟩
      | _ => cases hk

/-- What is left when these entries have been made. -/
structure Made (P : Path → Node Contents → Prop) (root : Path) (w : World) (entries : List FolderEntry)
    (w' : World) : Prop where
  holding : Holding P root w'.fs
  grown : Grown w w'
  there : ∀ e ∈ entries, w'.fs.get (place root e.path) ≠ none

theorem Made.cons {e : FolderEntry} {entries : List FolderEntry} {w₁ w₂ : World} (hg : Grown w w₁)
    (he : w₁.fs.get (place root e.path) ≠ none) (h : Made P root w₁ entries w₂) :
    Made P root w (e :: entries) w₂ := by
  refine ⟨h.holding, hg.trans h.grown, fun f hf => ?_⟩
  rcases List.mem_cons.mp hf with rfl | hf
  · exact h.grown _ he
  · exact h.there f hf

theorem along_writeEntries {entries : List FolderEntry} (h : Holding P root w.fs)
    (hs : ∀ e ∈ entries, Suits P F root e.path (.file (.bytes (content e)))) :
    Along (fun _ => True) (fun _ w' => Made P root w entries w') F (writeEntries root content entries) w := by
  induction entries generalizing w with
  | nil => exact along_pure ⟨h, Grown.refl w, by simp⟩
  | cons e entries ih =>
    have hsuits := hs e List.mem_cons_self
    have hplace := place_dropLast root (valid_components hsuits.valid).1
    have hnode := hsuits.node
    rw [writeEntries]
    refine along_bind (along_ensureSafeParentDirectories h (fun _ _ => trivial) hsuits.valid hsuits.parents) fun _ w₁ h₁ => ?_
    refine along_bind (Q := fun p w' => p = place root e.path ∧ w₁ = w')
      (along_folderEntryPath hsuits.valid ⟨rfl, rfl⟩) ?_
    rintro _ _ ⟨rfl, rfl⟩
    rw [hplace] at hnode ⊢
    refine along_writeEntry h₁.stays.holding h₁.dir hnode fun w₂ h₂ hg hthere => ?_
    refine (ih h₂ fun f hf => hs f (List.mem_cons_of_mem _ hf)).mono (fun _ h => h) (fun _ w₃ h₃ => ?_)
      fun _ _ h => h
    exact Made.cons (h₁.kept.grown.trans hg) (hplace ▸ hthere) h₃

theorem along_createDirectories {entries : List FolderEntry} (h : Holding P root w.fs)
    (hs : ∀ e ∈ entries, Suits P F root e.path .dir) :
    Along (fun _ => True) (fun _ w' => Made P root w entries w') F (createDirectories root entries) w := by
  induction entries generalizing w with
  | nil => exact along_pure ⟨h, Grown.refl w, by simp⟩
  | cons e entries ih =>
    have hsuits := hs e List.mem_cons_self
    have hplace := place_dropLast root (valid_components hsuits.valid).1
    have hnode := hsuits.node
    rw [createDirectories]
    refine along_bind (along_ensureSafeParentDirectories h (fun _ _ => trivial) hsuits.valid hsuits.parents) fun _ w₁ h₁ => ?_
    refine along_bind (Q := fun p w' => p = place root e.path ∧ w₁ = w')
      (along_folderEntryPath hsuits.valid ⟨rfl, rfl⟩) ?_
    rintro _ _ ⟨rfl, rfl⟩
    rw [hplace] at hnode ⊢
    refine along_bind (along_makeDirectory h₁.stays.holding (fun _ _ => trivial) h₁.dir hnode) fun _ w₂ h₂ => ?_
    refine (ih h₂.stays.holding fun f hf => hs f (List.mem_cons_of_mem _ hf)).mono (fun _ h => h)
      (fun _ w₃ h₃ => ?_) fun _ _ h => h
    refine Made.cons (h₁.kept.grown.trans h₂.kept.grown) ?_ h₃
    rw [hplace, h₂.dir]
    exact Option.some_ne_none _

theorem along_materialize (h : Holding P root w.fs)
    (hfiles : ∀ e ∈ m.files, Suits P F root e.path (.file (.bytes (content e))))
    (hdirs : ∀ e ∈ m.directories, Suits P F root e.path .dir) :
    Along (fun _ => True) (fun _ w' => Made P root w m.entries w') F (materialize root m content) w := by
  rw [materialize]
  refine along_bind (along_writeEntries h hfiles) fun _ w₁ h₁ => ?_
  rw [createManifestDirectories]
  refine along_bind (Q := fun _ w' => w₁ = w') (along_ensureDirectoryExists trivial h₁.holding.root_dir
    (fun _ => rfl) fun hd => absurd rfl hd) ?_
  rintro - _ rfl
  refine (along_createDirectories h₁.holding hdirs).mono (fun _ h => h) (fun _ w₂ h₂ => ?_) fun _ _ h => h
  refine ⟨h₂.holding, h₁.grown.trans h₂.grown, fun e he => ?_⟩
  cases hk : e.kind with
  | file => exact h₂.grown _ (h₁.there e (List.mem_filter.mpr ⟨he, by simp [hk]⟩))
  | directory => exact h₂.there e (List.mem_filter.mpr ⟨he, by simp [hk]⟩)

/-! Whatever the spelling, nothing but plain names is made. -/

def PlainBelow (root p : Path) (_ : Node Contents) : Prop :=
  ∀ q, p = q ++ root → ∀ name ∈ q, '/' ∉ name.toList ∧ name ≠ ""

theorem suits_plain {path : String} (hv : validateFolderRelativePath path = .ok ()) (n : Node Contents) :
    Suits (PlainBelow root) (fun _ _ => True) root path n := by
  have hplain : ∀ names : List String, (∀ name ∈ names, name ∈ components path) →
      PlainBelow root (names.reverse ++ root) n := by
    intro names hnames q hq name hn
    obtain rfl := List.append_cancel_right hq
    have hmem := hnames name (List.mem_reverse.mp hn)
    exact ⟨not_mem_components hmem, (valid_components hv).2 name hmem⟩
  refine ⟨hv, fun init hne hi => ⟨hplain init fun name hn => ?_, fun _ _ _ _ _ => trivial⟩,
    ?_, fun _ _ _ _ _ => trivial⟩
  · exact List.dropLast_subset _ (hi.subset hn)
  · rw [place_of_ne (valid_components hv).1]
    exact hplain _ fun name hn => hn

theorem Holding.named {t : FileTree Contents} (h : Holding (PlainBelow root) root t) : t.Named root := by
  intro name p hget hp
  obtain ⟨q, rfl⟩ := hp
  obtain ⟨n, hn⟩ := Option.ne_none_iff_exists'.mp hget
  exact (h.below (name :: q) (List.cons_ne_nil _ _) n hn).1 (name :: q) rfl name List.mem_cons_self

/-! With its parents spelled as in the paths, everything that is made is expected. -/

def IsEntry (m : FolderManifest) (root p : Path) (n : Node Contents) : Prop :=
  ∃ e ∈ m.entries, p = place root e.path ∧ e.Is n

theorem fits_entry (hl : m.Listed) {e : FolderEntry} {n : Node Contents} (he : e ∈ m.entries) (hn : e.Is n) :
    Fits (IsEntry m root) (fun _ _ => False) (place root e.path) n := by
  refine ⟨⟨e, he, rfl, hn⟩, fun n' hn' hk => absurd ?_ hk⟩
  obtain ⟨f, hf, hp, his⟩ := hn'
  obtain rfl := hl.eq_of_path he hf (place_inj hp)
  cases hkind : e.kind with
  | directory => rw [(is_directory his).mpr hkind, (is_directory hn).mpr hkind]
  | file =>
    simp only [FolderEntry.Is, hkind] at his hn
    obtain ⟨c, rfl, -⟩ := his
    obtain ⟨c', rfl, -⟩ := hn
    rfl

theorem FolderManifest.Spelled.parents (hl : m.Listed) (hm : m.Spelled) {e : FolderEntry} (he : e ∈ m.entries)
    {init : List String} (hne : init ≠ []) (hi : init <+: (components e.path).dropLast) :
    ∃ d ∈ m.entries, d.kind = .directory ∧ components d.path = init := by
  induction hlen : (components e.path).length using Nat.strong_induction_on generalizing e with
  | _ len ih =>
    obtain ⟨parent, name, hp, hs, hn⟩ := exists_childPath (valid_components (hl.path e he)).2
    by_cases hparent : parent = ""
    · rw [hp, childPath, if_pos hparent, components_plain hs] at hi
      exact absurd (List.prefix_nil.mp hi) hne
    · have hc : components e.path = components parent ++ [name] := by
        rw [hp, childPath, if_neg hparent, components_append parent hs]
      obtain ⟨d, hd, hkind, hdp⟩ := hm e he _ (hp ▸ rsplitSlash_childPath hs hparent)
      have hpath : d.path = parent := String.toList_inj.mp hdp
      rw [hc, List.dropLast_concat] at hi
      by_cases hfull : init = components parent
      · exact ⟨d, hd, hkind, by rw [hpath, hfull]⟩
      · have hless : (components d.path).length < len := by
          rw [← hlen, hc, hpath, List.length_append]
          simp
        refine ih _ hless hd ?_ rfl
        rw [hpath]
        obtain ⟨rest, hrest⟩ := hi
        have hr : rest ≠ [] := fun hnil => hfull (by simpa [hnil] using hrest)
        exact ⟨rest.dropLast, by rw [← hrest, List.dropLast_append_of_ne_nil hr]⟩

theorem suits_entry (hl : m.Listed) (hm : m.Spelled) {e : FolderEntry} {n : Node Contents}
    (he : e ∈ m.entries) (hn : e.Is n) :
    Suits (IsEntry m root) (fun _ _ => False) root e.path n := by
  refine ⟨hl.path e he, fun init hne hi => ?_, fits_entry hl he hn⟩
  obtain ⟨d, hd, hkind, hc⟩ := hm.parents hl he hne hi
  have hplace : init.reverse ++ root = place root d.path := by rw [place_of_ne (hl.path_ne hd), hc]
  rw [hplace]
  exact fits_entry hl hd (by simp [FolderEntry.Is, hkind])

theorem Made.matches {w' : World} (hl : m.Listed) (h : Made (IsEntry m root) root w m.entries w') :
    Matches w'.fs root m := by
  constructor
  · intro e he
    obtain ⟨n, hn⟩ := Option.ne_none_iff_exists'.mp (h.there e he)
    have hplace : place root e.path = _ := place_of_ne (hl.path_ne he)
    have hne : (components e.path).reverse ≠ [] := by simpa using components_ne_nil e.path
    obtain ⟨⟨f, hf, hp, his⟩, -⟩ := h.holding.below _ hne n (hplace ▸ hn)
    have hsame : e = f := hl.eq_of_path he hf (place_inj (hplace.trans hp))
    exact ⟨n, hn, hsame ▸ his⟩
  · intro p hp hget
    obtain ⟨n, hn⟩ := Option.ne_none_iff_exists'.mp hget
    obtain ⟨⟨e, he, hplace, -⟩, -⟩ := h.holding.below p hp n hn
    exact ⟨e, he, hplace⟩

theorem named_of_entries (hl : m.Listed) {t : FileTree Contents} (h : Holding (IsEntry m root) root t) :
    t.Named root := by
  intro name p hget hp
  obtain ⟨q, rfl⟩ := hp
  obtain ⟨n, hn⟩ := Option.ne_none_iff_exists'.mp hget
  obtain ⟨⟨e, he, hplace, -⟩, -⟩ := h.below (name :: q) (List.cons_ne_nil _ _) n hn
  rw [place_of_ne (hl.path_ne he)] at hplace
  have hnames : name :: q = (components e.path).reverse := List.append_cancel_right hplace
  have hmem : name ∈ components e.path := by
    rw [← List.mem_reverse, ← hnames]
    exact List.mem_cons_self
  exact ⟨not_mem_components hmem, (valid_components (hl.path e he)).2 name hmem⟩

/-- A folder that is there as listed has each parent in the spelling of its entries. -/
theorem Matches.spelled (hl : m.Listed) (hm : Matches w.fs root m) : m.Spelled := by
  intro e he parent hparent
  obtain ⟨above, name, hp, hs, hn⟩ := exists_childPath (valid_components (hl.path e he)).2
  by_cases habove : above = ""
  · rw [hp, childPath, if_pos habove, rsplitSlash_plain hs] at hparent
    cases hparent
  · rw [hp, rsplitSlash_childPath hs habove] at hparent
    obtain ⟨n, hget, -⟩ := hm.there e he
    have hplace : place root above = _ := place_of_ne habove
    have hne : (components above).reverse ≠ [] := by simpa using components_ne_nil above
    rw [hp, place_child root above hs hn] at hget
    have hdir := (get_parent hget).resolve_left (by rw [hplace]; simp [hne])
    obtain ⟨d, hd, hdp⟩ := hm.only _ hne (by rw [← hplace, hdir]; simp)
    have hpath : above = d.path := place_inj (hplace.trans hdp)
    obtain ⟨n', hget', his⟩ := hm.there d hd
    rw [← hpath, hdir] at hget'
    exact ⟨d, hd, (is_directory his).mp (Option.some.inj hget').symm, by rw [← hpath, Option.some.inj hparent]⟩

/-- A manifest that is accepted can be written into an empty directory and is then found complete
exactly when the parent of each entry is listed in the spelling the entry uses. -/
theorem materialized_iff {size : Nat} (hv : m.validate = .ok size) (hne : root ≠ [])
    (hd : w.fs.get root = some .dir) (hempty : w.fs.readDir root = [])
    (hcontent : ∀ e ∈ m.files, (content e).length = e.size ∧ Externals.blake3Hex (content e) = e.blake3) :
    eval (do materialize root m content; validateFolderContents root m) w = .ok () ↔ m.Spelled := by
  have hl := (validate_ok hv).1
  have hvalid : ∀ e ∈ m.entries, validateFolderRelativePath e.path = .ok () := hl.path
  constructor
  · intro hok
    have hrun : Along (fun _ => True) (fun _ _ => m.Spelled) (fun _ _ => True)
        (do materialize root m content; validateFolderContents root m) w := by
      refine along_bind (along_materialize (P := PlainBelow root) (holding_empty hd hempty)
        (fun e he => suits_plain (hvalid e (List.mem_of_mem_filter he)) _)
        fun e he => suits_plain (hvalid e (List.mem_of_mem_filter he)) _) fun _ w' h' => ?_
      refine along_of_reads (reads_validateFolderContents root m) trivial (fun u hu => ?_) fun _ _ => trivial
      have hreal : w'.fs.Real root := Real.of_get h'.holding.root_dir
      exact ((eval_validateFolderContents hv hne h'.holding.named hreal).mp hu).2.spelled hl
    have hend := (along_run.mp hrun).run
    have hres : ((do materialize root m content; validateFolderContents root m : CoreM Unit).run.run w).1 =
      .ok () := hok
    rw [hres] at hend
    exact hend
  · intro hm
    have hrun : Along (fun _ => True) (fun _ _ => True) (fun _ _ => False)
        (do materialize root m content; validateFolderContents root m) w := by
      refine along_bind (along_materialize (P := IsEntry m root) (holding_empty hd hempty)
        (fun e he => ?_) fun e he => ?_) fun _ w' h' => ?_
      · obtain ⟨hmem, hk⟩ := List.mem_filter.mp he
        have hc := hcontent e he
        refine suits_entry hl hm hmem ?_
        have hkind : e.kind = .file := of_decide_eq_true hk
        simp only [FolderEntry.Is, hkind]
        exact ⟨_, rfl, hc.1, hc.2⟩
      · obtain ⟨hmem, hk⟩ := List.mem_filter.mp he
        have hkind : e.kind = .directory := of_decide_eq_true hk
        exact suits_entry hl hm hmem (by simp [FolderEntry.Is, hkind])
      · refine along_of_reads (reads_validateFolderContents root m) trivial (fun _ _ => trivial) fun e he => ?_
        have hreal : w'.fs.Real root := Real.of_get h'.holding.root_dir
        rw [(eval_validateFolderContents hv hne (named_of_entries hl h'.holding) hreal).mpr
          ⟨h'.holding.root_dir, h'.matches hl⟩] at he
        cases he
    have hend := (along_run.mp hrun).run
    cases hres : ((do materialize root m content; validateFolderContents root m : CoreM Unit).run.run w).1 with
    | ok u => exact hres
    | error e =>
      rw [hres] at hend
      exact hend.elim

end Materialize

attribute [local instance] Sample.externals

namespace Sample

def entry (path : String) : FolderEntry := ⟨path, .file, 1, 0, digest [65]⟩

def directory (path : String) : FolderEntry := ⟨path, .directory, 0, 0, ""⟩

/-- A place of its own for a folder. -/
def stage : World := ⟨FileTree.empty.put ["stage"] .dir, 0, []⟩

end Sample

/-- A folder with its parent in the spelling of its file is written and found complete. -/
theorem materialized_sample :
    eval (do
      materialize ["stage"] ⟨1, [Sample.directory "a", Sample.entry "a/x"]⟩ fun _ => [65]
      validateFolderContents ["stage"] ⟨1, [Sample.directory "a", Sample.entry "a/x"]⟩) Sample.stage =
      .ok () := by
  have hspelled : FolderManifest.Spelled ⟨1, [Sample.directory "a", Sample.entry "a/x"]⟩ := by
    intro e he parent hp
    rcases List.mem_cons.mp he with rfl | he
    · revert hp
      decide +kernel +revert
    · obtain rfl := List.mem_singleton.mp he
      have hparent : rsplitSlash (Sample.entry "a/x").path.toList = some ['a'] := by decide +kernel
      rw [hparent] at hp
      exact ⟨_, List.mem_cons_self, rfl, Option.some.inj hp⟩
  have hvalid : FolderManifest.validate ⟨1, [Sample.directory "a", Sample.entry "a/x"]⟩ = .ok 1 := by
    decide +kernel
  refine (materialized_iff hvalid ?_ ?_ ?_ fun e he => ?_).mpr hspelled
  · decide
  · decide +kernel
  · decide +kernel
  · have hall : ∀ e ∈ FolderManifest.files ⟨1, [Sample.directory "a", Sample.entry "a/x"]⟩,
        [65].length = e.size ∧ Externals.blake3Hex [65] = e.blake3 := by decide +kernel
    exact hall e he

/-- A file in the directory `a` of which only `A` is listed: the manifest is accepted, and the folder
is refused once everything has been received. -/
theorem respelled_parent_refused :
    let m : FolderManifest := ⟨1, [Sample.directory "A", Sample.entry "a/x"]⟩
    m.validate = .ok 1 ∧ Sample.stage.fs.get ["stage"] = some .dir ∧
      Sample.stage.fs.readDir ["stage"] = [] ∧
      (∀ e ∈ m.files, ([65] : Bytes).length = e.size ∧ Externals.blake3Hex [65] = e.blake3) ∧
      eval (do materialize ["stage"] m fun _ => [65]; validateFolderContents ["stage"] m) Sample.stage =
        .error (.invalidTransfer "folder contains an unexpected entry") := by
  decide +kernel

end InkHole
