import InkHole.Manifests
import InkHole.StateFiles

/-! The check of a folder against its manifest accepts the folder exactly when every
entry of the manifest is there and nothing else is. -/

set_option linter.unusedSectionVars false

namespace InkHole

open InkHole.CoreM Fallible FileTree FolderManifest

variable [Externals] {w : World} {root : Path} {m : FolderManifest}

/-- The node that an entry of a manifest stands for. -/
def FolderEntry.Is (e : FolderEntry) (n : Node Contents) : Prop :=
  match e.kind with
  | .directory => n = .dir
  | .file => ∃ c : Contents, n = .file c ∧ FileData.size c = e.size ∧ c.blake3Hex = e.blake3

/-- What lies below `root` is what the manifest lists. -/
structure Matches (t : FileTree Contents) (root : Path) (m : FolderManifest) : Prop where
  there : ∀ e ∈ m.entries, ∃ n, t.get (place root e.path) = some n ∧ e.Is n
  only : ∀ p, p ≠ [] → t.get (p ++ root) ≠ none → ∃ e ∈ m.entries, p ++ root = place root e.path

/-- A name of a file system is not empty and has no slash. -/
def FileTree.Named (t : FileTree Contents) (root : Path) : Prop :=
  ∀ name p, t.get (name :: p) ≠ none → root <:+ p → '/' ∉ name.toList ∧ name ≠ ""

theorem is_directory {e : FolderEntry} {n : Node Contents} (h : e.Is n) :
    n = .dir ↔ e.kind = .directory := by
  cases hk : e.kind with
  | directory =>
    simp only [FolderEntry.Is, hk] at h
    simp [h]
  | file =>
    simp only [FolderEntry.Is, hk] at h
    obtain ⟨c, rfl, -⟩ := h
    simp

section Eval

variable {α β : Type} {p : Path} {n : Node Contents}

theorem eval_symlinkMetadata_bind {f : Metadata → CoreM α} (h : w.fs.get p = some n) :
    eval (CoreM.fs (.symlinkMetadata p) >>= f) w = eval (f n.stat) w := by
  have hreads : (FsOp.symlinkMetadata (D := Contents) p).Reads := trivial
  rw [eval_bind (reads_fs hreads), eval_fs, FsOp.exec, stat_locate h]
  rfl

theorem eval_blake3FileHex_bind {c : Contents} {f : String → CoreM α} (h : w.fs.get p = some (.file c)) :
    eval (blake3FileHex p >>= f) w = eval (f c.blake3Hex) w := by
  have hreads : (FsOp.read (D := Contents) p).Reads := trivial
  have hdigest : eval (blake3FileHex p) w = .ok c.blake3Hex := by
    rw [blake3FileHex, eval_bind (reads_fs hreads), eval_fs, FsOp.exec, readFile_file h]
    rfl
  rw [eval_bind (reads_blake3FileHex p), hdigest]
  rfl

theorem eval_readDir_bind {f : List String → CoreM α} (hr : w.fs.Real p)
    (h : p = [] ∨ w.fs.get p = some .dir) :
    eval (CoreM.fs (.readDir p) >>= f) w = eval (f (w.fs.readDir p)) w := by
  have hreads : (FsOp.readDir (D := Contents) p).Reads := trivial
  rw [eval_bind (reads_fs hreads), eval_fs, FsOp.exec, listDir_dir hr h]
  rfl

end Eval

/-- One item is accepted when it is what its entry says, and directories are kept for later. -/
theorem eval_checkItem {p : Path} {relative : String} {e : FolderEntry} {n : Node Contents}
    (directories result : List (Path × String)) (he : m.expected relative = some e)
    (hn : w.fs.get p = some n) :
    eval (checkItem m p relative directories) w = .ok result ↔
      e.Is n ∧ result = if n = .dir then (p, relative) :: directories else directories := by
  rw [checkItem, he]
  simp only
  rw [eval_symlinkMetadata_bind hn]
  cases hk : e.kind with
  | directory => cases n <;> simp [FolderEntry.Is, hk, Node.stat, eq_comm]
  | file =>
    cases n with
    | file c =>
      change eval (throwIf ((Node.file c).stat.len ≠ e.size) _ >>= fun _ => _) w = _ ↔ _
      rw [eval_throwIf_bind, eval_blake3FileHex_bind hn, eval_throwIf_bind, eval_pure]
      simp only [FolderEntry.Is, hk, Node.stat]
      by_cases hsize : FileData.size c = e.size
      · by_cases hdigest : c.blake3Hex = e.blake3
        · simp [hsize, hdigest, eq_comm]
        · simp [hsize, hdigest]
      · simp [hsize]
    | _ => simp [FolderEntry.Is, hk, Node.stat]

/-- The directories among the items of a directory, the last one first. -/
def keptDirectories (t : FileTree Contents) (directory : Path) (parent : String) (names : List String) :
    List (Path × String) :=
  ((names.filter fun name => t.isDir (name :: directory)).map fun name =>
    (name :: directory, childPath parent name)).reverse

theorem keptDirectories_cons {t : FileTree Contents} {directory : Path} {parent name : String}
    {names : List String} (rest : List (Path × String)) :
    keptDirectories t directory parent (name :: names) ++ rest =
      keptDirectories t directory parent names ++
        if t.get (name :: directory) = some .dir then (name :: directory, childPath parent name) :: rest
        else rest := by
  have hdir : t.isDir (name :: directory) = true ↔ t.get (name :: directory) = some .dir := by
    simp [isDir_iff]
  by_cases h : t.get (name :: directory) = some .dir
  · simp [keptDirectories, hdir.mpr h, h]
  · simp [keptDirectories, Bool.eq_false_iff.mpr fun hc => h (hdir.mp hc), h]

/-- The item of this name is what the manifest expects. -/
def Listing (w : World) (m : FolderManifest) (directory : Path) (parent name : String) : Prop :=
  ∃ e n, m.expected (childPath parent name) = some e ∧ w.fs.get (name :: directory) = some n ∧ e.Is n

/-- One round of the loop over the items of a directory. -/
theorem eval_checkItems_cons (hl : m.Listed) {directory : Path} {parent name : String}
    {names : List String} {directories : List (Path × String)} {seen : List String}
    {result : List (Path × String) × List String} (hthere : w.fs.get (name :: directory) ≠ none) :
    eval (checkItems m directory parent (name :: names) directories seen) w = .ok result ↔
      Listing w m directory parent name ∧ childPath parent name ∉ seen ∧
        eval (checkItems m directory parent names
          (if w.fs.get (name :: directory) = some .dir then
            (name :: directory, childPath parent name) :: directories else directories)
          (childPath parent name :: seen)) w = .ok result := by
  obtain ⟨n, hn⟩ := Option.ne_none_iff_exists'.mp hthere
  rw [checkItems]
  change eval (liftM (validateFolderRelativePath (childPath parent name)) >>= fun _ =>
    throwIf _ _ >>= fun _ => throwIf _ _ >>= fun _ =>
      checkItem m (name :: directory) (childPath parent name) directories >>= fun directories =>
        checkItems m directory parent names directories (childPath parent name :: seen)) w = _ ↔ _
  rw [eval_lift_bind]
  cases he : m.expected (childPath parent name) with
  | none =>
    have hno : ¬ Listing w m directory parent name := by
      rintro ⟨e, -, hc, -⟩
      rw [he] at hc
      cases hc
    refine iff_of_false ?_ fun h => hno h.1
    cases validateFolderRelativePath (childPath parent name) with
    | error err => exact fun h => by cases h
    | ok u =>
      change ¬ eval (throwIf _ _ >>= fun _ => _) w = _
      rw [eval_throwIf_bind]
      change ¬ (if (m.expected (childPath parent name)).isNone = true then _ else _) = _
      rw [he]
      exact fun h => by cases h
  | some e =>
    have hmem := expected_some he
    have hvalid := hl.path e hmem.1
    rw [hmem.2] at hvalid
    rw [hvalid]
    change eval (throwIf _ _ >>= fun _ => throwIf _ _ >>= fun _ => _) w = _ ↔ _
    rw [eval_throwIf_bind, eval_throwIf_bind, eval_bind (reads_checkItem m _ _ _)]
    change (if (m.expected (childPath parent name)).isNone = true then _ else
      if childPath parent name ∈ seen then _ else
        eval (checkItem m (name :: directory) (childPath parent name) directories) w >>= fun _ => _) = _ ↔ _
    rw [he, if_neg (by simp)]
    by_cases hseen : childPath parent name ∈ seen
    · rw [if_pos hseen]
      exact iff_of_false (fun h => by cases h) fun h => h.2.1 hseen
    · rw [if_neg hseen, hn]
      have hitem := fun result => eval_checkItem directories result he hn
      cases hr : eval (checkItem m (name :: directory) (childPath parent name) directories) w with
      | error err =>
        refine iff_of_false (fun h => by cases h) ?_
        rintro ⟨⟨e', n', he', hn', his⟩, -⟩
        obtain rfl := Option.some.inj (he.symm.trans he')
        obtain rfl := Option.some.inj (hn.symm.trans hn')
        have hok := (hitem _).mpr ⟨his, rfl⟩
        rw [hr] at hok
        cases hok
      | ok kept =>
        obtain ⟨his, rfl⟩ := (hitem kept).mp hr
        have hlisting : Listing w m directory parent name := ⟨e, n, he, hn, his⟩
        simp only [hlisting, hseen, not_false_eq_true, true_and, Option.some.injEq]
        rfl

theorem eval_checkItems (hl : m.Listed) {directory : Path} (parent : String) {names : List String}
    (directories : List (Path × String)) (seen : List String)
    (result : List (Path × String) × List String)
    (hthere : ∀ name ∈ names, w.fs.get (name :: directory) ≠ none) :
    eval (checkItems m directory parent names directories seen) w = .ok result ↔
      (∀ name ∈ names, Listing w m directory parent name) ∧ (names.map (childPath parent)).Nodup ∧
        (∀ name ∈ names, childPath parent name ∉ seen) ∧
        result = (keptDirectories w.fs directory parent names ++ directories,
          (names.map (childPath parent)).reverse ++ seen) := by
  induction names generalizing directories seen with
  | nil => simp [checkItems, keptDirectories, eq_comm]
  | cons name names ih =>
    rw [List.forall_mem_cons] at hthere
    rw [eval_checkItems_cons hl hthere.1, ih _ _ hthere.2, ← keptDirectories_cons, List.forall_mem_cons,
      List.forall_mem_cons]
    simp only [List.map_cons, List.nodup_cons, List.mem_cons, not_or, List.reverse_cons,
      List.append_assoc, List.singleton_append, List.mem_map, not_exists, not_and]
    constructor
    · rintro ⟨hlisting, hnew, hrest, hnodup, hseen, hresult⟩
      exact ⟨⟨hlisting, hrest⟩, ⟨fun x hx => (hseen x hx).1, hnodup⟩, ⟨hnew, fun x hx => (hseen x hx).2⟩,
        hresult⟩
    · rintro ⟨⟨hlisting, hrest⟩, ⟨hfirst, hnodup⟩, ⟨hnew, hseen⟩, hresult⟩
      exact ⟨hlisting, hnew, hrest, hnodup, fun x hx => ⟨hfirst x hx, hseen x hx⟩, hresult⟩

/-- A directory that no link leads to. -/
def FileTree.Reaches (t : FileTree Contents) (p : Path) : Prop := t.Real p ∧ (p = [] ∨ t.get p = some .dir)

theorem FileTree.Reaches.child {t : FileTree Contents} {name : String} {p : Path}
    (h : t.get (name :: p) = some .dir) : t.Reaches (name :: p) := ⟨Real.of_get h, .inr h⟩

theorem mem_keptDirectories {t : FileTree Contents} {directory : Path} {parent : String}
    {names : List String} {x : Path × String} :
    x ∈ keptDirectories t directory parent names ↔
      ∃ name ∈ names, t.get (name :: directory) = some .dir ∧
        x = (name :: directory, childPath parent name) := by
  simp only [keptDirectories, List.mem_reverse, List.mem_map, List.mem_filter, isDir_iff, reduceCtorEq,
    false_or, and_assoc, eq_comm (a := x)]

/-- One directory of the stack. -/
theorem eval_walkFolder_cons (hl : m.Listed) {directory : Path} {parent : String} {fuel : Nat}
    {rest : List (Path × String)} {seen result : List String} (hd : w.fs.Reaches directory) :
    eval (walkFolder m (fuel + 1) ((directory, parent) :: rest) seen) w = .ok result ↔
      (∀ name ∈ w.fs.readDir directory, Listing w m directory parent name) ∧
        ((w.fs.readDir directory).map (childPath parent)).Nodup ∧
        (∀ name ∈ w.fs.readDir directory, childPath parent name ∉ seen) ∧
        eval (walkFolder m fuel (keptDirectories w.fs directory parent (w.fs.readDir directory) ++ rest)
          (((w.fs.readDir directory).map (childPath parent)).reverse ++ seen)) w = .ok result := by
  have hthere : ∀ name ∈ w.fs.readDir directory, w.fs.get (name :: directory) ≠ none :=
    fun name hname => mem_readDir.mp hname
  have hitems := fun result => eval_checkItems hl parent rest seen result hthere
  rw [walkFolder, eval_readDir_bind hd.1 hd.2, eval_bind (reads_checkItems m _ _ _ _ _)]
  cases hr : eval (checkItems m directory parent (w.fs.readDir directory) rest seen) w with
  | error err =>
    refine iff_of_false (fun h => by cases h) fun h => ?_
    have hok := (hitems _).mpr ⟨h.1, h.2.1, h.2.2.1, rfl⟩
    rw [hr] at hok
    cases hok
  | ok pair =>
    obtain ⟨hlisting, hnodup, hseen, rfl⟩ := (hitems pair).mp hr
    exact ⟨fun h => ⟨hlisting, hnodup, hseen, h⟩, fun h => h.2.2.2⟩

/-- What the walk has accepted below a directory. -/
def Accepted (w : World) (root : Path) (m : FolderManifest) (p : Path) : Prop :=
  ∃ e ∈ m.entries, ∃ n, place root e.path = p ∧ w.fs.get p = some n ∧ e.Is n

theorem Listing.accepted {directory : Path} {parent name : String}
    (h : Listing w m directory parent name) (hn : '/' ∉ name.toList ∧ name ≠ "")
    (hd : directory = place root parent) : Accepted w root m (name :: directory) := by
  obtain ⟨e, n, he, hget, his⟩ := h
  obtain ⟨hmem, hpath⟩ := expected_some he
  exact ⟨e, hmem, n, by rw [hpath, place_child root parent hn.1 hn.2, hd], hget, his⟩

theorem Listing.child {directory : Path} {parent name : String}
    (h : Listing w m directory parent name) (hn : '/' ∉ name.toList ∧ name ≠ "")
    (hd : directory = place root parent) :
    ∃ e ∈ m.entries, ∃ n, e.path = childPath parent name ∧ w.fs.get (place root (childPath parent name)) = some n ∧
      e.Is n := by
  obtain ⟨e, n, he, hget, his⟩ := h
  obtain ⟨hmem, hpath⟩ := expected_some he
  exact ⟨e, hmem, n, hpath, by rwa [place_child root parent hn.1 hn.2, ← hd], his⟩

theorem walkFolder_sound (hl : m.Listed) (hnamed : w.fs.Named root) {fuel : Nat}
    {stack : List (Path × String)} {seen result : List String}
    (hstack : ∀ x ∈ stack, w.fs.Reaches x.1 ∧ x.1 = place root x.2)
    (h : eval (walkFolder m fuel stack seen) w = .ok result) :
    (∀ x ∈ stack, ∀ q, q ≠ [] → w.fs.get (q ++ x.1) ≠ none → Accepted w root m (q ++ x.1)) ∧
      (∀ relative ∈ result, relative ∈ seen ∨ ∃ e ∈ m.entries, ∃ n, e.path = relative ∧
        w.fs.get (place root relative) = some n ∧ e.Is n) ∧
      (seen.Nodup → result.Nodup) := by
  induction fuel generalizing stack seen with
  | zero =>
    cases stack with
    | nil =>
      obtain rfl := Except.ok.inj h
      exact ⟨fun x hx => (by cases hx), fun relative hrel => .inl hrel, fun hs => hs⟩
    | cons x rest => cases h
  | succ fuel ih =>
    cases stack with
    | nil =>
      obtain rfl := Except.ok.inj h
      exact ⟨fun x hx => (by cases hx), fun relative hrel => .inl hrel, fun hs => hs⟩
    | cons x rest =>
      obtain ⟨directory, parent⟩ := x
      obtain ⟨hd, hplace⟩ := hstack _ List.mem_cons_self
      simp only at hd hplace
      obtain ⟨hlisting, hnodup, hseen, hrest⟩ := (eval_walkFolder_cons hl hd).mp h
      have hroot : root <:+ directory := hplace ▸ suffix_place root parent
      have hplain : ∀ name ∈ w.fs.readDir directory, '/' ∉ name.toList ∧ name ≠ "" := fun name hname =>
        hnamed name directory (mem_readDir.mp hname) hroot
      have hstack' : ∀ x ∈ keptDirectories w.fs directory parent (w.fs.readDir directory) ++ rest,
          w.fs.Reaches x.1 ∧ x.1 = place root x.2 := by
        intro x hx
        rcases List.mem_append.mp hx with hx | hx
        · obtain ⟨name, hname, hdir, rfl⟩ := mem_keptDirectories.mp hx
          have hn := hplain name hname
          exact ⟨Reaches.child hdir, by rw [place_child root parent hn.1 hn.2, ← hplace]⟩
        · exact hstack x (List.mem_cons_of_mem _ hx)
      obtain ⟨hbelow, hresult, hunique⟩ := ih hstack' hrest
      refine ⟨fun x hx q hq hget => ?_, fun relative hrel => ?_, fun hs => hunique ?_⟩
      · rcases List.mem_cons.mp hx with rfl | hx
        · -- the first step below the directory is one of its items
          obtain ⟨q, name, rfl⟩ := (List.eq_nil_or_concat q).resolve_left hq
          rw [List.concat_eq_append, List.append_assoc, List.singleton_append] at hget ⊢
          have hname : name ∈ w.fs.readDir directory := by
            refine mem_readDir.mpr fun hnone => hget ?_
            exact absent_below (List.cons_ne_nil _ _) hnone (List.suffix_append q _)
          by_cases hq : q = []
          · rw [hq, List.nil_append]
            exact (hlisting name hname).accepted (hplain name hname) hplace
          · obtain ⟨n, hn⟩ := Option.ne_none_iff_exists'.mp hget
            have hne : name :: directory ≠ q ++ name :: directory := fun he =>
              hq (List.self_eq_append_left.mp he)
            have hdir := (get_ancestor hn (List.suffix_append q _) hne).resolve_left (List.cons_ne_nil _ _)
            exact hbelow _ (List.mem_append_left _ (mem_keptDirectories.mpr ⟨name, hname, hdir, rfl⟩)) q hq
              hget
        · exact hbelow x (List.mem_append_right _ hx) q hq hget
      · rcases hresult relative hrel with hs | hs
        · rcases List.mem_append.mp hs with hs | hs
          · obtain ⟨name, hname, rfl⟩ := List.mem_map.mp (List.mem_reverse.mp hs)
            exact .inr ((hlisting name hname).child (hplain name hname) hplace)
          · exact .inl hs
        · exact .inr hs
      · refine List.nodup_append'.mpr ⟨List.nodup_reverse.mpr hnodup, hs, fun relative hrel => ?_⟩
        obtain ⟨name, hname, rfl⟩ := List.mem_map.mp (List.mem_reverse.mp hrel)
        exact hseen name hname

/-- What the walk knows while every item it meets is as expected: an entry has been seen when its
directory has been read. -/
structure Walking (w : World) (root : Path) (m : FolderManifest) (stack : List (Path × String))
    (seen : List String) : Prop where
  reaches : ∀ x ∈ stack, w.fs.Reaches x.1 ∧ x.1 = place root x.2
  met : ∀ x ∈ stack, x.2 = "" ∨ x.2 ∈ seen
  stack_nodup : (stack.map Prod.snd).Nodup
  seen_nodup : seen.Nodup
  entries : ∀ relative ∈ seen, ∃ e ∈ m.entries, e.path = relative
  seen_iff : ∀ e ∈ m.entries, ∀ parent name, e.path = childPath parent name → '/' ∉ name.toList →
    name ≠ "" → (e.path ∈ seen ↔ (parent = "" ∨ parent ∈ seen) ∧ parent ∉ stack.map Prod.snd)

theorem Walking.init (hd : w.fs.Reaches root) : Walking w root m [(root, "")] [] where
  reaches x hx := by
    obtain rfl := List.mem_singleton.mp hx
    exact ⟨hd, (place_empty root).symm⟩
  met x hx := by
    obtain rfl := List.mem_singleton.mp hx
    exact .inl rfl
  stack_nodup := List.nodup_singleton _
  seen_nodup := List.nodup_nil
  entries relative h := by cases h
  seen_iff e he parent name hp hs hn := by simp

variable {directory : Path} {parent : String} {rest : List (Path × String)} {seen : List String}

theorem Walking.length_le (h : Walking w root m rest seen) : seen.length ≤ m.entries.length := by
  have hsub : seen ⊆ m.entries.map FolderEntry.path := by
    intro relative hr
    obtain ⟨e, he, rfl⟩ := h.entries relative hr
    exact List.mem_map_of_mem he
  simpa using (List.subperm_of_subset h.seen_nodup hsub).length_le

/-- The items of a directory are the entries of the manifest in it. -/
theorem Matches.mem_readDir (hm : Matches w.fs root m) (hnamed : w.fs.Named root) {name : String} :
    name ∈ w.fs.readDir (place root parent) ↔
      ('/' ∉ name.toList ∧ name ≠ "") ∧ ∃ e ∈ m.entries, e.path = childPath parent name := by
  have hroot := suffix_place root parent
  rw [FileTree.mem_readDir]
  constructor
  · intro hget
    have hn := hnamed name _ hget hroot
    obtain ⟨q, hq⟩ := hroot
    have hq' : (name :: q) ++ root = name :: place root parent := by rw [List.cons_append, hq]
    obtain ⟨e, he, hp⟩ := hm.only (name :: q) (List.cons_ne_nil _ _) (by rwa [hq'])
    have hplace : place root e.path = place root (childPath parent name) := by
      rw [← hp, hq', place_child root parent hn.1 hn.2]
    exact ⟨hn, e, he, place_inj hplace⟩
  · rintro ⟨hn, e, he, hp⟩
    obtain ⟨n, hget, -⟩ := hm.there e he
    rw [hp, place_child root parent hn.1 hn.2] at hget
    rw [hget]
    exact Option.some_ne_none n

theorem Matches.listing (hl : m.Listed) (hm : Matches w.fs root m) (hnamed : w.fs.Named root)
    {name : String} (hname : name ∈ w.fs.readDir (place root parent)) :
    Listing w m (place root parent) parent name := by
  obtain ⟨hn, e, he, hp⟩ := (hm.mem_readDir hnamed).mp hname
  obtain ⟨n, hget, his⟩ := hm.there e he
  rw [hp, place_child root parent hn.1 hn.2] at hget
  exact ⟨e, n, hp ▸ hl.expected he, hget, his⟩

theorem children_nodup (parent : String) (hnamed : w.fs.Named root) :
    ((w.fs.readDir (place root parent)).map (childPath parent)).Nodup := by
  have hroot := suffix_place root parent
  refine List.Nodup.map_on (fun a ha b hb he => ?_) (nodup_readDir _ _)
  have hna := hnamed a _ (FileTree.mem_readDir.mp ha) hroot
  have hnb := hnamed b _ (FileTree.mem_readDir.mp hb) hroot
  exact (childPath_inj hna.1 hna.2 hnb.1 hnb.2 he).2

theorem kept_subset {x : Path × String}
    (h : x ∈ keptDirectories w.fs directory parent (w.fs.readDir directory)) :
    x.2 ∈ (w.fs.readDir directory).map (childPath parent) := by
  obtain ⟨name, hname, -, rfl⟩ := mem_keptDirectories.mp h
  exact List.mem_map_of_mem hname

theorem kept_nodup (h : ((w.fs.readDir directory).map (childPath parent)).Nodup) :
    ((keptDirectories w.fs directory parent (w.fs.readDir directory)).map Prod.snd).Nodup := by
  rw [keptDirectories, List.map_reverse, List.nodup_reverse, List.map_map]
  exact h.sublist (List.filter_sublist.map _)

theorem Walking.fresh (hm : Matches w.fs root m) (hnamed : w.fs.Named root)
    (h : Walking w root m ((place root parent, parent) :: rest) seen) :
    ∀ relative ∈ (w.fs.readDir (place root parent)).map (childPath parent), relative ≠ "" ∧ relative ∉ seen := by
  intro relative hr
  obtain ⟨name, hname, rfl⟩ := List.mem_map.mp hr
  obtain ⟨hn, e, he, hp⟩ := (hm.mem_readDir hnamed).mp hname
  refine ⟨childPath_ne hn.2, fun hs => ?_⟩
  have hiff := (h.seen_iff e he parent name hp hn.1 hn.2).mp (hp ▸ hs)
  exact hiff.2 (by simp)

/-- Reading the next directory of the stack keeps the walk on its way. -/
theorem Walking.step (hm : Matches w.fs root m) (hnamed : w.fs.Named root)
    (h : Walking w root m ((place root parent, parent) :: rest) seen) :
    Walking w root m
      (keptDirectories w.fs (place root parent) parent (w.fs.readDir (place root parent)) ++ rest)
      (((w.fs.readDir (place root parent)).map (childPath parent)).reverse ++ seen) := by
  have hfresh := h.fresh hm hnamed
  have hchildren := children_nodup parent hnamed
  obtain ⟨hparent, hrest⟩ := List.nodup_cons.mp h.stack_nodup
  have hplain : ∀ name ∈ w.fs.readDir (place root parent), '/' ∉ name.toList ∧ name ≠ "" :=
    fun name hname => ((hm.mem_readDir hnamed).mp hname).1
  constructor
  · intro x hx
    rcases List.mem_append.mp hx with hx | hx
    · obtain ⟨name, hname, hdir, rfl⟩ := mem_keptDirectories.mp hx
      have hn := hplain name hname
      exact ⟨Reaches.child hdir, (place_child root parent hn.1 hn.2).symm⟩
    · exact h.reaches x (List.mem_cons_of_mem _ hx)
  · intro x hx
    rcases List.mem_append.mp hx with hx | hx
    · exact .inr (List.mem_append_left _ (List.mem_reverse.mpr (kept_subset hx)))
    · exact (h.met x (List.mem_cons_of_mem _ hx)).imp_right fun hs => List.mem_append_right _ hs
  · rw [List.map_append]
    refine List.nodup_append'.mpr ⟨kept_nodup hchildren, hrest, fun relative hk hr => ?_⟩
    obtain ⟨x, hx, rfl⟩ := List.mem_map.mp hk
    obtain ⟨y, hy, he⟩ := List.mem_map.mp hr
    have hx := hfresh _ (kept_subset hx)
    rcases h.met y (List.mem_cons_of_mem _ hy) with hy | hy
    · exact hx.1 (he ▸ hy)
    · exact hx.2 (he ▸ hy)
  · exact List.nodup_append'.mpr ⟨List.nodup_reverse.mpr hchildren, h.seen_nodup, fun relative hr hs =>
      (hfresh relative (List.mem_reverse.mp hr)).2 hs⟩
  · intro relative hr
    rcases List.mem_append.mp hr with hr | hr
    · obtain ⟨name, hname, rfl⟩ := List.mem_map.mp (List.mem_reverse.mp hr)
      exact ((hm.mem_readDir hnamed).mp hname).2
    · exact h.entries relative hr
  · intro e he above name hp hs hn
    have hold := h.seen_iff e he above name hp hs hn
    simp only [List.mem_append, List.mem_reverse, List.map_append, not_or, List.map_cons,
      List.mem_cons] at hold ⊢
    have hmem : ∀ relative, relative ∈ (keptDirectories w.fs (place root parent) parent
        (w.fs.readDir (place root parent))).map Prod.snd →
        relative ∈ (w.fs.readDir (place root parent)).map (childPath parent) := by
      intro relative hr
      obtain ⟨x, hx, rfl⟩ := List.mem_map.mp hr
      exact kept_subset hx
    by_cases hsame : above = parent
    · -- the entry lies in the directory that was read
      subst hsame
      have hchild : e.path ∈ (w.fs.readDir (place root above)).map (childPath above) :=
        List.mem_map.mpr ⟨name, (hm.mem_readDir hnamed).mpr ⟨⟨hs, hn⟩, e, he, hp⟩, hp.symm⟩
      refine iff_of_true (.inl hchild) ⟨?_, ?_, hparent⟩
      · exact (h.met _ List.mem_cons_self).imp_right .inr
      · intro hk
        obtain ⟨name', hname', hc⟩ := List.mem_map.mp (hmem above hk)
        have hn' := hplain name' hname'
        have hplace := congrArg (fun relative => (place root relative).length) hc
        simp [place_child root above hn'.1 hn'.2] at hplace
    · have hother : e.path ∉ (w.fs.readDir (place root parent)).map (childPath parent) := by
        intro hc
        obtain ⟨name', hname', he'⟩ := List.mem_map.mp hc
        have hn' := hplain name' hname'
        exact hsame (childPath_inj hn'.1 hn'.2 hs hn (he'.trans hp)).1.symm
      by_cases habove : above ∈ (w.fs.readDir (place root parent)).map (childPath parent)
      · -- the entry lies in a directory that was found just now
        have hnew := hfresh above habove
        obtain ⟨name', hname', hc⟩ := List.mem_map.mp habove
        have hn' := hplain name' hname'
        have hdir : w.fs.get (name' :: place root parent) = some .dir := by
          obtain ⟨n, hget, -⟩ := hm.there e he
          rw [hp, place_child root above hs hn, ← hc, place_child root parent hn'.1 hn'.2] at hget
          exact (get_parent hget).resolve_left (List.cons_ne_nil _ _)
        have hkept : above ∈ (keptDirectories w.fs (place root parent) parent
            (w.fs.readDir (place root parent))).map Prod.snd :=
          List.mem_map.mpr ⟨_, mem_keptDirectories.mpr ⟨name', hname', hdir, rfl⟩, hc⟩
        refine iff_of_false (fun hc => ?_) fun hc => hc.2.1 hkept
        exact (hold.mp (hc.resolve_left hother)).1.elim hnew.1 hnew.2
      · have hkept : above ∉ (keptDirectories w.fs (place root parent) parent
            (w.fs.readDir (place root parent))).map Prod.snd := fun hc => habove (hmem above hc)
        simp only [hother, habove, false_or] at hold ⊢
        rw [hold]
        exact and_congr_right' (by simp only [hsame, hkept, not_false_eq_true, true_and])

theorem Walking.finished (hl : m.Listed) (hm : Matches w.fs root m)
    (h : Walking w root m [] seen) : ∀ e ∈ m.entries, e.path ∈ seen := by
  intro e he
  induction hlen : (place root e.path).length using Nat.strong_induction_on generalizing e with
  | _ len ih =>
    obtain ⟨parent, name, hp, hs, hn⟩ := exists_childPath (valid_components (hl.path e he)).2
    refine (h.seen_iff e he parent name hp hs hn).mpr ⟨?_, by simp⟩
    by_cases hparent : parent = ""
    · exact .inl hparent
    · -- the directory of an entry is an entry that was seen before it
      obtain ⟨n, hget, -⟩ := hm.there e he
      have hplace : place root e.path = name :: place root parent := by rw [hp, place_child root parent hs hn]
      have hcomponents : place root parent = _ := place_of_ne hparent
      have hne : (components parent).reverse ≠ [] := by simpa using components_ne_nil parent
      rw [hplace] at hget
      have hdir := (get_parent hget).resolve_left (by rw [hcomponents]; simp [hne])
      obtain ⟨f, hf, hfp⟩ := hm.only _ hne (by rw [← hcomponents, hdir]; simp)
      have hpath : parent = f.path := place_inj (hcomponents.trans hfp)
      have hless : (place root f.path).length < len := by
        rw [← hlen, hplace, ← hpath, List.length_cons]
        omega
      exact .inr (hpath ▸ ih _ hless f hf rfl)

/-- With a step of fuel for each directory that is waiting and each entry that is not seen yet,
the walk comes to its end. -/
theorem Walking.complete (hl : m.Listed) (hm : Matches w.fs root m) (hnamed : w.fs.Named root)
    {stack : List (Path × String)} (h : Walking w root m stack seen) (fuel : Nat)
    (hfuel : stack.length + (m.entries.length - seen.length) ≤ fuel) :
    ∃ result, eval (walkFolder m fuel stack seen) w = .ok result ∧
      result.length = m.entries.length := by
  induction fuel generalizing stack seen with
  | zero =>
    obtain rfl : stack = [] := List.length_eq_zero_iff.mp (by omega)
    exact ⟨seen, rfl, Nat.le_antisymm h.length_le (by omega)⟩
  | succ fuel ih =>
    cases stack with
    | nil =>
      have hall : m.entries.map FolderEntry.path ⊆ seen := by
        intro relative hr
        obtain ⟨e, he, rfl⟩ := List.mem_map.mp hr
        exact h.finished hl hm e he
      have hle := (List.subperm_of_subset hl.nodup hall).length_le
      rw [List.length_map] at hle
      exact ⟨seen, rfl, Nat.le_antisymm h.length_le hle⟩
    | cons x rest =>
      obtain ⟨directory, parent⟩ := x
      obtain ⟨hd, hplace⟩ := h.reaches _ List.mem_cons_self
      obtain rfl : directory = place root parent := hplace
      have hstep := h.step hm hnamed
      have hfresh := h.fresh hm hnamed
      have hle := hstep.length_le
      have hkept : (keptDirectories w.fs (place root parent) parent
          (w.fs.readDir (place root parent))).length ≤ (w.fs.readDir (place root parent)).length := by
        rw [keptDirectories, List.length_reverse, List.length_map]
        exact List.length_filter_le _ _
      rw [List.length_append, List.length_reverse, List.length_map] at hle
      obtain ⟨result, hr, hlen⟩ := ih hstep (by
        simp only [List.length_append, List.length_reverse, List.length_map, List.length_cons] at hfuel ⊢
        omega)
      refine ⟨result, (eval_walkFolder_cons hl hd).mpr ⟨fun name hname => hm.listing hl hnamed hname,
        children_nodup parent hnamed, fun name hname => (hfresh _ (List.mem_map_of_mem hname)).2, hr⟩, hlen⟩

theorem eval_ensureDirectoryExists {p : Path} {n : Node Contents} (h : w.fs.get p = some n) :
    eval (ensureDirectoryExists p) w = .ok () ↔ n = .dir := by
  rw [ensureDirectoryExists, eval_symlinkMetadata_bind h, eval_throwIf]
  cases n <;> simp [Node.stat]

/-- From a directory that no link leads to, the walk accepts what the manifest lists. -/
theorem eval_walk_iff (hl : m.Listed) (hnamed : w.fs.Named root) (hstart : w.fs.Reaches root) :
    eval (walkFolder m (m.entries.length + 1) [(root, "")] [] >>= fun seen =>
        throwIf (seen.length ≠ m.entries.length) (.invalidTransfer "folder is missing a manifest entry")) w =
      .ok () ↔ Matches w.fs root m := by
  rw [eval_bind (reads_walkFolder m _ _ _)]
  constructor
  · intro h
    cases hw : eval (walkFolder m (m.entries.length + 1) [(root, "")] []) w with
    | error err =>
      rw [hw] at h
      cases h
    | ok result =>
      rw [hw] at h
      change eval (throwIf (result.length ≠ m.entries.length) _) w = _ at h
      rw [eval_throwIf] at h
      split at h
      · cases h
      · next hlen =>
        obtain ⟨hbelow, hresult, hunique⟩ := walkFolder_sound hl hnamed (fun x hx => by
          obtain rfl := List.mem_singleton.mp hx
          exact ⟨hstart, (place_empty root).symm⟩) hw
        have hsub : result ⊆ m.entries.map FolderEntry.path := by
          intro relative hr
          obtain ⟨e, he, n, hp, -⟩ := (hresult relative hr).resolve_left (by simp)
          exact hp ▸ List.mem_map_of_mem he
        have hperm := (List.subperm_of_subset (hunique List.nodup_nil) hsub).perm_of_length_le (by
          rw [List.length_map]
          omega)
        constructor
        · intro e he
          obtain ⟨f, hf, n, hp, hget, his⟩ := (hresult e.path
            (hperm.mem_iff.mpr (List.mem_map_of_mem he))).resolve_left (by simp)
          exact ⟨n, hget, hl.eq_of_path hf he hp ▸ his⟩
        · intro p hp hget
          obtain ⟨e, he, n, hplace, -⟩ := hbelow (root, "") (List.mem_singleton.mpr rfl) p hp hget
          exact ⟨e, he, hplace.symm⟩
  · intro hm
    obtain ⟨result, hr, hlen⟩ := (Walking.init hstart).complete hl hm hnamed
      (m.entries.length + 1) (by simp; omega)
    rw [hr]
    change eval (throwIf (result.length ≠ m.entries.length) _) w = _
    rw [eval_throwIf, if_neg (not_not.mpr hlen)]

/-- The check accepts a folder exactly when it holds what the manifest lists. -/
theorem eval_validateFolderContents {size : Nat} (hv : m.validate = .ok size) (hne : root ≠ [])
    (hnamed : w.fs.Named root) (hreal : w.fs.Real root) :
    eval (validateFolderContents root m) w = .ok () ↔
      w.fs.get root = some .dir ∧ Matches w.fs root m := by
  have hl := (validate_ok hv).1
  rw [validateFolderContents, eval_lift_bind, hv]
  change eval (ensureDirectoryExists root >>= fun _ => _) w = _ ↔ _
  rw [eval_bind (reads_ensureDirectoryExists root)]
  by_cases hdir : w.fs.get root = some .dir
  · rw [(eval_ensureDirectoryExists hdir).mpr rfl]
    simp only [hdir, true_and]
    exact eval_walk_iff hl hnamed ⟨hreal, .inr hdir⟩
  · refine iff_of_false ?_ fun h => hdir h.1
    cases hn : w.fs.get root with
    | none =>
      have hreads : (FsOp.symlinkMetadata (D := Contents) root).Reads := trivial
      rw [ensureDirectoryExists, eval_bind (reads_fs hreads), eval_fs, FsOp.exec,
        stat_locate_absent hreal hne hn]
      exact fun h => by cases h
    | some n =>
      cases he : eval (ensureDirectoryExists root) w with
      | error err => exact fun h => by cases h
      | ok u => exact absurd (hn.trans (congrArg some ((eval_ensureDirectoryExists hn).mp he))) hdir

end InkHole
