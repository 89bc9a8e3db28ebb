import InkHole.FolderWalk

/-! What is done in the staging tree of a folder: making directories, opening files and
removing the tree. Worlds that only differ in the tree are told apart by what it holds. -/

set_option linter.unusedSectionVars false

namespace InkHole

open InkHole.CoreM Fallible FileTree

variable [Externals] {w : World} {root : Path} {I : World → Prop} {F : CoreError → World → Prop}
  {P : Path → Node Contents → Prop}

/-- All that lies below `root` is of the kind `P` tells. -/
structure Holding (P : Path → Node Contents → Prop) (root : Path) (t : FileTree Contents) : Prop where
  root_dir : t.get root = some .dir
  below : ∀ q, q ≠ [] → ∀ n, t.get (q ++ root) = some n →
    P (q ++ root) n ∧ (n = .dir ∨ ∃ d, n = .file d)

theorem Holding.sets {t t' : FileTree Contents} {p : Path} {n : Node Contents} (h : Holding P root t)
    (hs : Sets t t' (p ++ root) (some n)) (hp : p ≠ []) (hn : P (p ++ root) n)
    (hk : n = .dir ∨ ∃ d, n = .file d) : Holding P root t' := by
  constructor
  · have hne : root ≠ p ++ root := fun he => hp (List.self_eq_append_left.mp he)
    rw [hs.off hne, h.root_dir]
  · intro q hq n' hget
    rw [hs (q ++ root)] at hget
    split at hget
    · next he =>
      rw [he]
      exact Option.some.inj hget ▸ ⟨hn, hk⟩
    · exact h.below q hq n' hget

theorem Holding.unset {t t' : FileTree Contents} {p : Path} (h : Holding P root t)
    (hs : Sets t t' (p ++ root) none) (hp : p ≠ []) : Holding P root t' := by
  constructor
  · have hne : root ≠ p ++ root := fun he => hp (List.self_eq_append_left.mp he)
    rw [hs.off hne, h.root_dir]
  · intro q hq n' hget
    rw [hs (q ++ root)] at hget
    split at hget
    · cases hget
    · exact h.below q hq n' hget

theorem holding_empty (hd : w.fs.get root = some .dir) (hempty : w.fs.readDir root = []) :
    Holding P root w.fs := by
  refine ⟨hd, fun q hq n hn => ?_⟩
  have hne : root ≠ q ++ root := fun he => hq (List.self_eq_append_left.mp he)
  exact absurd hempty (readDir_ne_nil_above hn (List.suffix_append q root) hne)

/-- The worlds differ in the tree only. -/
structure Stays (P : Path → Node Contents → Prop) (root : Path) (w w' : World) : Prop where
  holding : Holding P root w'.fs
  off : ∀ q, ¬ root <:+ q → w'.fs.get q = w.fs.get q

theorem Stays.refl (h : Holding P root w.fs) : Stays P root w w := ⟨h, fun _ _ => rfl⟩

theorem Stays.trans {w₁ w₂ : World} (h : Stays P root w w₁) (h' : Stays P root w₁ w₂) : Stays P root w w₂ :=
  ⟨h'.holding, fun q hq => (h'.off q hq).trans (h.off q hq)⟩

theorem Holding.stays {w' : World} {p : Path} {n : Node Contents} (h : Holding P root w.fs)
    (hs : Sets w.fs w'.fs (p ++ root) (some n)) (hp : p ≠ []) (hn : P (p ++ root) n)
    (hk : n = .dir ∨ ∃ d, n = .file d) : Stays P root w w' :=
  ⟨h.sets hs hp hn hk, fun _ hq => hs.off fun he => hq (he ▸ List.suffix_append p root)⟩

theorem Holding.stays_unset {w' : World} {p : Path} (h : Holding P root w.fs)
    (hs : Sets w.fs w'.fs (p ++ root) none) (hp : p ≠ []) : Stays P root w w' :=
  ⟨h.unset hs hp, fun _ hq => hs.off fun he => hq (he ▸ List.suffix_append p root)⟩

theorem Stays.sound {L : Layout} {w' : World} (h : Stays P root w w') (hs : L.Sound w.fs)
    (hroot : L.Inside root) : L.Sound w'.fs := by
  refine hs.of_frame (fun q hq => h.off q fun hr => hq (hroot.above hr)) fun q hq n hn => ?_
  by_cases hr : root <:+ q
  · obtain ⟨p, rfl⟩ := hr
    by_cases hp : p = []
    · subst hp
      rw [List.nil_append, h.holding.root_dir] at hn
      exact .inl (Option.some.inj hn).symm
    · exact (h.holding.below p hp n hn).2
  · rw [h.off q hr] at hn
    exact hs.plain q hq n hn

/-- The node belongs at the path, and whatever else may be there is of its kind, unless `F` allows
to fail. -/
def Fits (P : Path → Node Contents → Prop) (F : CoreError → World → Prop) (p : Path)
    (n : Node Contents) : Prop :=
  P p n ∧ ∀ n', P p n' → n'.stat.kind ≠ n.stat.kind → ∀ e w, F e w

/-- Whatever was there is as it was. -/
def Extends (w w' : World) : Prop := ∀ p n, w.fs.get p = some n → w'.fs.get p = some n

theorem Extends.refl (w : World) : Extends w w := fun _ _ h => h

theorem Extends.trans {w₁ w₂ w₃ : World} (h : Extends w₁ w₂) (h' : Extends w₂ w₃) : Extends w₁ w₃ :=
  fun p n hn => h' p n (h p n hn)

theorem extends_sets {w w' : World} {p : Path} {n : Node Contents} (h : Sets w.fs w'.fs p (some n))
    (hp : w.fs.get p = none) : Extends w w' := by
  intro q m hq
  have hne : q ≠ p := fun he => by
    rw [he, hp] at hq
    cases hq
  rwa [h.off hne]

/-- What a step leaves that made its way to the directory `p`. -/
structure Reached (P : Path → Node Contents → Prop) (root : Path) (w : World) (p : Path) (w' : World) :
    Prop where
  stays : Stays P root w w'
  kept : Extends w w'
  dir : w'.fs.get p = some .dir

theorem stat_kind_dir {n : Node Contents} : n.stat.kind = .dir ↔ n = .dir := by
  cases n <;> simp [Node.stat]

theorem along_ensureDirectoryExists {p : Path} {n : Node Contents} {Q : Unit → World → Prop} (hi : I w)
    (h : w.fs.get p = some n) (hq : n = .dir → Q () w) (hf : n ≠ .dir → ∀ e, F e w) :
    Along I Q F (ensureDirectoryExists p) w := by
  refine along_of_reads (reads_ensureDirectoryExists p) hi (fun u hu => ?_) fun e he => ?_
  · exact hq ((eval_ensureDirectoryExists h).mp hu)
  · refine hf (fun hd => ?_) e
    rw [(eval_ensureDirectoryExists h).mpr hd] at he
    cases he

theorem along_makeDirectory {name : String} {q : Path} (h : Holding P root w.fs)
    (hI : ∀ w', Stays P root w w' → I w')
    (hparent : w.fs.get (q ++ root) = some .dir) (hp : Fits P F (name :: q ++ root) .dir) :
    Along I (fun _ w' => Reached P root w (name :: q ++ root) w') F (makeDirectory (name :: q ++ root)) w := by
  have hne : name :: q ≠ [] := List.cons_ne_nil name q
  have hsame := Stays.refl h
  rw [makeDirectory]
  cases hn : w.fs.get (name :: q ++ root) with
  | none =>
    obtain ⟨t, ht, hs⟩ := makeDir_new (Real.child hparent name) (List.cons_ne_nil _ _) hn
    refine along_bind (Q := fun r w' => r = .ok () ∧ w'.fs = t)
      (along_attempt_done ht fun w' hw' => ⟨hI w' ?_, rfl, hw'⟩) ?_
    · exact h.stays (hw' ▸ hs) hne hp.1 (.inl rfl)
    · rintro _ w' ⟨rfl, rfl⟩
      exact along_pure ⟨h.stays hs hne hp.1 (.inl rfl), extends_sets hs hn, hs.at⟩
  | some n =>
    refine along_bind (Q := fun r w' => r = .error .alreadyExists ∧ w = w')
      (along_attempt_failed (makeDir_there hn) (hI w hsame) ⟨rfl, rfl⟩) ?_
    rintro _ _ ⟨rfl, rfl⟩
    exact along_ensureDirectoryExists (hI w hsame) hn (fun hd => ⟨hsame, Extends.refl w, hd ▸ hn⟩)
      fun hd e => hp.2 n (h.below _ hne n hn).1 (fun hk => hd (stat_kind_dir.mp hk)) e w

theorem along_makeDirectories {q : Path} (names : List String) (h : Holding P root w.fs)
    (hI : ∀ w', Stays P root w w' → I w')
    (hparent : w.fs.get (q ++ root) = some .dir)
    (hp : ∀ init, init ≠ [] → init <+: names → Fits P F (init.reverse ++ q ++ root) .dir) :
    Along I (fun _ w' => Reached P root w (names.reverse ++ q ++ root) w') F
      (makeDirectories (q ++ root) names) w := by
  induction names generalizing q w with
  | nil => exact along_pure ⟨Stays.refl h, Extends.refl w, by simpa using hparent⟩
  | cons name names ih =>
    have hfirst := hp [name] (List.cons_ne_nil _ _) ⟨names, rfl⟩
    rw [makeDirectories]
    refine along_bind (along_makeDirectory h hI hparent hfirst) fun _ w₁ h₁ => ?_
    have hrest := ih (w := w₁) (q := name :: q) h₁.stays.holding (fun w' h' => hI w' (h₁.stays.trans h'))
      h₁.dir fun init hne hi => by
        have hinit := hp (name :: init) (List.cons_ne_nil _ _) (List.cons_prefix_cons.mpr ⟨rfl, hi⟩)
        simpa using hinit
    refine hrest.mono (fun _ h => h) (fun _ w₂ h₂ => ?_) fun _ _ h => h
    exact ⟨h₁.stays.trans h₂.stays, h₁.kept.trans h₂.kept, by simpa using h₂.dir⟩

/-- The node of an entry belongs at its place, and directories on the way there. -/
structure Suits (P : Path → Node Contents → Prop) (F : CoreError → World → Prop) (root : Path)
    (path : String) (n : Node Contents) : Prop where
  valid : validateFolderRelativePath path = .ok ()
  parents : ∀ init, init ≠ [] → init <+: (components path).dropLast → Fits P F (init.reverse ++ root) .dir
  node : Fits P F (place root path) n

theorem place_dropLast (root : Path) {path : String} (h : path ≠ "") : place root path =
    (components path).getLast (components_ne_nil path) :: (components path).dropLast.reverse ++ root := by
  have hl := List.dropLast_append_getLast (components_ne_nil path)
  rw [place_of_ne h]
  conv_lhs => rw [← hl]
  simp

theorem along_ensureSafeParentDirectories {path : String} (h : Holding P root w.fs)
    (hI : ∀ w', Stays P root w w' → I w') (hv : validateFolderRelativePath path = .ok ())
    (hparents : ∀ init, init ≠ [] → init <+: (components path).dropLast →
      Fits P F (init.reverse ++ root) .dir) :
    Along I (fun _ w' => Reached P root w ((components path).dropLast.reverse ++ root) w') F
      (ensureSafeParentDirectories root path) w := by
  rw [ensureSafeParentDirectories]
  refine along_bind (Q := fun _ w' => w = w') (along_lift (fun _ _ => rfl) fun e he => ?_) ?_
  · rw [hv] at he
    cases he
  rintro - _ rfl
  refine along_bind (Q := fun _ w' => w = w') (along_ensureDirectoryExists (hI w (Stays.refl h)) h.root_dir
    (fun _ => rfl) fun hd => absurd rfl hd) ?_
  rintro - _ rfl
  have hmake := along_makeDirectories (q := []) (F := F) (components path).dropLast h hI h.root_dir
    fun init hne hi => by simpa using hparents init hne hi
  simpa using hmake

theorem along_folderEntryPath {path : String} {Q : Path → World → Prop}
    (hv : validateFolderRelativePath path = .ok ()) (hq : Q (place root path) w) :
    Along I Q F (liftM (folderEntryPath root path) : CoreM Path) w := by
  have hpath : folderEntryPath root path = .ok (place root path) := by
    rw [folderEntryPath, hv, place_of_ne (valid_components hv).1]
    rfl
  rw [hpath]
  exact along_lift (fun p hp => Except.ok.inj hp ▸ hq) fun e he => by cases he

/-! Removing the tree. -/

/-- Nothing is new, and what is gone was at or below `p`. -/
structure Shrinks (p : Path) (w w' : World) : Prop where
  off : ∀ q, ¬ p <:+ q → w'.fs.get q = w.fs.get q
  less : ∀ q n, w'.fs.get q = some n → w.fs.get q = some n

theorem Shrinks.refl (p : Path) (w : World) : Shrinks p w w := ⟨fun _ _ => rfl, fun _ _ h => h⟩

theorem Shrinks.trans {p : Path} {w₁ w₂ : World} (h : Shrinks p w w₁) (h' : Shrinks p w₁ w₂) :
    Shrinks p w w₂ :=
  ⟨fun q hq => (h'.off q hq).trans (h.off q hq), fun q n hn => h.less q n (h'.less q n hn)⟩

theorem shrinks_sets {p q : Path} {w' : World} (h : Sets w.fs w'.fs q none) (hq : p <:+ q) :
    Shrinks p w w' := by
  refine ⟨fun r hr => h.off fun he => hr (he ▸ hq), fun r n hn => ?_⟩
  rw [h r] at hn
  split at hn
  · cases hn
  · exact hn

theorem Shrinks.sound {L : Layout} {p : Path} {w' : World} (h : Shrinks p w w') (hs : L.Sound w.fs)
    (hp : L.Inside p) : L.Sound w'.fs :=
  hs.of_frame (fun q hq => h.off q fun hr => hq (hp.above hr)) fun q hq n hn =>
    hs.plain q hq n (h.less q n hn)

/-- What is below `p` is listed, each entry before the directory it is in. -/
structure Enumerates (p : Path) (entries : List (Path × FileKind)) (t : FileTree Contents) : Prop where
  there : ∀ e ∈ entries, e.1 ≠ [] ∧ ∃ n, t.get (e.1 ++ p) = some n ∧ n.stat.kind = e.2
  only : ∀ q, q ≠ [] → t.get (q ++ p) ≠ none → ∃ e ∈ entries, e.1 = q
  order : entries.Pairwise fun e f => f.1.length ≤ e.1.length ∧ e.1 ≠ f.1

theorem Enumerates.tail {p : Path} {e : Path × FileKind} {entries : List (Path × FileKind)}
    {t t' : FileTree Contents} (h : Enumerates p (e :: entries) t) (hs : Sets t t' (e.1 ++ p) none) :
    Enumerates p entries t' := by
  obtain ⟨hfirst, horder⟩ := List.pairwise_cons.mp h.order
  have hoff : ∀ q, q ≠ e.1 → t'.get (q ++ p) = t.get (q ++ p) := fun q hq =>
    hs.off fun he => hq (List.append_cancel_right he)
  refine ⟨fun f hf => ?_, fun q hq hget => ?_, horder⟩
  · rw [hoff f.1 (hfirst f hf).2.symm]
    exact h.there f (List.mem_cons_of_mem e hf)
  · have hne : q ≠ e.1 := fun he => hget (he ▸ hs.at)
    obtain ⟨f, hf, rfl⟩ := h.only q hq (hoff q hne ▸ hget)
    rcases List.mem_cons.mp hf with rfl | hf
    · exact absurd rfl hne
    · exact ⟨f, hf, rfl⟩

/-- A directory that comes first in the list is empty. -/
theorem Enumerates.empty {p : Path} {e : Path × FileKind} {entries : List (Path × FileKind)}
    {t : FileTree Contents} (h : Enumerates p (e :: entries) t) : t.readDir (e.1 ++ p) = [] := by
  rw [List.eq_nil_iff_forall_not_mem]
  intro name hname
  obtain ⟨f, hf, hfp⟩ := h.only (name :: e.1) (List.cons_ne_nil _ _) (mem_readDir.mp hname)
  have hlength := congrArg List.length hfp
  rw [List.length_cons] at hlength
  rcases List.mem_cons.mp hf with rfl | hf
  · omega
  · have hle := ((List.pairwise_cons.mp h.order).1 f hf).1
    omega

theorem listing_below (t : FileTree Contents) (p : Path) : Enumerates p (t.below p) t := by
  have hkeys : ∀ q, q ∈ (t.entries.map Prod.fst).dedup ↔ t.get q ≠ none := by
    intro q
    rw [List.mem_dedup, List.mem_map, ← Option.isSome_iff_ne_none, FileTree.get, List.lookup_isSome_iff]
    exact exists_congr fun e => and_congr_right fun _ => by rw [beq_iff_eq, eq_comm]
  have hmem : ∀ q, q ∈ ((t.entries.map Prod.fst).dedup.filter fun q => decide (p <:+ q ∧ p ≠ q)).insertionSort
      (fun q r => r.length ≤ q.length) ↔ t.get q ≠ none ∧ p <:+ q ∧ p ≠ q := by
    intro q
    rw [List.mem_insertionSort, List.mem_filter, hkeys, decide_eq_true_eq]
  constructor
  · intro e he
    obtain ⟨q, hq, hmap⟩ := List.mem_filterMap.mp he
    obtain ⟨n, hn, rfl⟩ := Option.map_eq_some_iff.mp hmap
    obtain ⟨-, hs, hne⟩ := (hmem q).mp hq
    have htake := suffix_iff_take.mp hs
    refine ⟨fun hnil => hne ?_, n, htake ▸ hn, rfl⟩
    rw [htake, show q.take (q.length - p.length) = [] from hnil, List.nil_append]
  · intro q hq hget
    obtain ⟨n, hn⟩ := Option.ne_none_iff_exists'.mp hget
    have hsuffix := List.suffix_append q p
    have hne : p ≠ q ++ p := fun he => hq (List.self_eq_append_left.mp he)
    refine ⟨((q ++ p).take ((q ++ p).length - p.length), n.stat.kind), List.mem_filterMap.mpr
      ⟨q ++ p, (hmem _).mpr ⟨hget, hsuffix, hne⟩, by rw [hn]; rfl⟩, by simp⟩
  · have hsorted : (((t.entries.map Prod.fst).dedup.filter fun q => decide (p <:+ q ∧ p ≠ q)).insertionSort
        (fun q r => r.length ≤ q.length)).Pairwise fun q r => r.length ≤ q.length := by
      have htotal : Std.Total fun q r : Path => r.length ≤ q.length := ⟨fun q r => Nat.le_total _ _⟩
      have htrans : IsTrans Path fun q r : Path => r.length ≤ q.length := ⟨fun _ _ _ h h' => le_trans h' h⟩
      exact List.pairwise_insertionSort _ _
    have hnodup : (((t.entries.map Prod.fst).dedup.filter fun q => decide (p <:+ q ∧ p ≠ q)).insertionSort
        (fun q r => r.length ≤ q.length)).Nodup :=
      (List.perm_insertionSort _ _).nodup_iff.mpr ((List.nodup_dedup _).filter _)
    refine List.Pairwise.filterMap _ ?_ ((hsorted.and hnodup).imp_of_mem fun hq hr h =>
      And.intro ((hmem _).mp hq).2.1 (And.intro ((hmem _).mp hr).2.1 h))
    rintro q r ⟨hq, hr, hle, hne⟩ e he f hf
    obtain ⟨n, -, rfl⟩ := Option.map_eq_some_iff.mp he
    obtain ⟨n', -, rfl⟩ := Option.map_eq_some_iff.mp hf
    refine ⟨?_, fun hsame => hne ?_⟩
    · simp only [List.length_take]
      omega
    · rw [suffix_iff_take.mp hq, suffix_iff_take.mp hr, show q.take _ = r.take _ from hsame]

/-- What is left when everything below `p` has been removed. -/
structure Emptied (p : Path) (w w' : World) : Prop where
  shrinks : Shrinks p w w'
  top : w'.fs.get p = w.fs.get p
  nothing : ∀ q, q ≠ [] → w'.fs.get (q ++ p) = none

theorem along_removeEntry {p : Path} {kind : FileKind} {n : Node Contents} {Q : Unit → World → Prop}
    (hp : p ≠ []) (hn : w.fs.get p = some n) (hk : n.stat.kind = kind) (he : w.fs.readDir p = [])
    (hq : ∀ w', Sets w.fs w'.fs p none → I w' ∧ Q () w') : Along I Q F (removeEntry p kind) w := by
  rw [removeEntry]
  by_cases hd : n = .dir
  · subst hd
    obtain ⟨t, ht, hs⟩ := removeEmptyDir_dir hn he
    rw [if_pos (by rw [← hk]; rfl)]
    exact along_fs_done ht fun w' hw' => hq w' (hw' ▸ hs)
  · obtain ⟨t, ht, hs⟩ := unlink_there hn hp hd
    rw [if_neg fun hkd => hd (stat_kind_dir.mp (hk.trans hkd))]
    exact along_fs_done ht fun w' hw' => hq w' (hw' ▸ hs)

theorem along_removeAll {p : Path} {entries : List (Path × FileKind)} (hp : p ≠ [])
    (h : Enumerates p entries w.fs) (hI : ∀ w', Shrinks p w w' → I w') :
    Along I (fun _ w' => Emptied p w w') F (removeAll p entries) w := by
  induction entries generalizing w with
  | nil =>
    refine along_pure ⟨Shrinks.refl p w, rfl, fun q hq => ?_⟩
    by_contra hget
    obtain ⟨e, he, -⟩ := h.only q hq hget
    cases he
  | cons e entries ih =>
    obtain ⟨relative, kind⟩ := e
    obtain ⟨hne, n, hn, hk⟩ := h.there _ List.mem_cons_self
    have habove : p ≠ relative ++ p := fun he => hne (List.self_eq_append_left.mp he)
    rw [removeAll]
    refine along_bind (Q := fun _ w' => Sets w.fs w'.fs (relative ++ p) none)
      (along_removeEntry (by simp [hp]) hn hk h.empty fun w' hs =>
        ⟨hI w' (shrinks_sets hs (List.suffix_append relative p)), hs⟩) fun _ w₁ hs => ?_
    have hfirst := shrinks_sets hs (List.suffix_append relative p)
    refine (ih (h.tail hs) fun w' h' => hI w' (hfirst.trans h')).mono (fun _ h => h) (fun _ w₂ h₂ => ?_)
      fun _ _ h => h
    exact ⟨hfirst.trans h₂.shrinks, h₂.top.trans (hs.off habove), h₂.nothing⟩

/-- A tree is gone, and nothing else. -/
def Cleared (p : Path) (w w' : World) : Prop :=
  ∀ q, w'.fs.get q = if p <:+ q then none else w.fs.get q

theorem Cleared.shrinks {p : Path} {w' : World} (h : Cleared p w w') : Shrinks p w w' := by
  refine ⟨fun q hq => by rw [h q, if_neg hq], fun q n hn => ?_⟩
  rw [h q] at hn
  split at hn
  · cases hn
  · exact hn

theorem along_removeDirAll {p : Path} {Q : Unit → World → Prop} (hp : p ≠ []) (hd : w.fs.get p = some .dir)
    (hI : ∀ w', Shrinks p w w' → I w') (hq : ∀ w', Cleared p w w' → Q () w') :
    Along I Q F (removeDirAll p) w := by
  rw [removeDirAll]
  have hwalk : ((FsOp.walk p : FsOp Contents _).exec w.fs).1 = .ok (w.fs.below p) := by
    rw [FsOp.exec, locate_real (Real.of_get hd)]
    rfl
  refine along_bind (Q := fun entries w' => entries = w.fs.below p ∧ w = w')
    (along_fs_reads trivial hwalk (hI w (Shrinks.refl p w)) ⟨rfl, rfl⟩) ?_
  rintro _ _ ⟨rfl, rfl⟩
  refine along_bind (along_removeAll hp (listing_below w.fs p) hI) fun _ w₁ h₁ => ?_
  have hempty : w₁.fs.readDir p = [] := by
    rw [List.eq_nil_iff_forall_not_mem]
    exact fun name hname => mem_readDir.mp hname (h₁.nothing [name] (List.cons_ne_nil _ _))
  obtain ⟨t, ht, hs⟩ := removeEmptyDir_dir (h₁.top.trans hd) hempty
  refine along_fs_done ht fun w₂ hw₂ => ?_
  have hs₂ : Sets w₁.fs w₂.fs p none := hw₂ ▸ hs
  refine ⟨hI w₂ (h₁.shrinks.trans (shrinks_sets hs₂ List.suffix_rfl)), hq w₂ fun q => ?_⟩
  rw [hs₂ q]
  split
  · next he => rw [he, if_pos List.suffix_rfl]
  · next hne =>
    split
    · next hs =>
      obtain ⟨r, rfl⟩ := hs
      exact h₁.nothing r fun hr => hne (by rw [hr, List.nil_append])
    · next hs => exact h₁.shrinks.off q hs

/-- A staging tree is removed if it is there. -/
theorem along_removeDirAllIfExists {p : Path} {Q : Unit → World → Prop} (hp : p ≠ []) (hreal : w.fs.Real p)
    (hd : w.fs.get p = none ∨ w.fs.get p = some .dir) (hI : ∀ w', Shrinks p w w' → I w')
    (hq : ∀ w', Cleared p w w' → Q () w') : Along I Q F (removeDirAllIfExists p) w := by
  rw [removeDirAllIfExists]
  have hsame := hI w (Shrinks.refl p w)
  rcases hd with hn | hn
  · refine along_bind (Q := fun r w' => r = .error .notFound ∧ w = w')
      (along_attempt_reads trivial (stat_locate_absent hreal hp hn) hsame ⟨rfl, rfl⟩) ?_
    rintro _ _ ⟨rfl, rfl⟩
    refine along_pure (hq w fun q => ?_)
    split
    · next hs => exact absent_below hp hn hs
    · rfl
  · refine along_bind (Q := fun r w' => r = .ok (Node.dir : Node Contents).stat ∧ w = w')
      (along_attempt_reads trivial (stat_locate hn) hsame ⟨rfl, rfl⟩) ?_
    rintro _ _ ⟨rfl, rfl⟩
    exact along_removeDirAll hp hn hI hq

end InkHole
