import InkHole.FileCalls

/-! The calls that succeed, and what they leave, at a path whose ancestors are all
directories. -/

namespace InkHole

variable {D : Type}

namespace FileTree

variable {t t' : FileTree D} {p q : Path} {n : Node D}

/-- The two trees differ at one path at most. -/
def Sets (t t' : FileTree D) (p : Path) (v : Option (Node D)) : Prop :=
  ∀ q, t'.get q = if q = p then v else t.get q

theorem Sets.at {v : Option (Node D)} (h : Sets t t' p v) : t'.get p = v := by rw [h p, if_pos rfl]

theorem Sets.off {v : Option (Node D)} (h : Sets t t' p v) (hq : q ≠ p) : t'.get q = t.get q := by
  rw [h q, if_neg hq]

theorem Real.canPut (h : t.Real p) (hp : p ≠ []) (hn : n = .dir ∨ t.get p ≠ some .dir) :
    t.canPut p n = true := by
  cases p with
  | nil => exact absurd rfl hp
  | cons name p =>
    simp only [FileTree.canPut, h.parent.2, Bool.true_and, Bool.or_eq_true, Node.isDir_iff,
      List.isEmpty_iff]
    exact hn.imp_right fun hd => readDir_eq_nil_of_not_dir hp hd

theorem Real.putOr (h : t.Real p) (hp : p ≠ []) (hn : n = .dir ∨ t.get p ≠ some .dir) :
    ∃ t', t.putOr p n = (.ok (), t') ∧ Sets t t' p (some n) := by
  have hc := h.canPut hp hn
  exact ⟨t.put p n, by rw [FileTree.putOr, if_pos hc], get_put hc⟩

theorem Real.resolve (h : t.Real p) (hl : ∀ target, t.get p ≠ some (.symlink target)) :
    t.resolve p = .ok p := by
  cases p with
  | nil => rfl
  | cons name p => exact resolve_real h hl

theorem resolve_of_get (hn : t.get p = some n) (hl : n.isSymlink = false) : t.resolve p = .ok p := by
  refine (Real.of_get hn).resolve fun target hs => ?_
  rw [hn] at hs
  obtain rfl := Option.some.inj hs
  cases hl

theorem resolve_absent (h : t.Real p) (hn : t.get p = none) : t.resolve p = .ok p :=
  h.resolve fun target hs => by rw [hn] at hs; cases hs

theorem isEmpty_false (hp : p ≠ []) : p.isEmpty = false := by simpa using hp

/-! Questions. -/

theorem exists?_of_get (hn : t.get p = some n) (hl : n.isSymlink = false) : t.exists? p = .ok true := by
  simp [exists?, resolve_of_get hn hl, hn]

theorem exists?_absent (h : t.Real p) (hp : p ≠ []) (hn : t.get p = none) : t.exists? p = .ok false := by
  simp [exists?, resolve_absent h hn, hn, isEmpty_false hp]

theorem readFile_file {d : D} (hn : t.get p = some (.file d)) : t.readFile p = .ok d := by
  simp [readFile, resolve_of_get hn rfl, hn]

theorem readFile_absent (h : t.Real p) (hn : t.get p = none) : t.readFile p = .error .notFound := by
  simp [readFile, resolve_absent h hn, hn]

theorem listDir_dir (h : t.Real p) (hd : p = [] ∨ t.get p = some .dir) :
    t.listDir p = .ok (t.readDir p) := by
  simp [listDir, resolve_dir h hd, isDir_iff.mpr hd]

/-! Changes. -/

theorem makeDir_new (h : t.Real p) (hp : p ≠ []) (hn : t.get p = none) :
    ∃ t', t.makeDir p = (.ok (), t') ∧ Sets t t' p (some .dir) := by
  simp only [makeDir, locate_real h, hn, isEmpty_false hp, Option.isSome_none, Bool.or_self,
    Bool.false_eq_true, if_false]
  exact h.putOr hp (.inl rfl)

theorem makeDir_there (hn : t.get p = some n) : t.makeDir p = (.error .alreadyExists, t) := by
  simp [makeDir, locate_real (Real.of_get hn), hn]

theorem editAt_file {d : D} (hn : t.get p = some (.file d)) (hp : p ≠ []) (f : D → D) :
    ∃ t', t.editAt p f = (.ok (), t') ∧ Sets t t' p (some (.file (f d))) := by
  have hput := (Real.of_get hn).putOr (n := .file (f d)) hp (.inr (by simp [hn]))
  simpa only [editAt, resolve_of_get hn rfl, hn] using hput

theorem unlink_there (hn : t.get p = some n) (hp : p ≠ []) (hd : n ≠ .dir) :
    ∃ t', t.unlink p = (.ok (), t') ∧ Sets t t' p none := by
  have hr := readDir_eq_nil_of_not_dir hp (t := t) (by simpa [hn] using hd)
  refine ⟨t.erase p, ?_, get_erase hr⟩
  simp only [unlink, locate_real (Real.of_get hn), hn]

theorem unlink_absent (h : t.Real p) (hn : t.get p = none) : t.unlink p = (.error .notFound, t) := by
  simp only [unlink, locate_real h, hn]

theorem removeEmptyDir_dir (hn : t.get p = some .dir) (hr : t.readDir p = []) :
    ∃ t', t.removeEmptyDir p = (.ok (), t') ∧ Sets t t' p none := by
  refine ⟨t.erase p, ?_, get_erase hr⟩
  simp [removeEmptyDir, locate_real (Real.of_get hn), hn, hr]

/-- Where nothing is, nothing is below. -/
theorem absent_below (hp : p ≠ []) (hn : t.get p = none) (hq : p <:+ q) : t.get q = none := by
  by_cases he : p = q
  · exact he ▸ hn
  · exact get_below_none hp (by simp [hn]) hq he

/-- A subtree moves to where nothing is, and whatever lies in it lies there then. -/
theorem renameTo_free {src dst : Path} (hn : t.get src = some n) (hd : t.Real dst) (hne : dst ≠ [])
    (hfree : t.get dst = none) (hsd : ¬ src <:+ dst) (hds : ¬ dst <:+ src) :
    ∃ t', t.renameTo src dst = (.ok (), t') ∧ ∀ q, t'.get q =
      if dst <:+ q then t.get (q.take (q.length - dst.length) ++ src)
      else if src <:+ q then none else t.get q := by
  have hmove : t.canMove src dst = true := by
    refine canMove_iff.mpr ⟨?_, hsd, hds⟩
    cases dst with
    | nil => exact absurd rfl hne
    | cons name dst => exact ⟨name, dst, rfl, isDir_iff.mp hd.parent.2⟩
  refine ⟨t.move src dst, ?_, get_move hmove⟩
  have hsrc : src ≠ dst := fun he => hsd (he ▸ List.suffix_rfl)
  simp [renameTo, locate_real (Real.of_get hn), locate_real hd, hn, hsrc, replaceable, hfree, hmove]

/-- A file moves over anything but a directory. -/
theorem renameTo_file {src dst : Path} {d : D} (hn : t.get src = some (.file d)) (hd : t.Real dst)
    (hsrc : src ≠ []) (hne : dst ≠ []) (hover : t.get dst ≠ some .dir)
    (hsd : ¬ src <:+ dst) (hds : ¬ dst <:+ src) :
    ∃ t', t.renameTo src dst = (.ok (), t') ∧ ∀ q, t'.get q =
      if q = dst then some (.file d) else if q = src then none else t.get q := by
  have hmove : t.canMove src dst = true := by
    refine canMove_iff.mpr ⟨?_, hsd, hds⟩
    cases dst with
    | nil => exact absurd rfl hne
    | cons name dst => exact ⟨name, dst, rfl, isDir_iff.mp hd.parent.2⟩
  have hsrcdst : src ≠ dst := fun he => hsd (he ▸ List.suffix_rfl)
  have hnot : t.get src ≠ some .dir := by simp [hn]
  have hreplace : t.replaceable (.file d) dst = true := by
    rw [replaceable]
    split
    · rfl
    · next h => exact absurd h hover
    · rfl
  refine ⟨t.move src dst, ?_, fun q => ?_⟩
  · simp [renameTo, locate_real (Real.of_get hn), locate_real hd, hn, hsrcdst, hreplace, hmove]
  · rw [get_move hmove]
    by_cases hq : dst <:+ q
    · rw [if_pos hq]
      obtain ⟨r, rfl⟩ := hq
      by_cases hr : r = []
      · simp [hr, hn]
      · have hsrcr : src ≠ r ++ src := fun he => hr (List.self_eq_append_left.mp he)
        have hdstr : dst ≠ r ++ dst := fun he => hr (List.self_eq_append_left.mp he)
        have hbelow := get_below_none hsrc hnot (List.suffix_append r src) hsrcr
        have hold := get_below_none hne hover (List.suffix_append r dst) hdstr
        rw [if_neg hdstr.symm]
        have htake : (r ++ dst).take ((r ++ dst).length - dst.length) = r := by simp
        rw [htake, hbelow]
        split
        · rfl
        · exact hold.symm
    · have hqd : q ≠ dst := fun he => hq (he ▸ List.suffix_rfl)
      rw [if_neg hq, if_neg hqd]
      by_cases hs : src <:+ q
      · rw [if_pos hs]
        by_cases he : q = src
        · rw [if_pos he]
        · have hbelow := get_below_none hsrc hnot hs (Ne.symm he)
          rw [if_neg he, hbelow]
      · have hqs : q ≠ src := fun he => hs (he ▸ List.suffix_rfl)
        rw [if_neg hs, if_neg hqs]

variable [FileData D]

theorem stat_locate (hn : t.get p = some n) : t.stat (t.locate p) = .ok n.stat := by
  simp [stat, locate_real (Real.of_get hn), hn]

theorem stat_locate_absent (h : t.Real p) (hp : p ≠ []) (hn : t.get p = none) :
    t.stat (t.locate p) = .error .notFound := by
  simp [stat, locate_real h, hn, hp]


theorem stat_resolve (hn : t.get p = some n) (hl : n.isSymlink = false) :
    t.stat (t.resolve p) = .ok n.stat := by
  simp [stat, resolve_of_get hn hl, hn]

theorem stat_resolve_absent (h : t.Real p) (hp : p ≠ []) (hn : t.get p = none) :
    t.stat (t.resolve p) = .error .notFound := by
  simp [stat, resolve_absent h hn, hn, hp]

theorem openAt_new (h : t.Real p) (hp : p ≠ []) (hn : t.get p = none) {o : OpenOptions}
    (ho : o.createNew = true ∨ o.create = true) :
    ∃ t', t.openAt p o = (.ok (), t') ∧ Sets t t' p (some (.file FileData.empty)) := by
  have hput := h.putOr (n := .file FileData.empty) hp (.inr (by simp [hn]))
  by_cases hc : o.createNew = true
  · simpa only [openAt, hc, if_true, locate_real h, hn, isEmpty_false hp, Option.isSome_none,
      Bool.or_self, Bool.false_eq_true, if_false] using hput
  · simpa only [openAt, hc, Bool.false_eq_true, if_false, resolve_absent h hn, hn,
      ho.resolve_left hc, if_true] using hput

theorem openAt_over {d : D} (hn : t.get p = some (.file d)) (hp : p ≠ []) {o : OpenOptions}
    (hc : o.createNew = false) (ht : o.truncate = true) :
    ∃ t', t.openAt p o = (.ok (), t') ∧ Sets t t' p (some (.file FileData.empty)) := by
  have hput := (Real.of_get hn).putOr (n := .file FileData.empty) hp (.inr (by simp [hn]))
  simpa only [openAt, hc, Bool.false_eq_true, if_false, resolve_of_get hn rfl, hn, ht, if_true] using hput

theorem openAt_there {d : D} (hn : t.get p = some (.file d)) {o : OpenOptions}
    (hc : o.createNew = false) (ht : o.truncate = false) : t.openAt p o = (.ok (), t) := by
  simp only [openAt, hc, Bool.false_eq_true, if_false, resolve_of_get hn rfl, hn, ht]

theorem openAt_other (hn : t.get p = some n) (hl : n.isSymlink = false) (hf : ∀ d, n ≠ .file d)
    {o : OpenOptions} (hc : o.createNew = false) : t.openAt p o = (.error .other, t) := by
  simp only [openAt, hc, Bool.false_eq_true, if_false, resolve_of_get hn hl, hn]

end FileTree

end InkHole
