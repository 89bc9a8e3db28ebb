import InkHole.FileSystem

/-! What each system call does to a tree: the ways it can change an entry, and its result
where the way to its path is made of directories. -/

namespace InkHole

variable {D : Type}

namespace FileTree

variable {t : FileTree D} {p q : Path}

theorem get_putOr (t : FileTree D) (q : Path) (n : Node D) (p : Path) :
    (t.putOr q n).2.get p = if t.canPut q n = true ∧ p = q then some n else t.get p := by
  by_cases h : t.canPut q n
  · simp [putOr, h, get_put h]
  · simp [putOr, h]

theorem get_erase_or (t : FileTree D) (q p : Path) :
    (t.erase q).get p = t.get p ∨ (p = q ∧ (t.erase q).get p = none) := by
  by_cases hr : t.readDir q = []
  · by_cases hp : p = q
    · exact .inr ⟨hp, by rw [get_erase hr, if_pos hp]⟩
    · exact .inl (by rw [get_erase hr, if_neg hp])
  · exact .inl (by rw [erase, dif_neg (by simpa using hr)])

/-- A rename either changes nothing or moves the subtree, over nothing that it may not
replace. -/
theorem renameTo_cases {src dst : Path} (hs : t.Way src) (hd : t.Way dst) :
    (t.renameTo src dst).2 = t ∨
      (∃ n, t.get src = some n ∧ t.replaceable n dst = true) ∧
        t.canMove src dst = true ∧ t.renameTo src dst = (.ok (), t.move src dst) := by
  rw [renameTo]
  split
  · exact .inl rfl
  · exact .inl rfl
  · next s d hs' hd' =>
    obtain rfl := locate_straight hs hs'
    obtain rfl := locate_straight hd hd'
    split
    · exact .inl rfl
    · next n hn =>
      split
      · exact .inl rfl
      · split
        · next hr =>
          rw [Bool.and_eq_true] at hr
          exact .inr ⟨⟨n, hn, hr.1⟩, hr.2, rfl⟩
        · exact .inl rfl

/-- A rename that succeeds puts what was there at its destination. -/
theorem renameTo_moved {src dst : Path} (hs : t.Way src) (hd : t.Way dst) (hne : src ≠ dst)
    (hok : (t.renameTo src dst).1 = .ok ()) :
    ∃ n, t.get src = some n ∧ (t.renameTo src dst).2.get dst = some n := by
  rw [renameTo] at hok ⊢
  split at hok
  · cases hok
  · cases hok
  · next s d hs' hd' =>
    obtain rfl := locate_straight hs hs'
    obtain rfl := locate_straight hd hd'
    split at hok
    · cases hok
    · next n hn =>
      rw [if_neg hne] at hok
      split at hok
      · next hr =>
        rw [Bool.and_eq_true] at hr
        refine ⟨n, hn, ?_⟩
        simp only [if_neg hne, hr.1, hr.2, Bool.and_self, if_true]
        rw [← hn]
        exact get_move_below hr.2 []
      · cases hok

/-- A file or a directory, which a rename of a file must not be aimed at. -/
def Occupied (t : FileTree D) (p : Path) : Prop :=
  t.get p = some .dir ∨ ∃ d, t.get p = some (.file d)

theorem not_occupied_of_exists {a : String} (h : t.Real (a :: p))
    (he : t.exists? (a :: p) = .ok false) : ¬ t.Occupied (a :: p) := by
  intro ho
  have hl : ∀ target, t.get (a :: p) ≠ some (.symlink target) := by
    intro target hs
    rcases ho with hd | ⟨d, hd⟩
    · simp [hs] at hd
    · simp [hs] at hd
  have hsome : (t.get (a :: p)).isSome := by
    rcases ho with hd | ⟨d, hd⟩
    · rw [hd]
      rfl
    · rw [hd]
      rfl
  rw [exists?, resolve_real h hl] at he
  simp [hsome] at he

end FileTree

variable [FileData D]

/-- The paths a call names. -/
def FsOp.paths {D β : Type} : FsOp D β → List Path
  | .symlinkMetadata p => [p]
  | .metadata p => [p]
  | .tryExists p => [p]
  | .read p => [p]
  | .readDir p => [p]
  | .walk p => [p]
  | .createDir p => [p]
  | .openFile p _ => [p]
  | .edit p _ => [p]
  | .sync p => [p]
  | .removeFile p => [p]
  | .removeDir p => [p]
  | .rename src dst => [src, dst]
  | .setModified p => [p]

namespace FsOp

variable {β : Type}

/-- What a call can leave at a path. -/
inductive Change (t : FileTree D) : {β : Type} → FsOp D β → Path → Option (Node D) → Prop where
  | kept {β : Type} {op : FsOp D β} {q : Path} : Change t op q (t.get q)
  | made {p : Path} : t.get p = none → Change t (.createDir p) p (some .dir)
  | emptied {p : Path} {o : OpenOptions} :
    (t.get p = none ∨ ∃ d, t.get p = some (.file d)) →
      Change t (.openFile p o) p (some (.file FileData.empty))
  | edited {p : Path} {f : D → D} {d : D} :
    t.get p = some (.file d) → Change t (.edit p f) p (some (.file (f d)))
  | unlinked {p : Path} : t.get p ≠ some .dir → Change t (.removeFile p) p none
  | removed {p : Path} : Change t (.removeDir p) p none
  | gone {src dst q : Path} : src <:+ q → ¬ dst <:+ q → Change t (.rename src dst) q none
  | moved {src dst : Path} {n : Node D} (r : Path) : t.get src = some n →
    t.replaceable n dst = true → t.canMove src dst = true →
      Change t (.rename src dst) (r ++ dst) (t.get (r ++ src))

/-- No link leads the call away from its paths. -/
def straight (t : FileTree D) : FsOp D β → Prop
  | .createDir p => t.Way p
  | .openFile p _ => t.Straight p
  | .edit p _ => t.Straight p
  | .removeFile p => t.Way p
  | .removeDir p => t.Way p
  | .rename src dst => t.Way src ∧ t.Way dst
  | _ => True

variable {t : FileTree D}

/-- A call that fails changes nothing. -/
theorem exec_error {op : FsOp D β} {e : IoError} : (op.exec t).1 = .error e → (op.exec t).2 = t := by
  have hput : ∀ {q : Path} {n : Node D}, (t.putOr q n).1 = .error e → (t.putOr q n).2 = t := by
    intro q n h
    rw [FileTree.putOr] at h ⊢
    split at h
    · cases h
    · next hc => rw [if_neg hc]
  cases op with
  | createDir p =>
    simp only [exec, FileTree.makeDir]
    repeat' split
    all_goals first | exact fun _ => rfl | exact hput
  | openFile p o =>
    simp only [exec, FileTree.openAt]
    repeat' split
    all_goals first | exact fun _ => rfl | exact hput
  | edit p f =>
    simp only [exec, FileTree.editAt]
    repeat' split
    all_goals first | exact fun _ => rfl | exact hput
  | removeFile p =>
    simp only [exec, FileTree.unlink]
    repeat' split
    all_goals first | exact fun _ => rfl | exact fun h => by cases h
  | removeDir p =>
    simp only [exec, FileTree.removeEmptyDir]
    repeat' split
    all_goals first | exact fun _ => rfl | exact fun h => by cases h
  | rename src dst =>
    simp only [exec, FileTree.renameTo]
    repeat' split
    all_goals first | exact fun _ => rfl | exact fun h => by cases h
  | _ => exact fun _ => rfl

/-- What a file opened for writing from scratch holds. -/
theorem openAt_truncate {p : Path} {o : OpenOptions} (hs : t.Straight p) (ho : o.truncate = true)
    (h : (t.openAt p o).1 = .ok ()) : (t.openAt p o).2.get p = some (.file FileData.empty) := by
  have hput : ∀ {q : Path}, q = p → (t.putOr q (.file FileData.empty)).1 = .ok () →
      (t.putOr q (.file FileData.empty)).2.get p = some (.file FileData.empty) := by
    rintro q rfl h
    rw [FileTree.get_putOr, if_pos]
    refine ⟨?_, rfl⟩
    rw [FileTree.putOr] at h
    split at h
    · next hc => exact hc
    · cases h
  revert h
  simp only [FileTree.openAt, ho, if_true]
  split
  · split
    · exact fun h => by cases h
    · next q hq =>
      split
      · exact fun h => by cases h
      · exact hput (FileTree.locate_straight hs.way hq)
  · split
    · exact fun h => by cases h
    · next q hq =>
      have hqp := FileTree.resolve_straight hs hq
      split
      · exact hput hqp
      · split
        · exact hput hqp
        · exact fun h => by cases h
      · exact fun h => by cases h

/-- The metadata of a file that no link leads to. -/
theorem metadata_file {p : Path} {d : D} {m : Metadata} (hs : t.Straight p)
    (hd : t.get p = some (.file d)) (h : t.stat (t.resolve p) = .ok m) :
    m = ⟨.file, FileData.size d⟩ := by
  cases hr : t.resolve p with
  | error e =>
    rw [hr] at h
    cases h
  | ok q =>
    obtain rfl := FileTree.resolve_straight hs hr
    simp only [hr, FileTree.stat, hd, Node.stat, Except.ok.injEq] at h
    exact h.symm

theorem change_createDir {p : Path} (hs : t.Way p) (q : Path) :
    Change t (.createDir p) q ((t.makeDir p).2.get q) := by
  rw [FileTree.makeDir]
  split
  · exact .kept
  · next r hr =>
    obtain rfl := FileTree.locate_straight hs hr
    split
    · exact .kept
    · next hn =>
      rw [FileTree.get_putOr]
      split
      · next hq =>
        rw [hq.2]
        exact .made (by simp only [Bool.or_eq_true, not_or, Bool.not_eq_true, Option.isSome_eq_false_iff,
          Option.isNone_iff_eq_none] at hn; exact hn.2)
      · exact .kept

theorem change_openFile {p : Path} {o : OpenOptions} (hs : t.Straight p) (q : Path) :
    Change t (.openFile p o) q ((t.openAt p o).2.get q) := by
  have hput : ∀ {p : Path}, (t.get p = none ∨ ∃ d, t.get p = some (.file d)) →
      Change t (.openFile p o) q ((t.putOr p (.file FileData.empty)).2.get q) := by
    intro p hp
    rw [FileTree.get_putOr]
    split
    · next hq =>
      rw [hq.2]
      exact .emptied hp
    · exact .kept
  rw [FileTree.openAt]
  split
  · split
    · exact .kept
    · next r hr =>
      obtain rfl := FileTree.locate_straight hs.way hr
      split
      · exact .kept
      · next hn =>
        refine hput (.inl ?_)
        simp only [Bool.or_eq_true, not_or, Bool.not_eq_true, Option.isSome_eq_false_iff,
          Option.isNone_iff_eq_none] at hn
        exact hn.2
  · split
    · exact .kept
    · next r hr =>
      obtain rfl := FileTree.resolve_straight hs hr
      split
      · next d hd =>
        split
        · exact hput (.inr ⟨d, hd⟩)
        · exact .kept
      · next hn =>
        split
        · exact hput (.inl hn)
        · exact .kept
      · exact .kept

theorem change_edit {p : Path} {f : D → D} (hs : t.Straight p) (q : Path) :
    Change t (.edit p f) q ((t.editAt p f).2.get q) := by
  rw [FileTree.editAt]
  split
  · exact .kept
  · next r hr =>
    obtain rfl := FileTree.resolve_straight hs hr
    split
    · next d hd =>
      rw [FileTree.get_putOr]
      split
      · next hq =>
        rw [hq.2]
        exact .edited hd
      · exact .kept
    · exact .kept
    · exact .kept

theorem change_removeFile {p : Path} (hs : t.Way p) (q : Path) :
    Change t (.removeFile p) q ((t.unlink p).2.get q) := by
  rw [FileTree.unlink]
  split
  · exact .kept
  · next r hr =>
    obtain rfl := FileTree.locate_straight hs hr
    split
    · exact .kept
    · exact .kept
    · next n hd hn =>
      rcases FileTree.get_erase_or t r q with h | ⟨rfl, h⟩
      · rw [h]
        exact .kept
      · rw [h]
        exact .unlinked fun hc => hd (Option.some.inj (hn.symm.trans hc))

theorem change_removeDir {p : Path} (hs : t.Way p) (q : Path) :
    Change t (.removeDir p) q ((t.removeEmptyDir p).2.get q) := by
  rw [FileTree.removeEmptyDir]
  split
  · exact .kept
  · next r hr =>
    obtain rfl := FileTree.locate_straight hs hr
    split
    · exact .kept
    · split
      · rcases FileTree.get_erase_or t r q with h | ⟨rfl, h⟩
        · rw [h]
          exact .kept
        · rw [h]
          exact .removed
      · exact .kept
    · exact .kept

theorem change_rename {src dst : Path} (hs : t.Way src) (hd : t.Way dst) (q : Path) :
    Change t (.rename src dst) q ((t.renameTo src dst).2.get q) := by
  rcases FileTree.renameTo_cases hs hd with h | ⟨⟨n, hn, hr⟩, hm, h⟩
  · rw [h]
    exact .kept
  · rw [h, FileTree.get_move hm]
    split
    · next hq =>
      have hmoved := Change.moved (q.take (q.length - dst.length)) hn hr hm
      rwa [← FileTree.suffix_iff_take.mp hq] at hmoved
    · next hq =>
      split
      · next hsq => exact .gone hsq hq
      · exact .kept

/-- What one call can do to one entry. -/
theorem exec_change (op : FsOp D β) (hs : op.straight t) (q : Path) :
    Change t op q ((op.exec t).2.get q) := by
  cases op with
  | createDir p => exact change_createDir hs q
  | openFile p o => exact change_openFile hs q
  | edit p f => exact change_edit hs q
  | removeFile p => exact change_removeFile hs q
  | removeDir p => exact change_removeDir hs q
  | rename src dst => exact change_rename hs.1 hs.2 q
  | symlinkMetadata p => exact .kept
  | metadata p => exact .kept
  | tryExists p => exact .kept
  | read p => exact .kept
  | readDir p => exact .kept
  | walk p => exact .kept
  | sync p => exact .kept
  | setModified p => exact .kept

end FsOp

/-! What the files of a tree hold, and which calls keep it. -/

section Holding

variable {D β : Type} {P : D → Prop} {t : FileTree D}

/-- Every file holds data that satisfies `P`. -/
def FileTree.Holds (P : D → Prop) (t : FileTree D) : Prop := ∀ p d, t.get p = some (.file d) → P d

/-- Whatever is written satisfies `P`. -/
def FsOp.Fills (P : D → Prop) : FsOp D β → Prop
  | .edit _ f => ∀ d, P (f d)
  | _ => True

theorem FileTree.Holds.putOr {q : Path} {n : Node D} (h : t.Holds P) (hn : ∀ d, n = .file d → P d) :
    (t.putOr q n).2.Holds P := by
  intro p d hp
  rw [get_putOr] at hp
  split at hp
  · exact hn d (Option.some.inj hp)
  · exact h p d hp

theorem FileTree.Holds.erase {q : Path} (h : t.Holds P) : (t.erase q).Holds P := by
  intro p d hp
  rcases get_erase_or t q p with he | ⟨-, he⟩
  · exact h p d (he ▸ hp)
  · rw [he] at hp
    cases hp

theorem FileTree.Holds.move {src dst : Path} (h : t.Holds P) (hm : t.canMove src dst = true) :
    (t.move src dst).Holds P := by
  intro p d hp
  rw [get_move hm] at hp
  split at hp
  · exact h _ d hp
  · split at hp
    · cases hp
    · exact h p d hp

theorem FsOp.exec_holds [FileData D] {op : FsOp D β} (hempty : P FileData.empty) (hop : op.Fills P) (h : t.Holds P) :
    (op.exec t).2.Holds P := by
  have hnew : ∀ d, Node.file (FileData.empty : D) = .file d → P d := by
    rintro d ⟨⟩
    exact hempty
  cases op with
  | createDir p =>
    simp only [exec, FileTree.makeDir]
    split
    · exact h
    · split
      · exact h
      · exact h.putOr fun d hd => by cases hd
  | openFile p o =>
    simp only [exec, FileTree.openAt]
    repeat' split
    all_goals first | exact h | exact h.putOr hnew
  | edit p f =>
    simp only [exec, FileTree.editAt]
    split
    · exact h
    · split
      · refine h.putOr ?_
        rintro d ⟨⟩
        exact hop _
      · exact h
      · exact h
  | removeFile p =>
    simp only [exec, FileTree.unlink]
    repeat' split
    all_goals first | exact h | exact h.erase
  | removeDir p =>
    simp only [exec, FileTree.removeEmptyDir]
    repeat' split
    all_goals first | exact h | exact h.erase
  | rename src dst =>
    simp only [exec, FileTree.renameTo]
    split
    · exact h
    · exact h
    · split
      · exact h
      · split
        · exact h
        · split
          · next hm => exact h.move (Bool.and_eq_true_iff.mp hm).2
          · exact h
  | _ => exact h

end Holding

end InkHole
