import InkHole.FileResults

/-! Paths that go through symbolic links. A directory may be reached under several paths; what is
below it is then the same under each of them. -/

namespace InkHole

namespace FileTree

variable {D : Type} {t : FileTree D} {root folder p q : Path} {name : String} {target : Path}

/-- What lies below `a` is what lies below `b`. -/
structure Twin (t : FileTree D) (a b : Path) : Prop where
  locate : ∀ q, t.locate (q ++ a) = t.locate (q ++ b)
  resolve : ∀ q, t.resolve (q ++ a) = t.resolve (q ++ b)

theorem locate_cons_ok (h : t.locate (name :: p) = .ok q) :
    ∃ parent, t.resolve p = .ok parent ∧ t.isDir parent = true ∧ q = name :: parent := by
  rw [locate] at h
  split at h
  · cases h
  · next parent hp =>
    split at h
    · next hd => exact ⟨parent, hp, hd, (Except.ok.inj h).symm⟩
    · split at h <;> cases h

theorem locate_cons_of_dir {parent : Path} (hp : t.resolve p = .ok parent) (hd : t.isDir parent = true) :
    t.locate (name :: p) = .ok (name :: parent) := by
  simp only [locate, hp, hd, if_true]

/-- A directory that a path locates is what the path resolves to. -/
theorem resolve_of_locate_dir (h : t.locate p = .ok q) (hd : t.isDir q = true) : t.resolve p = .ok q := by
  cases p with
  | nil =>
    obtain rfl := Except.ok.inj h
    rfl
  | cons name p =>
    obtain ⟨parent, hp, hdir, rfl⟩ := locate_cons_ok h
    have hget := (isDir_iff.mp hd).resolve_left (List.cons_ne_nil name parent)
    rw [resolve, resolveFuel] at hp ⊢
    simp only [resolveWith, hp, hdir, if_true, hget]

theorem resolve_of_dir (hd : t.isDir folder = true) : t.resolve folder = .ok folder := by
  rcases isDir_iff.mp hd with rfl | hget
  · rfl
  · exact resolve_dir (Real.of_get hget) (.inr hget)

theorem resolve_append_congr (h : t.resolve p = t.resolve q) (r : Path) : t.resolve (r ++ p) = t.resolve (r ++ q) := by
  induction r with
  | nil => exact h
  | cons name r ih =>
    rw [resolve, resolve, resolveFuel] at ih ⊢
    simp only [List.cons_append, resolveWith, ih]

theorem Twin.of_locate (h : t.locate root = .ok folder) (hd : t.isDir folder = true) : t.Twin root folder := by
  have hresolve : t.resolve root = t.resolve folder := by
    rw [resolve_of_locate_dir h hd, resolve_of_dir hd]
  have hbelow := fun q => resolve_append_congr hresolve q
  refine ⟨fun q => ?_, hbelow⟩
  cases q with
  | nil =>
    have hreal : t.Real folder := by
      rcases isDir_iff.mp hd with rfl | hget
      · exact fun q hq hne => absurd (List.suffix_nil.mp hq) hne
      · exact Real.of_get hget
    rw [List.nil_append, List.nil_append, h, locate_real hreal]
  | cons name q => rw [List.cons_append, List.cons_append, FileTree.locate, FileTree.locate, hbelow q]

/-! Trees of which one has the entries of the other. -/

structure Grows (t t' : FileTree D) : Prop where
  keeps : ∀ p n, t.get p = some n → t'.get p = some n
  top : t'.get [] = t.get []

variable {t' : FileTree D}

theorem Grows.refl (t : FileTree D) : Grows t t := ⟨fun _ _ h => h, rfl⟩

theorem Grows.trans {t'' : FileTree D} (h : Grows t t') (h' : Grows t' t'') : Grows t t'' :=
  ⟨fun p n hn => h'.keeps p n (h.keeps p n hn), h'.top.trans h.top⟩

theorem Grows.isDir (h : Grows t t') (hd : t.isDir p = true) : t'.isDir p = true :=
  isDir_iff.mpr ((isDir_iff.mp hd).imp_right (h.keeps p _))

theorem resolveWith_cons_ok {follow : Path → Except IoError Path} (h : t.resolveWith follow (name :: p) = .ok q) :
    ∃ parent, t.resolveWith follow p = .ok parent ∧ t.isDir parent = true ∧
      ((∃ target, t.get (name :: parent) = some (.symlink target) ∧ follow target = .ok q) ∨
        (∀ target, t.get (name :: parent) ≠ some (.symlink target)) ∧ q = name :: parent) := by
  rw [resolveWith] at h
  split at h
  · cases h
  · next parent hp =>
    split at h
    · next hd =>
      refine ⟨parent, hp, hd, ?_⟩
      split at h
      · next target ht => exact .inl ⟨target, ht, h⟩
      · next hl => exact .inr ⟨fun target ht => hl target ht, (Except.ok.inj h).symm⟩
    · split at h <;> cases h

/-- A directory is still found after entries have been added. The induction is on the links that may
be followed, and on the path within each. -/
theorem Grows.resolveFuel (h : Grows t t') (fuel : Nat) (hp : t.resolveFuel fuel p = .ok q)
    (hd : t.isDir q = true) : t'.resolveFuel fuel p = .ok q := by
  have hwith : ∀ (follow follow' : Path → Except IoError Path),
      (∀ target q, follow target = .ok q → t.isDir q = true → follow' target = .ok q) →
      ∀ p q, t.resolveWith follow p = .ok q → t.isDir q = true → t'.resolveWith follow' p = .ok q := by
    intro follow follow' hfollow p
    induction p with
    | nil => exact fun q hq _ => hq
    | cons name p ih =>
      intro q hq hd
      obtain ⟨parent, hparent, hdir, hcase⟩ := resolveWith_cons_ok hq
      rw [resolveWith, ih parent hparent hdir]
      simp only [h.isDir hdir, if_true]
      rcases hcase with ⟨target, hlink, htarget⟩ | ⟨-, rfl⟩
      · rw [h.keeps _ _ hlink]
        exact hfollow target q htarget hd
      · have hget := (isDir_iff.mp hd).resolve_left (List.cons_ne_nil name parent)
        rw [h.keeps _ _ hget]
  induction fuel generalizing p q with
  | zero => exact hwith _ _ (fun _ _ he _ => by cases he) p q hp hd
  | succ fuel ih => exact hwith _ _ (fun _ _ htarget hq => ih htarget hq) p q hp hd

theorem Grows.resolve (h : Grows t t') (hp : t.resolve p = .ok q) (hd : t.isDir q = true) :
    t'.resolve p = .ok q := h.resolveFuel 40 hp hd

theorem Grows.locate (h : Grows t t') (hp : t.locate p = .ok q) : t'.locate p = .ok q := by
  cases p with
  | nil => exact hp
  | cons name p =>
    obtain ⟨parent, hparent, hd, rfl⟩ := locate_cons_ok hp
    exact locate_cons_of_dir (h.resolve hparent hd) (h.isDir hd)

/-- A path that leads somewhere goes through directories. -/
theorem resolve_above (hp : t.resolve p = .ok q) (hd : t.isDir q = true) {s : Path} (hs : s <:+ p) :
    ∃ r, t.resolve s = .ok r ∧ t.isDir r = true := by
  induction p generalizing q with
  | nil =>
    obtain rfl := List.suffix_nil.mp hs
    exact ⟨q, hp, hd⟩
  | cons name p ih =>
    rcases List.suffix_cons_iff.mp hs with rfl | hs
    · exact ⟨q, hp, hd⟩
    · obtain ⟨parent, hparent, hdir, -⟩ := resolveWith_cons_ok hp
      exact ih hparent hdir hs

/-- Where no link stands, a path resolves to the place it locates. -/
theorem resolve_of_locate (h : t.locate p = .ok q) (hl : ∀ target, t.get q ≠ some (.symlink target)) :
    t.resolve p = .ok q := by
  cases p with
  | nil =>
    obtain rfl := Except.ok.inj h
    rfl
  | cons name p =>
    obtain ⟨parent, hp, hd, rfl⟩ := locate_cons_ok h
    rw [resolve, resolveFuel] at hp ⊢
    simp only [resolveWith, hp, hd, if_true]

/-! Paths below a folder that no link is on. -/

section Reached

variable [FileData D]

theorem isDir_of_stat (h : t.stat (.ok q) = .ok ⟨.dir, 0⟩) : t.isDir q = true := by
  rw [stat] at h
  cases hget : t.get q with
  | some n =>
    rw [hget] at h
    have hn : n = .dir := by
      cases n with
      | dir => rfl
      | _ => simp [Node.stat] at h
    exact isDir_iff.mpr (.inr (hn ▸ hget))
  | none =>
    rw [hget] at h
    by_cases hq : q = []
    · exact isDir_iff.mpr (.inl hq)
    · simp [hq] at h

/-- What the system reports of a directory, whatever path it is asked for. -/
theorem stat_dir {metadata : Metadata} (h : t.stat (t.locate p) = .ok metadata) (hk : metadata.kind = .dir) :
    ∃ q, t.locate p = .ok q ∧ t.stat (.ok q) = .ok ⟨.dir, 0⟩ := by
  cases hlocate : t.locate p with
  | error e =>
    rw [hlocate] at h
    cases h
  | ok q =>
    rw [hlocate] at h
    refine ⟨q, rfl, ?_⟩
    have hfull : metadata = ⟨.dir, 0⟩ := by
      rw [stat] at h
      split at h
      · next n hn =>
        obtain rfl := Except.ok.inj h
        cases n with
        | dir => rfl
        | _ => cases hk
      · split at h
        · exact (Except.ok.inj h).symm
        · cases h
    rw [h, hfull]

/-- The folder and every step from it down to `q` is a directory, none of them a link. -/
def Paved (t : FileTree D) (root q : Path) : Prop :=
  ∀ s, s <:+ q → t.stat (t.locate (s ++ root)) = .ok ⟨.dir, 0⟩

/-- The folder and every step from it on the way to `q` is a directory, none of them a link. -/
def Reached (t : FileTree D) (root q : Path) : Prop :=
  ∀ s, s <:+ q → s ≠ q → t.stat (t.locate (s ++ root)) = .ok ⟨.dir, 0⟩

theorem Paved.reached (h : t.Paved root q) (name : String) : t.Reached root (name :: q) := by
  intro s hs hne
  exact h s ((List.suffix_cons_iff.mp hs).resolve_left hne)

theorem Reached.paved (h : t.Reached root (name :: q)) : t.Paved root q := fun s hs =>
  h s (hs.trans (List.suffix_cons name q)) (ne_of_suffix_tail hs)

theorem Paved.cons (h : t.Paved root q) (hname : t.stat (t.locate (name :: q ++ root)) = .ok ⟨.dir, 0⟩) :
    t.Paved root (name :: q) := by
  intro s hs
  rcases List.suffix_cons_iff.mp hs with rfl | hs
  · exact hname
  · exact h s hs

/-- The steps lie below the place of the folder. -/
theorem Paved.place (h : t.Paved root q) (hroot : t.locate root = .ok folder) :
    t.locate (q ++ root) = .ok (q ++ folder) ∧ t.isDir (q ++ folder) = true := by
  induction q with
  | nil =>
    have hstat := h [] List.suffix_rfl
    rw [List.nil_append, hroot] at hstat
    exact ⟨hroot, isDir_of_stat hstat⟩
  | cons name q ih =>
    obtain ⟨hlocate, hdir⟩ := ih fun s hs => h s (hs.trans (List.suffix_cons name q))
    have hplace : t.locate (name :: (q ++ root)) = .ok (name :: (q ++ folder)) :=
      locate_cons_of_dir (resolve_of_locate_dir hlocate hdir) hdir
    have hstat := h (name :: q) List.suffix_rfl
    rw [List.cons_append, hplace] at hstat
    exact ⟨hplace, isDir_of_stat hstat⟩

theorem Reached.place (h : t.Reached root q) (hroot : t.locate root = .ok folder) :
    t.locate (q ++ root) = .ok (q ++ folder) := by
  cases q with
  | nil => exact hroot
  | cons name q =>
    obtain ⟨hlocate, hdir⟩ := h.paved.place hroot
    exact locate_cons_of_dir (resolve_of_locate_dir hlocate hdir) hdir

theorem Grows.stat_dir (h : Grows t t') (hp : t.stat (t.locate p) = .ok ⟨.dir, 0⟩) :
    t'.stat (t'.locate p) = .ok ⟨.dir, 0⟩ := by
  obtain ⟨q, hlocate, hstat⟩ := FileTree.stat_dir hp rfl
  rw [h.locate hlocate]
  rcases isDir_iff.mp (isDir_of_stat hstat) with rfl | hget
  · rw [stat, h.top]
    exact hstat
  · rw [stat, h.keeps q _ hget]
    rfl

theorem Grows.paved (h : Grows t t') (hq : t.Paved root q) : t'.Paved root q := fun s hs => h.stat_dir (hq s hs)

/-- An entry of a folder is reached through directories as long as it is found at all, however many
others have gone. -/
theorem Grows.paved_of_entry (h : Grows t t') {n : Node D} (hroot : t'.locate root = .ok folder)
    (hfolder : t'.stat (.ok folder) = .ok ⟨.dir, 0⟩) (hn : t'.get (name :: q ++ folder) = some n)
    {place : Path} (hlocate : t.locate (name :: q ++ root) = .ok place) : t.Paved root q := by
  obtain ⟨r, hresolve, hdir, -⟩ := locate_cons_ok hlocate
  have htwin := Twin.of_locate hroot (isDir_of_stat hfolder)
  intro s hs
  have hs' : s ++ root <:+ q ++ root := by
    obtain ⟨a, rfl⟩ := hs
    exact ⟨a, by simp⟩
  obtain ⟨rs, hrs, hdirs⟩ := resolve_above hresolve hdir hs'
  have hdir' : t'.isDir (s ++ folder) = true := by
    refine isDir_iff.mpr (get_ancestor hn ?_ ?_)
    · obtain ⟨a, rfl⟩ := hs
      exact ⟨name :: a, by simp⟩
    · intro he
      have hle := hs.length_le
      have hlen := congrArg List.length he
      simp only [List.length_append, List.length_cons] at hlen
      omega
  have hsame : rs = s ++ folder := by
    have hlater := h.resolve hrs hdirs
    rw [htwin.resolve, resolve_of_dir hdir'] at hlater
    exact (Except.ok.inj hlater).symm
  have hplace : t.locate (s ++ root) = .ok (s ++ folder) := by
    cases hsr : s ++ root with
    | nil =>
      obtain ⟨rfl, rfl⟩ := List.append_eq_nil_iff.mp hsr
      rw [← Except.ok.inj hroot]
      rfl
    | cons a p =>
      obtain ⟨parent, hparent, hpdir, -⟩ := resolveWith_cons_ok (hsr ▸ hrs)
      have hfound : t.locate (a :: p) = .ok (a :: parent) := locate_cons_of_dir hparent hpdir
      have hlater := h.locate hfound
      rw [← hsr, htwin.locate s] at hlater
      have hreal : t'.Real (s ++ folder) := by
        rcases isDir_iff.mp hdir' with he | hget
        · rw [he]
          exact fun q hq hne => absurd (List.suffix_nil.mp hq) hne
        · exact Real.of_get hget
      rw [locate_real hreal] at hlater
      rw [hfound, hlater]
  rw [hplace]
  rw [hsame] at hdirs
  rcases isDir_iff.mp hdirs with he | hget
  · obtain ⟨rfl, rfl⟩ := List.append_eq_nil_iff.mp he
    rw [stat, List.nil_append, ← h.top]
    exact hfolder
  · rw [stat, hget]
    rfl

end Reached

end FileTree

end InkHole
