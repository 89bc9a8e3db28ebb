import InkHole.FileCalls
import InkHole.StateNames

/-! Where the state of the transfers lies, and that the calls made there leave the rest
of the file system alone. -/

set_option linter.unusedSectionVars false

namespace InkHole

/-- The destination roots of a device. None of them lies in the state directory of
another. -/
structure Layout where
  roots : List Path
  outside : ∀ r ∈ roots, ∀ r' ∈ roots, ¬ stateDirectory :: r' <:+ r

namespace Layout

variable {L : Layout} {p q r : Path}

/-- A path below a state directory. -/
def Inside (L : Layout) (p : Path) : Prop :=
  ∃ r ∈ L.roots, ∃ name rest, p = rest ++ name :: stateDirectory :: r

/-- A path below a state file or directory of one transfer. -/
def Owned (L : Layout) (id : String) (p : Path) : Prop :=
  ∃ r ∈ L.roots, ∃ name rest, p = rest ++ name :: stateDirectory :: r ∧ Named id name

theorem Owned.inside {id : String} (h : L.Owned id p) : L.Inside p := by
  obtain ⟨r, hr, name, rest, rfl, -⟩ := h
  exact ⟨r, hr, name, rest, rfl⟩

theorem Inside.above (h : L.Inside p) (hq : p <:+ q) : L.Inside q := by
  obtain ⟨r, hr, name, rest, rfl⟩ := h
  obtain ⟨s, rfl⟩ := hq
  exact ⟨r, hr, name, s ++ rest, by simp⟩

theorem Owned.above {id : String} (h : L.Owned id p) (hq : p <:+ q) : L.Owned id q := by
  obtain ⟨r, hr, name, rest, rfl, hn⟩ := h
  obtain ⟨s, rfl⟩ := hq
  exact ⟨r, hr, name, s ++ rest, by simp, hn⟩

theorem owned_statePath (hr : r ∈ L.roots) (id extension : String) :
    L.Owned id (statePath r id extension) :=
  ⟨r, hr, stateName id extension, [], rfl, named_stateName id extension⟩

/-- No root and no state directory is inside a state directory. -/
theorem not_inside_chain (hr : r ∈ L.roots) (hq : q <:+ stateDirectory :: r) : ¬ L.Inside q := by
  rintro ⟨r', hr', name, rest, rfl⟩
  have hs : name :: stateDirectory :: r' <:+ stateDirectory :: r :=
    (List.suffix_append rest _).trans hq
  rcases List.suffix_cons_iff.mp hs with he | hs
  · exact L.outside r hr r' hr' ((List.cons.inj he).2 ▸ List.suffix_rfl)
  · exact L.outside r hr r' hr' ((List.suffix_cons name _).trans hs)

theorem not_inside_destination (hr : r ∈ L.roots) (name : String) : ¬ L.Inside (name :: r) := by
  rintro ⟨r', hr', name', rest, he⟩
  cases rest with
  | nil => exact L.outside r hr r' hr' ((List.cons.inj he).2 ▸ List.suffix_rfl)
  | cons a rest =>
    have he := (List.cons.inj he).2
    exact not_inside_chain hr (List.suffix_cons _ _) ⟨r', hr', name', rest, he⟩

/-- One state file is not below another. -/
theorem statePath_suffix {r r' : Path} {id id' extension extension' : String} (hr : r ∈ L.roots)
    (hr' : r' ∈ L.roots) (h : statePath r id extension <:+ statePath r' id' extension') :
    stateName id extension = stateName id' extension' := by
  rcases List.suffix_cons_iff.mp h with he | hs
  · exact (List.cons.inj he).1
  · exact absurd (L.owned_statePath hr id extension).inside (not_inside_chain hr' hs)

/-- Files of different transfers have nothing in common. -/
theorem Owned.eq {id id' : String} (hid : StateId id) (hid' : StateId id') (h : L.Owned id p)
    (h' : L.Owned id' p) : id = id' := by
  obtain ⟨r, hr, name, rest, rfl, hn⟩ := h
  obtain ⟨r', hr', name', rest', he, hn'⟩ := h'
  have hs : name :: stateDirectory :: r <:+ name' :: stateDirectory :: r' ∨
      name' :: stateDirectory :: r' <:+ name :: stateDirectory :: r := by
    have hsuffix := List.suffix_append rest' (name' :: stateDirectory :: r')
    rw [← he] at hsuffix
    exact List.suffix_or_suffix_of_suffix (List.suffix_append rest _) hsuffix
  have hinside : ∀ {r r' : Path} {a b : String}, r ∈ L.roots → r' ∈ L.roots →
      a :: stateDirectory :: r <:+ b :: stateDirectory :: r' → a = b := by
    intro r r' a b hr hr' h
    rcases List.suffix_cons_iff.mp h with he | h
    · exact (List.cons.inj he).1
    · exact absurd ⟨r, hr, a, [], rfl⟩ (not_inside_chain hr' h)
  have hname : name = name' := hs.elim (hinside hr hr') fun h => (hinside hr' hr h).symm
  exact hn.eq hid hid' (hname ▸ hn')

/-- The state directories are there, no link is on the way to them, and files and directories
are all they hold. -/
structure Sound (L : Layout) {D : Type} (t : FileTree D) : Prop where
  chain : ∀ r ∈ L.roots, ∀ q, q <:+ stateDirectory :: r → q ≠ [] → t.get q = some .dir
  plain : ∀ p, L.Inside p → ∀ n, t.get p = some n → n = .dir ∨ ∃ d, n = .file d

variable {D : Type} {t : FileTree D}

theorem Sound.no_link (h : L.Sound t) (hp : L.Inside p) (target : Path) :
    t.get p ≠ some (.symlink target) := by
  intro hs
  rcases h.plain p hp _ hs with hd | ⟨d, hd⟩ <;> cases hd

theorem Sound.straight (h : L.Sound t) (hp : L.Inside p) : t.Straight p := by
  intro s hs hne target
  have hp' := hp
  obtain ⟨r, hr, name, rest, rfl⟩ := hp'
  rcases List.suffix_or_suffix_of_suffix hs (List.suffix_append rest _) with hc | hc
  · rcases List.suffix_cons_iff.mp hc with rfl | hc
    · exact h.no_link ⟨r, hr, name, [], rfl⟩ target
    · rw [h.chain r hr s hc hne]
      simp
  · exact h.no_link ((show L.Inside _ from ⟨r, hr, name, [], rfl⟩).above hc) target

theorem Sound.root_dir (h : L.Sound t) (hr : r ∈ L.roots) : r = [] ∨ t.get r = some .dir := by
  by_cases hn : r = []
  · exact .inl hn
  · exact .inr (h.chain r hr r (List.suffix_cons _ _) hn)

theorem Sound.real_destination (h : L.Sound t) (hr : r ∈ L.roots) (name : String) :
    t.Real (name :: r) := by
  intro q hq hne
  have hs := (List.suffix_cons_iff.mp hq).resolve_left hne
  by_cases hn : q = []
  · exact .inl hn
  · exact .inr (h.chain r hr q (hs.trans (List.suffix_cons _ _)) hn)

variable [FileData D] {β : Type}

/-- The call changes entries inside the state directories only. -/
def Confined (L : Layout) : FsOp D β → Prop
  | .createDir p => L.Inside p
  | .openFile p _ => L.Inside p
  | .edit p _ => L.Inside p
  | .removeFile p => L.Inside p
  | .removeDir p => L.Inside p
  | .rename src dst => L.Inside src ∧ L.Inside dst
  | _ => True

theorem Sound.straight_confined {op : FsOp D β} (h : L.Sound t) (hop : L.Confined op) :
    op.straight t := by
  cases op with
  | createDir p => exact (h.straight hop).way
  | openFile p o => exact h.straight hop
  | edit p f => exact h.straight hop
  | removeFile p => exact (h.straight hop).way
  | removeDir p => exact (h.straight hop).way
  | rename src dst => exact ⟨(h.straight hop.1).way, (h.straight hop.2).way⟩
  | _ => trivial

theorem Sound.frame_confined {op : FsOp D β} (h : L.Sound t) (hop : L.Confined op)
    (hp : ¬ L.Inside p) : (op.exec t).2.get p = t.get p := by
  have hc := FsOp.exec_change _ (h.straight_confined hop) p
  generalize (op.exec t).2.get p = v at hc
  cases hc with
  | kept => rfl
  | made => exact absurd hop hp
  | emptied => exact absurd hop hp
  | edited => exact absurd hop hp
  | unlinked => exact absurd hop hp
  | removed => exact absurd hop hp
  | gone hs => exact absurd (hop.1.above hs) hp
  | moved s => exact absurd (hop.2.above (List.suffix_append s _)) hp

theorem Sound.confined {op : FsOp D β} (h : L.Sound t) (hop : L.Confined op) :
    L.Sound (op.exec t).2 := by
  refine ⟨fun r hr q hq hne => ?_, fun p hp n => ?_⟩
  · rw [h.frame_confined hop (not_inside_chain hr hq)]
    exact h.chain r hr q hq hne
  · have hc := FsOp.exec_change _ (h.straight_confined hop) p
    generalize (op.exec t).2.get p = v at hc
    cases hc with
    | kept => exact h.plain p hp n
    | moved s => exact h.plain _ (hop.1.above (List.suffix_append s _)) n
    | made => exact fun hn => .inl (Option.some.inj hn).symm
    | emptied => exact fun hn => .inr ⟨_, (Option.some.inj hn).symm⟩
    | edited => exact fun hn => .inr ⟨_, (Option.some.inj hn).symm⟩
    | _ => exact fun hn => by cases hn

/-! The one call that leaves the state directories: the rename of a finished item to a
name that nothing has. -/

theorem Sound.straight_deliver {src : Path} (h : L.Sound t) (hs : L.Inside src) (hr : r ∈ L.roots)
    (name : String) : (FsOp.rename (D := D) src (name :: r)).straight t :=
  ⟨(h.straight hs).way, (h.real_destination hr name).way⟩

theorem Sound.frame_deliver {src : Path} {name : String} {n : Node D} (h : L.Sound t)
    (hs : L.Inside src) (hr : r ∈ L.roots) (hv : ¬ t.Occupied (name :: r)) (hp : ¬ L.Inside p)
    (hn : t.get p = some n) (ho : t.Occupied p) : (t.renameTo src (name :: r)).2.get p = some n := by
  have hc := FsOp.exec_change _ (h.straight_deliver hs hr name) p
  rw [show (FsOp.exec (.rename src (name :: r)) t).2 = (t.renameTo src (name :: r)).2 from rfl] at hc
  generalize (t.renameTo src (name :: r)).2.get p = v at hc
  cases hc with
  | kept => exact hn
  | gone hsp => exact absurd (hs.above hsp) hp
  | moved s =>
    exfalso
    by_cases he : s = []
    · subst he
      exact hv ho
    · have hne : name :: r ≠ s ++ name :: r := fun hc => he (List.self_eq_append_left.mp hc)
      have hb := FileTree.get_below_none (List.cons_ne_nil name r) (fun hd => hv (.inl hd))
        (List.suffix_append s _) hne
      rw [hb] at hn
      cases hn

/-- A delivery onto a free name makes no entry at another destination. -/
theorem Sound.free_deliver {src r' : Path} {name name' : String} (h : L.Sound t)
    (hs : L.Inside src) (hr : r ∈ L.roots) (hr' : r' ∈ L.roots) (hv : ¬ t.Occupied (name :: r))
    (hne : name' :: r' ≠ name :: r) (hf : ¬ t.Occupied (name' :: r')) :
    ¬ (t.renameTo src (name :: r)).2.Occupied (name' :: r') := by
  have hc := FsOp.exec_change _ (h.straight_deliver hs hr name) (name' :: r')
  rw [show (FsOp.exec (.rename src (name :: r)) t).2 = (t.renameTo src (name :: r)).2 from rfl] at hc
  rw [FileTree.Occupied]
  generalize hp : name' :: r' = p at hc
  generalize (t.renameTo src (name :: r)).2.get p = v at hc
  cases hc with
  | kept => exact hp ▸ hf
  | gone => simp
  | moved s =>
    exfalso
    have hsuffix : name :: r <:+ name' :: r' := hp ▸ List.suffix_append s _
    have hbelow := (List.suffix_cons_iff.mp hsuffix).resolve_left hne.symm
    exact hv (.inl (h.chain r' hr' _ (hbelow.trans (List.suffix_cons _ _)) (List.cons_ne_nil _ _)))

/-- A finished item can be renamed over none of the directories on the way to the state: they
are not empty. -/
theorem Sound.not_over_chain {src : Path} {name : String} {n : Node D} (h : L.Sound t)
    (hs : ∃ state, src = state :: stateDirectory :: r) {r' : Path} (hr' : r' ∈ L.roots)
    (hd : name :: r <:+ stateDirectory :: r') (hrep : t.replaceable n (name :: r) = true)
    (hmove : t.canMove src (name :: r) = true) : False := by
  obtain ⟨state, rfl⟩ := hs
  have hdst := h.chain r' hr' _ hd (List.cons_ne_nil name r)
  have hempty : t.readDir (name :: r) = [] := by
    simp only [FileTree.replaceable, hdst, Bool.and_eq_true, List.isEmpty_iff] at hrep
    exact hrep.2
  by_cases he : name :: r = stateDirectory :: r'
  · refine (FileTree.canMove_iff.mp hmove).2.2 ?_
    rw [he, (List.cons.inj he).2]
    exact List.suffix_cons _ _
  · have hstate := h.chain r' hr' _ List.suffix_rfl (List.cons_ne_nil _ _)
    exact FileTree.readDir_ne_nil_above hstate hd he hempty

theorem Sound.chain_kept {src : Path} {name : String} (h : L.Sound t) (hr : r ∈ L.roots)
    (hs : ∃ state, src = state :: stateDirectory :: r) {r' : Path} (hr' : r' ∈ L.roots)
    (hq : q <:+ stateDirectory :: r') (hne : q ≠ []) :
    (t.renameTo src (name :: r)).2.get q = some .dir := by
  have hs' := hs
  obtain ⟨state, rfl⟩ := hs'
  have hinside : L.Inside (state :: stateDirectory :: r) := ⟨r, hr, state, [], rfl⟩
  have hc := FsOp.exec_change _ (h.straight_deliver hinside hr name) q
  rw [show (FsOp.exec (.rename (state :: stateDirectory :: r) (name :: r)) t).2 =
    (t.renameTo (state :: stateDirectory :: r) (name :: r)).2 from rfl] at hc
  generalize (t.renameTo (state :: stateDirectory :: r) (name :: r)).2.get q = v at hc
  cases hc with
  | kept => exact h.chain r' hr' q hq hne
  | gone hsq => exact absurd (hinside.above hsq) (not_inside_chain hr' hq)
  | moved s hsrc hrep hmove =>
    exact (h.not_over_chain hs hr' ((List.suffix_append s _).trans hq) hrep hmove).elim

/-- In the state directories a delivery only takes away what it delivers. -/
theorem Sound.deliver_inside {src : Path} (name : String) (h : L.Sound t) (hr : r ∈ L.roots)
    (hs : ∃ state, src = state :: stateDirectory :: r) (hp : L.Inside p) :
    (t.renameTo src (name :: r)).2.get p = t.get p ∨
      (src <:+ p ∧ (t.renameTo src (name :: r)).2.get p = none) := by
  have hs' := hs
  obtain ⟨state, rfl⟩ := hs'
  have hinside : L.Inside (state :: stateDirectory :: r) := ⟨r, hr, state, [], rfl⟩
  have hc := FsOp.exec_change _ (h.straight_deliver hinside hr name) p
  rw [show (FsOp.exec (.rename (state :: stateDirectory :: r) (name :: r)) t).2 =
    (t.renameTo (state :: stateDirectory :: r) (name :: r)).2 from rfl] at hc
  generalize (t.renameTo (state :: stateDirectory :: r) (name :: r)).2.get p = v at hc
  cases hc with
  | kept => exact .inl rfl
  | gone hsp => exact .inr ⟨hsp, rfl⟩
  | moved s hsrc hrep hmove =>
    exfalso
    obtain ⟨r', hr', name', rest, he⟩ := hp
    have hstate := List.suffix_append (rest ++ [name']) (stateDirectory :: r')
    rw [List.append_assoc, List.singleton_append, ← he] at hstate
    rcases List.suffix_or_suffix_of_suffix (List.suffix_append s (name :: r)) hstate with hd | hd
    · exact h.not_over_chain hs hr' hd hrep hmove
    · by_cases heq : stateDirectory :: r' = name :: r
      · exact h.not_over_chain hs hr' (heq ▸ List.suffix_rfl) hrep hmove
      · obtain ⟨x, hx⟩ := hd
        obtain ⟨x, a, rfl⟩ := (List.eq_nil_or_concat x).resolve_left fun hn => heq (by simpa [hn] using hx)
        exact not_inside_destination hr name ⟨r', hr', a, x, by simpa using hx.symm⟩

/-- However a delivery ends, the state directories stay as they are to be. -/
theorem Sound.deliver {src : Path} {name : String} (h : L.Sound t) (hr : r ∈ L.roots)
    (hs : ∃ state, src = state :: stateDirectory :: r) : L.Sound (t.renameTo src (name :: r)).2 := by
  refine ⟨fun r' hr' q hq hne => h.chain_kept hr hs hr' hq hne, fun p hp n => ?_⟩
  obtain ⟨state, rfl⟩ := hs
  have hinside : L.Inside (state :: stateDirectory :: r) := ⟨r, hr, state, [], rfl⟩
  have hc := FsOp.exec_change _ (h.straight_deliver hinside hr name) p
  rw [show (FsOp.exec (.rename (state :: stateDirectory :: r) (name :: r)) t).2 =
    (t.renameTo (state :: stateDirectory :: r) (name :: r)).2 from rfl] at hc
  generalize (t.renameTo (state :: stateDirectory :: r) (name :: r)).2.get p = v at hc
  cases hc with
  | kept => exact h.plain p hp n
  | gone => exact fun hn => by cases hn
  | moved s => exact h.plain _ (hinside.above (List.suffix_append s _)) n

end Layout

end InkHole
