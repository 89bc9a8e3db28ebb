import InkHole.DestinationRecords
import InkHole.EntryNames
import InkHole.Recovery

/-! What the records of a store promise, at every moment between two calls: a receipt is that of the
offer it is kept with, and a destination lies above no state directory. -/

set_option linter.unusedSectionVars false

namespace InkHole

open InkHole.CoreM Fallible FileTree TransferStore

namespace Layout

variable {L : Layout} {p q r : Path}

/-- No state directory is the path or below it. -/
def Clear (L : Layout) (p : Path) : Prop := ∀ r ∈ L.roots, ¬ p <:+ stateDirectory :: r

theorem Clear.not_inside (h : L.Clear p) (hp : ¬ L.Inside p) (hq : p <:+ q) : ¬ L.Inside q := by
  rintro ⟨r, hr, name, rest, rfl⟩
  have hstate := List.suffix_append (rest ++ [name]) (stateDirectory :: r)
  rw [List.append_assoc, List.singleton_append] at hstate
  rcases List.suffix_or_suffix_of_suffix hq hstate with hc | hc
  · exact h r hr hc
  · obtain ⟨front, rfl⟩ := hc
    obtain ⟨front, last, rfl⟩ := (List.eq_nil_or_concat front).resolve_left fun hn =>
      h r hr (by simp [hn])
    exact hp ⟨r, hr, last, front, by simp⟩

/-- A name that nothing has lies above no state directory, since these are there. -/
theorem Sound.clear {D : Type} {t : FileTree D} {name : String} [FileData D] (h : L.Sound t)
    (hfree : t.exists? (name :: p) = .ok false) : L.Clear (name :: p) := by
  intro r hr hs
  have hdir := h.chain r hr _ hs (List.cons_ne_nil _ _)
  cases (exists?_of_get hdir rfl).symm.trans hfree

end Layout

/-- What a store relies on when it reads one of its records. -/
def Record.Kept (L : Layout) (s : TransferStore) : Record → Prop
  | .commit c => L.Clear (c.destination :: s.destinationRootStored c.offer)
  | .done d => d.receipt = d.offer.receipt ∧ L.Clear (d.destination :: s.destinationRootStored d.offer)
  | _ => True

def Contents.Kept (L : Layout) (s : TransferStore) : Contents → Prop
  | .json record => record.Kept L s
  | .bytes _ => True

theorem fillable_kept (L : Layout) (s : TransferStore) : Fillable (Contents.Kept L s) where
  bytes _ := trivial
  metadata _ := trivial
  manifest _ := trivial

section Trusted

variable [Externals] {α β : Type} {L : Layout} {s : TransferStore} {w w' : World} {t : FileTree Contents}
  {p r : Path} {id : String}

/-- The state directories are as they are to be, and so are the records in them and the names of all
entries. -/
structure Trusted (L : Layout) (s : TransferStore) (t : FileTree Contents) : Prop where
  sound : L.Sound t
  kept : ∀ p, L.Inside p → ∀ d, t.get p = some (.file d) → d.Kept L s
  spelled : ∀ p, t.get p ≠ none → L.Spelled p

/-- What is moved is spelled at its new place, if the place itself is. -/
theorem Trusted.spelled_moved {src dst q : Path} (h : Trusted L s t) (hs : L.Inside src) (hd : L.Spelled dst)
    (hq : t.get (q ++ src) ≠ none) : L.Spelled (q ++ dst) := by
  cases q with
  | nil => exact hd
  | cons a q =>
    refine Layout.spelled_of_proper ((h.spelled _ hq a (q ++ src) rfl).resolve_right ?_)
    rintro ⟨r, hr, he⟩
    exact L.not_inside_chain hr List.suffix_rfl (he ▸ hs.above (List.suffix_append q src))

theorem Trusted.confined (op : FsOp Contents β) (h : Trusted L s t) (hc : L.Confined op)
    (hf : op.Fills (Contents.Kept L s)) (hn : L.Spells (.fs op)) : Trusted L s (op.exec t).2 := by
  refine ⟨h.sound.confined hc, fun p hp d => ?_, fun p => ?_⟩
  · have hchange := FsOp.exec_change _ (h.sound.straight_confined hc) p
    generalize (op.exec t).2.get p = v at hchange
    cases hchange with
    | kept => exact h.kept p hp d
    | emptied =>
      rintro ⟨⟩
      trivial
    | edited =>
      rintro ⟨⟩
      exact hf _
    | moved q => exact h.kept _ (hc.1.above (List.suffix_append q _)) d
    | _ => exact fun hn => by cases hn
  · have hchange := FsOp.exec_change _ (h.sound.straight_confined hc) p
    generalize (op.exec t).2.get p = v at hchange
    cases hchange with
    | kept => exact h.spelled p
    | made => exact fun _ => hn
    | emptied => exact fun _ => hn
    | edited he => exact fun _ => h.spelled p (by simp [he])
    | moved q => exact h.spelled_moved hc.1 hn
    | _ => exact fun hn => (hn rfl).elim

/-- An item that leaves for its destination takes no record along into a state directory. -/
theorem Trusted.deliver {src : Path} {name : String} (h : Trusted L s t) (hr : r ∈ L.roots)
    (hs : ∃ state, src = state :: stateDirectory :: r) (hn : ProperName name) :
    Trusted L s (t.renameTo src (name :: r)).2 := by
  refine ⟨h.sound.deliver hr hs, fun p hp d hd => ?_, fun p => ?_⟩
  · rcases h.sound.deliver_inside name hr hs hp with he | ⟨-, he⟩
    · exact h.kept p hp d (he ▸ hd)
    · rw [he] at hd
      cases hd
  · obtain ⟨state, rfl⟩ := hs
    have hinside : L.Inside (state :: stateDirectory :: r) := ⟨r, hr, state, [], rfl⟩
    have hchange := FsOp.exec_change _ (h.sound.straight_deliver hinside hr name) p
    rw [show (FsOp.exec (.rename (state :: stateDirectory :: r) (name :: r)) t).2 =
      (t.renameTo (state :: stateDirectory :: r) (name :: r)).2 from rfl] at hchange
    generalize (t.renameTo (state :: stateDirectory :: r) (name :: r)).2.get p = v at hchange
    cases hchange with
    | kept => exact h.spelled p
    | moved q => exact h.spelled_moved hinside (Layout.spelled_of_proper hn)
    | gone => exact fun hn => (hn rfl).elim

theorem Trusted.edited (h : Trusted L s w.fs) (he : Edited L w w') (hn : w'.fs.Named []) : Trusted L s w'.fs := by
  refine ⟨he.sound h.sound, fun p hp d hd => h.kept p hp d (he.inside p hp ▸ hd), ?_⟩
  rintro _ hp name q rfl
  exact .inl (hn name q hp List.nil_suffix)

/-- Where no state directory lies below a folder, the names in it are proper. -/
theorem Trusted.named (h : Trusted L s t) (hp : L.Clear p) : t.Named p := by
  intro name q hq hs
  refine (h.spelled _ hq name q rfl).resolve_right ?_
  rintro ⟨r, hr, rfl⟩
  exact hp r hr hs

theorem Trusted.opens {c : Call β} (h : Trusted L s w.fs) (hc : L.Opens c) :
    Trusted L s (c.changed w) := by
  cases c with
  | fs op =>
    cases op with
    | createDir p =>
      obtain ⟨r, hr, hp⟩ := hc
      rw [h.sound.createDir_chain hr hp]
      exact h
    | removeFile p => exact h.confined (.removeFile p) hc trivial trivial
    | removeDir p => exact h.confined (.removeDir p) hc trivial trivial
    | openFile => exact hc.elim
    | edit => exact hc.elim
    | rename => exact hc.elim
    | _ => exact h
  | _ => exact h

/-! Runs. -/

/-- Only the state directories have changed, and the records in them hold. -/
structure Discreet (L : Layout) (s : TransferStore) (w w' : World) : Prop where
  trusted : Trusted L s w'.fs
  frame : ∀ p, ¬ L.Inside p → w'.fs.get p = w.fs.get p

theorem Trusted.discreet (h : Trusted L s w.fs) : Discreet L s w w := ⟨h, fun _ _ => rfl⟩

theorem Discreet.trans {w'' : World} (h : Discreet L s w w') (h' : Discreet L s w' w'') : Discreet L s w w'' :=
  ⟨h'.trusted, fun p hp => (h'.frame p hp).trans (h.frame p hp)⟩

theorem Trusted.tame {c : Call β} (h : Trusted L s w.fs) (hc : L.Tame id c)
    (hf : c.Fills (Contents.Kept L s)) (hn : L.Spells c) : Discreet L s w (exec c w).2 := by
  cases c with
  | fs op => exact ⟨h.confined op hc.confined hf hn, fun p hp => h.sound.frame_confined hc.confined hp⟩
  | _ => exact ⟨h, fun _ _ => rfl⟩

/-- Wherever the computation is cut off the records hold, and `Q` holds of a value that it returns. -/
abbrev Trustworthy (L : Layout) (s : TransferStore) (Q : α → World → Prop) (x : CoreM α) (w : World) : Prop :=
  Along (fun v => Trusted L s v.fs) Q (fun _ _ => True) x w

variable {Q : α → World → Prop} {x : CoreM α}

theorem trustworthy_reads {V : β → Prop} {y : CoreM β} {f : β → CoreM α} (hy : Uses Call.Reads V y)
    (hw : Trusted L s w.fs) (hf : ∀ b, eval y w = .ok b → Trustworthy L s Q (f b) w) :
    Trustworthy L s Q (y >>= f) w := by
  refine along_bind (Q := fun b v => w = v ∧ eval y w = .ok b)
    (along_of_reads hy hw (fun b hb => ⟨rfl, hb⟩) fun _ _ => trivial) ?_
  rintro b _ ⟨rfl, hb⟩
  exact hf b hb

theorem trustworthy_lift {y : Except CoreError β} {f : β → CoreM α}
    (hf : ∀ b, y = .ok b → Trustworthy L s Q (f b) w) : Trustworthy L s Q (liftM y >>= f) w := by
  refine along_bind (Q := fun b v => w = v ∧ y = .ok b)
    (along_lift (fun b hb => ⟨rfl, hb⟩) fun _ _ => trivial) ?_
  rintro b _ ⟨rfl, hb⟩
  exact hf b hb

theorem trustworthy_throwIf {bad : Prop} [Decidable bad] {e : CoreError} {f : Unit → CoreM α}
    (hf : ¬ bad → Trustworthy L s Q (f ()) w) : Trustworthy L s Q (throwIf bad e >>= f) w := by
  refine along_bind (Q := fun _ v => w = v ∧ ¬ bad)
    (along_throwIf (fun hb => ⟨rfl, hb⟩) fun _ => trivial) ?_
  rintro _ _ ⟨rfl, hb⟩
  exact hf hb

/-- A record that is read is the one at its place, and holds. -/
theorem trustworthy_read {decode : Record → Option β} {f : Option β → CoreM α} (hp : L.Inside p)
    (hw : Trusted L s w.fs) (hnone : Trustworthy L s Q (f none) w)
    (hsome : ∀ record v, decode record = some v → record.Kept L s → Trustworthy L s Q (f (some v)) w) :
    Trustworthy L s Q (readJsonOptional decode p >>= f) w := by
  refine trustworthy_reads (reads_readJsonOptional decode p) hw fun found hfound => ?_
  cases found with
  | none => exact hnone
  | some v =>
    obtain ⟨q, record, hq, hn, hv⟩ := readJsonOptional_some hfound
    obtain rfl := resolve_straight (hw.sound.straight hp) hq
    exact hsome record v hv (hw.kept _ hp _ hn)

theorem trustworthy_tame {w₀ : World} {V V' V'' : α → Prop} (hx : Uses (L.Tame id) V x)
    (hf : Uses (Call.Fills (Contents.Kept L s)) V' x) (hn : Uses L.Spells V'' x) (h : Discreet L s w₀ w) :
    Trustworthy L s (fun a v => V a ∧ Discreet L s w₀ v) x w := by
  have huses := uses_run.mp (hx.and (hf.and hn))
  have hrun := huses.along (R := fun v v' : World => Trusted L s v.fs → Discreet L s v v') (w := w)
    (fun _ _ _ h h' hv => (h hv).trans (h' (h hv).trusted)) (fun _ _ hc hv => hv.tame hc.1 hc.2.1 hc.2.2)
    (fun hv => hv.discreet)
  refine along_run.mpr (hrun.mono (fun v h' => (h' h.trusted).trusted) fun a v h' => ?_)
  cases a with
  | ok a => exact ⟨(h'.1 a rfl).1, h.trans (h'.2 h.trusted)⟩
  | error e => trivial

theorem trustworthy_removeIfExists {w₀ : World} (hp : L.Owned id p) (h : Discreet L s w₀ w) :
    Trustworthy L s (fun _ v => Discreet L s w₀ v) (removeIfExists p) w :=
  (trustworthy_tame (tame_removeIfExists hp) (fills_removeIfExists p) (spells_removeIfExists p) h).mono
    (fun _ hi => hi) (fun _ _ hq => hq.2) fun _ _ hf => hf

theorem trustworthy_removeDirAllIfExists {w₀ : World} (hp : L.Owned id p) (h : Discreet L s w₀ w) :
    Trustworthy L s (fun _ v => Discreet L s w₀ v) (removeDirAllIfExists p) w :=
  (trustworthy_tame (tame_removeDirAllIfExists hp) (fills_removeDirAllIfExists p) (spells_removeDirAllIfExists p)
    h).mono (fun _ hi => hi) (fun _ _ hq => hq.2) fun _ _ hf => hf

theorem trustworthy_atomicWriteJson {w₀ : World} (hid : StateId id) (hr : r ∈ L.roots) (n : RecordName)
    {value : Record} (hv : value.Kept L s) (h : Discreet L s w₀ w) :
    Trustworthy L s (fun _ v => Discreet L s w₀ v) (atomicWriteJson (statePath r id n.extension) value) w :=
  (trustworthy_tame (tame_atomicWriteJson hid hr n value) (fills_atomicWriteJson _ hv)
    (spells_atomicWriteJson hr _ value) h).mono (fun _ hi => hi) (fun _ _ hq => hq.2) fun _ _ hf => hf

theorem trustworthy_withLock {R : α → World → Prop} (ℓ : Lock) (hw : Trusted L s w.fs)
    (hx : ∀ v, v.fs = w.fs → Trustworthy L s Q x v) (hq : ∀ a v v', v'.fs = v.fs → Q a v → R a v') :
    Trustworthy L s R (withLock ℓ x) w := by
  have hbody := (along_run.mp (hx (exec (Call.lock ℓ) w).2 rfl)).strengthen hw
  refine along_run.mpr ⟨hw, ?_⟩
  rw [Program.along_bind]
  refine hbody.post fun r v hr => ⟨hr.2, ?_⟩
  cases r with
  | ok a => exact hq a v _ rfl hr.1
  | error e => trivial

end Trusted

end InkHole
