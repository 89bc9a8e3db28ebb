import InkHole.FileResults
import InkHole.Footprint
import Mathlib.Data.List.MinMax

/-! What the functions that read and write state files do when nothing disturbs them,
call by call: a predicate that holds of every world between two calls, and the world
at the end. -/

set_option linter.unusedSectionVars false

namespace InkHole

open InkHole.CoreM Fallible FileTree

variable [Externals] {β : Type} {L : Layout} {w : World}

/-! Single calls. -/

theorem exec_reads {op : FsOp Contents β} (h : op.Reads) (w : World) :
    exec (Call.fs op) w = ((op.exec w.fs).1, w) := by
  have hw : (⟨w.fs, w.drawn, w.log ++ []⟩ : World) = w := by rw [List.append_nil]
  cases op with
  | createDir p => exact h.elim
  | openFile p o => exact h.elim
  | edit p f => exact h.elim
  | removeFile p => exact h.elim
  | removeDir p => exact h.elim
  | rename src dst => exact h.elim
  | _ => exact Prod.ext rfl hw

/-- The answer of a program, which for one that only reads is all there is to it. -/
def eval {α : Type} (x : CoreM α) (w : World) : Except CoreError α := (x.run.run w).1

theorem run_reads {α : Type} {p : Program Call α} {V : α → Prop} (h : p.Uses Call.Reads V) (w : World) :
    (p.run w).2 = w := by
  induction p generalizing w with
  | ret a => rfl
  | call c k ih =>
    cases c with
    | fs op =>
      rw [Program.run, exec_reads h.1]
      exact ih _ (h.2 _) w
    | _ => exact h.1.elim

theorem eval_bind {α γ : Type} {x : CoreM α} {f : α → CoreM γ} {V : α → Prop}
    (h : Uses Call.Reads V x) (w : World) :
    eval (x >>= f) w = eval x w >>= fun a => eval (f a) w := by
  have hw := run_reads (uses_run.mp h) w
  have hbind : ∀ {δ ε : Type} (p : Program Call δ) (g : δ → Program Call ε) (w : World),
      (p >>= g).run w = (g (p.run w).1).run (p.run w).2 := by
    intro δ ε p g w
    induction p generalizing w with
    | ret a => rfl
    | call c k ih => exact ih _ _
  rw [eval, run_bind, hbind, hw, eval]
  cases (x.run.run w).1 <;> rfl

@[simp] theorem eval_pure {α : Type} (a : α) (w : World) : eval (pure a) w = .ok a := rfl

@[simp] theorem eval_throw {α : Type} (e : CoreError) (w : World) :
    eval (throw e : CoreM α) w = .error e := rfl

@[simp] theorem eval_lift {α : Type} (x : Except CoreError α) (w : World) :
    eval (liftM x : CoreM α) w = x := rfl

@[simp] theorem eval_throwIf (bad : Prop) [Decidable bad] (e : CoreError) (w : World) :
    eval (throwIf bad e) w = if bad then .error e else .ok () := by
  rw [throwIf]
  split <;> rfl

@[simp] theorem eval_fs (op : FsOp Contents β) (w : World) :
    eval (CoreM.fs op) w = (op.exec w.fs).1.mapError CoreError.io := rfl

@[simp] theorem eval_attempt (op : FsOp Contents β) (w : World) :
    eval (attempt op) w = .ok (op.exec w.fs).1 := rfl

theorem eval_fs_bind {α : Type} (op : FsOp Contents β) (h : op.Reads) (f : β → CoreM α) (w : World) :
    eval (CoreM.fs op >>= f) w = ((op.exec w.fs).1.mapError CoreError.io >>= fun a => eval (f a) w) :=
  eval_bind (reads_fs h) w

theorem eval_throwIf_bind {α : Type} {bad : Prop} [Decidable bad] {e : CoreError} {f : Unit → CoreM α} :
    eval (throwIf bad e >>= f) w = if bad then .error e else eval (f ()) w := by
  rw [throwIf]
  split <;> rfl

theorem eval_lift_bind {α : Type} {x : Except CoreError β} {f : β → CoreM α} :
    eval (liftM x >>= f) w = x >>= fun a => eval (f a) w := by
  cases x <;> rfl

theorem eval_bind_ok {α γ : Type} {x : CoreM α} {f : α → CoreM γ} {V : α → Prop} {r : γ}
    (hx : Uses Call.Reads V x) (h : eval (x >>= f) w = .ok r) : ∃ a, eval x w = .ok a ∧ eval (f a) w = .ok r := by
  rw [eval_bind hx] at h
  cases hr : eval x w with
  | error e =>
    rw [hr] at h
    cases h
  | ok a =>
    rw [hr] at h
    exact ⟨a, rfl, h⟩

theorem eval_lift_bind_ok {α : Type} {x : Except CoreError β} {f : β → CoreM α} {r : α}
    (h : eval (liftM x >>= f) w = .ok r) : ∃ a, x = .ok a ∧ eval (f a) w = .ok r := by
  rw [eval_lift_bind] at h
  cases x with
  | error e => cases h
  | ok a => exact ⟨a, rfl, h⟩

theorem eval_throwIf_bind_ok {α : Type} {bad : Prop} [Decidable bad] {e : CoreError} {f : Unit → CoreM α}
    {r : α} (h : eval (throwIf bad e >>= f) w = .ok r) : ¬ bad ∧ eval (f ()) w = .ok r := by
  rw [eval_throwIf_bind] at h
  by_cases hbad : bad
  · rw [if_pos hbad] at h
    cases h
  · rw [if_neg hbad] at h
    exact ⟨hbad, h⟩

variable {I : World → Prop} {Q : β → World → Prop} {F : CoreError → World → Prop} {op : FsOp Contents β}

/-- A program that only reads goes through one world. -/
theorem along_run_reads {α : Type} {p : Program Call α} {V : α → Prop} {R : α → World → Prop}
    (h : p.Uses Call.Reads V) (hi : I w) (hr : R (p.run w).1 w) : p.Along I R w := by
  induction p with
  | ret r => exact hr
  | call c k ih =>
    cases c with
    | fs op =>
      rw [Program.run, exec_reads h.1] at hr
      rw [Program.along_call, exec_reads h.1]
      exact ⟨hi, ih _ (h.2 _) hr⟩
    | _ => exact h.1.elim

theorem along_of_reads {α : Type} {x : CoreM α} {V : α → Prop} {Q : α → World → Prop}
    (h : Uses Call.Reads V x) (hi : I w) (hq : ∀ a, eval x w = .ok a → Q a w)
    (hf : ∀ e, eval x w = .error e → F e w) : Along I Q F x w := by
  refine along_run.mpr (along_run_reads (uses_run.mp h) hi ?_)
  cases hr : (x.run.run w).1 with
  | ok a => exact hq a hr
  | error e => exact hf e hr

theorem along_attempt_reads {Q : Except IoError β → World → Prop} (h : op.Reads)
    {r : Except IoError β} (hr : (op.exec w.fs).1 = r) (hi : I w) (hq : Q r w) :
    Along I Q F (attempt op) w := by
  rw [along_run]
  simp only [attempt, ExceptT.run_mk, Program.along_call, Program.along_ret, exec_reads h, hr]
  exact ⟨hi, hq⟩

theorem along_fs_reads (h : op.Reads) {a : β} (hr : (op.exec w.fs).1 = .ok a) (hi : I w)
    (hq : Q a w) : Along I Q F (CoreM.fs op) w := by
  rw [along_run]
  simp only [CoreM.fs, ExceptT.run_mk, Program.along_call, Program.along_ret, exec_reads h, hr,
    Except.mapError]
  exact ⟨hi, hq⟩

theorem along_fs_reads_error (h : op.Reads) {e : IoError} (hr : (op.exec w.fs).1 = .error e)
    (hi : I w) (hf : F (.io e) w) : Along I Q F (CoreM.fs op) w := by
  rw [along_run]
  simp only [CoreM.fs, ExceptT.run_mk, Program.along_call, Program.along_ret, exec_reads h, hr,
    Except.mapError]
  exact ⟨hi, hf⟩

/-- A call that succeeds leaves some world with the tree it makes. -/
theorem along_attempt_done {Q : Except IoError Unit → World → Prop} {op : FsOp Contents Unit}
    {t : FileTree Contents} (h : op.exec w.fs = (.ok (), t))
    (hq : ∀ w', w'.fs = t → I w' ∧ Q (.ok ()) w') : Along I Q F (attempt op) w := by
  have hfs : (exec (Call.fs op) w).2.fs = t := congrArg Prod.snd h
  have hr : (exec (Call.fs op) w).1 = .ok () := congrArg Prod.fst h
  rw [along_run]
  simp only [attempt, ExceptT.run_mk, Program.along_call, Program.along_ret]
  exact ⟨(hq _ hfs).1, hr ▸ (hq _ hfs).2⟩

theorem along_fs_done {Q : Unit → World → Prop} {op : FsOp Contents Unit} {t : FileTree Contents}
    (h : op.exec w.fs = (.ok (), t)) (hq : ∀ w', w'.fs = t → I w' ∧ Q () w') :
    Along I Q F (CoreM.fs op) w := by
  have hfs : (exec (Call.fs op) w).2.fs = t := congrArg Prod.snd h
  have hr : (exec (Call.fs op) w).1 = .ok () := congrArg Prod.fst h
  rw [along_run]
  simp only [CoreM.fs, ExceptT.run_mk, Program.along_call, Program.along_ret, hr, Except.mapError]
  exact hq _ hfs

theorem effect_error (op : FsOp Contents β) (e : IoError) : (Call.fs op).effect (.error e) = [] := by
  cases op <;> rfl

/-- A call that fails and changes nothing leaves the world as it is. -/
theorem exec_failed {op : FsOp Contents β} {e : IoError} (h : op.exec w.fs = (.error e, w.fs)) :
    exec (Call.fs op) w = (.error e, w) := by
  change ((op.exec w.fs).1, (⟨(op.exec w.fs).2, w.drawn, w.log ++ (Call.fs op).effect (op.exec w.fs).1⟩ :
    World)) = _
  rw [h, effect_error, List.append_nil]

theorem along_attempt_failed {Q : Except IoError β → World → Prop} {e : IoError}
    (h : op.exec w.fs = (.error e, w.fs)) (hi : I w) (hq : Q (.error e) w) :
    Along I Q F (attempt op) w := by
  rw [along_run]
  simp only [attempt, ExceptT.run_mk, Program.along_call, Program.along_ret, exec_failed h]
  exact ⟨hi, hq⟩

theorem along_fs_failed {e : IoError} (h : op.exec w.fs = (.error e, w.fs)) (hi : I w)
    (hf : F (.io e) w) : Along I Q F (CoreM.fs op) w := by
  rw [along_run]
  simp only [CoreM.fs, ExceptT.run_mk, Program.along_call, Program.along_ret, exec_failed h,
    Except.mapError]
  exact ⟨hi, hf⟩

theorem along_sync {Q : Unit → World → Prop} {p : Path} {d : Contents} (hn : w.fs.get p = some (.file d))
    (hi : I w) (hq : Q () w) : Along I Q F (CoreM.fs (.sync p)) w := by
  have hsync : ((FsOp.sync p : FsOp Contents Unit).exec w.fs).1 = .ok () := by
    rw [FsOp.exec, stat_resolve hn rfl]
    rfl
  exact along_fs_reads trivial hsync hi hq

/-- A random name changes nothing in the files. -/
theorem along_newUuid {Q : String → World → Prop}
    (hq : ∀ w', w'.fs = w.fs → I w' ∧ Q w.uuid w') : Along I Q F newUuid w := by
  rw [along_run]
  simp only [newUuid, ExceptT.run_mk, Program.along_call, Program.along_ret]
  exact hq _ rfl

theorem along_throwIf {Q : Unit → World → Prop} {bad : Prop} [Decidable bad] {e : CoreError}
    (hq : ¬ bad → Q () w) (hf : bad → F e w) : Along I Q F (throwIf bad e) w := by
  rw [throwIf]
  split
  · next h => exact along_throw (hf h)
  · next h => exact along_pure (hq h)

/-! The names of random files are new. -/

/-- No entry has a name as long as a random name. -/
theorem World.get_long {name : String} {p : Path} (h : w.uuidLength ≤ name.length) :
    w.fs.get (name :: p) = none := by
  by_contra hn
  obtain ⟨e, he, hp⟩ := List.lookup_isSome_iff.mp (Option.isSome_iff_ne_none.mpr hn)
  have hm : name.length ∈ w.fs.entries.map fun e => (e.1.headD "").length :=
    List.mem_map.mpr ⟨e, he, by rw [← beq_iff_eq.mp hp]; rfl⟩
  have hle := List.le_max_of_le' 0 hm le_rfl
  have hmax : (w.fs.entries.map fun e => (e.1.headD "").length).foldr max 0 + 1 ≤ w.uuidLength :=
    Nat.le_max_right _ _
  omega

theorem World.uuid_length (w : World) : w.uuid.length = w.uuidLength := by simp [World.uuid]

/-! State files. -/

variable {r : Path} {id : String}

/-- The path of a document that is being written. -/
def Scratch (L : Layout) (id : String) (p : Path) : Prop :=
  ∃ r ∈ L.roots, ∃ (n : RecordName) (uuid : String), p = statePath r id (n.temporary uuid)

theorem not_scratch {extension : String} (h : extension ∈
    ["part", "folder.part", "json", "manifest.json", "commit.json", "done.json"]) :
    ¬ Scratch L id (statePath r id extension) := by
  rintro ⟨r', -, n, uuid, he⟩
  exact n.temporary_ne uuid extension h (stateName_inj.mp (List.cons.inj he).1).symm

theorem not_scratch_record (n : RecordName) : ¬ Scratch L id (statePath r id n.extension) :=
  not_scratch (by cases n <;> simp [RecordName.extension])

theorem Scratch.inside {p : Path} (h : Scratch L id p) : L.Inside p := by
  obtain ⟨r, hr, n, uuid, rfl⟩ := h
  exact (L.owned_statePath hr id _).inside

/-- Nothing that lies in a state file's place is a document in the making. -/
theorem not_scratch_above {extension : String} {p : Path} (hr : r ∈ L.roots) (h : extension ∈
    ["part", "folder.part", "json", "manifest.json", "commit.json", "done.json"])
    (hp : statePath r id extension <:+ p) : ¬ Scratch L id p := by
  rintro ⟨r', hr', n, uuid, rfl⟩
  have hname := Layout.statePath_suffix hr hr' hp
  exact n.temporary_ne uuid extension h (stateName_inj.mp hname).symm

namespace Layout

theorem Sound.of_frame {t t' : FileTree Contents} (h : L.Sound t)
    (hframe : ∀ q, ¬ L.Inside q → t'.get q = t.get q)
    (hplain : ∀ q, L.Inside q → ∀ n, t'.get q = some n → n = .dir ∨ ∃ d, n = .file d) :
    L.Sound t' :=
  ⟨fun r hr q hq hne => (hframe q (not_inside_chain hr hq)).trans (h.chain r hr q hq hne), hplain⟩

theorem Sound.sets {t t' : FileTree Contents} {p : Path} {v : Option (Node Contents)}
    (h : L.Sound t) (hs : Sets t t' p v) (hp : L.Inside p)
    (hv : ∀ n, v = some n → n = .dir ∨ ∃ d, n = .file d) : L.Sound t' := by
  refine h.of_frame (fun q hq => hs.off fun he => hq (he ▸ hp)) fun q hq n hn => ?_
  rw [hs q] at hn
  split at hn
  · exact hv n hn
  · exact h.plain q hq n hn

theorem Sound.real_state {t : FileTree Contents} (h : L.Sound t) (hr : r ∈ L.roots) (name : String) :
    t.Real (name :: stateDirectory :: r) := by
  intro q hq hne
  by_cases hn : q = []
  · exact .inl hn
  · exact .inr (h.chain r hr q ((List.suffix_cons_iff.mp hq).resolve_left hne) hn)

end Layout

theorem statePath_ne_nil (extension : String) : statePath r id extension ≠ [] := List.cons_ne_nil _ _

theorem statePath_inj {a b : String} : statePath r id a = statePath r id b ↔ a = b := by
  rw [statePath, statePath, List.cons.injEq, stateName_inj]
  simp

theorem not_suffix_statePath {a b : String} (h : a ≠ b) :
    ¬ statePath r id a <:+ statePath r id b := fun hs =>
  h (statePath_inj.mp (hs.eq_of_length rfl))

/-- Apart from files in the making, the worlds differ at one path at most. -/
structure Writes (L : Layout) (id : String) (w w' : World) (p : Path) (v : Option (Node Contents)) :
    Prop where
  sound : L.Sound w'.fs
  get : ∀ q, ¬ Scratch L id q → w'.fs.get q = if q = p then v else w.fs.get q

/-- The predicate does not look at files in the making. -/
def Blind (L : Layout) (id : String) (I : World → Prop) : Prop :=
  ∀ w w', I w → L.Sound w'.fs → (∀ q, ¬ Scratch L id q → w'.fs.get q = w.fs.get q) → I w'

theorem blind_true : Blind L id fun _ => True := fun _ _ _ _ _ => trivial

theorem Layout.Sound.writes {w' : World} {p : Path} {v : Option (Node Contents)} (h : L.Sound w.fs)
    (hs : Sets w.fs w'.fs p v) (hp : L.Inside p) (hv : ∀ n, v = some n → n = .dir ∨ ∃ d, n = .file d) :
    Writes L id w w' p v := ⟨h.sets hs hp hv, fun q _ => hs q⟩

theorem along_readJsonOptional {α : Type} {decode : Record → Option α} {Q : Option α → World → Prop}
    {p : Path} (hi : I w) (hp : w.fs.Real p) (h : (w.fs.get p = none ∧ Q none w) ∨
      ∃ record v, w.fs.get p = some (.file (.json record)) ∧ decode record = some v ∧ Q (some v) w) :
    Along I Q F (readJsonOptional decode p) w := by
  rw [readJsonOptional]
  rcases h with ⟨hn, hq⟩ | ⟨record, v, hn, hv, hq⟩
  · refine along_bind (Q := fun r w' => r = .error .notFound ∧ w' = w)
      (along_attempt_reads trivial (readFile_absent hp hn) hi ⟨rfl, rfl⟩) ?_
    rintro _ _ ⟨rfl, rfl⟩
    exact along_pure hq
  · refine along_bind (Q := fun r w' => r = .ok (.json record) ∧ w' = w)
      (along_attempt_reads trivial (readFile_file hn) hi ⟨rfl, rfl⟩) ?_
    rintro _ _ ⟨rfl, rfl⟩
    simp only [hv]
    exact along_pure hq

theorem along_removeIfExists {Q : Unit → World → Prop} {p : Path} (hp : w.fs.Real p)
    (hne : p ≠ []) (hd : w.fs.get p ≠ some .dir)
    (hq : ∀ w', Sets w.fs w'.fs p none → I w' ∧ Q () w') : Along I Q F (removeIfExists p) w := by
  rw [removeIfExists]
  cases hn : w.fs.get p with
  | none =>
    have hsame : Sets w.fs w.fs p none := fun q => by
      split
      · next h => rw [h, hn]
      · rfl
    refine along_bind (Q := fun r w' => r = .error .notFound ∧ w = w')
      (along_attempt_failed (unlink_absent hp hn) (hq w hsame).1 ⟨rfl, rfl⟩) ?_
    rintro _ _ ⟨rfl, rfl⟩
    exact along_pure (hq w hsame).2
  | some n =>
    obtain ⟨t, ht, hs⟩ := unlink_there hn hne fun he => hd (he ▸ hn)
    refine along_bind (Q := fun r w' => r = .ok () ∧ Q () w')
      (along_attempt_done ht fun w' hw' => ?_) ?_
    · have hs' : Sets w.fs w'.fs p none := hw' ▸ hs
      exact ⟨(hq w' hs').1, rfl, (hq w' hs').2⟩
    · rintro _ w' ⟨rfl, h⟩
      exact along_pure h

/-- The worlds differ in a file in the making only. -/
structure Making (L : Layout) (w w' : World) (p : Path) : Prop where
  sound : L.Sound w'.fs
  off : ∀ q, q ≠ p → w'.fs.get q = w.fs.get q

theorem Making.sets {w₁ w₂ : World} {p : Path} {d : Contents} (h : Making L w w₁ p) (hp : L.Inside p)
    (hs : Sets w₁.fs w₂.fs p (some (.file d))) : Making L w w₂ p :=
  ⟨h.sound.sets hs hp fun _ hn => .inr ⟨_, (Option.some.inj hn).symm⟩,
    fun q hq => (hs.off hq).trans (h.off q hq)⟩

theorem temporary_fresh (w : World) (r : Path) (id : String) (n : RecordName) :
    w.fs.get (statePath r id (n.temporary w.uuid)) = none := by
  refine World.get_long ?_
  rw [stateName, String.length_append, String.length_append, ← w.uuid_length]
  cases n <;> simp only [RecordName.temporary, String.length_append] <;> omega

/-- The rename puts the document in the place of the old one. -/
theorem Making.rename {w₁ w₂ : World} {n : RecordName} {temporary : Path} {v : Record}
    {t : FileTree Contents} (h : Making L w w₁ temporary) (hr : r ∈ L.roots)
    (hscratch : Scratch L id temporary) (hinside : L.Inside temporary)
    (hget : ∀ q, t.get q = if q = statePath r id n.extension then some (.file (.json v))
      else if q = temporary then none else w₁.fs.get q) (ht : w₂.fs = t) :
    Writes L id w w₂ (statePath r id n.extension) (some (.file (.json v))) := by
  subst ht
  refine ⟨h.sound.of_frame (fun q hq => ?_) fun q hq m hm => ?_, fun q hq => ?_⟩
  · have hqt : q ≠ temporary := fun he => hq (he ▸ hinside)
    have hqp : q ≠ statePath r id n.extension := fun he => hq (he ▸ (L.owned_statePath hr id _).inside)
    rw [hget, if_neg hqp, if_neg hqt]
  · rw [hget] at hm
    split at hm
    · exact .inr ⟨_, (Option.some.inj hm).symm⟩
    · split at hm
      · cases hm
      · exact h.sound.plain q hq m hm
  · have hqt : q ≠ temporary := fun he => hq (he ▸ hscratch)
    rw [hget, if_neg hqt]
    split
    · rfl
    · exact h.off q hqt

/-- A document appears whole, in place of the one before. -/
theorem along_atomicWriteJson {Q : Unit → World → Prop} {n : RecordName} {v : Record}
    (hid : StateId id) (hr : r ∈ L.roots) (hs : L.Sound w.fs) (hb : Blind L id I) (hi : I w)
    (hp : w.fs.get (statePath r id n.extension) ≠ some .dir)
    (hq : ∀ w', Writes L id w w' (statePath r id n.extension) (some (.file (.json v))) →
      I w' ∧ Q () w') : Along I Q F (atomicWriteJson (statePath r id n.extension) v) w := by
  rw [atomicWriteJson]
  simp only [temporary_path hid]
  refine along_bind (Q := fun uuid w' => uuid = w.uuid ∧ w'.fs = w.fs) (along_newUuid fun w' hw' =>
    ⟨hb w w' hi (hw' ▸ hs) fun q _ => by rw [hw'], rfl, hw'⟩) ?_
  rintro uuid w₁ ⟨rfl, h₁⟩
  have hfresh := temporary_fresh w r id n
  have hext : n.temporary w.uuid ≠ n.extension := fun he =>
    @not_scratch_record _ L r id n ⟨r, hr, n, w.uuid, by rw [he]⟩
  have hsrc := @not_suffix_statePath _ r id _ _ hext
  have hdst := @not_suffix_statePath _ r id _ _ hext.symm
  have hscratch : Scratch L id (statePath r id (n.temporary w.uuid)) := ⟨r, hr, n, w.uuid, rfl⟩
  have hinside : L.Inside (statePath r id (n.temporary w.uuid)) := (L.owned_statePath hr id _).inside
  have hreal : w.fs.Real (statePath r id (n.temporary w.uuid)) := hs.real_state hr _
  have hne : statePath r id (n.temporary w.uuid) ≠ [] := statePath_ne_nil _
  generalize statePath r id (n.temporary w.uuid) = temporary at *
  have hkeep : ∀ w', Making L w w' temporary → I w' := fun w' h =>
    hb w w' hi h.sound fun q hq => h.off q fun he => hq (he ▸ hscratch)
  -- the file in the making is created, filled and made durable
  have hm₁ : Making L w w₁ temporary := ⟨h₁ ▸ hs, fun q _ => by rw [h₁]⟩
  obtain ⟨t₂, ht₂, hset₂⟩ :=
    openAt_new (h₁ ▸ hreal) hne (h₁ ▸ hfresh) (o := { createNew := true }) (.inl rfl)
  refine along_bind (Q := fun _ w' => w'.fs = t₂) (along_fs_done ht₂ fun w' hw' =>
    ⟨hkeep w' (hm₁.sets hinside (hw' ▸ hset₂)), hw'⟩) ?_
  rintro - w₂ rfl
  have hm₂ := hm₁.sets hinside hset₂
  obtain ⟨t₃, ht₃, hset₃⟩ := editAt_file hset₂.at hne fun _ => Contents.json v
  refine along_bind (Q := fun _ w' => w'.fs = t₃) (along_fs_done ht₃ fun w' hw' =>
    ⟨hkeep w' (hm₂.sets hinside (hw' ▸ hset₃)), hw'⟩) ?_
  rintro - w₃ rfl
  have hm₃ := hm₂.sets hinside hset₃
  have hfile := hset₃.at
  refine along_bind (Q := fun _ w' => w₃ = w') (along_fs_reads trivial (a := ()) ?_ (hkeep w₃ hm₃) rfl) ?_
  · simp [FsOp.exec, stat_resolve hfile rfl, Except.map]
  rintro - _ rfl
  have htarget : w₃.fs.get (statePath r id n.extension) ≠ some .dir := by
    have hother : statePath r id n.extension ≠ temporary := fun he => not_scratch_record n (he ▸ hscratch)
    rw [hm₃.off _ hother]
    exact hp
  have hreal₃ : w₃.fs.Real (statePath r id n.extension) := hm₃.sound.real_state hr _
  obtain ⟨t₄, ht₄, hget₄⟩ := renameTo_file hfile hreal₃ hne (statePath_ne_nil _) htarget hsrc hdst
  refine along_bind (Q := fun r w' => r = .ok () ∧ Q () w') (along_attempt_done ht₄ fun w' hw' => ?_) ?_
  · have hwrites := hq w' (hm₃.rename hr hscratch hinside hget₄ hw')
    exact ⟨hwrites.1, rfl, hwrites.2⟩
  · rintro _ w' ⟨rfl, h⟩
    exact along_pure h

end InkHole
