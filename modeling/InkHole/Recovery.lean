import InkHole.Preparing

/-! What a preparation does with a record that the same offer has left: the item is at the
destination of the record, nothing is there, or something else is. -/

set_option linter.unusedSectionVars false

namespace InkHole

open InkHole.CoreM Fallible FileTree TransferStore

namespace FileTree

variable {D : Type} {t t' : FileTree D} {p q : Path}

/-- No more than files are missing. -/
def LosesFiles (t t' : FileTree D) : Prop :=
  ∀ q, t'.get q = t.get q ∨ t'.get q = none ∧ (t.get q = none ∨ ∃ d, t.get q = some (.file d))

theorem losesFiles_sets (h : Sets t t' p none) (hp : t.get p ≠ some .dir)
    (hl : ∀ target, t.get p ≠ some (.symlink target)) (hs : t.get p ≠ some .special) : LosesFiles t t' := by
  intro q
  by_cases hq : q = p
  · subst hq
    refine .inr ⟨h.at, ?_⟩
    cases hn : t.get q with
    | none => exact .inl rfl
    | some n =>
      cases n with
      | file d => exact .inr ⟨d, rfl⟩
      | dir => exact absurd hn hp
      | symlink target => exact absurd hn (hl target)
      | special => exact absurd hn hs
  · exact .inl (h.off hq)

theorem LosesFiles.isDir (h : LosesFiles t t') (q : Path) : t'.isDir q = t.isDir q := by
  rw [Bool.eq_iff_iff, isDir_iff, isDir_iff]
  rcases h q with hq | ⟨hn, hq⟩
  · rw [hq]
  · rcases hq with hq | ⟨d, hq⟩ <;> simp [hn, hq]

theorem LosesFiles.symlink (h : LosesFiles t t') (q target : Path) :
    t'.get q = some (.symlink target) ↔ t.get q = some (.symlink target) := by
  rcases h q with hq | ⟨hn, hq⟩
  · rw [hq]
  · rcases hq with hq | ⟨d, hq⟩ <;> simp [hn, hq]

/-- A resolution goes the same way, or ends early where a file was. -/
def Leads (x y : Except IoError Path) : Prop :=
  (∀ q, x = .ok q → y = .ok q) ∧ (x = .error .notFound → y = .error .notFound)

theorem LosesFiles.resolveWith (h : LosesFiles t t') {follow follow' : Path → Except IoError Path}
    (hf : ∀ p, Leads (follow p) (follow' p)) (p : Path) :
    Leads (t.resolveWith follow p) (t'.resolveWith follow' p) := by
  induction p with
  | nil => exact ⟨fun _ hq => hq, fun hq => hq⟩
  | cons name p ih =>
    simp only [FileTree.resolveWith]
    cases hp : t.resolveWith follow p with
    | error e =>
      refine ⟨fun _ hq => (by cases hq), fun he => ?_⟩
      obtain rfl := Except.error.inj he
      rw [ih.2 hp]
    | ok q =>
      rw [ih.1 q hp]
      simp only [h.isDir q]
      split
      · have hsame : t'.get (name :: q) = t.get (name :: q) ∨ t'.get (name :: q) = none ∧
            ∀ target, t.get (name :: q) ≠ some (.symlink target) := by
          rcases h (name :: q) with hq | ⟨hn, hq⟩
          · exact .inl hq
          · exact .inr ⟨hn, fun target ht => by rcases hq with hq | ⟨d, hq⟩ <;> cases ht.symm.trans hq⟩
        rcases hsame with hq | ⟨hn, hl⟩
        · rw [hq]
          split
          · exact hf _
          · exact ⟨fun _ hq => hq, fun hq => by cases hq⟩
        · rw [hn]
          split
          · next target ht => exact absurd ht (hl target)
          · exact ⟨fun _ hq => hq, fun hq => by cases hq⟩
      · cases hn : t.get q with
        | none =>
          have hn' : t'.get q = none := by
            rcases h q with hq | ⟨hq, -⟩
            · rw [hq, hn]
            · exact hq
          simp [hn', Leads]
        | some n => exact ⟨fun _ hq => by simp at hq, fun hq => by simp at hq⟩

theorem LosesFiles.resolve (h : LosesFiles t t') (p : Path) : Leads (t.resolve p) (t'.resolve p) := by
  have hfuel : ∀ n p, Leads (t.resolveFuel n p) (t'.resolveFuel n p) := by
    intro n
    induction n with
    | zero => exact h.resolveWith fun _ => ⟨fun _ hq => hq, fun hq => hq⟩
    | succ n ih => exact h.resolveWith ih
  exact hfuel 40 p

theorem LosesFiles.exists? [FileData D] (h : LosesFiles t t') (hp : t.exists? p = .ok false) :
    t'.exists? p = .ok false := by
  have hleads := h.resolve p
  rw [FileTree.exists?] at hp ⊢
  cases hr : t.resolve p with
  | error e =>
    rw [hr] at hp
    cases e with
    | notFound => rw [hleads.2 hr]
    | _ => cases hp
  | ok q =>
    rw [hr] at hp
    rw [hleads.1 q hr]
    simp only [Except.ok.injEq, Bool.or_eq_false_iff, Option.isSome_eq_false_iff, Option.isNone_iff_eq_none] at hp
    have hn : t'.get q = none := by
      rcases h q with hq | ⟨hq, -⟩
      · rw [hq, hp.2]
      · exact hq
    simp [hp.1, hn]

end FileTree

section Replays

variable [Externals] {L : Layout} {w : World} {r : Path} {id : String} {s : TransferStore}
  {I : World → Prop} {F : CoreError → World → Prop} {expected : StoredOffer} {manifest : FolderManifest}

theorem eval_ok_of_along {α : Type} {x : CoreM α} {a : α}
    (h : Along I (fun v _ => v = a) (fun _ _ => False) x w) : eval x w = .ok a := by
  have hend := (along_run.mp h).run
  rw [eval]
  cases hr : (x.run.run w).1 with
  | ok v =>
    rw [hr] at hend
    exact congrArg Except.ok hend
  | error e =>
    rw [hr] at hend
    exact hend.elim

theorem eval_error_of_along {α : Type} {x : CoreM α} (h : Along I (fun _ _ => False) (fun _ _ => True) x w) :
    ∃ e, eval x w = .error e := by
  have hend := (along_run.mp h).run
  rw [eval]
  cases hr : (x.run.run w).1 with
  | ok v =>
    rw [hr] at hend
    exact hend.elim
  | error e => exact ⟨e, rfl⟩

theorem exec_tryExists (p : Path) (w : World) :
    ((FsOp.tryExists p : FsOp Contents Bool).exec w.fs).1 = w.fs.exists? p := rfl

/-- The file is there with this size and digest. -/
def FileAt (w : World) (p : Path) (size : Nat) (digest : String) : Prop :=
  ∃ c, w.fs.get p = some (.file c) ∧ FileData.size c = size ∧ Contents.blake3Hex c = digest

/-- The folder is there as the manifest lists it. -/
def FolderAt (w : World) (p : Path) (manifest : FolderManifest) : Prop :=
  w.fs.get p = some .dir ∧ Matches w.fs p manifest

theorem FileAt.congr {w' : World} {p : Path} {size : Nat} {digest : String} (h : FileAt w p size digest)
    (hp : w'.fs.get p = w.fs.get p) : FileAt w' p size digest := by
  obtain ⟨c, hc, h⟩ := h
  exact ⟨c, hp.trans hc, h⟩

theorem FolderAt.congr {w' : World} {p : Path} (h : FolderAt w p manifest)
    (hp : ∀ q, p <:+ q → w'.fs.get q = w.fs.get q) : FolderAt w' p manifest := by
  refine ⟨(hp p List.suffix_rfl).trans h.1, fun e he => ?_, fun q hq hn => ?_⟩
  · rw [hp _ (suffix_place p e.path)]
    exact h.2.there e he
  · exact h.2.only q hq (hp (q ++ p) (List.suffix_append q p) ▸ hn)

theorem FileAt.exists? {p : Path} {size : Nat} {digest : String} (h : FileAt w p size digest) :
    w.fs.exists? p = .ok true := by
  obtain ⟨c, hc, -⟩ := h
  exact exists?_of_get hc rfl

theorem FolderAt.exists? {p : Path} (h : FolderAt w p manifest) : w.fs.exists? p = .ok true :=
  exists?_of_get h.1 rfl

theorem eval_ensureFileDestination {p : Path} {size : Nat} {digest : String} (hreal : w.fs.Real p) (hp : p ≠ []) :
    eval (ensureFileDestination p size digest) w = .ok () ↔ FileAt w p size digest := by
  rw [ensureFileDestination]
  cases hn : w.fs.get p with
  | none =>
    have hstat : ((FsOp.symlinkMetadata p : FsOp Contents Metadata).exec w.fs).1 = .error .notFound :=
      stat_locate_absent hreal hp hn
    constructor
    · intro h
      rw [eval_fs_bind (.symlinkMetadata p) trivial, hstat] at h
      cases h
    · rintro ⟨c, hc, -⟩
      cases hn.symm.trans hc
  | some n =>
    rw [eval_symlinkMetadata_bind hn, eval_throwIf_bind]
    by_cases hk : n.stat.kind = .file
    · obtain ⟨c, rfl⟩ : ∃ c, n = .file c := by
        cases n with
        | file c => exact ⟨c, rfl⟩
        | _ => cases hk
      have hat : FileAt w p size digest ↔ FileData.size c = size ∧ c.blake3Hex = digest := by
        constructor
        · rintro ⟨c', hc', h⟩
          obtain rfl := Node.file.inj (Option.some.inj (hn.symm.trans hc'))
          exact h
        · exact fun h => ⟨c, hn, h⟩
      rw [if_neg (not_not.mpr hk), eval_throwIf_bind, eval_blake3FileHex_bind hn, eval_throwIf, hat]
      by_cases hs : FileData.size c = size
      · by_cases hd : c.blake3Hex = digest <;> simp [Node.stat, hs, hd]
      · simp [Node.stat, hs]
    · rw [if_pos hk]
      constructor
      · intro h
        cases h
      · rintro ⟨c, hc, -⟩
        obtain rfl := Option.some.inj (hn.symm.trans hc)
        exact absurd rfl hk

/-! The record of a transfer that is done. -/

theorem eval_validateCompleted {v : DoneRecord} {p : Path} (hname : validateDestinationName v.destination = .ok ())
    (hp : v.destination :: s.destinationRootStored v.offer = p) :
    eval (s.validateCompleted v) w = (w.fs.exists? p).mapError CoreError.io >>= fun there =>
      if there then eval (ensureFileDestination p v.receipt.size v.receipt.blake3) w >>= fun _ =>
        .ok (some ⟨v.receipt, p⟩)
      else .ok none := by
  rw [validateCompleted]
  change eval (liftM (validateDestinationName v.destination) >>= fun _ => _) w = _
  rw [eval_lift_bind, hname, hp]
  change eval (CoreM.fs (.tryExists p) >>= fun there => _) w = _
  rw [eval_fs_bind (FsOp.tryExists p) trivial, exec_tryExists]
  cases hex : w.fs.exists? p with
  | error e => rfl
  | ok there =>
    cases there with
    | false => rfl
    | true => exact eval_bind (reads_ensureFileDestination _ _ _) w

theorem eval_validateCompletedFolder {v : DoneRecord} {p : Path}
    (hname : validateDestinationName v.destination = .ok ()) (hm : v.manifest = some manifest)
    (hp : v.destination :: s.destinationRootStored v.offer = p) :
    eval (s.validateCompletedFolder v) w = (w.fs.exists? p).mapError CoreError.io >>= fun there =>
      if there then eval (validateFolderContents p manifest) w >>= fun _ => .ok (some ⟨v.receipt, p⟩)
      else .ok none := by
  rw [validateCompletedFolder]
  change eval (liftM (validateDestinationName v.destination) >>= fun _ => _) w = _
  rw [eval_lift_bind, hname, hm, hp]
  change eval (CoreM.fs (.tryExists p) >>= fun there => _) w = _
  rw [eval_fs_bind (FsOp.tryExists p) trivial, exec_tryExists]
  cases hex : w.fs.exists? p with
  | error e => rfl
  | ok there =>
    cases there with
    | false => rfl
    | true => exact eval_bind (reads_validateFolderContents _ _) w

/-- What is at a destination is looked at only if something is there. -/
theorem checked_some_iff {there : Except IoError Bool} {check : Except CoreError Unit} {completed c : CompletedTransfer} :
    (there.mapError CoreError.io >>= fun b => if b then check >>= fun _ => .ok (some completed) else .ok none) =
      .ok (some c) ↔ there = .ok true ∧ check = .ok () ∧ c = completed := by
  cases there with
  | error e => simp [Except.mapError, bind, Except.bind]
  | ok b => cases b <;> cases check <;> simp [Except.mapError, bind, Except.bind, eq_comm]

theorem checked_none_iff {there : Except IoError Bool} {check : Except CoreError Unit} {completed : CompletedTransfer} :
    (there.mapError CoreError.io >>= fun b => if b then check >>= fun _ => .ok (some completed) else .ok none) =
      .ok none ↔ there = .ok false := by
  cases there with
  | error e => simp [Except.mapError, bind, Except.bind]
  | ok b => cases b <;> cases check <;> simp [Except.mapError, bind, Except.bind]

theorem completed_file_iff {v : DoneRecord} {p : Path} (hname : validateDestinationName v.destination = .ok ())
    (hp : v.destination :: s.destinationRootStored v.offer = p) (hreal : w.fs.Real p) (c : CompletedTransfer) :
    eval (s.validateCompleted v) w = .ok (some c) ↔
      FileAt w p v.receipt.size v.receipt.blake3 ∧ c = ⟨v.receipt, p⟩ := by
  have hne : p ≠ [] := hp ▸ List.cons_ne_nil _ _
  rw [eval_validateCompleted hname hp, checked_some_iff, eval_ensureFileDestination hreal hne]
  exact ⟨fun h => h.2, fun h => ⟨h.1.exists?, h⟩⟩

theorem completed_none_iff {v : DoneRecord} {p : Path} (hname : validateDestinationName v.destination = .ok ())
    (hp : v.destination :: s.destinationRootStored v.offer = p) :
    eval (s.validateCompleted v) w = .ok none ↔ w.fs.exists? p = .ok false := by
  rw [eval_validateCompleted hname hp, checked_none_iff]

theorem completed_folder_iff {v : DoneRecord} {p : Path} {size : Nat}
    (hname : validateDestinationName v.destination = .ok ()) (hm : v.manifest = some manifest)
    (hp : v.destination :: s.destinationRootStored v.offer = p) (hv : manifest.validate = .ok size)
    (hnamed : w.fs.Named p) (hreal : w.fs.Real p) (c : CompletedTransfer) :
    eval (s.validateCompletedFolder v) w = .ok (some c) ↔ FolderAt w p manifest ∧ c = ⟨v.receipt, p⟩ := by
  have hne : p ≠ [] := hp ▸ List.cons_ne_nil _ _
  rw [eval_validateCompletedFolder hname hm hp, checked_some_iff, eval_validateFolderContents hv hne hnamed hreal]
  exact ⟨fun h => h.2, fun h => ⟨FolderAt.exists? h.1, h⟩⟩

theorem completed_folder_none_iff {v : DoneRecord} {p : Path}
    (hname : validateDestinationName v.destination = .ok ()) (hm : v.manifest = some manifest)
    (hp : v.destination :: s.destinationRootStored v.offer = p) :
    eval (s.validateCompletedFolder v) w = .ok none ↔ w.fs.exists? p = .ok false := by
  rw [eval_validateCompletedFolder hname hm hp, checked_none_iff]

theorem along_ensureSameOffer {Q : Unit → World → Prop} (hq : Q () w) :
    Along I Q F (liftM (ensureSameOffer expected expected) : CoreM Unit) w := by
  rw [ensureSameOffer, if_neg (not_not.mpr rfl)]
  exact along_lift (fun _ _ => hq) fun e he => by cases he

theorem along_ensureSameManifest {Q : Unit → World → Prop} (hq : Q () w) :
    Along I Q F (liftM (ensureSameManifest manifest (some manifest)) : CoreM Unit) w := by
  rw [ensureSameManifest, if_neg (not_not.mpr rfl)]
  exact along_lift (fun _ _ => hq) fun e he => by cases he

theorem along_replayDone {v : DoneRecord} {Q : Option CompletedTransfer → World → Prop} (hs : L.Sound w.fs)
    (hr : r ∈ L.roots) (hi : I w) (hn : w.record r id .done = some (.file (.json (.done v))))
    (hthere : ∀ c, eval (s.validateCompleted v) w = .ok (some c) → Q (some c) w)
    (hgone : eval (s.validateCompleted v) w = .ok none →
      ∀ w', Sets w.fs w'.fs (statePath r id "done.json") none → I w' ∧ Q none w')
    (hfail : ∀ e, eval (s.validateCompleted v) w = .error e → F e w) :
    Along I Q F (s.replayDone v.offer (statePaths r id)) w := by
  rw [replayDone]
  refine along_bind (Q := fun a w' => a = some v ∧ w = w')
    (along_readRecord (n := .done) hi hn rfl ⟨rfl, rfl⟩) ?_
  rintro _ _ ⟨rfl, rfl⟩
  refine along_bind (Q := fun _ w' => w = w') (along_ensureSameOffer rfl) ?_
  rintro _ _ rfl
  refine along_bind (Q := fun a w' => eval (s.validateCompleted v) w = .ok a ∧ w = w')
    (along_of_reads (reads_validateCompleted s v) hi (fun a ha => ⟨ha, rfl⟩) hfail) ?_
  rintro a _ ⟨ha, rfl⟩
  cases a with
  | some c => exact along_pure (hthere c ha)
  | none =>
    have hnot : w.fs.get (statePath r id "done.json") ≠ some .dir := fun h => by cases hn.symm.trans h
    refine along_bind (Q := fun _ w' => Q none w') (along_removeIfExists (hs.real_state hr _) (statePath_ne_nil _) hnot
      (hgone ha)) fun _ w' h' => along_pure h'

theorem along_replayFolderDone {v : DoneRecord} {Q : Option CompletedTransfer → World → Prop} (hs : L.Sound w.fs)
    (hr : r ∈ L.roots) (hi : I w) (hn : w.record r id .done = some (.file (.json (.done v))))
    (hm : v.manifest = some manifest)
    (hthere : ∀ c, eval (s.validateCompletedFolder v) w = .ok (some c) → Q (some c) w)
    (hgone : eval (s.validateCompletedFolder v) w = .ok none →
      ∀ w', Sets w.fs w'.fs (statePath r id "done.json") none → I w' ∧ Q none w')
    (hfail : ∀ e, eval (s.validateCompletedFolder v) w = .error e → F e w) :
    Along I Q F (s.replayFolderDone v.offer manifest (statePaths r id)) w := by
  rw [replayFolderDone]
  refine along_bind (Q := fun a w' => a = some v ∧ w = w')
    (along_readRecord (n := .done) hi hn rfl ⟨rfl, rfl⟩) ?_
  rintro _ _ ⟨rfl, rfl⟩
  refine along_bind (Q := fun _ w' => w = w') (along_ensureSameOffer rfl) ?_
  rintro _ _ rfl
  refine along_bind (Q := fun _ w' => w = w') (hm ▸ along_ensureSameManifest rfl) ?_
  rintro _ _ rfl
  refine along_bind (Q := fun a w' => eval (s.validateCompletedFolder v) w = .ok a ∧ w = w')
    (along_of_reads (reads_validateCompletedFolder s v) hi (fun a ha => ⟨ha, rfl⟩) hfail) ?_
  rintro a _ ⟨ha, rfl⟩
  cases a with
  | some c => exact along_pure (hthere c ha)
  | none =>
    have hnot : w.fs.get (statePath r id "done.json") ≠ some .dir := fun h => by cases hn.symm.trans h
    refine along_bind (Q := fun _ w' => Q none w') (along_removeIfExists (hs.real_state hr _) (statePath_ne_nil _) hnot
      (hgone ha)) fun _ w' h' => along_pure h'

/-! The record of a transfer that is being committed, when nothing has its name. -/

theorem along_replayCommit_gone {v : CommitRecord} {Q : Option CompletedTransfer → World → Prop} (hi : I w)
    (hn : w.record r id .commit = some (.file (.json (.commit v))))
    (hname : validateDestinationName v.destination = .ok ())
    (hfree : w.fs.exists? (v.destination :: s.destinationRootStored v.offer) = .ok false) (hq : Q none w) :
    Along I Q F (s.replayCommit v.offer (statePaths r id)) w := by
  rw [replayCommit]
  refine along_bind (Q := fun a w' => a = some v ∧ w = w')
    (along_readRecord (n := .commit) hi hn rfl ⟨rfl, rfl⟩) ?_
  rintro _ _ ⟨rfl, rfl⟩
  refine along_bind (Q := fun _ w' => w = w') (along_ensureSameOffer rfl) ?_
  rintro _ _ rfl
  rw [recoverCommit]
  refine along_bind (Q := fun _ w' => w = w') (along_lift (fun _ _ => rfl) fun e he => by cases hname.symm.trans he) ?_
  rintro _ _ rfl
  refine along_bind (Q := fun there w' => there = false ∧ w = w')
    (along_fs_reads trivial hfree hi ⟨rfl, rfl⟩) ?_
  rintro _ _ ⟨rfl, rfl⟩
  exact along_pure hq

theorem along_replayFolderCommit_gone {v : CommitRecord} {Q : Option CompletedTransfer → World → Prop} (hi : I w)
    (hn : w.record r id .commit = some (.file (.json (.commit v)))) (hm : v.manifest = some manifest)
    (hname : validateDestinationName v.destination = .ok ())
    (hfree : w.fs.exists? (v.destination :: s.destinationRootStored v.offer) = .ok false) (hq : Q none w) :
    Along I Q F (s.replayFolderCommit v.offer manifest (statePaths r id)) w := by
  rw [replayFolderCommit]
  refine along_bind (Q := fun a w' => a = some v ∧ w = w')
    (along_readRecord (n := .commit) hi hn rfl ⟨rfl, rfl⟩) ?_
  rintro _ _ ⟨rfl, rfl⟩
  refine along_bind (Q := fun _ w' => w = w') (along_ensureSameOffer rfl) ?_
  rintro _ _ rfl
  refine along_bind (Q := fun _ w' => w = w') (hm ▸ along_ensureSameManifest rfl) ?_
  rintro _ _ rfl
  rw [recoverFolderCommit]
  refine along_bind (Q := fun _ w' => w = w') (along_lift (fun _ _ => rfl) fun e he => by cases hname.symm.trans he) ?_
  rintro _ _ rfl
  rw [hm]
  refine along_bind (Q := fun there w' => there = false ∧ w = w')
    (along_fs_reads trivial hfree hi ⟨rfl, rfl⟩) ?_
  rintro _ _ ⟨rfl, rfl⟩
  exact along_pure hq

/-! Documents that the offer has left. -/

theorem along_keepMetadata {Q : Unit → World → Prop} (hi : I w)
    (hn : w.record r id .metadata = some (.file (.json (.metadata expected)))) (hq : Q () w) :
    Along I Q F (keepMetadata expected (statePaths r id)) w := by
  rw [keepMetadata]
  refine along_bind (Q := fun v w' => v = some expected ∧ w = w')
    (along_readRecord (n := .metadata) hi hn rfl ⟨rfl, rfl⟩) ?_
  rintro _ _ ⟨rfl, rfl⟩
  exact along_ensureSameOffer hq

theorem along_keepFolderMetadata {Q : Unit → World → Prop} (hi : I w)
    (hn : w.record r id .metadata = some (.file (.json (.metadata expected))))
    (hm : w.record r id .manifest = some (.file (.json (.manifest manifest)))) (hq : Q () w) :
    Along I Q F (keepFolderMetadata expected manifest (statePaths r id)) w := by
  rw [keepFolderMetadata]
  refine along_bind (Q := fun v w' => v = some expected ∧ w = w')
    (along_readRecord (n := .metadata) hi hn rfl ⟨rfl, rfl⟩) ?_
  rintro _ _ ⟨rfl, rfl⟩
  refine along_bind (Q := fun _ w' => w = w') (along_ensureSameOffer rfl) ?_
  rintro _ _ rfl
  refine along_bind (Q := fun v w' => v = some manifest ∧ w = w')
    (along_readRecord (n := .manifest) hi hm rfl ⟨rfl, rfl⟩) ?_
  rintro _ _ ⟨rfl, rfl⟩
  exact along_ensureSameManifest hq

end Replays

end InkHole
