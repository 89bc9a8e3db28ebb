import InkHole.Documents

/-! The records that a store writes: a destination in one of them is accepted when the record is
read again. -/

set_option linter.unusedSectionVars false

namespace InkHole

open Fallible TransferStore

/-! Records. -/

/-- A record that names a destination names one that is accepted when it is read again. -/
def Record.Accepted : Record → Prop
  | .commit c => validateDestinationName c.destination = .ok ()
  | .done d => validateDestinationName d.destination = .ok ()
  | _ => True

def Contents.Accepted : Contents → Prop
  | .json record => record.Accepted
  | .bytes _ => True

section Records

variable [Externals] {β : Type}

/-- A record that the call writes is accepted. -/
def Call.Records : Call β → Prop
  | .fs op => op.Fills Contents.Accepted
  | _ => True

variable {α : Type} {Q : α → Prop} {x : CoreM α}

theorem committable_accepted : Committable Contents.Accepted where
  bytes _ := trivial
  metadata _ := trivial
  manifest _ := trivial
  done _ _ _ h := h
  commit _ _ _ h := h

theorem Call.Fills.records {c : Call β} (h : c.Fills Contents.Accepted) : c.Records := by
  cases c <;> exact h

/-- Whatever the file system answers, an operation writes only records that are accepted. -/
theorem records_program (s : TransferStore) (op : Operation) :
    (op.program s).Uses Call.Records fun _ => True :=
  (fills_program committable_accepted s op).mono (fun _ h => h.records) fun _ h => h

/-- What every value of a program satisfies, the value of a run does. -/
theorem eval_uses {N : ∀ {δ : Type}, Call δ → Prop} {w : World} {a : α} (h : Uses N Q x)
    (he : eval x w = .ok a) : Q a := by
  have hrun : ∀ {γ : Type} {R : γ → Prop} (p : Program Call γ) (w : World), p.Uses N R → R (p.run w).1 := by
    intro γ R p
    induction p with
    | ret r => exact fun w h => h
    | call c k ih => exact fun w h => ih _ _ (h.2 _)
  exact hrun x.run w (uses_run.mp h) a he

/-! Runs. -/

/-- Every call writes accepted records only, and no lock is spoken of. -/
def recording : Protocol Call Unit Lock where
  allowed _ c := c.Records
  next _ _ _ := ()
  holds _ _ := False

/-- Operations of any stores run at once. Others may change the files, but write no record of their own. -/
def storing (m : Server) : Action Call World Unit → Prop
  | .spawn _ p => ∃ (s : TransferStore) (op : Operation), p = op.program s
  | .outside w => ∀ p record, w.fs.get p = some (.file (.json record)) →
    ∃ q, m.world.fs.get q = some (.file (.json record))
  | _ => True

theorem recording_locking : recording.Locking := fun _ _ _ _ _ h => h.elim

theorem Call.Records.changed {c : Call β} {w : World} (hc : c.Records) (h : w.fs.Holds Contents.Accepted) :
    (c.changed w).Holds Contents.Accepted := by
  cases c with
  | fs op => exact FsOp.exec_holds trivial hc h
  | _ => exact h

theorem storing_preserved : Machine.Preserved recording (fun _ _ => True) storing
    fun m _ => m.world.fs.Holds Contents.Accepted where
  spawn m τ i p ha h hr hi := by
    obtain ⟨s, op, rfl⟩ := hr
    have hfollows := Protocol.Follows.of_uses (P := recording) (S := fun _ => True) (records_program s op)
      (fun _ _ _ hc => ⟨hc, fun _ => trivial⟩) (t := ()) trivial
    exact ⟨(), hfollows.mono fun _ _ _ => trivial, fun _ h => h, h⟩
  call m τ i c k history ha h hr hi hfree := Call.Records.changed (ha.follows i _ hi).1 h
  fault m τ i c k history r ha h hr hi hfree hf := h
  finish m τ i a history ha h hr hi := h
  abort m τ i ha h hr hi := h
  crash m τ ha h hr := h
  outside m τ w ha h hr := by
    intro p d hd
    cases d with
    | bytes b => trivial
    | json record =>
      obtain ⟨q, hq⟩ := hr p record hd
      exact h q _ hq

/-- What a document that is read is decoded to. -/
def document {γ : Type} (decode : Record → Option γ) : Except IoError Contents → Except CoreError (Option γ)
  | .ok (.json record) =>
    match decode record with
    | some v => .ok (some v)
    | none => .error .json
  | .ok (.bytes _) => .error .json
  | .error .notFound => .ok none
  | .error e => .error (.io e)

theorem eval_readJsonOptional {γ : Type} (decode : Record → Option γ) (p : Path) (w : World) :
    eval (readJsonOptional decode p) w = document decode (w.fs.readFile p) := by
  have hread : Uses Call.Reads (fun _ => True) (CoreM.attempt (.read p)) := reads_attempt trivial
  rw [readJsonOptional, eval_bind hread]
  have hattempt : eval (CoreM.attempt (.read p)) w = .ok (w.fs.readFile p) := rfl
  rw [hattempt]
  cases w.fs.readFile p with
  | error e => cases e <;> rfl
  | ok d =>
    cases d with
    | bytes b => rfl
    | json record =>
      simp only [document, bind, Except.bind]
      cases decode record <;> rfl

theorem readJsonOptional_some {γ : Type} {decode : Record → Option γ} {p : Path} {w : World} {v : γ}
    (h : eval (readJsonOptional decode p) w = .ok (some v)) :
    ∃ q record, w.fs.resolve p = .ok q ∧ w.fs.get q = some (.file (.json record)) ∧ decode record = some v := by
  rw [eval_readJsonOptional, document.eq_def] at h
  split at h
  · next record hread =>
    split at h
    · next u hu =>
      obtain rfl := Option.some.inj (Except.ok.inj h)
      rw [FileTree.readFile] at hread
      split at hread
      · cases hread
      · next q hq =>
        split at hread
        · next d hd =>
          obtain rfl := Except.ok.inj hread
          exact ⟨q, record, hq, hd, hu⟩
        · cases hread
        · cases hread
    · cases h
  · cases h
  · cases h
  · cases h

/-- What a store wrote is what it reads. -/
theorem along_written {L : Layout} {r : Path} {id : String} {w : World} (n : RecordName) (record : Record)
    (hid : StateId id) (hr : r ∈ L.roots) (hs : L.Sound w.fs)
    (hp : w.fs.get (statePath r id n.extension) ≠ some .dir) :
    Along (fun _ => True) (fun _ w' => eval (readJsonOptional some (statePath r id n.extension)) w' =
      .ok (some record)) (fun _ _ => False) (atomicWriteJson (statePath r id n.extension) record) w := by
  refine along_atomicWriteJson hid hr hs blind_true trivial hp fun w' hw => ⟨trivial, ?_⟩
  have hget : w'.fs.get (statePath r id n.extension) = some (.file (.json record)) := by
    rw [hw.get _ (not_scratch_record n), if_pos rfl]
  rw [eval_readJsonOptional, FileTree.readFile_file hget]
  rfl

/-- In every run, a record that is read names a destination that is accepted. -/
theorem accepted_read {w : World} {m : Server} (hw : w.fs.Holds Contents.Accepted)
    (hr : Machine.Reachable storing (Machine.init w) m) {γ : Type} {decode : Record → Option γ} {p : Path}
    {v : γ} (h : eval (readJsonOptional decode p) m.world = .ok (some v)) :
    ∃ record : Record, decode record = some v ∧ record.Accepted := by
  obtain ⟨τ, -, hm⟩ := storing_preserved.reachable recording_locking (τ := fun _ => ()) hw hr
  obtain ⟨q, record, -, hq, hv⟩ := readJsonOptional_some h
  exact ⟨record, hv, hm q _ hq⟩

/-- A name that is allocated is free and is accepted in a record; every record that an operation
writes names such a destination, is what is read at its place afterwards, and is accepted whenever
it is read in a run. -/
theorem destinations_accepted :
    (∀ root raw w name, eval (uniqueDestination root (safeFilename raw)) w = .ok name →
      w.fs.Vacant (name :: root) ∧ validateDestinationName name = .ok ()) ∧
    (∀ (s : TransferStore) (op : Operation), (op.program s).Uses Call.Records fun _ => True) ∧
    (∀ (L : Layout) (r : Path) (id : String) (w : World) (n : RecordName) (record : Record),
      StateId id → r ∈ L.roots → L.Sound w.fs → w.fs.get (statePath r id n.extension) ≠ some .dir →
        Along (fun _ => True) (fun _ w' => eval (readJsonOptional some (statePath r id n.extension)) w' =
          .ok (some record)) (fun _ _ => False) (atomicWriteJson (statePath r id n.extension) record) w) ∧
    (∀ (w : World) (m : Server) (p : Path), w.fs.Holds Contents.Accepted →
      Machine.Reachable storing (Machine.init w) m →
        (∀ commit, eval (readJsonOptional Record.toCommit p) m.world = .ok (some commit) →
          validateDestinationName commit.destination = .ok ()) ∧
        (∀ done, eval (readJsonOptional Record.toDone p) m.world = .ok (some done) →
          validateDestinationName done.destination = .ok ())) := by
  refine ⟨fun root raw w name h => ⟨FileTree.vacant_of_exists (uniqueDestination_free h), ?_⟩,
    records_program, fun L r id w n record hid hr hs hp => along_written n record hid hr hs hp,
    fun w m p hw hr => ⟨fun commit h => ?_, fun done h => ?_⟩⟩
  · have huses := fills_uniqueDestination (P := Contents.Accepted) root raw
    exact eval_uses (Q := fun name => validateDestinationName name = .ok ()) huses h
  · obtain ⟨record, hv, ha⟩ := accepted_read hw hr h
    cases record with
    | commit c => exact Option.some.inj hv ▸ ha
    | _ => cases hv
  · obtain ⟨record, hv, ha⟩ := accepted_read hw hr h
    cases record with
    | done d => exact Option.some.inj hv ▸ ha
    | _ => cases hv

end Records

attribute [local instance] Sample.externals

theorem Sample.holds_accepted : Sample.world.fs.Holds Contents.Accepted := by
  have hentries : Sample.tree.entries = [(["old.txt", "inbox"], .file (.bytes [64])),
      ([stateDirectory, "inbox"], .dir), (["inbox"], .dir)] := rfl
  intro p d hp
  change Sample.tree.entries.lookup p = some (.file d) at hp
  rw [hentries] at hp
  simp only [List.lookup_cons, List.lookup_nil] at hp
  split at hp
  · cases hp
    trivial
  · split at hp
    · cases hp
    · split at hp <;> cases hp

/-- Beside a file of the name the next one gets a number. -/
theorem destinations_accepted_numbered :
    (Sample.world.fs.Vacant ["old (2).txt", "inbox"] ∧ validateDestinationName "old (2).txt" = .ok ()) ∧
      ∀ commit, eval (readJsonOptional Record.toCommit ["old.txt", "inbox"]) Sample.world = .ok (some commit) →
        validateDestinationName commit.destination = .ok () :=
  ⟨destinations_accepted.1 ["inbox"] "old.txt" Sample.world "old (2).txt" (by decide +kernel),
    (destinations_accepted.2.2.2 Sample.world (Machine.init Sample.world) ["old.txt", "inbox"]
      Sample.holds_accepted .refl).1⟩

end InkHole
