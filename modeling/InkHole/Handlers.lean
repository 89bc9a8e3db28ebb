import InkHole.Conduct

/-! The handlers follow the conduct, whatever the file system, the sender and the other
threads do. -/

set_option linter.unusedSectionVars false

namespace InkHole

open Fallible TransferStore

variable [Externals] {α β : Type} {L : Layout}

/-- The store has a place for the state of the offer. -/
structure Site (L : Layout) (s : TransferStore) (offer : TransferOffer) : Prop where
  stateId : StateId offer.transferId
  root : s.destinationRoot offer ∈ L.roots

def role (s : TransferStore) (offer : TransferOffer) (phase : Phase) (length : Option Nat) : Role :=
  .handling ⟨s, offer, phase, length⟩

/-- In a phase, whatever is known of the length of the part. -/
def At (s : TransferStore) (offer : TransferOffer) (phase : Phase) (t : Role) : Prop :=
  ∃ length, t = role s offer phase length

variable {s : TransferStore} {offer : TransferOffer}

section Rules

variable {T : Type} {P : Protocol Call T Lock} {t : T} {F : CoreError → T → Prop} {op : FsOp Contents β}

theorem follows_attempt {Q : Except IoError β → T → Prop} (ha : P.allowed t (.fs op))
    (hq : ∀ r, Q r (P.next t (.fs op) r)) : Follows P Q F t (CoreM.attempt op) := follows_run.mpr ⟨ha, hq⟩

theorem follows_fs {Q : β → T → Prop} (ha : P.allowed t (.fs op)) (hq : ∀ v, Q v (P.next t (.fs op) (.ok v)))
    (hf : ∀ e, F (.io e) (P.next t (.fs op) (.error e))) : Follows P Q F t (CoreM.fs op) := by
  refine follows_run.mpr ⟨ha, fun r => ?_⟩
  cases r with
  | ok v => exact hq v
  | error e => exact hf e

theorem follows_throwIf {Q : Unit → T → Prop} {bad : Prop} [Decidable bad] {e : CoreError}
    (hq : ¬ bad → Q () t) (hf : bad → F e t) : Follows P Q F t (CoreM.throwIf bad e) := by
  rw [CoreM.throwIf]
  split
  · next h => exact follows_throw (hf h)
  · next h => exact follows_pure (hq h)

theorem follows_emit {Q : Unit → T → Prop} {e : TransferEvent} (ha : P.allowed t (.emit e))
    (hq : Q () (P.next t (.emit e) ())) : Follows P Q F t (CoreM.emit e) := follows_run.mpr ⟨ha, fun _ => hq⟩

/-- An error told to the sender is the error returned. -/
theorem follows_telling {Q : α → T → Prop} {x : CoreM α} (hx : Follows P Q F t x)
    (hf : ∀ e t, F e t → P.allowed t (.respond (.rejected e)) ∧ ∀ r, P.next t (.respond (.rejected e)) r = t) :
    Follows P Q F t (CoreM.rejecting x) := by
  rw [follows_run] at hx ⊢
  rw [CoreM.rejecting, ExceptT.run_mk, Protocol.follows_bind]
  refine hx.mono fun r t hr => ?_
  cases r with
  | ok a => exact hr
  | error e =>
    obtain ⟨hallowed, hnext⟩ := hf e t hr
    refine ⟨hallowed, fun r => ?_⟩
    rw [hnext]
    exact hr

end Rules

theorem follows_respond {Q : Unit → Role → Prop} {F : CoreError → Role → Prop} {t : Role}
    {response : TransferResponse} (ha : (conduct L).allowed t (.respond response)) (hq : Q () t)
    (hf : ∀ e, F (.io e) t) : Follows (conduct L) Q F t (CoreM.respond response) := by
  have ht : ∀ r, (conduct L).next t (.respond response) r = t := by
    intro r
    cases t <;> rfl
  refine follows_run.mpr ⟨ha, fun r => ?_⟩
  rw [ht]
  cases r with
  | ok _ => exact hq
  | error e => exact hf e

theorem follows_rejecting {Q : α → Role → Prop} {F : CoreError → Role → Prop} {t : Role} {x : CoreM α}
    (hx : Follows (conduct L) Q F t x)
    (hf : ∀ e t, F e t → (conduct L).allowed t (.respond (.rejected e))) :
    Follows (conduct L) Q F t (CoreM.rejecting x) :=
  follows_telling hx fun e t he => ⟨hf e t he, fun _ => by cases t <;> rfl⟩

theorem next_fs (phase : Phase) (length : Option Nat) (op : FsOp Contents β) (r : Except IoError β) :
    (conduct L).next (role s offer phase length) (.fs op) r =
      role s offer
        (Handling.afterOp phase (statePath (s.destinationRoot offer) offer.transferId "commit.json") op r)
        (Handling.lengthAfterOp length (statePath (s.destinationRoot offer) offer.transferId "part")
          op r) := rfl

/-- Calls on the own state files leave the phase as it is, except while the commit record
is looked for. -/
theorem tame_stays {phase : Phase}
    (hp : phase = .working ∨ (∃ d, phase = .renamed d) ∨ phase = .skipped) {δ : Type} (t : Role)
    (c : Call δ) (ht : At s offer phase t) (hc : L.Tame offer.transferId c) :
    (conduct L).allowed t c ∧ ∀ r, At s offer phase ((conduct L).next t c r) := by
  obtain ⟨length, rfl⟩ := ht
  have hsteady : Handling.steady phase = true := by
    rcases hp with rfl | ⟨d, rfl⟩ | rfl <;> rfl
  have hexclusive : phase.exclusive = true := by
    rcases hp with rfl | ⟨d, rfl⟩ | rfl <;> rfl
  have habsent : ∀ d, phase ≠ .absent d := by
    rintro d rfl
    cases hsteady
  cases c with
  | fs op =>
    refine ⟨?_, fun r => ⟨_, (next_fs ..).trans (by rw [Handling.afterOp_steady hsteady])⟩⟩
    · rcases hp with rfl | ⟨d, rfl⟩ | rfl
      · exact .inl hc
      · exact hc
      · exact hc
  | newUuid => exact ⟨habsent, fun r => ⟨length, rfl⟩⟩
  | lock ℓ => exact hc.elim
  | unlock ℓ => exact hc.elim
  | emit e =>
    cases e with
    | received => exact hc.elim
    | progress p => exact ⟨habsent, fun r => ⟨length, rfl⟩⟩
    | status error => exact ⟨habsent, fun r => ⟨length, rfl⟩⟩
  | respond response =>
    cases response with
    | complete receipt => exact hc.elim
    | resume offset => exact ⟨habsent, fun r => ⟨length, rfl⟩⟩
    | folderResume i offset completed => exact ⟨habsent, fun r => ⟨length, rfl⟩⟩
    | rejected e => exact ⟨habsent, fun r => ⟨length, rfl⟩⟩

theorem follows_tame {V : α → Prop} {x : CoreM α} {phase : Phase}
    (hp : phase = .working ∨ (∃ d, phase = .renamed d) ∨ phase = .skipped)
    (hx : Uses (L.Tame offer.transferId) V x) {t : Role} (ht : At s offer phase t) :
    Follows (conduct L) (fun a t' => V a ∧ At s offer phase t') (fun _ t' => At s offer phase t') t x :=
  Follows.of_uses hx (tame_stays hp) ht

/-- While the commit record is looked for, it is asked for names that are free. -/
theorem looks_stay {δ : Type} (t : Role) (c : Call δ) (ht : At s offer .committing t)
    (hc : c.Looks) :
    (conduct L).allowed t c ∧ ∀ r, At s offer .committing ((conduct L).next t c r) := by
  obtain ⟨length, rfl⟩ := ht
  cases c with
  | fs op =>
    cases op with
    | tryExists p =>
      refine ⟨trivial, fun r => ⟨length, ?_⟩⟩
      cases r <;> rfl
    | _ => exact hc.elim
  | _ => exact hc.elim

/-! Under the commit lock. -/

/-- The phase of a commit that failed. -/
def Failed (s : TransferStore) (offer : TransferOffer) (t : Role) : Prop :=
  ∃ phase, phase.critical = true ∧ (∀ d, phase ≠ .absent d) ∧ At s offer phase t

theorem At.failed {phase : Phase} {t : Role} (h : At s offer phase t) (hc : phase.critical = true)
    (ha : ∀ d, phase ≠ .absent d) : Failed s offer t := ⟨phase, hc, ha, h⟩

/-- What is found of an old commit record decides where the commit goes on. -/
theorem follows_readCommit {t : Role} (ht : At s offer .committing t) :
    Follows (conduct L) (fun found t => At s offer (if found.isSome then .recorded else .committing) t)
      (fun _ t => Failed s offer t) t
      (readJsonOptional Record.toCommit
        (statePath (s.destinationRoot offer) offer.transferId "commit.json")) := by
  obtain ⟨length, rfl⟩ := ht
  rw [readJsonOptional]
  refine follows_bind (Q := fun r t => t = role s offer (Handling.afterRead .committing r) length)
    (follows_attempt trivial fun r => ?_) ?_
  · simp only [next_fs, Handling.afterOp, if_true]
    rfl
  · rintro r t rfl
    have hc : Failed s offer (role s offer .committing length) :=
      At.failed ⟨length, rfl⟩ rfl (by simp)
    cases r with
    | error e =>
      cases e with
      | notFound => exact follows_pure ⟨length, rfl⟩
      | _ => exact follows_throw hc
    | ok contents =>
      cases contents with
      | bytes b => exact follows_throw hc
      | json record =>
        cases record with
        | commit commit => exact follows_pure ⟨length, rfl⟩
        | metadata _ => exact follows_throw hc
        | manifest _ => exact follows_throw hc
        | done _ => exact follows_throw hc

theorem follows_writeCommit (hs : Site L s offer) (value : Record) {t : Role}
    (ht : At s offer .committing t) :
    Follows (conduct L) (fun _ t => At s offer .recorded t) (fun _ t => Failed s offer t) t
      (atomicWriteJson (statePath (s.destinationRoot offer) offer.transferId "commit.json") value) := by
  have hc : ∀ length, Failed s offer (role s offer .committing length) := fun length =>
    At.failed ⟨length, rfl⟩ rfl (by simp)
  have howned : ∀ extension,
      L.Owned offer.transferId (statePath (s.destinationRoot offer) offer.transferId extension) :=
    fun extension => L.owned_statePath hs.root _ _
  obtain ⟨length, rfl⟩ := ht
  rw [atomicWriteJson]
  refine follows_bind (Q := fun _ t => At s offer .committing t)
    (follows_run.mpr ⟨fun d h => (by cases h), fun r => ⟨length, rfl⟩⟩) ?_
  rintro uuid t ⟨length, rfl⟩
  rw [show statePath (s.destinationRoot offer) offer.transferId "commit.json" =
      statePath (s.destinationRoot offer) offer.transferId RecordName.commit.extension from rfl,
    temporary_path hs.stateId]
  have hrename : L.TameOp offer.transferId
      (.rename (statePath (s.destinationRoot offer) offer.transferId (RecordName.commit.temporary uuid))
        (statePath (s.destinationRoot offer) offer.transferId RecordName.commit.extension)) :=
    ⟨_, hs.root, .commit, uuid, rfl, rfl⟩
  refine follows_bind (Q := fun _ t => At s offer .committing t)
    (follows_fs (howned _) (fun _ => ⟨_, next_fs ..⟩) fun _ => hc _) ?_
  rintro _ t ⟨length, rfl⟩
  refine follows_bind (Q := fun _ t => At s offer .committing t)
    (follows_fs ⟨howned _, fun _ _ => not_part_temporary _ _⟩ (fun _ => ⟨_, next_fs ..⟩) fun _ => hc _) ?_
  rintro _ t ⟨length, rfl⟩
  refine follows_bind (Q := fun _ t => At s offer .committing t)
    (follows_fs trivial (fun _ => ⟨_, next_fs ..⟩) fun _ => hc _) ?_
  rintro _ t ⟨length, rfl⟩
  have hmoved : ∀ length (r : Except IoError Unit), At s offer
      (if r.toBool then .recorded else .committing)
      ((conduct L).next (role s offer .committing length) (.fs (.rename
        (statePath (s.destinationRoot offer) offer.transferId (RecordName.commit.temporary uuid))
        (statePath (s.destinationRoot offer) offer.transferId RecordName.commit.extension))) r) := by
    intro length r
    cases r with
    | ok _ => exact ⟨length, by simp [next_fs, Handling.afterOp, Handling.afterRename, RecordName.extension,
        Handling.lengthAfterOp, Except.toBool]⟩
    | error e => exact ⟨length, rfl⟩
  refine follows_bind (follows_attempt hrename (hmoved length)) fun first t ht => ?_
  cases first with
  | ok _ => exact follows_pure ht
  | error e =>
    obtain ⟨length, rfl⟩ := ht
    refine follows_bind (Q := fun _ t => At s offer .committing t)
      (follows_attempt (howned _) fun _ => ⟨_, next_fs ..⟩) ?_
    rintro _ t ⟨length, rfl⟩
    refine follows_bind (follows_attempt hrename (hmoved length)) fun second t ht => ?_
    cases second with
    | ok _ => exact follows_pure ht
    | error e =>
      obtain ⟨length, rfl⟩ := ht
      refine follows_bind (Q := fun _ t => At s offer .committing t)
        (follows_attempt (howned _) fun _ => ⟨_, next_fs ..⟩) ?_
      rintro _ t ⟨length, rfl⟩
      exact follows_throw (hc length)

theorem follows_commitRecord (hs : Site L s offer) (manifest : Option FolderManifest) {t : Role}
    (ht : At s offer .committing t) :
    Follows (conduct L) (fun _ t => At s offer .recorded t) (fun _ t => Failed s offer t) t
      (s.commitRecord offer manifest) := by
  have hcommitting : ∀ {t}, At s offer .committing t → Failed s offer t := fun h => h.failed rfl (by simp)
  have hrecorded : ∀ {t}, At s offer .recorded t → Failed s offer t := fun h => h.failed rfl (by simp)
  rw [commitRecord, s.paths_eq hs.stateId]
  refine follows_bind (follows_readCommit ht) fun found t ht => ?_
  cases found with
  | some record =>
    refine follows_bind (Q := fun _ t => At s offer .recorded t)
      (follows_lift (fun _ _ => ht) fun _ _ => hrecorded ht) fun _ t ht => ?_
    refine follows_bind (Q := fun _ t => At s offer .recorded t)
      (follows_lift (fun _ _ => ht) fun _ _ => hrecorded ht) fun _ t ht => ?_
    refine follows_bind (Q := fun _ t => At s offer .recorded t)
      (follows_lift (fun _ _ => ht) fun _ _ => hrecorded ht) fun _ t ht => ?_
    exact follows_pure ht
  | none =>
    refine follows_bind (Follows.of_uses (looks_uniqueDestination _ _) looks_stay ht |>.mono
      (fun _ _ h => h.2) fun _ _ h => hcommitting h) fun destination t ht => ?_
    exact follows_bind (follows_writeCommit hs _ ht) fun _ t ht => follows_pure ht

/-- The item is renamed onto a name that was just seen to be free, or was there before. -/
theorem follows_moveOnce {src : Path} {name : String}
    (hsrc : src = statePath (s.destinationRoot offer) offer.transferId "part" ∨
      src = statePath (s.destinationRoot offer) offer.transferId "folder.part") {t : Role}
    (ht : At s offer .recorded t) :
    Follows (conduct L)
      (fun _ t => At s offer (.renamed (name :: s.destinationRoot offer)) t ∨ At s offer .skipped t)
      (fun _ t => Failed s offer t) t (moveOnce src (name :: s.destinationRoot offer)) := by
  obtain ⟨length, rfl⟩ := ht
  have hrecorded : Failed s offer (role s offer .recorded length) := At.failed ⟨length, rfl⟩ rfl (by simp)
  rw [moveOnce]
  refine follows_bind (Q := fun found t => t = role s offer
      (if found then .skipped else .absent (name :: s.destinationRoot offer)) length)
    (follows_fs ⟨name, rfl⟩ (fun found => ?_) fun e => hrecorded) ?_
  · cases found <;> rfl
  · rintro found t rfl
    cases found with
    | true => exact follows_pure (.inr ⟨length, rfl⟩)
    | false => exact follows_fs ⟨hsrc, rfl⟩ (fun _ => .inl ⟨length, rfl⟩) fun e => hrecorded

/-- A commit that succeeded has renamed its item onto the destination it returns, unless
that was there before. -/
def Committed (s : TransferStore) (offer : TransferOffer) (d : Path) (t : Role) : Prop :=
  At s offer (.renamed d) t ∨ At s offer .skipped t

theorem follows_committed {V : α → Prop} {x : CoreM α} {d : Path}
    (hx : Uses (L.Tame offer.transferId) V x) {t : Role} (ht : Committed s offer d t) :
    Follows (conduct L) (fun _ t' => Committed s offer d t') (fun _ t' => Failed s offer t') t x := by
  rcases ht with ht | ht
  · exact (follows_tame (.inr (.inl ⟨d, rfl⟩)) hx ht).mono (fun _ _ h => .inl h.2)
      fun _ _ h => h.failed rfl (by simp)
  · exact (follows_tame (.inr (.inr rfl)) hx ht).mono (fun _ _ h => .inr h.2)
      fun _ _ h => h.failed rfl (by simp)

theorem follows_commitFile (hs : Site L s offer) {t : Role} (ht : At s offer .committing t) :
    Follows (conduct L) (fun completed t => Committed s offer completed.destination t)
      (fun _ t => Failed s offer t) t (s.commitFile offer) := by
  have howned : ∀ extension,
      L.Owned offer.transferId (statePath (s.destinationRoot offer) offer.transferId extension) :=
    fun extension => L.owned_statePath hs.root _ _
  rw [commitFile, s.paths_eq hs.stateId]
  refine follows_bind (follows_commitRecord hs none ht) fun commit t ht => ?_
  refine follows_bind (follows_moveOnce (.inl rfl) ht) fun _ t ht => ?_
  refine follows_bind (follows_committed (reads_ensureFileDestination _ _ _).tame ht) fun _ t ht => ?_
  refine follows_bind (follows_committed (reads_applyModifiedTime _ _).tame ht) fun _ t ht => ?_
  refine follows_bind (follows_committed (tame_atomicWriteJson hs.stateId hs.root .done _) ht)
    fun _ t ht => ?_
  refine follows_bind (follows_committed (tame_removeIfExists (howned "json")) ht) fun _ t ht => ?_
  refine follows_bind (follows_committed (tame_removeIfExists (howned "commit.json")) ht)
    fun _ t ht => ?_
  exact follows_pure ht

theorem follows_commitFolder (hs : Site L s offer) (manifest : FolderManifest)
    {prepared : PreparedFolderTransfer}
    (hp : prepared.stagingPath = statePath (s.destinationRoot offer) offer.transferId "folder.part")
    {t : Role} (ht : At s offer .committing t) :
    Follows (conduct L) (fun completed t => Committed s offer completed.destination t)
      (fun _ t => Failed s offer t) t (s.commitFolder offer manifest prepared) := by
  have howned : ∀ extension,
      L.Owned offer.transferId (statePath (s.destinationRoot offer) offer.transferId extension) :=
    fun extension => L.owned_statePath hs.root _ _
  rw [commitFolder, s.paths_eq hs.stateId]
  refine follows_bind (follows_commitRecord hs (some manifest) ht) fun commit t ht => ?_
  refine follows_bind (follows_moveOnce (.inr hp) ht) fun _ t ht => ?_
  refine follows_bind (follows_committed (reads_validateFolderContents _ _).tame ht) fun _ t ht => ?_
  refine follows_bind (follows_committed (reads_applyModifiedTime _ _).tame ht) fun _ t ht => ?_
  refine follows_bind (follows_committed (tame_atomicWriteJson hs.stateId hs.root .done _) ht)
    fun _ t ht => ?_
  refine follows_bind (follows_committed (tame_removeIfExists (howned "json")) ht) fun _ t ht => ?_
  refine follows_bind (follows_committed (tame_removeIfExists (howned "manifest.json")) ht)
    fun _ t ht => ?_
  refine follows_bind (follows_committed (tame_removeIfExists (howned "commit.json")) ht)
    fun _ t ht => ?_
  exact follows_pure ht

/-! Around the commit lock. -/

/-- What is left of a finished commit once its lock is given up: an announcement to make. -/
def Owing (s : TransferStore) (offer : TransferOffer) (d : Path) (t : Role) : Prop :=
  At s offer (.committed d) t ∨ At s offer .passed t

/-- A handler outside the commit lock, with an announcement to make or without. -/
def Outside (s : TransferStore) (offer : TransferOffer) (t : Role) : Prop :=
  At s offer .working t ∨ ∃ d, Owing s offer d t

theorem follows_withCommitLock {Q : α → Path} {x : CoreM α}
    (hx : ∀ t, At s offer .committing t → Follows (conduct L) (fun a t => Committed s offer (Q a) t)
      (fun _ t => Failed s offer t) t x) {t : Role} (ht : At s offer .working t) :
    Follows (conduct L) (fun a t => Owing s offer (Q a) t) (fun _ t => Outside s offer t) t
      (CoreM.withLock (.commit s.serial) x) := by
  obtain ⟨length, rfl⟩ := ht
  have hx := follows_run.mp (hx (role s offer .committing length) ⟨length, rfl⟩)
  refine follows_run.mpr ⟨.inr ⟨rfl, rfl⟩, fun _ => ?_⟩
  refine Protocol.follows_bind.mpr (hx.mono fun r t hr => ?_)
  cases r with
  | ok a =>
    rcases hr with ⟨length, rfl⟩ | ⟨length, rfl⟩
    · exact ⟨.inl ⟨rfl, by simp, rfl⟩, fun _ => .inl ⟨length, rfl⟩⟩
    · exact ⟨.inl ⟨rfl, by simp, rfl⟩, fun _ => .inr ⟨length, rfl⟩⟩
  | error e =>
    obtain ⟨phase, hc, ha, length, rfl⟩ := hr
    refine ⟨.inl ⟨hc, ha, rfl⟩, fun _ => ?_⟩
    cases phase with
    | renamed d => exact .inr ⟨d, .inl ⟨length, rfl⟩⟩
    | skipped => exact .inr ⟨[], .inr ⟨length, rfl⟩⟩
    | _ => exact .inl ⟨length, rfl⟩

theorem follows_working {V : α → Prop} {x : CoreM α} (hx : Uses (L.Tame offer.transferId) V x)
    {t : Role} (ht : At s offer .working t) :
    Follows (conduct L) (fun a t' => V a ∧ At s offer .working t') (fun _ t' => Outside s offer t') t x :=
  (follows_tame (.inl rfl) hx ht).mono (fun _ _ h => h) fun _ _ h => .inl h

theorem follows_reading (op : FsOp Contents β) (h : op.Reads) {t : Role} (ht : At s offer .working t) :
    Follows (conduct L) (fun _ t => At s offer .working t) (fun _ t => Outside s offer t) t
      (CoreM.fs op) :=
  (follows_working (reads_fs h).tame ht).mono (fun _ _ h => h.2) fun _ _ h => h

/-! Preparation. -/

/-- A file that is to be resumed is known to have the length it is resumed at. -/
def Prepared (s : TransferStore) (offer : TransferOffer) (prepared : PreparedTransfer) (t : Role) : Prop :=
  prepared.partPath = statePath (s.destinationRoot offer) offer.transferId "part" ∧
    prepared.offset ≤ offer.size ∧ t = role s offer .working (some prepared.offset)

theorem follows_partLength (hs : Site L s offer) {t : Role} (ht : At s offer .working t) :
    Follows (conduct L) (fun n t => t = role s offer .working (some n)) (fun _ t => Outside s offer t) t
      (partLength (statePaths (s.destinationRoot offer) offer.transferId)) := by
  obtain ⟨length, rfl⟩ := ht
  have howned : L.Owned offer.transferId (statePath (s.destinationRoot offer) offer.transferId "part") :=
    L.owned_statePath hs.root _ _
  rw [partLength]
  refine follows_bind (Q := fun r t => t = role s offer .working
    ((r.toOption.map Metadata.len).or length)) (follows_attempt (.inl trivial) fun r => ?_) ?_
  · cases r with
    | ok metadata => simp [next_fs, Handling.afterOp, Handling.lengthAfterOp, statePaths, Except.toOption]
    | error e => rfl
  · rintro r t rfl
    cases r with
    | ok metadata => exact follows_pure rfl
    | error e =>
      cases e with
      | notFound =>
        refine follows_bind (Q := fun _ t => t = role s offer .working (some 0))
          (follows_fs (.inl howned) (fun _ => ?_) fun e => .inl ⟨length, rfl⟩) ?_
        · simp [next_fs, Handling.afterOp, Handling.lengthAfterOp, statePaths]
        · rintro _ t rfl
          refine follows_bind (Q := fun _ t => t = role s offer .working (some 0))
            (follows_fs (.inl trivial) (fun _ => rfl) fun e => .inl ⟨some 0, rfl⟩) ?_
          rintro _ t rfl
          exact follows_pure rfl
      | _ => exact follows_throw (.inl ⟨length, rfl⟩)

theorem follows_prepare (hs : Site L s offer) {t : Role} (ht : At s offer .working t) :
    Follows (conduct L) (fun outcome t => match outcome with
      | .complete _ => At s offer .working t
      | .resume prepared => Prepared s offer prepared t) (fun _ t => Outside s offer t) t
      (s.prepare offer) := by
  rw [prepare, s.paths_eq hs.stateId]
  refine follows_bind (follows_working (V := fun _ => True) (uses_lift fun _ _ => trivial) ht)
    fun _ t ht => ?_
  refine follows_bind (follows_working (uses_throwIf _ _) ht.2) fun _ t ht => ?_
  refine follows_bind (follows_working (s.tame_replayDone hs.root _) ht.2) fun done t ht => ?_
  cases done with
  | some completed => exact follows_pure ht.2
  | none =>
    refine follows_bind (follows_working (s.tame_replayCommit hs.stateId hs.root _) ht.2)
      fun commit t ht => ?_
    cases commit with
    | some completed => exact follows_pure ht.2
    | none =>
      refine follows_bind (follows_working (tame_keepMetadata hs.stateId hs.root _) ht.2) fun _ t ht => ?_
      refine follows_bind (follows_partLength hs ht.2) ?_
      rintro offset t rfl
      refine follows_bind (Q := fun _ t => offset ≤ offer.size ∧ t = role s offer .working (some offset))
        (follows_throwIf (fun h => ⟨Nat.not_lt.mp h, rfl⟩) fun _ => .inl ⟨_, rfl⟩) ?_
      rintro _ t ⟨hle, rfl⟩
      exact follows_pure ⟨rfl, hle, rfl⟩

theorem follows_prepareFolder (hs : Site L s offer) (manifest : FolderManifest) {t : Role}
    (ht : At s offer .working t) :
    Follows (conduct L) (fun outcome t => At s offer .working t ∧ match outcome with
      | .complete _ => True
      | .resume prepared => prepared.stagingPath =
          statePath (s.destinationRoot offer) offer.transferId "folder.part")
      (fun _ t => Outside s offer t) t (s.prepareFolder offer manifest) := by
  have howned : L.Owned offer.transferId
      (statePath (s.destinationRoot offer) offer.transferId "folder.part") := L.owned_statePath hs.root _ _
  rw [prepareFolder, s.paths_eq hs.stateId]
  refine follows_bind (follows_working (V := fun _ => True) (uses_lift fun _ _ => trivial) ht)
    fun _ t ht => ?_
  refine follows_bind (follows_working (V := fun _ => True) (uses_lift fun _ _ => trivial) ht.2)
    fun _ t ht => ?_
  refine follows_bind (follows_working (s.tame_replayFolderDone hs.root _ _) ht.2) fun done t ht => ?_
  cases done with
  | some completed => exact follows_pure ⟨ht.2, trivial⟩
  | none =>
    refine follows_bind (follows_working (s.tame_replayFolderCommit hs.stateId hs.root _ _) ht.2)
      fun commit t ht => ?_
    cases commit with
    | some completed => exact follows_pure ⟨ht.2, trivial⟩
    | none =>
      refine follows_bind (follows_working (tame_keepFolderMetadata hs.stateId hs.root _ _) ht.2)
        fun _ t ht => ?_
      refine follows_bind (follows_working (tame_ensureDirectory howned) ht.2) fun _ t ht => ?_
      refine follows_bind (follows_working (tame_resumePosition howned _ _ _) ht.2)
        fun prepared t ht => ?_
      exact follows_pure ⟨ht.2, ht.1⟩

/-! Streams. -/

theorem follows_receiveInto {r : Receiving} {S : Nat → Role → Prop}
    (hreport : ∀ n, ∃ p, r.report n = .progress p)
    (hworking : ∀ n t, S n t → At s offer .working t)
    (hedit : ∀ n chunk t, S n t → n + chunk.length ≤ r.size →
      (conduct L).allowed t (.fs (.edit r.path (r.write n chunk))) ∧
        S (n + chunk.length) ((conduct L).next t (.fs (.edit r.path (r.write n chunk))) (.ok ())))
    (fuel received : Nat) (incoming : Incoming) {t : Role} (ht : S received t) :
    Follows (conduct L) (fun _ t => At s offer .working t) (fun _ t => Outside s offer t) t
      (receiveInto r fuel received incoming) := by
  induction fuel generalizing received incoming t with
  | zero => exact follows_pure (hworking _ _ ht)
  | succ fuel ih =>
    have hphase := hworking _ _ ht
    rw [receiveInto]
    split
    · exact follows_pure hphase
    · next hmore =>
      refine follows_bind (Q := fun read t' => t' = t ∧
          incoming.read (min (r.size - received) transferBufferSize) = .ok read)
        (follows_lift (fun read hread => ⟨rfl, hread⟩) fun _ _ => .inl hphase) ?_
      rintro read t' ⟨rfl, hread⟩
      cases read with
      | none =>
        refine follows_bind (follows_reading (.sync r.path) trivial hphase) fun _ t ht => ?_
        exact follows_throw (.inl ht)
      | some read =>
        obtain ⟨chunk, rest⟩ := read
        have hlen := Incoming.read_length hread
        have he := hedit received chunk t' ht (by omega)
        refine follows_bind (Q := fun _ t => S (received + chunk.length) t)
          (follows_fs he.1 (fun _ => he.2) fun e => ?_) fun _ t ht => ?_
        · obtain ⟨length, rfl⟩ := hphase
          exact .inl ⟨_, rfl⟩
        · obtain ⟨p, hp⟩ := hreport (received + chunk.length)
          refine follows_bind (Q := fun _ t => S (received + chunk.length) t) ?_ fun _ t ht => ih _ _ ht
          rw [hp]
          obtain ⟨length, rfl⟩ := hworking _ _ ht
          exact follows_emit (fun d h => by cases h) ht

theorem follows_receiveFile {prepared : PreparedTransfer} (incoming : Incoming) {t : Role}
    (ht : Prepared s offer prepared t) :
    Follows (conduct L) (fun _ t => At s offer .working t) (fun _ t => Outside s offer t) t
      (receiveInto (receivingFile offer prepared.partPath) (offer.size - prepared.offset)
        prepared.offset incoming) := by
  obtain ⟨hpath, -, rfl⟩ := ht
  refine follows_receiveInto (S := fun n t => t = role s offer .working (some n))
    (fun n => ⟨_, rfl⟩) (fun n t h => ⟨_, h⟩) ?_ _ _ _ rfl
  rintro n chunk t rfl hle
  refine ⟨.inr ⟨n, chunk, hpath, rfl, rfl, hle⟩, ?_⟩
  rw [next_fs]
  simp [Handling.afterOp, Handling.lengthAfterOp, receivingFile, hpath, FileData.size, FileData.empty,
    Contents.append, Contents.toBytes]

/-- No file of a folder is a part. -/
theorem not_part_below {r : Path} (hr : r ∈ L.roots) {transferId : String} {path : Path}
    (hpath : statePath r transferId "folder.part" <:+ path) :
    ∀ r' ∈ L.roots, path ≠ statePath r' transferId "part" := by
  rintro r' hr' rfl
  rcases List.suffix_cons_iff.mp hpath with he | hs
  · have hn := stateName_inj.mp (List.cons.inj he).1
    exact absurd hn (by decide)
  · exact L.not_inside_chain hr' List.suffix_rfl
      ((L.owned_statePath hr transferId "folder.part").inside.above hs)

theorem follows_receiveFiles (hs : Site L s offer) {prepared : PreparedFolderTransfer}
    (hp : prepared.stagingPath = statePath (s.destinationRoot offer) offer.transferId "folder.part")
    (entries : List FolderEntry) (offset already : Nat) (incoming : Incoming) {t : Role}
    (ht : At s offer .working t) :
    Follows (conduct L) (fun _ t => At s offer .working t) (fun _ t => Outside s offer t) t
      (receiveFiles offer prepared entries offset already incoming) := by
  have howned : L.Owned offer.transferId prepared.stagingPath := by
    rw [hp]
    exact L.owned_statePath hs.root _ _
  have hreject : ∀ (e : CoreError) (t : Role), Outside s offer t →
      (conduct L).allowed t (.respond (.rejected e)) := by
    rintro e t (⟨length, rfl⟩ | ⟨d, ⟨length, rfl⟩ | ⟨length, rfl⟩⟩) d h <;> cases h
  induction entries generalizing offset already incoming t with
  | nil => exact follows_pure ht
  | cons entry entries ih =>
    rw [receiveFiles]
    refine follows_bind (follows_rejecting (follows_working (tame_openFolderFile howned entry offset) ht)
      hreject) fun path t ht => ?_
    have hpath : statePath (s.destinationRoot offer) offer.transferId "folder.part" <:+ path := hp ▸ ht.1
    refine follows_bind (follows_receiveInto (S := fun _ t => At s offer .working t)
      (fun n => ⟨_, rfl⟩) (fun _ _ h => h) ?_ _ _ _ ht.2) fun rest t ht => ?_
    · rintro n chunk t ⟨length, rfl⟩ hle
      exact ⟨.inl ⟨howned.above (hp ▸ hpath), not_part_below hs.root hpath⟩, ⟨_, rfl⟩⟩
    · refine follows_bind (follows_reading (.sync path) trivial ht) fun _ t ht => ?_
      refine follows_bind (follows_rejecting (follows_working (tame_verifyFolderFile howned entry) ht)
        hreject) fun _ t ht => ?_
      exact ih _ _ _ ht.2

theorem follows_finalize (hs : Site L s offer) {t : Role} (ht : At s offer .working t) :
    Follows (conduct L) (fun completed t => Owing s offer completed.destination t)
      (fun _ t => Outside s offer t) t (s.finalize offer) := by
  have howned : ∀ extension,
      L.Owned offer.transferId (statePath (s.destinationRoot offer) offer.transferId extension) :=
    fun extension => L.owned_statePath hs.root _ _
  rw [finalize, s.paths_eq hs.stateId]
  refine follows_bind (follows_reading (.metadata (statePath (s.destinationRoot offer) offer.transferId "part")) trivial ht) fun metadata t ht => ?_
  refine follows_bind (follows_working (uses_throwIf _ _) ht) fun _ t ht => ?_
  refine follows_bind (follows_working (reads_blake3FileHex _).tame ht.2) fun digest t ht => ?_
  split
  · refine follows_bind (follows_working (tame_removeIfExists (howned "part")) ht.2) fun _ t ht => ?_
    refine follows_bind (follows_working (tame_removeIfExists (howned "json")) ht.2) fun _ t ht => ?_
    refine follows_bind (follows_working (tame_removeIfExists (howned "commit.json")) ht.2)
      fun _ t ht => ?_
    exact follows_throw (.inl ht.2)
  · exact follows_withCommitLock (fun t ht => follows_commitFile hs ht) ht.2

theorem follows_finalizeFolder (hs : Site L s offer) (manifest : FolderManifest)
    {prepared : PreparedFolderTransfer}
    (hp : prepared.stagingPath = statePath (s.destinationRoot offer) offer.transferId "folder.part")
    {t : Role} (ht : At s offer .working t) :
    Follows (conduct L) (fun completed t => Owing s offer completed.destination t)
      (fun _ t => Outside s offer t) t (s.finalizeFolder offer manifest prepared) := by
  have howned : L.Owned offer.transferId prepared.stagingPath := by
    rw [hp]
    exact L.owned_statePath hs.root _ _
  rw [finalizeFolder]
  refine follows_bind (follows_working (V := fun _ => True) (uses_lift fun _ _ => trivial) ht)
    fun _ t ht => ?_
  refine follows_bind (follows_working (tame_createManifestDirectories howned manifest) ht.2)
    fun _ t ht => ?_
  refine follows_bind (follows_working (reads_validateFolderContents _ _).tame ht.2) fun _ t ht => ?_
  refine follows_bind (follows_working (reads_applyManifestTimes _ _).tame ht.2) fun _ t ht => ?_
  exact follows_withCommitLock (fun t ht => follows_commitFolder hs manifest hp ht) ht.2

/-! Whole handlers. -/

theorem allowed_reject {t : Role} (ht : Outside s offer t) (e : CoreError) :
    (conduct L).allowed t (.respond (.rejected e)) := by
  rcases ht with ⟨length, rfl⟩ | ⟨d, ⟨length, rfl⟩ | ⟨length, rfl⟩⟩ <;>
    · intro d h
      cases h

/-- The announcement settles what a commit owes. -/
theorem follows_announce {completed : CompletedTransfer} {t : Role}
    (ht : Owing s offer completed.destination t) :
    Follows (conduct L) (fun _ t => At s offer .working t) (fun _ t => Outside s offer t) t
      (CoreM.emit (receivedEvent offer completed)) := by
  rcases ht with ⟨length, rfl⟩ | ⟨length, rfl⟩
  · exact follows_emit ⟨rfl, .inl rfl⟩ ⟨length, rfl⟩
  · exact follows_emit ⟨rfl, .inr rfl⟩ ⟨length, rfl⟩

theorem follows_complete {receipt : TransferReceipt} {t : Role} (ht : At s offer .working t) :
    Follows (conduct L) (fun _ t => Outside s offer t) (fun _ t => Outside s offer t) t
      (CoreM.respond (.complete receipt)) := by
  obtain ⟨length, rfl⟩ := ht
  exact follows_respond rfl (.inl ⟨length, rfl⟩) fun _ => .inl ⟨length, rfl⟩

theorem follows_handleFileStream (hs : Site L s offer) (peer : Peer) {t : Role}
    (ht : At s offer .working t) :
    Follows (conduct L) (fun _ t => Outside s offer t) (fun _ t => Outside s offer t) t
      (s.handleFileStream offer peer) := by
  rw [handleFileStream]
  refine follows_bind (follows_rejecting (follows_prepare hs ht) fun e t ht => allowed_reject ht e)
    fun outcome t ht => ?_
  cases outcome with
  | complete completed => exact follows_complete ht
  | resume prepared =>
    have hprepared : Prepared s offer prepared t := ht
    obtain ⟨hpath, hle, rfl⟩ := ht
    have hout : Outside s offer (role s offer .working (some prepared.offset)) := .inl ⟨_, rfl⟩
    refine follows_bind (Q := fun _ t => t = role s offer .working (some prepared.offset))
      (follows_respond (fun d h => by cases h) rfl fun _ => hout) ?_
    rintro _ t rfl
    refine follows_bind (Q := fun _ t => t = role s offer .working (some prepared.offset))
      (follows_fs (.inl ?_) (fun _ => ?_) fun _ => hout) ?_
    · rw [hpath]
      exact L.owned_statePath hs.root _ _
    · simp [next_fs, Handling.afterOp, Handling.lengthAfterOp]
    rintro _ t rfl
    refine follows_bind (Q := fun _ t => t = role s offer .working (some prepared.offset))
      (follows_emit (fun d h => by cases h) rfl) ?_
    rintro _ t rfl
    refine follows_bind (follows_receiveFile _ hprepared) fun rest t ht => ?_
    refine follows_bind (Q := fun _ t => At s offer .working t)
      (follows_lift (fun _ _ => ht) fun _ _ => .inl ht) fun extra t ht => ?_
    refine follows_bind (Q := fun _ t => At s offer .working t)
      (follows_throwIf (fun _ => ht) fun _ => .inl ht) fun _ t ht => ?_
    refine follows_bind (follows_reading (.sync prepared.partPath) trivial ht) fun _ t ht => ?_
    refine follows_bind (follows_finalize hs ht) fun completed t ht => ?_
    exact follows_bind (follows_announce ht) fun _ t ht => follows_complete ht

theorem follows_handleFolderStream (hs : Site L s offer) (manifest : FolderManifest) (peer : Peer)
    {t : Role} (ht : At s offer .working t) :
    Follows (conduct L) (fun _ t => Outside s offer t) (fun _ t => Outside s offer t) t
      (s.handleFolderStream offer manifest peer) := by
  rw [handleFolderStream]
  refine follows_bind (follows_rejecting (follows_prepareFolder hs manifest ht)
    fun e t ht => allowed_reject ht e) fun outcome t ht => ?_
  cases outcome with
  | complete completed => exact follows_complete ht.1
  | resume prepared =>
    obtain ⟨ht, hp⟩ := ht
    refine follows_bind (Q := fun _ t => At s offer .working t)
      (follows_rejecting (follows_throwIf (fun _ => ht) fun _ => .inl ht)
        fun e t ht => allowed_reject ht e) fun _ t ht => ?_
    refine follows_bind (Q := fun _ t => At s offer .working t)
      (follows_throwIf (fun _ => ht) fun _ => .inl ht) fun _ t ht => ?_
    obtain ⟨length, rfl⟩ := ht
    refine follows_bind (Q := fun _ t => At s offer .working t)
      (follows_respond (fun d h => by cases h) ⟨length, rfl⟩ fun _ => .inl ⟨length, rfl⟩)
      fun _ t ht => ?_
    split
    · obtain ⟨length, rfl⟩ := ht
      refine follows_bind (Q := fun _ t => At s offer .working t)
        (follows_emit (fun d h => by cases h) ⟨length, rfl⟩) fun _ t ht => ?_
      refine follows_bind (follows_receiveFiles hs hp _ _ _ _ ht) fun rest t ht => ?_
      refine follows_bind (Q := fun _ t => At s offer .working t)
        (follows_lift (fun _ _ => ht) fun _ _ => .inl ht) fun extra t ht => ?_
      refine follows_bind (Q := fun _ t => At s offer .working t)
        (follows_rejecting (follows_throwIf (fun _ => ht) fun _ => .inl ht)
          fun e t ht => allowed_reject ht e) fun _ t ht => ?_
      refine follows_bind (follows_rejecting (follows_finalizeFolder hs manifest hp ht)
        fun e t ht => allowed_reject ht e) fun completed t ht => ?_
      exact follows_bind (follows_announce ht) fun _ t ht => follows_complete ht
    · exact follows_throw (.inl ht)

/-- Before its lock is taken and after it is given up, a handler is out of the way. -/
def Idle (s : TransferStore) (offer : TransferOffer) (t : Role) : Prop :=
  At s offer .waiting t ∨ At s offer .closed t

theorem follows_lockTransfer (hid : StateId offer.transferId) {x : CoreM Unit} (hx : ∀ t, At s offer .working t →
      Follows (conduct L) (fun _ t => Outside s offer t) (fun _ t => Outside s offer t) t x) {t : Role}
    (ht : At s offer .waiting t) :
    Follows (conduct L) (fun _ t => Idle s offer t) (fun _ t => Idle s offer t) t
      (s.lockTransfer offer.transferId x) := by
  obtain ⟨length, rfl⟩ := ht
  have hx := follows_run.mp (hx (role s offer .working length) ⟨length, rfl⟩)
  rw [lockTransfer]
  refine follows_run.mpr ⟨.inl ⟨rfl, rfl, hid⟩, fun _ => ?_⟩
  refine Protocol.follows_bind.mpr (hx.mono fun r t hr => ?_)
  have hout : Outside s offer t := by cases r <;> exact hr
  have hunlock : (conduct L).allowed t (.unlock (.transfer s.serial offer.transferId)) ∧
      ∀ u, Idle s offer ((conduct L).next t (.unlock (.transfer s.serial offer.transferId)) u) := by
    rcases hout with ⟨length, rfl⟩ | ⟨d, ⟨length, rfl⟩ | ⟨length, rfl⟩⟩ <;>
      exact ⟨.inr ⟨rfl, by simp [Phase.critical], rfl⟩, fun _ => .inr ⟨length, rfl⟩⟩
  refine ⟨hunlock.1, fun u => ?_⟩
  cases r with
  | ok a => exact hunlock.2 u
  | error e => exact hunlock.2 u

theorem allowed_reject_idle {t : Role} (ht : Idle s offer t) (e : CoreError) :
    (conduct L).allowed t (.respond (.rejected e)) := by
  rcases ht with ⟨length, rfl⟩ | ⟨length, rfl⟩ <;>
    · intro d h
      cases h

theorem follows_handleStream (hroot : s.destinationRoot offer ∈ L.roots)
    (manifest : Except CoreError FolderManifest) (peer : Peer) {t : Role}
    (ht : At s offer .waiting t) :
    Follows (conduct L) (fun _ t => Idle s offer t) (fun _ t => Idle s offer t) t
      (s.handleStream offer manifest peer) := by
  rw [handleStream]
  refine follows_bind (Q := fun _ t => Site L s offer ∧ At s offer .waiting t)
    (follows_rejecting (follows_lift (fun _ h => ⟨⟨?_, hroot⟩, ht⟩) fun _ _ => .inl ht)
      fun e t ht => allowed_reject_idle ht e) ?_
  · exact stateId_of_parseUuid (TransferOffer.validate_parseUuid h)
  rintro _ t ⟨hs, ht⟩
  split
  · refine follows_bind (Q := fun _ t => At s offer .waiting t)
      (follows_rejecting (follows_lift (fun _ _ => ht) fun _ _ => .inl ht)
        fun e t ht => allowed_reject_idle ht e) fun manifest t ht => ?_
    refine follows_bind (Q := fun _ t => At s offer .waiting t)
      (follows_rejecting (follows_lift (fun _ _ => ht) fun _ _ => .inl ht)
        fun e t ht => allowed_reject_idle ht e) fun _ t ht => ?_
    exact follows_lockTransfer hs.stateId (fun t ht => follows_handleFolderStream hs manifest peer ht) ht
  · exact follows_lockTransfer hs.stateId (fun t ht => follows_handleFileStream hs peer ht) ht

theorem follows_serveStream (hroot : s.destinationRoot offer ∈ L.roots)
    (manifest : Except CoreError FolderManifest) (peer : Peer) :
    (conduct L).Follows (fun _ t => Idle s offer t) (role s offer .waiting none)
      (s.serveStream offer manifest peer) := by
  have h := follows_run.mp (follows_handleStream (L := L) hroot manifest peer
    (t := role s offer .waiting none) ⟨none, rfl⟩)
  rw [serveStream, Protocol.follows_bind]
  refine h.mono fun r t hr => ?_
  cases r with
  | ok _ => exact hr
  | error e =>
    rcases hr with ⟨length, rfl⟩ | ⟨length, rfl⟩
    · exact ⟨fun d h => (by cases h), fun _ => .inl ⟨length, rfl⟩⟩
    · exact ⟨fun d h => (by cases h), fun _ => .inr ⟨length, rfl⟩⟩

/-! Opening a store. -/

theorem follows_opening {V : α → Prop} {x : CoreM α} (hx : Uses L.Opens V x) :
    Follows (conduct L) (fun _ t => t = .opening) (fun _ t => t = .opening) .opening x :=
  (Follows.of_uses (S := fun t => t = .opening) hx (fun _ _ ht hc => ⟨ht ▸ hc, fun _ => by rw [ht]; rfl⟩)
    rfl).mono (fun _ _ h => h.2) fun _ _ h => h

end InkHole
