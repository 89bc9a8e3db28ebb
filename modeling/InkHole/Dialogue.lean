import InkHole.Documents
import InkHole.Streams

/-! What a stream says to its sender: a position to go on from and then its verdict, or its verdict at once.
Once the verdict is given no file is touched. -/

set_option linter.unusedSectionVars false

namespace InkHole

open InkHole.CoreM Fallible TransferStore

section Dialogue

variable [Externals] {α β : Type} {Q : α → Prop} {x : CoreM α}

/-- The call says nothing to the sender. -/
def Call.Silent : Call β → Prop
  | .respond _ => False
  | _ => True

theorem Call.silent_of_reads {c : Call β} (h : c.Reads) : c.Silent := by
  cases c with
  | respond r => cases h
  | _ => trivial

theorem Fallible.Uses.silent (h : Uses Call.Reads Q x) : Uses Call.Silent Q x :=
  h.mono (fun _ => Call.silent_of_reads) fun _ h => h

theorem silent_fs (op : FsOp Contents β) : Uses Call.Silent (fun _ => True) (CoreM.fs op) := uses_fs trivial

theorem silent_attempt (op : FsOp Contents β) : Uses Call.Silent (fun _ => True) (CoreM.attempt op) :=
  uses_attempt trivial

theorem silent_throwIf (bad : Prop) [Decidable bad] (e : CoreError) :
    Uses Call.Silent (fun _ => ¬ bad) (CoreM.throwIf bad e) := uses_throwIf _ _

/-! The operations of the store. -/

theorem silent_atomicWriteJson (p : Path) (value : Record) :
    Uses Call.Silent (fun _ => True) (atomicWriteJson p value) := by
  rw [atomicWriteJson]
  refine uses_bind (uses_newUuid trivial) fun uuid _ => ?_
  refine uses_bind (silent_fs _) fun _ _ => ?_
  refine uses_bind (silent_fs _) fun _ _ => ?_
  refine uses_bind (silent_fs _) fun _ _ => ?_
  refine uses_bind (silent_attempt _) fun first _ => ?_
  split
  · exact uses_pure trivial
  · refine uses_bind (silent_attempt _) fun _ _ => ?_
    refine uses_bind (silent_attempt _) fun second _ => ?_
    split
    · exact uses_pure trivial
    · exact uses_bind (silent_attempt _) fun _ _ => uses_throw _

theorem silent_removeIfExists (p : Path) : Uses Call.Silent (fun _ => True) (removeIfExists p) := by
  rw [removeIfExists]
  refine uses_bind (silent_attempt _) fun r _ => ?_
  split
  · exact uses_pure trivial
  · exact uses_pure trivial
  · exact uses_throw _

theorem silent_removeDirAll (p : Path) : Uses Call.Silent (fun _ => True) (removeDirAll p) := by
  have hall : ∀ entries, Uses Call.Silent (fun _ => True) (removeAll p entries) := by
    intro entries
    induction entries with
    | nil => exact uses_pure trivial
    | cons entry rest ih =>
      rw [removeAll]
      refine uses_bind (Q := fun _ => True) ?_ fun _ _ => ih
      rw [removeEntry]
      split
      · exact silent_fs _
      · exact silent_fs _
  rw [removeDirAll]
  refine uses_bind (silent_fs _) fun entries _ => ?_
  exact uses_bind (hall entries) fun _ _ => silent_fs _

theorem silent_removeDirAllIfExists (p : Path) :
    Uses Call.Silent (fun _ => True) (removeDirAllIfExists p) := by
  rw [removeDirAllIfExists]
  refine uses_bind (silent_attempt _) fun r _ => ?_
  split
  · split
    · exact silent_fs _
    · exact silent_removeDirAll p
    · exact uses_throw _
  · exact uses_pure trivial
  · exact uses_throw _

theorem silent_ensureDirectory (p : Path) : Uses Call.Silent (fun _ => True) (ensureDirectory p) := by
  rw [ensureDirectory]
  refine uses_bind (silent_attempt _) fun r _ => ?_
  split
  · exact (uses_throwIf _ _).any
  · refine uses_bind (silent_attempt _) fun made _ => ?_
    split
    · exact uses_pure trivial
    · exact (reads_ensureDirectoryExists p).silent
    · exact uses_throw _
  · exact uses_throw _

theorem silent_ensureSafeParentDirectories (root : Path) (relative : String) :
    Uses Call.Silent (fun _ => True) (ensureSafeParentDirectories root relative) :=
  uses_ensureSafeParentDirectories Call.silent_of_reads (fun _ _ => trivial) relative

theorem silent_createManifestDirectories (root : Path) (manifest : FolderManifest) :
    Uses Call.Silent (fun _ => True) (createManifestDirectories root manifest) := by
  have hall : ∀ entries, Uses Call.Silent (fun _ => True) (createDirectories root entries) := by
    intro entries
    induction entries with
    | nil => exact uses_pure trivial
    | cons entry rest ih =>
      rw [createDirectories]
      refine uses_bind (silent_ensureSafeParentDirectories root entry.path) fun _ _ => ?_
      refine uses_bind (uses_folderEntryPath root entry.path) fun path hpath => ?_
      exact uses_bind (uses_makeDirectory Call.silent_of_reads fun _ _ => trivial) fun _ _ => ih
  exact uses_bind (reads_ensureDirectoryExists root).silent fun _ _ => hall _

theorem silent_moveOnce (src dst : Path) : Uses Call.Silent (fun _ => True) (moveOnce src dst) := by
  rw [moveOnce]
  refine uses_bind (silent_fs _) fun there _ => ?_
  split
  · exact silent_fs _
  · exact uses_pure trivial

theorem silent_commitRecord (s : TransferStore) (offer : TransferOffer) (manifest : Option FolderManifest) :
    Uses Call.Silent (fun _ => True) (s.commitRecord offer manifest) := by
  rw [commitRecord]
  refine uses_bind (reads_readJsonOptional _ _).silent fun found _ => ?_
  split
  · refine uses_bind (uses_lift fun _ _ => trivial) fun _ _ => ?_
    refine uses_bind (uses_lift fun _ _ => trivial) fun _ _ => ?_
    exact uses_bind (uses_lift fun _ _ => trivial) fun _ _ => uses_pure trivial
  · refine uses_bind ((looks_uniqueDestination _ _).mono (fun c hc => ?_) fun _ _ => trivial) fun destination _ => ?_
    · cases c with
      | respond r => cases hc
      | _ => trivial
    · exact uses_bind (silent_atomicWriteJson _ _) fun _ _ => uses_pure trivial

theorem silent_withLock (ℓ : Lock) (h : Uses Call.Silent Q x) :
    Uses Call.Silent (fun _ => True) (CoreM.withLock ℓ x) := by
  refine uses_run.mpr ⟨trivial, fun _ => ?_⟩
  rw [Program.uses_bind]
  exact (uses_run.mp h).mono (fun _ h => h) fun r _ => ⟨trivial, fun _ _ _ => trivial⟩

theorem silent_recoverCommit (s : TransferStore) (commit : CommitRecord) (paths : StatePaths) :
    Uses Call.Silent (fun _ => True) (s.recoverCommit commit paths) := by
  rw [recoverCommit]
  refine uses_bind (uses_lift fun _ _ => trivial) fun _ _ => ?_
  refine uses_bind (silent_fs _) fun there _ => ?_
  split
  · exact uses_pure trivial
  · refine uses_bind (reads_ensureFileDestination _ _ _).silent fun _ _ => ?_
    refine uses_bind (silent_atomicWriteJson _ _) fun _ _ => ?_
    refine uses_bind (silent_removeIfExists _) fun _ _ => ?_
    refine uses_bind (silent_removeIfExists _) fun _ _ => ?_
    exact uses_bind (silent_removeIfExists _) fun _ _ => uses_pure trivial

theorem silent_recoverFolderCommit (s : TransferStore) (commit : CommitRecord) (paths : StatePaths) :
    Uses Call.Silent (fun _ => True) (s.recoverFolderCommit commit paths) := by
  rw [recoverFolderCommit]
  refine uses_bind (uses_lift fun _ _ => trivial) fun _ _ => ?_
  split
  · refine uses_bind (silent_fs _) fun there _ => ?_
    split
    · exact uses_pure trivial
    · refine uses_bind (reads_validateFolderContents _ _).silent fun _ _ => ?_
      refine uses_bind (silent_atomicWriteJson _ _) fun _ _ => ?_
      refine uses_bind (silent_removeDirAllIfExists _) fun _ _ => ?_
      refine uses_bind (silent_removeIfExists _) fun _ _ => ?_
      refine uses_bind (silent_removeIfExists _) fun _ _ => ?_
      exact uses_bind (silent_removeIfExists _) fun _ _ => uses_pure trivial
  · exact uses_throw _

theorem silent_replayDone (s : TransferStore) (expected : StoredOffer) (paths : StatePaths) :
    Uses Call.Silent (fun _ => True) (s.replayDone expected paths) := by
  rw [replayDone]
  refine uses_bind (reads_readJsonOptional _ _).silent fun found _ => ?_
  split
  · exact uses_pure trivial
  · next done =>
    refine uses_bind (uses_lift fun _ _ => trivial) fun _ _ => ?_
    refine uses_bind (s.reads_validateCompleted done).silent fun completed _ => ?_
    split
    · exact uses_pure trivial
    · exact uses_bind (silent_removeIfExists _) fun _ _ => uses_pure trivial

theorem silent_replayFolderDone (s : TransferStore) (expected : StoredOffer) (manifest : FolderManifest)
    (paths : StatePaths) :
    Uses Call.Silent (fun _ => True) (s.replayFolderDone expected manifest paths) := by
  rw [replayFolderDone]
  refine uses_bind (reads_readJsonOptional _ _).silent fun found _ => ?_
  split
  · exact uses_pure trivial
  · next done =>
    refine uses_bind (uses_lift fun _ _ => trivial) fun _ _ => ?_
    refine uses_bind (uses_lift fun _ _ => trivial) fun _ _ => ?_
    refine uses_bind (s.reads_validateCompletedFolder done).silent fun completed _ => ?_
    split
    · exact uses_pure trivial
    · exact uses_bind (silent_removeIfExists _) fun _ _ => uses_pure trivial

theorem silent_replayCommit (s : TransferStore) (expected : StoredOffer) (paths : StatePaths) :
    Uses Call.Silent (fun _ => True) (s.replayCommit expected paths) := by
  rw [replayCommit]
  refine uses_bind (reads_readJsonOptional _ _).silent fun found _ => ?_
  split
  · exact uses_pure trivial
  · exact uses_bind (uses_lift fun _ _ => trivial) fun _ _ => silent_recoverCommit s _ paths

theorem silent_replayFolderCommit (s : TransferStore) (expected : StoredOffer) (manifest : FolderManifest)
    (paths : StatePaths) :
    Uses Call.Silent (fun _ => True) (s.replayFolderCommit expected manifest paths) := by
  rw [replayFolderCommit]
  refine uses_bind (reads_readJsonOptional _ _).silent fun found _ => ?_
  split
  · exact uses_pure trivial
  · refine uses_bind (uses_lift fun _ _ => trivial) fun _ _ => ?_
    exact uses_bind (uses_lift fun _ _ => trivial) fun _ _ => silent_recoverFolderCommit s _ paths

theorem silent_keepMetadata (expected : StoredOffer) (paths : StatePaths) :
    Uses Call.Silent (fun _ => True) (keepMetadata expected paths) := by
  rw [keepMetadata]
  refine uses_bind (reads_readJsonOptional _ _).silent fun found _ => ?_
  split
  · exact uses_lift fun _ _ => trivial
  · refine uses_bind (Q := fun _ => True) ?_ fun _ _ => silent_atomicWriteJson _ _
    rw [discardPart]
    refine uses_bind (silent_fs _) fun there _ => ?_
    split
    · exact silent_removeIfExists _
    · exact uses_pure trivial

theorem silent_keepFolderMetadata (expected : StoredOffer) (manifest : FolderManifest) (paths : StatePaths) :
    Uses Call.Silent (fun _ => True) (keepFolderMetadata expected manifest paths) := by
  rw [keepFolderMetadata]
  refine uses_bind (reads_readJsonOptional _ _).silent fun found _ => ?_
  split
  · refine uses_bind (uses_lift fun _ _ => trivial) fun _ _ => ?_
    refine uses_bind (reads_readJsonOptional _ _).silent fun stored _ => ?_
    split
    · exact uses_lift fun _ _ => trivial
    · exact uses_throw _
  · refine uses_bind (silent_removeDirAllIfExists _) fun _ _ => ?_
    refine uses_bind (silent_removeIfExists _) fun _ _ => ?_
    refine uses_bind (silent_atomicWriteJson _ _) fun _ _ => ?_
    exact silent_atomicWriteJson _ _

theorem silent_partLength (paths : StatePaths) : Uses Call.Silent (fun _ => True) (partLength paths) := by
  rw [partLength]
  refine uses_bind (silent_attempt _) fun found _ => ?_
  split
  · exact uses_pure trivial
  · refine uses_bind (silent_fs _) fun _ _ => ?_
    exact uses_bind (silent_fs _) fun _ _ => uses_pure trivial
  · exact uses_throw _

theorem silent_prepare (s : TransferStore) (offer : TransferOffer) :
    Uses Call.Silent (fun outcome => ∀ prepared, outcome = .resume prepared → prepared.offset ≤ offer.size)
      (s.prepare offer) := by
  rw [prepare]
  refine uses_bind (uses_lift fun _ _ => trivial) fun _ _ => ?_
  refine uses_bind (uses_throwIf _ _) fun _ _ => ?_
  refine uses_bind (silent_replayDone s _ _) fun done _ => ?_
  cases done with
  | some completed => exact uses_pure fun _ h => by cases h
  | none =>
    refine uses_bind (silent_replayCommit s _ _) fun commit _ => ?_
    cases commit with
    | some completed => exact uses_pure fun _ h => by cases h
    | none =>
      refine uses_bind (silent_keepMetadata _ _) fun _ _ => ?_
      refine uses_bind (silent_partLength _) fun offset _ => ?_
      refine uses_bind (uses_throwIf _ _) fun _ hle => uses_pure ?_
      rintro prepared h
      obtain rfl := PrepareOutcome.resume.inj h
      exact Nat.not_lt.mp hle

theorem silent_resumePosition (staging : Path) (entries : List FolderEntry) (fileIndex completed : Nat) :
    Uses Call.Silent (fun _ => True) (resumePosition staging entries fileIndex completed) := by
  induction entries generalizing fileIndex completed with
  | nil => exact uses_pure trivial
  | cons entry rest ih =>
    rw [resumePosition]
    refine uses_bind (uses_lift fun _ _ => trivial) fun path _ => ?_
    refine uses_bind (silent_ensureSafeParentDirectories _ _) fun _ _ => ?_
    refine uses_bind (silent_attempt _) fun found _ => ?_
    split
    · exact uses_pure trivial
    · exact uses_throw _
    · refine uses_bind (uses_throwIf _ _) fun _ _ => ?_
      refine uses_bind (uses_throwIf _ _) fun _ _ => ?_
      split
      · exact uses_pure trivial
      · refine uses_bind (reads_blake3FileHex path).silent fun digest _ => ?_
        split
        · exact uses_bind (silent_removeIfExists path) fun _ _ => uses_pure trivial
        · split
          · exact ih _ _
          · exact uses_throw _

theorem silent_prepareFolder (s : TransferStore) (offer : TransferOffer) (manifest : FolderManifest) :
    Uses Call.Silent (fun outcome => ∀ prepared, outcome = .resume prepared →
      Position manifest.files prepared.fileIndex prepared.offset prepared.completed) (s.prepareFolder offer manifest) := by
  have hsilent : Uses Call.Silent (fun _ => True) (s.prepareFolder offer manifest) := by
    rw [prepareFolder]
    refine uses_bind (uses_lift fun _ _ => trivial) fun _ _ => ?_
    refine uses_bind (uses_lift fun _ _ => trivial) fun _ _ => ?_
    refine uses_bind (silent_replayFolderDone s _ _ _) fun done _ => ?_
    cases done with
    | some completed => exact uses_pure trivial
    | none =>
      refine uses_bind (silent_replayFolderCommit s _ _ _) fun commit _ => ?_
      cases commit with
      | some completed => exact uses_pure trivial
      | none =>
        refine uses_bind (silent_keepFolderMetadata _ _ _) fun _ _ => ?_
        refine uses_bind (silent_ensureDirectory _) fun _ _ => ?_
        exact uses_bind (silent_resumePosition _ _ _ _) fun _ _ => uses_pure trivial
  exact (hsilent.and (uses_prepareFolder s offer manifest)).mono (fun _ hc => hc.1) fun outcome h prepared hp =>
    (h.2 prepared hp).2

theorem silent_openFolderFile (prepared : PreparedFolderTransfer) (entry : FolderEntry) (offset : Nat) :
    Uses Call.Silent (fun _ => True) (openFolderFile prepared entry offset) := by
  rw [openFolderFile]
  refine uses_bind (uses_throwIf _ _) fun _ _ => ?_
  refine uses_bind (uses_lift fun _ _ => trivial) fun path _ => ?_
  refine uses_bind (silent_ensureSafeParentDirectories _ _) fun _ _ => ?_
  refine uses_bind (Q := fun _ => True) ?_ fun _ _ => ?_
  · rw [checkCheckpoint]
    refine uses_bind (silent_attempt _) fun found _ => ?_
    split
    · refine uses_bind (uses_throwIf _ _) fun _ _ => ?_
      exact (uses_throwIf _ _).any
    · exact (uses_throwIf _ _).any
  · exact uses_bind (silent_fs _) fun _ _ => uses_pure trivial

theorem silent_verifyFolderFile (prepared : PreparedFolderTransfer) (entry : FolderEntry) :
    Uses Call.Silent (fun _ => True) (verifyFolderFile prepared entry) := by
  rw [verifyFolderFile]
  refine uses_bind (uses_lift fun _ _ => trivial) fun path _ => ?_
  refine uses_bind (silent_ensureSafeParentDirectories _ _) fun _ _ => ?_
  refine uses_bind (Q := fun _ => True) ?_ fun intact _ => ?_
  · rw [folderFileIntact]
    refine uses_bind (silent_fs _) fun metadata _ => ?_
    split
    · exact uses_pure trivial
    · exact uses_bind (reads_blake3FileHex path).silent fun _ _ => uses_pure trivial
  · split
    · exact (reads_applyModifiedTime _ _).silent
    · exact uses_bind (silent_removeIfExists path) fun _ _ => uses_throw _

theorem silent_finalize (s : TransferStore) (offer : TransferOffer) :
    Uses Call.Silent (fun _ => True) (s.finalize offer) := by
  have hcommit : Uses Call.Silent (fun _ => True) (s.commitFile offer) := by
    rw [commitFile]
    refine uses_bind (silent_commitRecord s offer none) fun commit _ => ?_
    refine uses_bind (silent_moveOnce _ _) fun _ _ => ?_
    refine uses_bind (reads_ensureFileDestination _ _ _).silent fun _ _ => ?_
    refine uses_bind (reads_applyModifiedTime _ _).silent fun _ _ => ?_
    refine uses_bind (silent_atomicWriteJson _ _) fun _ _ => ?_
    refine uses_bind (silent_removeIfExists _) fun _ _ => ?_
    exact uses_bind (silent_removeIfExists _) fun _ _ => uses_pure trivial
  rw [finalize]
  refine uses_bind (silent_fs _) fun metadata _ => ?_
  refine uses_bind (uses_throwIf _ _) fun _ _ => ?_
  refine uses_bind (reads_blake3FileHex _).silent fun digest _ => ?_
  split
  · refine uses_bind (silent_removeIfExists _) fun _ _ => ?_
    refine uses_bind (silent_removeIfExists _) fun _ _ => ?_
    exact uses_bind (silent_removeIfExists _) fun _ _ => uses_throw _
  · exact silent_withLock _ hcommit

theorem silent_finalizeFolder (s : TransferStore) (offer : TransferOffer) (manifest : FolderManifest)
    (prepared : PreparedFolderTransfer) :
    Uses Call.Silent (fun _ => True) (s.finalizeFolder offer manifest prepared) := by
  have hcommit : Uses Call.Silent (fun _ => True) (s.commitFolder offer manifest prepared) := by
    rw [commitFolder]
    refine uses_bind (silent_commitRecord s offer _) fun commit _ => ?_
    refine uses_bind (silent_moveOnce _ _) fun _ _ => ?_
    refine uses_bind (reads_validateFolderContents _ _).silent fun _ _ => ?_
    refine uses_bind (reads_applyModifiedTime _ _).silent fun _ _ => ?_
    refine uses_bind (silent_atomicWriteJson _ _) fun _ _ => ?_
    refine uses_bind (silent_removeIfExists _) fun _ _ => ?_
    refine uses_bind (silent_removeIfExists _) fun _ _ => ?_
    exact uses_bind (silent_removeIfExists _) fun _ _ => uses_pure trivial
  rw [finalizeFolder]
  refine uses_bind (uses_lift fun _ _ => trivial) fun _ _ => ?_
  refine uses_bind (silent_createManifestDirectories _ _) fun _ _ => ?_
  refine uses_bind (reads_validateFolderContents _ _).silent fun _ _ => ?_
  refine uses_bind (reads_applyManifestTimes _ _).silent fun _ _ => ?_
  exact silent_withLock _ hcommit

theorem silent_receiveInto (r : Receiving) (fuel received : Nat) (incoming : Incoming) :
    Uses Call.Silent (fun _ => True) (receiveInto r fuel received incoming) := by
  induction fuel generalizing received incoming with
  | zero => exact uses_pure trivial
  | succ fuel ih =>
    rw [receiveInto]
    split
    · exact uses_pure trivial
    · refine uses_bind (uses_lift fun _ _ => trivial) fun piece _ => ?_
      split
      · exact uses_bind (silent_fs _) fun _ _ => uses_throw _
      · refine uses_bind (silent_fs _) fun _ _ => ?_
        refine uses_bind (Q := fun _ => True) (uses_run.mpr ⟨trivial, fun _ _ _ => trivial⟩) fun _ _ => ?_
        exact ih _ _

/-! What has been said. -/

/-- The answer ends a stream. -/
def TransferResponse.verdict : TransferResponse → Bool
  | .complete _ => true
  | .rejected _ => true
  | _ => false

/-- The answer asks for the item of the offer from a position in it. -/
def TransferResponse.Asks (offer : TransferOffer) (received : Except CoreError FolderManifest) : TransferResponse → Prop
  | .resume offset => offer.kind = .file ∧ offset ≤ offer.size
  | .folderResume fileIndex offset completed => offer.kind = .folderV1 ∧
      ∃ manifest, received = .ok manifest ∧ Position manifest.files fileIndex offset completed
  | _ => False

/-- No verdict is given yet. -/
def Undecided (said : List TransferResponse) : Prop := ∀ r ∈ said, r.verdict = false

/-- The sender may be asked once, and is then told the verdict. -/
def dialogue (offer : TransferOffer) (received : Except CoreError FolderManifest) :
    Protocol Call (List TransferResponse) Lock where
  allowed said := fun
    | .fs _ => Undecided said
    | .respond r => Undecided said ∧ (r.verdict = true ∨ said = [] ∧ r.Asks offer received)
    | _ => True
  next said := fun
    | .respond r => fun
      | .ok _ => said ++ [r]
      | .error _ => said
    | _ => fun _ => said
  holds _ _ := False

/-- What was said before the verdict. -/
def Asked (offer : TransferOffer) (received : Except CoreError FolderManifest) (said : List TransferResponse) : Prop :=
  said = [] ∨ ∃ r, r.Asks offer received ∧ said = [r]

variable {offer : TransferOffer} {received : Except CoreError FolderManifest} {said : List TransferResponse}

theorem TransferResponse.Asks.not_verdict {r : TransferResponse} (h : r.Asks offer received) : r.verdict = false := by
  cases r with
  | resume | folderResume => rfl
  | complete | rejected => exact h.elim

theorem Asked.undecided (h : Asked offer received said) : Undecided said := by
  rcases h with rfl | ⟨r, hr, rfl⟩
  · intro r hr
    cases hr
  · intro r' hr'
    rw [List.mem_singleton.mp hr']
    exact hr.not_verdict

theorem Asked.not_complete (h : Asked offer received said) (receipt : TransferReceipt) : .complete receipt ∉ said :=
  fun hmem => by cases h.undecided _ hmem

theorem follows_silent {V : α → Prop} (hx : Uses Call.Silent V x) (h : Undecided said) :
    Follows (dialogue offer received) (fun a t => V a ∧ t = said) (fun _ t => t = said) said x := by
  refine Follows.of_uses (S := fun t => t = said) hx (fun t c ht hc => ?_) rfl
  subst ht
  cases c with
  | respond r => exact hc.elim
  | fs op => exact ⟨h, fun _ => rfl⟩
  | _ => exact ⟨trivial, fun _ => rfl⟩

/-- An error told to the sender is the verdict. -/
theorem follows_refusing {Q : α → List TransferResponse → Prop} (h : Asked offer received said)
    (hx : Follows (dialogue offer received) Q (fun _ t => t = said) said x) :
    Follows (dialogue offer received) Q (fun _ t => ∀ receipt, .complete receipt ∉ t) said (rejecting x) := by
  rw [follows_run] at hx ⊢
  rw [rejecting, ExceptT.run_mk, Protocol.follows_bind]
  refine hx.mono fun r t hr => ?_
  cases r with
  | ok a => exact hr
  | error e =>
    obtain rfl : t = said := hr
    refine ⟨⟨h.undecided, .inl rfl⟩, fun r => ?_⟩
    cases r with
    | error _ => exact fun receipt => h.not_complete receipt
    | ok _ =>
      intro receipt hmem
      rcases List.mem_append.mp hmem with hmem | hmem
      · exact h.not_complete receipt hmem
      · cases List.mem_singleton.mp hmem

theorem follows_saying {Q : Unit → List TransferResponse → Prop} {F : CoreError → List TransferResponse → Prop}
    {r : TransferResponse} (h : Undecided said) (hr : r.verdict = true ∨ said = [] ∧ r.Asks offer received)
    (hq : Q () (said ++ [r])) (hf : ∀ e, F e said) :
    Follows (dialogue offer received) Q F said (respond r) := by
  refine follows_run.mpr ⟨⟨h, hr⟩, fun reply => ?_⟩
  cases reply with
  | ok _ => exact hq
  | error e => exact hf _

/-- A stream says that the item is complete as its last word. -/
def Concludes (offer : TransferOffer) (received : Except CoreError FolderManifest) (said : List TransferResponse) : Prop :=
  ∃ before receipt, Asked offer received before ∧ said = before ++ [.complete receipt]

theorem follows_concluding (h : Asked offer received said) (receipt : TransferReceipt) :
    Follows (dialogue offer received) (fun _ t => Concludes offer received t)
      (fun _ t => ∀ receipt, .complete receipt ∉ t) said (respond (.complete receipt)) :=
  follows_saying h.undecided (.inl rfl) ⟨said, receipt, h, rfl⟩ fun _ => h.not_complete

/-- What is silent leaves what was said. -/
theorem follows_quiet {V : α → Prop} (hx : Uses Call.Silent V x) (h : Asked offer received said) :
    Follows (dialogue offer received) (fun a t => V a ∧ t = said) (fun _ t => ∀ receipt, .complete receipt ∉ t) said x :=
  (follows_silent hx h.undecided).mono (fun _ _ hq => hq) fun _ _ ht => ht ▸ h.not_complete

theorem silent_emit (event : TransferEvent) : Uses Call.Silent (fun _ => True) (emit event) :=
  uses_run.mpr ⟨trivial, fun _ _ _ => trivial⟩

theorem silent_lift (y : Except CoreError α) : Uses Call.Silent (fun _ => True) (liftM y : CoreM α) :=
  uses_lift fun _ _ => trivial

theorem follows_handleFileStream_dialogue (s : TransferStore) (peer : Peer) (hk : offer.kind = .file) :
    Follows (dialogue offer received) (fun _ t => Concludes offer received t)
      (fun _ t => ∀ receipt, .complete receipt ∉ t) [] (s.handleFileStream offer peer) := by
  have hstart : Asked offer received [] := .inl rfl
  rw [handleFileStream]
  refine follows_bind (follows_refusing hstart (follows_silent (silent_prepare s offer) hstart.undecided)) ?_
  rintro outcome _ ⟨hle, rfl⟩
  cases outcome with
  | complete completed => exact follows_concluding hstart _
  | resume prepared =>
    have hasks : (TransferResponse.resume prepared.offset).Asks offer received := ⟨hk, hle prepared rfl⟩
    have hasked : Asked offer received [.resume prepared.offset] := .inr ⟨_, hasks, rfl⟩
    refine follows_bind (Q := fun _ t => t = [.resume prepared.offset]) (follows_saying hstart.undecided (.inr ⟨rfl, hasks⟩)
      rfl fun _ => hstart.not_complete) ?_
    rintro _ _ rfl
    refine follows_bind (follows_quiet (silent_fs _) hasked) ?_
    rintro _ _ ⟨-, rfl⟩
    refine follows_bind (follows_quiet (silent_emit _) hasked) ?_
    rintro _ _ ⟨-, rfl⟩
    refine follows_bind (follows_quiet (silent_receiveInto _ _ _ _) hasked) ?_
    rintro rest _ ⟨-, rfl⟩
    refine follows_bind (follows_quiet (silent_lift _) hasked) ?_
    rintro extra _ ⟨-, rfl⟩
    refine follows_bind (follows_quiet (silent_throwIf _ _) hasked) ?_
    rintro _ _ ⟨-, rfl⟩
    refine follows_bind (follows_quiet (silent_fs _) hasked) ?_
    rintro _ _ ⟨-, rfl⟩
    refine follows_bind (follows_quiet (silent_finalize s offer) hasked) ?_
    rintro completed _ ⟨-, rfl⟩
    refine follows_bind (follows_quiet (silent_emit _) hasked) ?_
    rintro _ _ ⟨-, rfl⟩
    exact follows_concluding hasked _

theorem follows_receiveFiles_dialogue (prepared : PreparedFolderTransfer) (entries : List FolderEntry)
    (offset already : Nat) (incoming : Incoming) (h : Asked offer received said) :
    Follows (dialogue offer received) (fun _ t => t = said) (fun _ t => ∀ receipt, .complete receipt ∉ t) said
      (receiveFiles offer prepared entries offset already incoming) := by
  induction entries generalizing offset already incoming with
  | nil => exact follows_pure rfl
  | cons entry entries ih =>
    rw [receiveFiles]
    refine follows_bind (follows_refusing h (follows_silent (silent_openFolderFile _ _ _) h.undecided)) ?_
    rintro path _ ⟨-, rfl⟩
    refine follows_bind (follows_quiet (silent_receiveInto _ _ _ _) h) ?_
    rintro rest _ ⟨-, rfl⟩
    refine follows_bind (follows_quiet (silent_fs _) h) ?_
    rintro _ _ ⟨-, rfl⟩
    refine follows_bind (follows_refusing h (follows_silent (silent_verifyFolderFile _ _) h.undecided)) ?_
    rintro _ _ ⟨-, rfl⟩
    exact ih _ _ _

theorem follows_handleFolderStream_dialogue (s : TransferStore) (peer : Peer) (hk : offer.kind = .folderV1)
    {manifest : FolderManifest} (hm : received = .ok manifest) :
    Follows (dialogue offer received) (fun _ t => Concludes offer received t)
      (fun _ t => ∀ receipt, .complete receipt ∉ t) [] (s.handleFolderStream offer manifest peer) := by
  have hstart : Asked offer received [] := .inl rfl
  rw [handleFolderStream]
  refine follows_bind (follows_refusing hstart (follows_silent (silent_prepareFolder s offer manifest) hstart.undecided)) ?_
  rintro outcome _ ⟨hposition, rfl⟩
  cases outcome with
  | complete completed => exact follows_concluding hstart _
  | resume prepared =>
    have hasks : (TransferResponse.folderResume prepared.fileIndex prepared.offset prepared.completed).Asks offer received :=
      ⟨hk, manifest, hm, hposition prepared rfl⟩
    have hasked : Asked offer received
        [.folderResume prepared.fileIndex prepared.offset prepared.completed] := .inr ⟨_, hasks, rfl⟩
    refine follows_bind (follows_refusing hstart (follows_silent (silent_throwIf _ _) hstart.undecided)) ?_
    rintro _ _ ⟨-, rfl⟩
    refine follows_bind (follows_quiet (silent_throwIf _ _) hstart) ?_
    rintro _ _ ⟨-, rfl⟩
    refine follows_bind (Q := fun _ t => t = [.folderResume prepared.fileIndex prepared.offset prepared.completed])
      (follows_saying hstart.undecided (.inr ⟨rfl, hasks⟩) rfl fun _ => hstart.not_complete) ?_
    rintro _ _ rfl
    split
    · refine follows_bind (follows_quiet (silent_emit _) hasked) ?_
      rintro _ _ ⟨-, rfl⟩
      refine follows_bind (follows_receiveFiles_dialogue prepared _ _ _ _ hasked) ?_
      rintro rest _ rfl
      refine follows_bind (follows_quiet (silent_lift _) hasked) ?_
      rintro extra _ ⟨-, rfl⟩
      refine follows_bind (follows_refusing hasked (follows_silent (silent_throwIf _ _) hasked.undecided)) ?_
      rintro _ _ ⟨-, rfl⟩
      refine follows_bind (follows_refusing hasked (follows_silent (silent_finalizeFolder s offer manifest prepared)
        hasked.undecided)) ?_
      rintro completed _ ⟨-, rfl⟩
      refine follows_bind (follows_quiet (silent_emit _) hasked) ?_
      rintro _ _ ⟨-, rfl⟩
      exact follows_concluding hasked _
    · exact follows_throw hasked.not_complete

/-- A lock is nothing that is said. -/
theorem follows_locked {Q : α → List TransferResponse → Prop} {F : CoreError → List TransferResponse → Prop} (ℓ : Lock)
    (hx : Follows (dialogue offer received) Q F said x) : Follows (dialogue offer received) Q F said (withLock ℓ x) := by
  refine follows_run.mpr ⟨trivial, fun _ => ?_⟩
  refine Protocol.follows_bind.mpr ((follows_run.mp hx).mono fun r t hr => ⟨trivial, fun _ => ?_⟩)
  cases r with
  | ok a => exact hr
  | error e => exact hr

theorem follows_handleStream_dialogue (s : TransferStore) (offer : TransferOffer) (received : Except CoreError FolderManifest)
    (peer : Peer) : Follows (dialogue offer received) (fun _ t => Concludes offer received t)
      (fun _ t => ∀ receipt, .complete receipt ∉ t) [] (s.handleStream offer received peer) := by
  have hstart : Asked offer received [] := .inl rfl
  rw [handleStream]
  refine follows_bind (follows_refusing hstart (follows_silent (silent_lift _) hstart.undecided)) ?_
  rintro _ _ ⟨-, rfl⟩
  cases hk : offer.kind with
  | file => exact follows_locked _ (follows_handleFileStream_dialogue s peer hk)
  | folderV1 =>
    have hmanifest : Uses Call.Silent (fun m => received = .ok m) (liftM received : CoreM FolderManifest) :=
      uses_lift fun _ hm => hm
    refine follows_bind (follows_refusing hstart (follows_silent hmanifest hstart.undecided)) ?_
    rintro manifest _ ⟨hm, rfl⟩
    refine follows_bind (follows_refusing hstart (follows_silent (silent_lift _) hstart.undecided)) ?_
    rintro _ _ ⟨-, rfl⟩
    exact follows_locked _ (follows_handleFolderStream_dialogue s peer hk hm)

/-! What a run says. -/

variable {Q : α → List TransferResponse → Prop} {p : Program Call α} {base : List TransferResponse} {w : World}

theorem answered_exec (c : Call β) (hw : w.answered = base ++ said) :
    (exec c w).2.answered = base ++ (dialogue offer received).next said c (exec c w).1 := by
  have hlog : (exec c w).2.answered = w.answered ++ (c.effect (c.reply w)).filterMap Effect.answer :=
    List.filterMap_append
  rw [hlog, hw, List.append_assoc]
  cases c with
  | respond r => rfl
  | fs op =>
    refine congrArg (base ++ ·) ?_
    cases op with
    | rename src dst =>
      simp only [Call.effect]
      split <;> exact List.append_nil said
    | _ => exact List.append_nil said
  | _ => exact congrArg (base ++ ·) (List.append_nil said)

theorem next_grows (said : List TransferResponse) (c : Call β) (r : β) :
    said <+: (dialogue offer received).next said c r := by
  cases c with
  | respond response =>
    cases r with
    | ok _ => exact List.prefix_append _ _
    | error _ => exact List.prefix_rfl
  | _ => exact List.prefix_rfl

theorem Protocol.Follows.spoken (h : (dialogue offer received).Follows Q said p) (hw : w.answered = base ++ said) :
    ∃ said', said <+: said' ∧ (p.run w).2.answered = base ++ said' ∧ Q (p.run w).1 said' := by
  induction p generalizing said w with
  | ret a => exact ⟨said, List.prefix_rfl, hw, h⟩
  | call c k ih =>
    obtain ⟨said', hgrows, hanswered, hq⟩ := ih (exec c w).1 (h.2 _) (answered_exec c hw)
    exact ⟨said', (next_grows said c _).trans hgrows, hanswered, hq⟩

theorem Protocol.Follows.spokenFor (h : (dialogue offer received).Follows Q said p) (hw : w.answered = base ++ said) (n : Nat) :
    ∃ said', (p.runFor n w).answered = base ++ said' := by
  induction n generalizing p w said with
  | zero => exact ⟨said, hw⟩
  | succ n ih =>
    cases p with
    | ret a => exact ⟨said, hw⟩
    | call c k => exact ih (h.2 _) (answered_exec c hw)

/-- After the verdict the files stay as they are. -/
theorem Protocol.Follows.decided (h : (dialogue offer received).Follows Q said p) (hd : ¬ Undecided said) (n : Nat) :
    (p.run w).2.fs = w.fs ∧ (p.runFor n w).fs = w.fs := by
  induction p generalizing said w n with
  | ret a => cases n <;> exact ⟨rfl, rfl⟩
  | call c k ih =>
    have hnext : ¬ Undecided ((dialogue offer received).next said c (exec c w).1) := fun hu =>
      hd fun r hr => hu r ((next_grows said c _).subset hr)
    have hfs : (exec c w).2.fs = w.fs := by
      cases c with
      | fs op => exact absurd h.1 hd
      | _ => rfl
    have hrest := fun n => ih (exec c w).1 (h.2 _) hnext (w := (exec c w).2) n
    refine ⟨(hrest 0).1.trans hfs, ?_⟩
    cases n with
    | zero => rfl
    | succ n => exact (hrest n).2.trans hfs

/-- Where a run is cut off after the item was said to be complete, the files are as the whole run leaves them. -/
theorem Protocol.Follows.told (h : (dialogue offer received).Follows Q said p) (hw : w.answered = base ++ said) {n : Nat}
    {receipt : TransferReceipt} (hnot : .complete receipt ∉ said) {said' : List TransferResponse}
    (hcut : (p.runFor n w).answered = base ++ said') (hmem : .complete receipt ∈ said') :
    (p.run w).2.fs = (p.runFor n w).fs ∧ ∃ said'', Q (p.run w).1 said'' ∧ .complete receipt ∈ said'' := by
  induction n generalizing p w said with
  | zero => exact absurd (List.append_cancel_left (hw.symm.trans hcut) ▸ hmem) hnot
  | succ n ih =>
    cases p with
    | ret a => exact absurd (List.append_cancel_left (hw.symm.trans hcut) ▸ hmem) hnot
    | call c k =>
      have hnext : (exec c w).2.answered = base ++ (dialogue offer received).next said c (exec c w).1 := answered_exec c hw
      by_cases hsaid : .complete receipt ∈ (dialogue offer received).next said c (exec c w).1
      · have hdecided : ¬ Undecided ((dialogue offer received).next said c (exec c w).1) := fun hu => by cases hu _ hsaid
        have hkept := (h.2 (exec c w).1).decided (w := (exec c w).2) hdecided n
        obtain ⟨said'', hgrows, -, hq⟩ := (h.2 (exec c w).1).spoken hnext
        exact ⟨hkept.1.trans hkept.2.symm, said'', hq, hgrows.subset hsaid⟩
      · exact ih (h.2 _) hnext hsaid hcut

end Dialogue

end InkHole
