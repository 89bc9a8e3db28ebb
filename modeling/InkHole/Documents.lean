import InkHole.Destinations
import InkHole.Operations

/-! What the operations of a store write to files, whatever the file system answers: the bytes they
receive, and records of a few kinds. -/

set_option linter.unusedSectionVars false

namespace InkHole

open Fallible TransferStore

section Documents

variable [Externals] {β : Type} {P : Contents → Prop}

/-- What the call writes to a file satisfies `P`. -/
def Call.Fills (P : Contents → Prop) : Call β → Prop
  | .fs op => op.Fills P
  | _ => True

theorem Call.fills_of_reads {c : Call β} (h : c.Reads) : c.Fills P := by
  cases c with
  | fs op => cases op <;> trivial
  | _ => trivial

/-- What is written before anything is committed. -/
structure Fillable (P : Contents → Prop) : Prop where
  bytes : ∀ b, P (.bytes b)
  metadata : ∀ offer, P (.json (.metadata offer))
  manifest : ∀ manifest, P (.json (.manifest manifest))

/-- What is written when nothing new is committed. A destination is checked before it is recorded. -/
structure Writable (P : Contents → Prop) : Prop extends Fillable P where
  done : ∀ (offer : StoredOffer) destination manifest, validateDestinationName destination = .ok () →
    P (.json (.done ⟨offer, destination, offer.receipt, manifest⟩))

structure Committable (P : Contents → Prop) : Prop extends Writable P where
  commit : ∀ offer destination manifest, validateDestinationName destination = .ok () →
    P (.json (.commit ⟨offer, destination, manifest⟩))

variable {α : Type} {Q : α → Prop} {x : CoreM α}

theorem Fallible.Uses.fills (h : Uses Call.Reads Q x) : Uses (Call.Fills P) Q x :=
  h.mono (fun _ => Call.fills_of_reads) fun _ h => h

theorem fills_attempt {op : FsOp Contents β} (h : op.Fills P) :
    Uses (Call.Fills P) (fun _ => True) (CoreM.attempt op) := uses_attempt h

theorem fills_fs {op : FsOp Contents β} (h : op.Fills P) :
    Uses (Call.Fills P) (fun _ => True) (CoreM.fs op) := uses_fs h

theorem fills_atomicWriteJson (p : Path) {value : Record} (h : P (.json value)) :
    Uses (Call.Fills P) (fun _ => True) (atomicWriteJson p value) := by
  rw [atomicWriteJson]
  refine uses_bind (uses_newUuid trivial) fun uuid _ => ?_
  refine uses_bind (fills_fs trivial) fun _ _ => ?_
  refine uses_bind (fills_fs fun _ => h) fun _ _ => ?_
  refine uses_bind (fills_fs trivial) fun _ _ => ?_
  refine uses_bind (fills_attempt trivial) fun first _ => ?_
  split
  · exact uses_pure trivial
  · refine uses_bind (fills_attempt trivial) fun _ _ => ?_
    refine uses_bind (fills_attempt trivial) fun second _ => ?_
    split
    · exact uses_pure trivial
    · exact uses_bind (fills_attempt trivial) fun _ _ => uses_throw _

theorem fills_removeIfExists (p : Path) : Uses (Call.Fills P) (fun _ => True) (removeIfExists p) := by
  rw [removeIfExists]
  refine uses_bind (fills_attempt trivial) fun r _ => ?_
  split
  · exact uses_pure trivial
  · exact uses_pure trivial
  · exact uses_throw _

theorem fills_removeDirAll (p : Path) : Uses (Call.Fills P) (fun _ => True) (removeDirAll p) := by
  have hall : ∀ entries, Uses (Call.Fills P) (fun _ => True) (removeAll p entries) := by
    intro entries
    induction entries with
    | nil => exact uses_pure trivial
    | cons entry rest ih =>
      rw [removeAll]
      refine uses_bind (Q := fun _ => True) ?_ fun _ _ => ih
      rw [removeEntry]
      split
      · exact fills_fs trivial
      · exact fills_fs trivial
  rw [removeDirAll]
  refine uses_bind (fills_fs trivial) fun entries _ => ?_
  exact uses_bind (hall entries) fun _ _ => fills_fs trivial

theorem fills_removeDirAllIfExists (p : Path) : Uses (Call.Fills P) (fun _ => True) (removeDirAllIfExists p) := by
  rw [removeDirAllIfExists]
  refine uses_bind (fills_attempt trivial) fun r _ => ?_
  split
  · split
    · exact fills_fs trivial
    · exact fills_removeDirAll p
    · exact uses_throw _
  · exact uses_pure trivial
  · exact uses_throw _

theorem fills_ensureDirectory (p : Path) : Uses (Call.Fills P) (fun _ => True) (ensureDirectory p) := by
  rw [ensureDirectory]
  refine uses_bind (fills_attempt trivial) fun r _ => ?_
  split
  · exact (uses_throwIf _ _).any
  · refine uses_bind (fills_attempt trivial) fun made _ => ?_
    split
    · exact uses_pure trivial
    · exact (reads_ensureDirectoryExists p).fills
    · exact uses_throw _
  · exact uses_throw _

theorem fills_ensureSafeParentDirectories (root : Path) (relative : String) :
    Uses (Call.Fills P) (fun _ => True) (ensureSafeParentDirectories root relative) :=
  uses_ensureSafeParentDirectories Call.fills_of_reads (fun _ _ => trivial) relative

theorem fills_createManifestDirectories (root : Path) (manifest : FolderManifest) :
    Uses (Call.Fills P) (fun _ => True) (createManifestDirectories root manifest) := by
  have hall : ∀ entries, Uses (Call.Fills P) (fun _ => True) (createDirectories root entries) := by
    intro entries
    induction entries with
    | nil => exact uses_pure trivial
    | cons entry rest ih =>
      rw [createDirectories]
      refine uses_bind (fills_ensureSafeParentDirectories root entry.path) fun _ _ => ?_
      refine uses_bind (uses_folderEntryPath root entry.path) fun path hpath => ?_
      exact uses_bind (uses_makeDirectory Call.fills_of_reads fun _ _ => trivial) fun _ _ => ih
  exact uses_bind (reads_ensureDirectoryExists root).fills fun _ _ => hall _

theorem fills_moveOnce (src dst : Path) : Uses (Call.Fills P) (fun _ => True) (moveOnce src dst) := by
  rw [moveOnce]
  refine uses_bind (fills_fs trivial) fun there _ => ?_
  split
  · exact fills_fs trivial
  · exact uses_pure trivial

/-! What makes an allocated name end up in a record. -/

theorem Fallible.Uses.and {N M : ∀ {δ : Type}, Call δ → Prop} {R : α → Prop} (hx : Uses N Q x)
    (hy : Uses M R x) : Uses (fun c => N c ∧ M c) (fun a => Q a ∧ R a) x := by
  rw [uses_run] at hx hy ⊢
  generalize x.run = p at *
  induction p with
  | ret r => exact fun a ha => ⟨hx a ha, hy a ha⟩
  | call c k ih => exact ⟨⟨hx.1, hy.1⟩, fun r => ih r (hx.2 r) (hy.2 r)⟩

theorem fills_uniqueDestination (root : Path) (raw : String) :
    Uses (Call.Fills P) (fun name => validateDestinationName name = .ok ())
      (uniqueDestination root (safeFilename raw)) := by
  have hlooks : ∀ {δ : Type} (c : Call δ), c.Looks → c.Fills P := by
    intro δ c h
    cases c with
    | fs op => cases op <;> trivial
    | _ => trivial
  have huses := (looks_uniqueDestination root _).and (uses_uniqueDestination root raw)
  refine huses.mono (fun c hc => hlooks c hc.1) ?_
  rintro name ⟨-, index, rfl⟩
  exact (validateDestinationName_iff _).mpr (portable_destinationName raw index)

theorem fills_commitRecord (hP : Committable P) (s : TransferStore) (offer : TransferOffer)
    (manifest : Option FolderManifest) :
    Uses (Call.Fills P) (fun record => validateDestinationName record.destination = .ok ())
      (s.commitRecord offer manifest) := by
  rw [commitRecord]
  refine uses_bind (reads_readJsonOptional _ _).fills fun found _ => ?_
  split
  · refine uses_bind (uses_lift fun _ _ => trivial) fun _ _ => ?_
    refine uses_bind (uses_lift fun _ _ => trivial) fun _ _ => ?_
    exact uses_bind (uses_lift fun _ h => h) fun _ h => uses_pure h
  · refine uses_bind (fills_uniqueDestination _ _) fun destination h => ?_
    exact uses_bind (fills_atomicWriteJson _ (hP.commit _ _ _ h)) fun _ _ => uses_pure h

/-! The operations of a store. -/

theorem fills_withLock (ℓ : Lock) (h : Uses (Call.Fills P) Q x) :
    Uses (Call.Fills P) (fun _ => True) (CoreM.withLock ℓ x) := by
  refine uses_run.mpr ⟨trivial, fun _ => ?_⟩
  rw [Program.uses_bind]
  exact (uses_run.mp h).mono (fun _ h => h) fun r _ => ⟨trivial, fun _ _ _ => trivial⟩

theorem fills_rejecting (h : Uses (Call.Fills P) Q x) : Uses (Call.Fills P) Q (CoreM.rejecting x) := by
  rw [uses_run] at h ⊢
  rw [CoreM.rejecting, ExceptT.run_mk, Program.uses_bind]
  refine h.mono (fun _ h => h) fun r hr => ?_
  cases r with
  | ok a => exact hr
  | error e => exact ⟨trivial, fun _ a ha => by cases ha⟩

theorem fills_recoverCommit (hP : Writable P) (s : TransferStore) (commit : CommitRecord) (paths : StatePaths) :
    Uses (Call.Fills P) (fun _ => True) (s.recoverCommit commit paths) := by
  rw [recoverCommit]
  refine uses_bind (uses_lift fun _ h => h) fun _ h => ?_
  refine uses_bind (fills_fs trivial) fun there _ => ?_
  split
  · exact uses_pure trivial
  · refine uses_bind (reads_ensureFileDestination _ _ _).fills fun _ _ => ?_
    refine uses_bind (fills_atomicWriteJson _ (hP.done _ _ _ h)) fun _ _ => ?_
    refine uses_bind (fills_removeIfExists _) fun _ _ => ?_
    refine uses_bind (fills_removeIfExists _) fun _ _ => ?_
    exact uses_bind (fills_removeIfExists _) fun _ _ => uses_pure trivial

theorem fills_recoverFolderCommit (hP : Writable P) (s : TransferStore) (commit : CommitRecord) (paths : StatePaths) :
    Uses (Call.Fills P) (fun _ => True) (s.recoverFolderCommit commit paths) := by
  rw [recoverFolderCommit]
  refine uses_bind (uses_lift fun _ h => h) fun _ h => ?_
  split
  · refine uses_bind (fills_fs trivial) fun there _ => ?_
    split
    · exact uses_pure trivial
    · refine uses_bind (reads_validateFolderContents _ _).fills fun _ _ => ?_
      refine uses_bind (fills_atomicWriteJson _ (hP.done _ _ _ h)) fun _ _ => ?_
      refine uses_bind (fills_removeDirAllIfExists _) fun _ _ => ?_
      refine uses_bind (fills_removeIfExists _) fun _ _ => ?_
      refine uses_bind (fills_removeIfExists _) fun _ _ => ?_
      exact uses_bind (fills_removeIfExists _) fun _ _ => uses_pure trivial
  · exact uses_throw _

theorem fills_replayDone (s : TransferStore) (expected : StoredOffer) (paths : StatePaths) :
    Uses (Call.Fills P) (fun _ => True) (s.replayDone expected paths) := by
  rw [replayDone]
  refine uses_bind (reads_readJsonOptional _ _).fills fun found _ => ?_
  split
  · exact uses_pure trivial
  · next done =>
    refine uses_bind (uses_lift fun _ _ => trivial) fun _ _ => ?_
    refine uses_bind (s.reads_validateCompleted done).fills fun completed _ => ?_
    split
    · exact uses_pure trivial
    · exact uses_bind (fills_removeIfExists _) fun _ _ => uses_pure trivial

theorem fills_replayFolderDone (s : TransferStore) (expected : StoredOffer) (manifest : FolderManifest)
    (paths : StatePaths) :
    Uses (Call.Fills P) (fun _ => True) (s.replayFolderDone expected manifest paths) := by
  rw [replayFolderDone]
  refine uses_bind (reads_readJsonOptional _ _).fills fun found _ => ?_
  split
  · exact uses_pure trivial
  · next done =>
    refine uses_bind (uses_lift fun _ _ => trivial) fun _ _ => ?_
    refine uses_bind (uses_lift fun _ _ => trivial) fun _ _ => ?_
    refine uses_bind (s.reads_validateCompletedFolder done).fills fun completed _ => ?_
    split
    · exact uses_pure trivial
    · exact uses_bind (fills_removeIfExists _) fun _ _ => uses_pure trivial

theorem fills_replayCommit (hP : Writable P) (s : TransferStore) (expected : StoredOffer) (paths : StatePaths) :
    Uses (Call.Fills P) (fun _ => True) (s.replayCommit expected paths) := by
  rw [replayCommit]
  refine uses_bind (reads_readJsonOptional _ _).fills fun found _ => ?_
  split
  · exact uses_pure trivial
  · exact uses_bind (uses_lift fun _ _ => trivial) fun _ _ => fills_recoverCommit hP s _ paths

theorem fills_replayFolderCommit (hP : Writable P) (s : TransferStore) (expected : StoredOffer)
    (manifest : FolderManifest) (paths : StatePaths) :
    Uses (Call.Fills P) (fun _ => True) (s.replayFolderCommit expected manifest paths) := by
  rw [replayFolderCommit]
  refine uses_bind (reads_readJsonOptional _ _).fills fun found _ => ?_
  split
  · exact uses_pure trivial
  · refine uses_bind (uses_lift fun _ _ => trivial) fun _ _ => ?_
    exact uses_bind (uses_lift fun _ _ => trivial) fun _ _ => fills_recoverFolderCommit hP s _ paths

theorem fills_keepMetadata (hP : Fillable P) (expected : StoredOffer) (paths : StatePaths) :
    Uses (Call.Fills P) (fun _ => True) (keepMetadata expected paths) := by
  rw [keepMetadata]
  refine uses_bind (reads_readJsonOptional _ _).fills fun found _ => ?_
  split
  · exact uses_lift fun _ _ => trivial
  · refine uses_bind (Q := fun _ => True) ?_ fun _ _ => fills_atomicWriteJson _ (hP.metadata _)
    rw [discardPart]
    refine uses_bind (fills_fs trivial) fun there _ => ?_
    split
    · exact fills_removeIfExists _
    · exact uses_pure trivial

theorem fills_keepFolderMetadata (hP : Fillable P) (expected : StoredOffer) (manifest : FolderManifest)
    (paths : StatePaths) :
    Uses (Call.Fills P) (fun _ => True) (keepFolderMetadata expected manifest paths) := by
  rw [keepFolderMetadata]
  refine uses_bind (reads_readJsonOptional _ _).fills fun found _ => ?_
  split
  · refine uses_bind (uses_lift fun _ _ => trivial) fun _ _ => ?_
    refine uses_bind (reads_readJsonOptional _ _).fills fun stored _ => ?_
    split
    · exact uses_lift fun _ _ => trivial
    · exact uses_throw _
  · refine uses_bind (fills_removeDirAllIfExists _) fun _ _ => ?_
    refine uses_bind (fills_removeIfExists _) fun _ _ => ?_
    refine uses_bind (fills_atomicWriteJson _ (hP.metadata _)) fun _ _ => ?_
    exact fills_atomicWriteJson _ (hP.manifest _)

theorem fills_partLength (paths : StatePaths) : Uses (Call.Fills P) (fun _ => True) (partLength paths) := by
  rw [partLength]
  refine uses_bind (fills_attempt trivial) fun found _ => ?_
  split
  · exact uses_pure trivial
  · refine uses_bind (fills_fs trivial) fun _ _ => ?_
    exact uses_bind (fills_fs trivial) fun _ _ => uses_pure trivial
  · exact uses_throw _

theorem fills_prepare (hP : Writable P) (s : TransferStore) (offer : TransferOffer) :
    Uses (Call.Fills P) (fun _ => True) (s.prepare offer) := by
  rw [prepare]
  refine uses_bind (uses_lift fun _ _ => trivial) fun _ _ => ?_
  refine uses_bind (uses_throwIf _ _) fun _ _ => ?_
  refine uses_bind (fills_replayDone s _ _) fun done _ => ?_
  cases done with
  | some completed => exact uses_pure trivial
  | none =>
    refine uses_bind (fills_replayCommit hP s _ _) fun commit _ => ?_
    cases commit with
    | some completed => exact uses_pure trivial
    | none =>
      refine uses_bind (fills_keepMetadata hP.toFillable _ _) fun _ _ => ?_
      refine uses_bind (fills_partLength _) fun offset _ => ?_
      exact uses_bind (uses_throwIf _ _) fun _ _ => uses_pure trivial

theorem fills_resumePosition (staging : Path) (entries : List FolderEntry) (fileIndex completed : Nat) :
    Uses (Call.Fills P) (fun _ => True) (resumePosition staging entries fileIndex completed) := by
  induction entries generalizing fileIndex completed with
  | nil => exact uses_pure trivial
  | cons entry rest ih =>
    rw [resumePosition]
    refine uses_bind (uses_lift fun _ _ => trivial) fun path _ => ?_
    refine uses_bind (fills_ensureSafeParentDirectories _ _) fun _ _ => ?_
    refine uses_bind (fills_attempt trivial) fun found _ => ?_
    split
    · exact uses_pure trivial
    · exact uses_throw _
    · refine uses_bind (uses_throwIf _ _) fun _ _ => ?_
      refine uses_bind (uses_throwIf _ _) fun _ _ => ?_
      split
      · exact uses_pure trivial
      · refine uses_bind (reads_blake3FileHex path).fills fun digest _ => ?_
        split
        · exact uses_bind (fills_removeIfExists path) fun _ _ => uses_pure trivial
        · split
          · exact ih _ _
          · exact uses_throw _

theorem fills_prepareFolder (hP : Writable P) (s : TransferStore) (offer : TransferOffer) (manifest : FolderManifest) :
    Uses (Call.Fills P) (fun _ => True) (s.prepareFolder offer manifest) := by
  rw [prepareFolder]
  refine uses_bind (uses_lift fun _ _ => trivial) fun _ _ => ?_
  refine uses_bind (uses_lift fun _ _ => trivial) fun _ _ => ?_
  refine uses_bind (fills_replayFolderDone s _ _ _) fun done _ => ?_
  cases done with
  | some completed => exact uses_pure trivial
  | none =>
    refine uses_bind (fills_replayFolderCommit hP s _ _ _) fun commit _ => ?_
    cases commit with
    | some completed => exact uses_pure trivial
    | none =>
      refine uses_bind (fills_keepFolderMetadata hP.toFillable _ _ _) fun _ _ => ?_
      refine uses_bind (fills_ensureDirectory _) fun _ _ => ?_
      exact uses_bind (fills_resumePosition _ _ _ _) fun _ _ => uses_pure trivial

theorem fills_openFolderFile (prepared : PreparedFolderTransfer) (entry : FolderEntry) (offset : Nat) :
    Uses (Call.Fills P) (fun _ => True) (openFolderFile prepared entry offset) := by
  rw [openFolderFile]
  refine uses_bind (uses_throwIf _ _) fun _ _ => ?_
  refine uses_bind (uses_lift fun _ _ => trivial) fun path _ => ?_
  refine uses_bind (fills_ensureSafeParentDirectories _ _) fun _ _ => ?_
  refine uses_bind (Q := fun _ => True) ?_ fun _ _ => ?_
  · rw [checkCheckpoint]
    refine uses_bind (fills_attempt trivial) fun found _ => ?_
    split
    · refine uses_bind (uses_throwIf _ _) fun _ _ => ?_
      exact (uses_throwIf _ _).any
    · exact (uses_throwIf _ _).any
  · exact uses_bind (fills_fs trivial) fun _ _ => uses_pure trivial

theorem fills_verifyFolderFile (prepared : PreparedFolderTransfer) (entry : FolderEntry) :
    Uses (Call.Fills P) (fun _ => True) (verifyFolderFile prepared entry) := by
  rw [verifyFolderFile]
  refine uses_bind (uses_lift fun _ _ => trivial) fun path _ => ?_
  refine uses_bind (fills_ensureSafeParentDirectories _ _) fun _ _ => ?_
  refine uses_bind (Q := fun _ => True) ?_ fun intact _ => ?_
  · rw [folderFileIntact]
    refine uses_bind (fills_fs trivial) fun metadata _ => ?_
    split
    · exact uses_pure trivial
    · exact uses_bind (reads_blake3FileHex path).fills fun _ _ => uses_pure trivial
  · split
    · exact (reads_applyModifiedTime _ _).fills
    · exact uses_bind (fills_removeIfExists path) fun _ _ => uses_throw _

theorem fills_commitFile (hP : Committable P) (s : TransferStore) (offer : TransferOffer) :
    Uses (Call.Fills P) (fun _ => True) (s.commitFile offer) := by
  rw [commitFile]
  refine uses_bind (fills_commitRecord hP s offer none) fun commit h => ?_
  refine uses_bind (fills_moveOnce _ _) fun _ _ => ?_
  refine uses_bind (reads_ensureFileDestination _ _ _).fills fun _ _ => ?_
  refine uses_bind (reads_applyModifiedTime _ _).fills fun _ _ => ?_
  refine uses_bind (fills_atomicWriteJson _ (hP.done (StoredOffer.of offer) _ _ h)) fun _ _ => ?_
  refine uses_bind (fills_removeIfExists _) fun _ _ => ?_
  exact uses_bind (fills_removeIfExists _) fun _ _ => uses_pure trivial

theorem fills_commitFolder (hP : Committable P) (s : TransferStore) (offer : TransferOffer)
    (manifest : FolderManifest) (prepared : PreparedFolderTransfer) :
    Uses (Call.Fills P) (fun _ => True) (s.commitFolder offer manifest prepared) := by
  rw [commitFolder]
  refine uses_bind (fills_commitRecord hP s offer _) fun commit h => ?_
  refine uses_bind (fills_moveOnce _ _) fun _ _ => ?_
  refine uses_bind (reads_validateFolderContents _ _).fills fun _ _ => ?_
  refine uses_bind (reads_applyModifiedTime _ _).fills fun _ _ => ?_
  refine uses_bind (fills_atomicWriteJson _ (hP.done (StoredOffer.of offer) _ _ h)) fun _ _ => ?_
  refine uses_bind (fills_removeIfExists _) fun _ _ => ?_
  refine uses_bind (fills_removeIfExists _) fun _ _ => ?_
  exact uses_bind (fills_removeIfExists _) fun _ _ => uses_pure trivial

theorem fills_finalize (hP : Committable P) (s : TransferStore) (offer : TransferOffer) :
    Uses (Call.Fills P) (fun _ => True) (s.finalize offer) := by
  rw [finalize]
  refine uses_bind (fills_fs trivial) fun metadata _ => ?_
  refine uses_bind (uses_throwIf _ _) fun _ _ => ?_
  refine uses_bind (reads_blake3FileHex _).fills fun digest _ => ?_
  split
  · refine uses_bind (fills_removeIfExists _) fun _ _ => ?_
    refine uses_bind (fills_removeIfExists _) fun _ _ => ?_
    exact uses_bind (fills_removeIfExists _) fun _ _ => uses_throw _
  · exact fills_withLock _ (fills_commitFile hP s offer)

theorem fills_finalizeFolder (hP : Committable P) (s : TransferStore) (offer : TransferOffer)
    (manifest : FolderManifest) (prepared : PreparedFolderTransfer) :
    Uses (Call.Fills P) (fun _ => True) (s.finalizeFolder offer manifest prepared) := by
  rw [finalizeFolder]
  refine uses_bind (uses_lift fun _ _ => trivial) fun _ _ => ?_
  refine uses_bind (fills_createManifestDirectories _ _) fun _ _ => ?_
  refine uses_bind (reads_validateFolderContents _ _).fills fun _ _ => ?_
  refine uses_bind (reads_applyManifestTimes _ _).fills fun _ _ => ?_
  exact fills_withLock _ (fills_commitFolder hP s offer manifest prepared)

/-! Streams. -/

theorem fills_emit (e : TransferEvent) : Uses (Call.Fills P) (fun _ => True) (CoreM.emit e) :=
  uses_run.mpr ⟨trivial, fun _ _ _ => trivial⟩

theorem fills_respond (r : TransferResponse) : Uses (Call.Fills P) (fun _ => True) (CoreM.respond r) :=
  uses_run.mpr ⟨trivial, fun _ _ _ => trivial⟩

/-- What a sender sends is kept as bytes. -/
theorem fills_receiveInto {r : Receiving} (hw : ∀ n chunk d, P (r.write n chunk d))
    (fuel received : Nat) (incoming : Incoming) :
    Uses (Call.Fills P) (fun _ => True) (receiveInto r fuel received incoming) := by
  induction fuel generalizing received incoming with
  | zero => exact uses_pure trivial
  | succ fuel ih =>
    rw [receiveInto]
    split
    · exact uses_pure trivial
    · refine uses_bind (uses_lift fun _ _ => trivial) fun piece _ => ?_
      split
      · exact uses_bind (fills_fs trivial) fun _ _ => uses_throw _
      · refine uses_bind (fills_fs fun d => hw received _ d) fun _ _ => ?_
        exact uses_bind (fills_emit _) fun _ _ => ih _ _

theorem fills_receiveFiles (hP : Committable P) (offer : TransferOffer) (prepared : PreparedFolderTransfer)
    (entries : List FolderEntry) (offset already : Nat) (incoming : Incoming) :
    Uses (Call.Fills P) (fun _ => True) (receiveFiles offer prepared entries offset already incoming) := by
  induction entries generalizing offset already incoming with
  | nil => exact uses_pure trivial
  | cons entry entries ih =>
    rw [receiveFiles]
    refine uses_bind (fills_rejecting (fills_openFolderFile _ _ _)) fun path _ => ?_
    have hwrite : ∀ n chunk d, P ((receivingEntry offer entry path already).write n chunk d) :=
      fun _ _ _ => hP.bytes _
    refine uses_bind (fills_receiveInto hwrite _ _ _) fun rest _ => ?_
    refine uses_bind (fills_fs trivial) fun _ _ => ?_
    exact uses_bind (fills_rejecting (fills_verifyFolderFile _ _)) fun _ _ => ih _ _ _

theorem fills_handleFileStream (hP : Committable P) (s : TransferStore) (offer : TransferOffer) (peer : Peer) :
    Uses (Call.Fills P) (fun _ => True) (s.handleFileStream offer peer) := by
  rw [handleFileStream]
  refine uses_bind (fills_rejecting (fills_prepare hP.toWritable s offer)) fun outcome _ => ?_
  split
  · exact fills_respond _
  · next prepared =>
    have hwrite : ∀ n chunk d, P ((receivingFile offer prepared.partPath).write n chunk d) :=
      fun _ _ _ => hP.bytes _
    refine uses_bind (fills_respond _) fun _ _ => ?_
    refine uses_bind (fills_fs trivial) fun _ _ => ?_
    refine uses_bind (fills_emit _) fun _ _ => ?_
    refine uses_bind (fills_receiveInto hwrite _ _ _) fun rest _ => ?_
    refine uses_bind (uses_lift fun _ _ => trivial) fun extra _ => ?_
    refine uses_bind (uses_throwIf _ _) fun _ _ => ?_
    refine uses_bind (fills_fs trivial) fun _ _ => ?_
    refine uses_bind (fills_finalize hP s offer) fun completed _ => ?_
    exact uses_bind (fills_emit _) fun _ _ => fills_respond _

theorem fills_handleFolderStream (hP : Committable P) (s : TransferStore) (offer : TransferOffer)
    (manifest : FolderManifest) (peer : Peer) :
    Uses (Call.Fills P) (fun _ => True) (s.handleFolderStream offer manifest peer) := by
  rw [handleFolderStream]
  refine uses_bind (fills_rejecting (fills_prepareFolder hP.toWritable s offer manifest)) fun outcome _ => ?_
  split
  · exact fills_respond _
  · refine uses_bind (fills_rejecting (uses_throwIf _ _)) fun _ _ => ?_
    refine uses_bind (uses_throwIf _ _) fun _ _ => ?_
    refine uses_bind (fills_respond _) fun _ _ => ?_
    split
    · refine uses_bind (fills_emit _) fun _ _ => ?_
      refine uses_bind (fills_receiveFiles hP _ _ _ _ _ _) fun rest _ => ?_
      refine uses_bind (uses_lift fun _ _ => trivial) fun extra _ => ?_
      refine uses_bind (fills_rejecting (uses_throwIf _ _)) fun _ _ => ?_
      refine uses_bind (fills_rejecting (fills_finalizeFolder hP s offer manifest _)) fun completed _ => ?_
      exact uses_bind (fills_emit _) fun _ _ => fills_respond _
    · exact uses_throw _

theorem fills_handleStream (hP : Committable P) (s : TransferStore) (offer : TransferOffer)
    (manifest : Except CoreError FolderManifest) (peer : Peer) :
    Uses (Call.Fills P) (fun _ => True) (s.handleStream offer manifest peer) := by
  rw [handleStream]
  refine uses_bind (fills_rejecting (uses_lift (Q := fun _ => True) fun _ _ => trivial)) fun _ _ => ?_
  split
  · refine uses_bind (fills_rejecting (uses_lift (Q := fun _ => True) fun _ _ => trivial)) fun m _ => ?_
    refine uses_bind (fills_rejecting (uses_lift (Q := fun _ => True) fun _ _ => trivial)) fun _ _ => ?_
    exact fills_withLock _ (fills_handleFolderStream hP s offer m peer)
  · exact fills_withLock _ (fills_handleFileStream hP s offer peer)

/-! Opening. -/

theorem fills_createDirAll (p : Path) : Uses (Call.Fills P) (fun _ => True) (createDirAll p) := by
  induction p with
  | nil => exact uses_pure trivial
  | cons name p ih =>
    have hfailed : ∀ e, Uses (Call.Fills P) (fun _ => True)
        (do if ← isDirectory (name :: p) then return () else throw (.io e) : CoreM Unit) := by
      intro e
      refine uses_bind (Q := fun _ => True) ?_ fun found _ => ?_
      · rw [isDirectory]
        refine uses_bind (fills_attempt trivial) fun r _ => ?_
        split
        · exact uses_pure trivial
        · exact uses_pure trivial
      · split
        · exact uses_pure trivial
        · exact uses_throw _
    rw [createDirAll]
    refine uses_bind (fills_attempt trivial) fun first _ => ?_
    split
    · exact uses_pure trivial
    · refine uses_bind ih fun _ _ => ?_
      refine uses_bind (fills_attempt trivial) fun second _ => ?_
      split
      · exact uses_pure trivial
      · exact hfailed _
    · exact hfailed _

theorem fills_pruneStaleState (stale : Path → Bool) (directory : Path) :
    Uses (Call.Fills P) (fun _ => True) (pruneStaleState stale directory) := by
  have hall : ∀ names, Uses (Call.Fills P) (fun _ => True) (pruneEntries stale directory names) := by
    intro names
    induction names with
    | nil => exact uses_pure trivial
    | cons name names ih =>
      rw [pruneEntries]
      refine uses_bind (Q := fun _ => True) ?_ fun _ _ => ih
      rw [pruneEntry]
      refine uses_bind (fills_attempt trivial) fun r _ => ?_
      split
      · exact uses_pure trivial
      · split
        · split
          · exact uses_ignoring (fills_removeDirAll _)
          · exact uses_ignoring (Q := fun _ => True) (fills_fs trivial)
        · exact uses_pure trivial
  rw [pruneStaleState]
  refine uses_bind (fills_attempt trivial) fun listed _ => ?_
  split
  · exact hall _
  · exact uses_pure trivial

theorem fills_withCategoryRoots (stale : Path → Bool) (serial : Nat) (inbox : Path)
    (categoryRoots : InboxCategoryRoots) :
    Uses (Call.Fills P) (fun _ => True) (withCategoryRoots stale serial inbox categoryRoots) := by
  have hall : ∀ roots, Uses (Call.Fills P) (fun _ => True) (openRoots stale roots) := by
    intro roots
    induction roots with
    | nil => exact uses_pure trivial
    | cons r roots ih =>
      rw [openRoots]
      refine uses_bind (fills_createDirAll _) fun _ _ => ?_
      exact uses_bind (fills_pruneStaleState stale _) fun _ _ => ih
  rw [withCategoryRoots]
  exact uses_bind (hall _) fun _ _ => uses_pure trivial

/-- Whatever the file system answers, an operation writes only records that are accepted. -/
theorem fills_program (hP : Committable P) (s : TransferStore) (op : Operation) :
    (op.program s).Uses (Call.Fills P) fun _ => True := by
  have hforget : ∀ {γ : Type} {y : CoreM γ}, Uses (Call.Fills P) (fun _ => True) y →
      (Operation.forget y).Uses (Call.Fills P) fun _ => True := by
    intro γ y h
    rw [Operation.forget, Program.uses_bind]
    exact (uses_run.mp h).mono (fun _ h => h) fun _ _ => trivial
  cases op with
  | serve offer manifest peer =>
    rw [Operation.program, serveStream, Program.uses_bind]
    refine (uses_run.mp (fills_handleStream hP s offer manifest peer)).mono (fun _ h => h) fun r _ => ?_
    cases r with
    | ok _ => trivial
    | error e => exact ⟨trivial, fun _ => trivial⟩
  | prepare offer => exact hforget (fills_prepare hP.toWritable s offer)
  | prepareFolder offer manifest => exact hforget (fills_prepareFolder hP.toWritable s offer manifest)
  | openFolderFile offer prepared entry offset => exact hforget (fills_openFolderFile prepared entry offset)
  | verifyFolderFile offer prepared entry => exact hforget (fills_verifyFolderFile prepared entry)
  | finalize offer => exact hforget (fills_finalize hP s offer)
  | finalizeFolder offer manifest prepared => exact hforget (fills_finalizeFolder hP s offer manifest prepared)
  | reopen stale => exact hforget (fills_withCategoryRoots stale _ _ _)

end Documents

end InkHole
