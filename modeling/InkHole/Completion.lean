import InkHole.FolderContents
import InkHole.StateRecords

/-! A transfer that is answered to be complete is there as it was offered, wherever the store was
cut off before. -/

set_option linter.unusedSectionVars false

namespace InkHole

open InkHole.CoreM Fallible FileTree TransferStore

section Completion

variable [Externals] {α β : Type} {L : Layout} {s : TransferStore} {w : World} {r : Path} {id : String}
  {offer : TransferOffer} {manifest : FolderManifest}

/-- The receipt is that of the offer, and the file is at the destination as it was offered. -/
def CompletedTransfer.IsFile (c : CompletedTransfer) (offer : TransferOffer) (w : World) : Prop :=
  c.receipt = offer.receipt ∧ FileAt w c.destination offer.size offer.blake3

/-- The receipt is that of the offer, and the folder is at the destination as the manifest lists it. -/
def CompletedTransfer.IsFolder (c : CompletedTransfer) (offer : TransferOffer) (manifest : FolderManifest)
    (w : World) : Prop :=
  c.receipt = offer.receipt ∧ FolderAt w c.destination manifest

variable {c : CompletedTransfer} {v : World}

/-- What the store does in its state directories leaves the item as it is. -/
theorem CompletedTransfer.IsFile.discreet (h : c.IsFile offer w) (hd : Discreet L s w v)
    (hout : ¬ L.Inside c.destination) : c.IsFile offer v :=
  ⟨h.1, h.2.congr (hd.frame _ hout)⟩

theorem CompletedTransfer.IsFolder.discreet (h : c.IsFolder offer manifest w) (hd : Discreet L s w v)
    (hout : ¬ L.Inside c.destination) (hclear : L.Clear c.destination) : c.IsFolder offer manifest v :=
  ⟨h.1, h.2.congr fun q hq => hd.frame q (hclear.not_inside hout hq)⟩

/-! Records that are read again. -/

theorem ensureSameOffer_ok {expected actual : StoredOffer} {u : Unit} (h : ensureSameOffer expected actual = .ok u) :
    actual = expected := by
  rw [ensureSameOffer] at h
  split at h
  · cases h
  · next hn => exact (not_not.mp hn).symm

theorem ensureSameManifest_ok {expected : FolderManifest} {actual : Option FolderManifest} {u : Unit}
    (h : ensureSameManifest expected actual = .ok u) : actual = some expected := by
  rw [ensureSameManifest] at h
  split at h
  · cases h
  · next hn => exact not_not.mp hn

theorem Record.kept_done {record : Record} {d : DoneRecord} (h : record.toDone = some d) (hk : record.Kept L s) :
    d.receipt = d.offer.receipt ∧ L.Clear (d.destination :: s.destinationRootStored d.offer) := by
  cases record with
  | done d' => exact Option.some.inj h ▸ hk
  | _ => cases h

theorem Record.kept_commit {record : Record} {c : CommitRecord} (h : record.toCommit = some c)
    (hk : record.Kept L s) : L.Clear (c.destination :: s.destinationRootStored c.offer) := by
  cases record with
  | commit c' => exact Option.some.inj h ▸ hk
  | _ => cases h

/-- A check that is passed has found the folder as it is listed. -/
theorem Trusted.folderAt {root : Path} {name : String} (h : Trusted L s w.fs) (hr : root ∈ L.roots)
    (hclear : L.Clear (name :: root)) (hcheck : eval (validateFolderContents (name :: root) manifest) w = .ok ()) :
    FolderAt w (name :: root) manifest := by
  have hrun := hcheck
  rw [validateFolderContents] at hrun
  obtain ⟨size, hv, -⟩ := eval_lift_bind_ok hrun
  exact (eval_validateFolderContents hv (List.cons_ne_nil _ _) (h.named hclear)
    (h.sound.real_destination hr name)).mp hcheck

theorem completed_file {v : DoneRecord} (hs : L.Sound w.fs)
    (hr : s.destinationRootStored v.offer ∈ L.roots) (h : eval (s.validateCompleted v) w = .ok (some c)) :
    FileAt w c.destination v.receipt.size v.receipt.blake3 ∧ c.receipt = v.receipt := by
  have hname : validateDestinationName v.destination = .ok () := by
    rw [validateCompleted] at h
    exact (eval_lift_bind_ok h).choose_spec.1
  obtain ⟨hfile, rfl⟩ := (completed_file_iff hname rfl (hs.real_destination hr _) c).mp h
  exact ⟨hfile, rfl⟩

theorem completed_folder {v : DoneRecord} (hw : Trusted L s w.fs)
    (hr : s.destinationRootStored v.offer ∈ L.roots) (hclear : L.Clear (v.destination :: s.destinationRootStored v.offer))
    (hm : v.manifest = some manifest) (h : eval (s.validateCompletedFolder v) w = .ok (some c)) :
    FolderAt w c.destination manifest ∧ c.receipt = v.receipt := by
  have hname : validateDestinationName v.destination = .ok () := by
    rw [validateCompletedFolder] at h
    exact (eval_lift_bind_ok h).choose_spec.1
  rw [eval_validateCompletedFolder hname hm rfl, checked_some_iff] at h
  obtain ⟨-, hcheck, rfl⟩ := h
  exact ⟨hw.folderAt hr hclear hcheck, rfl⟩

section Trustworthy

variable (hid : StateId offer.transferId) (hr : s.destinationRoot offer ∈ L.roots) (hw : Trusted L s w.fs)

include hid hr hw

theorem trustworthy_replayDone :
    Trustworthy L s (fun found v => Discreet L s w v ∧ ∀ c, found = some c → c.IsFile offer v)
      (s.replayDone (StoredOffer.of offer) (s.paths offer)) w := by
  have hdone := L.owned_statePath hr offer.transferId "done.json"
  rw [s.paths_eq hid, replayDone]
  refine trustworthy_read hdone.inside hw (along_pure ⟨hw.discreet, fun c hc => by cases hc⟩) ?_
  intro record done hrecord hkept
  refine trustworthy_lift fun _ hsame => ?_
  have hoffer := ensureSameOffer_ok hsame
  refine trustworthy_reads (reads_validateCompleted s done) hw fun found hfound => ?_
  cases found with
  | none =>
    refine along_bind (trustworthy_removeIfExists hdone hw.discreet) fun _ v h => ?_
    exact along_pure ⟨h, fun c hc => by cases hc⟩
  | some completed =>
    obtain ⟨hfile, hreceipt⟩ := completed_file hw.sound (hoffer ▸ hr) hfound
    have hsame : done.receipt = offer.receipt := by
      rw [(Record.kept_done hrecord hkept).1, hoffer]
      rfl
    rw [hsame] at hfile hreceipt
    refine along_pure ⟨hw.discreet, ?_⟩
    rintro _ ⟨⟩
    exact ⟨hreceipt, hfile⟩

theorem trustworthy_replayFolderDone :
    Trustworthy L s (fun found v => Discreet L s w v ∧ ∀ c, found = some c → c.IsFolder offer manifest v)
      (s.replayFolderDone (StoredOffer.of offer) manifest (s.paths offer)) w := by
  have hdone := L.owned_statePath hr offer.transferId "done.json"
  rw [s.paths_eq hid, replayFolderDone]
  refine trustworthy_read hdone.inside hw (along_pure ⟨hw.discreet, fun c hc => by cases hc⟩) ?_
  intro record done hrecord hkept
  refine trustworthy_lift fun _ hsame => trustworthy_lift fun _ hlisted => ?_
  have hoffer := ensureSameOffer_ok hsame
  refine trustworthy_reads (reads_validateCompletedFolder s done) hw fun found hfound => ?_
  cases found with
  | none =>
    refine along_bind (trustworthy_removeIfExists hdone hw.discreet) fun _ v h => ?_
    exact along_pure ⟨h, fun c hc => by cases hc⟩
  | some completed =>
    obtain ⟨hkept, hclear⟩ := Record.kept_done hrecord hkept
    obtain ⟨hfolder, hreceipt⟩ := completed_folder hw (hoffer ▸ hr) hclear (ensureSameManifest_ok hlisted) hfound
    have hsame : done.receipt = offer.receipt := by
      rw [hkept, hoffer]
      rfl
    refine along_pure ⟨hw.discreet, ?_⟩
    rintro _ ⟨⟩
    exact ⟨hreceipt.trans hsame, hfolder⟩

/-! A commit that was cut off. -/

theorem trustworthy_recoverCommit {record : CommitRecord} (hoffer : record.offer = StoredOffer.of offer)
    (hclear : L.Clear (record.destination :: s.destinationRootStored record.offer)) :
    Trustworthy L s (fun found v => Discreet L s w v ∧ ∀ c, found = some c → c.IsFile offer v)
      (s.recoverCommit record (s.paths offer)) w := by
  obtain ⟨stored, destination, listed⟩ := record
  obtain rfl : stored = StoredOffer.of offer := hoffer
  have howned := L.owned_statePath hr offer.transferId
  have hout := L.not_inside_destination hr destination
  rw [s.paths_eq hid, recoverCommit]
  refine trustworthy_lift fun _ hname => trustworthy_reads (reads_fs trivial) hw fun there hthere => ?_
  split
  · exact along_pure ⟨hw.discreet, fun c hc => by cases hc⟩
  · refine trustworthy_reads (reads_ensureFileDestination _ _ _) hw fun _ hcheck => ?_
    have hfile := (eval_ensureFileDestination (hw.sound.real_destination hr destination) (List.cons_ne_nil _ _)).mp hcheck
    refine along_bind (trustworthy_atomicWriteJson hid hr .done ⟨rfl, hclear⟩ hw.discreet) fun _ _ h => ?_
    refine along_bind (trustworthy_removeIfExists (howned "part") h) fun _ _ h => ?_
    refine along_bind (trustworthy_removeIfExists (howned "json") h) fun _ _ h => ?_
    refine along_bind (trustworthy_removeIfExists (howned "commit.json") h) fun _ _ h => ?_
    refine along_pure ⟨h, ?_⟩
    rintro _ ⟨⟩
    exact CompletedTransfer.IsFile.discreet ⟨rfl, hfile⟩ h hout

theorem trustworthy_recoverFolderCommit {record : CommitRecord} (hoffer : record.offer = StoredOffer.of offer)
    (hm : record.manifest = some manifest)
    (hclear : L.Clear (record.destination :: s.destinationRootStored record.offer)) :
    Trustworthy L s (fun found v => Discreet L s w v ∧ ∀ c, found = some c → c.IsFolder offer manifest v)
      (s.recoverFolderCommit record (s.paths offer)) w := by
  obtain ⟨stored, destination, listed⟩ := record
  obtain rfl : stored = StoredOffer.of offer := hoffer
  obtain rfl : listed = some manifest := hm
  have howned := L.owned_statePath hr offer.transferId
  have hout := L.not_inside_destination hr destination
  rw [s.paths_eq hid, recoverFolderCommit]
  refine trustworthy_lift fun _ hname => trustworthy_reads (reads_fs trivial) hw fun there hthere => ?_
  split
  · exact along_pure ⟨hw.discreet, fun c hc => by cases hc⟩
  · refine trustworthy_reads (reads_validateFolderContents _ _) hw fun _ hcheck => ?_
    refine along_bind (trustworthy_atomicWriteJson hid hr .done ⟨rfl, hclear⟩ hw.discreet) fun _ _ h => ?_
    refine along_bind (trustworthy_removeDirAllIfExists (howned "folder.part") h) fun _ _ h => ?_
    refine along_bind (trustworthy_removeIfExists (howned "json") h) fun _ _ h => ?_
    refine along_bind (trustworthy_removeIfExists (howned "manifest.json") h) fun _ _ h => ?_
    refine along_bind (trustworthy_removeIfExists (howned "commit.json") h) fun _ _ h => ?_
    refine along_pure ⟨h, ?_⟩
    rintro _ ⟨⟩
    exact CompletedTransfer.IsFolder.discreet ⟨rfl, hw.folderAt hr hclear hcheck⟩ h hout hclear

theorem trustworthy_replayCommit :
    Trustworthy L s (fun found v => Discreet L s w v ∧ ∀ c, found = some c → c.IsFile offer v)
      (s.replayCommit (StoredOffer.of offer) (s.paths offer)) w := by
  have hcommit := L.owned_statePath hr offer.transferId "commit.json"
  rw [replayCommit, s.paths_eq hid]
  refine trustworthy_read hcommit.inside hw (along_pure ⟨hw.discreet, fun c hc => by cases hc⟩) ?_
  intro record commit hrecord hkept
  refine trustworthy_lift fun _ hsame => ?_
  rw [← s.paths_eq hid]
  exact trustworthy_recoverCommit hid hr hw (ensureSameOffer_ok hsame) (Record.kept_commit hrecord hkept)

theorem trustworthy_replayFolderCommit :
    Trustworthy L s (fun found v => Discreet L s w v ∧ ∀ c, found = some c → c.IsFolder offer manifest v)
      (s.replayFolderCommit (StoredOffer.of offer) manifest (s.paths offer)) w := by
  have hcommit := L.owned_statePath hr offer.transferId "commit.json"
  rw [replayFolderCommit, s.paths_eq hid]
  refine trustworthy_read hcommit.inside hw (along_pure ⟨hw.discreet, fun c hc => by cases hc⟩) ?_
  intro record commit hrecord hkept
  refine trustworthy_lift fun _ hsame => trustworthy_lift fun _ hlisted => ?_
  rw [← s.paths_eq hid]
  exact trustworthy_recoverFolderCommit hid hr hw (ensureSameOffer_ok hsame) (ensureSameManifest_ok hlisted)
    (Record.kept_commit hrecord hkept)

/-! Preparations. -/

theorem trustworthy_resume :
    Trustworthy L s (fun outcome _ => ∃ prepared, outcome = .resume prepared) (do
      keepMetadata (StoredOffer.of offer) (s.paths offer)
      let offset ← partLength (s.paths offer)
      throwIf (offer.size < offset) (.invalidTransfer "partial transfer is larger than the offer")
      return PrepareOutcome.resume ⟨(s.paths offer).part, offset⟩) w := by
  have hkept := fillable_kept L s
  have hlength : Uses (L.Tame offer.transferId) (fun _ => True)
      (partLength (statePaths (s.destinationRoot offer) offer.transferId)) := by
    rw [partLength]
    refine uses_bind (tame_attempt trivial) fun found _ => ?_
    split
    · exact uses_pure trivial
    · refine uses_bind (tame_fs (L.owned_statePath hr _ "part")) fun _ _ => ?_
      exact uses_bind (tame_fs trivial) fun _ _ => uses_pure trivial
    · exact uses_throw _
  rw [s.paths_eq hid]
  refine along_bind (trustworthy_tame (tame_keepMetadata hid hr _) (fills_keepMetadata hkept _ _)
    (spells_keepMetadata hr _) hw.discreet) ?_
  rintro _ v ⟨-, h⟩
  refine along_bind (trustworthy_tame hlength (fills_partLength _) (spells_partLength hr) h) ?_
  rintro offset v ⟨-, h⟩
  exact trustworthy_throwIf fun _ => along_pure ⟨_, rfl⟩

theorem trustworthy_resumeFolder :
    Trustworthy L s (fun outcome _ => ∃ prepared, outcome = .resume prepared) (do
      keepFolderMetadata (StoredOffer.of offer) manifest (s.paths offer)
      ensureDirectory (s.paths offer).folderPart
      let prepared ← resumePosition (s.paths offer).folderPart manifest.files 0 0
      return PrepareFolderOutcome.resume prepared) w := by
  have hkept := fillable_kept L s
  have howned := L.owned_statePath hr offer.transferId "folder.part"
  rw [s.paths_eq hid]
  refine along_bind (trustworthy_tame (tame_keepFolderMetadata hid hr _ _) (fills_keepFolderMetadata hkept _ _ _)
    (spells_keepFolderMetadata hr _ _) hw.discreet) ?_
  rintro _ v ⟨-, h⟩
  refine along_bind (trustworthy_tame (tame_ensureDirectory howned) (fills_ensureDirectory _)
    (spells_ensureDirectory (Layout.spelled_statePath hr _ _)) h) ?_
  rintro _ v ⟨-, h⟩
  refine along_bind (trustworthy_tame (tame_resumePosition howned _ _ _) (fills_resumePosition _ _ _ _)
    (spells_resumePosition _ _ _ _) h) ?_
  rintro prepared v ⟨-, h⟩
  exact along_pure ⟨_, rfl⟩

omit hid in
theorem trustworthy_prepare :
    Trustworthy L s (fun outcome v => ∀ c, outcome = .complete c → c.IsFile offer v) (s.prepare offer) w := by
  rw [prepare]
  refine trustworthy_lift fun _ hvalid => trustworthy_throwIf fun _ => ?_
  have hid := stateId_of_parseUuid (TransferOffer.validate_parseUuid hvalid)
  refine along_bind (trustworthy_replayDone hid hr hw) ?_
  rintro found v ⟨h, hfound⟩
  cases found with
  | some completed =>
    refine along_pure ?_
    rintro _ ⟨⟩
    exact hfound _ rfl
  | none =>
    refine along_bind (trustworthy_replayCommit hid hr h.trusted) ?_
    rintro found v ⟨h, hfound⟩
    cases found with
    | some completed =>
      refine along_pure ?_
      rintro _ ⟨⟩
      exact hfound _ rfl
    | none =>
      refine (trustworthy_resume hid hr h.trusted).mono (fun _ hi => hi) ?_ fun _ _ hf => hf
      rintro _ _ ⟨prepared, rfl⟩ c hc
      cases hc

omit hid in
theorem trustworthy_prepareFolder :
    Trustworthy L s (fun outcome v => ∀ c, outcome = .complete c → c.IsFolder offer manifest v)
      (s.prepareFolder offer manifest) w := by
  rw [prepareFolder]
  refine trustworthy_lift fun _ hvalid => trustworthy_lift fun _ _ => ?_
  have hid := stateId_of_parseUuid (TransferOffer.validate_parseUuid hvalid)
  refine along_bind (trustworthy_replayFolderDone hid hr hw) ?_
  rintro found v ⟨h, hfound⟩
  cases found with
  | some completed =>
    refine along_pure ?_
    rintro _ ⟨⟩
    exact hfound _ rfl
  | none =>
    refine along_bind (trustworthy_replayFolderCommit hid hr h.trusted) ?_
    rintro found v ⟨h, hfound⟩
    cases found with
    | some completed =>
      refine along_pure ?_
      rintro _ ⟨⟩
      exact hfound _ rfl
    | none =>
      refine (trustworthy_resumeFolder hid hr h.trusted).mono (fun _ hi => hi) ?_ fun _ _ hf => hf
      rintro _ _ ⟨prepared, rfl⟩ c hc
      cases hc

/-! Commits. -/

/-- A destination that is recorded was free when it was, and then lay above no state directory. -/
theorem trustworthy_commitRecord (listed : Option FolderManifest) :
    Trustworthy L s (fun record v => Discreet L s w v ∧ ProperName record.destination ∧
      L.Clear (record.destination :: s.destinationRoot offer)) (s.commitRecord offer listed) w := by
  have hcommit := L.owned_statePath hr offer.transferId "commit.json"
  have hreads : ∀ {δ : Type} (c : Call δ), c.Looks → c.Reads := by
    intro δ c hc
    cases c with
    | fs op =>
      cases op with
      | tryExists p => trivial
      | _ => exact hc.elim
    | _ => exact hc.elim
  have hlooks := (looks_uniqueDestination (s.destinationRoot offer) (StoredOffer.of offer).filename).mono hreads
    fun _ hq => hq
  have hproper := uses_uniqueDestination (s.destinationRoot offer) offer.filename
  rw [commitRecord, s.paths_eq hid]
  refine trustworthy_read hcommit.inside hw (trustworthy_reads hlooks hw fun name hname => ?_) ?_
  · have hclear := hw.sound.clear (uniqueDestination_free hname)
    refine along_bind (trustworthy_atomicWriteJson hid hr .commit hclear hw.discreet) fun _ v h => ?_
    obtain ⟨index, rfl⟩ := eval_uses hproper hname
    exact along_pure ⟨h, (portable_destinationName offer.filename index).proper, hclear⟩
  · intro record commit hrecord hkept
    refine trustworthy_lift fun _ hsame => trustworthy_lift fun _ _ => trustworthy_lift fun _ hname => ?_
    have hclear := Record.kept_commit hrecord hkept
    rw [ensureSameOffer_ok hsame] at hclear
    exact along_pure ⟨hw.discreet, ((validateDestinationName_iff _).mp hname).proper, hclear⟩

omit hid in
theorem trustworthy_moveOnce (state : String) {name : String} (hn : ProperName name) :
    Trustworthy L s (fun _ v => Trusted L s v.fs)
      (moveOnce (state :: stateDirectory :: s.destinationRoot offer) (name :: s.destinationRoot offer)) w := by
  rw [moveOnce]
  refine trustworthy_reads (reads_fs trivial) hw fun there hthere => ?_
  split
  · have hmoved := hw.deliver hr ⟨state, rfl⟩ hn
    refine along_run.mpr ⟨hmoved, ?_⟩
    rw [Program.along_ret]
    split
    · exact hmoved
    · trivial
  · exact along_pure hw

theorem trustworthy_commitFile :
    Trustworthy L s (fun c v => c.IsFile offer v) (s.commitFile offer) w := by
  have howned := L.owned_statePath hr offer.transferId
  rw [commitFile]
  refine along_bind (trustworthy_commitRecord hid hr hw none) ?_
  rintro ⟨stored, destination, listed⟩ v ⟨h, hname, hclear⟩
  rw [s.paths_eq hid]
  refine along_bind (trustworthy_moveOnce hr h.trusted _ hname) fun _ v hv => ?_
  refine trustworthy_reads (reads_ensureFileDestination _ _ _) hv fun _ hcheck => ?_
  have hfile := (eval_ensureFileDestination (hv.sound.real_destination hr destination) (List.cons_ne_nil _ _)).mp hcheck
  refine trustworthy_reads (reads_applyModifiedTime _ _) hv fun _ _ => ?_
  refine along_bind (trustworthy_atomicWriteJson hid hr .done ⟨rfl, hclear⟩ hv.discreet) fun _ _ h => ?_
  refine along_bind (trustworthy_removeIfExists (howned "json") h) fun _ _ h => ?_
  refine along_bind (trustworthy_removeIfExists (howned "commit.json") h) fun _ _ h => ?_
  exact along_pure (CompletedTransfer.IsFile.discreet ⟨rfl, hfile⟩ h (L.not_inside_destination hr destination))

theorem trustworthy_commitFolder {prepared : PreparedFolderTransfer}
    (hp : prepared.stagingPath = (s.paths offer).folderPart) :
    Trustworthy L s (fun c v => c.IsFolder offer manifest v) (s.commitFolder offer manifest prepared) w := by
  have howned := L.owned_statePath hr offer.transferId
  rw [s.paths_eq hid] at hp
  rw [commitFolder, hp]
  refine along_bind (trustworthy_commitRecord hid hr hw _) ?_
  rintro ⟨stored, destination, listed⟩ v ⟨h, hname, hclear⟩
  rw [s.paths_eq hid]
  refine along_bind (trustworthy_moveOnce hr h.trusted _ hname) fun _ v hv => ?_
  refine trustworthy_reads (reads_validateFolderContents _ _) hv fun _ hcheck => ?_
  have hfolder := hv.folderAt hr hclear hcheck
  refine trustworthy_reads (reads_applyModifiedTime _ _) hv fun _ _ => ?_
  refine along_bind (trustworthy_atomicWriteJson hid hr .done ⟨rfl, hclear⟩ hv.discreet) fun _ _ h => ?_
  refine along_bind (trustworthy_removeIfExists (howned "json") h) fun _ _ h => ?_
  refine along_bind (trustworthy_removeIfExists (howned "manifest.json") h) fun _ _ h => ?_
  refine along_bind (trustworthy_removeIfExists (howned "commit.json") h) fun _ _ h => ?_
  refine along_pure (CompletedTransfer.IsFolder.discreet ⟨rfl, hfolder⟩ h ?_ hclear)
  exact L.not_inside_destination hr destination

theorem trustworthy_finalize : Trustworthy L s (fun c v => c.IsFile offer v) (s.finalize offer) w := by
  have howned := L.owned_statePath hr offer.transferId
  rw [finalize, s.paths_eq hid]
  refine trustworthy_reads (reads_fs trivial) hw fun metadata _ => trustworthy_throwIf fun _ => ?_
  refine trustworthy_reads (reads_blake3FileHex _) hw fun digest _ => ?_
  split
  · refine along_bind (trustworthy_removeIfExists (howned "part") hw.discreet) fun _ _ h => ?_
    refine along_bind (trustworthy_removeIfExists (howned "json") h) fun _ _ h => ?_
    refine along_bind (trustworthy_removeIfExists (howned "commit.json") h) fun _ _ h => ?_
    exact along_throw trivial
  · refine trustworthy_withLock _ hw (fun v hv => trustworthy_commitFile hid hr (hv ▸ hw)) fun c v v' hv hc => ?_
    exact ⟨hc.1, hc.2.congr (by rw [hv])⟩

theorem trustworthy_finalizeFolder {prepared : PreparedFolderTransfer}
    (hp : prepared.stagingPath = (s.paths offer).folderPart) :
    Trustworthy L s (fun c v => c.IsFolder offer manifest v) (s.finalizeFolder offer manifest prepared) w := by
  have howned : L.Owned offer.transferId prepared.stagingPath := by
    rw [hp, s.paths_eq hid]
    exact L.owned_statePath hr offer.transferId "folder.part"
  rw [finalizeFolder]
  refine trustworthy_lift fun _ _ => ?_
  refine along_bind (trustworthy_tame (tame_createManifestDirectories howned manifest)
    (fills_createManifestDirectories _ _) (spells_createManifestDirectories _ _) hw.discreet) ?_
  rintro _ v ⟨-, h⟩
  refine trustworthy_reads (reads_validateFolderContents _ _) h.trusted fun _ _ => ?_
  refine trustworthy_reads (reads_applyManifestTimes _ _) h.trusted fun _ _ => ?_
  refine trustworthy_withLock _ h.trusted (fun u hu => trustworthy_commitFolder hid hr (hu ▸ h.trusted) hp) ?_
  exact fun c u u' hu hc => ⟨hc.1, hc.2.congr fun q _ => by rw [hu]⟩

end Trustworthy

/-! Runs. -/

/-- A handler writes bytes to a file that it receives into. -/
def Layout.Receives (L : Layout) : FsOp Contents β → Prop
  | .edit p f => L.Inside p ∧ ∀ d, ∃ b, f d = .bytes b
  | _ => False

/-- Not a whole handler. -/
def Operation.Single : Operation → Prop
  | .serve .. => False
  | _ => True

/-- The worlds that a store comes to: operations run one after the other, each cut off after any
number of calls, and between two of them handlers write what they receive and a user edits the files
outside the state directories. -/
inductive History (L : Layout) (s : TransferStore) (w₀ : World) : World → Prop where
  | start : History L s w₀ w₀
  | operation {w : World} (op : Operation) (n : Nat) : History L s w₀ w → op.Valid s → op.Single →
    History L s w₀ ((op.program s).runFor n w)
  | received {w : World} {β : Type} (op : FsOp Contents β) : History L s w₀ w → L.Receives op →
    History L s w₀ (exec (Call.fs op) w).2
  | edited {w w' : World} : History L s w₀ w → Edited L w w' → w'.fs.Named [] → History L s w₀ w'

theorem Trusted.received {op : FsOp Contents β} (h : Trusted L s w.fs) (hop : L.Receives op) :
    Trusted L s (exec (Call.fs op) w).2.fs := by
  cases op with
  | edit p f =>
    refine h.confined (.edit p f) hop.1 (fun d => ?_) trivial
    obtain ⟨b, hb⟩ := hop.2 d
    rw [hb]
    trivial
  | _ => exact hop.elim

/-- An operation that is cut off leaves records that hold. -/
theorem trusted_program (hroots : ∀ r ∈ s.categoryRoots.allRoots s.inbox, r ∈ L.roots) {op : Operation}
    (hv : op.Valid s) (hsingle : op.Single) (hw : Trusted L s w.fs) :
    (op.program s).Along (fun v => Trusted L s v.fs) (fun _ _ => True) w := by
  have hroot := Operation.root_mem hroots
  have hforget : ∀ {γ : Type} {Q : γ → World → Prop} {x : CoreM γ}, Trustworthy L s Q x w →
      (Operation.forget x).Along (fun v => Trusted L s v.fs) (fun _ _ => True) w := by
    intro γ Q x hx
    rw [Operation.forget, Program.along_bind]
    exact (along_run.mp hx).post fun _ _ _ => trivial
  have howned : ∀ {offer : TransferOffer} {prepared : PreparedFolderTransfer},
      Externals.parseUuid offer.transferId ∧ prepared.stagingPath = (s.paths offer).folderPart →
      L.Owned offer.transferId prepared.stagingPath := by
    rintro offer prepared ⟨hid, hp⟩
    rw [hp, s.paths_eq (stateId_of_parseUuid hid)]
    exact L.owned_statePath (hroot offer) _ _
  cases op with
  | serve => exact hsingle.elim
  | prepare offer => exact hforget (trustworthy_prepare (hroot offer) hw)
  | prepareFolder offer manifest => exact hforget (trustworthy_prepareFolder (hroot offer) hw)
  | openFolderFile offer prepared entry offset =>
    exact hforget (trustworthy_tame (tame_openFolderFile (howned hv) entry offset)
      (fills_openFolderFile prepared entry offset) (spells_openFolderFile prepared entry offset) hw.discreet)
  | verifyFolderFile offer prepared entry =>
    exact hforget (trustworthy_tame (tame_verifyFolderFile (howned hv) entry)
      (fills_verifyFolderFile prepared entry) (spells_verifyFolderFile prepared entry) hw.discreet)
  | finalize offer => exact hforget (trustworthy_finalize (stateId_of_parseUuid hv) (hroot offer) hw)
  | finalizeFolder offer manifest prepared =>
    exact hforget (trustworthy_finalizeFolder (stateId_of_parseUuid hv.1) (hroot offer) hw hv.2)
  | reopen stale =>
    have huses := uses_run.mp (opens_withCategoryRoots stale s.serial hroots)
    have hrun := huses.along (R := fun v v' : World => Trusted L s v.fs → Trusted L s v'.fs) (w := w)
      (fun _ _ _ h h' hv => h' (h hv)) (fun _ _ hc hv => hv.opens hc) id
    rw [Operation.program, Operation.forget, Program.along_bind]
    exact hrun.mono (fun _ h => h hw) fun _ _ _ => trivial

theorem History.trusted (hroots : ∀ r ∈ s.categoryRoots.allRoots s.inbox, r ∈ L.roots) {w₀ : World}
    (hw : Trusted L s w₀.fs) (h : History L s w₀ w) : Trusted L s w.fs := by
  induction h with
  | start => exact hw
  | operation op n _ hv hsingle ih => exact (trusted_program hroots hv hsingle ih).runFor ih n
  | received op _ hop ih => exact ih.received hop
  | edited _ he hn ih => exact ih.edited he hn

theorem trusted_fresh {t : FileTree Contents} (hs : L.Sound t) (hfresh : ∀ p, L.Inside p → t.get p = none)
    (hnamed : t.Named []) : Trusted L s t := by
  refine ⟨hs, fun p hp d hd => ?_, ?_⟩
  · rw [hfresh p hp] at hd
    cases hd
  · rintro _ hp name q rfl
    exact .inl (hnamed name q hp List.nil_suffix)

theorem Trustworthy.result {Q : α → World → Prop} {x : CoreM α} {a : α} (h : Trustworthy L s Q x w)
    (hrun : x.run.run w = (.ok a, v)) : Q a v := by
  have hend := (along_run.mp h).run
  rw [hrun] at hend
  exact hend

/-- Whatever has happened before to a store that began with empty state directories: a transfer that
it answers to be complete has the receipt of its offer, and the file is at its destination as it was
offered, the folder as its manifest lists it. -/
theorem completed_exact (hroots : ∀ r ∈ s.categoryRoots.allRoots s.inbox, r ∈ L.roots) {w₀ : World}
    (hs : L.Sound w₀.fs) (hfresh : ∀ p, L.Inside p → w₀.fs.get p = none) (hnamed : w₀.fs.Named [])
    (h : History L s w₀ w) (offer : TransferOffer) (manifest : FolderManifest) :
    (∀ c v, (s.prepare offer).run.run w = (.ok (.complete c), v) → c.IsFile offer v) ∧
    (∀ c v, (s.prepareFolder offer manifest).run.run w = (.ok (.complete c), v) → c.IsFolder offer manifest v) ∧
    (∀ c v, (Operation.finalize offer).Valid s → (s.finalize offer).run.run w = (.ok c, v) → c.IsFile offer v) ∧
    (∀ prepared c v, (Operation.finalizeFolder offer manifest prepared).Valid s →
      (s.finalizeFolder offer manifest prepared).run.run w = (.ok c, v) → c.IsFolder offer manifest v) := by
  have hw := h.trusted hroots (trusted_fresh hs hfresh hnamed)
  have hroot := Operation.root_mem hroots offer
  refine ⟨fun c v hrun => ?_, fun c v hrun => ?_, fun c v hv hrun => ?_, fun prepared c v hv hrun => ?_⟩
  · exact (trustworthy_prepare hroot hw).result hrun c rfl
  · exact (trustworthy_prepareFolder hroot hw).result hrun c rfl
  · exact (trustworthy_finalize (stateId_of_parseUuid hv) hroot hw).result hrun
  · exact (trustworthy_finalizeFolder (stateId_of_parseUuid hv.1) hroot hw hv.2).result hrun

end Completion

attribute [local instance] Sample.externals

namespace Sample

/-- The first transfer is prepared, and its letter is received. -/
def letterReceived : World :=
  let prepared := ((Operation.prepare first).program (store 0)).runFor 20 world
  (exec (Call.fs (.edit (statePath ["inbox"] first.transferId "part") (Contents.append [65]))) prepared).2

end Sample

open Sample in
/-- The letter is delivered and its receipt given. -/
theorem completed_exact_first : ∃ c v, ((store 0).finalize first).run.run letterReceived = (.ok c, v) ∧
    c.receipt = first.receipt ∧ FileAt v c.destination first.size first.blake3 := by
  have hid : Externals.parseUuid first.transferId := by decide +kernel
  have hroots : ∀ r ∈ (store 0).categoryRoots.allRoots (store 0).inbox, r ∈ layout.roots := by decide +kernel
  have hinside : layout.Inside (statePath ["inbox"] first.transferId "part") :=
    (layout.owned_statePath (List.mem_singleton.mpr rfl) first.transferId "part").inside
  have hhistory : History layout (store 0) world letterReceived :=
    .received _ (.operation (.prepare first) 20 .start hid trivial) ⟨hinside, fun _ => ⟨_, rfl⟩⟩
  have hresult : (((store 0).finalize first).run.run letterReceived).1 =
      .ok ⟨first.receipt, ["a.txt", "inbox"]⟩ := by decide +kernel
  refine ⟨_, _, Prod.ext hresult rfl, ?_⟩
  have hnamed : world.fs.Named [] := named_of_plain (by decide +kernel)
  have hfresh : ∀ p, layout.Inside p → world.fs.get p = none := fun _ => nothing_inside
  exact (completed_exact hroots sound hfresh hnamed hhistory first ⟨1, []⟩).2.2.1 _ _ hid (Prod.ext hresult rfl)

end InkHole
