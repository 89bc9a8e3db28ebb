import InkHole.Materialize
import InkHole.Stages

/-! The stages of the transfer of a folder: what may lie in its staging directory, and what a
preparation makes of it. -/

set_option linter.unusedSectionVars false

namespace InkHole

open InkHole.CoreM Fallible FileTree TransferStore FolderManifest

section FolderParts

variable [Externals] {m : FolderManifest} {C : FolderEntry → Contents → Prop} {root : Path}
  {F : CoreError → World → Prop} {e : FolderEntry} {n : Node Contents} {w v : World}

/-- What may lie below the staging directory. Where the manifest spells its directories as its paths
do, that is nothing but its entries. -/
structure FolderPart (m : FolderManifest) (C : FolderEntry → Contents → Prop) (root p : Path) (n : Node Contents) :
    Prop where
  plain : PlainBelow root p n
  listed : m.Spelled → ∃ e ∈ m.entries, p = place root e.path ∧
    (e.kind = .directory ∧ n = .dir ∨ e.kind = .file ∧ ∃ c, n = .file c)
  content : ∀ e ∈ m.files, p = place root e.path → ∀ c, n = .file c → C e c

/-- An entry has the room of one kind only. -/
theorem fits_part (hl : m.Listed) (hF : ¬ m.Spelled → ∀ e w, F e w) (he : e ∈ m.entries)
    (hplain : PlainBelow root (place root e.path) n)
    (hk : e.kind = .directory ∧ n = .dir ∨ e.kind = .file ∧ ∃ c, n = .file c)
    (hC : e.kind = .file → ∀ c, n = .file c → C e c) :
    Fits (FolderPart m C root) F (place root e.path) n := by
  refine ⟨⟨hplain, fun _ => ⟨e, he, rfl, hk⟩, fun f hf hp c hc => ?_⟩, fun n' hn' hkind => hF fun hm => hkind ?_⟩
  · obtain ⟨hmem, hfile⟩ := List.mem_filter.mp hf
    obtain rfl := hl.eq_of_path he hmem (place_inj hp)
    exact hC (of_decide_eq_true hfile) c hc
  · obtain ⟨f, hf, hp, hk'⟩ := hn'.listed hm
    obtain rfl := hl.eq_of_path he hf (place_inj hp)
    rcases hk with ⟨hd, rfl⟩ | ⟨hfile, c, rfl⟩
    · rcases hk' with ⟨-, rfl⟩ | ⟨hf', -⟩
      · rfl
      · cases hd.symm.trans hf'
    · rcases hk' with ⟨hd', -⟩ | ⟨-, c', rfl⟩
      · cases hfile.symm.trans hd'
      · rfl

theorem fits_parent (hl : m.Listed) (hF : ¬ m.Spelled → ∀ e w, F e w) (he : e ∈ m.entries) {init : List String}
    (hne : init ≠ []) (hi : init <+: (components e.path).dropLast) :
    Fits (FolderPart m C root) F (init.reverse ++ root) .dir := by
  have hplain : PlainBelow root (init.reverse ++ root) .dir := ((suits_plain (hl.path e he) .dir).parents init hne hi).1
  by_cases hm : m.Spelled
  · obtain ⟨d, hd, hkind, hc⟩ := hm.parents hl he hne hi
    have hplace : init.reverse ++ root = place root d.path := by rw [place_of_ne (hl.path_ne hd), hc]
    rw [hplace] at hplain ⊢
    exact fits_part hl hF hd hplain (.inl ⟨hkind, rfl⟩) fun _ c hc => by cases hc
  · exact ⟨⟨hplain, fun h => absurd h hm, fun _ _ _ c hc => by cases hc⟩, fun _ _ _ => hF hm⟩

theorem suits_file (root : Path) (hl : m.Listed) (hF : ¬ m.Spelled → ∀ e w, F e w) (he : e ∈ m.files) {c : Contents} (hc : C e c) :
    Suits (FolderPart m C root) F root e.path (.file c) := by
  obtain ⟨hmem, hfile⟩ := List.mem_filter.mp he
  refine ⟨hl.path e hmem, fun init hne hi => fits_parent hl hF hmem hne hi, fits_part hl hF hmem
    (suits_plain (hl.path e hmem) _).node.1 (.inr ⟨of_decide_eq_true hfile, c, rfl⟩) fun _ c' hc' => ?_⟩
  exact Node.file.inj hc' ▸ hc

theorem suits_directory (root : Path) (hl : m.Listed) (hF : ¬ m.Spelled → ∀ e w, F e w) (he : e ∈ m.directories) :
    Suits (FolderPart m C root) F root e.path .dir := by
  obtain ⟨hmem, hdir⟩ := List.mem_filter.mp he
  exact ⟨hl.path e hmem, fun init hne hi => fits_parent hl hF hmem hne hi, fits_part hl hF hmem
    (suits_plain (hl.path e hmem) _).node.1 (.inl ⟨of_decide_eq_true hdir, rfl⟩) fun _ c' hc' => by cases hc'⟩

theorem FolderPart.named {t : FileTree Contents} (h : Holding (FolderPart m C root) root t) : t.Named root :=
  Holding.named ⟨h.root_dir, fun q hq n hn => ⟨(h.below q hq n hn).1.plain, (h.below q hq n hn).2⟩⟩

theorem Matches.named (hl : m.Listed) {t : FileTree Contents} (h : Matches t root m) : t.Named root := by
  intro name p hget hp
  obtain ⟨q, rfl⟩ := hp
  obtain ⟨e, he, hplace⟩ := h.only (name :: q) (List.cons_ne_nil _ _) hget
  rw [place_of_ne (hl.path_ne he)] at hplace
  have hnames : name :: q = (components e.path).reverse := List.append_cancel_right hplace
  have hmem : name ∈ components e.path := by
    rw [← List.mem_reverse, ← hnames]
    exact List.mem_cons_self
  exact ⟨not_mem_components hmem, (valid_components (hl.path e he)).2 name hmem⟩

end FolderParts

section FolderStages

variable [Externals] {L : Layout} {s : TransferStore} {offer : TransferOffer} {manifest : FolderManifest}
  {d : String} {w v w₀ : World} {p : Option Path} {I : World → Prop} {F : CoreError → World → Prop}
  {P : Path → Node Contents → Prop} {C : FolderEntry → Contents → Prop} {Y : World → Prop}

abbrev TransferStore.staging (s : TransferStore) (offer : TransferOffer) : Path := s.stateFile offer "folder.part"

/-- What is received of a folder, if anything is. -/
def Staged (s : TransferStore) (offer : TransferOffer) (P : Path → Node Contents → Prop) (w : World) : Prop :=
  w.fs.get (s.staging offer) = none ∨ Holding P (s.staging offer) w.fs

theorem ofItem_staged (hk : offer.kind = .folderV1) : OfItem s offer (Staged s offer P) := by
  intro v v' hsame h
  have hitem : s.stateFile offer offer.kind.item = s.staging offer := by rw [hk]; rfl
  rw [hitem] at hsame
  refine h.imp (hsame _ List.suffix_rfl).trans fun h => ⟨(hsame _ List.suffix_rfl).trans h.root_dir, fun q hq n hn => ?_⟩
  exact h.below q hq n ((hsame _ (List.suffix_append q _)).symm.trans hn)

theorem folder_item (hk : offer.kind = .folderV1) : s.stateFile offer offer.kind.item = s.staging offer := by
  rw [hk]
  rfl

theorem Stays.stage (hk : offer.kind = .folderV1) (hr : s.destinationRoot offer ∈ L.roots)
    (h : Stage L s offer manifest (Staged s offer P) w₀ w) (hs : Stays P (s.staging offer) w v) :
    Stage L s offer manifest (Staged s offer P) w₀ v := by
  have hsound := hs.sound h.underway.sound (L.owned_statePath hr offer.transferId _).inside
  have hoff := hs.off
  rw [← folder_item hk] at hoff
  exact ⟨h.underway.beside hr hsound hoff, .inr hs.holding, h.frames.trans (frames_beside hr hoff)⟩

theorem Shrinks.stage (hk : offer.kind = .folderV1) (hr : s.destinationRoot offer ∈ L.roots)
    (h : Stage L s offer manifest (Staged s offer P) w₀ w) (hs : Shrinks (s.staging offer) w v) :
    Stage L s offer manifest (Staged s offer P) w₀ v := by
  have hsound := hs.sound h.underway.sound (L.owned_statePath hr offer.transferId _).inside
  have hoff := hs.off
  rw [← folder_item hk] at hoff
  refine ⟨h.underway.beside hr hsound hoff, ?_, h.frames.trans (frames_beside hr hoff)⟩
  cases hn : v.fs.get (s.staging offer) with
  | none => exact .inl hn
  | some n =>
    refine h.item.imp (fun hnone => by cases hnone.symm.trans (hs.less _ n hn)) fun hold => ?_
    exact ⟨hn.trans ((hs.less _ n hn).symm.trans hold.root_dir), fun q hq m hm => hold.below q hq m (hs.less _ m hm)⟩

theorem FolderBegun.kept {metadata document : Option Record}
    (hb : FolderBegun L (s.destinationRoot offer) offer.transferId metadata document w v) (n : RecordName) :
    s.kept offer n v = if n = .metadata then metadata.map fun v => .file (.json v)
      else if n = .manifest then document.map fun v => .file (.json v) else s.kept offer n w := by
  have hget := hb.get (s.stateFile offer n.extension) (not_scratch_record n)
  have hbelow : ¬ statePath (s.destinationRoot offer) offer.transferId "folder.part" <:+ s.stateFile offer n.extension :=
    not_suffix_statePath (by cases n <;> decide)
  simp only [TransferStore.kept, World.record, hget, statePath_inj, if_neg hbelow]
  cases n <;> simp [RecordName.extension]

/-- A folder that is begun again is underway. -/
theorem FolderBegun.stage {metadata document : Option Record} (hr : s.destinationRoot offer ∈ L.roots)
    (h : Stage L s offer manifest (Staged s offer P) w₀ w)
    (hb : FolderBegun L (s.destinationRoot offer) offer.transferId metadata document w v)
    (hmetadata : metadata = none ∨ metadata = some (.metadata (StoredOffer.of offer)))
    (hdocument : document = none ∨ document = some (.manifest manifest)) :
    Stage L s offer manifest (Staged s offer P) w₀ v := by
  have hframes : L.Frames none w v := by
    intro q hq _
    have hne : ∀ extension, q ≠ s.stateFile offer extension := fun extension he =>
      hq (he ▸ (L.owned_statePath hr offer.transferId extension).inside)
    rw [hb.get q fun hs => hq hs.inside]
    exact (if_neg (hne "json")).trans ((if_neg (hne "manifest.json")).trans
      (if_neg fun hs => hq ((L.owned_statePath hr offer.transferId _).inside.above hs)))
  have hkept := hb.kept
  refine ⟨⟨hb.sound, (hkept .done).trans h.underway.done, ?_, ?_, ?_⟩, .inl (hb.staging hr List.suffix_rfl),
    h.frames.trans hframes⟩
  · refine h.underway.commit.imp (hkept .commit).trans ?_
    rintro ⟨d, hd, hname, hfree⟩
    exact ⟨d, (hkept .commit).trans hd, hname, hframes.occupied hr hfree⟩
  · rw [KeptMetadata, hkept, if_pos rfl]
    rcases hmetadata with rfl | rfl
    · exact .inl rfl
    · exact .inr rfl
  · rw [KeptDocument, hkept, if_neg (by decide), if_pos rfl]
    rcases hdocument with rfl | rfl
    · exact .inl rfl
    · exact .inr rfl

/-- What has no directory has not the contents of a folder. -/
theorem eval_validateFolderContents_free {q : Path} (hreal : w.fs.Real q) (hq : q ≠ []) (hfree : ¬ w.fs.Occupied q) :
    ∃ e, eval (validateFolderContents q manifest) w = .error e := by
  cases he : eval (validateFolderContents q manifest) w with
  | error e => exact ⟨e, rfl⟩
  | ok u =>
    rw [validateFolderContents] at he
    obtain ⟨size, -, he⟩ := eval_lift_bind_ok he
    obtain ⟨u', hu', -⟩ := eval_bind_ok (reads_ensureDirectoryExists q) he
    cases hn : w.fs.get q with
    | some n => exact absurd (.inl (((eval_ensureDirectoryExists hn).mp hu') ▸ hn)) hfree
    | none =>
      rw [ensureDirectoryExists, eval_fs_bind (.symlinkMetadata q) trivial, show ((FsOp.symlinkMetadata q : FsOp Contents Metadata).exec
        w.fs).1 = .error .notFound from stat_locate_absent hreal hq hn] at hu'
      cases hu'

theorem along_ensureRecorded {Q : Unit → World → Prop} (hm : recordedManifest offer manifest = some manifest)
    (hq : Q () w) :
    Along I Q F (liftM (ensureSameManifest manifest (pendingRecord offer manifest d).manifest) : CoreM Unit) w := by
  rw [show (pendingRecord offer manifest d).manifest = some manifest from hm]
  exact along_ensureSameManifest hq

theorem Underway.replayFolderCommit {Q : Option CompletedTransfer → World → Prop} (hk : offer.kind = .folderV1)
    (h : Underway L s offer manifest w) (hr : s.destinationRoot offer ∈ L.roots) (hi : I w)
    (hq : ¬ Blocked s offer manifest w → Q none w) (hf : Blocked s offer manifest w → ∀ e, F e w) :
    Along I Q F (s.replayFolderCommit (StoredOffer.of offer) manifest
      (statePaths (s.destinationRoot offer) offer.transferId)) w := by
  have hm : recordedManifest offer manifest = some manifest := by rw [recordedManifest, hk]
  rcases h.commit with hn | ⟨d, hn, hname, hfree⟩
  · refine along_replayFolderCommit_absent h.sound hr hi hn (hq ?_)
    rintro ⟨d, hd, -⟩
    cases hn.symm.trans hd
  by_cases hex : w.fs.exists? (d :: s.destinationRoot offer) = .ok false
  · exact along_replayFolderCommit_gone (v := pendingRecord offer manifest d) hi hn hm hname hex
      (hq (Reserved.not_blocked hn hex))
  · have hfail := hf ⟨d, hn, hex⟩
    rw [TransferStore.replayFolderCommit]
    refine along_bind (Q := fun a w' => a = some (pendingRecord offer manifest d) ∧ w = w')
      (along_readRecord (n := .commit) hi hn rfl ⟨rfl, rfl⟩) ?_
    rintro _ _ ⟨rfl, rfl⟩
    refine along_bind (Q := fun _ w' => w = w') (along_ensureSameOffer rfl) ?_
    rintro _ _ rfl
    refine along_bind (Q := fun _ w' => w = w') (along_ensureRecorded hm rfl) ?_
    rintro _ _ rfl
    rw [recoverFolderCommit]
    refine along_bind (Q := fun _ w' => w = w') (along_lift (fun _ _ => rfl) fun e he => by cases hname.symm.trans he) ?_
    rintro _ _ rfl
    rw [show (pendingRecord offer manifest d).manifest = some manifest from hm]
    refine along_bind (Q := fun there w' => w.fs.exists? (d :: s.destinationRoot offer) = .ok there ∧ w = w')
      (along_of_reads (reads_fs trivial) hi (fun there hthere => ⟨tryExists_ok hthere, rfl⟩) fun e _ => hfail e) ?_
    rintro there _ ⟨hthere, rfl⟩
    cases there with
    | false => exact absurd hthere hex
    | true =>
      obtain ⟨e, he⟩ := eval_validateFolderContents_free (h.sound.real_destination hr d)
        (List.cons_ne_nil _ _) hfree
      refine along_bind (Q := fun _ _ => False) (along_of_reads (reads_validateFolderContents _ _) hi
        (fun u hu => ?_) fun e _ => hfail e) fun _ _ hc => hc.elim
      cases he.symm.trans hu

/-! A folder that is at its destination. -/

theorem Landed.folder (h : Landed L s offer manifest d w) (hk : offer.kind = .folderV1) :
    FolderAt w (d :: s.destinationRoot offer) manifest := by
  have hthere := h.there
  rw [Delivered, hk] at hthere
  exact hthere

theorem FolderAt.check {size : Nat} {q : Path} (h : FolderAt w q manifest) (hv : manifest.validate = .ok size)
    (hq : q ≠ []) (hreal : w.fs.Real q) : eval (validateFolderContents q manifest) w = .ok () :=
  (eval_validateFolderContents hv hq (h.2.named (FolderManifest.validate_ok hv).1) hreal).mpr h

theorem Landed.replayFolderDone {size : Nat} {Q : Option CompletedTransfer → World → Prop} (hk : offer.kind = .folderV1)
    (hv : manifest.validate = .ok size) (h : Landed L s offer manifest d w) (hr : s.destinationRoot offer ∈ L.roots)
    (hi : I w) (hdone : Q (some ⟨offer.receipt, d :: s.destinationRoot offer⟩) w)
    (hnone : s.kept offer .done w = none → Reserved s offer manifest d w → Q none w) :
    Along I Q F (s.replayFolderDone (StoredOffer.of offer) manifest
      (statePaths (s.destinationRoot offer) offer.transferId)) w := by
  have hm : recordedManifest offer manifest = some manifest := by rw [recordedManifest, hk]
  rcases h.done with hn | ⟨hn, hreserved⟩
  · have heval := (completed_folder_iff (s := s) (v := doneRecord offer manifest d) h.name hm rfl hv
      ((h.folder hk).2.named (FolderManifest.validate_ok hv).1) (h.sound.real_destination hr d) _).mpr
      ⟨h.folder hk, rfl⟩
    refine along_replayFolderDone (v := doneRecord offer manifest d) h.sound hr hi hn hm (fun c hc => ?_) (fun hc => ?_)
      fun e he => ?_
    · rw [Option.some.inj (Except.ok.inj (hc.symm.trans heval))]
      exact hdone
    · cases heval.symm.trans hc
    · cases heval.symm.trans he
  · exact along_replayFolderDone_absent h.sound hr hi hn (hnone hn hreserved)

/-- The preparation goes on with the commit that was cut off. -/
theorem Landing.replayFolderCommit {size : Nat} (hk : offer.kind = .folderV1) (hv : manifest.validate = .ok size)
    (hid : StateId offer.transferId) (hr : s.destinationRoot offer ∈ L.roots)
    (h : Landing L s offer manifest d p w₀ w) (hreserved : Reserved s offer manifest d w) :
    Along (Landing L s offer manifest d p w₀) (fun found v => found = some ⟨offer.receipt, d :: s.destinationRoot offer⟩ ∧
      Landing L s offer manifest d p w₀ v) F
      (s.replayFolderCommit (StoredOffer.of offer) manifest
        (statePaths (s.destinationRoot offer) offer.transferId)) w := by
  have hfolder := h.landed.folder hk
  have hm : recordedManifest offer manifest = some manifest := by rw [recordedManifest, hk]
  rw [TransferStore.replayFolderCommit]
  refine along_bind (Q := fun a w' => a = some (pendingRecord offer manifest d) ∧ w = w')
    (along_readRecord (n := .commit) h hreserved rfl ⟨rfl, rfl⟩) ?_
  rintro _ _ ⟨rfl, rfl⟩
  refine along_bind (Q := fun _ w' => w = w') (along_ensureSameOffer rfl) ?_
  rintro _ _ rfl
  refine along_bind (Q := fun _ w' => w = w') (along_ensureRecorded hm rfl) ?_
  rintro _ _ rfl
  rw [recoverFolderCommit]
  refine along_bind (Q := fun _ w' => w = w') (along_lift (fun _ _ => rfl) fun e he => by
    cases h.landed.name.symm.trans he) ?_
  rintro _ _ rfl
  rw [show (pendingRecord offer manifest d).manifest = some manifest from hm]
  refine along_bind (Q := fun there w' => there = true ∧ w = w')
    (along_fs_reads trivial (FolderAt.exists? hfolder) h ⟨rfl, rfl⟩) ?_
  rintro _ _ ⟨rfl, rfl⟩
  have hcheck := hfolder.check hv (List.cons_ne_nil _ _) (h.landed.sound.real_destination hr d)
  refine along_bind (Q := fun _ w' => w = w') (along_of_reads (reads_validateFolderContents _ _) h (fun _ _ => rfl)
    fun e he => by cases hcheck.symm.trans he) ?_
  rintro _ _ rfl
  have hrecord := along_recordDone (F := F) hr hid h
  rw [doneRecord, hm] at hrecord
  refine along_bind hrecord ?_
  rintro _ v ⟨h, hdone⟩
  rw [← hm] at hdone
  have hgone : v.fs.get (s.staging offer) = none := by
    rw [← folder_item hk]
    exact h.landed.gone
  refine along_bind (Q := fun _ v' => v = v') ?_ ?_
  · rw [removeDirAllIfExists]
    refine along_bind (Q := fun found v' => found = .error .notFound ∧ v = v') (along_attempt_reads trivial
      (stat_locate_absent (h.landed.sound.real_state hr _) (statePath_ne_nil _) hgone) h ⟨rfl, rfl⟩) ?_
    rintro _ _ ⟨rfl, rfl⟩
    exact along_pure rfl
  rintro _ _ rfl
  refine along_bind (along_removeLeft hr h hdone (by decide) h.landed.metadata.not_dir) ?_
  rintro _ v ⟨h, hdone⟩
  refine along_bind (along_removeLeft hr h hdone (by decide) h.landed.document.not_dir) ?_
  rintro _ v ⟨h, hdone⟩
  refine along_bind (along_removeLeft hr h hdone (by decide) h.landed.commit_not_dir) ?_
  rintro _ v ⟨h, -⟩
  exact along_pure ⟨rfl, h⟩

/-! Preparations. -/

/-- The preparation was cut off between its two documents. -/
def Orphaned (s : TransferStore) (offer : TransferOffer) (w : World) : Prop :=
  s.kept offer .metadata w ≠ none ∧ s.kept offer .manifest w = none

/-- What a preparation answers that goes on, and what it leaves. -/
structure ResumedFolder (L : Layout) (s : TransferStore) (offer : TransferOffer) (manifest : FolderManifest)
    (P : Path → Node Contents → Prop) (w₀ : World) (prepared : PreparedFolderTransfer) (w : World) : Prop where
  stage : Stage L s offer manifest (Staged s offer P) w₀ w
  holding : Holding P (s.staging offer) w.fs
  metadata : s.kept offer .metadata w = some (.file (.json (.metadata (StoredOffer.of offer))))
  document : s.kept offer .manifest w = some (.file (.json (.manifest manifest)))
  position : Resumes (s.staging offer) manifest.files 0 0 prepared w

theorem sum_files_le (hl : manifest.Listed) : 0 + (manifest.files.map FolderEntry.size).sum ≤ u64Max := by
  have hle := hl.total
  have hmax : maxFileSize ≤ u64Max := by decide
  rw [FolderManifest.sum_files]
  omega

theorem nodup_files (hl : manifest.Listed) : (manifest.files.map FolderEntry.path).Nodup :=
  hl.nodup.sublist (List.filter_sublist.map FolderEntry.path)

theorem KeptMetadata.resolve (h : KeptMetadata s offer w) (hn : s.kept offer .metadata w ≠ none) :
    s.kept offer .metadata w = some (.file (.json (.metadata (StoredOffer.of offer)))) := Or.resolve_left h hn

theorem KeptDocument.resolve (h : KeptDocument s offer manifest w) (hn : s.kept offer .manifest w ≠ none) :
    s.kept offer .manifest w = some (.file (.json (.manifest manifest))) := Or.resolve_left h hn

/-- A manifest that is missing ends the preparation before anything is written. -/
theorem along_keepFolder_orphaned {Q : Unit → World → Prop} (hr : s.destinationRoot offer ∈ L.roots)
    (h : Underway L s offer manifest w) (hi : I w) (ho : Orphaned s offer w) (hf : ∀ e, F e w) :
    Along I Q F (keepFolderMetadata (StoredOffer.of offer) manifest
      (statePaths (s.destinationRoot offer) offer.transferId)) w := by
  rw [keepFolderMetadata]
  refine along_bind (Q := fun a w' => a = some (StoredOffer.of offer) ∧ w = w')
    (along_readRecord (n := .metadata) hi (h.metadata.resolve ho.1) rfl ⟨rfl, rfl⟩) ?_
  rintro _ _ ⟨rfl, rfl⟩
  refine along_bind (Q := fun _ w' => w = w') (along_ensureSameOffer rfl) ?_
  rintro _ _ rfl
  refine along_bind (Q := fun a w' => a = none ∧ w = w')
    (along_readAbsent (n := .manifest) h.sound hr hi ho.2 ⟨rfl, rfl⟩) ?_
  rintro _ _ ⟨rfl, rfl⟩
  exact along_throw (hf _)

/-- The documents of the folder are there before its staging directory is. -/
theorem along_keepFolder (hk : offer.kind = .folderV1) (hid : StateId offer.transferId)
    (hr : s.destinationRoot offer ∈ L.roots) (h : Stage L s offer manifest (Staged s offer P) w₀ w)
    (horphan : Orphaned s offer w → ∀ e, F e w) :
    Along (Stage L s offer manifest (Staged s offer P) w₀) (fun _ v =>
      Stage L s offer manifest (Staged s offer P) w₀ v ∧
        s.kept offer .metadata v = some (.file (.json (.metadata (StoredOffer.of offer)))) ∧
        s.kept offer .manifest v = some (.file (.json (.manifest manifest))) ∧
        (s.kept offer .metadata w ≠ none → w = v))
      F (keepFolderMetadata (StoredOffer.of offer) manifest (statePaths (s.destinationRoot offer) offer.transferId)) w := by
  by_cases hm : s.kept offer .metadata w = none
  · have hstaging : w.fs.get (s.staging offer) = none ∨ w.fs.get (s.staging offer) = some .dir :=
      h.item.imp id Holding.root_dir
    refine along_keepFolderMetadata_new hid h.underway.sound hr
      (Stage.blind hr (ofItem_staged hk)) h hm h.underway.document.not_dir hstaging
      (fun v hv => hv.stage hk hr h) (fun v hv => hv.stage hr h (.inl rfl) (.inl rfl))
      (fun v hv => hv.stage hr h (.inr rfl) (.inl rfl)) fun v hv => ?_
    have hstage := hv.stage hr h (.inr rfl) (.inr rfl)
    refine ⟨hstage, hstage, ?_, ?_, fun hne => absurd hm hne⟩
    · exact (FolderBegun.kept hv .metadata).trans (if_pos rfl)
    · exact (FolderBegun.kept hv .manifest).trans ((if_neg (by decide)).trans (if_pos rfl))
  · have hmetadata := h.underway.metadata.resolve hm
    by_cases hd : s.kept offer .manifest w = none
    · exact along_keepFolder_orphaned hr h.underway h ⟨hm, hd⟩ (horphan ⟨hm, hd⟩)
    · have hdocument := h.underway.document.resolve hd
      exact along_keepFolderMetadata h hmetadata hdocument ⟨h, hmetadata, hdocument, fun _ => rfl⟩

theorem along_prepareFolder_orphaned {Q : PrepareFolderOutcome → World → Prop} (hv : offer.validate = .ok ())
    (hk : offer.kind = .folderV1) (hvm : manifest.validateOffer offer = .ok ()) (hr : s.destinationRoot offer ∈ L.roots)
    (h : Underway L s offer manifest w) (hi : I w) (ho : Orphaned s offer w) (hf : ∀ e, F e w) :
    Along I Q F (s.prepareFolder offer manifest) w := by
  refine along_prepareFolder (A := fun v => v = w) (B := fun v => v = w) hv hvm ?_ ?_ ?_
  · exact along_replayFolderDone_absent h.sound hr hi h.done rfl
  · rintro _ rfl
    exact h.replayFolderCommit hk hr hi (fun _ => rfl) fun _ => hf
  · rintro _ rfl
    exact along_bind (Q := fun _ _ => False) (along_keepFolder_orphaned hr h hi ho hf) fun _ _ hc => hc.elim

/-- A preparation goes on with what is there: no file that is whole is lost, and none is new. -/
structure Continues (manifest : FolderManifest) (root : Path) (w v : World) : Prop where
  intact : ∀ e ∈ manifest.files, e.Intact root w → e.Intact root v
  older : ∀ q, q ≠ [] → ∀ c, v.fs.get (q ++ root) = some (.file c) → w.fs.get (q ++ root) = some (.file c)

/-- A folder that is underway is asked for again from its first file that is not whole. -/
theorem along_prepareFolder_underway {size : Nat} (hv : offer.validate = .ok ()) (hk : offer.kind = .folderV1)
    (hvm : manifest.validateOffer offer = .ok ()) (hm : manifest.validate = .ok size)
    (hr : s.destinationRoot offer ∈ L.roots)
    (h : Stage L s offer manifest (Staged s offer (FolderPart manifest C (s.staging offer))) w₀ w)
    (hempty : ∀ e ∈ manifest.files, C e FileData.empty) (hsize : ∀ e ∈ manifest.files, ∀ c, C e c → FileData.size c ≤ e.size)
    (hF : ¬ manifest.Spelled → ∀ e w, F e w) (horphan : Orphaned s offer w → ∀ e, F e w)
    (hblocked : Blocked s offer manifest w → ∀ e, F e w) :
    Along (Stage L s offer manifest (Staged s offer (FolderPart manifest C (s.staging offer))) w₀) (fun outcome v =>
      ∃ prepared, outcome = .resume prepared ∧
        ResumedFolder L s offer manifest (FolderPart manifest C (s.staging offer)) w₀ prepared v ∧
        (s.kept offer .metadata w ≠ none → Continues manifest (s.staging offer) w v))
      F (s.prepareFolder offer manifest) w := by
  have hid : StateId offer.transferId := stateId_of_parseUuid (offer.validate_parseUuid hv)
  have hl := (FolderManifest.validate_ok hm).1
  refine along_prepareFolder (A := fun v => v = w) (B := fun v => v = w) hv hvm ?_ ?_ ?_
  · exact along_replayFolderDone_absent h.underway.sound hr h h.underway.done rfl
  · rintro _ rfl
    exact h.underway.replayFolderCommit hk hr h (fun _ => rfl) hblocked
  rintro w rfl
  refine along_bind (along_keepFolder hk hid hr h horphan) ?_
  rintro _ v ⟨hstage, hmetadata, hdocument, hsame⟩
  refine along_bind (Q := fun _ v' => Stage L s offer manifest (Staged s offer (FolderPart manifest C (s.staging offer))) w₀ v' ∧
    Holding (FolderPart manifest C (s.staging offer)) (s.staging offer) v'.fs ∧
    (∀ q, ¬ s.staging offer <:+ q → v'.fs.get q = v.fs.get q) ∧
    (v.fs.get (s.staging offer) ≠ none → v = v') ∧
    (v.fs.get (s.staging offer) = none → ∀ q, q ≠ [] → ∀ c, v'.fs.get (q ++ s.staging offer) ≠ some (.file c)))
    (along_ensureDirectory (hstage.underway.sound.real_state hr _) (statePath_ne_nil _) hstage
      (hstage.item.imp id Holding.root_dir) (fun hd => ?_) fun hn v' hv' => ?_) ?_
  · have hne : v.fs.get (s.staging offer) ≠ none := by simp [hd]
    exact ⟨hstage, hstage.item.resolve_left hne, fun _ _ => rfl, fun _ => rfl, fun hn => absurd hn hne⟩
  · have hholding : Holding (FolderPart manifest C (s.staging offer)) (s.staging offer) v'.fs := by
      refine holding_empty hv'.at (List.eq_nil_iff_forall_not_mem.mpr fun name hname => mem_readDir.mp hname ?_)
      rw [hv'.off (List.cons_ne_self _ _)]
      exact absent_below (statePath_ne_nil _) hn (List.suffix_cons _ _)
    have hoff : ∀ q, ¬ s.staging offer <:+ q → v'.fs.get q = v.fs.get q := fun q hq =>
      hv'.off fun he => hq (he ▸ List.suffix_rfl)
    have hstage' := Stays.stage hk hr hstage ⟨hholding, hoff⟩
    refine ⟨hstage', hstage', hholding, hoff, fun hne => absurd hn hne, fun _ q hq c hc => ?_⟩
    rw [hv'.off fun he => hq (List.self_eq_append_left.mp he.symm),
      absent_below (statePath_ne_nil _) hn (List.suffix_append q _)] at hc
    cases hc
  rintro _ v' ⟨hstage', hholding, hoff, hthere, hbare⟩
  -- the walk makes directories only, so that a file it finds was there before
  have holder : Holding (fun p n => FolderPart manifest C (s.staging offer) p n ∧
      ∀ c, n = .file c → v'.fs.get p = some (.file c)) (s.staging offer) v'.fs := by
    refine ⟨hholding.root_dir, fun q hq n hn => ?_⟩
    obtain ⟨hpart, hkind⟩ := hholding.below q hq n hn
    exact ⟨⟨hpart, fun c hc => hc ▸ hn⟩, hkind⟩
  have hweaken : ∀ v'', Stays (fun p n => FolderPart manifest C (s.staging offer) p n ∧
      ∀ c, n = .file c → v'.fs.get p = some (.file c)) (s.staging offer) v' v'' →
      Stays (FolderPart manifest C (s.staging offer)) (s.staging offer) v' v'' := fun v'' hv'' =>
    ⟨⟨hv''.holding.root_dir, fun q hq n hn => ⟨(hv''.holding.below q hq n hn).1.1, (hv''.holding.below q hq n hn).2⟩⟩,
      hv''.off⟩
  have hsuits : ∀ e ∈ manifest.files, Suits (FolderPart manifest C (s.staging offer)) F (s.staging offer) e.path
      (.file FileData.empty) := fun e he => suits_file _ hl hF he (hempty e he)
  refine (along_resumePosition_whole (F := F) holder (fun v'' hv'' => (hweaken v'' hv'').stage hk hr hstage')
    (fun e he => (hsuits e he).valid) (fun e he init hne hi => ?_)
    (fun e he n hn hkind => (hsuits e he).node.2 n hn.1 hkind)
    (fun e he d hd => hsize e he d (hd.1.content e he rfl d rfl)) (nodup_files hl) (sum_files_le hl)).mono
    (fun _ hi => hi) ?_ fun _ _ hf => hf
  · have hfits := (hsuits e he).parents init hne hi
    exact ⟨⟨hfits.1, fun c hc => by cases hc⟩, fun n hn hkind => hfits.2 n hn.1 hkind⟩
  rintro prepared v'' ⟨hstays', hkept, hresumes⟩
  have hstays := hweaken v'' hstays'
  have hrecord : ∀ n, s.kept offer n v'' = s.kept offer n v := by
    intro n
    refine kept_beside (fun q hq => ?_) n
    rw [folder_item hk] at hq
    rw [hstays.off q hq, hoff q hq]
  refine ⟨prepared, rfl, ⟨hstays.stage hk hr hstage', hstays.holding, (hrecord _).trans hmetadata,
    (hrecord _).trans hdocument, hresumes⟩, fun hne => ⟨fun e he hintact => ?_, fun q hq c hc => ?_⟩⟩
  · obtain rfl := hsame hne
    have hroot : w.fs.get (s.staging offer) ≠ none := by
      obtain ⟨d, hd, -⟩ := hintact
      intro hn
      rw [absent_below (statePath_ne_nil _) hn (suffix_place _ _)] at hd
      cases hd
    obtain rfl := hthere hroot
    refine hkept.intact (fun f hf hp => ?_) hintact
    exact hl.eq_of_path (List.mem_of_mem_filter hf) (List.mem_of_mem_filter he) hp.symm
  · obtain rfl := hsame hne
    have hfile := (hstays'.holding.below q hq _ hc).1.2 c rfl
    cases hn : w.fs.get (s.staging offer) with
    | none => exact absurd hfile (hbare hn q hq c)
    | some n => exact hthere (by rw [hn]; simp) ▸ hfile

/-- A folder that is at its destination is answered to be complete. -/
theorem along_prepareFolder_landed {size : Nat} (hv : offer.validate = .ok ()) (hk : offer.kind = .folderV1)
    (hvm : manifest.validateOffer offer = .ok ()) (hm : manifest.validate = .ok size)
    (hr : s.destinationRoot offer ∈ L.roots) (h : Landing L s offer manifest d p w₀ w) :
    Along (Landing L s offer manifest d p w₀) (fun outcome v =>
      outcome = .complete ⟨offer.receipt, d :: s.destinationRoot offer⟩ ∧ Landing L s offer manifest d p w₀ v)
      F (s.prepareFolder offer manifest) w := by
  have hid : StateId offer.transferId := stateId_of_parseUuid (offer.validate_parseUuid hv)
  refine along_prepareFolder (A := fun v => v = w ∧ Reserved s offer manifest d w) (B := fun _ => False) hv hvm ?_ ?_
    fun _ hB => hB.elim
  · exact h.landed.replayFolderDone hk hm hr h ⟨rfl, h⟩ fun _ hreserved => ⟨rfl, hreserved⟩
  · rintro _ ⟨rfl, hreserved⟩
    refine (h.replayFolderCommit hk hm hid hr hreserved).mono (fun _ hi => hi) ?_ fun _ _ hf => hf
    rintro _ v ⟨rfl, hlanding⟩
    exact ⟨rfl, hlanding⟩

end FolderStages

end InkHole
