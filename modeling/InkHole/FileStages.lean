import InkHole.Stages

/-! The stages of the transfer of a file. -/

set_option linter.unusedSectionVars false

namespace InkHole

open InkHole.CoreM Fallible FileTree TransferStore

section FileStages

variable [Externals] {L : Layout} {s : TransferStore} {offer : TransferOffer} {manifest : FolderManifest}
  {d : String} {w w₀ : World} {p : Option Path} {I : World → Prop} {F : CoreError → World → Prop}
  {C : Contents → Prop} {c : Contents}

/-- What is received of a file, if anything is. -/
def Arrived (s : TransferStore) (offer : TransferOffer) (C : Contents → Prop) (w : World) : Prop :=
  w.fs.get (s.stateFile offer "part") = none ∨ ∃ c, w.fs.get (s.stateFile offer "part") = some (.file c) ∧ C c

theorem Arrived.plain (h : Arrived s offer C w) : Plain (w.fs.get (s.stateFile offer "part")) :=
  h.imp id fun ⟨c, hc, _⟩ => ⟨c, hc⟩

theorem ofItem_arrived (hk : offer.kind = .file) : OfItem s offer (Arrived s offer C) := by
  intro v v' hsame h
  have hpart := hsame (s.stateFile offer "part") (by rw [hk]; exact List.suffix_rfl)
  exact h.imp hpart.trans fun ⟨c, hc, hC⟩ => ⟨c, hpart.trans hc, hC⟩

/-- What is no file has not the content of one. -/
theorem eval_ensureFileDestination_free {q : Path} {size : Nat} {digest : String} (hreal : w.fs.Real q) (hq : q ≠ [])
    (hfree : ¬ w.fs.Occupied q) : ∃ e, eval (ensureFileDestination q size digest) w = .error e := by
  cases he : eval (ensureFileDestination q size digest) w with
  | error e => exact ⟨e, rfl⟩
  | ok u =>
    obtain ⟨c, hc, -⟩ := (eval_ensureFileDestination hreal hq).mp he
    exact absurd (.inr ⟨c, hc⟩) hfree

theorem Underway.replayCommit {Q : Option CompletedTransfer → World → Prop}
    (h : Underway L s offer manifest w) (hr : s.destinationRoot offer ∈ L.roots) (hi : I w)
    (hq : ¬ Blocked s offer manifest w → Q none w) (hf : Blocked s offer manifest w → ∀ e, F e w) :
    Along I Q F (s.replayCommit (StoredOffer.of offer) (statePaths (s.destinationRoot offer) offer.transferId)) w := by
  rcases h.commit with hn | ⟨d, hn, hname, hfree⟩
  · refine along_replayCommit_absent h.sound hr hi hn (hq ?_)
    rintro ⟨d, hd, -⟩
    cases hn.symm.trans hd
  by_cases hex : w.fs.exists? (d :: s.destinationRoot offer) = .ok false
  · exact along_replayCommit_gone (v := pendingRecord offer manifest d) hi hn hname hex (hq (Reserved.not_blocked hn hex))
  · have hfail := hf ⟨d, hn, hex⟩
    rw [TransferStore.replayCommit]
    refine along_bind (Q := fun a w' => a = some (pendingRecord offer manifest d) ∧ w = w')
      (along_readRecord (n := .commit) hi hn rfl ⟨rfl, rfl⟩) ?_
    rintro _ _ ⟨rfl, rfl⟩
    refine along_bind (Q := fun _ w' => w = w') (along_ensureSameOffer rfl) ?_
    rintro _ _ rfl
    rw [recoverCommit]
    refine along_bind (Q := fun _ w' => w = w') (along_lift (fun _ _ => rfl) fun e he => by cases hname.symm.trans he) ?_
    rintro _ _ rfl
    refine along_bind (Q := fun there w' => w.fs.exists? (d :: s.destinationRoot offer) = .ok there ∧ w = w')
      (along_of_reads (reads_fs trivial) hi (fun there hthere => ⟨tryExists_ok hthere, rfl⟩) fun e _ => hfail e) ?_
    rintro there _ ⟨hthere, rfl⟩
    cases there with
    | false => exact absurd hthere hex
    | true =>
      obtain ⟨e, he⟩ := eval_ensureFileDestination_free
        (h.sound.real_destination hr d) (List.cons_ne_nil _ _) hfree
      refine along_bind (Q := fun _ _ => False) (along_of_reads (reads_ensureFileDestination _ _ _) hi
        (fun u hu => ?_) fun e _ => hfail e) fun _ _ hc => hc.elim
      cases he.symm.trans hu

/-! A file that is at its destination. -/

theorem Landed.file (h : Landed L s offer manifest d w) (hk : offer.kind = .file) :
    FileAt w (d :: s.destinationRoot offer) offer.size offer.blake3 := by
  have hthere := h.there
  rw [Delivered, hk] at hthere
  exact hthere

theorem Landed.replayDone {Q : Option CompletedTransfer → World → Prop} (hk : offer.kind = .file)
    (h : Landed L s offer manifest d w) (hr : s.destinationRoot offer ∈ L.roots) (hi : I w)
    (hdone : Q (some ⟨offer.receipt, d :: s.destinationRoot offer⟩) w)
    (hnone : s.kept offer .done w = none → Reserved s offer manifest d w → Q none w) :
    Along I Q F (s.replayDone (StoredOffer.of offer) (statePaths (s.destinationRoot offer) offer.transferId)) w := by
  rcases h.done with hn | ⟨hn, hreserved⟩
  · have heval := (completed_file_iff (s := s) (v := doneRecord offer manifest d) h.name rfl
      (h.sound.real_destination hr d) _).mpr ⟨h.file hk, rfl⟩
    refine along_replayDone (v := doneRecord offer manifest d) h.sound hr hi hn (fun c hc => ?_) (fun hc => ?_)
      fun e he => ?_
    · rw [Option.some.inj (Except.ok.inj (hc.symm.trans heval))]
      exact hdone
    · cases heval.symm.trans hc
    · cases heval.symm.trans he
  · exact along_replayDone_absent h.sound hr hi hn (hnone hn hreserved)

/-- The preparation goes on with the commit that was cut off. -/
theorem Landing.replayCommit (hk : offer.kind = .file) (hid : StateId offer.transferId)
    (hr : s.destinationRoot offer ∈ L.roots) (h : Landing L s offer manifest d p w₀ w)
    (hreserved : Reserved s offer manifest d w) :
    Along (Landing L s offer manifest d p w₀) (fun found v => found = some ⟨offer.receipt, d :: s.destinationRoot offer⟩ ∧
      Landing L s offer manifest d p w₀ v) F
      (s.replayCommit (StoredOffer.of offer) (statePaths (s.destinationRoot offer) offer.transferId)) w := by
  have hfile := h.landed.file hk
  have hm : recordedManifest offer manifest = none := by rw [recordedManifest, hk]
  rw [TransferStore.replayCommit]
  refine along_bind (Q := fun a w' => a = some (pendingRecord offer manifest d) ∧ w = w')
    (along_readRecord (n := .commit) h hreserved rfl ⟨rfl, rfl⟩) ?_
  rintro _ _ ⟨rfl, rfl⟩
  refine along_bind (Q := fun _ w' => w = w') (along_ensureSameOffer rfl) ?_
  rintro _ _ rfl
  rw [recoverCommit]
  refine along_bind (Q := fun _ w' => w = w') (along_lift (fun _ _ => rfl) fun e he => by
    cases h.landed.name.symm.trans he) ?_
  rintro _ _ rfl
  refine along_bind (Q := fun there w' => there = true ∧ w = w') (along_fs_reads trivial hfile.exists? h ⟨rfl, rfl⟩) ?_
  rintro _ _ ⟨rfl, rfl⟩
  have hcheck := (eval_ensureFileDestination (h.landed.sound.real_destination hr d) (List.cons_ne_nil _ _)).mpr hfile
  refine along_bind (Q := fun _ w' => w = w') (along_of_reads (reads_ensureFileDestination _ _ _) h (fun _ _ => rfl)
    fun e he => by cases hcheck.symm.trans he) ?_
  rintro _ _ rfl
  have hrecord := along_recordDone (F := F) hr hid h
  rw [doneRecord, hm] at hrecord
  refine along_bind hrecord ?_
  rintro _ v ⟨h, hdone⟩
  have hpart : v.fs.get (s.stateFile offer "part") ≠ some .dir := by
    have hgone := h.landed.gone
    rw [hk] at hgone
    rw [show s.stateFile offer "part" = s.stateFile offer TransferKind.file.item from rfl, hgone]
    simp
  rw [← hm] at hdone
  refine along_bind (along_removeLeft hr h hdone (by decide) hpart) ?_
  rintro _ v ⟨h, hdone⟩
  refine along_bind (along_removeLeft hr h hdone (by decide) h.landed.metadata.not_dir) ?_
  rintro _ v ⟨h, hdone⟩
  refine along_bind (along_removeLeft hr h hdone (by decide) h.landed.commit_not_dir) ?_
  rintro _ v ⟨h, hdone⟩
  exact along_pure ⟨rfl, h⟩

/-! Preparations. -/

/-- What a preparation answers that goes on, and what it leaves. -/
structure Resumed (L : Layout) (s : TransferStore) (offer : TransferOffer) (manifest : FolderManifest)
    (C : Contents → Prop) (w₀ : World) (outcome : PrepareOutcome) (w : World) : Prop where
  stage : Stage L s offer manifest (Arrived s offer C) w₀ w
  metadata : s.kept offer .metadata w = some (.file (.json (.metadata (StoredOffer.of offer))))
  part : ∃ c, w.fs.get (s.stateFile offer "part") = some (.file c) ∧ C c ∧
    outcome = .resume ⟨s.stateFile offer "part", FileData.size c⟩

theorem Begun.kept {w' : World} (h : Begun L (s.destinationRoot offer) (StoredOffer.of offer) w w') (n : RecordName) :
    s.kept offer n w' = if n = .metadata then some (.file (.json (.metadata (StoredOffer.of offer))))
      else s.kept offer n w := by
  have hget := h.get (s.stateFile offer n.extension) (not_scratch_record n)
  simp only [TransferStore.kept, World.record, hget, StoredOffer.of, statePath_inj]
  cases n <;> simp [RecordName.extension]

theorem Begun.stage {w' : World} (h : Begun L (s.destinationRoot offer) (StoredOffer.of offer) w w')
    (hr : s.destinationRoot offer ∈ L.roots) (hw : Stage L s offer manifest (Arrived s offer C) w₀ w) :
    Stage L s offer manifest (Arrived s offer C) w₀ w' := by
  have hframes : L.Frames none w w' := frames_of_state hr fun q hq hn => by
    rw [h.get q hq]
    exact (if_neg (hn "json")).trans (if_neg (hn "part"))
  have hsame : ∀ n, n ≠ .metadata → s.kept offer n w' = s.kept offer n w := fun n hn => by
    rw [h.kept, if_neg hn]
  refine ⟨⟨h.sound, ?_, ?_, ?_, ?_⟩, .inl h.part, hw.frames.trans hframes⟩
  · rw [hsame _ (by decide)]
    exact hw.underway.done
  · rw [hsame _ (by decide)]
    refine hw.underway.commit.imp id ?_
    rintro ⟨d, hd, hname, hfree⟩
    exact ⟨d, (hsame _ (by decide)).trans hd, hname, hframes.occupied hr hfree⟩
  · exact .inr (by rw [h.kept, if_pos rfl])
  · rw [KeptDocument, hsame _ (by decide)]
    exact hw.underway.document

/-- A file that is underway is asked for again from the end of what has arrived. -/
theorem along_prepare_underway (hv : offer.validate = .ok ()) (hk : offer.kind = .file)
    (hr : s.destinationRoot offer ∈ L.roots) (h : Stage L s offer manifest (Arrived s offer C) w₀ w)
    (hempty : C FileData.empty) (hsize : ∀ c, C c → FileData.size c ≤ offer.size)
    (hf : Blocked s offer manifest w → ∀ e, F e w) :
    Along (Stage L s offer manifest (Arrived s offer C) w₀) (Resumed L s offer manifest C w₀) F (s.prepare offer) w := by
  have hid : StateId (StoredOffer.of offer).transferId := stateId_of_parseUuid (offer.validate_parseUuid hv)
  have hY : OfItem s offer (Arrived s offer C) := ofItem_arrived hk
  have hpartwrites : ∀ {v v' : World} {n : Option (Node Contents)}, Stage L s offer manifest (Arrived s offer C) w₀ v →
      Writes L offer.transferId v v' (s.stateFile offer "part") n → (n = none ∨ ∃ c, n = some (.file c) ∧ C c) →
      Stage L s offer manifest (Arrived s offer C) w₀ v' := by
    intro v v' n hstage hw hn
    have hat : v'.fs.get (s.stateFile offer "part") = n := by
      rw [hw.get _ (not_scratch (by simp)), if_pos rfl]
    refine ⟨hstage.underway.writes hr hw (fun he => absurd he (by decide)) (fun he => absurd he (by decide))
      (fun he => absurd he (by decide)) (fun he => absurd he (by decide)), ?_, hstage.frames.trans (hw.frames hr)⟩
    exact hn.imp hat.trans fun ⟨c, hc, hC⟩ => ⟨c, hat.trans hc, hC⟩
  refine along_prepare (A := fun v => v = w) (B := fun v => v = w) (C := fun v =>
    Stage L s offer manifest (Arrived s offer C) w₀ v ∧
      s.kept offer .metadata v = some (.file (.json (.metadata (StoredOffer.of offer))))) hv hk ?_ ?_ ?_ ?_
  · exact along_replayDone_absent h.underway.sound hr h h.underway.done rfl
  · rintro _ rfl
    exact h.underway.replayCommit hr h (fun _ => rfl) hf
  · rintro _ rfl
    rcases h.underway.metadata with hn | hn
    · refine along_keepMetadata_new hid h.underway.sound hr (Stage.blind hr hY) h hn h.item.plain
        (fun v hw => hpartwrites h hw (.inl rfl)) fun v hw => ?_
      have hstage := hw.stage hr h
      exact ⟨hstage, hstage, by rw [hw.kept, if_pos rfl]⟩
    · exact along_keepMetadata h hn ⟨h, hn⟩
  · rintro v ⟨hstage, hmetadata⟩
    refine along_partLength hstage.underway.sound hr hstage hstage.item.plain (fun c hc => ?_) fun hn v' hw => ?_
    · obtain ⟨c', hc', hC⟩ := hstage.item.resolve_left fun hn => by cases hn.symm.trans hc
      obtain rfl := Node.file.inj (Option.some.inj (hc.symm.trans hc'))
      exact ⟨hsize c hC, hstage, hmetadata, c, hc, hC, rfl⟩
    · have hstage' := hpartwrites hstage hw (.inr ⟨_, rfl, hempty⟩)
      refine ⟨hstage', Nat.zero_le _, hstage', ?_, FileData.empty, ?_, hempty, rfl⟩
      · rw [hw.kept, if_neg (by decide)]
        exact hmetadata
      · rw [hw.get _ (not_scratch (by simp)), if_pos rfl]

/-- A file that is at its destination is answered to be complete. -/
theorem along_prepare_landed (hv : offer.validate = .ok ()) (hk : offer.kind = .file)
    (hr : s.destinationRoot offer ∈ L.roots) (h : Landing L s offer manifest d p w₀ w) :
    Along (Landing L s offer manifest d p w₀) (fun outcome v =>
      outcome = .complete ⟨offer.receipt, d :: s.destinationRoot offer⟩ ∧ Landing L s offer manifest d p w₀ v)
      F (s.prepare offer) w := by
  have hid : StateId (StoredOffer.of offer).transferId := stateId_of_parseUuid (offer.validate_parseUuid hv)
  refine along_prepare (A := fun v => v = w ∧ Reserved s offer manifest d w) (B := fun _ => False) (C := fun _ => False)
    hv hk ?_ ?_ (fun _ hB => hB.elim) fun _ hC => hC.elim
  · exact h.landed.replayDone hk hr h ⟨rfl, h⟩ fun _ hreserved => ⟨rfl, hreserved⟩
  · rintro _ ⟨rfl, hreserved⟩
    refine (h.replayCommit hk hid hr hreserved).mono (fun _ hi => hi) ?_ fun _ _ hf => hf
    rintro _ v ⟨rfl, hlanding⟩
    exact ⟨rfl, hlanding⟩

end FileStages

end InkHole
