import InkHole.Recovery
import InkHole.Reuse

/-! An offer that comes again after its transfer was completed, whatever has become of the
item at its destination. -/

set_option linter.unusedSectionVars false

namespace InkHole

open InkHole.CoreM Fallible FileTree TransferStore

section Resend

variable [Externals] {L : Layout} {s : TransferStore} {offer : TransferOffer} {manifest : FolderManifest}
  {d : String} {w : World}

def PrepareOutcome.completed : PrepareOutcome → Option CompletedTransfer
  | .complete completed => some completed
  | .resume _ => none

def PrepareFolderOutcome.completed : PrepareFolderOutcome → Option CompletedTransfer
  | .complete completed => some completed
  | .resume _ => none

/-- What a new stream is told: that the transfer is complete, or to go on. -/
def TransferStore.answer (s : TransferStore) (offer : TransferOffer) (manifest : FolderManifest) :
    CoreM (Option CompletedTransfer) := do
  match offer.kind with
  | .file =>
    let outcome ← s.prepare offer
    return outcome.completed
  | .folderV1 =>
    let outcome ← s.prepareFolder offer manifest
    return outcome.completed

/-- The manifest that the records of an offer keep. -/
def recordedManifest (offer : TransferOffer) (manifest : FolderManifest) : Option FolderManifest :=
  match offer.kind with
  | .file => none
  | .folderV1 => some manifest

def doneRecord (offer : TransferOffer) (manifest : FolderManifest) (d : String) : DoneRecord :=
  ⟨StoredOffer.of offer, d, offer.receipt, recordedManifest offer manifest⟩

def pendingRecord (offer : TransferOffer) (manifest : FolderManifest) (d : String) : CommitRecord :=
  ⟨StoredOffer.of offer, d, recordedManifest offer manifest⟩

/-- The destination holds the content of the offer. -/
def Delivered (s : TransferStore) (offer : TransferOffer) (manifest : FolderManifest) (d : String) (w : World) : Prop :=
  match offer.kind with
  | .file => FileAt w (d :: s.destinationRoot offer) offer.size offer.blake3
  | .folderV1 => FolderAt w (d :: s.destinationRoot offer) manifest

/-- What a completed transfer has left in the state directory. If it was cut off after its done record,
that are its other records and what they tell of. -/
structure Finished (s : TransferStore) (offer : TransferOffer) (manifest : FolderManifest) (d : String) (w : World) :
    Prop where
  name : validateDestinationName d = .ok ()
  done : w.record (s.destinationRoot offer) offer.transferId .done =
    some (.file (.json (.done (doneRecord offer manifest d))))
  commit : w.record (s.destinationRoot offer) offer.transferId .commit = none ∨
    w.record (s.destinationRoot offer) offer.transferId .commit =
      some (.file (.json (.commit (pendingRecord offer manifest d))))
  metadata : w.record (s.destinationRoot offer) offer.transferId .metadata = none ∨
    w.record (s.destinationRoot offer) offer.transferId .metadata =
      some (.file (.json (.metadata (StoredOffer.of offer))))
  part : Plain (w.fs.get (statePath (s.destinationRoot offer) offer.transferId "part")) ∧
    ∀ c, w.fs.get (statePath (s.destinationRoot offer) offer.transferId "part") = some (.file c) →
      FileData.size c ≤ offer.size
  document : w.record (s.destinationRoot offer) offer.transferId .manifest ≠ some .dir ∧
    (offer.kind = .folderV1 → w.record (s.destinationRoot offer) offer.transferId .metadata ≠ none →
      w.record (s.destinationRoot offer) offer.transferId .manifest = some (.file (.json (.manifest manifest))))
  staging : w.fs.get (statePath (s.destinationRoot offer) offer.transferId "folder.part") = none ∨
    FolderAt w (statePath (s.destinationRoot offer) offer.transferId "folder.part") manifest

/-- The offer is answered: complete with its destination if that holds its content, else to go on. -/
def Resendable (s : TransferStore) (offer : TransferOffer) (manifest : FolderManifest) (d : String) (w : World) : Prop :=
  (Delivered s offer manifest d w →
    eval (s.answer offer manifest) w = .ok (some ⟨offer.receipt, d :: s.destinationRoot offer⟩)) ∧
  (¬ Delivered s offer manifest d w → eval (s.answer offer manifest) w = .ok none)

theorem along_answer_file {I : World → Prop} {F : CoreError → World → Prop} {Q : Option CompletedTransfer → World → Prop}
    (hk : offer.kind = .file) (h : Along I (fun outcome w' => Q outcome.completed w') F (s.prepare offer) w) :
    Along I Q F (s.answer offer manifest) w := by
  rw [answer, hk]
  exact along_bind h fun outcome w' h' => along_pure h'

theorem along_answer_folder {I : World → Prop} {F : CoreError → World → Prop}
    {Q : Option CompletedTransfer → World → Prop} (hk : offer.kind = .folderV1)
    (h : Along I (fun outcome w' => Q outcome.completed w') F (s.prepareFolder offer manifest) w) :
    Along I Q F (s.answer offer manifest) w := by
  rw [answer, hk]
  exact along_bind h fun outcome w' h' => along_pure h'

/-- In a staging directory that holds all of the folder, the walk goes to its end. -/
theorem along_resumePosition_complete {root : Path} {size : Nat} (hv : manifest.validate = .ok size)
    (h : FolderAt w root manifest) :
    Along (fun _ => True) (fun _ _ => True) (fun _ _ => False) (resumePosition root manifest.files 0 0) w := by
  have hl := (FolderManifest.validate_ok hv).1
  -- what is there stays, a file may lose its content
  let P : Path → Node Contents → Prop := fun p n =>
    w.fs.get p = some n ∨ n = .file FileData.empty ∧ ∃ c, w.fs.get p = some (.file c)
  have hkind : ∀ {p n n'}, P p n → P p n' → n'.stat.kind = n.stat.kind := by
    rintro p n n' (hn | ⟨rfl, c, hn⟩) (hn' | ⟨rfl, c', hn'⟩)
    · rw [Option.some.inj (hn.symm.trans hn')]
    · rw [Option.some.inj (hn.symm.trans hn')]
      rfl
    · rw [Option.some.inj (hn'.symm.trans hn)]
      rfl
    · rfl
  have hfits : ∀ {p n}, P p n → Fits P (fun _ _ => False) p n := fun hp =>
    ⟨hp, fun n' hn' hk => absurd (hkind hp hn') hk⟩
  have hentry : ∀ e ∈ manifest.files, ∃ c, w.fs.get (place root e.path) = some (.file c) ∧ FileData.size c = e.size := by
    intro e he
    obtain ⟨hmem, hfile⟩ := List.mem_filter.mp he
    obtain ⟨n, hn, his⟩ := h.2.there e hmem
    simp only [FolderEntry.Is, of_decide_eq_true hfile] at his
    obtain ⟨c, rfl, hsize, -⟩ := his
    exact ⟨c, hn, hsize⟩
  have hholding : Holding P root w.fs := by
    refine ⟨h.1, fun q hq n hn => ⟨.inl hn, ?_⟩⟩
    obtain ⟨e, he, hp⟩ := h.2.only q hq (by rw [hn]; simp)
    obtain ⟨n', hn', his⟩ := h.2.there e he
    obtain rfl := Option.some.inj ((hp ▸ hn).symm.trans hn')
    cases hk : e.kind with
    | directory => exact .inl ((is_directory his).mpr hk)
    | file =>
      simp only [FolderEntry.Is, hk] at his
      obtain ⟨c, rfl, -⟩ := his
      exact .inr ⟨c, rfl⟩
  have hsuits : ∀ e ∈ manifest.files, Suits P (fun _ _ => False) root e.path (.file FileData.empty) := by
    intro e he
    obtain ⟨c, hc, -⟩ := hentry e he
    have hpath := hl.path e (List.mem_of_mem_filter he)
    refine ⟨hpath, fun init hne hi => hfits (.inl ?_), hfits (.inr ⟨rfl, c, hc⟩)⟩
    have hplace := place_dropLast root (valid_components hpath).1
    obtain ⟨rest, hrest⟩ := hi
    have habove : init.reverse ++ root <:+ place root e.path := by
      rw [hplace, ← hrest, List.reverse_append]
      exact ⟨(components e.path).getLast (components_ne_nil e.path) :: rest.reverse, by simp⟩
    have hless : init.reverse ++ root ≠ place root e.path := by
      intro he'
      have hlength := congrArg List.length (he'.trans hplace)
      rw [← hrest] at hlength
      simp at hlength
      omega
    exact (get_ancestor hc habove hless).resolve_left (by simp [hne])
  have hnodup : (manifest.files.map FolderEntry.path).Nodup :=
    hl.nodup.sublist (List.filter_sublist.map FolderEntry.path)
  have hsum : 0 + (manifest.files.map FolderEntry.size).sum ≤ u64Max := by
    have hle := hl.total
    have hmax : maxFileSize ≤ u64Max := by decide
    rw [FolderManifest.sum_files]
    omega
  refine (along_resumePosition hholding (fun _ _ => trivial) hsuits (fun e he c hc => ?_) hnodup hsum).mono
    (fun _ h => h) (fun _ _ _ => trivial) fun _ _ h => h
  obtain ⟨c', hc', hsize⟩ := hentry e he
  rcases hc with hc | ⟨hc, -⟩
  · obtain rfl := Node.file.inj (Option.some.inj (hc.symm.trans hc'))
    exact hsize.le
  · obtain rfl := Node.file.inj hc
    exact Nat.zero_le _

/-- The done record is gone, and nothing else. -/
def Forgotten (s : TransferStore) (offer : TransferOffer) (w w' : World) : Prop :=
  Sets w.fs w'.fs (statePath (s.destinationRoot offer) offer.transferId "done.json") none

theorem Forgotten.get {w' : World} (h : Forgotten s offer w w') (extension : String) (hne : extension ≠ "done.json") :
    w'.fs.get (statePath (s.destinationRoot offer) offer.transferId extension) =
      w.fs.get (statePath (s.destinationRoot offer) offer.transferId extension) :=
  Sets.off h fun he => hne (statePath_inj.mp he)

theorem Forgotten.sound {w' : World} (h : Forgotten s offer w w') (hs : L.Sound w.fs)
    (hr : s.destinationRoot offer ∈ L.roots) : L.Sound w'.fs :=
  hs.sets h (L.owned_statePath hr _ _).inside fun _ hn => by cases hn

theorem Forgotten.free {w' : World} {p : Path} (h : Forgotten s offer w w') (hf : Finished s offer manifest d w)
    (hfree : w.fs.exists? p = .ok false) : w'.fs.exists? p = .ok false := by
  have hdone := hf.done
  refine (losesFiles_sets h ?_ (fun target => ?_) ?_).exists? hfree
  · exact fun hn => by cases hdone.symm.trans hn
  · exact fun hn => by cases hdone.symm.trans hn
  · exact fun hn => by cases hdone.symm.trans hn

theorem Finished.resumes_file (hf : Finished s offer manifest d w) (hs : L.Sound w.fs)
    (hr : s.destinationRoot offer ∈ L.roots) (hv : offer.validate = .ok ()) (hk : offer.kind = .file)
    (hfree : w.fs.exists? (d :: s.destinationRoot offer) = .ok false) :
    Along (fun _ => True) (fun v _ => v = none) (fun _ _ => False) (s.answer offer manifest) w := by
  have hid : StateId (StoredOffer.of offer).transferId := stateId_of_parseUuid (offer.validate_parseUuid hv)
  refine along_answer_file hk (along_prepare (A := Forgotten s offer w) (B := Forgotten s offer w)
    (C := fun w' => L.Sound w'.fs ∧ Plain (w'.fs.get (statePath (s.destinationRoot offer) offer.transferId "part")) ∧
      ∀ c, w'.fs.get (statePath (s.destinationRoot offer) offer.transferId "part") = some (.file c) →
        FileData.size c ≤ offer.size) hv hk ?_ (fun w₁ h₁ => ?_) (fun w₁ h₁ => ?_) ?_)
  · have heval := (completed_none_iff (s := s) (w := w) (v := doneRecord offer manifest d) hf.name rfl).mpr hfree
    refine along_replayDone (v := doneRecord offer manifest d) hs hr trivial hf.done (fun c hc => ?_) (fun _ w' h' => ⟨trivial, h'⟩) fun e he => ?_
    · cases heval.symm.trans hc
    · cases heval.symm.trans he
  · have hsame := h₁.get "commit.json" (by decide)
    rcases hf.commit with hn | hn
    · exact along_replayCommit_absent (h₁.sound hs hr) hr trivial (hsame.trans hn) h₁
    · exact along_replayCommit_gone (v := pendingRecord offer manifest d) trivial (hsame.trans hn) hf.name
        (h₁.free hf hfree) h₁
  · have hpart := h₁.get "part" (by decide)
    have hsame := h₁.get "json" (by decide)
    rcases hf.metadata with hn | hn
    · refine along_keepMetadata_new hid (h₁.sound hs hr) hr blind_true trivial (hsame.trans hn) ?_
        (fun _ _ => trivial) fun w' h' => ⟨trivial, h'.sound, .inl h'.part, fun c hc => ?_⟩
      · exact hpart ▸ hf.part.1
      · cases h'.part.symm.trans hc
    · exact along_keepMetadata trivial (hsame.trans hn) ⟨h₁.sound hs hr, hpart ▸ hf.part⟩
  · rintro w₁ ⟨hs₁, hplain, hsize⟩
    exact along_partLength hs₁ hr trivial hplain (fun c hc => ⟨hsize c hc, rfl⟩)
      fun _ _ _ => ⟨trivial, Nat.zero_le _, rfl⟩

theorem Finished.resumes_folder (hf : Finished s offer manifest d w) (hs : L.Sound w.fs)
    (hr : s.destinationRoot offer ∈ L.roots) (hv : offer.validate = .ok ()) (hk : offer.kind = .folderV1)
    (hvm : manifest.validateOffer offer = .ok ())
    (hfree : w.fs.exists? (d :: s.destinationRoot offer) = .ok false) :
    Along (fun _ => True) (fun v _ => v = none) (fun _ _ => False) (s.answer offer manifest) w := by
  have hid : StateId (StoredOffer.of offer).transferId := stateId_of_parseUuid (offer.validate_parseUuid hv)
  obtain ⟨size, hsize⟩ := FolderManifest.validate_of_offer hvm
  have hm : recordedManifest offer manifest = some manifest := by rw [recordedManifest, hk]
  refine along_answer_folder hk (along_prepareFolder (A := Forgotten s offer w) (B := Forgotten s offer w) hv hvm ?_
    (fun w₁ h₁ => ?_) fun w₁ h₁ => ?_)
  · have heval := (completed_folder_none_iff (s := s) (w := w) (v := doneRecord offer manifest d) hf.name hm rfl).mpr
      hfree
    refine along_replayFolderDone (v := doneRecord offer manifest d) hs hr trivial hf.done hm (fun c hc => ?_) (fun _ w' h' => ⟨trivial, h'⟩) fun e he => ?_
    · cases heval.symm.trans hc
    · cases heval.symm.trans he
  · have hsame := h₁.get "commit.json" (by decide)
    rcases hf.commit with hn | hn
    · exact along_replayFolderCommit_absent (h₁.sound hs hr) hr trivial (hsame.trans hn) h₁
    · exact along_replayFolderCommit_gone (v := pendingRecord offer manifest d) trivial (hsame.trans hn) hm hf.name
        (h₁.free hf hfree) h₁
  · have hs₁ := h₁.sound hs hr
    have hstaging : ∀ q, statePath (s.destinationRoot offer) offer.transferId "folder.part" <:+ q →
        w₁.fs.get q = w.fs.get q := fun q hq =>
      Sets.off h₁ fun he => not_suffix_statePath (by decide) (he ▸ hq)
    have htop := hstaging _ List.suffix_rfl
    have hmanifest := h₁.get "manifest.json" (by decide)
    have hmetadata := h₁.get "json" (by decide)
    have hpaths : ∀ e ∈ manifest.files, validateFolderRelativePath e.path = .ok () := fun e he =>
      (FolderManifest.validate_ok hsize).1.path e (List.mem_of_mem_filter he)
    have hagain : Along (fun _ => True) (fun _ _ => True) (fun _ _ => False) (do
        keepFolderMetadata (StoredOffer.of offer) manifest (statePaths (s.destinationRoot offer) offer.transferId)
        ensureDirectory (statePath (s.destinationRoot offer) offer.transferId "folder.part")
        resumePosition (statePath (s.destinationRoot offer) offer.transferId "folder.part") manifest.files 0 0) w₁ := by
      rcases hf.metadata with hn | hn
      · refine along_beginFolder hid hs₁ hr (hmetadata.trans hn) (fun hd => hf.document.1 (hmanifest.symm.trans hd)) ?_ hsize
        rw [hstaging _ List.suffix_rfl]
        exact hf.staging.imp_right And.left
      · have hdocument := hf.document.2 hk (by rw [hn]; simp)
        refine along_bind (Q := fun _ w' => w₁ = w') (along_keepFolderMetadata trivial (hmetadata.trans hn)
          (hmanifest.trans hdocument) rfl) ?_
        rintro _ _ rfl
        rcases hf.staging with hnone | hat
        · refine along_emptyStaging (hs₁.real_state hr _) (statePath_ne_nil _) (fun q hq => ?_) hpaths
          rw [hstaging q hq]
          exact absent_below (statePath_ne_nil _) hnone hq
        · have hat₁ := hat.congr hstaging
          refine along_bind (Q := fun _ w' => w₁ = w') (along_ensureDirectory (hs₁.real_state hr _)
            (statePath_ne_nil _) trivial (.inr hat₁.1) (fun _ => rfl) fun hn => by cases hat₁.1.symm.trans hn) ?_
          rintro _ _ rfl
          exact along_resumePosition_complete hsize hat₁
    exact hagain.mono (fun _ h => h) (fun _ _ _ => rfl) fun _ _ h => h

theorem exists_of_delivered (h : Delivered s offer manifest d w) :
    w.fs.exists? (d :: s.destinationRoot offer) = .ok true := by
  rw [Delivered] at h
  cases hk : offer.kind with
  | file =>
    rw [hk] at h
    exact FileAt.exists? h
  | folderV1 =>
    rw [hk] at h
    exact FolderAt.exists? h

/-- The item is there: the transfer is complete. -/
theorem Finished.answered (hf : Finished s offer manifest d w) (hs : L.Sound w.fs) (hr : s.destinationRoot offer ∈ L.roots)
    (hok : ¬ Refused offer manifest) (hnamed : w.fs.Named (d :: s.destinationRoot offer))
    (h : Delivered s offer manifest d w) :
    Along (fun _ => True) (fun v _ => v = some ⟨offer.receipt, d :: s.destinationRoot offer⟩) (fun _ _ => False)
      (s.answer offer manifest) w := by
  have hv : offer.validate = .ok () := not_not.mp fun hc => hok (.inl hc)
  have hreal := hs.real_destination hr d
  rw [Delivered] at h
  cases hk : offer.kind with
  | file =>
    rw [hk] at h
    have heval := (completed_file_iff (s := s) (v := doneRecord offer manifest d) hf.name rfl hreal _).mpr ⟨h, rfl⟩
    refine along_answer_file hk (along_prepare (A := fun _ => False) (B := fun _ => False) (C := fun _ => False) hv hk
      ?_ (fun _ h => h.elim) (fun _ h => h.elim) fun _ h => h.elim)
    refine along_replayDone (v := doneRecord offer manifest d) hs hr trivial hf.done (fun c hc => ?_) (fun hc => ?_) fun e he => ?_
    · exact Except.ok.inj (hc.symm.trans heval)
    · cases heval.symm.trans hc
    · cases heval.symm.trans he
  | folderV1 =>
    have hvm : manifest.validateOffer offer = .ok () := not_not.mp fun hc => hok (.inr ⟨hk, hc⟩)
    have hm : recordedManifest offer manifest = some manifest := by rw [recordedManifest, hk]
    obtain ⟨size, hsize⟩ := FolderManifest.validate_of_offer hvm
    rw [hk] at h
    have heval := (completed_folder_iff (s := s) (v := doneRecord offer manifest d) hf.name hm rfl hsize hnamed hreal
      _).mpr ⟨h, rfl⟩
    refine along_answer_folder hk (along_prepareFolder (A := fun _ => False) (B := fun _ => False) hv hvm ?_
      (fun _ h => h.elim) fun _ h => h.elim)
    refine along_replayFolderDone (v := doneRecord offer manifest d) hs hr trivial hf.done hm (fun c hc => ?_) (fun hc => ?_) fun e he => ?_
    · exact Except.ok.inj (hc.symm.trans heval)
    · cases heval.symm.trans hc
    · cases heval.symm.trans he

/-- Something else is there: the check of the record fails, and so does the preparation. -/
theorem Finished.blocked (hf : Finished s offer manifest d w) (hs : L.Sound w.fs) (hr : s.destinationRoot offer ∈ L.roots)
    (hok : ¬ Refused offer manifest) (hnamed : w.fs.Named (d :: s.destinationRoot offer))
    (hfree : w.fs.exists? (d :: s.destinationRoot offer) ≠ .ok false) (h : ¬ Delivered s offer manifest d w) :
    Along (fun _ => True) (fun _ _ => False) (fun _ _ => True) (s.answer offer manifest) w := by
  have hv : offer.validate = .ok () := not_not.mp fun hc => hok (.inl hc)
  have hreal := hs.real_destination hr d
  rw [Delivered] at h
  cases hk : offer.kind with
  | file =>
    rw [hk] at h
    have hthere := completed_file_iff (s := s) (v := doneRecord offer manifest d) hf.name rfl hreal
    have hnone := completed_none_iff (s := s) (w := w) (v := doneRecord offer manifest d) hf.name rfl
    refine along_answer_file hk (along_prepare (A := fun _ => False) (B := fun _ => False) (C := fun _ => False) hv hk
      ?_ (fun _ h => h.elim) (fun _ h => h.elim) fun _ h => h.elim)
    exact along_replayDone (v := doneRecord offer manifest d) hs hr trivial hf.done (fun c hc => h ((hthere c).mp hc).1)
      (fun hc => absurd (hnone.mp hc) hfree) fun _ _ => trivial
  | folderV1 =>
    have hvm : manifest.validateOffer offer = .ok () := not_not.mp fun hc => hok (.inr ⟨hk, hc⟩)
    have hm : recordedManifest offer manifest = some manifest := by rw [recordedManifest, hk]
    obtain ⟨size, hsize⟩ := FolderManifest.validate_of_offer hvm
    rw [hk] at h
    have hthere := completed_folder_iff (s := s) (v := doneRecord offer manifest d) hf.name hm rfl hsize hnamed hreal
    have hnone := completed_folder_none_iff (s := s) (w := w) (v := doneRecord offer manifest d) hf.name hm rfl
    refine along_answer_folder hk (along_prepareFolder (A := fun _ => False) (B := fun _ => False) hv hvm ?_
      (fun _ h => h.elim) fun _ h => h.elim)
    exact along_replayFolderDone (v := doneRecord offer manifest d) hs hr trivial hf.done hm
      (fun c hc => h ((hthere c).mp hc).1) (fun hc => absurd (hnone.mp hc) hfree) fun _ _ => trivial

/-- An offer that was completed is answered again exactly if nothing has taken the place of its item. -/
theorem resend_iff (hroots : ∀ r ∈ s.categoryRoots.allRoots s.inbox, r ∈ L.roots) (hs : L.Sound w.fs)
    (hok : ¬ Refused offer manifest) (hnamed : w.fs.Named (d :: s.destinationRoot offer))
    (hf : Finished s offer manifest d w) : Resendable s offer manifest d w ↔
      w.fs.exists? (d :: s.destinationRoot offer) = .ok false ∨ Delivered s offer manifest d w := by
  have hr : s.destinationRoot offer ∈ L.roots := hroots _ (s.categoryRoots.rootFor_mem_allRoots s.inbox _ _)
  have hv : offer.validate = .ok () := not_not.mp fun hc => hok (.inl hc)
  constructor
  · intro h
    by_contra hc
    obtain ⟨hfree, hnot⟩ := not_or.mp hc
    obtain ⟨e, he⟩ := eval_error_of_along (hf.blocked hs hr hok hnamed hfree hnot)
    cases he.symm.trans (h.2 hnot)
  · rintro (hfree | hat)
    · have hnot : ¬ Delivered s offer manifest d w := fun h => by cases hfree.symm.trans (exists_of_delivered h)
      refine ⟨fun h => absurd h hnot, fun _ => eval_ok_of_along (I := fun _ => True) ?_⟩
      cases hk : offer.kind with
      | file => exact hf.resumes_file hs hr hv hk hfree
      | folderV1 =>
        have hvm : manifest.validateOffer offer = .ok () := not_not.mp fun hc => hok (.inr ⟨hk, hc⟩)
        exact hf.resumes_folder hs hr hv hk hvm hfree
    · exact ⟨fun _ => eval_ok_of_along (hf.answered hs hr hok hnamed hat), fun h => absurd hat h⟩

end Resend

attribute [local instance] Sample.externals

namespace Sample

/-- The file was received and has been moved away. -/
def emptied : World :=
  ⟨tree.put (statePath ["inbox"] first.transferId "done.json")
    (.file (.json (.done (doneRecord first ⟨1, []⟩ "a.txt")))), 0, []⟩

/-- Another file has its name. -/
def replaced : World := ⟨emptied.fs.put ["a.txt", "inbox"] (.file (.bytes [66])), 0, []⟩

theorem emptied_get (q : Path) : emptied.fs.get q = if q = statePath ["inbox"] first.transferId "done.json" then
    some (.file (.json (.done (doneRecord first ⟨1, []⟩ "a.txt")))) else tree.get q :=
  get_put (by decide +kernel) q

theorem replaced_get (q : Path) : replaced.fs.get q =
    if q = ["a.txt", "inbox"] then some (.file (.bytes [66])) else emptied.fs.get q :=
  get_put (by decide +kernel) q

theorem first_root : (store 0).destinationRoot first = ["inbox"] := by decide +kernel

theorem finished {w : World} (h : ∀ extension, w.fs.get (statePath ["inbox"] first.transferId extension) =
    emptied.fs.get (statePath ["inbox"] first.transferId extension)) :
    Finished (store 0) first ⟨1, []⟩ "a.txt" w := by
  have hother : ∀ extension : String, extension ≠ "done.json" →
      w.fs.get (statePath ["inbox"] first.transferId extension) = none := by
    intro extension hne
    rw [h, emptied_get, if_neg fun he => hne (statePath_inj.mp he)]
    exact nothing_inside (layout.owned_statePath inbox_mem _ _).inside
  have hdone := (h "done.json").trans ((emptied_get _).trans (if_pos rfl))
  constructor
  · decide +kernel
  · rw [first_root]
    exact hdone
  · rw [first_root]
    exact .inl (hother "commit.json" (by decide))
  · rw [first_root]
    exact .inl (hother "json" (by decide))
  · rw [first_root, hother "part" (by decide)]
    exact ⟨.inl rfl, fun c hc => by cases hc⟩
  · rw [first_root]
    refine ⟨fun hd => ?_, fun hk => by cases hk⟩
    cases (hother "manifest.json" (by decide)).symm.trans hd
  · rw [first_root]
    exact .inl (hother "folder.part" (by decide))

end Sample

/-- The file is gone, and is asked for again. -/
theorem resend_sample : Resendable (Sample.store 0) Sample.first ⟨1, []⟩ "a.txt" Sample.emptied := by
  have hroots : ∀ r ∈ (Sample.store 0).categoryRoots.allRoots (Sample.store 0).inbox, r ∈ Sample.layout.roots := by
    decide +kernel
  have hs : Sample.layout.Sound Sample.emptied.fs :=
    Sample.sound.sets Sample.emptied_get (Sample.layout.owned_statePath Sample.inbox_mem _ _).inside
      fun _ h => .inr ⟨_, (Option.some.inj h).symm⟩
  have hok : ¬ Refused Sample.first ⟨1, []⟩ := by
    rintro (h | ⟨h, -⟩)
    · exact h (by decide +kernel)
    · cases h
  have hnone : Sample.emptied.fs.get ("a.txt" :: (Sample.store 0).destinationRoot Sample.first) = none := by
    decide +kernel
  have hnamed : Sample.emptied.fs.Named ("a.txt" :: (Sample.store 0).destinationRoot Sample.first) :=
    fun name p hp hs => absurd (absent_below (List.cons_ne_nil _ _) hnone (hs.trans (List.suffix_cons _ _))) hp
  have hfree : Sample.emptied.fs.exists? ("a.txt" :: (Sample.store 0).destinationRoot Sample.first) = .ok false := by
    decide +kernel
  exact (resend_iff hroots hs hok hnamed (Sample.finished fun _ => rfl)).mpr (.inl hfree)

/-- Another file has taken the name, and the preparation fails. -/
theorem resend_blocked : Finished (Sample.store 0) Sample.first ⟨1, []⟩ "a.txt" Sample.replaced ∧
    eval ((Sample.store 0).answer Sample.first ⟨1, []⟩) Sample.replaced =
      .error (.digestMismatch ["a.txt", "inbox"]) ∧
    ¬ Resendable (Sample.store 0) Sample.first ⟨1, []⟩ "a.txt" Sample.replaced := by
  have heval : eval ((Sample.store 0).answer Sample.first ⟨1, []⟩) Sample.replaced =
      .error (.digestMismatch ["a.txt", "inbox"]) := by decide +kernel
  refine ⟨Sample.finished fun extension => ?_, heval, fun h => ?_⟩
  · rw [Sample.replaced_get, if_neg (by simp [statePath])]
  · by_cases hd : Delivered (Sample.store 0) Sample.first ⟨1, []⟩ "a.txt" Sample.replaced
    · cases heval.symm.trans (h.1 hd)
    · cases heval.symm.trans (h.2 hd)

end InkHole
