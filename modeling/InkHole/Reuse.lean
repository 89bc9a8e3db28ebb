import InkHole.Operations
import InkHole.Preparing

/-! A transfer id that comes back with another offer. The records of the id are looked for
below the root that the new offer is sorted into. -/

set_option linter.unusedSectionVars false

namespace InkHole

open InkHole.CoreM Fallible FileTree TransferStore

section Reuse

variable [Externals] {L : Layout} {s : TransferStore} {first second offer : TransferOffer}
  {manifest : FolderManifest} {w : World} {r : Path}

/-- What answers a new stream, by the kind of its offer. -/
def TransferStore.prepareAny (s : TransferStore) (offer : TransferOffer) (manifest : FolderManifest) :
    CoreM Unit := do
  match offer.kind with
  | .file => let _ ← s.prepare offer
  | .folderV1 => let _ ← s.prepareFolder offer manifest

/-- The offer and its manifest are not what a sender may send. -/
def Refused (offer : TransferOffer) (manifest : FolderManifest) : Prop :=
  offer.validate ≠ .ok () ∨ (offer.kind = .folderV1 ∧ manifest.validateOffer offer ≠ .ok ())

/-- The document is one that the transfer of this offer writes. -/
def Recorded (offer : TransferOffer) : RecordName → Record → Prop
  | .metadata, v => v = .metadata (StoredOffer.of offer)
  | .manifest, v => ∃ m, v = .manifest m
  | .commit, v => ∃ c, v = .commit c ∧ c.offer = StoredOffer.of offer
  | .done, v => ∃ d, v = .done d ∧ d.offer = StoredOffer.of offer

/-- The state on disk of a transfer id is that of this offer. -/
structure LeftBy (L : Layout) (s : TransferStore) (offer : TransferOffer) (w : World) : Prop where
  records : ∀ n v, w.record (s.destinationRoot offer) offer.transferId n = some v →
    ∃ record, v = .file (.json record) ∧ Recorded offer n record
  part : Plain (w.fs.get (statePath (s.destinationRoot offer) offer.transferId "part"))
  staging : w.fs.get (statePath (s.destinationRoot offer) offer.transferId "folder.part") = none ∨
    w.fs.get (statePath (s.destinationRoot offer) offer.transferId "folder.part") = some .dir
  alone : ∀ r ∈ L.roots, r ≠ s.destinationRoot offer → ∀ extension ∈
    ["part", "folder.part", "json", "manifest.json", "commit.json", "done.json"],
    w.fs.get (statePath r offer.transferId extension) = none

/-- The preparation of the second offer fails and touches no file of the first one's state. -/
def Detected (s : TransferStore) (first second : TransferOffer) (manifest : FolderManifest) (w : World) : Prop :=
  (∃ e, ((s.prepareAny second manifest).run.run w).1 = .error e) ∧
    ∀ name rest, Named first.transferId name →
      ((s.prepareAny second manifest).run.run w).2.fs.get
        (rest ++ name :: stateDirectory :: s.destinationRoot first) =
      w.fs.get (rest ++ name :: stateDirectory :: s.destinationRoot first)

/-! Refusals. -/

section Refusals

variable {Q : Option CompletedTransfer → World → Prop} {I : World → Prop} {F : CoreError → World → Prop}
  {expected : StoredOffer} {id : String}

theorem along_ensureSameOffer_other {Q : Unit → World → Prop} {actual : StoredOffer} (h : expected ≠ actual)
    (hf : ∀ e, F e w) : Along I Q F (liftM (ensureSameOffer expected actual) : CoreM Unit) w := by
  rw [ensureSameOffer, if_pos h]
  exact along_lift (fun _ he => by cases he) fun e _ => hf e

theorem along_replayDone_other {d : DoneRecord} (hi : I w)
    (hn : w.record r id .done = some (.file (.json (.done d)))) (hd : expected ≠ d.offer) (hf : ∀ e, F e w) :
    Along I Q F (s.replayDone expected (statePaths r id)) w := by
  rw [replayDone]
  refine along_bind (Q := fun v w' => v = some d ∧ w = w')
    (along_readRecord (n := .done) hi hn rfl ⟨rfl, rfl⟩) ?_
  rintro _ _ ⟨rfl, rfl⟩
  exact along_bind (Q := fun _ _ => False) (along_ensureSameOffer_other hd hf) fun _ _ h => h.elim

theorem along_replayCommit_other {c : CommitRecord} (hi : I w)
    (hn : w.record r id .commit = some (.file (.json (.commit c)))) (hc : expected ≠ c.offer)
    (hf : ∀ e, F e w) : Along I Q F (s.replayCommit expected (statePaths r id)) w := by
  rw [replayCommit]
  refine along_bind (Q := fun v w' => v = some c ∧ w = w')
    (along_readRecord (n := .commit) hi hn rfl ⟨rfl, rfl⟩) ?_
  rintro _ _ ⟨rfl, rfl⟩
  exact along_bind (Q := fun _ _ => False) (along_ensureSameOffer_other hc hf) fun _ _ h => h.elim

theorem along_replayFolderDone_other {d : DoneRecord} (hi : I w)
    (hn : w.record r id .done = some (.file (.json (.done d)))) (hd : expected ≠ d.offer) (hf : ∀ e, F e w) :
    Along I Q F (s.replayFolderDone expected manifest (statePaths r id)) w := by
  rw [replayFolderDone]
  refine along_bind (Q := fun v w' => v = some d ∧ w = w')
    (along_readRecord (n := .done) hi hn rfl ⟨rfl, rfl⟩) ?_
  rintro _ _ ⟨rfl, rfl⟩
  exact along_bind (Q := fun _ _ => False) (along_ensureSameOffer_other hd hf) fun _ _ h => h.elim

theorem along_replayFolderCommit_other {c : CommitRecord} (hi : I w)
    (hn : w.record r id .commit = some (.file (.json (.commit c)))) (hc : expected ≠ c.offer)
    (hf : ∀ e, F e w) : Along I Q F (s.replayFolderCommit expected manifest (statePaths r id)) w := by
  rw [replayFolderCommit]
  refine along_bind (Q := fun v w' => v = some c ∧ w = w')
    (along_readRecord (n := .commit) hi hn rfl ⟨rfl, rfl⟩) ?_
  rintro _ _ ⟨rfl, rfl⟩
  exact along_bind (Q := fun _ _ => False) (along_ensureSameOffer_other hc hf) fun _ _ h => h.elim

theorem along_keepMetadata_other {Q : Unit → World → Prop} {actual : StoredOffer} (hi : I w)
    (hn : w.record r id .metadata = some (.file (.json (.metadata actual)))) (ha : expected ≠ actual)
    (hf : ∀ e, F e w) : Along I Q F (keepMetadata expected (statePaths r id)) w := by
  rw [keepMetadata]
  refine along_bind (Q := fun v w' => v = some actual ∧ w = w')
    (along_readRecord (n := .metadata) hi hn rfl ⟨rfl, rfl⟩) ?_
  rintro _ _ ⟨rfl, rfl⟩
  exact along_ensureSameOffer_other ha hf

theorem along_keepFolderMetadata_other {Q : Unit → World → Prop} {actual : StoredOffer} (hi : I w)
    (hn : w.record r id .metadata = some (.file (.json (.metadata actual)))) (ha : expected ≠ actual)
    (hf : ∀ e, F e w) : Along I Q F (keepFolderMetadata expected manifest (statePaths r id)) w := by
  rw [keepFolderMetadata]
  refine along_bind (Q := fun v w' => v = some actual ∧ w = w')
    (along_readRecord (n := .metadata) hi hn rfl ⟨rfl, rfl⟩) ?_
  rintro _ _ ⟨rfl, rfl⟩
  exact along_bind (Q := fun _ _ => False) (along_ensureSameOffer_other ha hf) fun _ _ h => h.elim

end Refusals

/-! The second offer. -/

/-- The second offer is answered by an error, and the world stays as it is. -/
def Rejects (s : TransferStore) (offer : TransferOffer) (manifest : FolderManifest) (w : World) : Prop :=
  Along (fun w' => w' = w) (fun _ _ => False) (fun _ w' => w' = w) (s.prepareAny offer manifest) w

theorem Rejects.detected (h : Rejects s second manifest w) : Detected s first second manifest w := by
  have hend := (along_run.mp h).run
  cases hr : ((s.prepareAny second manifest).run.run w).1 with
  | ok u =>
    rw [hr] at hend
    exact hend.elim
  | error e =>
    rw [hr] at hend
    exact ⟨⟨e, hr⟩, fun name rest _ => by rw [hend]⟩

theorem rejects_file (hk : offer.kind = .file)
    (h : Along (fun w' => w' = w) (fun _ _ => False) (fun _ w' => w' = w) (s.prepare offer) w) :
    Rejects s offer manifest w := by
  rw [Rejects, prepareAny, hk]
  exact along_bind (Q := fun _ _ => False) h fun _ _ h => h.elim

theorem rejects_folder (hk : offer.kind = .folderV1)
    (h : Along (fun w' => w' = w) (fun _ _ => False) (fun _ w' => w' = w) (s.prepareFolder offer manifest) w) :
    Rejects s offer manifest w := by
  rw [Rejects, prepareAny, hk]
  exact along_bind (Q := fun _ _ => False) h fun _ _ h => h.elim

theorem Refused.rejects (h : Refused second manifest) (w : World) : Rejects s second manifest w := by
  have hthrow : ∀ {x : Except CoreError Unit}, x ≠ .ok () →
      Along (fun w' => w' = w) (fun _ _ => False) (fun _ w' => w' = w) (liftM x : CoreM Unit) w := by
    intro x hx
    exact along_lift (fun _ hu => absurd hu hx) fun _ _ => rfl
  cases hk : second.kind with
  | file =>
    have hv : second.validate ≠ .ok () := h.resolve_right fun hm => by simp [hk] at hm
    refine rejects_file hk ?_
    rw [prepare]
    exact along_bind (Q := fun _ _ => False) (hthrow hv) fun _ _ h => h.elim
  | folderV1 =>
    refine rejects_folder hk ?_
    rw [prepareFolder]
    by_cases hv : second.validate = .ok ()
    · have hm : manifest.validateOffer second ≠ .ok () :=
        (h.resolve_left (not_not.mpr hv)).2
      refine along_bind (Q := fun _ w' => w' = w) (along_lift (fun _ _ => rfl) fun _ _ => rfl) ?_
      rintro _ _ rfl
      exact along_bind (Q := fun _ _ => False) (hthrow hm) fun _ _ h => h.elim
    · exact along_bind (Q := fun _ _ => False) (hthrow hv) fun _ _ h => h.elim

/-- A record of another offer below the root of this one ends the preparation. -/
theorem rejects_of_record (hs : L.Sound w.fs) (hr : s.destinationRoot second ∈ L.roots)
    (hleft : LeftBy L s first w) (hid : first.transferId = second.transferId)
    (hoffer : StoredOffer.of first ≠ StoredOffer.of second)
    (hroot : s.destinationRoot first = s.destinationRoot second)
    (hrecord : ∃ n ∈ [RecordName.metadata, .commit, .done],
      w.record (s.destinationRoot first) first.transferId n ≠ none)
    (hok : ¬ Refused second manifest) : Rejects s second manifest w := by
  have hrecords := hleft.records
  rw [hroot, hid] at hrecords hrecord
  have hcases : ∀ n, w.record (s.destinationRoot second) second.transferId n = none ∨
      ∃ v, w.record (s.destinationRoot second) second.transferId n = some (.file (.json v)) ∧ Recorded first n v := by
    intro n
    cases hn : w.record (s.destinationRoot second) second.transferId n with
    | none => exact .inl rfl
    | some v =>
      obtain ⟨record, rfl, hv⟩ := hrecords n v hn
      exact .inr ⟨record, rfl, hv⟩
  have hv : second.validate = .ok () := not_not.mp fun h => hok (.inl h)
  cases hk : second.kind with
  | file =>
    refine rejects_file hk (along_prepare (A := fun w' => w = w' ∧ w.record (s.destinationRoot second)
      second.transferId .done = none) (B := fun w' => w = w' ∧ w.record (s.destinationRoot second)
      second.transferId .done = none ∧ w.record (s.destinationRoot second) second.transferId .commit = none)
      (C := fun _ => False) hv hk ?_ ?_ ?_ fun _ h => h.elim)
    · rcases hcases .done with hn | ⟨_, hn, d, rfl, hd⟩
      · exact along_replayDone_absent hs hr rfl hn ⟨rfl, hn⟩
      · exact along_replayDone_other rfl hn (hd ▸ hoffer.symm) fun _ => rfl
    · rintro _ ⟨rfl, hdone⟩
      rcases hcases .commit with hn | ⟨_, hn, c, rfl, hc⟩
      · exact along_replayCommit_absent hs hr rfl hn ⟨rfl, hdone, hn⟩
      · exact along_replayCommit_other rfl hn (hc ▸ hoffer.symm) fun _ => rfl
    · rintro _ ⟨rfl, hdone, hcommit⟩
      rcases hcases .metadata with hn | ⟨_, hn, rfl⟩
      · simp [hn, hdone, hcommit] at hrecord
      · exact along_keepMetadata_other rfl hn hoffer.symm fun _ => rfl
  | folderV1 =>
    have hm : manifest.validateOffer second = .ok () := not_not.mp fun h => hok (.inr ⟨hk, h⟩)
    refine rejects_folder hk (along_prepareFolder (A := fun w' => w = w' ∧ w.record (s.destinationRoot second)
      second.transferId .done = none) (B := fun w' => w = w' ∧ w.record (s.destinationRoot second)
      second.transferId .done = none ∧ w.record (s.destinationRoot second) second.transferId .commit = none)
      hv hm ?_ ?_ ?_)
    · rcases hcases .done with hn | ⟨_, hn, d, rfl, hd⟩
      · exact along_replayFolderDone_absent hs hr rfl hn ⟨rfl, hn⟩
      · exact along_replayFolderDone_other rfl hn (hd ▸ hoffer.symm) fun _ => rfl
    · rintro _ ⟨rfl, hdone⟩
      rcases hcases .commit with hn | ⟨_, hn, c, rfl, hc⟩
      · exact along_replayFolderCommit_absent hs hr rfl hn ⟨rfl, hdone, hn⟩
      · exact along_replayFolderCommit_other rfl hn (hc ▸ hoffer.symm) fun _ => rfl
    · rintro _ ⟨rfl, hdone, hcommit⟩
      rcases hcases .metadata with hn | ⟨_, hn, rfl⟩
      · simp [hn, hdone, hcommit] at hrecord
      · exact along_bind (Q := fun _ _ => False) (along_keepFolderMetadata_other rfl hn hoffer.symm fun _ => rfl)
          fun _ _ h => h.elim

/-- In an empty staging directory the first file is the one to begin with. -/
theorem along_resumePosition_empty {root : Path} {entries : List FolderEntry}
    (hd : w.fs.get root = some .dir) (hempty : w.fs.readDir root = [])
    (hv : ∀ e ∈ entries, validateFolderRelativePath e.path = .ok ()) :
    Along (fun _ => True) (fun _ _ => True) (fun _ _ => False) (resumePosition root entries 0 0) w := by
  cases entries with
  | nil => exact along_pure trivial
  | cons entry entries =>
    have hvalid := hv entry List.mem_cons_self
    have hplace := place_dropLast root (valid_components hvalid).1
    -- only directories, and none at the place of the file
    let P : Path → Node Contents → Prop := fun p n => n = .dir ∧ p ≠ place root entry.path
    have hparents : ∀ init, init ≠ [] → init <+: (components entry.path).dropLast →
        Fits P (fun _ _ => False) (init.reverse ++ root) .dir := by
      refine fun init _ hi => ⟨⟨rfl, fun he => ?_⟩, fun n hn hk => absurd (by rw [hn.1]) hk⟩
      have hlength := congrArg List.length (he.trans hplace)
      have hle := hi.length_le
      simp only [List.length_append, List.length_reverse, List.length_cons, List.length_dropLast] at hlength hle
      omega
    rw [resumePosition]
    refine along_bind (Q := fun p w' => p = place root entry.path ∧ w = w')
      (along_folderEntryPath hvalid ⟨rfl, rfl⟩) ?_
    rintro _ _ ⟨rfl, rfl⟩
    refine along_bind (along_ensureSafeParentDirectories (P := P) (holding_empty hd hempty) (fun _ _ => trivial)
      hvalid hparents) fun _ w₁ h₁ => ?_
    have hreal : w₁.fs.Real (place root entry.path) := hplace ▸ Real.child h₁.dir _
    have hne : place root entry.path ≠ [] := hplace ▸ List.cons_ne_nil _ _
    have hn : w₁.fs.get (place root entry.path) = none := by
      by_contra hc
      obtain ⟨n, hn⟩ := Option.ne_none_iff_exists'.mp hc
      rw [place_of_ne (valid_components hvalid).1] at hn
      have hbelow := h₁.stays.holding.below _ (by simpa using components_ne_nil entry.path) n hn
      exact hbelow.1.2 (place_of_ne (valid_components hvalid).1).symm
    refine along_bind (Q := fun v w' => v = .error .notFound ∧ w₁ = w')
      (along_attempt_reads trivial (stat_locate_absent hreal hne hn) trivial ⟨rfl, rfl⟩) ?_
    rintro _ _ ⟨rfl, rfl⟩
    exact along_pure trivial

/-- An empty directory is made for the files of a folder, and the first of them is the one to begin with. -/
theorem along_emptyStaging {root : Path} {entries : List FolderEntry} (hreal : w.fs.Real root) (hne : root ≠ [])
    (hgone : ∀ q, root <:+ q → w.fs.get q = none)
    (hv : ∀ e ∈ entries, validateFolderRelativePath e.path = .ok ()) :
    Along (fun _ => True) (fun _ _ => True) (fun _ _ => False) (do
      ensureDirectory root
      resumePosition root entries 0 0) w := by
  have hnone := hgone root List.suffix_rfl
  refine along_bind (Q := fun _ w' => Sets w.fs w'.fs root (some .dir)) (along_ensureDirectory hreal hne trivial
    (.inl hnone) (fun hd => by cases hnone.symm.trans hd) fun _ _ h => ⟨trivial, h⟩) fun _ w₂ h₂ => ?_
  refine along_resumePosition_empty h₂.at ?_ hv
  rw [List.eq_nil_iff_forall_not_mem]
  intro name hname
  refine mem_readDir.mp hname ?_
  rw [h₂.off (List.cons_ne_self _ _)]
  exact hgone _ (List.suffix_cons _ _)

/-- Where no metadata is, a staging directory is dropped and the folder begins. -/
theorem along_beginFolder {size : Nat} (hid : StateId (StoredOffer.of offer).transferId) (hs : L.Sound w.fs)
    (hr : r ∈ L.roots) (hmetadata : w.record r offer.transferId .metadata = none)
    (hmanifest : w.record r offer.transferId .manifest ≠ some .dir)
    (hstaging : w.fs.get (statePath r offer.transferId "folder.part") = none ∨
      w.fs.get (statePath r offer.transferId "folder.part") = some .dir)
    (hv : manifest.validate = .ok size) :
    Along (fun _ => True) (fun _ _ => True) (fun _ _ => False) (do
      keepFolderMetadata (StoredOffer.of offer) manifest (statePaths r offer.transferId)
      ensureDirectory (statePath r offer.transferId "folder.part")
      resumePosition (statePath r offer.transferId "folder.part") manifest.files 0 0) w := by
  refine along_bind (Q := fun _ w' => FolderBegun L r offer.transferId (some (.metadata (StoredOffer.of offer)))
    (some (.manifest manifest)) w w') (along_keepFolderMetadata_new hid hs hr (fun _ _ _ _ _ => trivial) trivial
    hmetadata hmanifest hstaging (fun _ _ => trivial) (fun _ _ => trivial) (fun _ _ => trivial)
    fun _ h => ⟨trivial, h⟩) fun _ w₁ h₁ => ?_
  exact along_emptyStaging (h₁.sound.real_state hr _) (statePath_ne_nil _) (fun q hq => h₁.staging hr hq)
    fun e he => (FolderManifest.validate_ok hv).1.path e (List.mem_of_mem_filter he)

/-- Where no record is, a part is dropped and the transfer begins. -/
theorem along_prepareAny_new (hs : L.Sound w.fs) (hr : s.destinationRoot second ∈ L.roots)
    (hrecords : ∀ n, n ≠ .manifest → w.record (s.destinationRoot second) second.transferId n = none)
    (hmanifest : w.record (s.destinationRoot second) second.transferId .manifest ≠ some .dir)
    (hpart : Plain (w.fs.get (statePath (s.destinationRoot second) second.transferId "part")))
    (hstaging : w.fs.get (statePath (s.destinationRoot second) second.transferId "folder.part") = none ∨
      w.fs.get (statePath (s.destinationRoot second) second.transferId "folder.part") = some .dir)
    (hok : ¬ Refused second manifest) :
    Along (fun _ => True) (fun _ _ => True) (fun _ _ => False) (s.prepareAny second manifest) w := by
  have hv : second.validate = .ok () := not_not.mp fun h => hok (.inl h)
  have hid : StateId (StoredOffer.of second).transferId := stateId_of_parseUuid (second.validate_parseUuid hv)
  have hdone := hrecords .done (by decide)
  have hcommit := hrecords .commit (by decide)
  have hmetadata := hrecords .metadata (by decide)
  rw [prepareAny]
  cases hk : second.kind with
  | file =>
    refine along_bind (Q := fun _ _ => True) (along_prepare (A := fun w' => w = w') (B := fun w' => w = w')
      (C := Begun L (s.destinationRoot second) (StoredOffer.of second) w) hv hk
      (along_replayDone_absent hs hr trivial hdone rfl) ?_ ?_ fun w₁ h₁ => ?_) fun _ _ _ => along_pure trivial
    · rintro _ rfl
      exact along_replayCommit_absent hs hr trivial hcommit rfl
    · rintro _ rfl
      exact along_keepMetadata_new hid hs hr (fun _ _ _ _ _ => trivial) trivial hmetadata hpart
        (fun _ _ => trivial) fun _ h => ⟨trivial, h⟩
    · have hnone : w₁.fs.get (statePath (s.destinationRoot second) second.transferId "part") = none := h₁.part
      refine along_partLength h₁.sound hr trivial (.inl hnone) (fun d hd => ?_) fun _ _ _ =>
        ⟨trivial, Nat.zero_le _, trivial⟩
      rw [hnone] at hd
      cases hd
  | folderV1 =>
    have hm : manifest.validateOffer second = .ok () := not_not.mp fun h => hok (.inr ⟨hk, h⟩)
    obtain ⟨size, hsize⟩ := FolderManifest.validate_of_offer hm
    refine along_bind (Q := fun _ _ => True) (along_prepareFolder (A := fun w' => w = w') (B := fun w' => w = w')
      hv hm (along_replayFolderDone_absent hs hr trivial hdone rfl) ?_ ?_) fun _ _ _ => along_pure trivial
    · rintro _ rfl
      exact along_replayFolderCommit_absent hs hr trivial hcommit rfl
    · rintro _ rfl
      exact (along_beginFolder hid hs hr hmetadata hmanifest hstaging hsize).mono (fun _ h => h)
        (fun _ _ _ => trivial) fun _ _ h => h

/-- The reuse of an id is noticed exactly if the first transfer has left a record that tells its offer, below the
root that the second offer is sorted into. -/
theorem reuse_detected_iff (hroots : ∀ r ∈ s.categoryRoots.allRoots s.inbox, r ∈ L.roots) (hs : L.Sound w.fs)
    (hleft : LeftBy L s first w) (hid : first.transferId = second.transferId)
    (hoffer : StoredOffer.of first ≠ StoredOffer.of second) :
    Detected s first second manifest w ↔ Refused second manifest ∨
      (s.destinationRoot first = s.destinationRoot second ∧
        ∃ n ∈ [RecordName.metadata, .commit, .done],
          w.record (s.destinationRoot first) first.transferId n ≠ none) := by
  have hr : s.destinationRoot second ∈ L.roots := hroots _ (s.categoryRoots.rootFor_mem_allRoots s.inbox _ _)
  constructor
  · intro h
    by_contra hc
    obtain ⟨hok, hnone⟩ := not_or.mp hc
    have hrun : Along (fun _ => True) (fun _ _ => True) (fun _ _ => False) (s.prepareAny second manifest) w := by
      by_cases hroot : s.destinationRoot first = s.destinationRoot second
      · have hrecords : ∀ n ∈ [RecordName.metadata, .commit, .done],
            w.record (s.destinationRoot first) first.transferId n = none := fun n hn => by
          by_contra hrecord
          exact hnone ⟨hroot, n, hn, hrecord⟩
        refine along_prepareAny_new hs hr (fun n hn => ?_) (fun hd => ?_) ?_ ?_ hok
        · rw [← hroot, ← hid]
          exact hrecords n (by cases n <;> simp at hn ⊢)
        · rw [← hroot, ← hid] at hd
          obtain ⟨record, hdir, -⟩ := hleft.records _ _ hd
          cases hdir
        · exact hroot ▸ hid ▸ hleft.part
        · exact hroot ▸ hid ▸ hleft.staging
      · have halone := hleft.alone _ hr (Ne.symm hroot)
        rw [hid] at halone
        refine along_prepareAny_new hs hr (fun n _ => ?_) ?_ (.inl (halone "part" (by simp)))
          (.inl (halone "folder.part" (by simp))) hok
        · exact halone n.extension (by cases n <;> simp [RecordName.extension])
        · rw [World.record, halone RecordName.manifest.extension (by simp [RecordName.extension])]
          simp
    obtain ⟨e, he⟩ := h.1
    have hend := (along_run.mp hrun).run
    rw [he] at hend
    exact hend
  · intro h
    by_cases hok : Refused second manifest
    · exact (hok.rejects w).detected
    · obtain ⟨hroot, hrecord⟩ := h.resolve_left hok
      exact (rejects_of_record hs hr hleft hid hoffer hroot hrecord hok).detected

end Reuse

attribute [local instance] Sample.externals

namespace Sample

/-- The world after the first offer has been told where to begin. -/
def begun : World :=
  ⟨tree.put (statePath ["inbox"] first.transferId "json") (.file (.json (.metadata (StoredOffer.of first)))), 0, []⟩

theorem begun_get (q : Path) : begun.fs.get q = if q = statePath ["inbox"] first.transferId "json" then
    some (.file (.json (.metadata (StoredOffer.of first)))) else tree.get q :=
  get_put (by decide +kernel) q

theorem inbox_mem : (["inbox"] : Path) ∈ layout.roots := List.mem_singleton.mpr rfl

theorem begun_sound : layout.Sound begun.fs :=
  sound.sets begun_get (layout.owned_statePath inbox_mem _ _).inside fun _ h => .inr ⟨_, (Option.some.inj h).symm⟩

/-- An inbox, and another directory for pictures. -/
def sorted : World := ⟨(begun.fs.put ["media"] .dir).put [stateDirectory, "media"] .dir, 0, []⟩

def sorting : TransferStore := ⟨0, ["inbox"], { media := some ["media"] }⟩

end Sample

theorem Sample.begun_left : LeftBy Sample.layout (Sample.store 0) Sample.first Sample.begun := by
  have hroot : (Sample.store 0).destinationRoot Sample.first = ["inbox"] := by decide +kernel
  have hother : ∀ extension : String, extension ≠ "json" →
      Sample.begun.fs.get (statePath ["inbox"] Sample.first.transferId extension) = none := by
    intro extension hne
    rw [Sample.begun_get, if_neg fun he => hne (statePath_inj.mp he)]
    exact Sample.nothing_inside (Sample.layout.owned_statePath Sample.inbox_mem _ _).inside
  constructor
  · intro n v hv
    rw [hroot] at hv
    cases n with
    | metadata =>
      rw [World.record, Sample.begun_get] at hv
      exact ⟨_, (Option.some.inj (hv.symm.trans (if_pos rfl))), rfl⟩
    | manifest => cases (hother "manifest.json" (by decide)).symm.trans hv
    | commit => cases (hother "commit.json" (by decide)).symm.trans hv
    | done => cases (hother "done.json" (by decide)).symm.trans hv
  · exact .inl (hroot ▸ hother "part" (by decide))
  · exact .inl (hroot ▸ hother "folder.part" (by decide))
  · intro r hr hne
    exact absurd (List.mem_singleton.mp hr) (hroot ▸ hne)

theorem reuse_sample :
    Detected (Sample.store 0) Sample.first (Sample.offer Sample.first.transferId [65, 66]) ⟨1, []⟩
      Sample.begun := by
  have hroots : ∀ r ∈ (Sample.store 0).categoryRoots.allRoots (Sample.store 0).inbox, r ∈ Sample.layout.roots := by
    decide +kernel
  have hid : Sample.first.transferId = (Sample.offer Sample.first.transferId [65, 66]).transferId := rfl
  have hoffer : StoredOffer.of Sample.first ≠ StoredOffer.of (Sample.offer Sample.first.transferId [65, 66]) := by
    decide +kernel
  refine (reuse_detected_iff hroots Sample.begun_sound Sample.begun_left hid hoffer).mpr (.inr ⟨?_, .metadata, ?_, ?_⟩)
  · decide +kernel
  · decide
  · decide +kernel

/-- The id comes back with the name of a picture, which is looked for elsewhere. -/
theorem reuse_unnoticed :
    let second : TransferOffer := { Sample.first with filename := "a.jpg" }
    second.validate = .ok () ∧ second.transferId = Sample.first.transferId ∧
      StoredOffer.of second ≠ StoredOffer.of Sample.first ∧
      Sample.sorted.record (Sample.sorting.destinationRoot Sample.first) Sample.first.transferId .metadata =
        some (.file (.json (.metadata (StoredOffer.of Sample.first)))) ∧
      ¬ Detected Sample.sorting Sample.first second ⟨1, []⟩ Sample.sorted := by
  refine ⟨by decide +kernel, rfl, by decide +kernel, by decide +kernel, fun h => ?_⟩
  obtain ⟨e, he⟩ := h.1
  have hok : ((Sample.sorting.prepareAny { Sample.first with filename := "a.jpg" } ⟨1, []⟩).run.run
      Sample.sorted).1 = .ok () := by decide +kernel
  cases hok.symm.trans he

end InkHole
