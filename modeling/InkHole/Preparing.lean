import InkHole.Staging

/-! What each part of a preparation does to the state of a transfer, when no record of
the transfer is there and when one is. -/

set_option linter.unusedSectionVars false

namespace InkHole

open InkHole.CoreM Fallible FileTree TransferStore

variable [Externals] {L : Layout} {w : World} {r : Path} {id : String} {s : TransferStore}
  {I : World → Prop} {F : CoreError → World → Prop} {expected : StoredOffer} {manifest : FolderManifest}

/-- The record that is kept under this name. -/
def World.record (w : World) (r : Path) (id : String) (n : RecordName) : Option (Node Contents) :=
  w.fs.get (statePath r id n.extension)

/-! Records that are not there. -/

theorem along_readAbsent {α : Type} {decode : Record → Option α} {n : RecordName} {Q : Option α → World → Prop}
    (hs : L.Sound w.fs) (hr : r ∈ L.roots) (hi : I w) (hn : w.record r id n = none) (hq : Q none w) :
    Along I Q F (readJsonOptional decode (statePath r id n.extension)) w :=
  along_readJsonOptional hi (hs.real_state hr _) (.inl ⟨hn, hq⟩)

theorem along_readRecord {α : Type} {decode : Record → Option α} {n : RecordName} {record : Record} {v : α}
    {Q : Option α → World → Prop} (hi : I w) (hn : w.record r id n = some (.file (.json record)))
    (hv : decode record = some v) (hq : Q (some v) w) :
    Along I Q F (readJsonOptional decode (statePath r id n.extension)) w :=
  along_readJsonOptional hi (Real.of_get hn) (.inr ⟨record, v, hn, hv, hq⟩)

theorem along_replayDone_absent {Q : Option CompletedTransfer → World → Prop} (hs : L.Sound w.fs)
    (hr : r ∈ L.roots) (hi : I w) (hn : w.record r id .done = none) (hq : Q none w) :
    Along I Q F (s.replayDone expected (statePaths r id)) w := by
  rw [replayDone]
  refine along_bind (Q := fun v w' => v = none ∧ w = w')
    (along_readAbsent (n := .done) hs hr hi hn ⟨rfl, rfl⟩) ?_
  rintro _ _ ⟨rfl, rfl⟩
  exact along_pure hq

theorem along_replayCommit_absent {Q : Option CompletedTransfer → World → Prop} (hs : L.Sound w.fs)
    (hr : r ∈ L.roots) (hi : I w) (hn : w.record r id .commit = none) (hq : Q none w) :
    Along I Q F (s.replayCommit expected (statePaths r id)) w := by
  rw [replayCommit]
  refine along_bind (Q := fun v w' => v = none ∧ w = w')
    (along_readAbsent (n := .commit) hs hr hi hn ⟨rfl, rfl⟩) ?_
  rintro _ _ ⟨rfl, rfl⟩
  exact along_pure hq

theorem along_replayFolderDone_absent {Q : Option CompletedTransfer → World → Prop} (hs : L.Sound w.fs)
    (hr : r ∈ L.roots) (hi : I w) (hn : w.record r id .done = none) (hq : Q none w) :
    Along I Q F (s.replayFolderDone expected manifest (statePaths r id)) w := by
  rw [replayFolderDone]
  refine along_bind (Q := fun v w' => v = none ∧ w = w')
    (along_readAbsent (n := .done) hs hr hi hn ⟨rfl, rfl⟩) ?_
  rintro _ _ ⟨rfl, rfl⟩
  exact along_pure hq

theorem along_replayFolderCommit_absent {Q : Option CompletedTransfer → World → Prop} (hs : L.Sound w.fs)
    (hr : r ∈ L.roots) (hi : I w) (hn : w.record r id .commit = none) (hq : Q none w) :
    Along I Q F (s.replayFolderCommit expected manifest (statePaths r id)) w := by
  rw [replayFolderCommit]
  refine along_bind (Q := fun v w' => v = none ∧ w = w')
    (along_readAbsent (n := .commit) hs hr hi hn ⟨rfl, rfl⟩) ?_
  rintro _ _ ⟨rfl, rfl⟩
  exact along_pure hq

/-! The part. -/

/-- What may be at the path of a part or of a document. -/
def Plain (v : Option (Node Contents)) : Prop := v = none ∨ ∃ d, v = some (.file d)

theorem Plain.not_dir {v : Option (Node Contents)} (h : Plain v) : v ≠ some .dir := by
  rcases h with rfl | ⟨d, rfl⟩ <;> simp

theorem along_removeState {extension : String} {Q : Unit → World → Prop} (hs : L.Sound w.fs) (hr : r ∈ L.roots)
    (hp : w.fs.get (statePath r id extension) ≠ some .dir)
    (hq : ∀ w', Writes L id w w' (statePath r id extension) none → I w' ∧ Q () w') :
    Along I Q F (removeIfExists (statePath r id extension)) w :=
  along_removeIfExists (hs.real_state hr _) (statePath_ne_nil _) hp fun w' h =>
    hq w' (hs.writes h (L.owned_statePath hr id extension).inside fun _ hn => by cases hn)

theorem along_discardPart {Q : Unit → World → Prop} (hs : L.Sound w.fs) (hr : r ∈ L.roots)
    (hp : Plain (w.fs.get (statePath r id "part"))) (hi : I w)
    (hq : ∀ w', Writes L id w w' (statePath r id "part") none → I w' ∧ Q () w') :
    Along I Q F (discardPart (statePaths r id)) w := by
  have hreal := hs.real_state hr (stateName id "part")
  rw [discardPart]
  rcases hp with hn | ⟨d, hn⟩
  · refine along_bind (Q := fun there w' => there = false ∧ w = w') (along_fs_reads trivial
      (exists?_absent hreal (statePath_ne_nil _) hn) hi ⟨rfl, rfl⟩) ?_
    rintro _ _ ⟨rfl, rfl⟩
    have hsame : Sets w.fs w.fs (statePath r id "part") none := fun q => by
      split
      · next h => rw [h, hn]
      · rfl
    exact along_pure (hq w (hs.writes hsame (L.owned_statePath hr id _).inside fun _ h => by cases h)).2
  · refine along_bind (Q := fun there w' => there = true ∧ w = w') (along_fs_reads trivial
      (exists?_of_get hn rfl) hi ⟨rfl, rfl⟩) ?_
    rintro _ _ ⟨rfl, rfl⟩
    exact along_removeState hs hr (by simp [hn]) hq

/-- What a preparation leaves that begins a transfer. -/
structure Begun (L : Layout) (r : Path) (expected : StoredOffer) (w w' : World) : Prop where
  sound : L.Sound w'.fs
  get : ∀ q, ¬ Scratch L expected.transferId q → w'.fs.get q =
    if q = statePath r expected.transferId "json" then some (.file (.json (.metadata expected)))
    else if q = statePath r expected.transferId "part" then none
    else w.fs.get q

theorem Begun.part {w' : World} (h : Begun L r expected w w') :
    w'.fs.get (statePath r expected.transferId "part") = none := by
  have hne : statePath r expected.transferId "part" ≠ statePath r expected.transferId "json" := fun he =>
    absurd (statePath_inj.mp he) (by decide)
  rw [h.get _ (not_scratch (by simp)), if_neg hne, if_pos rfl]

theorem along_keepMetadata_new {Q : Unit → World → Prop} (hid : StateId expected.transferId)
    (hs : L.Sound w.fs) (hr : r ∈ L.roots) (hb : Blind L expected.transferId I) (hi : I w)
    (hn : w.record r expected.transferId .metadata = none)
    (hp : Plain (w.fs.get (statePath r expected.transferId "part")))
    (hI : ∀ w', Writes L expected.transferId w w' (statePath r expected.transferId "part") none → I w')
    (hq : ∀ w', Begun L r expected w w' → I w' ∧ Q () w') :
    Along I Q F (keepMetadata expected (statePaths r expected.transferId)) w := by
  rw [keepMetadata]
  refine along_bind (Q := fun v w' => v = none ∧ w = w')
    (along_readAbsent (n := .metadata) hs hr hi hn ⟨rfl, rfl⟩) ?_
  rintro _ _ ⟨rfl, rfl⟩
  refine along_bind (Q := fun _ w' => Writes L expected.transferId w w'
    (statePath r expected.transferId "part") none)
    (along_discardPart hs hr hp hi fun w' h => ⟨hI w' h, h⟩) fun _ w₁ h₁ => ?_
  have hne : statePath r expected.transferId RecordName.metadata.extension ≠
      statePath r expected.transferId "part" := fun he => absurd (statePath_inj.mp he) (by decide)
  have hmeta : w₁.fs.get (statePath r expected.transferId RecordName.metadata.extension) ≠ some .dir := by
    rw [h₁.get _ (not_scratch_record .metadata), if_neg hne]
    exact fun h => by cases hn.symm.trans h
  refine along_atomicWriteJson (n := .metadata) hid hr h₁.sound hb (hI w₁ h₁) hmeta fun w₂ h₂ => ?_
  refine hq w₂ ⟨h₂.sound, fun q hq => ?_⟩
  rw [h₂.get q hq, h₁.get q hq]
  rfl

theorem along_partLength {Q : Nat → World → Prop} (hs : L.Sound w.fs) (hr : r ∈ L.roots) (hi : I w)
    (hp : Plain (w.fs.get (statePath r id "part")))
    (hthere : ∀ d, w.fs.get (statePath r id "part") = some (.file d) → Q (FileData.size d) w)
    (hnew : w.fs.get (statePath r id "part") = none →
      ∀ w', Writes L id w w' (statePath r id "part") (some (.file FileData.empty)) → I w' ∧ Q 0 w') :
    Along I Q F (partLength (statePaths r id)) w := by
  have hreal : w.fs.Real (statePath r id "part") := hs.real_state hr _
  have hne : statePath r id "part" ≠ [] := statePath_ne_nil _
  rw [partLength]
  rcases hp with hn | ⟨d, hn⟩
  · refine along_bind (Q := fun v w' => v = .error .notFound ∧ w = w') (along_attempt_reads trivial
      (stat_resolve_absent hreal hne hn) hi ⟨rfl, rfl⟩) ?_
    rintro _ _ ⟨rfl, rfl⟩
    obtain ⟨t, ht, hset⟩ := openAt_new hreal hne hn (o := { create := true, truncate := true }) (.inr rfl)
    refine along_bind (Q := fun _ w' => w'.fs = t) (along_fs_done ht fun w' hw' => ⟨(hnew hn w' ?_).1, hw'⟩) ?_
    · exact hs.writes (hw' ▸ hset) (L.owned_statePath hr id _).inside fun n h =>
        .inr ⟨_, (Option.some.inj h).symm⟩
    rintro _ w₁ rfl
    have hwrites : Writes L id w w₁ (statePath r id "part") (some (.file FileData.empty)) :=
      hs.writes hset (L.owned_statePath hr id _).inside fun n h => .inr ⟨_, (Option.some.inj h).symm⟩
    refine along_bind (Q := fun _ w' => w₁ = w') (along_sync hset.at (hnew hn w₁ hwrites).1 rfl) ?_
    rintro _ _ rfl
    exact along_pure (hnew hn w₁ hwrites).2
  · refine along_bind (Q := fun v w' => v = .ok (Node.file d).stat ∧ w = w') (along_attempt_reads trivial
      (stat_resolve hn rfl) hi ⟨rfl, rfl⟩) ?_
    rintro _ _ ⟨rfl, rfl⟩
    exact along_pure (hthere d hn)

/-! Folders. -/

/-- What the preparation of a folder leaves that begins a transfer, and has written these records. -/
structure FolderBegun (L : Layout) (r : Path) (id : String) (metadata manifest : Option Record) (w w' : World) :
    Prop where
  sound : L.Sound w'.fs
  get : ∀ q, ¬ Scratch L id q → w'.fs.get q =
    if q = statePath r id "json" then metadata.map fun v => .file (.json v)
    else if q = statePath r id "manifest.json" then manifest.map fun v => .file (.json v)
    else if statePath r id "folder.part" <:+ q then none
    else w.fs.get q

theorem FolderBegun.staging {metadata manifest : Option Record} {w' : World} {q : Path}
    (h : FolderBegun L r id metadata manifest w w') (hr : r ∈ L.roots) (hq : statePath r id "folder.part" <:+ q) :
    w'.fs.get q = none := by
  have hne : ∀ extension : String, extension ≠ "folder.part" → q ≠ statePath r id extension :=
    fun extension hne he => not_suffix_statePath hne.symm (he ▸ hq)
  rw [h.get q (not_scratch_above hr (by simp) hq), if_neg (hne "json" (by decide)),
    if_neg (hne "manifest.json" (by decide)), if_pos hq]

theorem FolderBegun.record {metadata metadata' manifest manifest' : Option Record} {w₁ w₂ : World} {n : RecordName}
    {v : Record} (h : FolderBegun L r id metadata manifest w w₁)
    (h' : Writes L id w₁ w₂ (statePath r id n.extension) (some (.file (.json v))))
    (hn : n = .metadata ∧ metadata' = some v ∧ manifest' = manifest ∨
      n = .manifest ∧ metadata' = metadata ∧ manifest' = some v) :
    FolderBegun L r id metadata' manifest' w w₂ := by
  refine ⟨h'.sound, fun q hq => ?_⟩
  rw [h'.get q hq, h.get q hq]
  rcases hn with ⟨rfl, rfl, rfl⟩ | ⟨rfl, rfl, rfl⟩
  · simp only [RecordName.extension]
    split <;> rfl
  · simp only [RecordName.extension]
    by_cases hj : q = statePath r id "json"
    · have hne : q ≠ statePath r id "manifest.json" := fun he =>
        absurd (statePath_inj.mp (hj.symm.trans he)) (by decide)
      simp only [if_neg hne, if_pos hj]
    · rw [if_neg hj, if_neg hj]
      split <;> rfl

theorem along_keepFolderMetadata_new {Q : Unit → World → Prop} (hid : StateId expected.transferId)
    (hs : L.Sound w.fs) (hr : r ∈ L.roots) (hb : Blind L expected.transferId I) (hi : I w)
    (hn : w.record r expected.transferId .metadata = none)
    (hm : w.record r expected.transferId .manifest ≠ some .dir)
    (hp : w.fs.get (statePath r expected.transferId "folder.part") = none ∨
      w.fs.get (statePath r expected.transferId "folder.part") = some .dir)
    (hI : ∀ w', Shrinks (statePath r expected.transferId "folder.part") w w' → I w')
    (hnone : ∀ w', FolderBegun L r expected.transferId none none w w' → I w')
    (hmetadata : ∀ w', FolderBegun L r expected.transferId (some (.metadata expected)) none w w' → I w')
    (hq : ∀ w', FolderBegun L r expected.transferId (some (.metadata expected)) (some (.manifest manifest)) w w' →
      I w' ∧ Q () w') :
    Along I Q F (keepFolderMetadata expected manifest (statePaths r expected.transferId)) w := by
  have hreal := hs.real_state hr (stateName expected.transferId "folder.part")
  have hinside := (L.owned_statePath hr expected.transferId "folder.part").inside
  rw [keepFolderMetadata]
  refine along_bind (Q := fun v w' => v = none ∧ w = w')
    (along_readAbsent (n := .metadata) hs hr hi hn ⟨rfl, rfl⟩) ?_
  rintro _ _ ⟨rfl, rfl⟩
  refine along_bind (Q := fun _ w' => Cleared (statePath r expected.transferId "folder.part") w w')
    (along_removeDirAllIfExists (statePath_ne_nil _) hreal hp hI fun _ h => h) fun _ w₁ h₁ => ?_
  have hsound₁ := h₁.shrinks.sound hs hinside
  have hmanifest : w₁.fs.get (statePath r expected.transferId "manifest.json") ≠ some .dir := by
    rw [h₁.shrinks.off _ (not_suffix_statePath (by decide))]
    exact hm
  refine along_bind (Q := fun _ w' => FolderBegun L r expected.transferId none none w w')
    (along_removeState hsound₁ hr hmanifest fun w₂ h₂ => ?_) fun _ w₂ h₂ => ?_
  · have hbegun : FolderBegun L r expected.transferId none none w w₂ := by
      refine ⟨h₂.sound, fun q hq => ?_⟩
      rw [h₂.get q hq, h₁ q]
      by_cases hj : q = statePath r expected.transferId "json"
      · subst hj
        rw [if_neg fun he => absurd (statePath_inj.mp he) (by decide), if_pos rfl,
          if_neg (not_suffix_statePath (by decide))]
        exact hn
      · rw [if_neg hj]
        rfl
    exact ⟨hnone w₂ hbegun, hbegun⟩
  · have hjson : w₂.fs.get (statePath r expected.transferId RecordName.metadata.extension) ≠ some .dir := by
      rw [h₂.get _ (not_scratch_record .metadata)]
      simp [RecordName.extension]
    refine along_bind (Q := fun _ w' => FolderBegun L r expected.transferId (some (.metadata expected)) none w w')
      (along_atomicWriteJson (n := .metadata) hid hr h₂.sound hb (hnone w₂ h₂) hjson fun w₃ h₃ => ?_)
      fun _ w₃ h₃ => ?_
    · have hbegun := h₂.record h₃ (.inl ⟨rfl, rfl, rfl⟩)
      exact ⟨hmetadata w₃ hbegun, hbegun⟩
    · have hdocument : w₃.fs.get (statePath r expected.transferId RecordName.manifest.extension) ≠ some .dir := by
        rw [h₃.get _ (not_scratch_record .manifest)]
        simp [RecordName.extension]
      exact along_atomicWriteJson (n := .manifest) hid hr h₃.sound hb (hmetadata w₃ h₃) hdocument fun w₄ h₄ =>
        hq w₄ (h₃.record h₄ (.inr ⟨rfl, rfl, rfl⟩))

theorem along_ensureDirectory {p : Path} {Q : Unit → World → Prop} (hreal : w.fs.Real p) (hp : p ≠ [])
    (hi : I w) (hd : w.fs.get p = none ∨ w.fs.get p = some .dir) (hthere : w.fs.get p = some .dir → Q () w)
    (hnew : w.fs.get p = none → ∀ w', Sets w.fs w'.fs p (some .dir) → I w' ∧ Q () w') :
    Along I Q F (ensureDirectory p) w := by
  rw [ensureDirectory]
  rcases hd with hn | hn
  · refine along_bind (Q := fun v w' => v = .error .notFound ∧ w = w') (along_attempt_reads trivial
      (stat_locate_absent hreal hp hn) hi ⟨rfl, rfl⟩) ?_
    rintro _ _ ⟨rfl, rfl⟩
    obtain ⟨t, ht, hs⟩ := makeDir_new hreal hp hn
    refine along_bind (Q := fun v w' => v = .ok () ∧ Q () w') (along_attempt_done ht fun w' hw' => ?_) ?_
    · have hq := hnew hn w' (hw' ▸ hs)
      exact ⟨hq.1, rfl, hq.2⟩
    · rintro _ w' ⟨rfl, h⟩
      exact along_pure h
  · refine along_bind (Q := fun v w' => v = .ok (Node.dir : Node Contents).stat ∧ w = w')
      (along_attempt_reads trivial (stat_locate hn) hi ⟨rfl, rfl⟩) ?_
    rintro _ _ ⟨rfl, rfl⟩
    exact along_throwIf (fun _ => hthere hn) fun h => absurd rfl h

/-- The file of an entry is there as the entry tells. -/
def FolderEntry.Intact (e : FolderEntry) (root : Path) (w : World) : Prop :=
  ∃ d, w.fs.get (place root e.path) = some (.file d) ∧ FileData.size d = e.size ∧ d.blake3Hex = e.blake3

/-- The file to go on with has the length the sender is told. -/
def Awaited (root : Path) (w : World) (offset : Nat) : List FolderEntry → Prop
  | [] => offset = 0
  | e :: _ => (w.fs.get (place root e.path) = none ∧ offset = 0) ∨
      ∃ d, w.fs.get (place root e.path) = some (.file d) ∧ FileData.size d = offset ∧ offset < e.size

/-- The position is that of the first file that is not there as listed. -/
def Resumes (root : Path) (entries : List FolderEntry) (fileIndex completed : Nat)
    (prepared : PreparedFolderTransfer) (w : World) : Prop :=
  prepared.stagingPath = root ∧ ∃ before after, entries = before ++ after ∧
    prepared.fileIndex = fileIndex + before.length ∧
    prepared.completed = completed + (before.map FolderEntry.size).sum ∧
    (∀ e ∈ before, e.Intact root w) ∧ Awaited root w prepared.offset after

/-- Files of other entries are as they were. -/
def KeepsOff (root : Path) (entries : List FolderEntry) (w w' : World) : Prop :=
  ∀ q n, (∀ e ∈ entries, q ≠ place root e.path) → w.fs.get q = some n → w'.fs.get q = some n

/-- Nothing that was there is gone but files of the entries that are not whole. -/
def KeepsWhole (root : Path) (entries : List FolderEntry) (w w' : World) : Prop :=
  ∀ q n, (∀ e ∈ entries, q = place root e.path →
    ∃ d : Contents, n = .file d ∧ FileData.size d = e.size ∧ d.blake3Hex = e.blake3) →
    w.fs.get q = some n → w'.fs.get q = some n

theorem KeepsWhole.off {root : Path} {entries : List FolderEntry} {w w' : World} (h : KeepsWhole root entries w w') :
    KeepsOff root entries w w' := fun q n hq hn => h q n (fun e he hp => absurd hp (hq e he)) hn

theorem KeepsWhole.intact {root : Path} {entries : List FolderEntry} {w w' : World} {e : FolderEntry}
    (h : KeepsWhole root entries w w') (hsame : ∀ f ∈ entries, e.path = f.path → f = e) (he : e.Intact root w) :
    e.Intact root w' := by
  obtain ⟨d, hd, hsize, hdigest⟩ := he
  refine ⟨d, h _ _ (fun f hf hp => ?_) hd, hsize, hdigest⟩
  obtain rfl := hsame f hf (place_inj hp)
  exact ⟨d, rfl, hsize, hdigest⟩

theorem Resumes.now {root : Path} {entries : List FolderEntry} {fileIndex completed offset : Nat}
    (h : Awaited root w offset entries) :
    Resumes root entries fileIndex completed ⟨root, fileIndex, offset, completed⟩ w :=
  ⟨rfl, [], entries, rfl, rfl, rfl, by simp, h⟩

theorem Resumes.cons {root : Path} {entry : FolderEntry} {entries : List FolderEntry} {fileIndex completed : Nat}
    {prepared : PreparedFolderTransfer} (he : entry.Intact root w)
    (h : Resumes root entries (fileIndex + 1) (completed + entry.size) prepared w) :
    Resumes root (entry :: entries) fileIndex completed prepared w := by
  obtain ⟨hroot, before, after, rfl, hindex, hcompleted, hintact, hawaited⟩ := h
  refine ⟨hroot, entry :: before, after, rfl, ?_, ?_, List.forall_mem_cons.mpr ⟨he, hintact⟩, hawaited⟩
  · rw [hindex, List.length_cons]
    omega
  · rw [hcompleted, List.map_cons, List.sum_cons]
    omega

theorem along_blake3FileHex {p : Path} {d : Contents} {Q : String → World → Prop} (hi : I w)
    (hn : w.fs.get p = some (.file d)) (hq : Q d.blake3Hex w) : Along I Q F (blake3FileHex p) w := by
  have hread : ((FsOp.read p : FsOp Contents Contents).exec w.fs).1 = .ok d := readFile_file hn
  rw [blake3FileHex]
  refine along_bind (Q := fun c w' => c = d ∧ w = w') (along_fs_reads trivial hread hi ⟨rfl, rfl⟩) ?_
  rintro _ _ ⟨rfl, rfl⟩
  exact along_pure hq

/-- The walk over the files of a manifest finds where to go on, if the staging tree holds nothing
but files of at most the listed sizes and directories above them. -/
theorem along_resumePosition_whole {root : Path} {P : Path → Node Contents → Prop} {entries : List FolderEntry}
    {fileIndex completed : Nat} (h : Holding P root w.fs) (hI : ∀ w', Stays P root w w' → I w')
    (hvalid : ∀ e ∈ entries, validateFolderRelativePath e.path = .ok ())
    (hparents : ∀ e ∈ entries, ∀ init, init ≠ [] → init <+: (components e.path).dropLast →
      Fits P F (init.reverse ++ root) .dir)
    (hkind : ∀ e ∈ entries, ∀ n, P (place root e.path) n → n.stat.kind ≠ .file → ∀ err v, F err v)
    (hfile : ∀ e ∈ entries, ∀ d, P (place root e.path) (.file d) → FileData.size d ≤ e.size)
    (hnodup : (entries.map FolderEntry.path).Nodup)
    (hsum : completed + (entries.map FolderEntry.size).sum ≤ u64Max) :
    Along I (fun prepared w' => Stays P root w w' ∧ KeepsWhole root entries w w' ∧
      Resumes root entries fileIndex completed prepared w') F
      (resumePosition root entries fileIndex completed) w := by
  induction entries generalizing w fileIndex completed with
  | nil => exact along_pure ⟨Stays.refl h, fun _ _ _ hq => hq, Resumes.now rfl⟩
  | cons entry entries ih =>
    have hpath := hvalid entry List.mem_cons_self
    have hcomponents := valid_components hpath
    have hbelow : ∀ w', Stays P root w w' → ∀ n, w'.fs.get (place root entry.path) = some n →
        P (place root entry.path) n ∧ (n = .dir ∨ ∃ d, n = .file d) := by
      intro w' h' n hn
      rw [place_of_ne hcomponents.1] at hn ⊢
      exact h'.holding.below _ (by simpa using components_ne_nil entry.path) n hn
    rw [resumePosition]
    refine along_bind (Q := fun p w' => p = place root entry.path ∧ w = w')
      (along_folderEntryPath hpath ⟨rfl, rfl⟩) ?_
    rintro _ _ ⟨rfl, rfl⟩
    refine along_bind (along_ensureSafeParentDirectories h hI hpath (hparents entry List.mem_cons_self)) fun _ w₁ h₁ => ?_
    have hi₁ := hI w₁ h₁.stays
    have hkept₁ : KeepsWhole root (entry :: entries) w w₁ := fun q n _ hq => h₁.kept q n hq
    cases hn : w₁.fs.get (place root entry.path) with
    | none =>
      have hreal : w₁.fs.Real (place root entry.path) := by
        rw [place_dropLast root hcomponents.1]
        exact Real.child h₁.dir _
      have hne : place root entry.path ≠ [] := by
        rw [place_dropLast root hcomponents.1]
        exact List.cons_ne_nil _ _
      refine along_bind (Q := fun v w' => v = .error .notFound ∧ w₁ = w')
        (along_attempt_reads trivial (stat_locate_absent hreal hne hn) hi₁ ⟨rfl, rfl⟩) ?_
      rintro _ _ ⟨rfl, rfl⟩
      exact along_pure ⟨h₁.stays, hkept₁, Resumes.now (.inl ⟨hn, rfl⟩)⟩
    | some n =>
      obtain ⟨hn', hk⟩ := hbelow w₁ h₁.stays n hn
      refine along_bind (Q := fun v w' => v = .ok n.stat ∧ w₁ = w')
        (along_attempt_reads trivial (stat_locate hn) hi₁ ⟨rfl, rfl⟩) ?_
      rintro _ _ ⟨rfl, rfl⟩
      refine along_bind (Q := fun _ w' => w₁ = w' ∧ n.stat.kind = .file) (along_throwIf
        (fun hfile => ⟨rfl, not_not.mp hfile⟩) fun hfile => hkind entry List.mem_cons_self n hn' hfile _ w₁) ?_
      rintro _ _ ⟨rfl, hregular⟩
      obtain ⟨d, rfl⟩ : ∃ d, n = .file d := by
        rcases hk with rfl | hd
        · cases hregular
        · exact hd
      have hle := hfile entry List.mem_cons_self d hn'
      refine along_bind (Q := fun _ w' => w₁ = w') (along_throwIf (fun _ => rfl)
        fun hlt => absurd hle (Nat.not_le.mpr hlt)) ?_
      rintro _ _ rfl
      by_cases hlt : (Node.file d).stat.len < entry.size
      · rw [if_pos hlt]
        exact along_pure ⟨h₁.stays, hkept₁, Resumes.now (.inr ⟨d, hn, rfl, hlt⟩)⟩
      · rw [if_neg hlt]
        have hsize : FileData.size d = entry.size := Nat.le_antisymm hle (Nat.not_lt.mp hlt)
        refine along_bind (Q := fun v w' => v = d.blake3Hex ∧ w₁ = w') (along_blake3FileHex hi₁ hn ⟨rfl, rfl⟩) ?_
        rintro _ _ ⟨rfl, rfl⟩
        by_cases hdigest : d.blake3Hex = entry.blake3
        · have hintact : entry.Intact root w₁ := ⟨d, hn, hsize, hdigest⟩
          rw [List.map_cons, List.sum_cons] at hsum
          have hadd : checkedAdd completed entry.size = some (completed + entry.size) :=
            if_pos (by omega)
          rw [if_neg (not_not.mpr hdigest), hadd]
          refine (ih h₁.stays.holding (fun w' h' => hI w' (h₁.stays.trans h'))
            (fun e he => hvalid e (List.mem_cons_of_mem _ he)) (fun e he => hparents e (List.mem_cons_of_mem _ he))
            (fun e he => hkind e (List.mem_cons_of_mem _ he))
            (fun e he => hfile e (List.mem_cons_of_mem _ he)) (List.nodup_cons.mp hnodup).2 (by omega)).mono
            (fun _ h => h) (fun prepared w₂ h₂ => ?_) fun _ _ h => h
          obtain ⟨hstays, hkept, hresumes⟩ := h₂
          refine ⟨h₁.stays.trans hstays, fun q m hq hm => ?_, ?_⟩
          · exact hkept q m (fun e he => hq e (List.mem_cons_of_mem _ he)) (h₁.kept q m hm)
          · refine hresumes.cons ⟨d, hkept _ _ (fun e he hp => ?_) hn, hsize, hdigest⟩
            have hmem := List.mem_map_of_mem (f := FolderEntry.path) he
            exact absurd (place_inj hp ▸ hmem) (List.nodup_cons.mp hnodup).1
        · rw [if_pos hdigest]
          have hplace : place root entry.path = (components entry.path).reverse ++ root := place_of_ne hcomponents.1
          have hne : (components entry.path).reverse ≠ [] := by simpa using components_ne_nil entry.path
          have hnil : place root entry.path ≠ [] := by
            rw [place_dropLast root hcomponents.1]
            exact List.cons_ne_nil _ _
          -- the file is complete and wrong: it goes, and is asked for again
          refine along_bind (Q := fun _ w' => Sets w₁.fs w'.fs (place root entry.path) none)
            (along_removeIfExists (Real.of_get hn) hnil (by rw [hn]; simp) fun w₂ hs₂ =>
              ⟨hI w₂ (h₁.stays.trans (h₁.stays.holding.stays_unset (hplace ▸ hs₂) hne)), hs₂⟩) fun _ w₂ hs₂ => ?_
          refine along_pure ⟨h₁.stays.trans (h₁.stays.holding.stays_unset (hplace ▸ hs₂) hne), fun q m hq hm => ?_,
            Resumes.now (.inl ⟨hs₂.at, rfl⟩)⟩
          have hne₂ : q ≠ place root entry.path := by
            rintro rfl
            obtain ⟨c, rfl, -, hc⟩ := hq entry List.mem_cons_self rfl
            obtain rfl := Node.file.inj (Option.some.inj ((h₁.kept _ _ hm).symm.trans hn))
            exact hdigest hc
          rw [hs₂.off hne₂]
          exact h₁.kept q m hm

theorem along_resumePosition {root : Path} {P : Path → Node Contents → Prop} {entries : List FolderEntry}
    {fileIndex completed : Nat} (h : Holding P root w.fs) (hI : ∀ w', Stays P root w w' → I w')
    (hs : ∀ e ∈ entries, Suits P F root e.path (.file FileData.empty))
    (hfile : ∀ e ∈ entries, ∀ d, P (place root e.path) (.file d) → FileData.size d ≤ e.size)
    (hnodup : (entries.map FolderEntry.path).Nodup)
    (hsum : completed + (entries.map FolderEntry.size).sum ≤ u64Max) :
    Along I (fun prepared w' => Stays P root w w' ∧ KeepsOff root entries w w' ∧
      Resumes root entries fileIndex completed prepared w') F
      (resumePosition root entries fileIndex completed) w := by
  refine (along_resumePosition_whole h hI (fun e he => (hs e he).valid) (fun e he => (hs e he).parents)
    (fun e he n hn hkind => (hs e he).node.2 n hn hkind) hfile hnodup hsum).mono (fun _ hi => hi) ?_ fun _ _ hf => hf
  rintro prepared w' ⟨hstays, hkept, hresumes⟩
  exact ⟨hstays, hkept.off, hresumes⟩

/-! The order of a preparation. -/

/-- A transfer that was completed before is answered, any other goes on. -/
def Answers (Q : CompletedTransfer → World → Prop) (A : World → Prop) : Option CompletedTransfer → World → Prop
  | some completed => Q completed
  | none => A

variable {offer : TransferOffer} {A B C : World → Prop}

theorem along_prepare {Q : PrepareOutcome → World → Prop} (hv : offer.validate = .ok ()) (hk : offer.kind = .file)
    (hdone : Along I (Answers (fun c => Q (.complete c)) A) F (s.replayDone (StoredOffer.of offer)
      (statePaths (s.destinationRoot offer) offer.transferId)) w)
    (hcommit : ∀ w, A w → Along I (Answers (fun c => Q (.complete c)) B) F (s.replayCommit (StoredOffer.of offer)
      (statePaths (s.destinationRoot offer) offer.transferId)) w)
    (hmetadata : ∀ w, B w → Along I (fun _ => C) F (keepMetadata (StoredOffer.of offer)
      (statePaths (s.destinationRoot offer) offer.transferId)) w)
    (hpart : ∀ w, C w → Along I (fun offset w' => offset ≤ offer.size ∧
      Q (.resume ⟨statePath (s.destinationRoot offer) offer.transferId "part", offset⟩) w') F
      (partLength (statePaths (s.destinationRoot offer) offer.transferId)) w) :
    Along I Q F (s.prepare offer) w := by
  have hid := stateId_of_parseUuid (offer.validate_parseUuid hv)
  rw [prepare]
  refine along_bind (Q := fun _ w' => w = w') (along_lift (fun _ _ => rfl) fun e he => ?_) ?_
  · rw [hv] at he
    cases he
  rintro _ _ rfl
  refine along_bind (Q := fun _ w' => w = w') (along_throwIf (fun _ => rfl) fun h => absurd hk h) ?_
  rintro _ _ rfl
  rw [s.paths_eq hid]
  refine along_bind hdone fun done w₁ h₁ => ?_
  cases done with
  | some completed => exact along_pure h₁
  | none =>
    refine along_bind (hcommit w₁ h₁) fun commit w₂ h₂ => ?_
    cases commit with
    | some completed => exact along_pure h₂
    | none =>
      refine along_bind (hmetadata w₂ h₂) fun _ w₃ h₃ => ?_
      refine along_bind (hpart w₃ h₃) fun offset w₄ h₄ => ?_
      refine along_bind (Q := fun _ w' => w₄ = w') (along_throwIf (fun _ => rfl)
        fun h => absurd h₄.1 (Nat.not_le.mpr h)) ?_
      rintro _ _ rfl
      exact along_pure h₄.2

theorem along_prepareFolder {Q : PrepareFolderOutcome → World → Prop} (hv : offer.validate = .ok ())
    (hm : manifest.validateOffer offer = .ok ())
    (hdone : Along I (Answers (fun c => Q (.complete c)) A) F (s.replayFolderDone (StoredOffer.of offer) manifest
      (statePaths (s.destinationRoot offer) offer.transferId)) w)
    (hcommit : ∀ w, A w → Along I (Answers (fun c => Q (.complete c)) B) F (s.replayFolderCommit
      (StoredOffer.of offer) manifest (statePaths (s.destinationRoot offer) offer.transferId)) w)
    (hrest : ∀ w, B w → Along I (fun prepared => Q (.resume prepared)) F (do
      keepFolderMetadata (StoredOffer.of offer) manifest (statePaths (s.destinationRoot offer) offer.transferId)
      ensureDirectory (statePath (s.destinationRoot offer) offer.transferId "folder.part")
      resumePosition (statePath (s.destinationRoot offer) offer.transferId "folder.part") manifest.files 0 0) w) :
    Along I Q F (s.prepareFolder offer manifest) w := by
  have hid := stateId_of_parseUuid (offer.validate_parseUuid hv)
  rw [prepareFolder]
  refine along_bind (Q := fun _ w' => w = w') (along_lift (fun _ _ => rfl) fun e he => ?_) ?_
  · rw [hv] at he
    cases he
  rintro _ _ rfl
  refine along_bind (Q := fun _ w' => w = w') (along_lift (fun _ _ => rfl) fun e he => ?_) ?_
  · rw [hm] at he
    cases he
  rintro _ _ rfl
  rw [s.paths_eq hid]
  refine along_bind hdone fun done w₁ h₁ => ?_
  cases done with
  | some completed => exact along_pure h₁
  | none =>
    refine along_bind (hcommit w₁ h₁) fun commit w₂ h₂ => ?_
    cases commit with
    | some completed => exact along_pure h₂
    | none =>
      have hrun := along_bind (f := fun prepared => (pure (.resume prepared) : CoreM PrepareFolderOutcome))
        (hrest w₂ h₂) fun prepared w₃ h₃ => along_pure h₃
      simp only [bind_assoc] at hrun
      exact hrun

end InkHole
