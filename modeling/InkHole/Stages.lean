import InkHole.Receiving
import InkHole.Resend
import InkHole.StateRecords

/-! The stages of one transfer: nothing of it is delivered yet, or its item is at a destination. What
each function of the store makes of a stage, at every moment between two calls. -/

set_option linter.unusedSectionVars false

namespace InkHole

open InkHole.CoreM Fallible FileTree TransferStore

/-- Where the item is until it is delivered. -/
def TransferKind.item : TransferKind → String
  | .file => "part"
  | .folderV1 => "folder.part"

abbrev TransferStore.stateFile [Externals] (s : TransferStore) (offer : TransferOffer) (extension : String) : Path :=
  statePath (s.destinationRoot offer) offer.transferId extension

abbrev TransferStore.kept [Externals] (s : TransferStore) (offer : TransferOffer) (n : RecordName) (w : World) :
    Option (Node Contents) := w.record (s.destinationRoot offer) offer.transferId n

section Stages

variable [Externals] {L : Layout} {s : TransferStore} {offer : TransferOffer} {manifest : FolderManifest}
  {d extension : String} {v : Option (Node Contents)} {w w' : World} {I : World → Prop}
  {F : CoreError → World → Prop}

/-- Outside the state directories, and off `p`, nothing has changed. -/
def Layout.Frames (L : Layout) (p : Option Path) (w w' : World) : Prop :=
  ∀ q, ¬ L.Inside q → (∀ p', p = some p' → ¬ p' <:+ q) → w'.fs.get q = w.fs.get q

/-- The commit record names the destination `d`. -/
def Reserved (s : TransferStore) (offer : TransferOffer) (manifest : FolderManifest) (d : String) (w : World) : Prop :=
  s.kept offer .commit w = some (.file (.json (.commit (pendingRecord offer manifest d))))

def KeptMetadata (s : TransferStore) (offer : TransferOffer) (w : World) : Prop :=
  s.kept offer .metadata w = none ∨
    s.kept offer .metadata w = some (.file (.json (.metadata (StoredOffer.of offer))))

def KeptDocument (s : TransferStore) (offer : TransferOffer) (manifest : FolderManifest) (w : World) : Prop :=
  s.kept offer .manifest w = none ∨ s.kept offer .manifest w = some (.file (.json (.manifest manifest)))

/-- Nothing is delivered yet. A destination may be reserved, and then it has no item. -/
structure Underway (L : Layout) (s : TransferStore) (offer : TransferOffer) (manifest : FolderManifest) (w : World) :
    Prop where
  sound : L.Sound w.fs
  done : s.kept offer .done w = none
  commit : s.kept offer .commit w = none ∨ ∃ d, Reserved s offer manifest d w ∧
    validateDestinationName d = .ok () ∧ ¬ w.fs.Occupied (d :: s.destinationRoot offer)
  metadata : KeptMetadata s offer w
  document : KeptDocument s offer manifest w

/-- The item is at the destination `d`, and a record tells so. -/
structure Landed (L : Layout) (s : TransferStore) (offer : TransferOffer) (manifest : FolderManifest) (d : String)
    (w : World) : Prop where
  sound : L.Sound w.fs
  name : validateDestinationName d = .ok ()
  clear : L.Clear (d :: s.destinationRoot offer)
  there : Delivered s offer manifest d w
  commit : s.kept offer .commit w = none ∨ Reserved s offer manifest d w
  done : s.kept offer .done w = some (.file (.json (.done (doneRecord offer manifest d)))) ∨
    s.kept offer .done w = none ∧ Reserved s offer manifest d w
  metadata : KeptMetadata s offer w
  document : KeptDocument s offer manifest w
  gone : w.fs.get (s.stateFile offer offer.kind.item) = none

/-! One state file is changed. -/

theorem Layout.Frames.refl (p : Option Path) (w : World) : L.Frames p w w := fun _ _ _ => rfl

theorem Layout.Frames.trans {p : Option Path} {w'' : World} (h : L.Frames p w w') (h' : L.Frames p w' w'') :
    L.Frames p w w'' := fun q hq hp => (h' q hq hp).trans (h q hq hp)

theorem Layout.Frames.weaken {p : Option Path} (h : L.Frames none w w') : L.Frames p w w' :=
  fun q hq _ => h q hq fun _ hn => by cases hn

theorem frames_of_state (hr : s.destinationRoot offer ∈ L.roots)
    (h : ∀ q, ¬ Scratch L offer.transferId q → (∀ name, q ≠ s.stateFile offer name) → w'.fs.get q = w.fs.get q)
    {p : Option Path} : L.Frames p w w' := fun q hq _ =>
  h q (fun hs => hq hs.inside) fun name he => hq (he ▸ (L.owned_statePath hr offer.transferId name).inside)

theorem Writes.frames (h : Writes L offer.transferId w w' (s.stateFile offer extension) v)
    (hr : s.destinationRoot offer ∈ L.roots) {p : Option Path} : L.Frames p w w' :=
  frames_of_state hr fun q hq hn => by rw [h.get q hq, if_neg (hn extension)]

theorem Writes.kept (h : Writes L offer.transferId w w' (s.stateFile offer extension) v) (n : RecordName) :
    s.kept offer n w' = if n.extension = extension then v else s.kept offer n w := by
  simp only [TransferStore.kept, World.record, h.get _ (not_scratch_record n), statePath_inj]

theorem Writes.item (h : Writes L offer.transferId w w' (s.stateFile offer extension) v) :
    w'.fs.get (s.stateFile offer offer.kind.item) =
      if offer.kind.item = extension then v else w.fs.get (s.stateFile offer offer.kind.item) := by
  rw [h.get _ (not_scratch (by cases offer.kind <;> simp [TransferKind.item]))]
  simp only [statePath_inj]

theorem Layout.Frames.occupied (h : L.Frames none w w') (hr : s.destinationRoot offer ∈ L.roots)
    (hd : ¬ w.fs.Occupied (d :: s.destinationRoot offer)) : ¬ w'.fs.Occupied (d :: s.destinationRoot offer) := by
  rw [FileTree.Occupied, h _ (L.not_inside_destination hr d) fun _ hn => by cases hn]
  exact hd

theorem Layout.Frames.delivered (h : L.Frames none w w') (hr : s.destinationRoot offer ∈ L.roots)
    (hc : L.Clear (d :: s.destinationRoot offer)) (hd : Delivered s offer manifest d w) :
    Delivered s offer manifest d w' := by
  have hout := L.not_inside_destination hr d
  rw [Delivered] at hd ⊢
  split at hd
  · exact hd.congr (h _ hout fun _ hn => by cases hn)
  · exact hd.congr fun q hq => h _ (hc.not_inside hout hq) fun _ hn => by cases hn

theorem Underway.writes (h : Underway L s offer manifest w) (hr : s.destinationRoot offer ∈ L.roots)
    (hw : Writes L offer.transferId w w' (s.stateFile offer extension) v)
    (hdone : extension = "done.json" → v = none) (hcommit : extension = "commit.json" → v = none)
    (hmetadata : extension = "json" → v = none ∨ v = some (.file (.json (.metadata (StoredOffer.of offer)))))
    (hdocument : extension = "manifest.json" → v = none ∨ v = some (.file (.json (.manifest manifest)))) : Underway L s offer manifest w' := by
  have hframes : L.Frames none w w' := hw.frames hr
  refine ⟨hw.sound, ?_, ?_, ?_, ?_⟩
  · rw [hw.kept]
    split
    · next he => exact hdone he.symm
    · exact h.done
  · have hsame : ∀ d, ¬ RecordName.commit.extension = extension →
        (Reserved s offer manifest d w' ↔ Reserved s offer manifest d w) := by
      intro d hne
      rw [Reserved, Reserved, hw.kept, if_neg hne]
    by_cases he : RecordName.commit.extension = extension
    · exact .inl (by rw [hw.kept, if_pos he, hcommit he.symm])
    · refine h.commit.imp (fun hn => by rw [hw.kept, if_neg he, hn]) ?_
      rintro ⟨d, hd, hname, hfree⟩
      exact ⟨d, (hsame d he).mpr hd, hname, hframes.occupied hr hfree⟩
  · rw [KeptMetadata, hw.kept]
    split
    · next he => exact hmetadata he.symm
    · exact h.metadata
  · rw [KeptDocument, hw.kept]
    split
    · next he => exact hdocument he.symm
    · exact h.document

theorem Landed.writes (h : Landed L s offer manifest d w) (hr : s.destinationRoot offer ∈ L.roots)
    (hw : Writes L offer.transferId w w' (s.stateFile offer extension) v)
    (hdone : extension = "done.json" → v = some (.file (.json (.done (doneRecord offer manifest d)))))
    (hcommit : extension = "commit.json" → v = none ∧
      s.kept offer .done w = some (.file (.json (.done (doneRecord offer manifest d)))))
    (hother : extension ≠ "done.json" → v = none) : Landed L s offer manifest d w' := by
  have hframes : L.Frames none w w' := hw.frames hr
  refine ⟨hw.sound, h.name, h.clear, hframes.delivered hr h.clear h.there, ?_, ?_, ?_, ?_, ?_⟩
  · rw [Reserved, hw.kept]
    split
    · next he => exact .inl (hcommit he.symm).1
    · exact h.commit
  · rw [Reserved, hw.kept, hw.kept]
    by_cases he : RecordName.done.extension = extension
    · rw [if_pos he]
      exact .inl (hdone he.symm)
    · rw [if_neg he]
      by_cases hc : RecordName.commit.extension = extension
      · exact .inl (hcommit hc.symm).2
      · rw [if_neg hc]
        exact h.done
  · rw [KeptMetadata, hw.kept]
    split
    · next he => exact .inl (hother (by rw [← he]; decide))
    · exact h.metadata
  · rw [KeptDocument, hw.kept]
    split
    · next he => exact .inl (hother (by rw [← he]; decide))
    · exact h.document
  · rw [hw.item]
    split
    · next he => exact hother (by rw [← he]; cases offer.kind <;> decide)
    · exact h.gone

/-! Files in the making are of no account. -/

theorem Layout.Frames.scratch (h : ∀ q, ¬ Scratch L offer.transferId q → w'.fs.get q = w.fs.get q) :
    L.Frames none w w' := fun q hq _ => h q fun hs => hq hs.inside

theorem kept_scratch (h : ∀ q, ¬ Scratch L offer.transferId q → w'.fs.get q = w.fs.get q) (n : RecordName) :
    s.kept offer n w' = s.kept offer n w := h _ (not_scratch_record n)

theorem Underway.scratch (h : Underway L s offer manifest w) (hr : s.destinationRoot offer ∈ L.roots)
    (hs : L.Sound w'.fs) (hsame : ∀ q, ¬ Scratch L offer.transferId q → w'.fs.get q = w.fs.get q) :
    Underway L s offer manifest w' := by
  have hframes : L.Frames none w w' := .scratch hsame
  refine ⟨hs, (kept_scratch hsame _).trans h.done, ?_, ?_, ?_⟩
  · refine h.commit.imp (kept_scratch hsame _).trans ?_
    rintro ⟨d, hd, hname, hfree⟩
    exact ⟨d, (kept_scratch hsame _).trans hd, hname, hframes.occupied hr hfree⟩
  · exact h.metadata.imp (kept_scratch hsame _).trans (kept_scratch hsame _).trans
  · exact h.document.imp (kept_scratch hsame _).trans (kept_scratch hsame _).trans

theorem Landed.scratch (h : Landed L s offer manifest d w) (hr : s.destinationRoot offer ∈ L.roots)
    (hs : L.Sound w'.fs) (hsame : ∀ q, ¬ Scratch L offer.transferId q → w'.fs.get q = w.fs.get q) :
    Landed L s offer manifest d w' := by
  have hframes : L.Frames none w w' := .scratch hsame
  refine ⟨hs, h.name, h.clear, hframes.delivered hr h.clear h.there, ?_, ?_, ?_, ?_, ?_⟩
  · exact h.commit.imp (kept_scratch hsame _).trans (kept_scratch hsame _).trans
  · exact h.done.imp (kept_scratch hsame _).trans fun hd =>
      ⟨(kept_scratch hsame _).trans hd.1, (kept_scratch hsame _).trans hd.2⟩
  · exact h.metadata.imp (kept_scratch hsame _).trans (kept_scratch hsame _).trans
  · exact h.document.imp (kept_scratch hsame _).trans (kept_scratch hsame _).trans
  · rw [hsame _ (not_scratch (by cases offer.kind <;> simp [TransferKind.item]))]
    exact h.gone

/-- What is said of the item depends on nothing else. -/
def OfItem (s : TransferStore) (offer : TransferOffer) (Y : World → Prop) : Prop :=
  ∀ v v', (∀ q, s.stateFile offer offer.kind.item <:+ q → v'.fs.get q = v.fs.get q) → Y v → Y v'

/-- Nothing is delivered yet, and `Y` holds of what is received. -/
structure Stage (L : Layout) (s : TransferStore) (offer : TransferOffer) (manifest : FolderManifest)
    (Y : World → Prop) (w₀ w : World) : Prop where
  underway : Underway L s offer manifest w
  item : Y w
  frames : L.Frames none w₀ w

/-- The item is at its destination. -/
structure Landing (L : Layout) (s : TransferStore) (offer : TransferOffer) (manifest : FolderManifest) (d : String)
    (p : Option Path) (w₀ w : World) : Prop where
  landed : Landed L s offer manifest d w
  frames : L.Frames p w₀ w

variable {Y : World → Prop} {w₀ : World} {p : Option Path}

theorem item_mem (offer : TransferOffer) : offer.kind.item ∈
    ["part", "folder.part", "json", "manifest.json", "commit.json", "done.json"] := by
  cases offer.kind <;> simp [TransferKind.item]

theorem Stage.blind (hr : s.destinationRoot offer ∈ L.roots) (hY : OfItem s offer Y) :
    Blind L offer.transferId (Stage L s offer manifest Y w₀) := fun v v' h hs hsame =>
  ⟨h.underway.scratch hr hs hsame,
    hY v v' (fun q hq => hsame q (not_scratch_above hr (item_mem offer) hq)) h.item,
    h.frames.trans (.scratch hsame)⟩

theorem Landing.blind (hr : s.destinationRoot offer ∈ L.roots) :
    Blind L offer.transferId (Landing L s offer manifest d p w₀) := fun _ _ h hs hsame =>
  ⟨h.landed.scratch hr hs hsame, h.frames.trans (Layout.Frames.scratch hsame).weaken⟩

/-! An item that is at its destination. -/

section Settle

variable (hr : s.destinationRoot offer ∈ L.roots)

include hr

theorem Landing.writes (h : Landing L s offer manifest d p w₀ w)
    (hw : Writes L offer.transferId w w' (s.stateFile offer extension) v)
    (hdone : extension = "done.json" → v = some (.file (.json (.done (doneRecord offer manifest d)))))
    (hcommit : extension = "commit.json" → v = none ∧
      s.kept offer .done w = some (.file (.json (.done (doneRecord offer manifest d)))))
    (hother : extension ≠ "done.json" → v = none) : Landing L s offer manifest d p w₀ w' :=
  ⟨h.landed.writes hr hw hdone hcommit hother, h.frames.trans (hw.frames hr)⟩

theorem along_recordDone (hid : StateId offer.transferId) (h : Landing L s offer manifest d p w₀ w) :
    Along (Landing L s offer manifest d p w₀)
      (fun _ v => Landing L s offer manifest d p w₀ v ∧
        s.kept offer .done v = some (.file (.json (.done (doneRecord offer manifest d)))))
      F (atomicWriteJson (s.stateFile offer "done.json") (.done (doneRecord offer manifest d))) w := by
  have hnot : s.kept offer .done w ≠ some .dir := by
    rcases h.landed.done with hn | ⟨hn, -⟩ <;> simp [hn]
  refine along_atomicWriteJson (n := .done) hid hr h.landed.sound (Landing.blind hr) h hnot fun v hv => ?_
  have hlanding : Landing L s offer manifest d p w₀ v :=
    h.writes hr hv (fun _ => rfl) (fun he => absurd he (by decide)) fun he => absurd rfl he
  exact ⟨hlanding, hlanding, by rw [hv.kept]; rfl⟩

/-- What is left of a transfer can be removed once its done record is there. -/
theorem along_removeLeft (h : Landing L s offer manifest d p w₀ w)
    (hdone : s.kept offer .done w = some (.file (.json (.done (doneRecord offer manifest d)))))
    (hne : extension ≠ "done.json") (hnot : w.fs.get (s.stateFile offer extension) ≠ some .dir) :
    Along (Landing L s offer manifest d p w₀)
      (fun _ v => Landing L s offer manifest d p w₀ v ∧
        s.kept offer .done v = some (.file (.json (.done (doneRecord offer manifest d)))))
      F (removeIfExists (s.stateFile offer extension)) w := by
  refine along_removeState h.landed.sound hr hnot fun v hv => ?_
  have hlanding : Landing L s offer manifest d p w₀ v :=
    h.writes hr hv (fun he => absurd he hne) (fun _ => ⟨rfl, hdone⟩) fun _ => rfl
  refine ⟨hlanding, hlanding, ?_⟩
  rw [hv.kept, if_neg (show RecordName.done.extension ≠ extension from hne.symm)]
  exact hdone

end Settle

theorem KeptDocument.not_dir (h : KeptDocument s offer manifest w) : s.kept offer .manifest w ≠ some .dir := by
  rcases h with hn | hn <;> simp [hn]

theorem KeptMetadata.not_dir (h : KeptMetadata s offer w) : s.kept offer .metadata w ≠ some .dir := by
  rcases h with hn | hn <;> simp [hn]

theorem Landed.commit_not_dir (h : Landed L s offer manifest d w) : s.kept offer .commit w ≠ some .dir := by
  rcases h.commit with hn | hn
  · simp [hn]
  · rw [hn]
    simp

/-! A commit reserves a destination. -/

theorem occupied_clear (hs : L.Sound w.fs) {q : Path} (hq : ¬ w.fs.Occupied q) (hne : q ≠ []) : L.Clear q :=
  fun r hr hsuffix => hq (.inl (hs.chain r hr q hsuffix hne))

theorem looks_reads {β : Type} {c : Call β} (h : c.Looks) : c.Reads := by
  cases c with
  | fs op =>
    cases op with
    | tryExists p => trivial
    | _ => exact h.elim
  | _ => exact h.elim

theorem reads_uniqueDestination (root : Path) (filename : String) :
    Uses Call.Reads (fun _ => True) (uniqueDestination root filename) :=
  (looks_uniqueDestination root filename).mono (fun _ => looks_reads) fun _ h => h

/-- A name that is allocated is accepted in a record, and nothing has it. -/
theorem eval_uniqueDestination {raw name : String} (hs : L.Sound w.fs) (hr : s.destinationRoot offer ∈ L.roots)
    (h : eval (uniqueDestination (s.destinationRoot offer) (safeFilename raw)) w = .ok name) :
    validateDestinationName name = .ok () ∧ ¬ w.fs.Occupied (name :: s.destinationRoot offer) := by
  have huses := fills_uniqueDestination (P := Contents.Accepted) (s.destinationRoot offer) raw
  exact ⟨eval_uses (Q := fun name => validateDestinationName name = .ok ()) huses h,
    not_occupied_of_exists (hs.real_destination hr name) (uniqueDestination_free h)⟩

/-- Where no record tells a destination, none may be found. -/
def Unnamed (s : TransferStore) (offer : TransferOffer) (w : World) : Prop :=
  s.kept offer .commit w = none ∧
    ∃ e, eval (uniqueDestination (s.destinationRoot offer) (StoredOffer.of offer).filename) w = .error e

theorem ensureRecordedManifest_same (offer : TransferOffer) (manifest : FolderManifest) :
    ensureRecordedManifest (recordedManifest offer manifest) (recordedManifest offer manifest) = .ok () := by
  rw [recordedManifest]
  cases offer.kind with
  | file => rfl
  | folderV1 => exact if_neg (not_not.mpr rfl)

theorem Stage.writes (h : Stage L s offer manifest Y w₀ w) (hr : s.destinationRoot offer ∈ L.roots)
    (hY : OfItem s offer Y) (hw : Writes L offer.transferId w w' (s.stateFile offer extension) v)
    (hne : extension ≠ offer.kind.item) (hu : Underway L s offer manifest w') : Stage L s offer manifest Y w₀ w' := by
  refine ⟨hu, hY w w' (fun q hq => ?_) h.item, h.frames.trans (hw.frames hr)⟩
  rw [hw.get q (not_scratch_above hr (item_mem offer) hq), if_neg]
  exact fun he => not_suffix_statePath hne.symm (he ▸ hq)

/-- The commit of a transfer that is underway: of the destination that is reserved, or of a new one. -/
theorem along_commitRecord (hid : StateId offer.transferId) (hr : s.destinationRoot offer ∈ L.roots)
    (hY : OfItem s offer Y) (h : Stage L s offer manifest Y w₀ w) (hf : Unnamed s offer w → ∀ e, F e w) :
    Along (Stage L s offer manifest Y w₀) (fun record v => ∃ d, record = pendingRecord offer manifest d ∧
      Stage L s offer manifest Y w₀ v ∧ Reserved s offer manifest d v ∧ validateDestinationName d = .ok () ∧
        ¬ v.fs.Occupied (d :: s.destinationRoot offer))
      F (s.commitRecord offer (recordedManifest offer manifest)) w := by
  have hs := h.underway.sound
  rw [commitRecord, s.paths_eq hid]
  rcases h.underway.commit with hn | ⟨d, hn, hname, hfree⟩
  · refine along_bind (Q := fun a w' => a = none ∧ w = w')
      (along_readAbsent (n := .commit) hs hr h hn ⟨rfl, rfl⟩) ?_
    rintro _ _ ⟨rfl, rfl⟩
    refine along_bind (Q := fun d w' => validateDestinationName d = .ok () ∧
      ¬ w.fs.Occupied (d :: s.destinationRoot offer) ∧ w = w') (along_of_reads (reads_uniqueDestination _ _) h
        (fun d hd => ?_) fun e he => hf ⟨hn, e, he⟩ e) ?_
    · obtain ⟨hname, hfree⟩ := eval_uniqueDestination hs hr hd
      exact ⟨hname, hfree, rfl⟩
    rintro d _ ⟨hname, hfree, rfl⟩
    have hnot : s.kept offer .commit w ≠ some .dir := by simp [hn]
    refine along_bind (Q := fun _ v => Stage L s offer manifest Y w₀ v ∧ Reserved s offer manifest d v ∧
      ¬ v.fs.Occupied (d :: s.destinationRoot offer)) (along_atomicWriteJson (n := .commit) hid hr hs
        (Stage.blind hr hY) h hnot fun v hv => ?_) ?_
    · have hframes : L.Frames none w v := hv.frames hr
      have hreserved : Reserved s offer manifest d v := by
        rw [Reserved, hv.kept]
        rfl
      have hocc := hframes.occupied hr hfree
      have hrecord : ∀ n : RecordName, n ≠ .commit → s.kept offer n v = s.kept offer n w := by
        intro n hne
        rw [hv.kept, if_neg (by cases n <;> simp_all [RecordName.extension])]
      have hunderway : Underway L s offer manifest v := by
        refine ⟨hv.sound, (hrecord .done (by decide)).trans h.underway.done, .inr ⟨d, hreserved, hname, hocc⟩, ?_, ?_⟩
        · rw [KeptMetadata, hrecord .metadata (by decide)]
          exact h.underway.metadata
        · rw [KeptDocument, hrecord .manifest (by decide)]
          exact h.underway.document
      have hstage := h.writes hr hY hv (by cases offer.kind <;> decide) hunderway
      exact ⟨hstage, hstage, hreserved, hocc⟩
    · rintro _ v ⟨hstage, hreserved, hocc⟩
      exact along_pure ⟨d, rfl, hstage, hreserved, hname, hocc⟩
  · refine along_bind (Q := fun a w' => a = some (pendingRecord offer manifest d) ∧ w = w')
      (along_readRecord (n := .commit) h hn rfl ⟨rfl, rfl⟩) ?_
    rintro _ _ ⟨rfl, rfl⟩
    refine along_bind (Q := fun _ w' => w = w') (along_ensureSameOffer rfl) ?_
    rintro _ _ rfl
    refine along_bind (Q := fun _ w' => w = w') (along_lift (fun _ _ => rfl) fun e he => ?_) ?_
    · cases (ensureRecordedManifest_same offer manifest).symm.trans he
    rintro _ _ rfl
    refine along_bind (Q := fun _ w' => w = w') (along_lift (fun _ _ => rfl) fun e he => ?_) ?_
    · cases hname.symm.trans he
    rintro _ _ rfl
    exact along_pure ⟨d, rfl, h, hn, hname, hfree⟩

theorem along_withLock {α : Type} {Q : α → World → Prop} {x : CoreM α} (ℓ : Lock)
    (hI : ∀ v v' : World, v'.fs = v.fs → I v → I v')
    (hQ : ∀ a v v', v'.fs = v.fs → v'.answered = v.answered → Q a v → Q a v')
    (hF : ∀ e v v', v'.fs = v.fs → F e v → F e v') (hi : I w)
    (hx : ∀ v, v.fs = w.fs → Along I Q F x v) : Along I Q F (withLock ℓ x) w := by
  have hbody := (along_run.mp (hx (exec (Call.lock ℓ) w).2 rfl)).strengthen (hI w _ rfl hi)
  refine along_run.mpr ⟨hI w _ rfl hi, ?_⟩
  rw [Program.along_bind]
  refine hbody.post fun a v ha => ⟨hI v _ rfl ha.2, ?_⟩
  cases a with
  | ok a => exact hQ a v _ rfl (by simp [World.answered, exec, Call.effect, Effect.answer]) ha.1
  | error e => exact hF e v _ rfl ha.1

/-! What a stream makes of a stage. -/

variable {H : String → World → Prop}

/-- What is said of the item at a destination depends on nothing in the state directories. -/
def OfDestination (L : Layout) (s : TransferStore) (offer : TransferOffer) (H : String → World → Prop) : Prop :=
  ∀ d v v', L.Clear (d :: s.destinationRoot offer) → L.Frames none v v' → H d v → H d v'

/-- The item has come to a destination that was free, and `H` holds of it there. -/
structure Come (L : Layout) (s : TransferStore) (offer : TransferOffer) (manifest : FolderManifest)
    (H : String → World → Prop) (w₀ : World) (d : String) (w : World) : Prop where
  free : ¬ w₀.fs.Occupied (d :: s.destinationRoot offer)
  landing : Landing L s offer manifest d (some (d :: s.destinationRoot offer)) w₀ w
  held : H d w

/-- Nothing is delivered yet, or the item has come to a destination. -/
def Delivering (L : Layout) (s : TransferStore) (offer : TransferOffer) (manifest : FolderManifest)
    (Y : World → Prop) (H : String → World → Prop) (w₀ w : World) : Prop :=
  Stage L s offer manifest Y w₀ w ∨ ∃ d, Come L s offer manifest H w₀ d w

/-- The destination that is reserved cannot be used: something has come to be there. -/
def Blocked (s : TransferStore) (offer : TransferOffer) (manifest : FolderManifest) (w : World) : Prop :=
  ∃ d, Reserved s offer manifest d w ∧ w.fs.exists? (d :: s.destinationRoot offer) ≠ .ok false

theorem Reserved.inj {d' : String} (h : Reserved s offer manifest d w) (h' : Reserved s offer manifest d' w) :
    d = d' := by
  have he := h.symm.trans h'
  simp only [Option.some.injEq, Node.file.injEq, Contents.json.injEq, Record.commit.injEq, pendingRecord,
    CommitRecord.mk.injEq] at he
  exact he.2.1

theorem Reserved.not_blocked (h : Reserved s offer manifest d w)
    (hfree : w.fs.exists? (d :: s.destinationRoot offer) = .ok false) : ¬ Blocked s offer manifest w := by
  rintro ⟨d', hd', hblocked⟩
  exact hblocked (h.inj hd' ▸ hfree)

theorem Stage.same (hr : s.destinationRoot offer ∈ L.roots) (hY : OfItem s offer Y) {v v' : World}
    (hfs : v'.fs = v.fs) (h : Stage L s offer manifest Y w₀ v) : Stage L s offer manifest Y w₀ v' :=
  Stage.blind hr hY v v' h (hfs ▸ h.underway.sound) fun _ _ => by rw [hfs]

theorem Landing.same (hr : s.destinationRoot offer ∈ L.roots) {v v' : World} (hfs : v'.fs = v.fs)
    (h : Landing L s offer manifest d p w₀ v) : Landing L s offer manifest d p w₀ v' :=
  Landing.blind hr v v' h (hfs ▸ h.landed.sound) fun _ _ => by rw [hfs]

theorem Come.same (hr : s.destinationRoot offer ∈ L.roots) (hH : OfDestination L s offer H) {v v' : World}
    (hfs : v'.fs = v.fs) (h : Come L s offer manifest H w₀ d v) : Come L s offer manifest H w₀ d v' :=
  ⟨h.free, h.landing.same hr hfs, hH d v v' h.landing.landed.clear (fun _ _ _ => by rw [hfs]) h.held⟩

/-- What is tidied up in the state directory leaves the item where it is. -/
theorem Come.settle {v v' : World} (hH : OfDestination L s offer H) (h : Come L s offer manifest H w₀ d v)
    (hv : Landing L s offer manifest d none v v') : Come L s offer manifest H w₀ d v' :=
  ⟨h.free, ⟨hv.landed, h.landing.frames.trans hv.frames.weaken⟩, hH d v v' hv.landed.clear hv.frames h.held⟩

theorem Delivering.same (hr : s.destinationRoot offer ∈ L.roots) (hY : OfItem s offer Y)
    (hH : OfDestination L s offer H) {v v' : World} (hfs : v'.fs = v.fs)
    (h : Delivering L s offer manifest Y H w₀ v) : Delivering L s offer manifest Y H w₀ v' :=
  h.imp (Stage.same hr hY hfs) fun ⟨d, hd⟩ => ⟨d, hd.same hr hH hfs⟩

/-- What a program that only reads returns depends on the files only. -/
theorem eval_same {α : Type} {x : CoreM α} {V : α → Prop} (h : Uses Call.Reads V x) {v v' : World}
    (hfs : v'.fs = v.fs) : eval x v' = eval x v := by
  have hrun : ∀ {β : Type} (y : Program Call β), (∃ N : β → Prop, y.Uses Call.Reads N) → (y.run v').1 = (y.run v).1 := by
    intro β y hy
    induction y with
    | ret a => rfl
    | call c k ih =>
      obtain ⟨N, hc, hk⟩ := hy
      cases c with
      | fs op =>
        rw [Program.run, Program.run, exec_reads hc, exec_reads hc]
        simp only [hfs]
        exact ih _ ⟨N, hk _⟩
      | _ => exact hc.elim
  exact hrun x.run ⟨_, uses_run.mp h⟩

theorem Blocked.same {v v' : World} (hfs : v'.fs = v.fs) (h : Blocked s offer manifest v) :
    Blocked s offer manifest v' := by
  obtain ⟨d, hd, hb⟩ := h
  refine ⟨d, ?_, by rwa [hfs]⟩
  rw [Reserved, TransferStore.kept, World.record, hfs]
  exact hd

theorem Unnamed.same {v v' : World} (hfs : v'.fs = v.fs) (h : Unnamed s offer v) : Unnamed s offer v' := by
  obtain ⟨hc, e, he⟩ := h
  refine ⟨?_, e, (eval_same (reads_uniqueDestination _ _) hfs).trans he⟩
  rw [TransferStore.kept, World.record, hfs]
  exact hc

theorem not_suffix_destination (hr : s.destinationRoot offer ∈ L.roots) (extension : String) :
    ¬ s.stateFile offer extension <:+ d :: s.destinationRoot offer := fun h =>
  L.not_inside_destination hr d ((L.owned_statePath hr offer.transferId extension).inside.above h)

theorem Layout.Clear.not_suffix_state (h : L.Clear (d :: s.destinationRoot offer))
    (hr : s.destinationRoot offer ∈ L.roots) (extension : String) :
    ¬ d :: s.destinationRoot offer <:+ s.stateFile offer extension := by
  intro hs
  rcases List.suffix_cons_iff.mp hs with he | hs
  · have hlength := congrArg List.length he
    simp at hlength
  · exact h _ hr hs

theorem exec_setModified {n : Node Contents} {q : Path} (h : w.fs.get q = some n) (hl : n.isSymlink = false) :
    ((FsOp.setModified q : FsOp Contents Unit).exec w.fs).1 = .ok () := by
  rw [FsOp.exec, stat_resolve h hl]
  rfl

/-! The item. -/

/-- The records lie outside the item. -/
theorem kept_beside (hoff : ∀ q, ¬ s.stateFile offer offer.kind.item <:+ q → w'.fs.get q = w.fs.get q) (n : RecordName) :
    s.kept offer n w' = s.kept offer n w := by
  refine hoff _ fun hs => ?_
  refine not_suffix_statePath (a := offer.kind.item) (b := n.extension) ?_ hs
  cases offer.kind <;> cases n <;> decide

theorem frames_beside (hr : s.destinationRoot offer ∈ L.roots)
    (hoff : ∀ q, ¬ s.stateFile offer offer.kind.item <:+ q → w'.fs.get q = w.fs.get q) : L.Frames none w w' :=
  fun q hq _ => hoff q fun hs => hq ((L.owned_statePath hr offer.transferId _).inside.above hs)

/-- A transfer whose item changes is still underway. -/
theorem Underway.beside (h : Underway L s offer manifest w) (hr : s.destinationRoot offer ∈ L.roots)
    (hs : L.Sound w'.fs) (hoff : ∀ q, ¬ s.stateFile offer offer.kind.item <:+ q → w'.fs.get q = w.fs.get q) :
    Underway L s offer manifest w' := by
  have hsame : ∀ n, s.kept offer n w' = s.kept offer n w := kept_beside hoff
  refine ⟨hs, (hsame _).trans h.done, ?_, h.metadata.imp (hsame _).trans (hsame _).trans,
    h.document.imp (hsame _).trans (hsame _).trans⟩
  refine h.commit.imp (hsame _).trans ?_
  rintro ⟨d, hd, hname, hfree⟩
  exact ⟨d, (hsame _).trans hd, hname, (frames_beside hr hoff).occupied hr hfree⟩

end Stages

end InkHole
