import InkHole.FileStages
import InkHole.Receiving

/-! How a file that is underway comes to its destination: its bytes are received, checked and
renamed, and whatever stops that leaves a file that is still underway. -/

set_option linter.unusedSectionVars false

namespace InkHole

open InkHole.CoreM Fallible FileTree TransferStore

section FileDelivery

variable [Externals] {L : Layout} {s : TransferStore} {offer : TransferOffer} {manifest : FolderManifest}
  {d : String} {w w₀ : World} {p : Option Path} {I : World → Prop} {F : CoreError → World → Prop}
  {C : Contents → Prop} {c : Contents} {Y : World → Prop} {H : String → World → Prop}

/-- What is left of a file that was refused. -/
structure Discarded (s : TransferStore) (offer : TransferOffer) (w : World) : Prop where
  part : w.fs.get (s.stateFile offer "part") = none
  metadata : s.kept offer .metadata w = none
  commit : s.kept offer .commit w = none

/-- The rename of a whole file to its destination. -/
theorem along_moveFile (hk : offer.kind = .file) (hr : s.destinationRoot offer ∈ L.roots)
    (h : Stage L s offer manifest Y w₀ w) (hreserved : Reserved s offer manifest d w)
    (hname : validateDestinationName d = .ok ()) (hfree : ¬ w.fs.Occupied (d :: s.destinationRoot offer))
    (hpart : w.fs.get (s.stateFile offer "part") = some (.file c))
    (hsize : FileData.size c = offer.size) (hdigest : c.blake3Hex = offer.blake3)
    (hH : ∀ v : World, v.fs.get (d :: s.destinationRoot offer) = some (.file c) → H d v)
    (hf : Blocked s offer manifest w → ∀ e, F e w) :
    Along (Delivering L s offer manifest Y H w₀) (fun _ v => Blocked s offer manifest v ∧ w = v ∨
      Come L s offer manifest H w₀ d v) F
      (moveOnce (s.stateFile offer "part") (d :: s.destinationRoot offer)) w := by
  have hs := h.underway.sound
  have hclear := occupied_clear hs hfree (List.cons_ne_nil _ _)
  have hfree₀ : ¬ w₀.fs.Occupied (d :: s.destinationRoot offer) := by
    rwa [FileTree.Occupied, h.frames _ (L.not_inside_destination hr d) fun _ hn => by cases hn] at hfree
  have hd := hs.real_destination hr d
  rw [moveOnce]
  by_cases hex : w.fs.exists? (d :: s.destinationRoot offer) = .ok false
  · refine along_bind (Q := fun there v => there = false ∧ w = v) (along_fs_reads trivial hex (.inl h) ⟨rfl, rfl⟩) ?_
    rintro _ _ ⟨rfl, rfl⟩
    obtain ⟨t, ht, hget⟩ := renameTo_file hpart hd (List.cons_ne_nil _ _) (List.cons_ne_nil _ _)
      (fun hdir => hfree (.inl hdir)) (not_suffix_destination hr "part") (hclear.not_suffix_state hr "part")
    have hstate : ∀ extension, s.stateFile offer extension ≠ d :: s.destinationRoot offer := by
      intro extension he
      have hs := not_suffix_destination (s := s) (d := d) hr extension
      rw [he] at hs
      exact hs List.suffix_rfl
    have hkept : ∀ n : RecordName, t.get (s.stateFile offer n.extension) = s.kept offer n w := by
      intro n
      rw [hget, if_neg (hstate _), if_neg]
      · rfl
      · rw [statePath_inj]
        cases n <;> decide
    have hsound : L.Sound t := by
      have hdeliver : L.Sound (w.fs.renameTo (s.stateFile offer "part") (d :: s.destinationRoot offer)).2 :=
        hs.deliver hr ⟨_, rfl⟩
      rwa [ht] at hdeliver
    refine along_fs_done ht fun v hv => ?_
    subst hv
    have hat : v.fs.get (d :: s.destinationRoot offer) = some (.file c) := by rw [hget, if_pos rfl]
    have hlanded : Landed L s offer manifest d v := by
      refine ⟨hsound, hname, hclear, ?_, .inr ((hkept .commit).trans hreserved),
        .inr ⟨(hkept .done).trans h.underway.done, (hkept .commit).trans hreserved⟩, ?_, ?_, ?_⟩
      · rw [Delivered, hk]
        exact ⟨c, hat, hsize, hdigest⟩
      · exact h.underway.metadata.imp (hkept .metadata).trans (hkept .metadata).trans
      · exact h.underway.document.imp (hkept .manifest).trans (hkept .manifest).trans
      · rw [hk, hget, if_neg (hstate _)]
        exact if_pos rfl
    have hlanding : Landing L s offer manifest d (some (d :: s.destinationRoot offer)) w₀ v := by
      refine ⟨hlanded, fun q hq hp => ?_⟩
      have hqd : q ≠ d :: s.destinationRoot offer := fun he => hp _ rfl (he ▸ List.suffix_rfl)
      have hqs : q ≠ s.stateFile offer "part" := fun he =>
        hq (he ▸ (L.owned_statePath hr offer.transferId "part").inside)
      rw [hget, if_neg hqd, if_neg hqs]
      exact h.frames q hq fun _ hn => by cases hn
    exact ⟨.inr ⟨d, hfree₀, hlanding, hH v hat⟩, .inr ⟨hfree₀, hlanding, hH v hat⟩⟩
  · have hblocked : Blocked s offer manifest w := ⟨d, hreserved, hex⟩
    refine along_bind (Q := fun there v => w.fs.exists? (d :: s.destinationRoot offer) = .ok there ∧ w = v)
      (along_of_reads (reads_fs trivial) (.inl h) (fun there hthere => ⟨tryExists_ok hthere, rfl⟩)
        fun e _ => hf hblocked e) ?_
    rintro there _ ⟨hthere, rfl⟩
    cases there with
    | false => exact absurd hthere hex
    | true => exact along_pure (.inl ⟨hblocked, rfl⟩)

/-- Under the commit lock a whole file comes to its destination, and its records are put in order. -/
theorem along_commitFile (hk : offer.kind = .file) (hid : StateId offer.transferId)
    (hr : s.destinationRoot offer ∈ L.roots) (hY : OfItem s offer Y) (h : Stage L s offer manifest Y w₀ w)
    (hpart : w.fs.get (s.stateFile offer "part") = some (.file c))
    (hsize : FileData.size c = offer.size) (hdigest : c.blake3Hex = offer.blake3) (hdest : OfDestination L s offer H)
    (hH : ∀ d (v : World), v.fs.get (d :: s.destinationRoot offer) = some (.file c) → H d v)
    (hunnamed : Unnamed s offer w → ∀ e, F e w)
    (hblocked : ∀ v, Stage L s offer manifest Y w₀ v → v.fs.get (s.stateFile offer "part") = some (.file c) →
      Blocked s offer manifest v → ∀ e, F e v) :
    Along (Delivering L s offer manifest Y H w₀) (fun completed v => ∃ d,
      completed = ⟨offer.receipt, d :: s.destinationRoot offer⟩ ∧ Come L s offer manifest H w₀ d v) F
      (s.commitFile offer) w := by
  have hm : recordedManifest offer manifest = none := by rw [recordedManifest, hk]
  have hwhole : OfItem s offer fun v => Y v ∧ v.fs.get (s.stateFile offer "part") = some (.file c) := by
    refine fun v v' hsame hv => ⟨hY v v' hsame hv.1, (hsame _ ?_).trans hv.2⟩
    rw [hk]
    exact List.suffix_rfl
  have hcommit := along_commitRecord (F := F) hid hr hwhole ⟨h.underway, ⟨h.item, hpart⟩, h.frames⟩ hunnamed
  rw [hm] at hcommit
  rw [commitFile, s.paths_eq hid]
  refine along_bind (hcommit.mono (fun v hv => .inl ⟨hv.underway, hv.item.1, hv.frames⟩) (fun _ _ hq => hq)
    fun _ _ hf => hf) ?_
  rintro _ v ⟨d, rfl, hstage, hreserved, hname, hfree⟩
  have hstage' : Stage L s offer manifest Y w₀ v := ⟨hstage.underway, hstage.item.1, hstage.frames⟩
  refine along_bind (along_moveFile hk hr hstage' hreserved hname hfree hstage.item.2 hsize hdigest
    (hH d) (hblocked v hstage' hstage.item.2)) ?_
  rintro _ v' (⟨hb, rfl⟩ | hcome)
  · obtain ⟨e, he⟩ := eval_ensureFileDestination_free
      (hstage.underway.sound.real_destination hr d) (List.cons_ne_nil _ _) hfree
    refine along_bind (Q := fun _ _ => False) (along_of_reads (reads_ensureFileDestination _ _ _) (.inl hstage')
      (fun u hu => ?_) fun e _ => hblocked v hstage' hstage.item.2 hb e) fun _ _ hc => hc.elim
    cases he.symm.trans hu
  have hlanded := hcome.landing.landed
  have hi : Delivering L s offer manifest Y H w₀ v' := .inr ⟨d, hcome⟩
  have hcheck := (eval_ensureFileDestination (hlanded.sound.real_destination hr d) (List.cons_ne_nil _ _)).mpr
    (hlanded.file hk)
  refine along_bind (Q := fun _ v => v' = v) (along_of_reads (reads_ensureFileDestination _ _ _) hi
    (fun _ _ => rfl) fun e he => by cases hcheck.symm.trans he) ?_
  rintro _ _ rfl
  obtain ⟨c', hat, -⟩ := hlanded.file hk
  refine along_bind (Q := fun _ v => v' = v) (along_fs_reads trivial (exec_setModified hat rfl) hi rfl) ?_
  rintro _ _ rfl
  -- from here on the store only tidies up in its state directory
  have hsettle : ∀ v, Landing L s offer manifest d none v' v → Delivering L s offer manifest Y H w₀ v := fun v hv =>
    .inr ⟨d, hcome.settle hdest hv⟩
  have hrecord := along_recordDone (F := F) hr hid (⟨hlanded, .refl _ _⟩ : Landing L s offer manifest d none v' v')
  rw [doneRecord, hm] at hrecord
  refine along_bind (hrecord.mono hsettle (fun _ _ hq => hq) fun _ _ hf => hf) ?_
  rintro _ v ⟨hv, hdone⟩
  rw [← hm] at hdone
  refine along_bind ((along_removeLeft hr hv hdone (by decide) hv.landed.metadata.not_dir).mono hsettle
    (fun _ _ hq => hq) fun _ _ hf => hf) ?_
  rintro _ v ⟨hv, hdone⟩
  refine along_bind ((along_removeLeft hr hv hdone (by decide) hv.landed.commit_not_dir).mono hsettle
    (fun _ _ hq => hq) fun _ _ hf => hf) ?_
  rintro _ v ⟨hv, -⟩
  exact along_pure ⟨d, rfl, hcome.settle hdest hv⟩

/-- A file of the wrong content is thrown away, with the records that would keep it. -/
theorem along_discard (hk : offer.kind = .file) (hr : s.destinationRoot offer ∈ L.roots)
    (h : Stage L s offer manifest (Arrived s offer C) w₀ w)
    (hf : ∀ v, Stage L s offer manifest (Arrived s offer C) w₀ v → Discarded s offer v → ∀ e, F e v) (e : CoreError) :
    Along (Stage L s offer manifest (Arrived s offer C) w₀) (fun _ _ => False) F
      (do removeIfExists (s.stateFile offer "part")
          removeIfExists (s.stateFile offer "json")
          removeIfExists (s.stateFile offer "commit.json")
          throw e : CoreM CompletedTransfer) w := by
  have hY : OfItem s offer (Arrived s offer C) := ofItem_arrived hk
  refine along_bind (Q := fun _ v => Stage L s offer manifest (Arrived s offer C) w₀ v ∧
    v.fs.get (s.stateFile offer "part") = none)
    (along_removeState h.underway.sound hr h.item.plain.not_dir fun v hv => ?_) ?_
  · have hpart : v.fs.get (s.stateFile offer "part") = none := by
      rw [hv.get _ (not_scratch (by simp)), if_pos rfl]
    have hstage : Stage L s offer manifest (Arrived s offer C) w₀ v :=
      ⟨h.underway.writes hr hv (fun _ => rfl) (fun _ => rfl) (fun _ => .inl rfl) (fun _ => .inl rfl), .inl hpart,
        h.frames.trans (hv.frames hr)⟩
    exact ⟨hstage, hstage, hpart⟩
  rintro _ v ⟨h, hpart⟩
  have hkeep : ∀ {v v' : World} {extension : String}, extension ≠ "part" →
      Writes L offer.transferId v v' (s.stateFile offer extension) none →
      Stage L s offer manifest (Arrived s offer C) w₀ v → v.fs.get (s.stateFile offer "part") = none →
      Stage L s offer manifest (Arrived s offer C) w₀ v' ∧ v'.fs.get (s.stateFile offer "part") = none := by
    intro v v' extension hne hv h hpart
    refine ⟨h.writes hr hY hv (by rwa [hk]) (h.underway.writes hr hv (fun _ => rfl) (fun _ => rfl)
      (fun _ => .inl rfl) fun _ => .inl rfl), ?_⟩
    rw [hv.get _ (not_scratch (by simp)), if_neg, hpart]
    rwa [statePath_inj, eq_comm]
  refine along_bind (Q := fun _ v => Stage L s offer manifest (Arrived s offer C) w₀ v ∧
    v.fs.get (s.stateFile offer "part") = none ∧ s.kept offer .metadata v = none)
    (along_removeState h.underway.sound hr h.underway.metadata.not_dir fun v' hv => ?_) ?_
  · obtain ⟨h', hpart'⟩ := hkeep (by decide) hv h hpart
    exact ⟨h', h', hpart', by rw [hv.kept]; rfl⟩
  rintro _ v ⟨h, hpart, hmetadata⟩
  have hcommit : s.kept offer .commit v ≠ some .dir := by
    rcases h.underway.commit with hn | ⟨d, hn, -⟩
    · simp [hn]
    · rw [hn]
      simp
  refine along_bind (Q := fun _ v => Stage L s offer manifest (Arrived s offer C) w₀ v ∧ Discarded s offer v)
    (along_removeState h.underway.sound hr hcommit fun v' hv => ?_) ?_
  · obtain ⟨h', hpart'⟩ := hkeep (by decide) hv h hpart
    refine ⟨h', h', hpart', ?_, by rw [hv.kept]; rfl⟩
    rw [hv.kept, if_neg (by decide), hmetadata]
  rintro _ v ⟨h, hdiscarded⟩
  exact along_throw (hf v h hdiscarded e)

/-- What keeps a file that is underway from its destination, and what is left of it then. -/
structure Unfinished (L : Layout) (s : TransferStore) (offer : TransferOffer) (manifest : FolderManifest)
    (C : Contents → Prop) (F : CoreError → World → Prop) (w₀ w : World) : Prop where
  missing : w.fs.get (s.stateFile offer "part") = none → ∀ e, F e w
  short : ∀ c, w.fs.get (s.stateFile offer "part") = some (.file c) → FileData.size c ≠ offer.size → ∀ e, F e w
  wrong : ∀ c, w.fs.get (s.stateFile offer "part") = some (.file c) → c.blake3Hex ≠ offer.blake3 →
    ∀ v, Stage L s offer manifest (Arrived s offer C) w₀ v → Discarded s offer v → ∀ e, F e v
  unnamed : ∀ v, v.fs = w.fs → Unnamed s offer v → ∀ e, F e v
  blocked : ∀ c, w.fs.get (s.stateFile offer "part") = some (.file c) →
    ∀ v, Stage L s offer manifest (Arrived s offer C) w₀ v → v.fs.get (s.stateFile offer "part") = some (.file c) →
      Blocked s offer manifest v → ∀ e, F e v

/-- The file at the destination is one that may arrive. -/
def FileHeld (s : TransferStore) (offer : TransferOffer) (C : Contents → Prop) (d : String) (w : World) : Prop :=
  ∃ c, C c ∧ w.fs.get (d :: s.destinationRoot offer) = some (.file c)

theorem ofDestination_file (hr : s.destinationRoot offer ∈ L.roots) : OfDestination L s offer (FileHeld s offer C) := by
  rintro d v v' - hframes ⟨c, hC, hat⟩
  exact ⟨c, hC, (hframes _ (L.not_inside_destination hr d) fun _ hn => by cases hn).trans hat⟩

theorem along_finalize (hk : offer.kind = .file) (hid : StateId offer.transferId)
    (hr : s.destinationRoot offer ∈ L.roots) (h : Stage L s offer manifest (Arrived s offer C) w₀ w)
    (hf : Unfinished L s offer manifest C F w₀ w) (hlock : ∀ e v v', v'.fs = v.fs → F e v → F e v') :
    Along (Delivering L s offer manifest (Arrived s offer C) (FileHeld s offer C) w₀) (fun completed v => ∃ d,
      completed = ⟨offer.receipt, d :: s.destinationRoot offer⟩ ∧
        Come L s offer manifest (FileHeld s offer C) w₀ d v) F
      (s.finalize offer) w := by
  have hY : OfItem s offer (Arrived s offer C) := ofItem_arrived hk
  have hreal := h.underway.sound.real_state hr (stateName offer.transferId "part")
  have hnil : s.stateFile offer "part" ≠ [] := statePath_ne_nil _
  rw [finalize, s.paths_eq hid]
  rcases h.item with hn | ⟨c, hn, hC⟩
  · exact along_bind (Q := fun _ _ => False) (along_fs_reads_error trivial (stat_resolve_absent hreal hnil hn) (.inl h)
      (hf.missing hn _)) fun _ _ hc => hc.elim
  have hdata : ((FsOp.read (s.stateFile offer "part") : FsOp Contents Contents).exec w.fs).1 = .ok c := readFile_file hn
  refine along_bind (Q := fun m v => m = (Node.file c).stat ∧ w = v) (along_fs_reads trivial (stat_resolve hn rfl) (.inl h)
    ⟨rfl, rfl⟩) ?_
  rintro _ _ ⟨rfl, rfl⟩
  refine along_bind (Q := fun _ v => FileData.size c = offer.size ∧ w = v) (along_throwIf
    (fun hsize => ⟨not_not.mp hsize, rfl⟩) fun hsize => hf.short c hn hsize _) ?_
  rintro _ _ ⟨hsize, rfl⟩
  refine along_bind (Q := fun digest v => digest = c.blake3Hex ∧ w = v) (along_blake3FileHex (.inl h) hn ⟨rfl, rfl⟩) ?_
  rintro _ _ ⟨rfl, rfl⟩
  by_cases hdigest : c.blake3Hex = offer.blake3
  · rw [if_neg (not_not.mpr hdigest)]
    have hdest : OfDestination L s offer (FileHeld s offer C) := ofDestination_file hr
    refine along_withLock _ (fun v v' hfs => Delivering.same hr hY hdest hfs) ?_ hlock (.inl h) fun v hv => ?_
    · rintro _ v v' hfs - ⟨d, rfl, hcome⟩
      exact ⟨d, rfl, hcome.same hr hdest hfs⟩
    · have hvpart : v.fs.get (s.stateFile offer "part") = some (.file c) := by rw [hv, hn]
      exact along_commitFile hk hid hr hY (h.same hr hY hv) hvpart hsize hdigest hdest (fun d v hat => ⟨c, hC, hat⟩)
        (hf.unnamed v hv) (hf.blocked c hn)
  · rw [if_pos hdigest]
    exact (along_discard hk hr h (hf.wrong c hn hdigest) _).mono (fun _ hi => .inl hi) (fun _ _ hc => hc.elim)
      fun _ _ hf => hf

/-! A whole stream. -/

/-- Why a stream may end without the file at its destination. -/
inductive FileSetback (s : TransferStore) (offer : TransferOffer) (manifest : FolderManifest) (C : Contents → Prop)
    (peer : Peer) (w : World) : Prop where
  | blocked (h : Blocked s offer manifest w)
  | unnamed (h : Unnamed s offer w)
  | wrong (c : Contents) (hC : C c) (hsize : FileData.size c = offer.size) (hdigest : c.blake3Hex ≠ offer.blake3)
      (h : Discarded s offer w)
  | broken (c : Contents) (hC : C c)
      (h : ¬ (peer (.resume (FileData.size c))).Whole (offer.size - FileData.size c))

/-- What a stream adds to what has arrived is what may arrive. -/
def Receives (offer : TransferOffer) (C : Contents → Prop) (peer : Peer) : Prop :=
  ∀ c c' : Contents, C c → ∀ taken, taken <+: (peer (.resume (FileData.size c))).bytes →
    FileData.size c + taken.length ≤ offer.size → c'.toBytes = c.toBytes ++ taken → C c'

theorem Discarded.same {v v' : World} (hfs : v'.fs = v.fs) (h : Discarded s offer v) : Discarded s offer v' := by
  refine ⟨?_, ?_, ?_⟩
  · rw [hfs]
    exact h.part
  · rw [TransferStore.kept, World.record, hfs]
    exact h.metadata
  · rw [TransferStore.kept, World.record, hfs]
    exact h.commit

theorem FileSetback.same {peer : Peer} {v v' : World} (hfs : v'.fs = v.fs)
    (h : FileSetback s offer manifest C peer v) : FileSetback s offer manifest C peer v' := by
  cases h with
  | blocked h => exact .blocked (h.same hfs)
  | unnamed h => exact .unnamed (h.same hfs)
  | wrong c hC hsize hdigest h => exact .wrong c hC hsize hdigest (h.same hfs)
  | broken c hC h => exact .broken c hC h

/-- A part that grows is still underway. -/
theorem Filled.stage {start taken : Bytes} {v : World} (hr : s.destinationRoot offer ∈ L.roots)
    (h : Stage L s offer manifest (Arrived s offer C) w₀ w) (hv : Filled (s.stateFile offer "part") start taken w v)
    (hC : ∀ c : Contents, c.toBytes = start ++ taken → C c) :
    Stage L s offer manifest (Arrived s offer C) w₀ v := by
  obtain ⟨c, hc, hbytes⟩ := hv.there
  have hset : Sets w.fs v.fs (s.stateFile offer "part") (some (.file c)) := by
    intro q
    split
    · next he => rw [he, hc]
    · next he => exact hv.off q he
  have hinside := (L.owned_statePath hr offer.transferId "part").inside
  have hwrites : Writes L offer.transferId w v (s.stateFile offer "part") (some (.file c)) :=
    h.underway.sound.writes hset hinside fun n hn => .inr ⟨c, (Option.some.inj hn).symm⟩
  exact ⟨h.underway.writes hr hwrites (fun he => absurd he (by decide)) (fun he => absurd he (by decide))
    (fun he => absurd he (by decide)) (fun he => absurd he (by decide)), .inr ⟨c, hc, hC c hbytes⟩,
    h.frames.trans (hwrites.frames hr)⟩

theorem along_handleFileStream {peer : Peer} (hv : offer.validate = .ok ()) (hk : offer.kind = .file)
    (hr : s.destinationRoot offer ∈ L.roots) (h : Stage L s offer manifest (Arrived s offer C) w₀ w)
    (hempty : C FileData.empty) (hsize : ∀ c, C c → FileData.size c ≤ offer.size) (hC : Receives offer C peer) :
    Along (Delivering L s offer manifest (Arrived s offer C) (FileHeld s offer C) w₀)
      (fun _ v => (∃ d, Come L s offer manifest (FileHeld s offer C) w₀ d v) ∧
        v.answered.getLast? = some (.complete offer.receipt))
      (fun _ v => Stage L s offer manifest (Arrived s offer C) w₀ v ∧ FileSetback s offer manifest C peer v)
      (s.handleFileStream offer peer) w := by
  have hid : StateId offer.transferId := stateId_of_parseUuid (offer.validate_parseUuid hv)
  have hY : OfItem s offer (Arrived s offer C) := ofItem_arrived hk
  have hdest : OfDestination L s offer (FileHeld s offer C) := ofDestination_file hr
  have hnil : s.stateFile offer "part" ≠ [] := statePath_ne_nil _
  rw [handleFileStream]
  have hprepare := along_prepare_underway (F := fun _ v => Stage L s offer manifest (Arrived s offer C) w₀ v ∧
    FileSetback s offer manifest C peer v) hv hk hr h hempty hsize fun hb _ => ⟨h, .blocked hb⟩
  refine along_bind (along_rejecting (hprepare.mono (fun _ hi => .inl hi) (fun _ _ hq => hq) fun _ _ hf => hf) (.inl h)
    (fun v v' hfs => Delivering.same hr hY hdest hfs) fun e v v' hfs hf => ⟨hf.1.same hr hY hfs, hf.2.same hfs⟩) ?_
  rintro _ v ⟨hstage, -, c, hpart, hc, rfl⟩
  have hle := hsize c hc
  refine along_bind (Q := fun _ v' => v'.fs = v.fs) (along_respond fun v' hfs _ => ⟨.inl (hstage.same hr hY hfs), hfs⟩) ?_
  intro _ v₁ hfs₁
  have hopen : (FsOp.openFile (s.stateFile offer "part") {} : FsOp Contents Unit).exec v₁.fs = (.ok (), v₁.fs) :=
    openAt_there (by rw [hfs₁]; exact hpart) rfl rfl
  refine along_bind (Q := fun _ v' => v'.fs = v.fs) (along_fs_done hopen fun v' hfs =>
    ⟨.inl (hstage.same hr hY (hfs.trans hfs₁)), hfs.trans hfs₁⟩) ?_
  intro _ v₂ hfs₂
  refine along_bind (Q := fun _ v' => v'.fs = v.fs) (along_emit fun v' hfs =>
    ⟨.inl (hstage.same hr hY (hfs.trans hfs₂)), hfs.trans hfs₂⟩) ?_
  intro _ v₃ hfs₃
  have hstage₃ := hstage.same hr hY hfs₃
  have hpart₃ : v₃.fs.get (s.stateFile offer "part") = some (.file c) := by rw [hfs₃, hpart]
  have hgrown : ∀ taken v', taken <+: (peer (.resume (FileData.size c))).bytes →
      taken.length ≤ offer.size - FileData.size c → Filled (s.stateFile offer "part") c.toBytes taken v₃ v' →
      Stage L s offer manifest (Arrived s offer C) w₀ v' := fun taken v' hprefix hlength hfilled =>
    hfilled.stage hr hstage₃ fun c' hc' => hC c c' hc taken hprefix (by omega) hc'
  have hbroken : ∀ {v'}, Stage L s offer manifest (Arrived s offer C) w₀ v' →
      ¬ (peer (.resume (FileData.size c))).Whole (offer.size - FileData.size c) →
      Stage L s offer manifest (Arrived s offer C) w₀ v' ∧ FileSetback s offer manifest C peer v' :=
    fun h' hb => ⟨h', .broken c hc hb⟩
  refine along_bind (along_receiveInto (r := receivingFile offer (s.stateFile offer "part"))
    (fun n chunk c' _ => rfl) hnil ?_ ?_ (filled_start hpart₃) (fun taken v' hprefix hlength hv' =>
      .inl (hgrown taken v' hprefix hlength hv')) fun v' hless hv' e => ?_) ?_
  · change offer.size ≤ FileData.size c + (offer.size - FileData.size c)
    omega
  · rw [List.append_nil]
    rfl
  · have hless' : (peer (.resume (FileData.size c))).bytes.length < offer.size - FileData.size c := hless
    exact hbroken (hgrown _ v' (List.prefix_rfl) (by omega) hv') fun hwhole => by have := hwhole.1; omega
  rintro rest v₄ ⟨taken, hbrought, hfilled⟩
  rw [List.nil_append] at hfilled
  have htaken : taken.length = offer.size - FileData.size c := hbrought.length
  have hprefix : taken <+: (peer (.resume (FileData.size c))).bytes := ⟨rest.bytes, hbrought.bytes.symm⟩
  have hstage₄ := hgrown taken v₄ hprefix htaken.le hfilled
  refine along_bind (Q := fun extra v' => rest.read 1 = .ok extra ∧ v₄ = v') (along_lift (fun _ hx => ⟨hx, rfl⟩)
    fun e he => hbroken hstage₄ fun hwhole => ?_) ?_
  · cases he.symm.trans (hwhole.read hbrought 1)
  rintro extra _ ⟨hextra, rfl⟩
  refine along_bind (Q := fun _ v' => v₄ = v') (along_throwIf (fun _ => rfl) fun hsome => hbroken hstage₄ fun hwhole => ?_) ?_
  · obtain rfl := Except.ok.inj (hextra.symm.trans (hwhole.read hbrought 1))
    cases hsome
  rintro _ _ rfl
  obtain ⟨c', hc', hbytes⟩ := hfilled.there
  have hCc' : C c' := hC c c' hc taken hprefix (by omega) hbytes
  refine along_bind (Q := fun _ v' => v₄ = v') (along_sync hc' (.inl hstage₄) rfl) ?_
  rintro _ _ rfl
  have hunfinished : Unfinished L s offer manifest C (fun _ v => Stage L s offer manifest (Arrived s offer C) w₀ v ∧
      FileSetback s offer manifest C peer v) w₀ v₄ := by
    have hlength : FileData.size c' = offer.size := by
      rw [show FileData.size c' = c'.toBytes.length from rfl, hbytes, List.length_append, htaken]
      change FileData.size c + (offer.size - FileData.size c) = offer.size
      omega
    refine ⟨fun hn => (by cases hc'.symm.trans hn), fun c'' hc'' hne => ?_, fun c'' hc'' hne v' hv' hd e => ?_,
      fun v' hfs hu e => ⟨hstage₄.same hr hY hfs, .unnamed hu⟩, fun c'' _ v' hv' _ hb e => ⟨hv', .blocked hb⟩⟩
    · obtain rfl := Node.file.inj (Option.some.inj (hc'.symm.trans hc''))
      exact absurd hlength hne
    · obtain rfl := Node.file.inj (Option.some.inj (hc'.symm.trans hc''))
      exact ⟨hv', .wrong c' hCc' hlength hne hd⟩
  refine along_bind (along_finalize hk hid hr hstage₄ hunfinished fun e v v' hfs hf =>
    ⟨hf.1.same hr hY hfs, hf.2.same hfs⟩) ?_
  rintro _ v₅ ⟨d, rfl, hcome⟩
  have hdone : ∀ v' : World, v'.fs = v₅.fs →
      Delivering L s offer manifest (Arrived s offer C) (FileHeld s offer C) w₀ v' := fun v' hfs =>
    .inr ⟨d, hcome.same hr hdest hfs⟩
  refine along_bind (Q := fun _ v' => v'.fs = v₅.fs) (along_emit fun v' hfs => ⟨hdone v' hfs, hfs⟩) ?_
  intro _ v₆ hfs₆
  exact along_respond fun v' hfs hlast => ⟨hdone v' (hfs.trans hfs₆), ⟨d, hcome.same hr hdest (hfs.trans hfs₆)⟩,
    by rw [hlast, List.getLast?_concat]⟩

end FileDelivery
end InkHole
