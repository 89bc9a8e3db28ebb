import InkHole.Agreement
import InkHole.FolderStages
import InkHole.Receiving

/-! How a folder that is underway comes to its destination: its files are received and checked one
after the other, and the staging directory is renamed. -/

set_option linter.unusedSectionVars false

namespace InkHole

open InkHole.CoreM Fallible FileTree TransferStore FolderManifest

section FolderFiles

variable [Externals] {P : Path → Node Contents → Prop} {I : World → Prop} {F : CoreError → World → Prop}
  {root : Path} {e : FolderEntry} {offset : Nat} {w v : World} {prepared : PreparedFolderTransfer}

/-- Whatever lies elsewhere is as it was. -/
def KeepsBut (p : Path) (w w' : World) : Prop := ∀ q n, q ≠ p → w.fs.get q = some n → w'.fs.get q = some n

theorem KeepsBut.trans {p : Path} {w' w'' : World} (h : KeepsBut p w w') (h' : KeepsBut p w' w'') :
    KeepsBut p w w'' := fun q n hq hn => h' q n hq (h q n hq hn)

theorem KeepsBut.intact (h : KeepsBut (place root e.path) w v) {f : FolderEntry} (hne : f.path ≠ e.path)
    (hf : f.Intact root w) : f.Intact root v := by
  obtain ⟨c, hc, hwhole⟩ := hf
  exact ⟨c, h _ _ (fun hp => hne (place_inj hp)) hc, hwhole⟩

/-- A file of a folder is open at the offset that was agreed on. -/
structure Opened (P : Path → Node Contents → Prop) (root : Path) (e : FolderEntry) (offset : Nat) (w w' : World) :
    Prop where
  stays : Stays P root w w'
  kept : KeepsBut (place root e.path) w w'
  file : ∃ c, w'.fs.get (place root e.path) = some (.file c) ∧ FileData.size c = offset

theorem place_below (root : Path) (hv : validateFolderRelativePath e.path = .ok ()) : ∃ q, q ≠ [] ∧ place root e.path = q ++ root :=
  ⟨(components e.path).reverse, by simpa using components_ne_nil e.path, place_of_ne (valid_components hv).1⟩

theorem place_ne_nil (root : Path) (hv : validateFolderRelativePath e.path = .ok ()) : place root e.path ≠ [] := by
  rw [place_dropLast root (valid_components hv).1]
  exact List.cons_ne_nil _ _

theorem along_openFolderFile (hp : prepared.stagingPath = root) (hk : e.kind = .file) (hle : offset ≤ e.size)
    (h : Holding P root w.fs) (hI : ∀ v, Stays P root w v → I v)
    (hs : Suits P F root e.path (.file FileData.empty))
    (hawait : 0 < offset → ∃ c, w.fs.get (place root e.path) = some (.file c) ∧ FileData.size c = offset) :
    Along I (fun path v => path = place root e.path ∧ Opened P root e offset w v) F
      (openFolderFile prepared e offset) w := by
  obtain ⟨q, hq, hplace⟩ := place_below root hs.valid
  have hnil := place_ne_nil root hs.valid
  rw [openFolderFile, hp]
  refine along_bind (Q := fun _ v => w = v) (along_throwIf (fun _ => rfl) fun hbad => ?_) ?_
  · rcases hbad with hbad | hbad
    · exact absurd hk hbad
    · omega
  rintro _ _ rfl
  refine along_bind (Q := fun path v => path = place root e.path ∧ w = v) (along_folderEntryPath hs.valid ⟨rfl, rfl⟩) ?_
  rintro _ _ ⟨rfl, rfl⟩
  refine along_bind (along_ensureSafeParentDirectories h hI hs.valid hs.parents) fun _ v hv => ?_
  have hi := hI v hv.stays
  have hreal : v.fs.Real (place root e.path) := by
    rw [place_dropLast root (valid_components hs.valid).1]
    exact Real.child hv.dir _
  have hsame : KeepsBut (place root e.path) w v := fun q n _ hn => hv.kept q n hn
  cases hn : v.fs.get (place root e.path) with
  | none =>
    have hzero : offset = 0 := by
      by_contra hne
      obtain ⟨c, hc, -⟩ := hawait (Nat.pos_of_ne_zero hne)
      cases hn.symm.trans (hv.kept _ _ hc)
    refine along_bind (Q := fun _ v' => v = v') ?_ ?_
    · rw [checkCheckpoint]
      refine along_bind (Q := fun r v' => r = .error .notFound ∧ v = v') (along_attempt_reads trivial
        (stat_locate_absent hreal hnil hn) hi ⟨rfl, rfl⟩) ?_
      rintro _ _ ⟨rfl, rfl⟩
      exact along_throwIf (fun _ => rfl) fun hbad => absurd ⟨rfl, hzero⟩ hbad
    rintro _ _ rfl
    obtain ⟨t, ht, hset⟩ := openAt_new hreal hnil hn (o := { create := true, truncate := offset == 0 }) (.inr rfl)
    have hopened : ∀ v' : World, v'.fs = t → Opened P root e offset w v' := by
      rintro v' rfl
      refine ⟨hv.stays.trans (hv.stays.holding.stays (hplace ▸ hset) hq (hplace ▸ hs.node.1) (.inr ⟨_, rfl⟩)),
        hsame.trans fun q n hq hn => (hset.off hq).trans hn, _, hset.at, hzero.symm⟩
    refine along_bind (Q := fun _ v' => v'.fs = t) (along_fs_done ht fun v' hv' => ⟨hI v' (hopened v' hv').stays, hv'⟩) ?_
    intro _ v' hv'
    exact along_pure ⟨rfl, hopened v' hv'⟩
  | some n =>
    obtain ⟨hn', hkind⟩ := hv.stays.holding.below q hq n (hplace ▸ hn)
    have hlen : 0 < offset → n.stat.len = offset := by
      intro hpos
      obtain ⟨c, hc, hsize⟩ := hawait hpos
      obtain rfl := Option.some.inj (hn.symm.trans (hv.kept _ _ hc))
      exact hsize
    refine along_bind (Q := fun _ v' => v = v' ∧ n.stat.kind = .file) ?_ ?_
    · rw [checkCheckpoint]
      refine along_bind (Q := fun r v' => r = .ok n.stat ∧ v = v') (along_attempt_reads trivial (stat_locate hn) hi
        ⟨rfl, rfl⟩) ?_
      rintro _ _ ⟨rfl, rfl⟩
      refine along_bind (Q := fun _ v' => v = v' ∧ n.stat.kind = .file) (along_throwIf
        (fun hbad => ⟨rfl, not_not.mp hbad⟩) fun hbad => hs.node.2 n (hplace ▸ hn') hbad _ v) ?_
      rintro _ _ ⟨rfl, hfile⟩
      exact along_throwIf (fun _ => ⟨rfl, hfile⟩) fun hbad => absurd (hlen hbad.1) hbad.2
    rintro _ _ ⟨rfl, hfile⟩
    obtain ⟨c, rfl⟩ : ∃ c, n = .file c := by
      rcases hkind with rfl | hc
      · cases hfile
      · exact hc
    by_cases hzero : offset = 0
    · obtain ⟨t, ht, hset⟩ := openAt_over hn hnil (o := { create := true, truncate := offset == 0 }) rfl
        (by simp [hzero])
      have hopened : ∀ v' : World, v'.fs = t → Opened P root e offset w v' := by
        rintro v' rfl
        refine ⟨hv.stays.trans (hv.stays.holding.stays (hplace ▸ hset) hq (hplace ▸ hs.node.1) (.inr ⟨_, rfl⟩)),
          hsame.trans fun q n hq hn => (hset.off hq).trans hn, _, hset.at, hzero.symm⟩
      refine along_bind (Q := fun _ v' => v'.fs = t) (along_fs_done ht fun v' hv' => ⟨hI v' (hopened v' hv').stays, hv'⟩) ?_
      intro _ v' hv'
      exact along_pure ⟨rfl, hopened v' hv'⟩
    · have hopen : (FsOp.openFile (place root e.path) { create := true, truncate := offset == 0 } :
          FsOp Contents Unit).exec v.fs = (.ok (), v.fs) := openAt_there hn rfl (by simp [hzero])
      have hstays : ∀ v' : World, v'.fs = v.fs → Stays P root w v' := fun v' hfs =>
        ⟨hfs ▸ hv.stays.holding, fun q hq => by rw [hfs, hv.stays.off q hq]⟩
      refine along_bind (Q := fun _ v' => v'.fs = v.fs) (along_fs_done hopen fun v' hfs => ⟨hI v' (hstays v' hfs), hfs⟩) ?_
      intro _ v' hfs
      refine along_pure ⟨rfl, hstays v' hfs, hsame.trans fun q n _ hn => by rw [hfs, hn], c, by rw [hfs, hn], ?_⟩
      exact hlen (Nat.pos_of_ne_zero hzero)

/-- A file that is whole is kept, any other is thrown away. -/
theorem along_verifyFolderFile {c : Contents} (hp : prepared.stagingPath = root) (h : Holding P root w.fs)
    (hI : ∀ v, Stays P root w v → I v) (hs : Suits P F root e.path (.file FileData.empty))
    (hfile : w.fs.get (place root e.path) = some (.file c)) (hsize : FileData.size c = e.size)
    (hwrong : c.blake3Hex ≠ e.blake3 → ∀ v, Stays P root w v → KeepsBut (place root e.path) w v →
      v.fs.get (place root e.path) = none → ∀ err, F err v) :
    Along I (fun _ v => Stays P root w v ∧ Extends w v ∧ e.Intact root v) F (verifyFolderFile prepared e) w := by
  obtain ⟨q, hq, hplace⟩ := place_below root hs.valid
  have hnil := place_ne_nil root hs.valid
  rw [verifyFolderFile, hp]
  refine along_bind (Q := fun path v => path = place root e.path ∧ w = v) (along_folderEntryPath hs.valid ⟨rfl, rfl⟩) ?_
  rintro _ _ ⟨rfl, rfl⟩
  refine along_bind (along_ensureSafeParentDirectories h hI hs.valid hs.parents) fun _ v hv => ?_
  have hi := hI v hv.stays
  have hn := hv.kept _ _ hfile
  refine along_bind (Q := fun intact v' => v = v' ∧ (intact = true ↔ c.blake3Hex = e.blake3)) ?_ ?_
  · rw [folderFileIntact]
    refine along_bind (Q := fun m v' => m = (Node.file c).stat ∧ v = v') (along_fs_reads trivial (stat_locate hn) hi
      ⟨rfl, rfl⟩) ?_
    rintro _ _ ⟨rfl, rfl⟩
    have hgood : ¬ ((Node.file c).stat.kind ≠ .file ∨ (Node.file c).stat.len ≠ e.size) := by
      rintro (hbad | hbad)
      · exact hbad rfl
      · exact hbad hsize
    rw [if_neg hgood]
    refine along_bind (Q := fun digest v' => digest = c.blake3Hex ∧ v = v') (along_blake3FileHex hi hn ⟨rfl, rfl⟩) ?_
    rintro _ _ ⟨rfl, rfl⟩
    exact along_pure ⟨rfl, beq_iff_eq⟩
  rintro intact _ ⟨rfl, hintact⟩
  cases intact with
  | true =>
    have hdigest := hintact.mp rfl
    have hset : ((FsOp.setModified (place root e.path) : FsOp Contents Unit).exec v.fs).1 = .ok () := by
      rw [FsOp.exec, stat_resolve hn rfl]
      rfl
    exact along_fs_reads trivial hset hi ⟨hv.stays, hv.kept, c, hn, hsize, hdigest⟩
  | false =>
    have hdigest : c.blake3Hex ≠ e.blake3 := fun he => by cases hintact.mpr he
    refine along_bind (Q := fun _ v' => Sets v.fs v'.fs (place root e.path) none)
      (along_removeIfExists (Real.of_get hn) hnil (by rw [hn]; simp) fun v' hset =>
        ⟨hI v' (hv.stays.trans (hv.stays.holding.stays_unset (hplace ▸ hset) hq)), hset⟩) fun _ v' hset => ?_
    refine along_throw (hwrong hdigest v' (hv.stays.trans (hv.stays.holding.stays_unset (hplace ▸ hset) hq)) ?_ hset.at _)
    exact fun q n hq hn => (hset.off hq).trans (hv.kept q n hn)

theorem Contents.writeAt_toBytes {c : Contents} {n : Nat} (chunk : Bytes) (h : c.toBytes.length = n) :
    (Contents.writeAt n chunk c).toBytes = c.toBytes ++ chunk := by
  subst h
  simp [Contents.writeAt, Contents.toBytes]

variable {m : FolderManifest} {C : FolderEntry → Contents → Prop} {entries : List FolderEntry}

/-- A staged file that grows is still one that may be staged. -/
theorem Filled.stays {start taken : Bytes} (hl : m.Listed) (he : e ∈ m.files)
    (h : Holding (FolderPart m C root) root w.fs) (hf : Filled (place root e.path) start taken w v)
    (hC : ∀ c : Contents, c.toBytes = start ++ taken → C e c) : Stays (FolderPart m C root) root w v := by
  obtain ⟨c, hc, hbytes⟩ := hf.there
  have hsuits := suits_file root (F := fun _ _ => True) hl (fun _ _ _ => trivial) he (hC c hbytes)
  obtain ⟨q, hq, hplace⟩ := place_below root hsuits.valid
  have hset : Sets w.fs v.fs (place root e.path) (some (.file c)) := by
    intro q
    split
    · next hp => rw [hp, hc]
    · next hp => exact hf.off q hp
  exact h.stays (hplace ▸ hset) hq (hplace ▸ hsuits.node.1) (.inr ⟨c, rfl⟩)

/-- What the rest of a stream adds to the files is what may be staged. -/
def Suited (C : FolderEntry → Contents → Prop) : List FolderEntry → Nat → Bytes → Prop
  | [], _, _ => True
  | e :: es, offset, bytes => (∀ c c' : Contents, C e c → FileData.size c = offset → ∀ taken, taken <+: bytes →
      taken.length ≤ e.size - offset → c'.toBytes = c.toBytes ++ taken → C e c') ∧
      Suited C es 0 (bytes.drop (e.size - offset))

/-- How many bytes are missing, if the first of the files is there up to `offset`. -/
def wantedBytes : List FolderEntry → Nat → Nat
  | [], _ => 0
  | e :: es, offset => e.size - offset + wantedBytes es 0

/-- The first of the files is there up to `offset`. -/
def Partway (root : Path) (w : World) (offset : Nat) : List FolderEntry → Prop
  | [] => True
  | e :: _ => offset ≤ e.size ∧
      (0 < offset → ∃ c, w.fs.get (place root e.path) = some (.file c) ∧ FileData.size c = offset)

/-- One of the files was not what its entry tells, and is gone. Those before it are whole. -/
inductive WrongFile (root : Path) (w : World) : List FolderEntry → Nat → Bytes → Prop where
  | here {e : FolderEntry} {es : List FolderEntry} {offset : Nat} {bytes : Bytes} (start : Bytes) (c : Contents)
      (hstart : start.length = offset) (hbytes : c.toBytes = start ++ bytes.take (e.size - offset))
      (hdigest : c.blake3Hex ≠ e.blake3) (hgone : w.fs.get (place root e.path) = none) :
      WrongFile root w (e :: es) offset bytes
  | later {e : FolderEntry} {es : List FolderEntry} {offset : Nat} {bytes : Bytes} (hintact : e.Intact root w)
      (h : WrongFile root w es 0 (bytes.drop (e.size - offset))) : WrongFile root w (e :: es) offset bytes

theorem WrongFile.same {bytes : Bytes} (h : WrongFile root w entries offset bytes) (hfs : v.fs = w.fs) :
    WrongFile root v entries offset bytes := by
  induction h with
  | here start c hstart hbytes hdigest hgone => exact .here start c hstart hbytes hdigest (by rw [hfs, hgone])
  | later hintact _ ih =>
    obtain ⟨c, hc, hwhole⟩ := hintact
    exact .later ⟨c, by rw [hfs, hc], hwhole⟩ ih

/-- The files of a folder are received one after the other, and each is whole before the next. -/
theorem along_receiveFiles {offer : TransferOffer} {already : Nat} {incoming : Incoming}
    (hp : prepared.stagingPath = root) (hl : m.Listed) (hfiles : ∀ e ∈ entries, e ∈ m.files)
    (hnodup : (entries.map FolderEntry.path).Nodup) (h : Holding (FolderPart m C root) root w.fs) (hi : I w)
    (hI : ∀ v, Stays (FolderPart m C root) root w v → I v) (hsame : OfFiles I) (hF : ∀ e, OfFiles (F e))
    (htangled : ¬ m.Spelled → ∀ e w, F e w) (hempty : ∀ e ∈ m.files, C e FileData.empty)
    (hready : Partway root w offset entries) (hsuited : Suited C entries offset incoming.bytes)
    (hshort : ∀ v, incoming.bytes.length < wantedBytes entries offset → ∀ e, F e v)
    (hwrong : ∀ v, WrongFile root v entries offset incoming.bytes → KeepsOff root entries w v → ∀ e, F e v) :
    Along I (fun rest v => Stays (FolderPart m C root) root w v ∧ KeepsOff root entries w v ∧
      (∀ e ∈ entries, e.Intact root v) ∧ ∃ taken, Brought incoming (wantedBytes entries offset) taken rest)
      F (receiveFiles offer prepared entries offset already incoming) w := by
  induction entries generalizing w offset already incoming with
  | nil => exact along_pure ⟨Stays.refl h, fun _ _ _ hn => hn, by simp, [], rfl, rfl, rfl⟩
  | cons e entries ih =>
    have he := hfiles e List.mem_cons_self
    have hk : e.kind = .file := of_decide_eq_true (List.mem_filter.mp he).2
    have hsuits := suits_file root hl htangled he (hempty e he)
    have hnil := place_ne_nil root hsuits.valid
    obtain ⟨hle, hawait⟩ := hready
    obtain ⟨hgrow, hrest⟩ := hsuited
    rw [receiveFiles]
    refine along_bind (along_rejecting (along_openFolderFile hp hk hle h hI hsuits hawait) hi hsame hF) ?_
    rintro _ v ⟨rfl, hv⟩
    obtain ⟨c, hc, hlength⟩ := hv.file
    obtain ⟨q, hq, hplace⟩ := place_below root hsuits.valid
    have hCc : C e c := (hv.stays.holding.below q hq _ (hplace ▸ hc)).1.content e he hplace.symm c rfl
    have hgrown : ∀ {taken v'}, taken <+: incoming.bytes → taken.length ≤ e.size - offset →
        Filled (place root e.path) c.toBytes taken v v' → Stays (FolderPart m C root) root w v' :=
      fun hprefix hless hfilled => hv.stays.trans (hfilled.stays hl he hv.stays.holding fun c' hc' =>
        hgrow c c' hCc hlength _ hprefix hless hc')
    refine along_bind (along_receiveInto (r := receivingEntry offer e (place root e.path) already)
      (fun n chunk c' hn => Contents.writeAt_toBytes chunk hn) hnil ?_ ?_ (filled_start hc)
      (fun taken v' hprefix hless hv' => hI v' (hgrown hprefix hless hv')) fun v' hless hv' => hshort v' ?_) ?_
    · change e.size ≤ offset + (e.size - offset)
      omega
    · rw [List.append_nil]
      exact hlength
    · have hless' : incoming.bytes.length < e.size - offset := hless
      rw [wantedBytes]
      omega
    rintro rest v₁ ⟨taken, hbrought, hfilled⟩
    rw [List.nil_append] at hfilled
    have htaken : taken.length = e.size - offset := hbrought.length
    have hprefix : taken <+: incoming.bytes := ⟨rest.bytes, hbrought.bytes.symm⟩
    have hstays₁ := hgrown hprefix htaken.le hfilled
    obtain ⟨c', hc', hbytes⟩ := hfilled.there
    have htake : taken = incoming.bytes.take (e.size - offset) := by
      rw [hbrought.bytes, ← htaken, List.take_left']
      rfl
    have hdrop : rest.bytes = incoming.bytes.drop (e.size - offset) := by
      rw [hbrought.bytes, ← htaken, List.drop_left']
      rfl
    have hsize : FileData.size c' = e.size := by
      rw [show FileData.size c' = c'.toBytes.length from rfl, hbytes, List.length_append, htaken]
      change FileData.size c + (e.size - offset) = e.size
      omega
    have hkept₁ : KeepsBut (place root e.path) w v₁ := hv.kept.trans fun q n hq hn => (hfilled.off q hq).trans hn
    refine along_bind (Q := fun _ v' => v₁ = v') (along_sync hc' (hI v₁ hstays₁) rfl) ?_
    rintro _ _ rfl
    refine along_bind (along_rejecting (along_verifyFolderFile hp hstays₁.holding
      (fun v' hv' => hI v' (hstays₁.trans hv')) hsuits hc' hsize fun hdigest v' _ hkept hgone => hwrong v'
        (.here c.toBytes c' hlength (htake ▸ hbytes) hdigest hgone) fun q n hoff hn => ?_) (hI v₁ hstays₁) hsame hF) ?_
    · exact hkept q n (hoff e List.mem_cons_self) (hkept₁ q n (hoff e List.mem_cons_self) hn)
    rintro _ v₂ ⟨hstays₂, hextends, hintact⟩
    have hstays := hstays₁.trans hstays₂
    have hoff₂ : ∀ {v₃}, KeepsOff root entries v₂ v₃ → KeepsOff root (e :: entries) w v₃ := fun hkept q n hoff hn =>
      hkept q n (fun f hf => hoff f (List.mem_cons_of_mem _ hf))
        (hextends q n (hkept₁ q n (hoff e List.mem_cons_self) hn))
    have hwhole : ∀ {v₃}, KeepsOff root entries v₂ v₃ → e.Intact root v₃ := by
      intro v₃ hkept
      obtain ⟨d, hd, hmatch⟩ := hintact
      refine ⟨d, hkept _ _ (fun f hf hp => ?_) hd, hmatch⟩
      exact (List.nodup_cons.mp hnodup).1 (place_inj hp ▸ List.mem_map_of_mem hf)
    refine (ih (fun f hf => hfiles f (List.mem_cons_of_mem _ hf))
      (List.nodup_cons.mp hnodup).2 hstays.holding (hI v₂ hstays) (fun v' hv' => hI v' (hstays.trans hv')) ?_
      (hdrop ▸ hrest) (fun v' hless => hshort v' ?_) fun v' hbad hkept => hwrong v' ?_ (hoff₂ hkept)).mono
      (fun _ hi => hi) ?_ fun _ _ hf => hf
    · cases entries with
      | nil => trivial
      | cons f fs => exact ⟨Nat.zero_le _, fun h => absurd h (lt_irrefl _)⟩
    · have htotal := congrArg List.length hbrought.bytes
      rw [List.length_append] at htotal
      rw [wantedBytes]
      omega
    · exact .later (hwhole hkept) (hdrop ▸ hbad)
    · rintro rest' v₃ ⟨hstays₃, hkept, hall, taken', hbrought'⟩
      refine ⟨hstays.trans hstays₃, hoff₂ hkept, List.forall_mem_cons.mpr ⟨hwhole hkept, hall⟩, taken ++ taken', ?_, ?_, ?_⟩
      · rw [hbrought.bytes, hbrought'.bytes, List.append_assoc]
      · rw [List.length_append, hbrought'.length, htaken, wantedBytes]
      · rw [hbrought'.ending, hbrought.ending]

end FolderFiles

section FolderCommit

variable [Externals] {L : Layout} {s : TransferStore} {offer : TransferOffer} {manifest : FolderManifest}
  {d : String} {w v w₀ : World} {I : World → Prop} {F : CoreError → World → Prop} {root : Path}
  {C : FolderEntry → Contents → Prop} {Y : World → Prop} {H : String → World → Prop} {prepared : PreparedFolderTransfer}

theorem along_makeEntries {entries : List FolderEntry} (hl : manifest.Listed)
    (hdirs : ∀ e ∈ entries, e ∈ manifest.directories) (h : Holding (FolderPart manifest C root) root w.fs)
    (hI : ∀ v, Stays (FolderPart manifest C root) root w v → I v) (htangled : ¬ manifest.Spelled → ∀ e w, F e w) :
    Along I (fun _ v => Stays (FolderPart manifest C root) root w v ∧ Extends w v ∧
      ∀ e ∈ entries, v.fs.get (place root e.path) = some .dir) F (createDirectories root entries) w := by
  induction entries generalizing w with
  | nil => exact along_pure ⟨Stays.refl h, Extends.refl w, by simp⟩
  | cons e entries ih =>
    have hsuits := suits_directory root (C := C) hl htangled (hdirs e List.mem_cons_self)
    have hplace := place_dropLast root (valid_components hsuits.valid).1
    have hnode := hsuits.node
    rw [createDirectories]
    refine along_bind (along_ensureSafeParentDirectories h hI hsuits.valid hsuits.parents) fun _ v hv => ?_
    refine along_bind (Q := fun p v' => p = place root e.path ∧ v = v') (along_folderEntryPath hsuits.valid ⟨rfl, rfl⟩) ?_
    rintro _ _ ⟨rfl, rfl⟩
    rw [hplace] at hnode ⊢
    refine along_bind (along_makeDirectory hv.stays.holding (fun v' hv' => hI v' (hv.stays.trans hv')) hv.dir hnode)
      fun _ v' hv' => ?_
    have hstays := hv.stays.trans hv'.stays
    refine (ih (fun f hf => hdirs f (List.mem_cons_of_mem _ hf)) hstays.holding fun v'' hv'' =>
      hI v'' (hstays.trans hv'')).mono (fun _ hi => hi) ?_ fun _ _ hf => hf
    rintro _ v'' ⟨hstays', hextends, hall⟩
    refine ⟨hstays.trans hstays', (hv.kept.trans hv'.kept).trans hextends, List.forall_mem_cons.mpr ⟨?_, hall⟩⟩
    rw [hplace]
    exact hextends _ _ hv'.dir

/-- A folder whose files are whole and whose directories are made is as it is listed. -/
theorem folderAt_staged (hm : manifest.Spelled)
    (h : Holding (FolderPart manifest C root) root w.fs) (hfiles : ∀ e ∈ manifest.files, e.Intact root w)
    (hdirs : ∀ e ∈ manifest.directories, w.fs.get (place root e.path) = some .dir) : FolderAt w root manifest := by
  refine ⟨h.root_dir, fun e he => ?_, fun p hp hget => ?_⟩
  · cases hk : e.kind with
    | file =>
      obtain ⟨c, hc, hwhole⟩ := hfiles e (List.mem_filter.mpr ⟨he, by simp [hk]⟩)
      refine ⟨_, hc, ?_⟩
      simp only [FolderEntry.Is, hk]
      exact ⟨c, rfl, hwhole⟩
    | directory =>
      refine ⟨_, hdirs e (List.mem_filter.mpr ⟨he, by simp [hk]⟩), ?_⟩
      simp only [FolderEntry.Is, hk]
  · obtain ⟨n, hn⟩ := Option.ne_none_iff_exists'.mp hget
    obtain ⟨e, he, hplace, -⟩ := (h.below p hp n hn).1.listed hm
    exact ⟨e, he, hplace⟩

theorem along_applyTimes {entries : List FolderEntry} (hi : I w)
    (hentries : ∀ e ∈ entries, validateFolderRelativePath e.path = .ok () ∧
      ∃ n : Node Contents, w.fs.get (place root e.path) = some n ∧ n.isSymlink = false) :
    Along I (fun _ v => w = v) F (applyTimes root entries) w := by
  induction entries with
  | nil => exact along_pure rfl
  | cons e entries ih =>
    obtain ⟨⟨hvalid, n, hn, hlink⟩, hrest⟩ := List.forall_mem_cons.mp hentries
    rw [applyTimes]
    refine along_bind (Q := fun p v => p = place root e.path ∧ w = v) (along_folderEntryPath hvalid ⟨rfl, rfl⟩) ?_
    rintro _ _ ⟨rfl, rfl⟩
    refine along_bind (Q := fun _ v => w = v) (along_fs_reads trivial (exec_setModified hn hlink) hi rfl) ?_
    rintro _ _ rfl
    exact ih hrest

theorem along_applyManifestTimes (hl : manifest.Listed) (hi : I w) (h : FolderAt w root manifest) :
    Along I (fun _ v => w = v) F (applyManifestTimes root manifest) w := by
  have hentry : ∀ e ∈ manifest.entries, validateFolderRelativePath e.path = .ok () ∧
      ∃ n : Node Contents, w.fs.get (place root e.path) = some n ∧ n.isSymlink = false := by
    intro e he
    obtain ⟨n, hn, his⟩ := h.2.there e he
    refine ⟨hl.path e he, n, hn, ?_⟩
    cases hk : e.kind with
    | directory =>
      simp only [FolderEntry.Is, hk] at his
      rw [his]
      rfl
    | file =>
      simp only [FolderEntry.Is, hk] at his
      obtain ⟨c, rfl, -⟩ := his
      rfl
  rw [applyManifestTimes]
  refine along_bind (Q := fun _ v => w = v) (along_applyTimes hi fun e he => hentry e (List.mem_of_mem_filter he)) ?_
  rintro _ _ rfl
  exact along_applyTimes hi fun e he => hentry e
    (List.mem_of_mem_filter ((List.perm_insertionSort _ _).mem_iff.mp he))

theorem place_append (root : Path) (path : String) : place root path = place [] path ++ root := by
  by_cases hpath : path = ""
  · rw [hpath, place_empty, place_empty, List.nil_append]
  · rw [place_of_ne hpath, place_of_ne hpath, List.append_nil]

/-- A folder that is seen at another place is as it was. -/
theorem FolderAt.moved {src dst : Path} (h : FolderAt w src manifest)
    (hmoved : ∀ q, v.fs.get (q ++ dst) = w.fs.get (q ++ src)) : FolderAt v dst manifest := by
  refine ⟨(hmoved []).trans h.1, fun e he => ?_, fun p hp hget => ?_⟩
  · obtain ⟨n, hn, his⟩ := h.2.there e he
    refine ⟨n, ?_, his⟩
    rw [place_append, hmoved, ← place_append]
    exact hn
  · rw [hmoved] at hget
    obtain ⟨e, he, hplace⟩ := h.2.only p hp hget
    rw [place_append] at hplace
    refine ⟨e, he, ?_⟩
    rw [place_append, List.append_cancel_right hplace]

/-- The destination that is reserved is no place for a folder: something has come to be there. -/
def Obstructed (s : TransferStore) (offer : TransferOffer) (manifest : FolderManifest) (w : World) : Prop :=
  ∃ d, Reserved s offer manifest d w ∧ w.fs.get (d :: s.destinationRoot offer) ≠ none

theorem renameTo_refused {D : Type} [FileData D] {t : FileTree D} {src dst : Path} {n : Node D} (hn : t.get src = some .dir)
    (hd : t.Real dst) (hover : t.get dst = some n) (hdir : n ≠ .dir) :
    t.renameTo src dst = (.error .other, t) := by
  have hne : src ≠ dst := fun he => by
    rw [he, hover] at hn
    exact hdir (Option.some.inj hn)
  have hreplace : t.replaceable (.dir : Node D) dst = false := by
    rw [replaceable]
    split
    · next h => cases hover.symm.trans h
    · next h => exact absurd (Option.some.inj (hover.symm.trans h)) hdir
    · rfl
  simp [renameTo, locate_real (Real.of_get hn), locate_real hd, hn, hne, hreplace]

/-- The rename of a whole folder to its destination. -/
theorem along_moveFolder (hk : offer.kind = .folderV1) (hr : s.destinationRoot offer ∈ L.roots)
    (h : Stage L s offer manifest Y w₀ w) (hreserved : Reserved s offer manifest d w)
    (hname : validateDestinationName d = .ok ()) (hfree : ¬ w.fs.Occupied (d :: s.destinationRoot offer))
    (hat : FolderAt w (s.staging offer) manifest)
    (hH : ∀ v : World, (∀ q, v.fs.get (q ++ d :: s.destinationRoot offer) = w.fs.get (q ++ s.staging offer)) → H d v)
    (hf : Obstructed s offer manifest w → ∀ e, F e w) :
    Along (Delivering L s offer manifest Y H w₀) (fun _ v => Obstructed s offer manifest v ∧ w = v ∨
      Come L s offer manifest H w₀ d v) F
      (moveOnce (s.staging offer) (d :: s.destinationRoot offer)) w := by
  have hs := h.underway.sound
  have hclear := occupied_clear hs hfree (List.cons_ne_nil _ _)
  have hfree₀ : ¬ w₀.fs.Occupied (d :: s.destinationRoot offer) := by
    rwa [FileTree.Occupied, h.frames _ (L.not_inside_destination hr d) fun _ hn => by cases hn] at hfree
  have hd := hs.real_destination hr d
  rw [moveOnce]
  cases hn : w.fs.get (d :: s.destinationRoot offer) with
  | none =>
    have hex := exists?_absent hd (List.cons_ne_nil _ _) hn
    refine along_bind (Q := fun there v => there = false ∧ w = v) (along_fs_reads trivial hex (.inl h) ⟨rfl, rfl⟩) ?_
    rintro _ _ ⟨rfl, rfl⟩
    obtain ⟨t, ht, hget⟩ := renameTo_free hat.1 hd (List.cons_ne_nil _ _) hn
      (not_suffix_destination hr "folder.part") (hclear.not_suffix_state hr "folder.part")
    have hkept : ∀ n : RecordName, t.get (s.stateFile offer n.extension) = s.kept offer n w := by
      intro n
      rw [hget, if_neg (hclear.not_suffix_state hr _), if_neg (not_suffix_statePath (by cases n <;> decide))]
      rfl
    have hsound : L.Sound t := by
      have hdeliver : L.Sound (w.fs.renameTo (s.staging offer) (d :: s.destinationRoot offer)).2 :=
        hs.deliver hr ⟨_, rfl⟩
      rwa [ht] at hdeliver
    refine along_fs_done ht fun v hv => ?_
    subst hv
    have hmoved : ∀ q, v.fs.get (q ++ d :: s.destinationRoot offer) = w.fs.get (q ++ s.staging offer) := by
      intro q
      rw [hget, if_pos (List.suffix_append _ _)]
      simp
    have hlanded : Landed L s offer manifest d v := by
      refine ⟨hsound, hname, hclear, ?_, .inr ((hkept .commit).trans hreserved),
        .inr ⟨(hkept .done).trans h.underway.done, (hkept .commit).trans hreserved⟩,
        h.underway.metadata.imp (hkept .metadata).trans (hkept .metadata).trans,
        h.underway.document.imp (hkept .manifest).trans (hkept .manifest).trans, ?_⟩
      · rw [Delivered, hk]
        exact hat.moved hmoved
      · rw [folder_item hk, hget, if_neg (hclear.not_suffix_state hr _), if_pos List.suffix_rfl]
    have hlanding : Landing L s offer manifest d (some (d :: s.destinationRoot offer)) w₀ v := by
      refine ⟨hlanded, fun q hq hp => ?_⟩
      rw [hget, if_neg (hp _ rfl), if_neg fun hs => hq ((L.owned_statePath hr offer.transferId _).inside.above hs)]
      exact h.frames q hq fun _ hn => by cases hn
    exact ⟨.inr ⟨d, hfree₀, hlanding, hH v hmoved⟩, .inr ⟨hfree₀, hlanding, hH v hmoved⟩⟩
  | some n =>
    have hobstructed : Obstructed s offer manifest w := ⟨d, hreserved, by rw [hn]; simp⟩
    refine along_bind (Q := fun _ v => w = v) (along_of_reads (reads_fs trivial) (.inl h) (fun _ _ => rfl)
      fun e _ => hf hobstructed e) ?_
    rintro there _ rfl
    cases there with
    | true => exact along_pure (.inl ⟨hobstructed, rfl⟩)
    | false =>
      have hdir : n ≠ .dir := fun hd => hfree (.inl (hd ▸ hn))
      exact along_fs_failed (renameTo_refused hat.1 hd hn hdir) (.inl h) (hf hobstructed _)

/-- Under the commit lock a whole folder comes to its destination, and its records are put in order. -/
theorem along_commitFolder {size : Nat} (hk : offer.kind = .folderV1) (hm : manifest.validate = .ok size)
    (hid : StateId offer.transferId) (hr : s.destinationRoot offer ∈ L.roots) (hY : OfItem s offer Y)
    (hp : prepared.stagingPath = s.staging offer) (h : Stage L s offer manifest Y w₀ w)
    (hat : FolderAt w (s.staging offer) manifest) (hdest : OfDestination L s offer H)
    (hH : ∀ d (v : World), (∀ q, v.fs.get (q ++ d :: s.destinationRoot offer) = w.fs.get (q ++ s.staging offer)) → H d v)
    (hunnamed : Unnamed s offer w → ∀ e, F e w)
    (hobstructed : ∀ v, Stage L s offer manifest Y w₀ v → Obstructed s offer manifest v → ∀ e, F e v) :
    Along (Delivering L s offer manifest Y H w₀) (fun completed v => ∃ d,
      completed = ⟨offer.receipt, d :: s.destinationRoot offer⟩ ∧ Come L s offer manifest H w₀ d v) F
      (s.commitFolder offer manifest prepared) w := by
  have hrecorded : recordedManifest offer manifest = some manifest := by rw [recordedManifest, hk]
  have hwhole : OfItem s offer fun v => Y v ∧ ∀ q, v.fs.get (q ++ s.staging offer) = w.fs.get (q ++ s.staging offer) := by
    refine fun v v' hsame hv => ⟨hY v v' hsame hv.1, fun q => (hsame _ ?_).trans (hv.2 q)⟩
    rw [folder_item hk]
    exact List.suffix_append _ _
  have hcommit := along_commitRecord (F := F) hid hr hwhole ⟨h.underway, ⟨h.item, fun _ => rfl⟩, h.frames⟩ hunnamed
  rw [hrecorded] at hcommit
  rw [commitFolder, s.paths_eq hid, hp]
  refine along_bind (hcommit.mono (fun v hv => .inl ⟨hv.underway, hv.item.1, hv.frames⟩) (fun _ _ hq => hq)
    fun _ _ hf => hf) ?_
  rintro _ v ⟨d, rfl, hstage, hreserved, hname, hfree⟩
  have hstage' : Stage L s offer manifest Y w₀ v := ⟨hstage.underway, hstage.item.1, hstage.frames⟩
  refine along_bind (along_moveFolder hk hr hstage' hreserved hname hfree (hat.moved hstage.item.2)
    (fun v' hmoved => hH d v' fun q => (hmoved q).trans (hstage.item.2 q)) (hobstructed v hstage')) ?_
  rintro _ v' (⟨hb, rfl⟩ | hcome)
  · obtain ⟨e, he⟩ := eval_validateFolderContents_free
      (hstage.underway.sound.real_destination hr d) (List.cons_ne_nil _ _) hfree
    refine along_bind (Q := fun _ _ => False) (along_of_reads (reads_validateFolderContents _ _) (.inl hstage')
      (fun u hu => ?_) fun e _ => hobstructed v hstage' hb e) fun _ _ hc => hc.elim
    cases he.symm.trans hu
  have hlanded := hcome.landing.landed
  have hi : Delivering L s offer manifest Y H w₀ v' := .inr ⟨d, hcome⟩
  have hfolder := hlanded.folder hk
  have hcheck := hfolder.check hm (List.cons_ne_nil _ _) (hlanded.sound.real_destination hr d)
  refine along_bind (Q := fun _ v => v' = v) (along_of_reads (reads_validateFolderContents _ _) hi
    (fun _ _ => rfl) fun e he => by cases hcheck.symm.trans he) ?_
  rintro _ _ rfl
  refine along_bind (Q := fun _ v => v' = v) (along_fs_reads trivial (exec_setModified hfolder.1 rfl) hi rfl) ?_
  rintro _ _ rfl
  -- from here on the store only tidies up in its state directory
  have hsettle : ∀ v, Landing L s offer manifest d none v' v → Delivering L s offer manifest Y H w₀ v := fun v hv =>
    .inr ⟨d, hcome.settle hdest hv⟩
  have hrecord := along_recordDone (F := F) hr hid (⟨hlanded, .refl _ _⟩ : Landing L s offer manifest d none v' v')
  rw [doneRecord, hrecorded] at hrecord
  refine along_bind (hrecord.mono hsettle (fun _ _ hq => hq) fun _ _ hf => hf) ?_
  rintro _ v ⟨hv, hdone⟩
  rw [← hrecorded] at hdone
  refine along_bind ((along_removeLeft hr hv hdone (by decide) hv.landed.metadata.not_dir).mono hsettle
    (fun _ _ hq => hq) fun _ _ hf => hf) ?_
  rintro _ v ⟨hv, hdone⟩
  refine along_bind ((along_removeLeft hr hv hdone (by decide) hv.landed.document.not_dir).mono hsettle
    (fun _ _ hq => hq) fun _ _ hf => hf) ?_
  rintro _ v ⟨hv, hdone⟩
  refine along_bind ((along_removeLeft hr hv hdone (by decide) hv.landed.commit_not_dir).mono hsettle
    (fun _ _ hq => hq) fun _ _ hf => hf) ?_
  rintro _ v ⟨hv, -⟩
  exact along_pure ⟨d, rfl, hcome.settle hdest hv⟩

/-- Each file of the folder at the destination is one that may be staged. -/
def FolderHeld (s : TransferStore) (offer : TransferOffer) (manifest : FolderManifest)
    (C : FolderEntry → Contents → Prop) (d : String) (w : World) : Prop :=
  ∀ e ∈ manifest.files, ∃ c, C e c ∧ w.fs.get (place (d :: s.destinationRoot offer) e.path) = some (.file c)

theorem ofDestination_folder (hr : s.destinationRoot offer ∈ L.roots) :
    OfDestination L s offer (FolderHeld s offer manifest C) := by
  intro d v v' hclear hframes hheld e he
  obtain ⟨c, hC, hat⟩ := hheld e he
  have hout : ¬ L.Inside (place (d :: s.destinationRoot offer) e.path) :=
    hclear.not_inside (L.not_inside_destination hr d) (suffix_place _ _)
  exact ⟨c, hC, (hframes _ hout fun _ hn => by cases hn).trans hat⟩

theorem along_finalizeFolder {size : Nat} (hk : offer.kind = .folderV1) (hvm : manifest.validateOffer offer = .ok ())
    (hm : manifest.validate = .ok size) (hid : StateId offer.transferId) (hr : s.destinationRoot offer ∈ L.roots)
    (hp : prepared.stagingPath = s.staging offer)
    (h : Stage L s offer manifest (Staged s offer (FolderPart manifest C (s.staging offer))) w₀ w)
    (hholding : Holding (FolderPart manifest C (s.staging offer)) (s.staging offer) w.fs)
    (hall : ∀ e ∈ manifest.files, e.Intact (s.staging offer) w)
    (htangled : ¬ manifest.Spelled → ∀ e w, F e w)
    (hunnamed : ∀ v, Stage L s offer manifest (Staged s offer (FolderPart manifest C (s.staging offer))) w₀ v →
      Unnamed s offer v → ∀ e, F e v)
    (hobstructed : ∀ v, Stage L s offer manifest (Staged s offer (FolderPart manifest C (s.staging offer))) w₀ v →
      Obstructed s offer manifest v → ∀ e, F e v) (hF : ∀ e, OfFiles (F e)) :
    Along (Delivering L s offer manifest (Staged s offer (FolderPart manifest C (s.staging offer)))
        (FolderHeld s offer manifest C) w₀)
      (fun completed v => ∃ d, completed = ⟨offer.receipt, d :: s.destinationRoot offer⟩ ∧
        Come L s offer manifest (FolderHeld s offer manifest C) w₀ d v) F
      (s.finalizeFolder offer manifest prepared) w := by
  have hl := (FolderManifest.validate_ok hm).1
  have hY : OfItem s offer (Staged s offer (FolderPart manifest C (s.staging offer))) := ofItem_staged hk
  rw [finalizeFolder, hp]
  refine along_bind (Q := fun _ v => w = v) (along_lift (fun _ _ => rfl) fun e he => by cases hvm.symm.trans he) ?_
  rintro _ _ rfl
  refine along_bind (Q := fun _ v => Stays (FolderPart manifest C (s.staging offer)) (s.staging offer) w v ∧
    Extends w v ∧ ∀ e ∈ manifest.directories, v.fs.get (place (s.staging offer) e.path) = some .dir) ?_ ?_
  · rw [createManifestDirectories]
    refine along_bind (Q := fun _ v => w = v) (along_ensureDirectoryExists (.inl h) hholding.root_dir (fun _ => rfl)
      fun hd => absurd rfl hd) ?_
    rintro _ _ rfl
    exact along_makeEntries hl (fun e he => he) hholding (fun v hv => .inl (hv.stage hk hr h)) htangled
  rintro _ v ⟨hstays, hextends, hdirs⟩
  have hstage := hstays.stage hk hr h
  have hreal : v.fs.Real (s.staging offer) := Real.of_get hstays.holding.root_dir
  have hwhole : ∀ e ∈ manifest.files, e.Intact (s.staging offer) v := fun e he => by
    obtain ⟨c, hc, hmatch⟩ := hall e he
    exact ⟨c, hextends _ _ hc, hmatch⟩
  have hcheck := eval_validateFolderContents hm (statePath_ne_nil _) (FolderPart.named hstays.holding) hreal
  refine along_bind (Q := fun _ v' => FolderAt v (s.staging offer) manifest ∧ v = v')
    (along_of_reads (reads_validateFolderContents _ _) (.inl hstage) (fun _ hok => ⟨hcheck.mp hok, rfl⟩) fun e he => ?_) ?_
  · by_cases hm : manifest.Spelled
    · cases (hcheck.mpr (folderAt_staged hm hstays.holding hwhole hdirs)).symm.trans he
    · exact htangled hm e v
  rintro _ _ ⟨hat, rfl⟩
  refine along_bind (along_applyManifestTimes hl (.inl hstage) hat) ?_
  rintro _ _ rfl
  have hdest : OfDestination L s offer (FolderHeld s offer manifest C) := ofDestination_folder hr
  refine along_withLock _ (fun v v' hfs => Delivering.same hr hY hdest hfs) ?_ (fun e v v' hfs => hF e v v' hfs)
    (.inl hstage) fun v' hfs => ?_
  · rintro _ v v' hfs - ⟨d, rfl, hcome⟩
    exact ⟨d, rfl, hcome.same hr hdest hfs⟩
  · have hat' : FolderAt v' (s.staging offer) manifest := hat.congr fun q _ => by rw [hfs]
    refine along_commitFolder hk hm hid hr hY hp (hstage.same hr hY hfs) hat' hdest (fun d v'' hmoved e he => ?_)
      (hunnamed v' (hstage.same hr hY hfs)) hobstructed
    obtain ⟨c, hc, -⟩ := hwhole e he
    obtain ⟨q, hq, hplace⟩ := place_below (s.staging offer) (hl.path e (List.mem_of_mem_filter he))
    refine ⟨c, (hstays.holding.below q hq _ (hplace ▸ hc)).1.content e he hplace.symm c rfl, ?_⟩
    rw [place_append, hmoved, ← place_append, hfs]
    exact hc

/-! A whole stream. -/

def PreparedFolderTransfer.response (prepared : PreparedFolderTransfer) : TransferResponse :=
  .folderResume prepared.fileIndex prepared.offset prepared.completed

/-- The files that are still asked for. -/
def PreparedFolderTransfer.rest (prepared : PreparedFolderTransfer) (manifest : FolderManifest) : List FolderEntry :=
  manifest.files.drop prepared.fileIndex

/-- What is prepared is a position among the files. -/
abbrev PreparedFolderTransfer.Placed (prepared : PreparedFolderTransfer) (manifest : FolderManifest) : Prop :=
  Position manifest.files prepared.fileIndex prepared.offset prepared.completed

theorem PreparedFolderTransfer.Placed.le_size (h : prepared.Placed manifest) {e : FolderEntry} {entries : List FolderEntry}
    (hrest : prepared.rest manifest = e :: entries) : prepared.offset ≤ e.size := by
  have hwithin := h.within
  rw [PreparedFolderTransfer.rest] at hrest
  rwa [hrest] at hwithin

/-- The preparation of a stream that went on with what was there at `w`. -/
structure WentOn (L : Layout) (s : TransferStore) (offer : TransferOffer) (manifest : FolderManifest)
    (P : Path → Node Contents → Prop) (w₀ w : World) (prepared : PreparedFolderTransfer) : Prop where
  resumed : ∃ u, ResumedFolder L s offer manifest P w₀ prepared u ∧
    (s.kept offer .metadata w ≠ none → Continues manifest (s.staging offer) w u)

/-- Why a stream may end without the folder at its destination. -/
inductive FolderSetback (L : Layout) (s : TransferStore) (offer : TransferOffer) (manifest : FolderManifest)
    (P : Path → Node Contents → Prop) (peer : Peer) (w₀ w v : World) : Prop where
  | tangled (h : ¬ manifest.Spelled)
  | orphaned (h : Orphaned s offer w)
  | blocked (h : Blocked s offer manifest w)
  | unnamed (hstage : Stage L s offer manifest (Staged s offer P) w₀ v) (h : Unnamed s offer v)
  | obstructed (hstage : Stage L s offer manifest (Staged s offer P) w₀ v) (h : Obstructed s offer manifest v)
  | broken (prepared : PreparedFolderTransfer) (hprepared : WentOn L s offer manifest P w₀ w prepared)
      (h : ¬ (peer prepared.response).Whole (wantedBytes (prepared.rest manifest) prepared.offset))
  | wrong (prepared : PreparedFolderTransfer) (hprepared : WentOn L s offer manifest P w₀ w prepared)
      (hmetadata : s.kept offer .metadata v ≠ none) (hdocument : s.kept offer .manifest v ≠ none)
      (hintact : ∀ e ∈ manifest.files.take prepared.fileIndex, e.Intact (s.staging offer) v)
      (h : WrongFile (s.staging offer) v (prepared.rest manifest) prepared.offset (peer prepared.response).bytes)

theorem Obstructed.same {v v' : World} (hfs : v'.fs = v.fs) (h : Obstructed s offer manifest v) :
    Obstructed s offer manifest v' := by
  obtain ⟨d, hd, hn⟩ := h
  refine ⟨d, ?_, by rwa [hfs]⟩
  rw [Reserved, TransferStore.kept, World.record, hfs]
  exact hd

theorem FolderEntry.Intact.same {e : FolderEntry} {v v' : World} (hfs : v'.fs = v.fs) (h : e.Intact root v) :
    e.Intact root v' := by
  obtain ⟨c, hc, hmatch⟩ := h
  exact ⟨c, by rw [hfs, hc], hmatch⟩

theorem FolderSetback.same {P : Path → Node Contents → Prop} {peer : Peer} {v' : World} (hk : offer.kind = .folderV1)
    (hr : s.destinationRoot offer ∈ L.roots) (hfs : v'.fs = v.fs)
    (h : FolderSetback L s offer manifest P peer w₀ w v) : FolderSetback L s offer manifest P peer w₀ w v' := by
  cases h with
  | tangled h => exact .tangled h
  | orphaned h => exact .orphaned h
  | blocked h => exact .blocked h
  | unnamed hstage h => exact .unnamed (hstage.same hr (ofItem_staged hk) hfs) (h.same hfs)
  | obstructed hstage h => exact .obstructed (hstage.same hr (ofItem_staged hk) hfs) (h.same hfs)
  | broken prepared hprepared h => exact .broken prepared hprepared h
  | wrong prepared hprepared hmetadata hdocument hintact h =>
    refine .wrong prepared hprepared ?_ ?_ (fun e he => (hintact e he).same hfs) (h.same hfs)
    · rw [TransferStore.kept, World.record, hfs]
      exact hmetadata
    · rw [TransferStore.kept, World.record, hfs]
      exact hdocument

theorem kept_same {w' : World} (hfs : w'.fs = w.fs) (n : RecordName) : s.kept offer n w' = s.kept offer n w := by
  rw [TransferStore.kept, World.record, hfs]
  rfl

theorem WentOn.same {P : Path → Node Contents → Prop} {w' : World} (hfs : w'.fs = w.fs)
    (h : WentOn L s offer manifest P w₀ w' prepared) : WentOn L s offer manifest P w₀ w prepared := by
  obtain ⟨u, hresumed, hcontinues⟩ := h
  refine ⟨u, hresumed, fun hn => ?_⟩
  have hgo := hcontinues (by rwa [kept_same hfs])
  refine ⟨fun e he hintact => hgo.intact e he (hintact.same hfs), fun q hq c hc => ?_⟩
  rw [← hfs]
  exact hgo.older q hq c hc

/-- Where a stream begins, only the files matter. -/
theorem FolderSetback.began {P : Path → Node Contents → Prop} {peer : Peer} {w' : World} (hfs : w'.fs = w.fs)
    (h : FolderSetback L s offer manifest P peer w₀ w' v) : FolderSetback L s offer manifest P peer w₀ w v := by
  cases h with
  | tangled h => exact .tangled h
  | orphaned h => exact .orphaned ⟨kept_same hfs .metadata ▸ h.1, kept_same hfs .manifest ▸ h.2⟩
  | blocked h => exact .blocked (h.same hfs.symm)
  | unnamed hstage h => exact .unnamed hstage h
  | obstructed hstage h => exact .obstructed hstage h
  | broken prepared hprepared h => exact .broken prepared (hprepared.same hfs) h
  | wrong prepared hprepared hmetadata hdocument hintact h =>
    exact .wrong prepared (hprepared.same hfs) hmetadata hdocument hintact h

theorem Awaited.partway {entries : List FolderEntry} {offset : Nat} (h : Awaited root w offset entries) :
    Partway root w offset entries := by
  cases entries with
  | nil => trivial
  | cons e entries =>
    rcases h with ⟨-, rfl⟩ | ⟨c, hc, hsize, hless⟩
    · exact ⟨Nat.zero_le _, fun hpos => absurd hpos (lt_irrefl _)⟩
    · exact ⟨hless.le, fun _ => ⟨c, hc, hsize⟩⟩

theorem Awaited.le_sum {entries : List FolderEntry} {offset : Nat} (h : Awaited root w offset entries) :
    offset ≤ (entries.map FolderEntry.size).sum := by
  cases entries with
  | nil => exact (show offset = 0 from h).le
  | cons e entries =>
    rw [List.map_cons, List.sum_cons]
    rcases h with ⟨-, rfl⟩ | ⟨c, -, -, hless⟩
    · exact Nat.zero_le _
    · omega

/-- A position splits the files into those that are whole and those that are still asked for. -/
theorem Resumes.split (h : Resumes root manifest.files 0 0 prepared w) :
    manifest.files.take prepared.fileIndex ++ prepared.rest manifest = manifest.files ∧
      prepared.fileIndex ≤ manifest.files.length ∧
      (∀ e ∈ manifest.files.take prepared.fileIndex, e.Intact root w) ∧
      Awaited root w prepared.offset (prepared.rest manifest) ∧
      prepared.completed + prepared.offset ≤ (manifest.files.map FolderEntry.size).sum := by
  obtain ⟨-, before, after, hfiles, hindex, hcompleted, hintact, hawaited⟩ := h
  have hlength : prepared.fileIndex = before.length := by omega
  have htake : manifest.files.take prepared.fileIndex = before := by rw [hfiles, hlength, List.take_left']; rfl
  have hrest : prepared.rest manifest = after := by
    rw [PreparedFolderTransfer.rest, hfiles, hlength, List.drop_left']
    rfl
  have hle := hawaited.le_sum
  rw [htake, hrest]
  refine ⟨hfiles.symm, ?_, hintact, hawaited, ?_⟩
  · rw [hfiles, List.length_append]
    omega
  · rw [hfiles, List.map_append, List.sum_append]
    omega

theorem Resumes.placed (h : Resumes root manifest.files 0 0 prepared w) : prepared.Placed manifest := by
  obtain ⟨-, before, after, hfiles, hindex, hcompleted, -, hawaited⟩ := h
  have hlength : prepared.fileIndex = before.length := by omega
  refine ⟨?_, ?_, ?_⟩
  · rw [hlength, hfiles, List.length_append]
    omega
  · rw [hlength, hfiles, List.take_left, hcompleted, Nat.zero_add]
  · rw [hlength, hfiles, List.drop_left]
    cases after with
    | nil => exact (show prepared.offset = 0 from hawaited).le
    | cons e after => exact hawaited.partway.1

/-- A stream that ends without the folder at its destination tells why, and what it leaves is still
underway. -/
theorem along_handleFolderStream {size : Nat} {peer : Peer} (hv : offer.validate = .ok ()) (hk : offer.kind = .folderV1)
    (hvm : manifest.validateOffer offer = .ok ()) (hm : manifest.validate = .ok size)
    (hr : s.destinationRoot offer ∈ L.roots)
    (h : Stage L s offer manifest (Staged s offer (FolderPart manifest C (s.staging offer))) w₀ w)
    (hempty : ∀ e ∈ manifest.files, C e FileData.empty)
    (hsize : ∀ e ∈ manifest.files, ∀ c, C e c → FileData.size c ≤ e.size)
    (hsuited : ∀ prepared : PreparedFolderTransfer, prepared.Placed manifest →
      Suited C (prepared.rest manifest) prepared.offset (peer prepared.response).bytes) :
    Along (Delivering L s offer manifest (Staged s offer (FolderPart manifest C (s.staging offer)))
        (FolderHeld s offer manifest C) w₀)
      (fun _ v => (∃ d, Come L s offer manifest (FolderHeld s offer manifest C) w₀ d v) ∧
        v.answered.getLast? = some (.complete offer.receipt))
      (fun _ v => FolderSetback L s offer manifest (FolderPart manifest C (s.staging offer)) peer w₀ w v)
      (s.handleFolderStream offer manifest peer) w := by
  have hid : StateId offer.transferId := stateId_of_parseUuid (offer.validate_parseUuid hv)
  have hl := (FolderManifest.validate_ok hm).1
  have hY : OfItem s offer (Staged s offer (FolderPart manifest C (s.staging offer))) := ofItem_staged hk
  have hdest : OfDestination L s offer (FolderHeld s offer manifest C) := ofDestination_folder hr
  have hI : OfFiles (Delivering L s offer manifest (Staged s offer (FolderPart manifest C (s.staging offer)))
      (FolderHeld s offer manifest C) w₀) := fun v v' hfs => Delivering.same hr hY hdest hfs
  have hF : ∀ _ : CoreError, OfFiles (FolderSetback L s offer manifest (FolderPart manifest C (s.staging offer)) peer
      w₀ w) := fun _ v v' hfs hf => hf.same hk hr hfs
  have htangled : ¬ manifest.Spelled → ∀ (_ : CoreError) (v : World),
      FolderSetback L s offer manifest (FolderPart manifest C (s.staging offer)) peer w₀ w v := fun hm _ _ => .tangled hm
  rw [handleFolderStream]
  refine along_bind (along_rejecting ((along_prepareFolder_underway hv hk hvm hm hr h hempty hsize htangled
    (fun ho _ => .orphaned ho) fun hb _ => .blocked hb).mono (fun _ hi => .inl hi) (fun _ _ hq => hq) fun _ _ hf => hf)
    (.inl h) hI hF) ?_
  rintro _ u ⟨prepared, rfl, hresumed, hcontinues⟩
  obtain ⟨hsplit, hindex, hbefore, hawaited, hsum⟩ := hresumed.position.split
  have hprepared : WentOn L s offer manifest (FolderPart manifest C (s.staging offer)) w₀ w prepared :=
    ⟨u, hresumed, hcontinues⟩
  have hcount : manifest.files.length ≤ maxFolderEntries :=
    (List.length_filter_le _ _).trans (FolderManifest.validate_length hm)
  have hmax : maxFolderEntries < 2 ^ 32 := by decide
  have hadd : checkedAdd prepared.completed prepared.offset = some (prepared.completed + prepared.offset) := by
    have htotal := sum_files_le hl
    exact if_pos (by omega)
  have hi : ∀ {v : World}, v.fs = u.fs → Delivering L s offer manifest
      (Staged s offer (FolderPart manifest C (s.staging offer))) (FolderHeld s offer manifest C) w₀ v := fun hfs =>
    .inl (hresumed.stage.same hr hY hfs)
  refine along_bind (Q := fun _ v => u = v) (along_rejecting (along_throwIf (fun _ => rfl) fun hbad =>
    absurd hindex (Nat.not_le.mpr hbad)) (hi rfl) hI hF) ?_
  rintro _ _ rfl
  refine along_bind (Q := fun _ v => u = v) (along_throwIf (fun _ => rfl) fun hbad => by omega) ?_
  rintro _ _ rfl
  refine along_bind (Q := fun _ v => v.fs = u.fs) (along_respond fun v hfs _ => ⟨hi hfs, hfs⟩) ?_
  intro _ v₁ hfs₁
  rw [hadd]
  refine along_bind (Q := fun _ v => v.fs = u.fs) (along_emit fun v hfs => ⟨hi (hfs.trans hfs₁), hfs.trans hfs₁⟩) ?_
  intro _ v₂ hfs₂
  have hstage₂ := hresumed.stage.same hr hY hfs₂
  have hholding₂ : Holding (FolderPart manifest C (s.staging offer)) (s.staging offer) v₂.fs := hfs₂ ▸ hresumed.holding
  have hready : Partway (s.staging offer) v₂ prepared.offset (prepared.rest manifest) := by
    have hthere := hawaited.partway
    cases hrest : prepared.rest manifest with
    | nil => trivial
    | cons e entries =>
      rw [hrest] at hthere
      exact ⟨hthere.1, fun hpos => by rw [hfs₂]; exact hthere.2 hpos⟩
  have hplaced : prepared.Placed manifest := hresumed.position.placed
  have hnodup := nodup_files hl
  rw [← hsplit, List.map_append, List.nodup_append] at hnodup
  -- the files received lie beside those that were whole
  have hkept : ∀ {v}, KeepsOff (s.staging offer) (prepared.rest manifest) v₂ v →
      ∀ e ∈ manifest.files.take prepared.fileIndex, e.Intact (s.staging offer) v := by
    intro v hoff e he
    obtain ⟨c, hc, hmatch⟩ := hbefore e he
    refine ⟨c, hoff _ _ (fun f hf hp => ?_) (by rw [hfs₂, hc]), hmatch⟩
    exact hnodup.2.2 _ (List.mem_map_of_mem he) _ (List.mem_map_of_mem hf) (place_inj hp)
  have hrecord : ∀ {v} (n : RecordName), KeepsOff (s.staging offer) (prepared.rest manifest) v₂ v →
      s.kept offer n u ≠ none → s.kept offer n v ≠ none := by
    intro v n hoff hn
    obtain ⟨node, hnode⟩ := Option.ne_none_iff_exists'.mp hn
    have hthere := hoff (s.stateFile offer n.extension) node (fun e _ hp => ?_) (by rw [hfs₂]; exact hnode)
    · exact fun hnone => by cases hnone.symm.trans hthere
    · exact not_suffix_statePath (a := "folder.part") (b := n.extension) (by cases n <;> decide)
        (hp ▸ suffix_place _ _)
  have hbroken : ∀ v, ¬ (peer prepared.response).Whole (wantedBytes (prepared.rest manifest) prepared.offset) →
      FolderSetback L s offer manifest (FolderPart manifest C (s.staging offer)) peer w₀ w v := fun v hb =>
    .broken prepared hprepared hb
  refine along_bind (along_receiveFiles (C := C) hresumed.position.1 hl (fun e he => List.mem_of_mem_drop he) hnodup.2.1
    hholding₂ (.inl hstage₂) (fun v hv' => .inl (hv'.stage hk hr hstage₂)) hI hF htangled hempty hready
    (hsuited prepared hplaced) (fun v hless _ => hbroken v fun hwhole => ?_) fun v hbad hoff _ => ?_) ?_
  · have hlength := hwhole.1
    change (peer prepared.response).bytes.length < wantedBytes (prepared.rest manifest) prepared.offset at hless
    omega
  · exact .wrong prepared hprepared (hrecord .metadata hoff (by rw [hresumed.metadata]; simp))
      (hrecord .manifest hoff (by rw [hresumed.document]; simp)) (hkept hoff) hbad
  rintro rest v₃ ⟨hstays, hoff, hwhole, taken, hbrought⟩
  have hstage₃ := hstays.stage hk hr hstage₂
  have hall : ∀ e ∈ manifest.files, e.Intact (s.staging offer) v₃ := by
    intro e he
    rw [← hsplit] at he
    exact (List.mem_append.mp he).elim (hkept hoff e) (hwhole e)
  refine along_bind (Q := fun extra v => rest.read 1 = .ok extra ∧ v₃ = v) (along_lift (fun _ hx => ⟨hx, rfl⟩)
    fun e he => hbroken v₃ fun hpeer => by cases he.symm.trans (hpeer.read hbrought 1)) ?_
  rintro extra _ ⟨hextra, rfl⟩
  refine along_bind (Q := fun _ v => v₃ = v) (along_rejecting (along_throwIf (fun _ => rfl) fun hsome =>
    hbroken v₃ fun hpeer => ?_) (.inl hstage₃) hI hF) ?_
  · obtain rfl := Except.ok.inj (hextra.symm.trans (hpeer.read hbrought 1))
    cases hsome
  rintro _ _ rfl
  refine along_bind (along_rejecting (along_finalizeFolder hk hvm hm hid hr hresumed.position.1 hstage₃ hstays.holding
    hall htangled (fun v hv hu _ => .unnamed hv hu) (fun v hv hb _ => .obstructed hv hb) hF) (.inl hstage₃) hI hF) ?_
  rintro _ v₄ ⟨d, rfl, hcome⟩
  have hdone : ∀ v : World, v.fs = v₄.fs → Delivering L s offer manifest
      (Staged s offer (FolderPart manifest C (s.staging offer))) (FolderHeld s offer manifest C) w₀ v := fun v hfs =>
    .inr ⟨d, hcome.same hr hdest hfs⟩
  refine along_bind (Q := fun _ v => v.fs = v₄.fs) (along_emit fun v hfs => ⟨hdone v hfs, hfs⟩) ?_
  intro _ v₅ hfs₅
  exact along_respond fun v hfs hlast => ⟨hdone v (hfs.trans hfs₅), ⟨d, hcome.same hr hdest (hfs.trans hfs₅)⟩,
    by rw [hlast, List.getLast?_concat]⟩

end FolderCommit

end InkHole
