import InkHole.Resumption

/-! Whatever has become of a transfer before, two streams that bring the item in full deliver it: the
first clears away what is wrong, and the second needs nothing of it. -/

set_option linter.unusedSectionVars false

namespace InkHole

open InkHole.CoreM Fallible FileTree TransferStore FolderManifest

section Thorough

variable [Externals] {L : Layout} {s : TransferStore} {offer : TransferOffer} {manifest : FolderManifest}
  {content : Option FolderEntry → Bytes} {received : Except CoreError FolderManifest} {peer : Peer} {d : String}
  {made : List Path} {root : Path} {w v w₀ : World}

/-- A peer sends its item from where it is asked to, to the end. -/
structure Thorough (offer : TransferOffer) (manifest : FolderManifest) (content : Option FolderEntry → Bytes)
    (peer : Peer) : Prop where
  file : offer.kind = .file → ∀ offset ≤ offer.size, (peer (.resume offset)).bytes = (content none).drop offset ∧
    (peer (.resume offset)).ending = .finished
  folder : offer.kind = .folderV1 → ∀ prepared : PreparedFolderTransfer, prepared.Placed manifest →
    (peer prepared.response).bytes = (joined content (prepared.rest manifest)).drop prepared.offset ∧
      (peer prepared.response).ending = .finished

/-- The item is the one that was offered. -/
structure Genuine (offer : TransferOffer) (manifest : FolderManifest) (content : Option FolderEntry → Bytes) : Prop
    extends Fitting offer manifest content where
  digest : offer.kind = .file → Externals.blake3Hex (content none) = offer.blake3
  digests : ∀ e ∈ manifest.files, Externals.blake3Hex (content (some e)) = e.blake3

theorem Thorough.honest (h : Thorough offer manifest content peer) : Honest offer manifest content peer :=
  ⟨fun hk offset hle => (h.file hk offset hle).1 ▸ List.prefix_rfl, fun hk prepared hplaced =>
    (h.folder hk prepared hplaced).1 ▸ List.prefix_rfl⟩

/-! The bytes asked for. -/

theorem length_joined {entries : List FolderEntry} {offset : Nat}
    (hsize : ∀ e ∈ entries, (content (some e)).length = e.size) (hplaced : ∀ e es, entries = e :: es → offset ≤ e.size) :
    ((joined content entries).drop offset).length = wantedBytes entries offset := by
  induction entries generalizing offset with
  | nil => simp [joined, wantedBytes]
  | cons e entries ih =>
    have he := hsize e List.mem_cons_self
    have hle := hplaced e entries rfl
    have hrest := ih (fun f hf => hsize f (List.mem_cons_of_mem _ hf)) fun _ _ _ => Nat.zero_le _
    rw [List.drop_zero] at hrest
    have hjoined : joined content (e :: entries) = content (some e) ++ joined content entries := List.flatMap_cons
    rw [hjoined, wantedBytes, List.length_drop, List.length_append, hrest, he]
    omega

/-- Of what a thorough peer sends only a file that was begun before can be wrong. -/
theorem WrongFile.begun {entries : List FolderEntry} {offset : Nat} {bytes : Bytes}
    (h : WrongFile root v entries offset bytes) (hsize : ∀ e ∈ entries, (content (some e)).length = e.size)
    (hdigest : ∀ e ∈ entries, Externals.blake3Hex (content (some e)) = e.blake3)
    (hplaced : ∀ e es, entries = e :: es → offset ≤ e.size) (hbytes : bytes = (joined content entries).drop offset) :
    0 < offset ∧ ∃ e es, entries = e :: es ∧ v.fs.get (place root e.path) = none := by
  induction h with
  | @here e es offset bytes start c hstart hc hwrong hgone =>
    refine ⟨Nat.pos_of_ne_zero fun hzero => hwrong ?_, e, es, rfl, hgone⟩
    subst hzero
    obtain rfl := List.eq_nil_of_length_eq_zero hstart
    have hjoined : joined content (e :: es) = content (some e) ++ joined content es := List.flatMap_cons
    rw [hbytes, hjoined, List.drop_zero, List.nil_append, Nat.sub_zero, ← hsize e List.mem_cons_self,
      List.take_left' rfl] at hc
    rw [Contents.blake3Hex, hc]
    exact hdigest e List.mem_cons_self
  | @later e es offset bytes hintact h ih =>
    have hle := hplaced e es rfl
    have hjoined : joined content (e :: es) = content (some e) ++ joined content es := List.flatMap_cons
    refine absurd (ih (fun f hf => hsize f (List.mem_cons_of_mem _ hf)) (fun f hf => hdigest f (List.mem_cons_of_mem _ hf))
      (fun _ _ _ => Nat.zero_le _) ?_).1 (lt_irrefl _)
    rw [hbytes, hjoined, List.drop_drop, Nat.add_sub_of_le hle, ← hsize e List.mem_cons_self, List.drop_left' rfl,
      List.drop_zero]

theorem WentOn.placed {P : Path → Node Contents → Prop} {prepared : PreparedFolderTransfer}
    (h : WentOn L s offer manifest P w₀ w prepared) : prepared.Placed manifest := by
  obtain ⟨u, hresumed, -⟩ := h
  exact hresumed.position.placed

theorem Thorough.whole {P : Path → Node Contents → Prop} {prepared : PreparedFolderTransfer}
    (h : Thorough offer manifest content peer) (hfit : Fitting offer manifest content) (hk : offer.kind = .folderV1)
    (hprepared : WentOn L s offer manifest P w₀ w prepared) :
    (peer prepared.response).Whole (wantedBytes (prepared.rest manifest) prepared.offset) := by
  have hsends := h.folder hk prepared hprepared.placed
  refine ⟨?_, hsends.2⟩
  rw [hsends.1]
  exact length_joined (fun e he => hfit.entry e (List.mem_of_mem_drop he)) fun _ _ => hprepared.placed.le_size

/-! A root with room keeps nothing from its destination. -/

theorem Underway.vacant (h : Underway L s offer manifest w) (hroom : Roomy (s.destinationRoot offer) w)
    (hd : Reserved s offer manifest d w) : w.fs.get (d :: s.destinationRoot offer) = none := by
  rcases h.commit with hn | ⟨d', hd', -, hfree⟩
  · cases hn.symm.trans hd
  obtain rfl := hd.inj hd'
  cases hn : w.fs.get (d :: s.destinationRoot offer) with
  | none => rfl
  | some n =>
    rcases hroom.plain d n hn with rfl | ⟨c, rfl⟩
    · exact absurd (.inl hn) hfree
    · exact absurd (.inr ⟨c, hn⟩) hfree

theorem Roomy.not_blocked (hroom : Roomy (s.destinationRoot offer) w) (hr : s.destinationRoot offer ∈ L.roots)
    (h : Underway L s offer manifest w) : ¬ Blocked s offer manifest w := by
  rintro ⟨d, hd, hblocked⟩
  exact hblocked (exists?_absent (h.sound.real_destination hr d) (List.cons_ne_nil _ _) (h.vacant hroom hd))

theorem Roomy.not_obstructed (hroom : Roomy (s.destinationRoot offer) w)
    (h : Underway L s offer manifest w) : ¬ Obstructed s offer manifest w := by
  rintro ⟨d, hd, hthere⟩
  exact hthere (h.vacant hroom hd)

theorem Roomy.not_unnamed (hroom : Roomy (s.destinationRoot offer) w) (hr : s.destinationRoot offer ∈ L.roots)
    (h : Underway L s offer manifest w) : ¬ Unnamed s offer w := by
  rintro ⟨-, e, he⟩
  obtain ⟨name, hname⟩ := hroom.finds (h.sound.real_destination hr) (StoredOffer.of offer).filename
  cases hname.symm.trans he

theorem Layout.Frames.roomy (h : L.Frames none w v) (hr : root ∈ L.roots) (hroom : Roomy root w) : Roomy root v :=
  hroom.same fun name => h _ (L.not_inside_destination hr name) fun _ hn => by cases hn

/-! What the first stream leaves. -/

/-- Nothing is wrong any more with what a next stream goes on with. -/
structure Mended (L : Layout) (s : TransferStore) (offer : TransferOffer) (manifest : FolderManifest) (w : World) :
    Prop where
  part : offer.kind = .file → w.fs.get (s.stateFile offer "part") = none
  documents : offer.kind = .folderV1 → ¬ Orphaned s offer w
  begun : offer.kind = .folderV1 → ∀ w₀ prepared,
    WentOn L s offer manifest (s.staged offer manifest (.any offer)) w₀ w prepared → prepared.offset = 0

/-- The files before the first that is not whole are whole, and it is gone: it is asked for from its start. -/
theorem WentOn.from_start {P : Path → Node Contents → Prop} {prepared : PreparedFolderTransfer} {i : Nat}
    {e : FolderEntry} {es : List FolderEntry} (hmetadata : s.kept offer .metadata w ≠ none)
    (hpaths : ∀ e ∈ manifest.files, e.path ≠ "") (hintact : ∀ f ∈ manifest.files.take i, f.Intact (s.staging offer) w)
    (hrest : manifest.files.drop i = e :: es) (hgone : w.fs.get (place (s.staging offer) e.path) = none)
    (h : WentOn L s offer manifest P w₀ w prepared) : prepared.offset = 0 := by
  obtain ⟨u, hresumed, hcontinues⟩ := h
  obtain ⟨-, -, hbefore, hawaited, -⟩ := hresumed.position.split
  have hgo := hcontinues hmetadata
  have hold : ∀ f ∈ manifest.files, ∀ c, u.fs.get (place (s.staging offer) f.path) = some (.file c) →
      w.fs.get (place (s.staging offer) f.path) = some (.file c) := by
    intro f hf c hc
    have hplace : place (s.staging offer) f.path = _ := place_of_ne (hpaths f hf)
    rw [hplace] at hc ⊢
    exact hgo.older _ (by simpa using components_ne_nil f.path) c hc
  have he : manifest.files[i]? = some e := by
    rw [← List.head?_drop, hrest]
    rfl
  cases hprepared : prepared.rest manifest with
  | nil =>
    rw [hprepared] at hawaited
    exact hawaited
  | cons f fs =>
    rw [hprepared] at hawaited
    rcases hawaited with ⟨-, hzero⟩ | ⟨c, hc, hsize, hless⟩
    · exact hzero
    have hf : manifest.files[prepared.fileIndex]? = some f := by
      rw [← List.head?_drop, show manifest.files.drop prepared.fileIndex = f :: fs from hprepared]
      rfl
    have hfile := hold f (List.mem_of_getElem? hf) c hc
    rcases Nat.lt_trichotomy prepared.fileIndex i with hlt | heq | hgt
    · obtain ⟨c', hc', hwhole, -⟩ := hintact f (List.mem_of_getElem? (by rw [List.getElem?_take_of_lt hlt]; exact hf))
      obtain rfl := Node.file.inj (Option.some.inj (hfile.symm.trans hc'))
      omega
    · rw [heq, he] at hf
      obtain rfl := Option.some.inj hf
      cases hgone.symm.trans hfile
    · obtain ⟨c', hc', -⟩ := hbefore e (List.mem_of_getElem? (by rw [List.getElem?_take_of_lt hgt]; exact he))
      cases hgone.symm.trans (hold e (List.mem_of_getElem? he) c' hc')

theorem Thorough.whole_file (h : Thorough offer manifest content peer) (hfit : Fitting offer manifest content)
    (hk : offer.kind = .file) {offset : Nat} (hle : offset ≤ offer.size) :
    (peer (.resume offset)).Whole (offer.size - offset) := by
  have hsends := h.file hk offset hle
  refine ⟨?_, hsends.2⟩
  rw [hsends.1, List.length_drop, hfit.file hk]

/-- What a stream in full leaves if it ends in an error. -/
theorem Setback.mended (hr : s.destinationRoot offer ∈ L.roots) (hpeer : Thorough offer manifest content peer)
    (hgenuine : Genuine offer manifest content) (haccepts : Accepts offer received)
    (hpaths : offer.kind = .folderV1 → ∀ e ∈ manifest.files, e.path ≠ "")
    (hfolder : offer.kind = .folderV1 → manifest.Spelled ∧ ¬ Orphaned s offer w) (hw : Underway L s offer manifest w)
    (hroom : Roomy (s.destinationRoot offer) w)
    (h : Setback L s offer manifest (.any offer) received peer w w v) : Mended L s offer manifest v := by
  cases h with
  | refused h => exact absurd haccepts h
  | file hk hstage h =>
    have hroom' := hstage.frames.roomy hr hroom
    refine ⟨fun _ => ?_, fun hf => (by cases hk.symm.trans hf), fun hf => (by cases hk.symm.trans hf)⟩
    cases h with
    | blocked h => exact absurd h (hroom'.not_blocked hr hstage.underway)
    | unnamed h => exact absurd h (hroom'.not_unnamed hr hstage.underway)
    | wrong c _ _ _ h => exact h.part
    | broken c hC h => exact absurd (hpeer.whole_file hgenuine.toFitting hk hC) h
  | folder hk h =>
    obtain ⟨hspelled, horphan⟩ := hfolder hk
    cases h with
    | tangled h => exact absurd hspelled h
    | orphaned h => exact absurd h horphan
    | blocked h => exact absurd h (hroom.not_blocked hr hw)
    | unnamed hstage h => exact absurd h ((hstage.frames.roomy hr hroom).not_unnamed hr hstage.underway)
    | obstructed hstage h => exact absurd h ((hstage.frames.roomy hr hroom).not_obstructed hstage.underway)
    | broken prepared hprepared h => exact absurd (hpeer.whole hgenuine.toFitting hk hprepared) h
    | wrong prepared hprepared hmetadata hdocument hintact h =>
      obtain ⟨-, e, es, hrest, hgone⟩ := h.begun
        (fun e he => hgenuine.entry e (List.mem_of_mem_drop he)) (fun e he => hgenuine.digests e (List.mem_of_mem_drop he))
        (fun _ _ => hprepared.placed.le_size) (hpeer.folder hk prepared hprepared.placed).1
      exact ⟨fun hf => (by cases hk.symm.trans hf), fun _ ho => hdocument ho.2, fun _ u prepared' hprepared' =>
        hprepared'.from_start hmetadata (hpaths hk) hintact hrest hgone⟩

/-- The item is at a destination, and nothing is left to do. -/
def Concluded (L : Layout) (s : TransferStore) (offer : TransferOffer) (manifest : FolderManifest) (w : World) : Prop :=
  ∃ d, Landing L s offer manifest d none w w

/-- A stream in full either delivers the item or clears away what is wrong. -/
theorem along_thorough (hr : s.destinationRoot offer ∈ L.roots) (hpeer : Thorough offer manifest content peer)
    (hgenuine : Genuine offer manifest content) (haccepts : Accepts offer received)
    (hagrees : Agrees offer manifest received) (hpaths : offer.kind = .folderV1 → ∀ e ∈ manifest.files, e.path ≠ "")
    (hfolder : offer.kind = .folderV1 → manifest.Spelled ∧ ¬ Orphaned s offer w)
    (hroom : Roomy (s.destinationRoot offer) w)
    (h : Stage L s offer manifest (Gathered s offer manifest (.any offer)) w w) :
    Along (fun _ => True) (fun _ v => Concluded L s offer manifest v) (fun _ v => Concluded L s offer manifest v ∨
      Stage L s offer manifest (Gathered s offer manifest (.any offer)) w v ∧ Mended L s offer manifest v)
      (s.handleStream offer received peer) w := by
  refine ((along_handleStream_underway hr measured_any (feeds_any peer) hagrees h).closed (.inl h)).mono
    (fun _ _ => trivial) ?_ ?_
  · rintro _ v ⟨⟨⟨d, hcome⟩, -⟩, -⟩
    exact ⟨d, hcome.landing.rebase⟩
  · rintro _ v ⟨hsetback, hstage | ⟨d, hcome⟩⟩
    · exact .inr ⟨hstage, hsetback.mended hr hpeer hgenuine haccepts hpaths hfolder h.underway hroom⟩
    · exact .inl ⟨d, hcome.landing.rebase⟩

/-- Where nothing is wrong a stream in full delivers the item, and its sender is told so. -/
theorem along_thorough_mended (hr : s.destinationRoot offer ∈ L.roots) (hpeer : Thorough offer manifest content peer)
    (hgenuine : Genuine offer manifest content) (haccepts : Accepts offer received)
    (hagrees : Agrees offer manifest received) (hspelled : offer.kind = .folderV1 → manifest.Spelled)
    (hroom : Roomy (s.destinationRoot offer) w) (hmended : Mended L s offer manifest w)
    (h : Stage L s offer manifest (Gathered s offer manifest (.any offer)) w w) :
    Along (fun _ => True) (fun _ v => Concluded L s offer manifest v ∧
        v.answered.getLast? = some (.complete offer.receipt)) (fun _ _ => False)
      (s.handleStream offer received peer) w := by
  have hunder := h.underway
  cases hk : offer.kind with
  | file =>
    have hstage : Stage L s offer manifest (Gathered s offer manifest (.of content)) w w := by
      refine ⟨h.underway, ?_, h.frames⟩
      rw [gathered_file hk]
      exact .inl (hmended.part hk)
    refine (along_handleStream_underway hr (measured_of hgenuine.toFitting) (feeds_of hgenuine.toFitting hpeer.honest)
      hagrees hstage).mono (fun _ _ => trivial) ?_ ?_
    · rintro _ v ⟨⟨d, hcome⟩, hlast⟩
      exact ⟨⟨d, hcome.landing.rebase⟩, hlast⟩
    · intro _ v hsetback
      cases hsetback with
      | refused h => exact h haccepts
      | folder hf => cases hk.symm.trans hf
      | file _ hv h =>
        have hroom' := hv.frames.roomy hr hroom
        cases h with
        | blocked h => exact hroom'.not_blocked hr hv.underway h
        | unnamed h => exact hroom'.not_unnamed hr hv.underway h
        | wrong c hC hsize hdigest _ =>
          have hwhole : c.toBytes = content none :=
            List.IsPrefix.eq_of_length hC (hsize.trans (hgenuine.file hk).symm)
          refine hdigest ?_
          rw [Contents.blake3Hex, hwhole]
          exact hgenuine.digest hk
        | broken c hC h =>
          have hle : FileData.size c ≤ offer.size := hgenuine.file hk ▸ List.IsPrefix.length_le hC
          exact h (hpeer.whole_file hgenuine.toFitting hk hle)
  | folderV1 =>
    refine (along_handleStream_underway hr measured_any (feeds_any peer) hagrees h).mono (fun _ _ => trivial) ?_ ?_
    · rintro _ v ⟨⟨d, hcome⟩, hlast⟩
      exact ⟨⟨d, hcome.landing.rebase⟩, hlast⟩
    · intro _ v hsetback
      cases hsetback with
      | refused h => exact h haccepts
      | file hf => cases hk.symm.trans hf
      | folder _ h =>
        cases h with
        | tangled h => exact h (hspelled hk)
        | orphaned h => exact hmended.documents hk h
        | blocked h => exact hroom.not_blocked hr hunder h
        | unnamed hv h => exact (hv.frames.roomy hr hroom).not_unnamed hr hv.underway h
        | obstructed hv h => exact (hv.frames.roomy hr hroom).not_obstructed hv.underway h
        | broken prepared hprepared h => exact h (hpeer.whole hgenuine.toFitting hk hprepared)
        | wrong prepared hprepared hmetadata hdocument hintact h =>
          have hbegun := h.begun (fun e he => hgenuine.entry e (List.mem_of_mem_drop he))
            (fun e he => hgenuine.digests e (List.mem_of_mem_drop he)) (fun _ _ => hprepared.placed.le_size)
            (hpeer.folder hk prepared hprepared.placed).1
          have hzero := hmended.begun hk w prepared hprepared
          omega

theorem ofFiles_concluded (hr : s.destinationRoot offer ∈ L.roots) : OfFiles (Concluded L s offer manifest) := by
  rintro v v' hfs ⟨d, h⟩
  exact ⟨d, (h.same hr hfs).rebase⟩

theorem ofFiles_thorough (hr : s.destinationRoot offer ∈ L.roots) : OfFiles fun v => Concluded L s offer manifest v ∨
    Stage L s offer manifest (Gathered s offer manifest (.any offer)) w v ∧ Mended L s offer manifest v := by
  intro v v' hfs h
  refine h.imp (ofFiles_concluded hr v v' hfs) fun ⟨hstage, hmended⟩ => ⟨hstage.same hr ofItem_gathered hfs, ?_⟩
  refine ⟨fun hk => by rw [hfs, hmended.part hk], fun hk ho => hmended.documents hk (ho.same fun _ => by rw [hfs]), ?_⟩
  exact fun hk w₀ prepared hprepared => hmended.begun hk w₀ prepared (hprepared.same hfs)

/-- The world that a whole stream leaves. -/
def TransferStore.served (s : TransferStore) (offer : TransferOffer) (received : Except CoreError FolderManifest)
    (peer : Peer) (w : World) : World := ((s.serveStream offer received peer).run w).2

/-- A stream for an item that is at its destination tells its sender so. -/
theorem Concluded.along (hr : s.destinationRoot offer ∈ L.roots) (haccepts : Accepts offer received)
    (hagrees : Agrees offer manifest received) (h : Concluded L s offer manifest w) (peer : Peer) :
    Along (fun _ => True) (fun _ v => Concluded L s offer manifest v ∧
        v.answered.getLast? = some (.complete offer.receipt)) (fun _ _ => False)
      (s.handleStream offer received peer) w := by
  obtain ⟨d, h⟩ := h
  refine ((along_handleStream_landed peer hr hagrees h).closed h).mono (fun _ _ => trivial) ?_ ?_
  · rintro _ v ⟨hlast, hlanding⟩
    exact ⟨⟨d, hlanding.rebase⟩, hlast⟩
  · rintro _ v ⟨hrefused, -⟩
    exact hrefused haccepts

/-- The task of a stream that cannot end in an error. -/
theorem served_of_along {Q : Unit → World → Prop}
    (h : Along (fun _ => True) Q (fun _ _ => False) (s.handleStream offer received peer) w) :
    ∃ u, Q u (s.served offer received peer w) :=
  (along_serveStream (fun _ _ _ _ => trivial) (fun _ _ _ _ hf => hf) trivial h).run.elim id fun ⟨_, hf⟩ => hf.elim

theorem accepted_manifest (haccepts : Accepts offer received) (hagrees : Agrees offer manifest received)
    (hk : offer.kind = .folderV1) : manifest.validateOffer offer = .ok () := by
  obtain ⟨m, hm, hvm⟩ := haccepts.2 hk
  exact hagrees m hm hvm ▸ hvm

/-- After a stream that brings the item in full, a second one delivers it, if it was not delivered before. -/
theorem Attempts.along_second (hr : s.destinationRoot offer ∈ L.roots) (hs : L.Sound w₀.fs)
    (hfresh : ∀ q, L.Owned offer.transferId q → w₀.fs.get q = none)
    (h : Attempts (fun _ => True) L s offer manifest w₀ made w) (hgenuine : Genuine offer manifest content)
    (haccepts : Accepts offer received) (hagrees : Agrees offer manifest received)
    (hroom : Roomy (s.destinationRoot offer) w)
    (hfolder : offer.kind = .folderV1 → manifest.Spelled ∧ ¬ Orphaned s offer w) {first second : Peer}
    (hfirst : Thorough offer manifest content first) (hsecond : Thorough offer manifest content second) :
    Along (fun _ => True) (fun _ v => Concluded L s offer manifest v ∧
        v.answered.getLast? = some (.complete offer.receipt)) (fun _ _ => False)
      (s.handleStream offer received second) (s.served offer received first w) := by
  have hpaths : offer.kind = .folderV1 → ∀ e ∈ manifest.files, e.path ≠ "" := fun hk e he => by
    obtain ⟨size, hvalid⟩ := validate_of_offer (accepted_manifest haccepts hagrees hk)
    exact (validate_ok hvalid).1.path_ne (List.mem_of_mem_filter he)
  have hresting := h.resting hr (measured_any) (fun peer _ => feeds_any peer) (resting_fresh hr hs hfresh)
  cases hresting with
  | landed d hlanding _ =>
    have hdone : Concluded L s offer manifest w := ⟨d, hlanding⟩
    obtain ⟨_, hserved, -⟩ := served_of_along (hdone.along hr haccepts hagrees first)
    exact hserved.along hr haccepts hagrees second
  | underway hstage =>
    have hserve := along_serveStream (fun _ _ _ _ => trivial) (fun _ => ofFiles_thorough hr) trivial
      (along_thorough hr hfirst hgenuine haccepts hagrees hpaths hfolder hroom hstage)
    have hafter : Concluded L s offer manifest (s.served offer received first w) ∨
        Stage L s offer manifest (Gathered s offer manifest (.any offer)) w (s.served offer received first w) ∧
          Mended L s offer manifest (s.served offer received first w) :=
      hserve.run.elim (fun ⟨_, hdone⟩ => .inl hdone) fun ⟨_, hleft⟩ => hleft
    rcases hafter with hdone | ⟨hleft, hmended⟩
    · exact hdone.along hr haccepts hagrees second
    · exact along_thorough_mended hr hsecond hgenuine haccepts hagrees (fun hk => (hfolder hk).1)
        (hleft.frames.roomy hr hroom) hmended hleft.rebase

end Thorough

attribute [local instance] Sample.externals

namespace Sample

theorem roomy {w : World} (h : ∀ e ∈ w.fs.entries, e.2.stat.kind = .dir ∨ e.2.stat.kind = .file)
    (hfew : w.fs.entries.length < 2 ^ 32 - 2) (root : Path) : Roomy root w := by
  have hmem : ∀ {p n}, w.fs.get p = some n → (p, n) ∈ w.fs.entries := by
    intro p n hn
    obtain ⟨before, after, he, -⟩ := List.lookup_eq_some_iff.mp hn
    rw [he]
    exact List.mem_append_right _ List.mem_cons_self
  refine ⟨fun name n hn => ?_, w.fs.entries.map fun e => e.1.headD "", by rwa [List.length_map], fun name hn => ?_⟩
  · have hkind := h _ (hmem hn)
    cases n with
    | dir => exact .inl rfl
    | file c => exact .inr ⟨c, rfl⟩
    | _ => rcases hkind with hk | hk <;> cases hk
  · obtain ⟨n, hn⟩ := Option.ne_none_iff_exists'.mp hn
    exact List.mem_map.mpr ⟨_, hmem hn, rfl⟩

theorem thorough_first : Thorough first ⟨1, []⟩ script (sender ⟨1, []⟩ script 9) := by
  refine ⟨fun _ offset _ => ⟨List.take_of_length_le ?_, rfl⟩, fun hk => by cases hk⟩
  rw [List.length_drop]
  exact (Nat.sub_le _ _).trans (by decide)

theorem genuine_first : Genuine first ⟨1, []⟩ script :=
  ⟨⟨fun _ => rfl, by simp [FolderManifest.files]⟩, fun _ => rfl, by simp [FolderManifest.files]⟩

end Sample

end InkHole
