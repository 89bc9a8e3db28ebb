import InkHole.Agreement
import InkHole.Streams

/-! The attempts of a sender at one transfer, each cut off after any number of calls, and what others do
between two of them: however often it is sent, an item is delivered once. -/

set_option linter.unusedSectionVars false

namespace InkHole

open InkHole.CoreM Fallible FileTree TransferStore FolderManifest

section Attempts

variable [Externals] {L : Layout} {s : TransferStore} {offer : TransferOffer} {manifest : FolderManifest}
  {C : Receivable} {received : Except CoreError FolderManifest} {peer : Peer} {A : Peer → Prop} {d : String}
  {made new : List Path} {w w' w₀ : World} {p : Option Path}

/-- The items that have come to the destination roots, each listed once. -/
structure Appear (L : Layout) (w w' : World) (new : List Path) : Prop where
  nodup : new.Nodup
  mem : ∀ q, q ∈ new ↔ (∃ name, ∃ r ∈ L.roots, q = name :: r) ∧ ¬ w.fs.Occupied q ∧ w'.fs.Occupied q

/-- Others work beside a transfer: they leave its state alone, the destination that it has reserved and
what it has delivered. -/
structure Beside (L : Layout) (s : TransferStore) (offer : TransferOffer) (manifest : FolderManifest)
    (made : List Path) (w w' : World) : Prop where
  sound : L.Sound w'.fs
  owned : ∀ q, L.Owned offer.transferId q → w'.fs.get q = w.fs.get q
  reserved : ∀ d, Reserved s offer manifest d w → ∀ q, d :: s.destinationRoot offer <:+ q → w'.fs.get q = w.fs.get q
  made : ∀ p ∈ made, ∀ q, p <:+ q → w'.fs.get q = w.fs.get q

/-- The worlds that the attempts at one transfer lead to, and what they have made. An attempt is a whole
stream of a peer, or what comes of it when the server stops after `n` calls. -/
inductive Attempts (A : Peer → Prop) (L : Layout) (s : TransferStore) (offer : TransferOffer)
    (manifest : FolderManifest) (w₀ : World) : List Path → World → Prop where
  | start : Attempts A L s offer manifest w₀ [] w₀
  | attempt {made new : List Path} {w : World} (received : Except CoreError FolderManifest) (peer : Peer) (n : Nat)
      (h : Attempts A L s offer manifest w₀ made w) (hagrees : Agrees offer manifest received) (hpeer : A peer)
      (hnew : Appear L w ((s.serveStream offer received peer).runFor n w) new) :
      Attempts A L s offer manifest w₀ (made ++ new) ((s.serveStream offer received peer).runFor n w)
  | beside {made : List Path} {w w' : World} (h : Attempts A L s offer manifest w₀ made w)
      (hbeside : Beside L s offer manifest made w w') : Attempts A L s offer manifest w₀ made w'

/-- Between two attempts nothing is made and the transfer is underway, or its item is where it was made. -/
inductive Resting (L : Layout) (s : TransferStore) (offer : TransferOffer) (manifest : FolderManifest)
    (C : Receivable) (w : World) : List Path → Prop where
  | underway (h : Stage L s offer manifest (Gathered s offer manifest C) w w) : Resting L s offer manifest C w []
  | landed (d : String) (h : Landing L s offer manifest d none w w) (hheld : HeldAs s offer manifest C d w) :
    Resting L s offer manifest C w [d :: s.destinationRoot offer]

/-- What appears can always be listed. -/
theorem exists_appear (L : Layout) (w w' : World) : ∃ new, Appear L w w' new := by
  classical
  let appears : Path → Prop := fun q =>
    (∃ name, ∃ r ∈ L.roots, q = name :: r) ∧ ¬ w.fs.Occupied q ∧ w'.fs.Occupied q
  refine ⟨((w'.fs.entries.map Prod.fst).dedup).filter fun q => decide (appears q),
    (List.nodup_dedup _).filter _, fun q => ?_⟩
  rw [List.mem_filter, List.mem_dedup, decide_eq_true_iff]
  refine ⟨fun h => h.2, fun h => ⟨?_, h⟩⟩
  obtain ⟨n, hn⟩ : ∃ n, w'.fs.get q = some n := h.2.2.elim (fun hd => ⟨_, hd⟩) fun ⟨c, hc⟩ => ⟨_, hc⟩
  obtain ⟨e, he, hq⟩ := List.lookup_isSome_iff.mp (Option.isSome_of_eq_some hn)
  exact List.mem_map.mpr ⟨e, he, (beq_iff_eq.mp hq).symm⟩

theorem eq_singleton {q : Path} (hn : new.Nodup) (h : ∀ p, p ∈ new ↔ p = q) : new = [q] :=
  List.perm_singleton.mp ((List.perm_ext_iff_of_nodup hn (List.nodup_singleton q)).mpr fun p => by
    rw [h, List.mem_singleton])

theorem Layout.Frames.appear_none (h : L.Frames none w w') (hnew : Appear L w w' new) : new = [] := by
  refine List.eq_nil_iff_forall_not_mem.mpr fun q hq => ?_
  obtain ⟨⟨name, r, hr, rfl⟩, hfree, hthere⟩ := (hnew.mem q).mp hq
  rw [FileTree.Occupied, h _ (L.not_inside_destination hr name) fun _ hn => by cases hn] at hthere
  exact hfree hthere

theorem Landed.occupied (h : Landed L s offer manifest d w) : w.fs.Occupied (d :: s.destinationRoot offer) := by
  have hthere := h.there
  rw [Delivered] at hthere
  cases hk : offer.kind with
  | file =>
    rw [hk] at hthere
    obtain ⟨c, hc, -⟩ := hthere
    exact .inr ⟨c, hc⟩
  | folderV1 =>
    rw [hk] at hthere
    exact .inl hthere.1

/-- Nothing but the item has come. -/
theorem Come.appear {H : String → World → Prop} (hr : s.destinationRoot offer ∈ L.roots)
    (h : Come L s offer manifest H w d w') (hnew : Appear L w w' new) : new = [d :: s.destinationRoot offer] := by
  refine eq_singleton hnew.nodup fun q => (hnew.mem q).trans ⟨?_, ?_⟩
  · rintro ⟨⟨name, r, hr', rfl⟩, hfree, hthere⟩
    by_contra hne
    have hoff : ¬ d :: s.destinationRoot offer <:+ name :: r := by
      intro hs
      rcases List.suffix_cons_iff.mp hs with he | hs
      · exact hne he.symm
      · exact h.landing.landed.clear r hr' (hs.trans (List.suffix_cons _ _))
    rw [FileTree.Occupied, h.landing.frames _ (L.not_inside_destination hr' name) fun _ hp => Option.some.inj hp ▸ hoff]
      at hthere
    exact hfree hthere
  · rintro rfl
    exact ⟨⟨d, _, hr, rfl⟩, h.free, h.landing.landed.occupied⟩

theorem Stage.rebase {Y : World → Prop} (h : Stage L s offer manifest Y w₀ w) : Stage L s offer manifest Y w w :=
  ⟨h.underway, h.item, .refl _ _⟩

theorem Landing.rebase (h : Landing L s offer manifest d p w₀ w) : Landing L s offer manifest d none w w :=
  ⟨h.landed, .refl _ _⟩

/-- A stream that comes to a destination has made its item, any other has made nothing. -/
theorem Delivering.resting (hr : s.destinationRoot offer ∈ L.roots)
    (h : Delivering L s offer manifest (Gathered s offer manifest C) (HeldAs s offer manifest C) w w')
    (hnew : Appear L w w' new) : Resting L s offer manifest C w' new := by
  rcases h with hstage | ⟨d, hcome⟩
  · rw [hstage.frames.appear_none hnew]
    exact .underway hstage.rebase
  · rw [hcome.appear hr hnew]
    exact .landed d hcome.landing.rebase hcome.held

/-- An item that was made stays where it is. -/
theorem Landing.resting (hr : s.destinationRoot offer ∈ L.roots) (h : Landing L s offer manifest d none w w')
    (hheld : HeldAs s offer manifest C d w) (hnew : Appear L w w' new) :
    Resting L s offer manifest C w' ([d :: s.destinationRoot offer] ++ new) := by
  rw [h.frames.appear_none hnew, List.append_nil]
  exact .landed d h.rebase (ofDestination_heldAs hr d w w' h.landed.clear h.frames hheld)

theorem Stage.serve (hr : s.destinationRoot offer ∈ L.roots) (hC : Measured offer manifest C)
    (hpeer : Feeds offer manifest C peer) (hagrees : Agrees offer manifest received)
    (h : Stage L s offer manifest (Gathered s offer manifest C) w w) (n : Nat) :
    Delivering L s offer manifest (Gathered s offer manifest C) (HeldAs s offer manifest C) w
      ((s.serveStream offer received peer).runFor n w) := by
  have hI : OfFiles (Delivering L s offer manifest (Gathered s offer manifest C) (HeldAs s offer manifest C) w) :=
    fun _ _ hfs => Delivering.same hr ofItem_gathered (ofDestination_heldAs hr) hfs
  exact (along_serveStream hI (fun _ v v' hfs hf => hf.same hr hfs) (.inl h)
    (along_handleStream_underway hr hC hpeer hagrees h)).runFor (.inl h) n

theorem Landing.serve (hr : s.destinationRoot offer ∈ L.roots) (hagrees : Agrees offer manifest received)
    (h : Landing L s offer manifest d none w w) (n : Nat) :
    Landing L s offer manifest d none w ((s.serveStream offer received peer).runFor n w) :=
  (along_serveStream (fun _ _ hfs => Landing.same hr hfs) (fun _ _ _ _ hf => hf) h
    (along_handleStream_landed peer hr hagrees h)).runFor h n

theorem Resting.attempt (hr : s.destinationRoot offer ∈ L.roots) (hC : Measured offer manifest C)
    (hpeer : Feeds offer manifest C peer) (hagrees : Agrees offer manifest received)
    (h : Resting L s offer manifest C w made) (n : Nat)
    (hnew : Appear L w ((s.serveStream offer received peer).runFor n w) new) :
    Resting L s offer manifest C ((s.serveStream offer received peer).runFor n w) (made ++ new) := by
  cases h with
  | underway h => exact (h.serve hr hC hpeer hagrees n).resting hr hnew
  | landed d h hheld => exact (h.serve hr hagrees n).resting hr hheld hnew

/-! Others beside. -/

theorem Beside.kept (h : Beside L s offer manifest made w w') (hr : s.destinationRoot offer ∈ L.roots) (n : RecordName) :
    s.kept offer n w' = s.kept offer n w := h.owned _ (L.owned_statePath hr _ _)

theorem Beside.underway (hb : Beside L s offer manifest made w w') (hr : s.destinationRoot offer ∈ L.roots)
    (h : Underway L s offer manifest w) : Underway L s offer manifest w' := by
  have hkept := hb.kept hr
  refine ⟨hb.sound, (hkept _).trans h.done, ?_, h.metadata.imp (hkept _).trans (hkept _).trans,
    h.document.imp (hkept _).trans (hkept _).trans⟩
  refine h.commit.imp (hkept _).trans ?_
  rintro ⟨d, hd, hname, hfree⟩
  refine ⟨d, (hkept _).trans hd, hname, ?_⟩
  rwa [FileTree.Occupied, hb.reserved d hd _ List.suffix_rfl]

/-- Where nothing at or below the destination changes, the item is as it was. -/
theorem Delivered.congr (h : Delivered s offer manifest d w)
    (hsame : ∀ q, d :: s.destinationRoot offer <:+ q → w'.fs.get q = w.fs.get q) : Delivered s offer manifest d w' := by
  rw [Delivered] at h ⊢
  cases hk : offer.kind with
  | file =>
    rw [hk] at h
    exact FileAt.congr h (hsame _ List.suffix_rfl)
  | folderV1 =>
    rw [hk] at h
    exact FolderAt.congr h hsame

theorem HeldAs.congr (h : HeldAs s offer manifest C d w)
    (hsame : ∀ q, d :: s.destinationRoot offer <:+ q → w'.fs.get q = w.fs.get q) : HeldAs s offer manifest C d w' := by
  cases hk : offer.kind with
  | file =>
    rw [heldAs_file hk] at h ⊢
    obtain ⟨c, hC, hc⟩ := h
    exact ⟨c, hC, (hsame _ List.suffix_rfl).trans hc⟩
  | folderV1 =>
    rw [heldAs_folder hk] at h ⊢
    intro e he
    obtain ⟨c, hC, hc⟩ := h e he
    exact ⟨c, hC, (hsame _ (suffix_place _ _)).trans hc⟩

theorem Resting.beside (hr : s.destinationRoot offer ∈ L.roots) (h : Resting L s offer manifest C w made)
    (hb : Beside L s offer manifest made w w') : Resting L s offer manifest C w' made := by
  have hitem : ∀ q, s.stateFile offer offer.kind.item <:+ q → w'.fs.get q = w.fs.get q := fun q hq =>
    hb.owned q ((L.owned_statePath hr _ _).above hq)
  have hkept := hb.kept hr
  cases h with
  | underway h => exact .underway ⟨hb.underway hr h.underway, ofItem_gathered _ _ hitem h.item, .refl _ _⟩
  | landed d h hheld =>
    have hdest := hb.made _ (List.mem_singleton.mpr rfl)
    have hl := h.landed
    refine .landed d ⟨⟨hb.sound, hl.name, hl.clear, hl.there.congr hdest, hl.commit.imp (hkept _).trans (hkept _).trans,
      hl.done.imp (hkept _).trans fun hd => ⟨(hkept _).trans hd.1, (hkept _).trans hd.2⟩,
      hl.metadata.imp (hkept _).trans (hkept _).trans, hl.document.imp (hkept _).trans (hkept _).trans,
      (hitem _ List.suffix_rfl).trans hl.gone⟩, .refl _ _⟩ (hheld.congr hdest)

/-- A transfer that the store knows nothing of. -/
theorem resting_fresh (hr : s.destinationRoot offer ∈ L.roots) (hs : L.Sound w.fs)
    (hfresh : ∀ q, L.Owned offer.transferId q → w.fs.get q = none) : Resting L s offer manifest C w [] := by
  have hnone : ∀ extension, w.fs.get (s.stateFile offer extension) = none := fun extension =>
    hfresh _ (L.owned_statePath hr _ _)
  refine .underway ⟨⟨hs, hnone _, .inl (hnone _), .inl (hnone _), .inl (hnone _)⟩, ?_, .refl _ _⟩
  cases hk : offer.kind with
  | file =>
    rw [gathered_file hk]
    exact .inl (hnone _)
  | folderV1 =>
    rw [gathered_folder hk]
    exact .inl (hnone _)

theorem Attempts.resting (hr : s.destinationRoot offer ∈ L.roots) (hC : Measured offer manifest C)
    (hA : ∀ peer, A peer → Feeds offer manifest C peer) (h₀ : Resting L s offer manifest C w₀ [])
    (h : Attempts A L s offer manifest w₀ made w) : Resting L s offer manifest C w made := by
  induction h with
  | start => exact h₀
  | attempt received peer n _ hagrees hpeer hnew ih => exact ih.attempt hr hC (hA peer hpeer) hagrees n hnew
  | beside _ hb ih => exact ih.beside hr hb

/-! Any peer. -/

/-- Anything that is not too long. -/
def Receivable.any (offer : TransferOffer) : Receivable
  | none, c => FileData.size c ≤ offer.size
  | some e, c => FileData.size c ≤ e.size

theorem measured_any : Measured offer manifest (.any offer) :=
  ⟨fun e => by cases e <;> exact Nat.zero_le _, fun _ _ h => h, fun _ _ _ h => h⟩

theorem size_append {c c' : Contents} {taken : Bytes} (h : c'.toBytes = c.toBytes ++ taken) :
    FileData.size c' = FileData.size c + taken.length := by
  change c'.toBytes.length = c.toBytes.length + taken.length
  rw [h, List.length_append]

theorem suited_any {entries : List FolderEntry} {offset : Nat} {bytes : Bytes} :
    Suited (fun e => Receivable.any offer (some e)) entries offset bytes := by
  induction entries generalizing offset bytes with
  | nil => trivial
  | cons e entries ih =>
    refine ⟨fun c c' hc hoffset taken _ hless hc' => ?_, ih⟩
    have hsize : FileData.size c ≤ e.size := hc
    have hsize' := size_append hc'
    change FileData.size c' ≤ e.size
    omega

theorem feeds_any (peer : Peer) : Feeds offer manifest (.any offer) peer := by
  rw [Feeds]
  cases offer.kind with
  | file =>
    intro c c' _ taken _ hle hc'
    have hsize' := size_append hc'
    change FileData.size c' ≤ offer.size
    omega
  | folderV1 => exact fun prepared _ => suited_any

/-! What the store answers. -/

theorem accepts_of_not_refused (hok : ¬ Refused offer manifest) : offer.validate = .ok () ∧
    (offer.kind = .folderV1 → manifest.validateOffer offer = .ok ()) :=
  ⟨not_not.mp fun hv => hok (.inl hv), fun hk => not_not.mp fun hvm => hok (.inr ⟨hk, hvm⟩)⟩

/-- A transfer that is underway is not answered to be complete. -/
theorem along_answer_underway (hr : s.destinationRoot offer ∈ L.roots) (hC : Measured offer manifest C)
    (hok : ¬ Refused offer manifest) (h : Stage L s offer manifest (Gathered s offer manifest C) w₀ w) :
    Along (Stage L s offer manifest (Gathered s offer manifest C) w₀) (fun c _ => c = none) (fun _ _ => True)
      (s.answer offer manifest) w := by
  obtain ⟨hv, hvm⟩ := accepts_of_not_refused hok
  cases hk : offer.kind with
  | file =>
    rw [gathered_file hk] at h ⊢
    refine along_answer_file hk ((along_prepare_underway hv hk hr h (hC.empty none) (hC.file hk) fun _ _ => trivial).mono
      (fun _ hi => hi) ?_ fun _ _ hf => hf)
    rintro _ v ⟨-, -, c, -, -, rfl⟩
    rfl
  | folderV1 =>
    rw [gathered_folder hk] at h ⊢
    obtain ⟨size, hm⟩ := validate_of_offer (hvm hk)
    refine along_answer_folder hk ((along_prepareFolder_underway (C := fun e => C (some e)) hv hk (hvm hk) hm hr h
      (fun e _ => hC.empty (some e)) hC.entry (fun _ _ _ => trivial) (fun _ _ => trivial) fun _ _ => trivial).mono
      (fun _ hi => hi) ?_ fun _ _ hf => hf)
    rintro _ v ⟨prepared, rfl, -⟩
    rfl

theorem along_answer_landed (hr : s.destinationRoot offer ∈ L.roots) (hok : ¬ Refused offer manifest)
    (h : Landing L s offer manifest d p w₀ w) :
    Along (Landing L s offer manifest d p w₀)
      (fun c _ => c = some ⟨offer.receipt, d :: s.destinationRoot offer⟩) (fun _ _ => False)
      (s.answer offer manifest) w := by
  obtain ⟨hv, hvm⟩ := accepts_of_not_refused hok
  cases hk : offer.kind with
  | file =>
    refine along_answer_file hk ((along_prepare_landed hv hk hr h).mono (fun _ hi => hi) ?_ fun _ _ hf => hf)
    rintro _ v ⟨rfl, -⟩
    rfl
  | folderV1 =>
    obtain ⟨size, hm⟩ := validate_of_offer (hvm hk)
    refine along_answer_folder hk ((along_prepareFolder_landed hv hk (hvm hk) hm hr h).mono (fun _ hi => hi) ?_
      fun _ _ hf => hf)
    rintro _ v ⟨rfl, -⟩
    rfl

/-- What is made is what the store answers to be complete. -/
theorem Resting.answer_iff (hr : s.destinationRoot offer ∈ L.roots) (hC : Measured offer manifest C)
    (hok : ¬ Refused offer manifest) (h : Resting L s offer manifest C w made) (c : CompletedTransfer) :
    eval (s.answer offer manifest) w = .ok (some c) ↔ made = [c.destination] ∧ c.receipt = offer.receipt := by
  cases h with
  | underway h =>
    have hend := (along_run.mp (along_answer_underway hr hC hok h)).run
    rw [eval]
    cases hrun : ((s.answer offer manifest).run.run w).1 with
    | error e => simp
    | ok a =>
      rw [hrun] at hend
      obtain rfl : a = none := hend
      simp
  | landed d h hheld =>
    rw [eval_ok_of_along (along_answer_landed hr hok h)]
    simp only [Except.ok.injEq, Option.some.injEq, List.cons.injEq, and_true]
    constructor
    · rintro rfl
      exact ⟨rfl, rfl⟩
    · rintro ⟨hd, hreceipt⟩
      rw [hd, ← hreceipt]

theorem Resting.outcome (h : Resting L s offer manifest C w made) :
    made = [] ∨ ∃ d, made = [d :: s.destinationRoot offer] ∧ Delivered s offer manifest d w := by
  cases h with
  | underway h => exact .inl rfl
  | landed d h hheld => exact .inr ⟨d, rfl, h.landed.there⟩

/-- Outside the state directories a stream changes nothing but what it makes. -/
theorem Resting.frames (hr : s.destinationRoot offer ∈ L.roots) (hC : Measured offer manifest C)
    (hpeer : Feeds offer manifest C peer) (hagrees : Agrees offer manifest received)
    (h : Resting L s offer manifest C w made) (n : Nat)
    (hnew : Appear L w ((s.serveStream offer received peer).runFor n w) new) {q : Path} (hq : ¬ L.Inside q)
    (hoff : ∀ p ∈ new, ¬ p <:+ q) : ((s.serveStream offer received peer).runFor n w).fs.get q = w.fs.get q := by
  cases h with
  | underway h =>
    rcases h.serve hr hC hpeer hagrees n with hstage | ⟨d, hcome⟩
    · exact hstage.frames q hq fun _ hp => by cases hp
    · refine hcome.landing.frames q hq fun p hp => ?_
      obtain rfl := Option.some.inj hp
      exact hoff _ (by rw [hcome.appear hr hnew]; exact List.mem_singleton.mpr rfl)
  | landed d h hheld => exact (h.serve hr hagrees n).frames q hq fun _ hp => by cases hp

theorem Orphaned.same (h : Orphaned s offer w) (hsame : ∀ n : RecordName,
    w'.fs.get (s.stateFile offer n.extension) = w.fs.get (s.stateFile offer n.extension)) : Orphaned s offer w' :=
  ⟨fun hn => h.1 ((hsame .metadata).symm.trans hn), (hsame .manifest).trans h.2⟩

/-- Such a preparation ends every stream, and nothing is changed. -/
theorem along_handleStream_orphaned (peer : Peer) (hk : offer.kind = .folderV1) (hr : s.destinationRoot offer ∈ L.roots)
    (hagrees : Agrees offer manifest received) (h : Underway L s offer manifest w) (ho : Orphaned s offer w) :
    Along (fun v => v.fs = w.fs) (fun _ _ => False) (fun _ v => v.fs = w.fs) (s.handleStream offer received peer) w := by
  have hfiles : OfFiles fun v => v.fs = w.fs := fun v v' hfs hv => hfs.trans hv
  refine along_checked hagrees hfiles (fun _ _ _ _ _ hf => hf) (fun _ => hfiles) rfl (fun _ _ => rfl)
    (fun _ hf => by cases hf.symm.trans hk) fun hv _ hvm v hfs => ?_
  have hunder : Underway L s offer manifest v := h.scratch hr (hfs ▸ h.sound) fun _ _ => by rw [hfs]
  have horphan : Orphaned s offer v := ho.same fun _ => by rw [hfs]
  rw [handleFolderStream]
  exact along_bind (Q := fun _ _ => False) (along_rejecting (along_prepareFolder_orphaned hv hk hvm hr hunder hfs horphan
    fun _ => hfs) hfs hfiles fun _ => hfiles) fun _ _ hc => hc.elim

theorem Orphaned.serve (ho : Orphaned s offer w) (hk : offer.kind = .folderV1) (hr : s.destinationRoot offer ∈ L.roots)
    (hagrees : Agrees offer manifest received) (h : Underway L s offer manifest w) (peer : Peer) (n : Nat) :
    ((s.serveStream offer received peer).runFor n w).fs = w.fs := by
  have hfiles : OfFiles fun v => v.fs = w.fs := fun v v' hfs hv => hfs.trans hv
  exact (along_serveStream hfiles (fun _ => hfiles) rfl
    (along_handleStream_orphaned peer hk hr hagrees h ho)).runFor rfl n

/-- Once the preparation of a folder was cut off between its two documents, no stream ever delivers it: each
one ends in an error, and leaves the files as they are. -/
theorem orphaned_forever (hk : offer.kind = .folderV1) (hr : s.destinationRoot offer ∈ L.roots) (hs : L.Sound w₀.fs)
    (hfresh : ∀ q, L.Owned offer.transferId q → w₀.fs.get q = none)
    (h₀ : Attempts (fun _ => True) L s offer manifest w₀ [] w) (ho : Orphaned s offer w)
    (h : Attempts (fun _ => True) L s offer manifest w made w') :
    made = [] ∧ Orphaned s offer w' ∧ ∀ received peer, Agrees offer manifest received →
      (∃ e, ((s.handleStream offer received peer).run.run w').1 = .error e) ∧
        ((s.handleStream offer received peer).run.run w').2.fs = w'.fs := by
  have hresting := h₀.resting hr (measured_any) (fun peer _ => feeds_any peer)
    (resting_fresh hr hs hfresh)
  have hkept : made = [] ∧ Orphaned s offer w' ∧ Underway L s offer manifest w' := by
    induction h with
    | start =>
      cases hresting with
      | underway h => exact ⟨rfl, ho, h.underway⟩
    | attempt received peer n _ hagrees _ hnew ih =>
      obtain ⟨rfl, ho', hunder⟩ := ih
      have hfs := ho'.serve hk hr hagrees hunder peer n
      refine ⟨?_, ho'.same fun _ => by rw [hfs], hunder.scratch hr (hfs ▸ hunder.sound) fun _ _ => by rw [hfs]⟩
      exact (show L.Frames none _ _ from fun _ _ _ => by rw [hfs]).appear_none hnew
    | beside _ hb ih =>
      obtain ⟨rfl, ho', hunder⟩ := ih
      exact ⟨rfl, ho'.same fun n => hb.owned _ (L.owned_statePath hr _ _), hb.underway hr hunder⟩
  obtain ⟨hmade, ho', hunder⟩ := hkept
  refine ⟨hmade, ho', fun received peer hagrees => ?_⟩
  have hend := (along_run.mp (along_handleStream_orphaned peer hk hr hagrees hunder ho')).run
  cases hrun : ((s.handleStream offer received peer).run.run w').1 with
  | ok a =>
    rw [hrun] at hend
    exact hend.elim
  | error e =>
    rw [hrun] at hend
    exact ⟨⟨e, rfl⟩, hend⟩

end Attempts

attribute [local instance] Sample.externals

namespace Sample

theorem agrees_file (m : FolderManifest) : Agrees first m (.error .json) := fun _ h => by cases h

theorem agrees_ok (offer : TransferOffer) (m : FolderManifest) : Agrees offer m (.ok m) :=
  fun _ h _ => (Except.ok.inj h).symm

theorem inbox_root : (store 0).destinationRoot first ∈ layout.roots := by decide +kernel

theorem nothing_owned (id : String) (q : Path) (hq : layout.Owned id q) : world.fs.get q = none :=
  nothing_inside hq.inside

end Sample

open Sample in
/-- A folder that was cut off between its two documents is refused for good. -/
theorem orphaned_forever_letters : ∃ w, Orphaned (store 0) folder w ∧
    ∀ received peer, Agrees folder letters received →
      ∃ e, (((store 0).handleStream folder received peer).run.run w).1 = .error e := by
  obtain ⟨new, hnew⟩ := exists_appear layout world
    (((store 0).serveStream folder (.ok letters) (peer [])).runFor 12 world)
  have hend : ((store 0).kept folder .metadata
        (((store 0).serveStream folder (.ok letters) (peer [])).runFor 12 world) ≠ none ∧
      (store 0).kept folder .manifest
        (((store 0).serveStream folder (.ok letters) (peer [])).runFor 12 world) = none) ∧
      eval ((store 0).answer folder letters)
        (((store 0).serveStream folder (.ok letters) (peer [])).runFor 12 world) =
          .error (.invalidTransfer "folder transfer manifest is missing") := by decide +kernel
  have horphan : Orphaned (store 0) folder (((store 0).serveStream folder (.ok letters) (peer [])).runFor 12 world) :=
    hend.1
  have hhistory := Attempts.attempt (A := fun _ => True) (.ok letters) (peer []) 12 .start (agrees_ok folder letters)
    trivial hnew
  have hroot : (store 0).destinationRoot folder ∈ layout.roots := by decide +kernel
  -- nothing is made, for the store answers with an error
  obtain rfl : new = [] := by
    have hok : ¬ Refused folder letters := by
      rintro (h | ⟨-, h⟩)
      · exact h (by decide +kernel)
      · exact h (by decide +kernel)
    have hresting := hhistory.resting hroot measured_any (fun peer _ => feeds_any peer)
      (resting_fresh hroot sound (nothing_owned _))
    refine hresting.outcome.resolve_right ?_
    rintro ⟨d, hd, -⟩
    have hthere := (hresting.answer_iff hroot measured_any hok ⟨folder.receipt, d :: (store 0).destinationRoot folder⟩).mpr
      ⟨hd, rfl⟩
    cases hthere.symm.trans hend.2
  refine ⟨_, horphan, fun received peer hagrees => ?_⟩
  exact ((orphaned_forever rfl hroot sound (nothing_owned _) hhistory horphan .start).2.2 received peer hagrees).1

end InkHole
