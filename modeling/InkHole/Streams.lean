import InkHole.FileDelivery
import InkHole.FolderDelivery

/-! One stream of a sender, of a file or of a folder, whatever it sends: the item comes to a destination
that was free, or the transfer is still underway. -/

set_option linter.unusedSectionVars false

namespace InkHole

open InkHole.CoreM Fallible FileTree TransferStore FolderManifest

/-- What may be there of a file, or of an entry of a folder, while it is received. -/
abbrev Receivable := Option FolderEntry → Contents → Prop

section Streams

variable [Externals] {L : Layout} {s : TransferStore} {offer : TransferOffer} {manifest : FolderManifest}
  {C : Receivable} {received : Except CoreError FolderManifest} {peer : Peer} {d : String} {w w₀ : World}
  {p : Option Path}

abbrev TransferStore.staged (s : TransferStore) (offer : TransferOffer) (manifest : FolderManifest) (C : Receivable) :
    Path → Node Contents → Prop := FolderPart manifest (fun e => C (some e)) (s.staging offer)

/-- What is received of the item, if anything is. -/
def Gathered (s : TransferStore) (offer : TransferOffer) (manifest : FolderManifest) (C : Receivable) : World → Prop :=
  match offer.kind with
  | .file => Arrived s offer (C none)
  | .folderV1 => Staged s offer (s.staged offer manifest C)

theorem gathered_file (hk : offer.kind = .file) : Gathered s offer manifest C = Arrived s offer (C none) := by
  rw [Gathered, hk]

theorem gathered_folder (hk : offer.kind = .folderV1) :
    Gathered s offer manifest C = Staged s offer (s.staged offer manifest C) := by
  rw [Gathered, hk]

theorem ofItem_gathered : OfItem s offer (Gathered s offer manifest C) := by
  cases hk : offer.kind with
  | file =>
    rw [gathered_file hk]
    exact ofItem_arrived hk
  | folderV1 =>
    rw [gathered_folder hk]
    exact ofItem_staged hk

/-- Nothing longer than offered may be received. -/
structure Measured (offer : TransferOffer) (manifest : FolderManifest) (C : Receivable) : Prop where
  empty : ∀ e, C e FileData.empty
  file : offer.kind = .file → ∀ c, C none c → FileData.size c ≤ offer.size
  entry : ∀ e ∈ manifest.files, ∀ c, C (some e) c → FileData.size c ≤ e.size

/-- What a peer adds to what is there is what may be received. -/
def Feeds (offer : TransferOffer) (manifest : FolderManifest) (C : Receivable) (peer : Peer) : Prop :=
  match offer.kind with
  | .file => Receives offer (C none) peer
  | .folderV1 => ∀ prepared : PreparedFolderTransfer, prepared.Placed manifest →
    Suited (fun e => C (some e)) (prepared.rest manifest) prepared.offset (peer prepared.response).bytes

/-- The item at the destination is one that may be received. -/
def HeldAs (s : TransferStore) (offer : TransferOffer) (manifest : FolderManifest) (C : Receivable) :
    String → World → Prop :=
  match offer.kind with
  | .file => FileHeld s offer (C none)
  | .folderV1 => FolderHeld s offer manifest fun e => C (some e)

theorem heldAs_file (hk : offer.kind = .file) : HeldAs s offer manifest C = FileHeld s offer (C none) := by
  rw [HeldAs, hk]

theorem heldAs_folder (hk : offer.kind = .folderV1) :
    HeldAs s offer manifest C = FolderHeld s offer manifest fun e => C (some e) := by
  rw [HeldAs, hk]

theorem ofDestination_heldAs (hr : s.destinationRoot offer ∈ L.roots) :
    OfDestination L s offer (HeldAs s offer manifest C) := by
  cases hk : offer.kind with
  | file =>
    rw [heldAs_file hk]
    exact ofDestination_file hr
  | folderV1 =>
    rw [heldAs_folder hk]
    exact ofDestination_folder hr

/-- The offer passes, and for a folder the manifest that comes with it. -/
def Accepts (offer : TransferOffer) (received : Except CoreError FolderManifest) : Prop :=
  offer.validate = .ok () ∧
    (offer.kind = .folderV1 → ∃ m, received = .ok m ∧ m.validateOffer offer = .ok ())

/-- No other manifest than this one passes for the offer. -/
def Agrees (offer : TransferOffer) (manifest : FolderManifest) (received : Except CoreError FolderManifest) : Prop :=
  ∀ m, received = .ok m → m.validateOffer offer = .ok () → m = manifest

/-- Why a stream may end without its item at the destination. -/
inductive Setback (L : Layout) (s : TransferStore) (offer : TransferOffer) (manifest : FolderManifest) (C : Receivable)
    (received : Except CoreError FolderManifest) (peer : Peer) (w₀ w v : World) : Prop where
  | refused (h : ¬ Accepts offer received)
  | file (hk : offer.kind = .file) (hstage : Stage L s offer manifest (Arrived s offer (C none)) w₀ v)
      (h : FileSetback s offer manifest (C none) peer v)
  | folder (hk : offer.kind = .folderV1)
      (h : FolderSetback L s offer manifest (s.staged offer manifest C) peer w₀ w v)

theorem Setback.same {v v' : World} (hr : s.destinationRoot offer ∈ L.roots) (hfs : v'.fs = v.fs) (h : Setback L s offer manifest C received peer w₀ w v) :
    Setback L s offer manifest C received peer w₀ w v' := by
  cases h with
  | refused h => exact .refused h
  | file hk hstage h => exact .file hk (hstage.same hr (ofItem_arrived hk) hfs) (h.same hfs)
  | folder hk h => exact .folder hk (h.same hk hr hfs)

/-- What comes before the lock of the transfer: the offer and the manifest are checked. -/
theorem along_checked {I : World → Prop} {Q : Unit → World → Prop} {F : CoreError → World → Prop}
    (hagrees : Agrees offer manifest received) (hI : OfFiles I)
    (hQ : ∀ a v v', v'.fs = v.fs → v'.answered = v.answered → Q a v → Q a v') (hF : ∀ e, OfFiles (F e))
    (hi : I w) (hrefused : ¬ Accepts offer received → ∀ e, F e w)
    (hfile : offer.validate = .ok () → offer.kind = .file → ∀ v, v.fs = w.fs →
      Along I Q F (s.handleFileStream offer peer) v)
    (hfolder : offer.validate = .ok () → offer.kind = .folderV1 → manifest.validateOffer offer = .ok () →
      ∀ v, v.fs = w.fs → Along I Q F (s.handleFolderStream offer manifest peer) v) :
    Along I Q F (s.handleStream offer received peer) w := by
  have hlock : ∀ {x : CoreM Unit}, (∀ v, v.fs = w.fs → Along I Q F x v) →
      Along I Q F (s.lockTransfer offer.transferId x) w := fun hx =>
    along_withLock _ hI hQ (fun e => hF e) hi hx
  rw [handleStream]
  refine along_bind (Q := fun _ v => offer.validate = .ok () ∧ w = v) (along_rejecting (along_lift
    (fun _ hv => ⟨hv, rfl⟩) fun e he => hrefused (fun ha => by cases he.symm.trans ha.1) e) hi hI hF) ?_
  rintro _ _ ⟨hv, rfl⟩
  cases hk : offer.kind with
  | file => exact hlock (hfile hv hk)
  | folderV1 =>
    refine along_bind (Q := fun m v => received = .ok m ∧ w = v) (along_rejecting (along_lift
      (fun _ hm => ⟨hm, rfl⟩) fun e he => hrefused (fun ha => ?_) e) hi hI hF) ?_
    · obtain ⟨m, hm, -⟩ := ha.2 hk
      cases he.symm.trans hm
    rintro m _ ⟨hm, rfl⟩
    refine along_bind (Q := fun _ v => m.validateOffer offer = .ok () ∧ w = v) (along_rejecting (along_lift
      (fun _ hvm => ⟨hvm, rfl⟩) fun e he => hrefused (fun ha => ?_) e) hi hI hF) ?_
    · obtain ⟨m', hm', hvm⟩ := ha.2 hk
      obtain rfl := Except.ok.inj (hm.symm.trans hm')
      cases he.symm.trans hvm
    rintro _ _ ⟨hvm, rfl⟩
    obtain rfl := hagrees m hm hvm
    exact hlock (hfolder hv hk hvm)

/-- A stream for a transfer that is underway. -/
theorem along_handleStream_underway (hr : s.destinationRoot offer ∈ L.roots) (hC : Measured offer manifest C)
    (hpeer : Feeds offer manifest C peer) (hagrees : Agrees offer manifest received)
    (h : Stage L s offer manifest (Gathered s offer manifest C) w₀ w) :
    Along (Delivering L s offer manifest (Gathered s offer manifest C) (HeldAs s offer manifest C) w₀)
      (fun _ v => (∃ d, Come L s offer manifest (HeldAs s offer manifest C) w₀ d v) ∧
        v.answered.getLast? = some (.complete offer.receipt))
      (fun _ v => Setback L s offer manifest C received peer w₀ w v) (s.handleStream offer received peer) w := by
  have hY : OfItem s offer (Gathered s offer manifest C) := ofItem_gathered
  have hdest : OfDestination L s offer (HeldAs s offer manifest C) := ofDestination_heldAs hr
  refine along_checked hagrees (fun v v' hfs => Delivering.same hr hY hdest hfs) ?_ (fun _ v v' hfs hf => hf.same hr hfs)
    (.inl h) (fun ha _ => .refused ha) (fun hv hk v hfs => ?_) fun hv hk hvm v hfs => ?_
  · rintro _ v v' hfs hanswered ⟨⟨d, hcome⟩, hlast⟩
    exact ⟨⟨d, hcome.same hr hdest hfs⟩, hanswered ▸ hlast⟩
  · have hstage := h.same hr hY hfs
    rw [Feeds, hk] at hpeer
    rw [gathered_file hk] at hstage ⊢
    rw [heldAs_file hk]
    exact (along_handleFileStream hv hk hr hstage (hC.empty none) (hC.file hk) hpeer).mono (fun _ hi => hi)
      (fun _ _ hq => hq) fun _ v hf => .file hk hf.1 hf.2
  · have hstage := h.same hr hY hfs
    obtain ⟨size, hm⟩ := validate_of_offer hvm
    rw [Feeds, hk] at hpeer
    rw [gathered_folder hk] at hstage ⊢
    rw [heldAs_folder hk]
    exact (along_handleFolderStream (C := fun e => C (some e)) hv hk hvm hm hr hstage (fun e _ => hC.empty (some e))
      hC.entry hpeer).mono (fun _ hi => hi) (fun _ _ hq => hq) fun _ u hf => .folder hk (hf.began hfs)

/-- A stream for an item that is at its destination is told so. -/
theorem along_handleStream_landed (peer : Peer) (hr : s.destinationRoot offer ∈ L.roots)
    (hagrees : Agrees offer manifest received) (h : Landing L s offer manifest d p w₀ w) :
    Along (Landing L s offer manifest d p w₀) (fun _ v => v.answered.getLast? = some (.complete offer.receipt))
      (fun _ _ => ¬ Accepts offer received)
      (s.handleStream offer received peer) w := by
  have hI : OfFiles (Landing L s offer manifest d p w₀) := fun v v' hfs => Landing.same hr hfs
  refine along_checked hagrees hI (fun _ _ _ _ hanswered hlast => hanswered ▸ hlast) (fun _ _ _ _ hf => hf) h (fun ha _ => ha)
    (fun hv hk v hfs => ?_) fun hv hk hvm v hfs => ?_
  · rw [handleFileStream]
    refine along_bind (along_rejecting (along_prepare_landed hv hk hr (h.same hr hfs)) (h.same hr hfs) hI
      fun _ _ _ _ hf => hf) ?_
    rintro _ v' ⟨rfl, hlanding⟩
    exact along_respond fun u hu hlast => ⟨hlanding.same hr hu, by rw [hlast, List.getLast?_concat]⟩
  · obtain ⟨size, hm⟩ := validate_of_offer hvm
    rw [handleFolderStream]
    refine along_bind (along_rejecting (along_prepareFolder_landed hv hk hvm hm hr (h.same hr hfs)) (h.same hr hfs) hI
      fun _ _ _ _ hf => hf) ?_
    rintro _ v' ⟨rfl, hlanding⟩
    exact along_respond fun u hu hlast => ⟨hlanding.same hr hu, by rw [hlast, List.getLast?_concat]⟩

/-- The task of a stream ends where its handler does. -/
theorem along_serveStream {I : World → Prop} {Q : Unit → World → Prop} {F : CoreError → World → Prop}
    (hI : OfFiles I) (hF : ∀ e, OfFiles (F e)) (hi : I w) (h : Along I Q F (s.handleStream offer received peer) w) :
    (s.serveStream offer received peer).Along I (fun _ v => (∃ u, Q u v) ∨ ∃ e, F e v) w := by
  rw [serveStream, Program.along_bind]
  refine ((along_run.mp h).strengthen hi).post fun r v hr => ?_
  cases r with
  | ok a => exact .inl ⟨a, hr.1⟩
  | error e => exact ⟨hI v _ rfl hr.2, .inr ⟨e, hF e v _ rfl hr.1⟩⟩

end Streams

end InkHole
