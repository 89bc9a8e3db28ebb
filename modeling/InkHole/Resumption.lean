import InkHole.Attempts
import InkHole.Json
import Mathlib.Data.List.Infix

/-! The attempts of a sender that sends its own item: what is received is the beginning of it, however
often it is cut off, and once it is sent in full the transfer comes to an end. -/

set_option linter.unusedSectionVars false

namespace InkHole

open InkHole.CoreM Fallible FileTree TransferStore FolderManifest

section Names

variable [Externals] {L : Layout} {s : TransferStore} {offer : TransferOffer} {manifest : FolderManifest} {root : Path}
  {w v : World}

/-- A root of files and directories that are fewer than the names that are tried. -/
structure Roomy (root : Path) (w : World) : Prop where
  plain : ∀ name n, w.fs.get (name :: root) = some n → n = .dir ∨ ∃ c, n = .file c
  few : ∃ names : List String, names.length < 2 ^ 32 - 2 ∧ ∀ name, w.fs.get (name :: root) ≠ none → name ∈ names

theorem Roomy.same (h : Roomy root w) (hsame : ∀ name, v.fs.get (name :: root) = w.fs.get (name :: root)) :
    Roomy root v := by
  obtain ⟨hplain, names, hless, hmem⟩ := h
  refine ⟨fun name n hn => hplain name n ((hsame name).symm.trans hn), names, hless, fun name hn => hmem name ?_⟩
  rwa [← hsame]

theorem Roomy.tryExists (h : Roomy root w) (hreal : ∀ name, w.fs.Real (name :: root)) (name : String) :
    w.fs.exists? (name :: root) = .ok true ∧ w.fs.get (name :: root) ≠ none ∨
      w.fs.exists? (name :: root) = .ok false ∧ w.fs.get (name :: root) = none := by
  cases hn : w.fs.get (name :: root) with
  | none => exact .inr ⟨exists?_absent (hreal name) (List.cons_ne_nil _ _) hn, rfl⟩
  | some n =>
    refine .inl ⟨exists?_of_get hn ?_, by simp⟩
    rcases h.plain name n hn with rfl | ⟨c, rfl⟩ <;> rfl

def numbered (stem extension : String) (index : Nat) : String := stem ++ " (" ++ toString index ++ ")" ++ extension

theorem numbered_injective (stem extension : String) : Function.Injective (numbered stem extension) := by
  intro i j h
  have hchars := congrArg String.toList h
  simp only [numbered, String.toList_append, List.append_assoc, List.append_cancel_left_eq,
    List.append_cancel_right_eq] at hchars
  simp only [toString, Nat.repr, String.toList_ofList] at hchars
  exact Json.toDigits_injective hchars

/-- A search that finds no name has found all of them taken. -/
theorem Roomy.uniqueFrom (h : Roomy root w) (hreal : ∀ name, w.fs.Real (name :: root)) (stem extension : String)
    (fuel index : Nat) :
    (∃ name, eval (TransferStore.uniqueFrom root stem extension fuel index) w = .ok name) ∨
      ∀ i ∈ List.range' index fuel, w.fs.get (numbered stem extension i :: root) ≠ none := by
  induction fuel generalizing index with
  | zero => exact .inr fun i hi => by simp at hi
  | succ fuel ih =>
    rw [TransferStore.uniqueFrom, ← numbered, eval_fs_bind (.tryExists (numbered stem extension index :: root)) trivial]
    change (∃ name, ((w.fs.exists? (numbered stem extension index :: root)).mapError CoreError.io >>= _) = _) ∨ _
    rcases h.tryExists hreal (numbered stem extension index) with ⟨hthere, hne⟩ | ⟨hfree, -⟩
    · rw [hthere]
      refine (ih (index + 1)).imp id fun hall i hi => ?_
      rw [List.range'_succ] at hi
      rcases List.mem_cons.mp hi with rfl | hi
      · exact hne
      · exact hall i hi
    · rw [hfree]
      exact .inl ⟨_, rfl⟩

/-- In a root with a name to spare one is found. -/
theorem Roomy.finds (h : Roomy root w) (hreal : ∀ name, w.fs.Real (name :: root)) (filename : String) :
    ∃ name, eval (uniqueDestination root filename) w = .ok name := by
  cases hsplit : splitExtension filename with | mk stem extension
  rw [uniqueDestination, eval_fs_bind (.tryExists (filename :: root)) trivial]
  simp only [hsplit]
  change ∃ name, ((w.fs.exists? (filename :: root)).mapError CoreError.io >>= _) = _
  rcases h.tryExists hreal filename with ⟨hthere, -⟩ | ⟨hfree, -⟩
  · rw [hthere]
    obtain ⟨names, hless, hmem⟩ := h.few
    generalize 2 ^ 32 - 2 = fuel at hless ⊢
    refine (h.uniqueFrom hreal stem extension fuel 2).resolve_right fun hall => ?_
    have hnodup : ((List.range' 2 fuel).map (numbered stem extension)).Nodup :=
      (List.nodup_range').map (numbered_injective stem extension)
    have hsub : (List.range' 2 fuel).map (numbered stem extension) ⊆ names := by
      intro name hname
      obtain ⟨i, hi, rfl⟩ := List.mem_map.mp hname
      exact hmem _ (hall i hi)
    have hle := (List.subperm_of_subset hnodup hsub).length_le
    rw [List.length_map, List.length_range'] at hle
    omega
  · rw [hfree]
    exact ⟨_, rfl⟩

end Names

/-! The bytes of the item. -/

section Sender

variable [Externals] {L : Layout} {s : TransferStore} {offer : TransferOffer} {manifest : FolderManifest}
  {content : Option FolderEntry → Bytes} {received : Except CoreError FolderManifest} {peer : Peer} {d : String}
  {made : List Path} {w w₀ : World}

/-- The content is as long as the offer says, and that of each file as long as the manifest does. -/
structure Fitting (offer : TransferOffer) (manifest : FolderManifest) (content : Option FolderEntry → Bytes) : Prop where
  file : offer.kind = .file → (content none).length = offer.size
  entry : ∀ e ∈ manifest.files, (content (some e)).length = e.size

/-- The files one after the other, as they are sent. -/
def joined (content : Option FolderEntry → Bytes) (entries : List FolderEntry) : Bytes :=
  entries.flatMap fun e => content (some e)

/-- A peer sends its own item from where it is asked to, and may stop anywhere. -/
structure Honest (offer : TransferOffer) (manifest : FolderManifest) (content : Option FolderEntry → Bytes) (peer : Peer) :
    Prop where
  file : offer.kind = .file → ∀ offset ≤ offer.size, (peer (.resume offset)).bytes <+: (content none).drop offset
  folder : offer.kind = .folderV1 → ∀ prepared : PreparedFolderTransfer, prepared.Placed manifest →
    (peer prepared.response).bytes <+: (joined content (prepared.rest manifest)).drop prepared.offset

/-- A beginning of the content. -/
def Receivable.of (content : Option FolderEntry → Bytes) : Receivable := fun e c => c.toBytes <+: content e

theorem measured_of (h : Fitting offer manifest content) : Measured offer manifest (.of content) :=
  ⟨fun _ => List.nil_prefix, fun hk _ hc => h.file hk ▸ hc.length_le, fun e he _ hc => h.entry e he ▸ hc.length_le⟩

/-- What is sent from an offset on continues what is there up to it. -/
theorem prefix_continue {whole start taken : Bytes} (hstart : start <+: whole) (h : taken <+: whole.drop start.length) :
    start ++ taken <+: whole := by
  obtain ⟨rest, rfl⟩ := hstart
  rw [List.drop_left' rfl] at h
  exact (List.prefix_append_right_inj start).mpr h

theorem suited_of {entries : List FolderEntry} {offset : Nat} {bytes : Bytes}
    (hsize : ∀ e ∈ entries, (content (some e)).length = e.size)
    (hplaced : ∀ e es, entries = e :: es → offset ≤ e.size) (h : bytes <+: (joined content entries).drop offset) :
    Suited (fun e => Receivable.of content (some e)) entries offset bytes := by
  induction entries generalizing offset bytes with
  | nil => trivial
  | cons e entries ih =>
    have he := hsize e List.mem_cons_self
    have hoffset := hplaced e entries rfl
    have hjoined : joined content (e :: entries) = content (some e) ++ joined content entries := List.flatMap_cons
    rw [hjoined] at h
    refine ⟨fun c c' hc hlength taken htaken hless hc' => ?_, ih (fun f hf => hsize f (List.mem_cons_of_mem _ hf))
      (fun _ _ _ => Nat.zero_le _) ?_⟩
    · have hlength : c.toBytes.length = offset := hlength
      have hle : offset ≤ (content (some e)).length := he ▸ hoffset
      have hdrop := htaken.trans h
      rw [List.drop_append_of_le_length hle] at hdrop
      have htake : taken <+: (content (some e)).drop offset :=
        List.prefix_of_prefix_length_le hdrop (List.prefix_append _ _) (by rw [List.length_drop, he]; exact hless)
      change c'.toBytes <+: content (some e)
      rw [hc']
      exact prefix_continue hc (hlength ▸ htake)
    · have hrest := List.IsPrefix.drop h (e.size - offset)
      rwa [List.drop_drop, Nat.add_sub_of_le hoffset, ← he, List.drop_left' rfl, he] at hrest

theorem feeds_of (hfit : Fitting offer manifest content) (h : Honest offer manifest content peer) :
    Feeds offer manifest (.of content) peer := by
  rw [Feeds]
  cases hk : offer.kind with
  | file =>
    intro c c' hc taken htaken _ hc'
    have hle : FileData.size c ≤ offer.size := hfit.file hk ▸ List.IsPrefix.length_le hc
    change c'.toBytes <+: content none
    rw [hc']
    exact prefix_continue hc (htaken.trans (h.file hk _ hle))
  | folderV1 =>
    intro prepared hplaced
    exact suited_of (fun e he => hfit.entry e (List.mem_of_mem_drop he)) (fun _ _ => hplaced.le_size)
      (h.folder hk prepared hplaced)

/-- What is there of the item is the beginning of it. -/
structure Beginning (s : TransferStore) (offer : TransferOffer) (manifest : FolderManifest)
    (content : Option FolderEntry → Bytes) (w : World) : Prop where
  part : offer.kind = .file → ∀ c, w.fs.get (s.stateFile offer "part") = some (.file c) → c.toBytes <+: content none
  staged : offer.kind = .folderV1 → ∀ e ∈ manifest.files, ∀ c,
    w.fs.get (place (s.staging offer) e.path) = some (.file c) → c.toBytes <+: content (some e)

/-- The item at its destination is the whole of it. -/
structure Entire (s : TransferStore) (offer : TransferOffer) (manifest : FolderManifest)
    (content : Option FolderEntry → Bytes) (d : String) (w : World) : Prop where
  file : offer.kind = .file → ∃ c, w.fs.get (d :: s.destinationRoot offer) = some (.file c) ∧ c.toBytes = content none
  folder : offer.kind = .folderV1 → ∀ e ∈ manifest.files, ∃ c,
    w.fs.get (place (d :: s.destinationRoot offer) e.path) = some (.file c) ∧ c.toBytes = content (some e)

theorem Stage.beginning (h : Stage L s offer manifest (Gathered s offer manifest (.of content)) w₀ w) :
    Beginning s offer manifest content w := by
  refine ⟨fun hk c hc => ?_, fun hk e he c hc => ?_⟩
  · have hitem := h.item
    rw [gathered_file hk] at hitem
    obtain ⟨c', hc', hC⟩ := hitem.resolve_left (by simp [hc])
    obtain rfl := Node.file.inj (Option.some.inj (hc.symm.trans hc'))
    exact hC
  · have hitem := h.item
    rw [gathered_folder hk] at hitem
    have hthere : w.fs.get (s.staging offer) ≠ none := fun hn => by
      cases hc.symm.trans (absent_below (statePath_ne_nil _) hn (suffix_place _ _))
    have hholding := hitem.resolve_left hthere
    by_cases hpath : e.path = ""
    · rw [hpath, place_empty, hholding.root_dir] at hc
      cases hc
    · have hplace : place (s.staging offer) e.path = _ := place_of_ne hpath
      rw [hplace] at hc
      exact (hholding.below _ (by simpa using components_ne_nil e.path) _ hc).1.content e he hplace.symm c rfl

theorem Landed.beginning (h : Landed L s offer manifest d w) : Beginning s offer manifest content w := by
  have hgone := h.gone
  refine ⟨fun hk c hc => ?_, fun hk e he c hc => ?_⟩
  · rw [hk] at hgone
    cases hc.symm.trans hgone
  · rw [folder_item hk] at hgone
    cases hc.symm.trans (absent_below (statePath_ne_nil _) hgone (suffix_place _ _))

/-- A beginning that is as long as the whole is the whole. -/
theorem Landed.entire (hfit : Fitting offer manifest content) (h : Landed L s offer manifest d w)
    (hheld : HeldAs s offer manifest (.of content) d w) : Entire s offer manifest content d w := by
  refine ⟨fun hk => ?_, fun hk e he => ?_⟩
  · rw [heldAs_file hk] at hheld
    obtain ⟨c, hprefix, hc⟩ := hheld
    obtain ⟨c', hc', hsize, -⟩ := h.file hk
    obtain rfl := Node.file.inj (Option.some.inj (hc.symm.trans hc'))
    exact ⟨c, hc, List.IsPrefix.eq_of_length hprefix (hsize.trans (hfit.file hk).symm)⟩
  · rw [heldAs_folder hk] at hheld
    obtain ⟨c, hprefix, hc⟩ := hheld e he
    obtain ⟨hmem, hfile⟩ := List.mem_filter.mp he
    obtain ⟨n, hn, his⟩ := (h.folder hk).2.there e hmem
    simp only [FolderEntry.Is, of_decide_eq_true hfile] at his
    obtain ⟨c', rfl, hsize, -⟩ := his
    obtain rfl := Node.file.inj (Option.some.inj (hc.symm.trans hn))
    exact ⟨c, hc, List.IsPrefix.eq_of_length hprefix (hsize.trans (hfit.entry e he).symm)⟩

end Sender

attribute [local instance] Sample.externals

namespace Sample

/-- What the letters say. -/
def script : Option FolderEntry → Bytes
  | none => [65]
  | some e => if e.path = "a" then [65] else if e.path = "c" then [66] else []

/-- A sender that sends `limit` bytes at most. -/
def sender (manifest : FolderManifest) (content : Option FolderEntry → Bytes) (limit : Nat) : Peer
  | .resume offset => ⟨((content none).drop offset).take limit, [], .finished⟩
  | .folderResume fileIndex offset _ =>
    ⟨((joined content (manifest.files.drop fileIndex)).drop offset).take limit, [], .finished⟩
  | _ => ⟨[], [], .finished⟩

theorem honest_sender (offer : TransferOffer) (manifest : FolderManifest) (content : Option FolderEntry → Bytes)
    (limit : Nat) : Honest offer manifest content (sender manifest content limit) :=
  ⟨fun _ _ _ => List.take_prefix _ _, fun _ _ _ => List.take_prefix _ _⟩

theorem fitting_letters : Fitting folder letters script := ⟨fun hk => (by cases hk), by decide +kernel⟩

end Sample

end InkHole
