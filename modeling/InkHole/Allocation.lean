import InkHole.Operations
import InkHole.StateFiles

/-! The names that the search for a free one asks a file system for, where the file
system bounds the length of a name. -/

set_option linter.unusedSectionVars false

namespace InkHole

open Fallible FileTree

/-- The file system takes an entry of this name. -/
def ShortName (name : String) : Prop := name.utf8ByteSize ≤ 255

instance (name : String) : Decidable (ShortName name) := inferInstanceAs (Decidable (_ ≤ _))

/-! Lengths. -/

theorem splitExtension_append (filename : String) :
    (splitExtension filename).1 ++ (splitExtension filename).2 = filename := by
  have hsplit := List.takeWhile_append_dropWhile (p := (· != '.')) (l := filename.toList.reverse)
  simp only [splitExtension]
  generalize hextension : filename.toList.reverse.takeWhile (· != '.') = extension at *
  generalize hrest : filename.toList.reverse.dropWhile (· != '.') = rest at *
  split
  · exact String.append_empty
  · next hstem =>
    have hlist : filename.toList = rest.reverse ++ extension.reverse := by
      rw [← List.reverse_append, hsplit, List.reverse_reverse]
    cases rest with
    | nil =>
      rw [← hsplit] at hstem
      simp at hstem
    | cons c rest =>
      have hdot : c = '.' := by
        have hhead := List.head?_dropWhile_not (· != '.') filename.toList.reverse
        rw [hrest] at hhead
        simpa using hhead
      subst hdot
      have hdrop : filename.toList.reverse.drop (extension.length + 1) = rest := by
        rw [← hsplit, List.drop_append]
        simp
      rw [hdrop, ← String.toList_inj, hlist]
      simp

/-- Digits take one byte each. -/
theorem digits_bytes (index : Nat) : (toString index).utf8ByteSize = (Nat.toDigits 10 index).length := by
  rw [Nat.toString_eq_ofList_toDigits]
  refine utf8ByteSize_ascii fun c hc => ?_
  have hdigit := Nat.isDigit_of_mem_toDigits (by omega) (by omega) hc
  simp only [Char.isDigit, Bool.and_eq_true, decide_eq_true_eq] at hdigit
  exact UInt32.le_trans hdigit.2 (by decide)

theorem candidate_bytes (stem extension : String) (index : Nat) :
    (stem ++ " (" ++ toString index ++ ")" ++ extension).utf8ByteSize =
      stem.utf8ByteSize + extension.utf8ByteSize + 3 + (Nat.toDigits 10 index).length := by
  simp only [String.utf8ByteSize_append, digits_bytes]
  have hopen : " (".utf8ByteSize = 2 := by decide
  have hclose : ")".utf8ByteSize = 1 := by decide
  omega

theorem digits_le {index : Nat} (hi : index < 2 ^ 32) : (Nat.toDigits 10 index).length ≤ 10 := by
  rw [Nat.length_toDigits_le_iff (by omega) (by omega)]
  omega

theorem digits_last : (Nat.toDigits 10 (2 ^ 32 - 1)).length = 10 := by decide

section Search

variable [Externals]

/-- The file system does not refuse the call for the length of a name. -/
def Call.accepted {β : Type} : Call β → Prop
  | .fs op => ∀ p ∈ op.paths, ∀ name ∈ p, ShortName name
  | _ => True

/-- A search for a name asks for none that is refused, and ends with none. -/
def Finds (search : CoreM String) (w : World) : Prop :=
  search.run.Asks Call.accepted (fun r => ∀ name, r = .ok name → ShortName name) w

/-- The search of a commit for the name of its item. -/
def TransferStore.Deliverable (s : TransferStore) (offer : TransferOffer) (w : World) : Prop :=
  Finds (uniqueDestination (s.destinationRoot offer) (StoredOffer.of offer).filename) w

/-! Short names. -/

theorem accepts_child {root : Path} {name : String} (hroot : ∀ name ∈ root, ShortName name)
    (hname : ShortName name) : Call.accepted (.fs (.tryExists (name :: root) : FsOp Contents Bool)) := by
  intro p hp n hn
  obtain rfl := List.mem_singleton.mp hp
  rcases List.mem_cons.mp hn with rfl | hn
  · exact hname
  · exact hroot n hn

theorem accepted_uniqueFrom {root : Path} (hroot : ∀ name ∈ root, ShortName name)
    {stem extension : String} (hshort : stem.utf8ByteSize + extension.utf8ByteSize ≤ 242)
    {fuel index : Nat} (hi : index + fuel ≤ 2 ^ 32) :
    Uses Call.accepted ShortName (TransferStore.uniqueFrom root stem extension fuel index) := by
  induction fuel generalizing index with
  | zero => exact uses_throw _
  | succ fuel ih =>
    have hbytes := candidate_bytes stem extension index
    have hdigits := digits_le (show index < 2 ^ 32 by omega)
    rw [TransferStore.uniqueFrom]
    generalize stem ++ " (" ++ toString index ++ ")" ++ extension = candidate at *
    have haccepted : ShortName candidate := by
      rw [ShortName]
      omega
    refine uses_bind (uses_fs (accepts_child hroot haccepted)) fun there _ => ?_
    cases there with
    | false => exact uses_pure haccepted
    | true => exact ih (by omega)

theorem accepted_uniqueDestination {root : Path} (hroot : ∀ name ∈ root, ShortName name)
    {filename : String} (hshort : filename.utf8ByteSize ≤ 242) :
    Uses Call.accepted ShortName (TransferStore.uniqueDestination root filename) := by
  have haccepted : ShortName filename := by
    rw [ShortName]
    omega
  have hparts := congrArg String.utf8ByteSize (splitExtension_append filename)
  rw [String.utf8ByteSize_append] at hparts
  rw [TransferStore.uniqueDestination]
  refine uses_bind (uses_fs (accepts_child hroot haccepted)) fun there _ => ?_
  have hlast : 2 + (2 ^ 32 - 2) ≤ 2 ^ 32 := by omega
  split
  · exact uses_pure haccepted
  · exact accepted_uniqueFrom hroot (hparts ▸ hshort) hlast

/-! Directories in which the names of a list are taken. -/

/-- A directory of files, on a file system where all names are short. -/
structure Shelf (t : FileTree Contents) (root : Path) : Prop where
  real : t.Real root
  dir : root = [] ∨ t.get root = some .dir
  short : ∀ name p, t.get (name :: p) ≠ none → ShortName name
  files : ∀ name, t.get (name :: root) = none ∨ t.get (name :: root) = some (.file FileData.empty)

theorem Shelf.put {t : FileTree Contents} {root : Path} {name : String} (h : Shelf t root)
    (hname : ShortName name) : ∃ t', Shelf t' root ∧
      FileTree.Sets t t' (name :: root) (some (.file FileData.empty)) := by
  have hreal : t.Real (name :: root) := by
    rcases h.dir with rfl | hd
    · intro q hq hne
      exact .inl (List.suffix_nil.mp ((List.suffix_cons_iff.mp hq).resolve_left hne))
    · exact Real.child hd name
  have hnot : t.get (name :: root) ≠ some .dir := by
    rcases h.files name with hn | hn <;> simp [hn]
  obtain ⟨t', -, hs⟩ := hreal.putOr (List.cons_ne_nil _ _) (.inr hnot)
  have hroot : ∀ q, q <:+ root → t'.get q = t.get q := fun q hq => hs.off (ne_of_suffix_tail hq)
  refine ⟨t', ⟨fun q hq hne => ?_, ?_, fun other p hp => ?_, fun other => ?_⟩, hs⟩
  · rw [hroot q hq]
    exact h.real q hq hne
  · rw [hroot root List.suffix_rfl]
    exact h.dir
  · rw [hs] at hp
    split at hp
    · next he => exact (List.cons.inj he).1 ▸ hname
    · exact h.short other p hp
  · rw [hs]
    split
    · exact .inr rfl
    · exact h.files other

/-- A chain of directories with nothing at its end. -/
theorem exists_shelf {root : Path} (hroot : ∀ name ∈ root, ShortName name) :
    ∃ t, Shelf t root ∧ ∀ name, t.get (name :: root) = none := by
  suffices h : ∃ t, Shelf t root ∧ ∀ q, ¬ q <:+ root → t.get q = none by
    obtain ⟨t, ht, hnone⟩ := h
    exact ⟨t, ht, fun name => hnone _ fun hs => ne_of_suffix_tail hs rfl⟩
  induction root with
  | nil =>
    refine ⟨FileTree.empty, ⟨?_, .inl rfl, ?_, ?_⟩, fun q hq => rfl⟩
    · exact fun q hq hne => absurd (List.suffix_nil.mp hq) hne
    · exact fun name p hp => absurd rfl hp
    · exact fun name => .inl rfl
  | cons name root ih =>
    obtain ⟨t, h, hnone⟩ := ih fun n hn => hroot n (List.mem_cons_of_mem name hn)
    have hreal : t.Real (name :: root) := by
      rcases h.dir with rfl | hd
      · intro q hq hne
        exact .inl (List.suffix_nil.mp ((List.suffix_cons_iff.mp hq).resolve_left hne))
      · exact Real.child hd name
    obtain ⟨t', -, hs⟩ := hreal.putOr (n := .dir) (List.cons_ne_nil _ _) (.inl rfl)
    refine ⟨t', ⟨Real.of_get hs.at, .inr hs.at, fun other p hp => ?_, fun other => .inl ?_⟩, fun q hq => ?_⟩
    · rw [hs] at hp
      split at hp
      · next he => exact (List.cons.inj he).1 ▸ hroot name List.mem_cons_self
      · exact h.short other p hp
    · rw [hs.off (List.cons_ne_self other _)]
      exact hnone _ fun hq => ne_of_suffix_tail ((List.suffix_cons _ _).trans hq) rfl
    · rw [hs.off fun he => hq (he ▸ List.suffix_rfl)]
      exact hnone q fun hq' => hq (hq'.trans (List.suffix_cons name root))

theorem exists_full {root : Path} (hroot : ∀ name ∈ root, ShortName name) {names : List String}
    (hnames : ∀ name ∈ names, ShortName name) :
    ∃ t, Shelf t root ∧ ∀ name ∈ names, t.get (name :: root) = some (.file FileData.empty) := by
  induction names with
  | nil =>
    obtain ⟨t, h, -⟩ := exists_shelf hroot
    exact ⟨t, h, by simp⟩
  | cons name names ih =>
    obtain ⟨t, h, hfull⟩ := ih fun n hn => hnames n (List.mem_cons_of_mem name hn)
    obtain ⟨t', h', hs⟩ := h.put (hnames name List.mem_cons_self)
    refine ⟨t', h', fun other hother => ?_⟩
    rw [hs]
    split
    · rfl
    · next hne =>
      rcases List.mem_cons.mp hother with rfl | hother
      · exact absurd rfl hne
      · exact hfull other hother

/-! Long names. -/

/-- A name that the search asks for is accepted, and if it is there the search goes on. -/
theorem finds_tryExists {root : Path} {name : String} {w : World} {f : Bool → CoreM String}
    (h : Finds (CoreM.fs (.tryExists (name :: root)) >>= f) w) :
    ShortName name ∧ (w.fs.get (name :: root) = some (.file FileData.empty) → Finds (f true) w) := by
  refine ⟨h.1 _ (List.mem_singleton.mpr rfl) _ List.mem_cons_self, fun hget => ?_⟩
  have hgoes := h.2
  have hthere : ((FsOp.tryExists (name :: root) : FsOp Contents Bool).exec w.fs).1 = .ok true :=
    exists?_of_get hget rfl
  have hexec := exec_reads (show (FsOp.tryExists (name :: root) : FsOp Contents Bool).Reads from trivial) w
  rw [hexec, hthere] at hgoes
  exact hgoes

attribute [irreducible] Finds

theorem accepted_of_uniqueFrom {root : Path} {stem extension : String} {w : World}
    (hfull : ∀ index, ShortName (stem ++ " (" ++ toString index ++ ")" ++ extension) →
      2 ≤ index → index < 2 ^ 32 →
      w.fs.get ((stem ++ " (" ++ toString index ++ ")" ++ extension) :: root) = some (.file FileData.empty))
    {fuel index : Nat} (hindex : 2 ≤ index) (hlast : index + fuel ≤ 2 ^ 32)
    (h : Finds (TransferStore.uniqueFrom root stem extension fuel index) w)
    {asked : Nat} (hask : index ≤ asked) (hless : asked < index + fuel) :
    ShortName (stem ++ " (" ++ toString asked ++ ")" ++ extension) := by
  induction fuel generalizing index with
  | zero => omega
  | succ fuel ih =>
    rw [TransferStore.uniqueFrom] at h
    obtain ⟨haccepted, hgoes⟩ := finds_tryExists h
    by_cases he : asked = index
    · exact he ▸ haccepted
    · have hthere := hfull index haccepted hindex (by omega)
      exact ih (by omega) (by omega) (hgoes hthere) (by omega) (by omega)

/-- The names up to a number that the file system takes. -/
theorem exists_names (filename stem extension : String) (count : Nat) :
    ∃ names : List String, (∀ name ∈ names, ShortName name) ∧
      (ShortName filename → filename ∈ names) ∧
      ∀ index, ShortName (stem ++ " (" ++ toString index ++ ")" ++ extension) → index < count →
        stem ++ " (" ++ toString index ++ ")" ++ extension ∈ names := by
  refine ⟨(filename :: (List.range count).map fun index =>
    stem ++ " (" ++ toString index ++ ")" ++ extension).filter fun name => decide (ShortName name), ?_, ?_, ?_⟩
  · exact fun name hn => of_decide_eq_true (List.mem_filter.mp hn).2
  · exact fun ha => List.mem_filter.mpr ⟨List.mem_cons_self, decide_eq_true ha⟩
  · intro index ha hi
    refine List.mem_filter.mpr ⟨List.mem_cons_of_mem _ ?_, decide_eq_true ha⟩
    exact List.mem_map.mpr ⟨index, List.mem_range.mpr hi, rfl⟩

/-- A name is found for an offer, whatever is in the directory, exactly if there is room for the
longest number. -/
theorem deliverable_iff {s : TransferStore} {offer : TransferOffer}
    (hroot : ∀ name ∈ s.destinationRoot offer, ShortName name) :
    (∀ w : World, (∀ name p, w.fs.get (name :: p) ≠ none → ShortName name) → s.Deliverable offer w) ↔
      (safeFilename offer.filename).utf8ByteSize ≤ 242 := by
  constructor
  · intro h
    cases hsplit : splitExtension (safeFilename offer.filename) with | mk stem extension
    have hparts := congrArg String.utf8ByteSize (splitExtension_append (safeFilename offer.filename))
    rw [hsplit, String.utf8ByteSize_append] at hparts
    simp only at hparts
    -- all names that the search may ask for and the file system takes are there
    obtain ⟨names, hnames, hfirst, hnumbered⟩ :=
      exists_names (safeFilename offer.filename) stem extension (2 ^ 32)
    obtain ⟨t, hshelf, hfull⟩ := exists_full hroot hnames
    have hdeliverable := h ⟨t, 0, []⟩ hshelf.short
    rw [TransferStore.Deliverable, TransferStore.uniqueDestination] at hdeliverable
    obtain ⟨haccepted, hgoes⟩ := finds_tryExists hdeliverable
    have hsearch := hgoes (hfull _ (hfirst haccepted))
    simp only [StoredOffer.of, hsplit, Bool.not_true, Bool.false_eq_true, if_false] at hsearch
    have hlast : 2 + (2 ^ 32 - 2) ≤ 2 ^ 32 := by omega
    have hlong := accepted_of_uniqueFrom (fun index ha _ hi => hfull _ (hnumbered index ha hi)) le_rfl hlast
      hsearch (show 2 ≤ 2 ^ 32 - 1 by omega) (by omega)
    rw [ShortName, candidate_bytes, digits_last] at hlong
    omega
  · intro h w _
    rw [TransferStore.Deliverable, Finds]
    exact (uses_run.mp (accepted_uniqueDestination hroot h)).asks w

end Search

attribute [local instance] Sample.externals

theorem Sample.accepted (name : String) (p : Path) (hp : Sample.world.fs.get (name :: p) ≠ none) :
    ShortName name := by
  have hkeys : ∀ e ∈ Sample.tree.entries, ShortName (e.1.headD "") := by decide +kernel
  obtain ⟨e, he, hkey⟩ := List.lookup_isSome_iff.mp (Option.isSome_iff_ne_none.mpr hp)
  have haccepted := hkeys e he
  rwa [← beq_iff_eq.mp hkey] at haccepted

theorem deliverable_sample : (Sample.store 0).Deliverable Sample.first Sample.world := by
  have hroot : ∀ name ∈ (Sample.store 0).destinationRoot Sample.first, ShortName name := by decide +kernel
  exact (deliverable_iff hroot).mpr (by decide +kernel) Sample.world Sample.accepted

/-- A name of 256 bytes is offered and accepted, and no directory takes it. -/
theorem long_name_refused :
    let offer := { Sample.first with filename := String.ofList (List.replicate 256 'a') }
    offer.validate = .ok () ∧
      (∀ name p, Sample.world.fs.get (name :: p) ≠ none → ShortName name) ∧
      ¬ (Sample.store 0).Deliverable offer Sample.world := by
  refine ⟨by decide +kernel, Sample.accepted, fun h => ?_⟩
  have hsafe : safeCharacters (List.replicate 256 'a') = List.replicate 256 'a' := by decide +kernel
  have hbytes : (String.ofList (List.replicate 256 'a')).utf8ByteSize = 256 := by decide +kernel
  have hname : ShortName (safeFilename (String.ofList (List.replicate 256 'a'))) := (finds_tryExists h).1
  rw [safeFilename, String.toList_ofList, hsafe, ShortName, hbytes] at hname
  omega

end InkHole
