import InkHole.Allocation
import InkHole.Codes
import InkHole.SafeNames

/-! Which files of an inbox the app takes for the core's own, and which received items it lists. -/

set_option linter.unusedSectionVars false

namespace InkHole

open Fallible

/-- Text is put into lower case one character at a time. -/
class Lowercase where
  lower : Char → List Char
  lower_ascii : ∀ c, c.toNat < 128 → lower c = [c.toLower]

def hidden (segment : List Char) : Bool := segment.head? == some '.'

def segments (path : String) : List (List Char) :=
  (path.toList.map fun c => if c = '\\' then '/' else c).splitOn '/'

section Filter

variable [Lowercase]

def toLowerCase (cs : List Char) : List Char := cs.flatMap Lowercase.lower

def endsWith (ending : String) (cs : List Char) : Bool := ending.toList.isSuffixOf (toLowerCase cs)

def isInboxInternalFile (path : String) : Bool :=
  if (segments path).any hidden then true
  else endsWith ".part" path.toList || endsWith ".json" path.toList || endsWith ".commit" path.toList ||
    endsWith ".metadata" path.toList

structure ReceivedFile where
  name : String
  path : String
  size : Nat
  receivedAt : Int
  sender : String

/-- `decode` reads a line of the stored history, if it can be read. -/
def loadReceivedRecords (decode : String → Option ReceivedFile) (lines : List String) : List ReceivedFile :=
  (lines.filterMap decode).filter fun record => !isInboxInternalFile record.path

end Filter

/-! The text of a path. -/

def pathText : Path → String
  | [] => ""
  | name :: p => pathText p ++ "/" ++ name

def hiddenName (name : String) : Bool := (segments name).any hidden

theorem segments_child (parent name : String) : segments (parent ++ "/" ++ name) = segments parent ++ segments name := by
  have hl : (parent ++ "/" ++ name).toList = parent.toList ++ '/' :: name.toList := by simp
  rw [segments, hl, List.map_append, List.map_cons, if_neg (by decide), List.splitOn_append_cons_self]
  rfl

theorem hidden_pathText (p : Path) : (segments (pathText p)).any hidden = p.any hiddenName := by
  induction p with
  | nil => rfl
  | cons name p ih =>
    rw [pathText, segments_child, List.any_append, ih, List.any_cons, hiddenName, Bool.or_comm]

theorem segments_plain {name : String} (hs : '/' ∉ name.toList) (hb : '\\' ∉ name.toList) :
    segments name = [name.toList] := by
  have hmap : name.toList.map (fun c => if c = '\\' then '/' else c) = name.toList := by
    conv_rhs => rw [← List.map_id name.toList]
    refine List.map_congr_left fun c hc => ?_
    have hne : c ≠ '\\' := by
      rintro rfl
      exact hb hc
    rw [if_neg hne]
    rfl
  rw [segments, hmap, List.splitOn_eq_singleton hs]

theorem hiddenName_plain {name : String} (hs : '/' ∉ name.toList) (hb : '\\' ∉ name.toList) :
    hiddenName name = hidden name.toList := by
  rw [hiddenName, segments_plain hs hb, List.any_cons, List.any_nil, Bool.or_false]

theorem pathText_append (names : List String) (root : Path) :
    (pathText (names.reverse ++ root)).toList =
      (pathText root).toList ++ names.flatMap fun name => '/' :: name.toList := by
  induction names generalizing root with
  | nil => simp
  | cons name names ih =>
    have hroot : (name :: names).reverse ++ root = names.reverse ++ (name :: root) := by simp
    rw [hroot, ih (name :: root), pathText, List.flatMap_cons]
    simp

theorem slash_components (relative : String) :
    (components relative).flatMap (fun name => '/' :: name.toList) = '/' :: relative.toList := by
  obtain ⟨first, rest, hsplit⟩ := List.exists_cons_of_ne_nil (List.splitOn_ne_nil '/' relative.toList)
  have hlist : relative.toList = ['/'].intercalate (relative.toList.splitOn '/') :=
    (List.intercalate_splitOn '/').symm
  rw [components, List.flatMap_map, hsplit] at *
  rw [hlist, Codes.intercalate_cons]
  simp

theorem components_subset {relative component : String} (h : component ∈ components relative) :
    component.toList ⊆ relative.toList := by
  intro c hc
  have hin : c ∈ (components relative).flatMap fun name => '/' :: name.toList :=
    List.mem_flatMap.mpr ⟨component, h, List.mem_cons_of_mem '/' hc⟩
  rw [slash_components] at hin
  rcases List.mem_cons.mp hin with rfl | hin
  · exact absurd hc (not_mem_components h)
  · exact hin

theorem pathText_place (root : Path) {relative : String} (h : relative ≠ "") :
    (pathText (place root relative)).toList = (pathText root).toList ++ '/' :: relative.toList := by
  rw [place_of_ne h, pathText_append, slash_components]

/-! Endings. -/

theorem suffix_below {ending x y : List Char} (h : '/' ∉ ending) : ending <:+ x ++ '/' :: y ↔ ending <:+ y := by
  constructor
  · intro hs
    rcases List.suffix_or_suffix_of_suffix hs (List.suffix_append x ('/' :: y)) with hshort | hlong
    · rcases List.suffix_cons_iff.mp hshort with rfl | hy
      · exact absurd List.mem_cons_self h
      · exact hy
    · exact absurd (hlong.subset List.mem_cons_self) h
  · intro hy
    exact hy.trans ((List.suffix_cons '/' y).trans (List.suffix_append x ('/' :: y)))

section Endings

variable [Lowercase]

theorem endsWith_below {ending : String} (h : '/' ∉ ending.toList) (x y : List Char) :
    endsWith ending (x ++ '/' :: y) = endsWith ending y := by
  have hslash : Lowercase.lower '/' = ['/'] := Lowercase.lower_ascii '/' (by decide)
  have hlower : toLowerCase (x ++ '/' :: y) = toLowerCase x ++ '/' :: toLowerCase y := by
    rw [toLowerCase, List.flatMap_append, List.flatMap_cons, hslash]
    rfl
  rw [endsWith, endsWith, hlower, Bool.eq_iff_iff, List.isSuffixOf_iff_suffix, List.isSuffixOf_iff_suffix]
  exact suffix_below h

theorem isInboxInternalFile_below {p : Path} {x y : List Char} (h : (pathText p).toList = x ++ '/' :: y) :
    isInboxInternalFile (pathText p) = (p.any hiddenName || endsWith ".part" y || endsWith ".json" y ||
      endsWith ".commit" y || endsWith ".metadata" y) := by
  rw [isInboxInternalFile, hidden_pathText, h, endsWith_below (by decide), endsWith_below (by decide),
    endsWith_below (by decide), endsWith_below (by decide)]
  cases p.any hiddenName <;> rfl

end Endings

/-! The destinations of a store. -/

/-- The name of an item under its root. Where others have its name already, it gets a number. -/
def destinationName (raw : String) : Option Nat → String
  | none => safeFilename raw
  | some index =>
    (splitExtension (safeFilename raw)).1 ++ " (" ++ toString index ++ ")" ++ (splitExtension (safeFilename raw)).2

theorem destinationName_chars {raw : String} {index : Option Nat} {c : Char}
    (h : c ∈ (destinationName raw index).toList) :
    c ∈ (safeFilename raw).toList ∨ c ∈ " ()".toList ∨ c.isDigit = true := by
  cases index with
  | none => exact .inl h
  | some index =>
    have hparts := congrArg String.toList (splitExtension_append (safeFilename raw))
    rw [String.toList_append] at hparts
    rw [destinationName] at h
    simp only [String.toList_append, List.mem_append] at h
    rw [← hparts, List.mem_append]
    rcases h with (((h | h) | h) | h) | h
    · exact .inl (.inl h)
    · have hopen : " (".toList ⊆ " ()".toList := by decide
      exact .inr (.inl (hopen h))
    · rw [Nat.toString_eq_ofList_toDigits, String.toList_ofList] at h
      exact .inr (.inr (Nat.isDigit_of_mem_toDigits (by omega) (by omega) h))
    · have hclose : ")".toList ⊆ " ()".toList := by decide
      exact .inr (.inl (hclose h))
    · exact .inl (.inr h)

theorem destinationName_plain (raw : String) (index : Option Nat) :
    '/' ∉ (destinationName raw index).toList ∧ '\\' ∉ (destinationName raw index).toList := by
  have hsafe := (safeFilename_portable raw).2.2.2.2.2.1
  constructor
  · intro h
    rcases destinationName_chars h with hc | hc | hc
    · exact (hsafe _ hc).1 rfl
    · exact absurd hc (by decide)
    · exact absurd hc (by decide)
  · intro h
    rcases destinationName_chars h with hc | hc | hc
    · exact (hsafe _ hc).2.1 rfl
    · exact absurd hc (by decide)
    · exact absurd hc (by decide)

section Names

variable [Externals]

theorem uses_uniqueFrom (root : Path) (raw : String) (fuel index : Nat) :
    Uses (fun _ => True) (fun name => ∃ index, name = destinationName raw index)
      (TransferStore.uniqueFrom root (splitExtension (safeFilename raw)).1
        (splitExtension (safeFilename raw)).2 fuel index) := by
  induction fuel generalizing index with
  | zero => exact uses_throw _
  | succ fuel ih =>
    rw [TransferStore.uniqueFrom]
    refine uses_bind (uses_fs trivial) fun there _ => ?_
    cases there with
    | false => exact uses_pure ⟨some index, rfl⟩
    | true => exact ih (index + 1)

/-- The names that a search for a free one comes to. -/
theorem uses_uniqueDestination (root : Path) (raw : String) :
    Uses (fun _ => True) (fun name => ∃ index, name = destinationName raw index)
      (TransferStore.uniqueDestination root (safeFilename raw)) := by
  have hfrom := uses_uniqueFrom root raw (2 ^ 32 - 2) 2
  rw [TransferStore.uniqueDestination]
  refine uses_bind (uses_fs trivial) fun there _ => ?_
  split
  · exact uses_pure ⟨none, rfl⟩
  · cases hsplit : splitExtension (safeFilename raw) with
    | mk stem extension =>
      rw [hsplit] at hfrom
      exact hfrom

end Names

/-- A component of the item begins with a dot. -/
def concealed (name relative : String) : Bool :=
  hidden name.toList || (components relative).any fun component => hidden component.toList

/-- The text below the root. -/
def itemText (name relative : String) : List Char :=
  if relative = "" then name.toList else name.toList ++ '/' :: relative.toList

theorem pathText_item (root : Path) (name relative : String) :
    (pathText (place (name :: root) relative)).toList =
      (pathText root).toList ++ '/' :: itemText name relative := by
  by_cases h : relative = ""
  · rw [h, place_empty, pathText, itemText, if_pos rfl]
    simp
  · rw [pathText_place _ h, pathText, itemText, if_neg h]
    simp

theorem any_hiddenName {name relative : String} {root : Path} (hroot : ∀ n ∈ root, hiddenName n = false)
    (hname : '/' ∉ name.toList ∧ '\\' ∉ name.toList) (hrelative : '\\' ∉ relative.toList) :
    (place (name :: root) relative).any hiddenName = concealed name relative := by
  have hany : root.any hiddenName = false := any_false_iff.mpr hroot
  have hnames : (name :: root).any hiddenName = hidden name.toList := by
    rw [List.any_cons, hany, Bool.or_false, hiddenName_plain hname.1 hname.2]
  by_cases h : relative = ""
  · rw [h, place_empty, hnames, concealed, components_plain (by decide)]
    simp [hidden]
  · have hcomponents : (components relative).any hiddenName =
        (components relative).any fun component => hidden component.toList := by
      rw [Bool.eq_iff_iff, List.any_eq_true, List.any_eq_true]
      refine exists_congr fun component => and_congr_right fun hc => ?_
      rw [hiddenName_plain (not_mem_components hc) fun hb => hrelative (components_subset hc hb)]
    rw [place_of_ne h, List.any_append, List.any_reverse, hcomponents, hnames, concealed, Bool.or_comm]

theorem no_backslash_of_valid {relative : String}
    (h : relative = "" ∨ validateFolderRelativePath relative = .ok ()) : '\\' ∉ relative.toList := by
  rcases h with rfl | h
  · decide
  · rw [validateFolderRelativePath] at h
    split at h
    · cases h
    · next hcond =>
      simp only [not_or] at hcond
      exact hcond.2.2.2.2.1

section Classification

variable [Lowercase]

theorem isInboxInternalFile_item {root : Path} (hroot : ∀ n ∈ root, hiddenName n = false) (raw : String)
    (index : Option Nat) {relative : String}
    (h : relative = "" ∨ validateFolderRelativePath relative = .ok ()) :
    isInboxInternalFile (pathText (place (destinationName raw index :: root) relative)) =
      (concealed (destinationName raw index) relative ||
        endsWith ".part" (itemText (destinationName raw index) relative) ||
        endsWith ".json" (itemText (destinationName raw index) relative) ||
        endsWith ".commit" (itemText (destinationName raw index) relative) ||
        endsWith ".metadata" (itemText (destinationName raw index) relative)) := by
  rw [isInboxInternalFile_below (pathText_item root _ relative),
    any_hiddenName hroot (destinationName_plain raw index) (no_backslash_of_valid h)]

/-- What lies in the state directory is the core's own. -/
theorem isInboxInternalFile_state {p : Path} (h : stateDirectory ∈ p) : isInboxInternalFile (pathText p) = true := by
  have hany : p.any hiddenName = true := List.any_eq_true.mpr ⟨stateDirectory, h, by decide⟩
  rw [isInboxInternalFile, hidden_pathText, hany]
  rfl

end Classification

def StatePaths.all (paths : StatePaths) : List Path :=
  [paths.part, paths.folderPart, paths.metadata, paths.manifest, paths.commit, paths.done]

theorem stateDirectory_mem (s : TransferStore) (offer : TransferOffer) {p : Path} (h : p ∈ (s.paths offer).all) :
    ∃ name, p = name :: stateDirectory :: s.destinationRoot offer := by
  simp only [StatePaths.all, TransferStore.paths, Path.withExtension, List.mem_cons, List.not_mem_nil,
    or_false] at h
  rcases h with rfl | rfl | rfl | rfl | rfl | rfl <;> exact ⟨_, rfl⟩

/-- The core's own files are never listed. A received item is listed unless its path looks like that of
a hidden or a temporary file. -/
theorem inbox_classification [Lowercase] (s : TransferStore) :
    (∀ offer, ∀ p ∈ (s.paths offer).all, ∀ inner uuid,
      isInboxInternalFile (pathText (inner ++ p)) = true ∧
        isInboxInternalFile (pathText (p.withExtension ("tmp-" ++ uuid))) = true) ∧
    ∀ root : Path, (∀ name ∈ root, hiddenName name = false) → ∀ raw index relative,
      (relative = "" ∨ validateFolderRelativePath relative = .ok ()) →
      ((concealed (destinationName raw index) relative = false →
          endsWith ".part" (itemText (destinationName raw index) relative) = false →
          endsWith ".json" (itemText (destinationName raw index) relative) = false →
          endsWith ".commit" (itemText (destinationName raw index) relative) = false →
          endsWith ".metadata" (itemText (destinationName raw index) relative) = false →
        isInboxInternalFile (pathText (place (destinationName raw index :: root) relative)) = false ∧
          ∀ decode line lines record, line ∈ lines → decode line = some record →
            record.path = pathText (place (destinationName raw index :: root) relative) →
            record ∈ loadReceivedRecords decode lines) ∧
        (concealed (destinationName raw index) relative = true ∨
          endsWith ".part" (itemText (destinationName raw index) relative) = true ∨
          endsWith ".commit" (itemText (destinationName raw index) relative) = true ∨
          endsWith ".metadata" (itemText (destinationName raw index) relative) = true →
        isInboxInternalFile (pathText (place (destinationName raw index :: root) relative)) = true)) := by
  constructor
  · intro offer p hp inner uuid
    obtain ⟨name, rfl⟩ := stateDirectory_mem s offer hp
    exact ⟨isInboxInternalFile_state (by simp), isInboxInternalFile_state (by simp [Path.withExtension])⟩
  · intro root hroot raw index relative hrelative
    have hitem := isInboxInternalFile_item hroot raw index hrelative
    constructor
    · intro hconcealed hpart hjson hcommit hmetadata
      rw [hconcealed, hpart, hjson, hcommit, hmetadata] at hitem
      refine ⟨hitem, fun decode line lines record hline hdecode hpath => ?_⟩
      refine List.mem_filter.mpr ⟨List.mem_filterMap.mpr ⟨line, hline, hdecode⟩, ?_⟩
      rw [hpath, hitem]
      rfl
    · intro hinternal
      rw [hitem]
      rcases hinternal with h | h | h | h
      · simp [h]
      · simp [h]
      · simp [h]
      · simp [h]

/-- Lower case where all characters are ASCII. -/
abbrev asciiLowercase : Lowercase := ⟨fun c => [c.toLower], fun _ _ => rfl⟩

theorem temporary_item_internal : ¬ ∀ (root : Path), (∀ name ∈ root, hiddenName name = false) →
    ∀ raw index relative, (relative = "" ∨ validateFolderRelativePath relative = .ok ()) →
      @isInboxInternalFile asciiLowercase (pathText (place (destinationName raw index :: root) relative)) = false := by
  intro h
  have hitem := h ["inbox"] (by decide) "holiday.jpg.part" none "" (.inl rfl)
  exact absurd hitem (by decide +kernel)

end InkHole
