import InkHole.Exporter
import InkHole.Json

/-! When an export is atomic: the source is replaced by a complete copy, or nothing has changed. -/

set_option linter.unusedSectionVars false

namespace InkHole

namespace Exporter

open Patterns ReceiveFiles

/-! The names that are found are free. -/

theorem digits_injective : Function.Injective fun n : Nat => toString n := by
  intro m n h
  simp only [Nat.toString_eq_ofList_toDigits] at h
  exact Json.toDigits_injective (String.ofList_injective h)

theorem numbered_injective (name : String) : Function.Injective (numbered name) := by
  intro m n h
  have hlist := congrArg String.toList h
  simp only [numbered, String.toList_append, List.append_cancel_right_eq, List.append_cancel_left_eq] at hlist
  exact digits_injective (String.toList_inj.mp hlist)

theorem numberedDirectory_injective (name : String) : Function.Injective (numberedDirectory name) := by
  intro m n h
  have hlist := congrArg String.toList h
  simp only [numberedDirectory, String.toList_append, List.append_cancel_right_eq,
    List.append_cancel_left_eq] at hlist
  exact digits_injective (String.toList_inj.mp hlist)

theorem unique_not_mem {number : String → Nat → String} {name : String}
    (hinj : Function.Injective (number name)) (there : List String) : unique number there name ∉ there := by
  rw [unique]
  split
  · exact firstFree_not_mem hinj there 2
  · next hfree => exact hfree

theorem length_le_longest {rows : List MediaRow} {row : MediaRow} (h : row ∈ rows) :
    row.relativePath.length ≤ (rows.map fun row => row.relativePath.length).foldr max 0 := by
  induction rows with
  | nil => cases h
  | cons first rows ih =>
    rw [List.map_cons, List.foldr_cons]
    rcases List.mem_cons.mp h with rfl | h
    · exact Nat.le_max_left _ _
    · exact (ih h).trans (Nat.le_max_right _ _)

/-- A path that matches the pattern of a numbered folder is at least as long as the number. -/
theorem digits_le_of_like {name : String} {n : Nat} {path : List Char}
    (h : like ("Download/InkHole/".toList ++ (numberedDirectory name n).toList ++ "/%".toList) path = true) :
    (Nat.toDigits 10 n).length ≤ path.length := by
  have hlength := length_of_like h
  have hdigits : (Nat.toDigits 10 n).filter (· ≠ '%') = Nat.toDigits 10 n := by
    refine List.filter_eq_self.mpr fun c hc => ?_
    have hdigit := Nat.isDigit_of_mem_toDigits (by omega) (by omega) hc
    have hne : c ≠ '%' := by
      rintro rfl
      cases hdigit
    simpa using hne
  have hname : (numberedDirectory name n).toList = name.toList ++ " (".toList ++ Nat.toDigits 10 n ++ ")".toList := by
    simp only [numberedDirectory, String.toList_append, Nat.toString_eq_ofList_toDigits, String.toList_ofList]
  rw [hname] at hlength
  simp only [List.filter_append, List.length_append, hdigits] at hlength
  omega

theorem folder_free_of_large {env : Environment} {rows : List MediaRow} {name : String} {n : Nat}
    (h : searchBound rows ≤ n) : mediaStoreFolderExists env rows (numberedDirectory name n) = false := by
  unfold mediaStoreFolderExists
  rw [Bool.and_eq_false_iff]
  refine .inr (List.any_eq_false.mpr fun row hrow hlike => ?_)
  have hshort := length_le_longest hrow
  have hlong := digits_le_of_like hlike
  rw [searchBound] at h
  generalize (rows.map fun row => row.relativePath.length).foldr max 0 = longest at *
  have hdigits : (Nat.toDigits 10 n).length ≤ longest + 1 := by omega
  rw [Nat.length_toDigits_le_iff (by omega) (by omega)] at hdigits
  omega

/-- The name that is found for a folder has no row. -/
theorem uniqueMediaStoreFolderName_free (env : Environment) (rows : List MediaRow) (name : String) :
    mediaStoreFolderExists env rows (uniqueMediaStoreFolderName env rows name) = false := by
  rw [uniqueMediaStoreFolderName]
  split
  · generalize htaken : (fun n => mediaStoreFolderExists env rows (numberedDirectory name n)) = taken
    have hbound : taken (searchBound rows + 1) = false := by
      rw [← htaken]
      exact folder_free_of_large (Nat.le_succ _)
    have hpositive : 0 < searchBound rows := Nat.pow_pos (by omega)
    have hfree := firstFree_free (show 2 ≤ searchBound rows + 1 by omega)
      (show searchBound rows + 1 < 2 + searchBound rows by omega) hbound
    generalize firstFree taken (searchBound rows) 2 = found at *
    rw [← htaken] at hfree
    exact hfree
  · next hnot => simpa using hnot

/-! Complete copies. -/

/-- A name and what it may become: safe, and with a number. -/
def Named (name target : String) : Prop :=
  ∃ base, (base = name ∨ base = safeName name) ∧
    (target = base ∨ (∃ n, target = numbered base n) ∨ ∃ n, target = numberedDirectory base n)

inductive CopiesOf : Entries → List Document → Prop where
  | nil : CopiesOf .nil []
  | file {name target : String} {data : Bytes} {rest : Entries} {docs : List Document} :
    Named name target → CopiesOf rest docs →
    CopiesOf (.file name data rest) (.file target data true :: docs)
  | folder {name target : String} {inside rest : Entries} {inner docs : List Document} :
    Named name target → CopiesOf inside inner → CopiesOf rest docs →
    CopiesOf (.folder name inside rest) (.folder target inner :: docs)

/-- A complete copy of an item. -/
inductive CopyOf : Received → Document → Prop where
  | file {name target : String} {data : Bytes} : Named name target →
    CopyOf (.file name data) (.file target data true)
  | folder {name target : String} {entries : Entries} {inner : List Document} : Named name target →
    CopiesOf entries inner → CopyOf (.folder name entries) (.folder target inner)

/-- The entries with their paths, and whether they are files. -/
def Entries.items : List String → Entries → List (List String × Bool)
  | _, .nil => []
  | path, .file name _ rest => (name :: path, true) :: Entries.items path rest
  | path, .folder name inside rest =>
    (name :: path, false) :: (Entries.items (name :: path) inside ++ Entries.items path rest)

/-- No step of the copy of an entry fails. -/
def Passes (faults : CopyFaults) (item : List String × Bool) : Prop :=
  faults.created item.1 = true ∧ (item.2 = true → faults.opened item.1 = true ∧ faults.broken item.1 = none)

def AllPass (faults : CopyFaults) (items : List (List String × Bool)) : Prop := ∀ item ∈ items, Passes faults item

structure Faithful (naming : Naming) : Prop where
  file : ∀ there name, Named name (naming.file there name)
  folder : ∀ there name, Named name (naming.folder there name)

theorem named_self (name : String) : Named name name := ⟨name, .inl rfl, .inl rfl⟩

theorem named_safeName (name : String) : Named name (safeName name) := ⟨safeName name, .inr rfl, .inl rfl⟩

theorem unique_cases (number : String → Nat → String) (there : List String) (name : String) :
    unique number there name = name ∨ ∃ n, unique number there name = number name n := by
  rw [unique]
  split
  · exact .inr ⟨_, rfl⟩
  · exact .inl rfl

theorem named_uniqueDocumentName (there : List String) (name : String) :
    Named name (uniqueDocumentName there (safeName name)) := by
  refine ⟨safeName name, .inr rfl, ?_⟩
  rcases unique_cases numbered there (safeName name) with h | ⟨n, h⟩
  · exact .inl h
  · exact .inr (.inl ⟨n, h⟩)

theorem named_uniqueFile (there : List String) (name : String) : Named name (uniqueFile there name) := by
  refine ⟨name, .inl rfl, ?_⟩
  rcases unique_cases numbered there name with h | ⟨n, h⟩
  · exact .inl h
  · exact .inr (.inl ⟨n, h⟩)

theorem named_uniqueDirectory (there : List String) (name : String) : Named name (uniqueDirectory there name) := by
  refine ⟨name, .inl rfl, ?_⟩
  rcases unique_cases numberedDirectory there name with h | ⟨n, h⟩
  · exact .inl h
  · exact .inr (.inr ⟨n, h⟩)

theorem faithful_documentNaming : Faithful documentNaming where
  file there name := by
    rw [documentNaming]
    exact named_uniqueDocumentName there name
  folder there name := by
    simp only [documentNaming]
    exact named_safeName name

theorem faithful_plainNaming : Faithful plainNaming := ⟨fun _ => named_self, fun _ => named_self⟩

/-! What a copy comes to. -/

variable {naming : Naming} {faults : CopyFaults} {path there : List String} {name : String} {data : Bytes}
  {inside rest entries : Entries}

theorem copyInto_file_uncreated (h : faults.created (name :: path) = false) :
    copyInto naming faults path there (.file name data rest) = (false, []) := by
  rw [copyInto, h]
  rfl

theorem copyInto_file_unopened (hc : faults.created (name :: path) = true)
    (h : faults.opened (name :: path) = false) :
    copyInto naming faults path there (.file name data rest) =
      (false, [.file (naming.file there name) [] false]) := by
  rw [copyInto, hc, h]
  rfl

theorem copyInto_file_broken {bytes : Nat} (hc : faults.created (name :: path) = true)
    (ho : faults.opened (name :: path) = true) (h : faults.broken (name :: path) = some bytes) :
    copyInto naming faults path there (.file name data rest) =
      (false, [.file (naming.file there name) (data.take bytes) false]) := by
  rw [copyInto, hc, ho, h]
  rfl

theorem copyInto_file (hc : faults.created (name :: path) = true) (ho : faults.opened (name :: path) = true)
    (h : faults.broken (name :: path) = none) :
    copyInto naming faults path there (.file name data rest) =
      ((copyInto naming faults path (there ++ [naming.file there name]) rest).1,
        .file (naming.file there name) data true ::
          (copyInto naming faults path (there ++ [naming.file there name]) rest).2) := by
  rw [copyInto, hc, ho, h]
  rfl

theorem copyInto_folder_uncreated (h : faults.created (name :: path) = false) :
    copyInto naming faults path there (.folder name inside rest) = (false, []) := by
  rw [copyInto, h]
  rfl

theorem copyInto_folder_inside (hc : faults.created (name :: path) = true)
    (h : (copyInto naming faults (name :: path) [] inside).1 = false) :
    copyInto naming faults path there (.folder name inside rest) =
      (false, [.folder (naming.folder there name) (copyInto naming faults (name :: path) [] inside).2]) := by
  rw [copyInto, hc]
  simp only [h, Bool.not_true, Bool.not_false, Bool.false_eq_true, if_false, if_true]

theorem copyInto_folder (hc : faults.created (name :: path) = true)
    (h : (copyInto naming faults (name :: path) [] inside).1 = true) :
    copyInto naming faults path there (.folder name inside rest) =
      ((copyInto naming faults path (there ++ [naming.folder there name]) rest).1,
        .folder (naming.folder there name) (copyInto naming faults (name :: path) [] inside).2 ::
          (copyInto naming faults path (there ++ [naming.folder there name]) rest).2) := by
  rw [copyInto, hc]
  simp only [h, Bool.not_true, Bool.false_eq_true, if_false]

theorem not_copiesOf_nil (h : entries ≠ .nil) : ¬ CopiesOf entries [] := by
  intro hcopies
  cases hcopies
  exact h rfl

/-- A file that is not closed is no complete copy. -/
theorem not_copiesOf_open {target : String} {written : Bytes} {docs : List Document} :
    ¬ CopiesOf (.file name data rest) (.file target written false :: docs) := by
  intro h
  cases h

theorem copyInto_spec (hn : Faithful naming) (faults : CopyFaults) (path there : List String) (entries : Entries) :
    ((copyInto naming faults path there entries).1 = true ∧ AllPass faults (Entries.items path entries) ∧
      CopiesOf entries (copyInto naming faults path there entries).2) ∨
    ((copyInto naming faults path there entries).1 = false ∧ ¬ AllPass faults (Entries.items path entries) ∧
      ¬ CopiesOf entries (copyInto naming faults path there entries).2) := by
  induction entries generalizing path there with
  | nil => exact .inl ⟨rfl, fun _ h => absurd h List.not_mem_nil, .nil⟩
  | file name data rest ih =>
    rw [Entries.items, AllPass, List.forall_mem_cons, ← AllPass]
    cases hc : faults.created (name :: path) with
    | false =>
      rw [copyInto_file_uncreated hc]
      refine .inr ⟨rfl, fun hpass => ?_, not_copiesOf_nil (by rintro ⟨⟩)⟩
      exact absurd (hc.symm.trans hpass.1.1) (by decide)
    | true =>
      cases ho : faults.opened (name :: path) with
      | false =>
        rw [copyInto_file_unopened hc ho]
        refine .inr ⟨rfl, fun hpass => ?_, not_copiesOf_open⟩
        exact absurd (ho.symm.trans (hpass.1.2 rfl).1) (by decide)
      | true =>
        cases hb : faults.broken (name :: path) with
        | some bytes =>
          rw [copyInto_file_broken hc ho hb]
          refine .inr ⟨rfl, fun hpass => ?_, not_copiesOf_open⟩
          cases hb.symm.trans (hpass.1.2 rfl).2
        | none =>
          rw [copyInto_file hc ho hb]
          rcases ih path (there ++ [naming.file there name]) with ⟨hdone, hpass, hcopies⟩ | ⟨hdone, hpass, hcopies⟩
          · exact .inl ⟨hdone, ⟨⟨hc, fun _ => ⟨ho, hb⟩⟩, hpass⟩, .file (hn.file _ _) hcopies⟩
          · refine .inr ⟨hdone, fun h => hpass h.2, fun h => ?_⟩
            cases h with
            | file _ hrest => exact hcopies hrest
  | folder name inside rest ihi ihr =>
    rw [Entries.items, AllPass, List.forall_mem_cons, List.forall_mem_append, ← AllPass, ← AllPass]
    cases hc : faults.created (name :: path) with
    | false =>
      rw [copyInto_folder_uncreated hc]
      refine .inr ⟨rfl, fun hpass => ?_, not_copiesOf_nil (by rintro ⟨⟩)⟩
      exact absurd (hc.symm.trans hpass.1.1) (by decide)
    | true =>
      rcases ihi (name :: path) [] with ⟨hinner, hinside, hcopiesInside⟩ | ⟨hinner, hinside, hcopiesInside⟩
      · rw [copyInto_folder hc hinner]
        rcases ihr path (there ++ [naming.folder there name]) with ⟨hdone, hpass, hcopies⟩ | ⟨hdone, hpass, hcopies⟩
        · refine .inl ⟨hdone, ⟨⟨hc, fun h => ?_⟩, hinside, hpass⟩, .folder (hn.folder _ _) hcopiesInside hcopies⟩
          cases h
        · refine .inr ⟨hdone, fun h => hpass h.2.2, fun h => ?_⟩
          cases h with
          | folder _ _ hrest => exact hcopies hrest
      · rw [copyInto_folder_inside hc hinner]
        refine .inr ⟨rfl, fun h => hinside h.2.1, fun h => ?_⟩
        cases h with
        | folder _ hin _ => exact hcopiesInside hin

/-! What becomes of the rows of files. -/

def Writes (faults : CopyFaults) (path : List String) : Prop :=
  faults.created path = true ∧ faults.opened path = true ∧ faults.broken path = none

def pendingRow (file : MediaFile) : MediaRow := ⟨file.directory, file.name, true, file.data⟩

def publishedRow (file : MediaFile) : MediaRow := ⟨file.directory, file.name, false, file.data⟩

/-- What can come of one file: its row, or an error with a pending row or with none. -/
theorem insertRow_cases (faults : CopyFaults) (file : MediaFile) :
    (Writes faults file.path ∧ insertRow faults file = (true, some (pendingRow file))) ∨
    (¬ Writes faults file.path ∧ faults.created file.path = true ∧
      ∃ row, row.pending = true ∧ insertRow faults file = (false, some row)) ∨
    (¬ Writes faults file.path ∧ faults.created file.path = false ∧ insertRow faults file = (false, none)) := by
  rw [insertRow, Writes]
  cases hc : faults.created file.path with
  | false => exact .inr (.inr ⟨fun h => absurd h.1 (by decide), rfl, rfl⟩)
  | true =>
    cases ho : faults.opened file.path with
    | false => exact .inr (.inl ⟨fun h => absurd h.2.1 (by decide), rfl, _, rfl, rfl⟩)
    | true =>
      cases hb : faults.broken file.path with
      | some bytes => exact .inr (.inl ⟨fun h => (by cases h.2.2), rfl, _, rfl, rfl⟩)
      | none => exact .inl ⟨⟨rfl, rfl, rfl⟩, rfl⟩

theorem insertRows_next {files : List MediaFile} {file : MediaFile} (h : Writes faults file.path) :
    insertRows faults (file :: files) =
      ((insertRows faults files).1, (file.path, pendingRow file) :: (insertRows faults files).2) := by
  rcases insertRow_cases faults file with ⟨-, hrow⟩ | ⟨hnot, -⟩ | ⟨hnot, -⟩
  · rw [insertRows, hrow]
    rfl
  · exact absurd h hnot
  · exact absurd h hnot

theorem insertRows_stop {files : List MediaFile} {file : MediaFile} (h : ¬ Writes faults file.path) :
    insertRows faults (file :: files) =
      (false, (insertRow faults file).2.toList.map fun row => (file.path, row)) := by
  have hfirst : (insertRow faults file).1 = false := by
    rcases insertRow_cases faults file with ⟨hwrites, -⟩ | ⟨-, -, row, -, hrow⟩ | ⟨-, -, hrow⟩
    · exact absurd hwrites h
    · rw [hrow]
    · rw [hrow]
  rw [insertRows, hfirst]
  rfl

theorem insertRows_done (files : List MediaFile) :
    ((insertRows faults files).1 = true ↔ ∀ path ∈ files.map MediaFile.path, Writes faults path) ∧
      ((insertRows faults files).1 = true →
        (insertRows faults files).2 = files.map fun file => (file.path, pendingRow file)) := by
  induction files with
  | nil => exact ⟨⟨fun _ _ h => absurd h List.not_mem_nil, fun _ => rfl⟩, fun _ => rfl⟩
  | cons file files ih =>
    rw [List.map_cons, List.forall_mem_cons]
    by_cases h : Writes faults file.path
    · rw [insertRows_next h, List.map_cons]
      refine ⟨⟨fun hdone => ⟨h, ih.1.mp hdone⟩, fun hall => ih.1.mpr hall.2⟩, fun hdone => ?_⟩
      rw [ih.2 hdone]
    · rw [insertRows_stop h]
      refine ⟨⟨fun hdone => (by cases hdone), fun hall => absurd hall.1 h⟩, fun hdone => (by cases hdone)⟩

theorem insertRows_pending {files : List MediaFile} {row : List String × MediaRow}
    (h : row ∈ (insertRows faults files).2) : row.2.pending = true := by
  induction files with
  | nil => cases h
  | cons file files ih =>
    by_cases hw : Writes faults file.path
    · rw [insertRows_next hw] at h
      rcases List.mem_cons.mp h with rfl | h
      · rfl
      · exact ih h
    · rw [insertRows_stop hw] at h
      obtain ⟨r, hr, rfl⟩ := List.mem_map.mp h
      rcases insertRow_cases faults file with ⟨hwrites, -⟩ | ⟨-, -, row, hpending, hrow⟩ | ⟨-, -, hrow⟩
      · exact absurd hwrites hw
      · rw [hrow] at hr
        obtain rfl := List.mem_singleton.mp hr
        exact hpending
      · rw [hrow] at hr
        cases hr

/-- The files that get a row are those up to the first one that is not written. -/
theorem insertRows_paths (files : List MediaFile) (path : List String) :
    path ∈ (insertRows faults files).2.map Prod.fst ↔
      ∃ before after, files.map MediaFile.path = before ++ path :: after ∧
        (∀ q ∈ before, Writes faults q) ∧ faults.created path = true := by
  induction files with
  | nil =>
    constructor
    · intro h
      cases h
    · rintro ⟨before, after, hsplit, -⟩
      simp at hsplit
  | cons file files ih =>
    by_cases hw : Writes faults file.path
    · rw [insertRows_next hw, List.map_cons, List.mem_cons, ih, List.map_cons]
      constructor
      · rintro (rfl | ⟨before, after, hsplit, hbefore, hcreated⟩)
        · exact ⟨[], files.map MediaFile.path, rfl, fun _ h => absurd h List.not_mem_nil, hw.1⟩
        · refine ⟨file.path :: before, after, by rw [hsplit]; rfl, ?_, hcreated⟩
          exact List.forall_mem_cons.mpr ⟨hw, hbefore⟩
      · rintro ⟨before, after, hsplit, hbefore, hcreated⟩
        cases before with
        | nil => exact .inl (List.cons.inj hsplit).1.symm
        | cons q before =>
          exact .inr ⟨before, after, (List.cons.inj hsplit).2, (List.forall_mem_cons.mp hbefore).2, hcreated⟩
    · have hsingle : path ∈ (insertRows faults (file :: files)).2.map Prod.fst ↔
          path = file.path ∧ faults.created file.path = true := by
        rw [insertRows_stop hw]
        rcases insertRow_cases faults file with ⟨hwrites, -⟩ | ⟨-, hcreated, row, -, hrow⟩ | ⟨-, hcreated, hrow⟩
        · exact absurd hwrites hw
        · rw [hrow, hcreated]
          simp
        · rw [hrow, hcreated]
          simp
      rw [hsingle, List.map_cons]
      constructor
      · rintro ⟨rfl, hcreated⟩
        exact ⟨[], files.map MediaFile.path, rfl, fun _ h => absurd h List.not_mem_nil, hcreated⟩
      · rintro ⟨before, after, hsplit, hbefore, hcreated⟩
        cases before with
        | nil =>
          obtain rfl := (List.cons.inj hsplit).1
          exact ⟨rfl, hcreated⟩
        | cons q before =>
          obtain rfl := (List.cons.inj hsplit).1
          exact absurd (hbefore _ List.mem_cons_self) hw

theorem publishRows_paths (published : List String → Bool) (rows : List (List String × MediaRow)) :
    (publishRows published rows).2.map Prod.fst = rows.map Prod.fst := by
  induction rows with
  | nil => rfl
  | cons row rows ih =>
    rw [publishRows]
    cases hp : published row.1 with
    | false => rfl
    | true => simpa using ih

theorem publishRows_done (published : List String → Bool) (rows : List (List String × MediaRow)) :
    ((publishRows published rows).1 = true ↔ ∀ row ∈ rows, published row.1 = true) ∧
      ((publishRows published rows).1 = true →
        (publishRows published rows).2 = rows.map fun row => (row.1, { row.2 with pending := false })) ∧
      ((publishRows published rows).1 = false → (∀ row ∈ rows, row.2.pending = true) →
        ∃ row ∈ (publishRows published rows).2, row.2.pending = true) := by
  induction rows with
  | nil => exact ⟨⟨fun _ _ h => absurd h List.not_mem_nil, fun _ => rfl⟩, fun _ => rfl, fun h => by cases h⟩
  | cons row rows ih =>
    rw [publishRows, List.forall_mem_cons, List.forall_mem_cons]
    cases hp : published row.1 with
    | false =>
      refine ⟨⟨fun h => (by cases h), fun h => absurd h.1 (by decide)⟩, fun h => (by cases h), fun _ hall => ?_⟩
      exact ⟨row, List.mem_cons_self, hall.1⟩
    | true =>
      refine ⟨⟨fun h => ⟨rfl, ih.1.mp h⟩, fun h => ih.1.mpr h.2⟩, fun h => ?_, fun h hall => ?_⟩
      · rw [List.map_cons, ← ih.2.1 h]
        rfl
      · obtain ⟨r, hr, hpending⟩ := ih.2.2 h hall.2
        exact ⟨r, List.mem_cons_of_mem _ hr, hpending⟩

/-- All rows are filled and published. -/
def RowsPass (env : Environment) (paths : List (List String)) : Prop :=
  ∀ path ∈ paths, Writes env.media path ∧ env.published path = true

/-- A row that was inserted before the failure is not deleted again. -/
def RowStays (env : Environment) (paths : List (List String)) : Prop :=
  ∃ before path after, paths = before ++ path :: after ∧ (∀ q ∈ before, Writes env.media q) ∧
    env.media.created path = true ∧ env.withdrawn path = false

theorem exportRows_of_pass {env : Environment} {files : List MediaFile}
    (h : RowsPass env (files.map MediaFile.path)) :
    exportRows env files = (true, files.map publishedRow) := by
  obtain ⟨hdone, hrows⟩ := @insertRows_done env.media files
  have hinserted := hdone.mpr fun path hp => (h path hp).1
  have hpublished : (publishRows env.published (insertRows env.media files).2).1 = true := by
    refine (publishRows_done _ _).1.mpr fun row hrow => ?_
    rw [hrows hinserted] at hrow
    obtain ⟨file, hfile, rfl⟩ := List.mem_map.mp hrow
    exact (h file.path (List.mem_map_of_mem hfile)).2
  have hlist := (publishRows_done _ _).2.1 hpublished
  rw [exportRows]
  simp only [hinserted, if_true, hpublished]
  rw [hlist, hrows hinserted, List.map_map, List.map_map]
  rfl

theorem insertRows_length (files : List MediaFile) : (insertRows faults files).2.length ≤ files.length := by
  induction files with
  | nil => exact Nat.le_refl 0
  | cons file files ih =>
    by_cases hw : Writes faults file.path
    · rw [insertRows_next hw, List.length_cons, List.length_cons]
      omega
    · rw [insertRows_stop hw, List.length_map, List.length_cons]
      have hrow : (insertRow faults file).2.toList.length ≤ 1 := by
        cases (insertRow faults file).2 with
        | none => exact Nat.zero_le 1
        | some row => exact Nat.le_refl 1
      omega

/-- What is left of rows that were not all published is not the rows of a complete export. -/
theorem filter_ne_published {env : Environment} {files others : List MediaFile}
    {rows : List (List String × MediaRow)} (hlength : rows.length ≤ files.length)
    (hopen : rows.length = files.length → ∃ row ∈ rows, row.2.pending = true)
    (hothers : others.length = files.length) :
    (rows.filter fun row => !env.withdrawn row.1).map Prod.snd ≠ others.map publishedRow := by
  intro heq
  have hlist := congrArg List.length heq
  rw [List.length_map, List.length_map] at hlist
  have hfilter := List.length_filter_le (fun row => !env.withdrawn row.1) rows
  obtain ⟨row, hrow, hpending⟩ := hopen (by omega)
  have hsame : (rows.filter fun row => !env.withdrawn row.1).length = rows.length := by omega
  have hall := List.length_filter_eq_length_iff.mp hsame row hrow
  have hin : row.2 ∈ (rows.filter fun row => !env.withdrawn row.1).map Prod.snd :=
    List.mem_map_of_mem (List.mem_filter.mpr ⟨hrow, hall⟩)
  rw [heq] at hin
  obtain ⟨file, -, hfile⟩ := List.mem_map.mp hin
  rw [← hfile] at hpending
  cases hpending

theorem filter_nonempty_iff {env : Environment} {files : List MediaFile} {rows : List (List String × MediaRow)}
    (h : rows.map Prod.fst = (insertRows env.media files).2.map Prod.fst) :
    (rows.filter fun row => !env.withdrawn row.1).map Prod.snd ≠ [] ↔
      RowStays env (files.map MediaFile.path) := by
  rw [ne_eq, List.map_eq_nil_iff, List.filter_eq_nil_iff]
  constructor
  · intro hnot
    push Not at hnot
    obtain ⟨row, hrow, hstays⟩ := hnot
    have hpath : row.1 ∈ (insertRows env.media files).2.map Prod.fst := by
      rw [← h]
      exact List.mem_map_of_mem hrow
    obtain ⟨before, after, hsplit, hbefore, hcreated⟩ := (insertRows_paths files row.1).mp hpath
    exact ⟨before, row.1, after, hsplit, hbefore, hcreated, by simpa using hstays⟩
  · rintro ⟨before, path, after, hsplit, hbefore, hcreated, hstays⟩ hall
    have hpath := (insertRows_paths files path).mpr ⟨before, after, hsplit, hbefore, hcreated⟩
    rw [← h] at hpath
    obtain ⟨row, hrow, rfl⟩ := List.mem_map.mp hpath
    exact hall row hrow (by simp [hstays])

theorem exportRows_of_not_pass {env : Environment} {files : List MediaFile}
    (h : ¬ RowsPass env (files.map MediaFile.path)) :
    (exportRows env files).1 = false ∧
      (∀ others : List MediaFile, others.length = files.length →
        (exportRows env files).2 ≠ others.map publishedRow) ∧
      ((exportRows env files).2 ≠ [] ↔ RowStays env (files.map MediaFile.path)) := by
  obtain ⟨hdone, hrows⟩ := @insertRows_done env.media files
  obtain ⟨rows, hrest, hpaths, hopen⟩ : ∃ rows : List (List String × MediaRow),
      exportRows env files = (false, (rows.filter fun row => !env.withdrawn row.1).map Prod.snd) ∧
        rows.map Prod.fst = (insertRows env.media files).2.map Prod.fst ∧
        (rows.length = files.length → ∃ row ∈ rows, row.2.pending = true) := by
    by_cases hinserted : (insertRows env.media files).1 = true
    · have hnot : (publishRows env.published (insertRows env.media files).2).1 = false := by
        rw [← Bool.not_eq_true]
        intro hpublished
        refine h fun path hp => ⟨hdone.mp hinserted path hp, ?_⟩
        obtain ⟨file, hfile, rfl⟩ := List.mem_map.mp hp
        have hall := (publishRows_done _ _).1.mp hpublished
        rw [hrows hinserted] at hall
        exact hall (file.path, pendingRow file) (List.mem_map_of_mem hfile)
      refine ⟨(publishRows env.published (insertRows env.media files).2).2, ?_, publishRows_paths _ _, fun _ => ?_⟩
      · rw [exportRows]
        simp only [hinserted, if_true, hnot, Bool.false_eq_true, if_false]
      · exact (publishRows_done _ _).2.2 hnot fun row => insertRows_pending
    · refine ⟨(insertRows env.media files).2, ?_, rfl, fun hlength => ?_⟩
      · rw [exportRows]
        simp only [hinserted, Bool.false_eq_true, if_false]
      · cases hempty : (insertRows env.media files).2 with
        | nil =>
          rw [hempty, List.length_nil] at hlength
          obtain rfl := List.length_eq_zero_iff.mp hlength.symm
          exact absurd rfl hinserted
        | cons row rows =>
          exact ⟨row, List.mem_cons_self, insertRows_pending (hempty ▸ List.mem_cons_self)⟩
  rw [hrest]
  have hlength : rows.length ≤ files.length := by
    have hsame := congrArg List.length hpaths
    rw [List.length_map, List.length_map] at hsame
    have hbound := @insertRows_length env.media files
    omega
  exact ⟨rfl, fun others hothers => filter_ne_published hlength hopen hothers, filter_nonempty_iff hpaths⟩

/-! Copies in the media store, which has no directories of its own. -/

def Entries.folders : List String → Entries → List (List String)
  | _, .nil => []
  | path, .file _ _ rest => Entries.folders path rest
  | path, .folder name inside rest =>
    (name :: path) :: (Entries.folders (name :: path) inside ++ Entries.folders path rest)

/-- Published rows that are all files of an item. Its folders are there as directories of rows. -/
inductive RowsOf : Received → List MediaRow → Prop where
  | file {name : String} {data : Bytes} : RowsOf (.file name data) [⟨publicInbox, name, false, data⟩]
  | folder {name root : String} {entries : Entries} : Named name root →
    (∀ folder ∈ [] :: Entries.folders [] entries,
      ∃ row ∈ (sortedFiles entries).map (fun file => publishedRow (mediaFile root file)),
        publicInbox ++ root :: folder.reverse <+: row.directory) →
    RowsOf (.folder name entries) ((sortedFiles entries).map fun file => publishedRow (mediaFile root file))

/-- Every folder has a file in it or in a folder below it. -/
def Inhabited (entries : Entries) : Prop :=
  ∀ folder ∈ [] :: Entries.folders [] entries, ∃ file ∈ Entries.files [] entries, folder <:+ file.1.tail

theorem mem_sortedFiles {entries : Entries} {file : List String × Bytes} :
    file ∈ sortedFiles entries ↔ file ∈ Entries.files [] entries :=
  (List.mergeSort_perm _ _).mem_iff

theorem directory_iff {root other : String} {folder : List String} {file : List String × Bytes} :
    publicInbox ++ other :: folder.reverse <+: (publishedRow (mediaFile root file)).directory ↔
      other = root ∧ folder <:+ file.1.tail := by
  change publicInbox ++ other :: folder.reverse <+: publicInbox ++ root :: file.1.tail.reverse ↔ _
  rw [List.prefix_append_right_inj, List.cons_prefix_cons, List.reverse_prefix]

theorem rowsOf_iff {name root : String} {entries : Entries} (hroot : Named name root) :
    RowsOf (.folder name entries) ((sortedFiles entries).map fun file => publishedRow (mediaFile root file)) ↔
      Inhabited entries := by
  constructor
  · intro h
    generalize hrows : (sortedFiles entries).map (fun file => publishedRow (mediaFile root file)) = rows at h
    cases h with
    | folder _ hfolders =>
      intro folder hfolder
      obtain ⟨row, hrow, hdirectory⟩ := hfolders folder hfolder
      rw [← hrows] at hrow
      obtain ⟨file, hfile, rfl⟩ := List.mem_map.mp hrow
      exact ⟨file, mem_sortedFiles.mp hfile, (directory_iff.mp hdirectory).2⟩
  · intro h
    refine .folder hroot fun folder hfolder => ?_
    obtain ⟨file, hfile, hsuffix⟩ := h folder hfolder
    exact ⟨_, List.mem_map_of_mem (mem_sortedFiles.mpr hfile), directory_iff.mpr ⟨rfl, hsuffix⟩⟩

/-- The paths of the files of an item in the order in which they are exported. -/
def pathsOf : Received → List (List String)
  | .file _ _ => [[]]
  | .folder _ entries => (sortedFiles entries).map Prod.fst

/-- All rows of a complete copy are published. -/
theorem RowsOf.published {source : Received} {rows : List MediaRow} (h : RowsOf source rows) :
    ∃ files : List MediaFile, rows = files.map publishedRow ∧ files.length = (pathsOf source).length := by
  cases h with
  | @file name data => exact ⟨[⟨[], publicInbox, name, data⟩], rfl, rfl⟩
  | @folder name root entries =>
    refine ⟨(sortedFiles entries).map (mediaFile root), ?_, ?_⟩
    · rw [List.map_map]
      rfl
    · rw [pathsOf, List.length_map, List.length_map]

/-! What an export to the tree comes to. -/

def itemsOf : Received → List (List String × Bool)
  | .file _ _ => [([], true)]
  | .folder _ entries => ([], false) :: Entries.items [] entries

def isFile : Received → Bool
  | .file _ _ => true
  | .folder _ _ => false

theorem not_copyOf_open {name target : String} {data written : Bytes} :
    ¬ CopyOf (.file name data) (.file target written false) := by
  intro h
  cases h

theorem copyFile_spec {name target : String} (hn : Named name target) (data : Bytes)
    (hc : faults.created [] = true) :
    (AllPass faults (itemsOf (.file name data)) ∧ ∃ doc, copyFile faults target data = (true, [doc]) ∧
      CopyOf (.file name data) doc) ∨
    (¬ AllPass faults (itemsOf (.file name data)) ∧ ∃ doc, copyFile faults target data = (false, [doc]) ∧
      ¬ CopyOf (.file name data) doc) := by
  rw [copyFile]
  cases ho : faults.opened [] with
  | false =>
    refine .inr ⟨fun h => ?_, _, rfl, not_copyOf_open⟩
    have hopened := ((h _ List.mem_cons_self).2 rfl).1
    exact absurd (ho.symm.trans hopened) (by decide)
  | true =>
    cases hb : faults.broken [] with
    | some bytes =>
      refine .inr ⟨fun h => ?_, _, rfl, not_copyOf_open⟩
      cases hb.symm.trans ((h _ List.mem_cons_self).2 rfl).2
    | none =>
      refine .inl ⟨fun item hitem => ?_, _, rfl, .file hn⟩
      obtain rfl := List.mem_singleton.mp hitem
      exact ⟨hc, fun _ => ⟨ho, hb⟩⟩

theorem copyFolder_spec {name target : String} (hn : Named name target) (hnaming : Faithful naming)
    (deleted : Bool) (entries : Entries) (hc : faults.created [] = true) :
    (AllPass faults (itemsOf (.folder name entries)) ∧
      ∃ doc, copyFolder naming faults deleted target entries = (true, [doc]) ∧ CopyOf (.folder name entries) doc) ∨
    (¬ AllPass faults (itemsOf (.folder name entries)) ∧
      ((deleted = true ∧ copyFolder naming faults deleted target entries = (false, [])) ∨
        (deleted = false ∧ ∃ doc, copyFolder naming faults deleted target entries = (false, [doc]) ∧
          ¬ CopyOf (.folder name entries) doc))) := by
  have hitems : AllPass faults (itemsOf (.folder name entries)) ↔ AllPass faults (Entries.items [] entries) := by
    rw [itemsOf, AllPass, List.forall_mem_cons, ← AllPass, Passes]
    simp [hc]
  rw [hitems, copyFolder]
  rcases copyInto_spec hnaming faults [] [] entries with ⟨hdone, hpass, hcopies⟩ | ⟨hdone, hpass, hcopies⟩
  · simp only [hdone, if_true]
    exact .inl ⟨hpass, _, rfl, .folder hn hcopies⟩
  · simp only [hdone, Bool.false_eq_true, if_false]
    refine .inr ⟨hpass, ?_⟩
    cases deleted with
    | true => exact .inl ⟨rfl, rfl⟩
    | false =>
      refine .inr ⟨rfl, _, rfl, fun hcopy => ?_⟩
      cases hcopy with
      | folder _ hinner => exact hcopies hinner

/-- A copy to a directory fails and leaves something there. -/
def Torn (faults : CopyFaults) (deleted : Bool) (source : Received) : Prop :=
  faults.created [] = true ∧ ¬ AllPass faults (itemsOf source) ∧ (isFile source = true ∨ deleted = false)

theorem created_of_allPass {source : Received} (h : AllPass faults (itemsOf source)) :
    faults.created [] = true := by
  cases source with
  | file name data => exact (h _ List.mem_cons_self).1
  | folder name entries => exact (h _ List.mem_cons_self).1

/-- The tree can be used, and all steps of the copy succeed. -/
def TreePasses (env : Environment) (source : Received) : Prop :=
  env.treeAvailable = true ∧ env.treeWritable = true ∧ AllPass env.tree (itemsOf source)

def TreeTorn (env : Environment) (source : Received) : Prop :=
  env.treeAvailable = true ∧ env.treeWritable = true ∧ Torn env.tree env.treeDeleted source

theorem treeLabel_ne (env : Environment) : env.treeLabel ≠ "" := by
  rw [Environment.treeLabel]
  cases h : env.label with
  | none => decide
  | some label =>
    intro he
    exact env.label_ne (by rw [h]; exact congrArg some he)

theorem exportToTree_spec (env : Environment) (source : Received) (p : Places) :
    (TreePasses env source ∧ ∃ outcome doc, outcome.location ≠ "" ∧ CopyOf source doc ∧
      exportToTree env source p = (some outcome, { p with tree := p.tree ++ [doc], source := env.left })) ∨
    (¬ TreePasses env source ∧ ¬ TreeTorn env source ∧ exportToTree env source p = (none, p)) ∨
    (¬ TreePasses env source ∧ TreeTorn env source ∧ ∃ doc, ¬ CopyOf source doc ∧
      exportToTree env source p = (none, { p with tree := p.tree ++ [doc] })) := by
  by_cases hstart : env.treeAvailable = true ∧ env.treeWritable = true ∧ env.tree.created [] = true
  · obtain ⟨ha, hw, hc⟩ := hstart
    rw [exportToTree]
    simp only [ha, hw, hc, Bool.not_true, Bool.or_self, Bool.false_eq_true, if_false]
    have hnamed := named_uniqueDocumentName (p.tree.map Document.name) source.name
    generalize uniqueDocumentName (p.tree.map Document.name) (safeName source.name) = target at *
    cases source with
    | file name data =>
      rcases copyFile_spec hnamed data hc with ⟨hpass, doc, hcopy, hcopies⟩ | ⟨hpass, doc, hcopy, hcopies⟩
      · refine .inl ⟨⟨ha, hw, hpass⟩, ⟨target, env.treeLabel⟩, doc, treeLabel_ne env, hcopies, ?_⟩
        simp only [hcopy, if_true]
      · refine .inr (.inr ⟨fun h => hpass h.2.2, ⟨ha, hw, hc, hpass, .inl rfl⟩, doc, hcopies, ?_⟩)
        simp only [hcopy, Bool.false_eq_true, if_false]
    | folder name entries =>
      rcases copyFolder_spec hnamed faithful_documentNaming env.treeDeleted entries hc with
        ⟨hpass, doc, hcopy, hcopies⟩ | ⟨hpass, ⟨hdeleted, hcopy⟩ | ⟨hdeleted, doc, hcopy, hcopies⟩⟩
      · refine .inl ⟨⟨ha, hw, hpass⟩, ⟨target, env.treeLabel⟩, doc, treeLabel_ne env, hcopies, ?_⟩
        simp only [hcopy, if_true]
      · refine .inr (.inl ⟨fun h => hpass h.2.2, fun h => ?_, ?_⟩)
        · rcases h.2.2.2.2 with hfile | hstays
          · cases hfile
          · cases hstays.symm.trans hdeleted
        · simp only [hcopy, Bool.false_eq_true, if_false, List.append_nil]
      · refine .inr (.inr ⟨fun h => hpass h.2.2, ⟨ha, hw, hc, hpass, .inr hdeleted⟩, doc, hcopies, ?_⟩)
        simp only [hcopy, Bool.false_eq_true, if_false]
  · refine .inr (.inl ⟨fun h => ?_, fun h => hstart ⟨h.1, h.2.1, h.2.2.1⟩, ?_⟩)
    · exact hstart ⟨h.1, h.2.1, created_of_allPass h.2.2⟩
    · rw [exportToTree]
      have hany : (!env.treeAvailable || !env.treeWritable || !env.tree.created []) = true := by
        by_contra hnone
        simp only [Bool.or_eq_true, Bool.not_eq_true', not_or, Bool.not_eq_false] at hnone
        exact hstart ⟨hnone.1.1, hnone.1.2, hnone.2⟩
      rw [if_pos hany]

/-! What an export to the downloads comes to. -/

def DownloadsPass (env : Environment) (source : Received) : Prop :=
  (29 ≤ env.sdk ∧ RowsPass env (pathsOf source)) ∨
    (env.sdk < 29 ∧ env.permission = true ∧ env.directoryMade = true ∧ AllPass env.legacy (itemsOf source))

/-- The export to the downloads fails and leaves something there. -/
def DownloadsTorn (env : Environment) (source : Received) : Prop :=
  (29 ≤ env.sdk ∧ ¬ RowsPass env (pathsOf source) ∧ RowStays env (pathsOf source)) ∨
    (env.sdk < 29 ∧ env.permission = true ∧ env.directoryMade = true ∧
      Torn env.legacy env.legacyDeleted source)

/-- The media store keeps no folder without files. -/
def Representable (env : Environment) (source : Received) : Prop :=
  29 ≤ env.sdk → ∀ name entries, source = .folder name entries → Inhabited entries

/-- What was added to the downloads is a complete copy. -/
def Added (source : Received) (rows : List MediaRow) (docs : List Document) : Prop :=
  (docs = [] ∧ RowsOf source rows) ∨ (rows = [] ∧ ∃ doc, docs = [doc] ∧ CopyOf source doc)

theorem exportRows_cases {env : Environment} {source : Received} {files : List MediaFile}
    (hpaths : files.map MediaFile.path = pathsOf source) :
    (RowsPass env (pathsOf source) ∧ exportRows env files = (true, files.map publishedRow)) ∨
    (¬ RowsPass env (pathsOf source) ∧ (exportRows env files).1 = false ∧
      ¬ RowsOf source (exportRows env files).2 ∧
      ((exportRows env files).2 ≠ [] ↔ RowStays env (pathsOf source))) := by
  rw [← hpaths]
  by_cases hpass : RowsPass env (files.map MediaFile.path)
  · exact .inl ⟨hpass, exportRows_of_pass hpass⟩
  · obtain ⟨hfailed, hnot, hstays⟩ := exportRows_of_not_pass hpass
    refine .inr ⟨hpass, hfailed, fun hrows => ?_, hstays⟩
    obtain ⟨others, hothers, hlength⟩ := hrows.published
    refine hnot others ?_ hothers
    rw [hlength, ← hpaths, List.length_map]

theorem downloadsPass_iff_rows {env : Environment} {source : Received} (h : 29 ≤ env.sdk) :
    DownloadsPass env source ↔ RowsPass env (pathsOf source) := by
  constructor
  · rintro (hrows | hlegacy)
    · exact hrows.2
    · omega
  · exact fun hrows => .inl ⟨h, hrows⟩

theorem downloadsTorn_iff_rows {env : Environment} {source : Received} (h : 29 ≤ env.sdk) :
    DownloadsTorn env source ↔ ¬ RowsPass env (pathsOf source) ∧ RowStays env (pathsOf source) := by
  constructor
  · rintro (hrows | hlegacy)
    · exact hrows.2
    · omega
  · exact fun hrows => .inl ⟨h, hrows⟩

theorem downloadsPass_iff_legacy {env : Environment} {source : Received} (h : ¬ 29 ≤ env.sdk) :
    DownloadsPass env source ↔
      env.permission = true ∧ env.directoryMade = true ∧ AllPass env.legacy (itemsOf source) := by
  constructor
  · rintro (hrows | hlegacy)
    · omega
    · exact hlegacy.2
  · exact fun hlegacy => .inr ⟨by omega, hlegacy⟩

theorem downloadsTorn_iff_legacy {env : Environment} {source : Received} (h : ¬ 29 ≤ env.sdk) :
    DownloadsTorn env source ↔
      env.permission = true ∧ env.directoryMade = true ∧ Torn env.legacy env.legacyDeleted source := by
  constructor
  · rintro (hrows | hlegacy)
    · omega
    · exact hlegacy.2
  · exact fun hlegacy => .inr ⟨by omega, hlegacy⟩

/-- The three ends of an export to the downloads: all was copied, nothing was left, something was left. -/
inductive DownloadsEnd (env : Environment) (source : Received) (p : Places) : Outcome × Places → Prop where
  | passed {outcome : Outcome} {rows : List MediaRow} {docs : List Document} : DownloadsPass env source →
    outcome.location ≠ "" → (Added source rows docs ↔ Representable env source) →
    (rows = [] ∧ docs = [] → ¬ Representable env source ∧ pathsOf source = []) →
    (pathsOf source = [] → 29 ≤ env.sdk → rows = [] ∧ docs = []) →
    DownloadsEnd env source p (outcome,
      { p with rows := p.rows ++ rows, downloads := p.downloads ++ docs, source := env.left })
  | clean {outcome : Outcome} : ¬ DownloadsPass env source → ¬ DownloadsTorn env source →
    outcome.location = "" → DownloadsEnd env source p (outcome, p)
  | torn {outcome : Outcome} {rows : List MediaRow} {docs : List Document} : ¬ DownloadsPass env source →
    DownloadsTorn env source → outcome.location = "" → ¬ Added source rows docs → ¬ (rows = [] ∧ docs = []) →
    DownloadsEnd env source p (outcome, { p with rows := p.rows ++ rows, downloads := p.downloads ++ docs })

theorem added_rows {source : Received} {rows : List MediaRow} : Added source rows [] ↔ RowsOf source rows := by
  constructor
  · rintro (h | ⟨-, doc, hdoc, -⟩)
    · exact h.2
    · cases hdoc
  · exact fun h => .inl ⟨rfl, h⟩

theorem added_doc {source : Received} {doc : Document} : Added source [] [doc] ↔ CopyOf source doc := by
  constructor
  · rintro (⟨hnil, -⟩ | ⟨-, other, hother, hcopy⟩)
    · cases hnil
    · obtain rfl := List.singleton_inj.mp hother
      exact hcopy
  · exact fun h => .inr ⟨rfl, doc, rfl, h⟩

theorem not_inhabited_of_nil {entries : Entries} (h : sortedFiles entries = []) : ¬ Inhabited entries := by
  intro hall
  obtain ⟨file, hfile, -⟩ := hall [] List.mem_cons_self
  rw [← mem_sortedFiles, h] at hfile
  cases hfile

theorem representable_file {env : Environment} {name : String} {data : Bytes} :
    Representable env (.file name data) := by
  intro _ other entries h
  cases h

theorem representable_folder {env : Environment} {name : String} {entries : Entries} (h : 29 ≤ env.sdk) :
    Representable env (.folder name entries) ↔ Inhabited entries := by
  constructor
  · exact fun hall => hall h name entries rfl
  · rintro hall _ other entries' he
    obtain ⟨rfl, rfl⟩ := Received.folder.inj he
    exact hall

theorem representable_legacy {env : Environment} {source : Received} (h : ¬ 29 ≤ env.sdk) :
    Representable env source := fun hsdk => absurd hsdk h

/-- The export of rows, where the copy is complete if the item can be represented. -/
theorem exportRows_end {env : Environment} {source : Received} {files : List MediaFile} (p : Places)
    (fine failed : String) (hsdk : 29 ≤ env.sdk) (hpaths : files.map MediaFile.path = pathsOf source)
    (hne : files ≠ []) (hrows : RowsOf source (files.map publishedRow) ↔ Representable env source) :
    DownloadsEnd env source p (if (exportRows env files).1 then
      (⟨fine, "Download/InkHole"⟩, { p with rows := p.rows ++ (exportRows env files).2, source := env.left })
      else (⟨failed, ""⟩, { p with rows := p.rows ++ (exportRows env files).2 })) := by
  have hnonempty : pathsOf source ≠ [] := by
    rw [← hpaths]
    exact fun h => hne (List.map_eq_nil_iff.mp h)
  have hcases := @exportRows_cases env source files hpaths
  rcases hcases with ⟨hpass, hexport⟩ | ⟨hpass, hfailed, hnot, hstays⟩
  · rw [hexport, if_pos rfl]
    have hlocation : (⟨fine, "Download/InkHole"⟩ : Outcome).location ≠ "" := by
      change "Download/InkHole" ≠ ""
      decide
    have hend : DownloadsEnd env source p (⟨fine, "Download/InkHole"⟩, { p with
        rows := p.rows ++ files.map publishedRow, downloads := p.downloads ++ [], source := env.left }) :=
      .passed ((downloadsPass_iff_rows hsdk).mpr hpass) hlocation (added_rows.trans hrows)
        (fun h => absurd (List.map_eq_nil_iff.mp h.1) hne) (fun h => absurd h hnonempty)
    rw [List.append_nil] at hend
    exact hend
  · rw [hfailed, if_neg (by decide)]
    have hnotPass : ¬ DownloadsPass env source := fun h => hpass ((downloadsPass_iff_rows hsdk).mp h)
    by_cases hnil : (exportRows env files).2 = []
    · rw [hnil, List.append_nil]
      refine .clean hnotPass (fun h => ?_) rfl
      exact hstays.mpr ((downloadsTorn_iff_rows hsdk).mp h).2 hnil
    · have hend : DownloadsEnd env source p (⟨failed, ""⟩, { p with
          rows := p.rows ++ (exportRows env files).2, downloads := p.downloads ++ [] }) :=
        .torn hnotPass ((downloadsTorn_iff_rows hsdk).mpr ⟨hpass, hstays.mp hnil⟩) rfl
          (fun h => hnot (added_rows.mp h)) (fun h => hnil h.1)
      rw [List.append_nil] at hend
      exact hend

/-- The export to a public directory whose target has been created. -/
theorem legacy_end {env : Environment} {source : Received} (p : Places) {copied : Bool × List Document}
    (fine failed : String) (hsdk : ¬ 29 ≤ env.sdk) (hpermission : env.permission = true)
    (hmade : env.directoryMade = true) (hcreated : env.legacy.created [] = true)
    (hcopied : (AllPass env.legacy (itemsOf source) ∧ ∃ doc, copied = (true, [doc]) ∧ CopyOf source doc) ∨
      (¬ AllPass env.legacy (itemsOf source) ∧
        ((isFile source = false ∧ env.legacyDeleted = true ∧ copied = (false, [])) ∨
          ((isFile source = true ∨ env.legacyDeleted = false) ∧ ∃ doc, copied = (false, [doc]) ∧
            ¬ CopyOf source doc)))) :
    DownloadsEnd env source p (if copied.1 then
      (⟨fine, "Download/InkHole"⟩, { p with downloads := p.downloads ++ copied.2, source := env.left })
      else (⟨failed, ""⟩, { p with downloads := p.downloads ++ copied.2 })) := by
  rcases hcopied with ⟨hpass, doc, rfl, hcopy⟩ | ⟨hpass, ⟨hfolder, hdeleted, rfl⟩ | ⟨hstays, doc, rfl, hcopy⟩⟩
  · rw [if_pos rfl]
    have hlocation : (⟨fine, "Download/InkHole"⟩ : Outcome).location ≠ "" := by
      change "Download/InkHole" ≠ ""
      decide
    have hend : DownloadsEnd env source p (⟨fine, "Download/InkHole"⟩, { p with
        rows := p.rows ++ [], downloads := p.downloads ++ [doc], source := env.left }) :=
      .passed ((downloadsPass_iff_legacy hsdk).mpr ⟨hpermission, hmade, hpass⟩) hlocation
        (iff_of_true (added_doc.mpr hcopy) (representable_legacy hsdk)) (fun h => by cases h.2)
        (fun _ h => absurd h hsdk)
    rw [List.append_nil] at hend
    exact hend
  · rw [if_neg (by decide), List.append_nil]
    refine .clean (fun h => hpass ((downloadsPass_iff_legacy hsdk).mp h).2.2) (fun h => ?_) rfl
    rcases ((downloadsTorn_iff_legacy hsdk).mp h).2.2.2.2 with hfile | hleft
    · cases hfile.symm.trans hfolder
    · cases hleft.symm.trans hdeleted
  · rw [if_neg Bool.false_ne_true]
    have hend : DownloadsEnd env source p (⟨failed, ""⟩, { p with
        rows := p.rows ++ [], downloads := p.downloads ++ [doc] }) :=
      .torn (fun h => hpass ((downloadsPass_iff_legacy hsdk).mp h).2.2)
        ((downloadsTorn_iff_legacy hsdk).mpr ⟨hpermission, hmade, hcreated, hpass, hstays⟩) rfl
        (fun h => hcopy (added_doc.mp h)) (fun h => by cases h.2)
    rw [List.append_nil] at hend
    exact hend

/-- On an older device nothing happens if the target cannot be created. -/
theorem legacy_unable {env : Environment} {source : Received} (p : Places) (failed : String)
    (hsdk : ¬ 29 ≤ env.sdk)
    (h : ¬ (env.permission = true ∧ env.directoryMade = true ∧ env.legacy.created [] = true)) :
    DownloadsEnd env source p (⟨failed, ""⟩, p) := by
  refine .clean (fun hpass => ?_) (fun htorn => ?_) rfl
  · obtain ⟨hpermission, hmade, hall⟩ := (downloadsPass_iff_legacy hsdk).mp hpass
    exact h ⟨hpermission, hmade, created_of_allPass hall⟩
  · obtain ⟨hpermission, hmade, hcreated, -⟩ := (downloadsTorn_iff_legacy hsdk).mp htorn
    exact h ⟨hpermission, hmade, hcreated⟩

theorem named_uniqueMediaStoreFolderName (env : Environment) (rows : List MediaRow) (name : String) :
    Named name (uniqueMediaStoreFolderName env rows name) := by
  refine ⟨name, .inl rfl, ?_⟩
  rw [uniqueMediaStoreFolderName]
  split
  · exact .inr (.inr ⟨_, rfl⟩)
  · exact .inl rfl

/-- A folder without files is deleted as if it had been exported. -/
theorem empty_end {env : Environment} {name : String} {entries : Entries} (p : Places) (hsdk : 29 ≤ env.sdk)
    (hnil : sortedFiles entries = []) : DownloadsEnd env (.folder name entries) p
      (⟨name, "Download/InkHole"⟩, { p with source := env.left }) := by
  have hpaths : pathsOf (.folder name entries) = [] := by rw [pathsOf, hnil, List.map_nil]
  have hnot : ¬ Representable env (.folder name entries) := fun h =>
    not_inhabited_of_nil hnil ((representable_folder hsdk).mp h)
  have hadded : ¬ Added (.folder name entries) [] [] := by
    rw [added_rows]
    intro h
    generalize hrows : ([] : List MediaRow) = rows at h
    cases h with
    | folder _ hfolders =>
      obtain ⟨row, hrow, -⟩ := hfolders [] List.mem_cons_self
      rw [← hrows] at hrow
      cases hrow
  have hlocation : (⟨name, "Download/InkHole"⟩ : Outcome).location ≠ "" := by
    change "Download/InkHole" ≠ ""
    decide
  have hend : DownloadsEnd env (.folder name entries) p (⟨name, "Download/InkHole"⟩, { p with
      rows := p.rows ++ [], downloads := p.downloads ++ [], source := env.left }) := by
    refine .passed ((downloadsPass_iff_rows hsdk).mpr fun path h => ?_) hlocation (iff_of_false hadded hnot)
      (fun _ => ⟨hnot, hpaths⟩) (fun _ _ => ⟨rfl, rfl⟩)
    rw [hpaths] at h
    cases h
  rw [List.append_nil, List.append_nil] at hend
  exact hend

theorem exportToDownloads_end (env : Environment) (source : Received) (p : Places) :
    DownloadsEnd env source p (exportToDownloads env source p) := by
  have hable : (env.permission && env.directoryMade && env.legacy.created []) = true ↔
      env.permission = true ∧ env.directoryMade = true ∧ env.legacy.created [] = true := by
    rw [Bool.and_eq_true, Bool.and_eq_true, and_assoc]
  cases source with
  | file name data =>
    rw [exportToDownloads]
    by_cases hsdk : 29 ≤ env.sdk
    · simp only [if_pos hsdk]
      exact exportRows_end p name name hsdk rfl (List.cons_ne_nil _ _) (iff_of_true .file representable_file)
    · by_cases hstart : env.permission = true ∧ env.directoryMade = true ∧ env.legacy.created [] = true
      · simp only [if_neg hsdk, if_pos (hable.mpr hstart)]
        refine legacy_end p _ name hsdk hstart.1 hstart.2.1 hstart.2.2 ?_
        have hnamed := named_uniqueFile (p.downloads.map Document.name) name
        rcases copyFile_spec hnamed data hstart.2.2 with hcopy | ⟨hpass, hcopy⟩
        · exact .inl hcopy
        · exact .inr ⟨hpass, .inr ⟨.inl rfl, hcopy⟩⟩
      · simp only [if_neg hsdk, if_neg (fun h => hstart (hable.mp h))]
        exact legacy_unable p name hsdk hstart
  | folder name entries =>
    rw [exportToDownloads, exportFolderToDownloads]
    by_cases hsdk : 29 ≤ env.sdk
    · simp only [if_pos hsdk]
      by_cases hnil : sortedFiles entries = []
      · rw [if_pos hnil]
        exact empty_end p hsdk hnil
      · rw [if_neg hnil]
        have hnamed := named_uniqueMediaStoreFolderName env p.rows name
        generalize uniqueMediaStoreFolderName env p.rows name = root at *
        have hpublished : ((sortedFiles entries).map (mediaFile root)).map publishedRow =
            (sortedFiles entries).map fun file => publishedRow (mediaFile root file) := by
          rw [List.map_map]
          rfl
        have hpaths : ((sortedFiles entries).map (mediaFile root)).map MediaFile.path =
            pathsOf (.folder name entries) := by
          rw [List.map_map]
          rfl
        refine exportRows_end p root name hsdk hpaths (fun h => hnil (List.map_eq_nil_iff.mp h)) ?_
        rw [hpublished]
        exact (rowsOf_iff hnamed).trans (representable_folder hsdk).symm
    · by_cases hstart : env.permission = true ∧ env.directoryMade = true ∧ env.legacy.created [] = true
      · simp only [if_neg hsdk, if_pos (hable.mpr hstart)]
        refine legacy_end p _ name hsdk hstart.1 hstart.2.1 hstart.2.2 ?_
        have hnamed := named_uniqueDirectory (p.downloads.map Document.name) name
        rcases copyFolder_spec hnamed faithful_plainNaming env.legacyDeleted entries hstart.2.2 with
          hcopy | ⟨hpass, hcopy | hcopy⟩
        · exact .inl hcopy
        · exact .inr ⟨hpass, .inl ⟨rfl, hcopy⟩⟩
        · exact .inr ⟨hpass, .inr ⟨.inr hcopy.1, hcopy.2⟩⟩
      · simp only [if_neg hsdk, if_neg (fun h => hstart (hable.mp h))]
        exact legacy_unable p name hsdk hstart

/-! The whole export. -/

def TreeCopied (source : Received) (before after : Places) : Prop :=
  ∃ doc, CopyOf source doc ∧ after.tree = before.tree ++ [doc]

def DownloadsCopied (source : Received) (before after : Places) : Prop :=
  ∃ rows docs, Added source rows docs ∧ after.rows = before.rows ++ rows ∧ after.downloads = before.downloads ++ docs

/-- A location is returned, a complete copy is there and the source is gone; or the source is there and
what is new is at most a complete copy. -/
def Atomic (source : Received) (before after : Places) (outcome : Outcome) : Prop :=
  (outcome.location ≠ "" ∧ (TreeCopied source before after ∨ DownloadsCopied source before after) ∧
    after.source = none) ∨
  (after.source = some source ∧ (after.tree = before.tree ∨ TreeCopied source before after) ∧
    ((after.rows = before.rows ∧ after.downloads = before.downloads) ∨ DownloadsCopied source before after))

/-- What the deletion of the source, and the copies that failed before it, must not do. -/
def Careful (env : Environment) (source : Received) (treePasses treeTorn : Prop) : Prop :=
  (treePasses → env.left = none ∨ env.left = some source) ∧
  (¬ treePasses → DownloadsPass env source →
    (env.left = none ∧ Representable env source) ∨
      (env.left = some source ∧ (Representable env source ∨ pathsOf source = []) ∧ ¬ treeTorn)) ∧
  (¬ treePasses → ¬ DownloadsPass env source → ¬ treeTorn ∧ ¬ DownloadsTorn env source)

theorem downloadsCopied_iff {source : Received} {before after : Places} {rows : List MediaRow} {docs : List Document}
    (hr : after.rows = before.rows ++ rows) (hd : after.downloads = before.downloads ++ docs) :
    DownloadsCopied source before after ↔ Added source rows docs := by
  constructor
  · rintro ⟨rows', docs', hadded, hr', hd'⟩
    obtain rfl := List.append_cancel_left (hr.symm.trans hr')
    obtain rfl := List.append_cancel_left (hd.symm.trans hd')
    exact hadded
  · exact fun h => ⟨rows, docs, h, hr, hd⟩

/-- After the tree has been tried in vain. -/
theorem downloads_atomic {env : Environment} {source : Received} {before middle : Places} {r : Outcome × Places}
    (h : DownloadsEnd env source middle r) (hsource : middle.source = some source)
    (hrows : middle.rows = before.rows) (hdownloads : middle.downloads = before.downloads)
    (htree : ∀ doc, CopyOf source doc → middle.tree ≠ before.tree ++ [doc]) :
    Atomic source before r.2 r.1 ↔
      (DownloadsPass env source → (env.left = none ∧ Representable env source) ∨
        (env.left = some source ∧ (Representable env source ∨ pathsOf source = []) ∧ middle.tree = before.tree)) ∧
      (¬ DownloadsPass env source → middle.tree = before.tree ∧ ¬ DownloadsTorn env source) := by
  have hnot {after : Places} (ha : after.tree = middle.tree) : ¬ TreeCopied source before after := by
    rintro ⟨doc, hcopy, hafter⟩
    exact htree doc hcopy (ha.symm.trans hafter)
  have htreeIff {after : Places} (ha : after.tree = middle.tree) :
      after.tree = before.tree ∨ TreeCopied source before after ↔ middle.tree = before.tree := by
    rw [or_iff_left (hnot ha), ha]
  cases h with
  | @passed outcome rows docs hpass hlocation hadded hempty hnone =>
    generalize hafter : Places.mk middle.tree (middle.rows ++ rows) (middle.downloads ++ docs) env.left = after
    have hafterTree : after.tree = middle.tree := by rw [← hafter]
    have hafterRows : after.rows = before.rows ++ rows := by rw [← hafter, ← hrows]
    have hafterDownloads : after.downloads = before.downloads ++ docs := by rw [← hafter, ← hdownloads]
    have hleft : after.source = env.left := by rw [← hafter]
    have hcopied := (downloadsCopied_iff hafterRows hafterDownloads).trans hadded
    have hsame : after.rows = before.rows ∧ after.downloads = before.downloads ↔ rows = [] ∧ docs = [] := by
      rw [hafterRows, hafterDownloads, List.append_right_eq_self, List.append_right_eq_self]
    rw [Atomic, hcopied, htreeIff hafterTree, or_iff_right (hnot hafterTree), hsame, hleft]
    constructor
    · rintro (⟨-, hrep, hgone⟩ | ⟨hstays, htree, hnew⟩)
      · exact ⟨fun _ => .inl ⟨hgone, hrep⟩, fun h => absurd hpass h⟩
      · refine ⟨fun _ => .inr ⟨hstays, ?_, htree⟩, fun h => absurd hpass h⟩
        rcases hnew with hnil | hrep
        · exact .inr (hempty hnil).2
        · exact .inl hrep
    · rintro ⟨h, -⟩
      rcases h hpass with ⟨hgone, hrep⟩ | ⟨hstays, hnew, htree⟩
      · exact .inl ⟨hlocation, hrep, hgone⟩
      · refine .inr ⟨hstays, htree, ?_⟩
        by_cases hrep : Representable env source
        · exact .inr hrep
        · have hsdk : 29 ≤ env.sdk := by
            by_contra hsdk
            exact hrep (representable_legacy hsdk)
          exact .inl (hnone (hnew.resolve_left hrep) hsdk)
  | clean hpass htorn hlocation =>
    rw [Atomic, htreeIff rfl]
    constructor
    · rintro (⟨hne, -⟩ | ⟨-, htree, -⟩)
      · exact absurd hlocation hne
      · exact ⟨fun h => absurd h hpass, fun _ => ⟨htree, htorn⟩⟩
    · rintro ⟨-, h⟩
      exact .inr ⟨hsource, (h hpass).1, .inl ⟨hrows, hdownloads⟩⟩
  | @torn outcome rows docs hpass htorn hlocation hadded hempty =>
    generalize hafter : Places.mk middle.tree (middle.rows ++ rows) (middle.downloads ++ docs) middle.source = after
    have hafterRows : after.rows = before.rows ++ rows := by rw [← hafter, ← hrows]
    have hafterDownloads : after.downloads = before.downloads ++ docs := by rw [← hafter, ← hdownloads]
    constructor
    · rintro (⟨hne, -⟩ | ⟨-, -, hsame | hcopied⟩)
      · exact absurd hlocation hne
      · rw [hafterRows, hafterDownloads, List.append_right_eq_self, List.append_right_eq_self] at hsame
        exact absurd hsame hempty
      · exact absurd ((downloadsCopied_iff hafterRows hafterDownloads).mp hcopied) hadded
    · rintro ⟨-, h⟩
      exact absurd htorn (h hpass).2

theorem copied_ne {source : Received} {doc : Document} (h : ¬ CopyOf source doc) (docs : List Document) :
    ∀ other, CopyOf source other → docs ++ [doc] ≠ docs ++ [other] := by
  intro other hcopy he
  obtain rfl := List.singleton_inj.mp (List.append_cancel_left he)
  exact h hcopy

/-- An export is atomic exactly if the deletion of the source and the copies that failed are as they
should be. -/
theorem exportReceived_atomic_iff (env : Environment) (source : Received) (p : Places) :
    Atomic source { p with source := some source } (exportReceived env source { p with source := some source }).2
        (exportReceived env source { p with source := some source }).1 ↔
      Careful env source (env.treeChosen = true ∧ TreePasses env source)
        (env.treeChosen = true ∧ TreeTorn env source) := by
  generalize hbefore : { p with source := some source } = before
  have hsource : before.source = some source := by rw [← hbefore]
  have hself : ∀ doc, CopyOf source doc → before.tree ≠ before.tree ++ [doc] := by
    intro doc _ he
    exact absurd (List.append_right_eq_self.mp he.symm) (List.cons_ne_nil _ _)
  have hdownloads : ∀ {middle : Places}, middle.source = some source → middle.rows = before.rows →
      middle.downloads = before.downloads → (∀ doc, CopyOf source doc → middle.tree ≠ before.tree ++ [doc]) →
      (middle.tree = before.tree ↔ ¬ (env.treeChosen = true ∧ TreeTorn env source)) →
      ¬ (env.treeChosen = true ∧ TreePasses env source) →
      (Atomic source before (exportToDownloads env source middle).2 (exportToDownloads env source middle).1 ↔
        Careful env source (env.treeChosen = true ∧ TreePasses env source)
          (env.treeChosen = true ∧ TreeTorn env source)) := by
    intro middle hs hr hd ht htorn hpass
    rw [downloads_atomic (exportToDownloads_end env source middle) hs hr hd ht, Careful, htorn]
    constructor
    · exact fun h => ⟨fun htree => absurd htree hpass, fun _ => h.1, fun _ => h.2⟩
    · exact fun h => ⟨h.2.1 hpass, h.2.2 hpass⟩
  by_cases hchosen : env.treeChosen = true
  · rcases exportToTree_spec env source before with
      ⟨hpass, outcome, doc, hlocation, hcopy, htree⟩ | ⟨hpass, htorn, htree⟩ | ⟨hpass, htorn, doc, hcopy, htree⟩
    · rw [exportReceived, if_pos hchosen, htree, Careful]
      have hcopied : TreeCopied source before { before with tree := before.tree ++ [doc], source := env.left } :=
        ⟨doc, hcopy, rfl⟩
      constructor
      · intro hatomic
        refine ⟨fun _ => ?_, fun h => absurd ⟨hchosen, hpass⟩ h, fun h => absurd ⟨hchosen, hpass⟩ h⟩
        rcases hatomic with ⟨-, -, hgone⟩ | ⟨hstays, -⟩
        · exact .inl hgone
        · exact .inr hstays
      · rintro ⟨h, -⟩
        rcases h ⟨hchosen, hpass⟩ with hgone | hstays
        · exact .inl ⟨hlocation, .inl hcopied, hgone⟩
        · exact .inr ⟨hstays, .inr hcopied, .inl ⟨rfl, rfl⟩⟩
    · rw [exportReceived, if_pos hchosen, htree]
      exact hdownloads hsource rfl rfl hself (iff_of_true rfl fun h => htorn h.2) fun h => hpass h.2
    · rw [exportReceived, if_pos hchosen, htree]
      refine hdownloads hsource rfl rfl (copied_ne hcopy before.tree) (iff_of_false (fun he => ?_) ?_) fun h => hpass h.2
      · exact absurd (List.append_right_eq_self.mp he) (List.cons_ne_nil _ _)
      · exact fun h => h ⟨hchosen, htorn⟩
  · rw [exportReceived, if_neg hchosen]
    exact hdownloads hsource rfl rfl hself (iff_of_true rfl fun h => hchosen h.1) fun h => hchosen h.1

/-- A device on which the copy to the chosen tree breaks and the downloads take nothing. -/
def tornEnvironment : Environment where
  sdk := 29
  permission := false
  treeChosen := true
  treeAvailable := true
  treeWritable := true
  label := none
  label_ne := by decide
  tree := ⟨fun _ => true, fun _ => true, fun _ => some 1⟩
  treeDeleted := true
  queried _ := true
  media := ⟨fun _ => false, fun _ => true, fun _ => none⟩
  published _ := true
  withdrawn _ := true
  directoryMade := false
  legacy := ⟨fun _ => false, fun _ => true, fun _ => none⟩
  legacyDeleted := true
  left := none

/-- The first half of a file stays in the chosen tree. -/
theorem exportReceived_tears : ¬ ∀ (env : Environment) (source : Received) (p : Places),
    Atomic source { p with source := some source } (exportReceived env source { p with source := some source }).2
      (exportReceived env source { p with source := some source }).1 := by
  intro h
  rcases h tornEnvironment (.file "a.txt" [1, 2]) ⟨[], [], [], none⟩ with ⟨hlocation, -⟩ | ⟨-, htree, -⟩
  · exact hlocation rfl
  · rcases htree with hsame | ⟨doc, hcopy, hdoc⟩
    · cases hsame
    · cases hcopy with
      | file _ =>
        have hlist := List.singleton_inj.mp (hdoc.trans (List.nil_append _))
        cases hlist

end Exporter

end InkHole
