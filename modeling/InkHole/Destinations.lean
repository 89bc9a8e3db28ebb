import InkHole.InboxFilter

/-! The destinations that a store allocates: each is free, and is taken for itself when it is read
from a record. -/

set_option linter.unusedSectionVars false

namespace InkHole

open Fallible TransferStore

/-! The shape of an allocated name. -/

/-- Exactly the portable names are accepted in a record. -/
theorem validateDestinationName_iff (name : String) :
    validateDestinationName name = .ok () ↔ Portable name.toList := by
  constructor
  · intro h
    rw [validateDestinationName] at h
    split at h
    · cases h
    · next hn =>
      rw [not_or, not_not, not_not] at hn
      have hself := congrArg String.toList hn.1
      rw [safeFilename, String.toList_ofList] at hself
      exact (safeCharacters_eq_self_iff name.toList).mp hself
  · intro h
    have hself : safeFilename name = name := by
      rw [safeFilename, safeCharacters_self h, String.ofList_toList]
    have hfile := (safeFilename_portable name).2.2.2.2.1
    rw [hself] at hfile
    rw [validateDestinationName, if_neg (by simp [hself, hfile])]

theorem takeWhile_append_of_mem {α : Type} {p : α → Bool} {front : List α} {a : α} (ha : a ∈ front)
    (hp : p a = false) (back : List α) : (front ++ back).takeWhile p = front.takeWhile p := by
  induction front with
  | nil => cases ha
  | cons b front ih =>
    rw [List.cons_append, List.takeWhile_cons, List.takeWhile_cons]
    cases hb : p b with
    | false => rfl
    | true =>
      have hne : a ≠ b := by
        rintro rfl
        simp [hp] at hb
      rw [if_pos rfl, if_pos rfl, ih ((List.mem_cons.mp ha).resolve_left hne)]

/-- No device name ends with a bracket. -/
theorem windowsReservedName_bracket {component front : List Char}
    (h : component.takeWhile (· != '.') = front ++ [')']) : windowsReservedName component = false := by
  have hupper : (component.takeWhile (· != '.')).map Char.toUpper = front.map Char.toUpper ++ [')'] := by
    rw [h, List.map_append]
    rfl
  rw [windowsReservedName, hupper]
  generalize front.map Char.toUpper = uppercase
  have hlast : (uppercase ++ [')']).getLast? = some ')' := List.getLast?_concat
  generalize uppercase ++ [')'] = device at *
  have hnames : (["CON", "PRN", "AUX", "NUL"].any fun name => name.toList == device) = false := by
    refine any_false_iff.mpr fun name hname => beq_eq_false_iff_ne.mpr ?_
    rintro rfl
    simp only [List.mem_cons, List.not_mem_nil, or_false] at hname
    rcases hname with rfl | rfl | rfl | rfl <;> exact absurd hlast (by decide)
  have hdrop : ∀ c, device.drop 3 = [c] → c = ')' := by
    intro c hc
    have hend : (device.drop 3).getLast? = some c := by rw [hc]; rfl
    rw [List.getLast?_drop] at hend
    split at hend
    · cases hend
    · exact Option.some.inj (hend.symm.trans hlast)
  simp only [hnames, Bool.false_or]
  split
  · split
    · next c hc =>
      rw [hdrop c hc]
      decide
    · rfl
  · rfl

theorem splitExtension_extension (filename : String) :
    (splitExtension filename).2 = "" ∨ ∃ e, (splitExtension filename).2.toList = '.' :: e := by
  simp only [splitExtension]
  split
  · exact .inl rfl
  · exact .inr ⟨_, String.toList_ofList⟩

theorem digit_plain {c : Char} (h : c.isDigit = true) :
    separator c = false ∧ reservedCharacter c = false ∧ c ≠ '.' := by
  have hnot : ∀ d : Char, d.isDigit = false → c ≠ d := by
    rintro d hd rfl
    rw [h] at hd
    cases hd
  refine ⟨?_, ?_, hnot '.' (by decide)⟩
  · rw [separator, Bool.or_eq_false_iff, beq_eq_false_iff_ne, beq_eq_false_iff_ne]
    exact ⟨hnot '/' (by decide), hnot '\\' (by decide)⟩
  · have hother : ∀ d ∈ "<>:\"|?*".toList, c ≠ d := fun d hd => hnot d (any_false_iff.mp (by decide) d hd)
    simp only [Char.isDigit, Bool.and_eq_true, decide_eq_true_eq] at h
    rw [reservedCharacter, Bool.or_eq_false_iff, decide_eq_false_iff_not, UInt32.not_lt]
    refine ⟨UInt32.le_trans (by decide) h.1, ?_⟩
    rw [List.contains_eq_mem, decide_eq_false_iff_not]
    exact fun hc => hother c hc rfl

/-- A number in brackets before the extension leaves a name portable. -/
theorem Portable.numbered {stem extension digits : List Char} (h : Portable (stem ++ extension))
    (hextension : extension = [] ∨ ∃ e, extension = '.' :: e) (hdigits : ∀ c ∈ digits, c.isDigit = true) :
    Portable (stem ++ (" (".toList ++ digits ++ ")".toList) ++ extension) := by
  rw [show ")".toList = [')'] by rfl]
  have hopen : separator ' ' = false ∧ reservedCharacter ' ' = false ∧ separator '(' = false ∧
      reservedCharacter '(' = false := by decide
  have hplain : ∀ c ∈ " (".toList ++ digits ++ [')'],
      separator c = false ∧ reservedCharacter c = false ∧ c ≠ '.' := by
    intro c hc
    rcases List.mem_append.mp hc with hc | hc
    · rcases List.mem_append.mp hc with hc | hc
      · have hc : c = ' ' ∨ c = '(' := by simpa using hc
        rcases hc with rfl | rfl
        · exact ⟨hopen.1, hopen.2.1, by decide⟩
        · exact ⟨hopen.2.2.1, hopen.2.2.2, by decide⟩
      · exact digit_plain (hdigits c hc)
    · obtain rfl := List.mem_singleton.mp hc
      decide
  have hmem : ∀ c ∈ stem ++ (" (".toList ++ digits ++ [')']) ++ extension,
      c ∈ stem ++ extension ∨ c ∈ " (".toList ++ digits ++ [')'] := by
    intro c hc
    simp only [List.mem_append] at hc ⊢
    tauto
  refine ⟨by simp, fun c hc => ?_, fun c hc => ?_, ?_, ?_⟩
  · exact (hmem c hc).elim (h.separators c) fun hn => (hplain c hn).1
  · exact (hmem c hc).elim (h.characters c) fun hn => (hplain c hn).2.1
  · rcases hextension with rfl | ⟨e, rfl⟩
    · rw [List.append_nil, ← List.append_assoc, List.getLast?_concat]
      rfl
    · have hlast := h.last
      rw [List.getLast?_append_of_ne_nil _ (List.cons_ne_nil _ _)] at hlast ⊢
      exact hlast
  · rw [List.append_assoc]
    by_cases hdot : '.' ∈ stem
    · have hdevice := h.device
      rw [windowsReservedName, takeWhile_append_of_mem hdot (by decide)] at hdevice ⊢
      exact hdevice
    · have hstop : extension.takeWhile (· != '.') = [] := by
        rcases hextension with rfl | ⟨e, rfl⟩ <;> rfl
      have hstem : ∀ c ∈ stem, (c != '.') = true := by
        intro c hc
        rw [bne_iff_ne]
        rintro rfl
        exact hdot hc
      have htag : ∀ c ∈ " (".toList ++ digits ++ [')'], (c != '.') = true :=
        fun c hc => bne_iff_ne.mpr (hplain c hc).2.2
      apply windowsReservedName_bracket
      rw [List.takeWhile_append_of_pos hstem, List.takeWhile_append_of_pos htag, hstop, List.append_nil,
        ← List.append_assoc, ← List.append_assoc]

theorem portable_destinationName (raw : String) (index : Option Nat) :
    Portable (destinationName raw index).toList := by
  have hsafe : Portable (safeFilename raw).toList := by
    rw [safeFilename, String.toList_ofList]
    exact portable_safeCharacters raw.toList
  cases index with
  | none => exact hsafe
  | some index =>
    rw [← splitExtension_append (safeFilename raw), String.toList_append] at hsafe
    have hdigits : ∀ c ∈ (toString index).toList, c.isDigit = true := by
      intro c hc
      rw [Nat.toString_eq_ofList_toDigits, String.toList_ofList] at hc
      exact Nat.isDigit_of_mem_toDigits (by omega) (by omega) hc
    have hnumbered :=
      hsafe.numbered ((splitExtension_extension (safeFilename raw)).imp (congrArg String.toList) id) hdigits
    simpa only [destinationName, String.toList_append, List.append_assoc] using hnumbered

/-! What is at an allocated name. -/

/-- Neither a file nor a directory has the path, whether a link there is followed or not. -/
structure FileTree.Vacant {D : Type} (t : FileTree D) (p : Path) : Prop where
  followed : ∀ q, t.resolve p = .ok q → t.get q = none
  own : ∀ q, t.locate p = .ok q → ¬ t.Occupied q

theorem FileTree.vacant_of_exists {D : Type} [FileData D] {t : FileTree D} {name : String} {p : Path}
    (h : t.exists? (name :: p) = .ok false) : t.Vacant (name :: p) := by
  have hfollowed : ∀ q, t.resolve (name :: p) = .ok q → t.get q = none := by
    intro q hq
    rw [exists?, hq] at h
    have hnone := Except.ok.inj h
    rw [Bool.or_eq_false_iff] at hnone
    simpa using hnone.2
  refine ⟨hfollowed, fun q hq ho => ?_⟩
  have hplain : ∀ target, t.get q ≠ some (.symlink target) := by
    intro target hs
    rcases ho with hd | ⟨d, hd⟩ <;> simp [hd] at hs
  have hresolve : t.resolve (name :: p) = .ok q := by
    rw [locate] at hq
    split at hq
    · cases hq
    · next parent hparent =>
      split at hq
      · next hdir =>
        obtain rfl := Except.ok.inj hq
        rw [resolve, resolveFuel] at hparent
        rw [resolve, resolveFuel, resolveWith, hparent]
        simp only [hdir, if_true]
      · split at hq <;> cases hq
  have hnone := hfollowed q hresolve
  rcases ho with hd | ⟨d, hd⟩ <;> simp [hnone] at hd

section Allocated

variable [Externals] {w : World} {root : Path} {name : String}

theorem tryExists_ok {p : Path} {there : Bool} (h : eval (CoreM.fs (.tryExists p)) w = .ok there) :
    w.fs.exists? p = .ok there := by
  change (w.fs.exists? p).mapError CoreError.io = .ok there at h
  cases he : w.fs.exists? p with
  | error e =>
    rw [he] at h
    cases h
  | ok b =>
    rw [he] at h
    exact congrArg Except.ok (Except.ok.inj h)

theorem uniqueFrom_free {stem extension : String} {fuel index : Nat}
    (h : eval (uniqueFrom root stem extension fuel index) w = .ok name) :
    w.fs.exists? (name :: root) = .ok false := by
  induction fuel generalizing index with
  | zero => cases h
  | succ fuel ih =>
    have hlook : ∀ p : Path, Uses Call.Reads (fun _ => True) (CoreM.fs (.tryExists p)) :=
      fun _ => reads_fs trivial
    rw [uniqueFrom] at h
    obtain ⟨there, hthere, h⟩ := eval_bind_ok (hlook _) h
    cases there with
    | false =>
      obtain rfl := Except.ok.inj h
      exact tryExists_ok hthere
    | true => exact ih h

theorem uniqueDestination_free {filename : String}
    (h : eval (uniqueDestination root filename) w = .ok name) : w.fs.exists? (name :: root) = .ok false := by
  have hlook : Uses Call.Reads (fun _ => True) (CoreM.fs (.tryExists (filename :: root))) := reads_fs trivial
  cases hsplit : splitExtension filename with | mk stem extension
  rw [uniqueDestination] at h
  simp only [hsplit] at h
  generalize 2 ^ 32 - 2 = fuel at h
  obtain ⟨there, hthere, h⟩ := eval_bind_ok hlook h
  cases there with
  | false =>
    obtain rfl := Except.ok.inj h
    exact tryExists_ok hthere
  | true => exact uniqueFrom_free h

end Allocated

end InkHole
