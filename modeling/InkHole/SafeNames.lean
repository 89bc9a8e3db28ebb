import InkHole.FolderPaths
import Mathlib.Data.List.DropRight

/-! The names that a sanitized file name can have: each is one portable component of a path. -/

namespace InkHole

theorem any_false_iff {α : Type} {p : α → Bool} {l : List α} : l.any p = false ↔ ∀ a ∈ l, p a = false := by
  simp

/-- A component that every platform takes as a file name. -/
structure Portable (component : List Char) : Prop where
  nonempty : component ≠ []
  separators : ∀ c ∈ component, separator c = false
  characters : ∀ c ∈ component, reservedCharacter c = false
  last : component.getLast?.any dotOrSpace = false
  device : windowsReservedName component = false

theorem Portable.ne_dot {component : List Char} (h : Portable component) : component ≠ ['.'] := by
  rintro rfl
  exact absurd h.last (by decide)

theorem Portable.ne_dots {component : List Char} (h : Portable component) : component ≠ ['.', '.'] := by
  rintro rfl
  exact absurd h.last (by decide)

theorem Portable.valid {component : List Char} (h : Portable component) :
    invalidComponent component = false := by
  have hany : component.any reservedCharacter = false := any_false_iff.mpr h.characters
  simp [invalidComponent, h.nonempty, h.ne_dot, h.ne_dots, h.last, hany, h.device]

theorem Portable.no_slash {component : List Char} (h : Portable component) : '/' ∉ component := by
  intro hc
  exact absurd (h.separators '/' hc) (by decide)

theorem Portable.no_backslash {component : List Char} (h : Portable component) : '\\' ∉ component := by
  intro hc
  exact absurd (h.separators '\\' hc) (by decide)

/-! Trimming. -/

theorem getLast?_trimEndMatches (drop : Char → Bool) (cs : List Char) :
    (trimEndMatches drop cs).getLast?.any drop = false := by
  rw [trimEndMatches, ← List.rdropWhile]
  by_cases hne : cs.rdropWhile drop = []
  · rw [hne]
    rfl
  · rw [List.getLast?_eq_some_getLast hne, Option.any_some]
    simpa using List.rdropWhile_last_not drop cs hne

theorem trimEndMatches_subset (drop : Char → Bool) (cs : List Char) : trimEndMatches drop cs ⊆ cs :=
  (List.rdropWhile_prefix drop cs).subset

theorem trimEndMatches_self {drop : Char → Bool} {cs : List Char} (h : cs.getLast?.any drop = false) :
    trimEndMatches drop cs = cs := by
  rw [trimEndMatches, ← List.rdropWhile, List.rdropWhile_eq_self_iff]
  intro hne hlast
  rw [List.getLast?_eq_some_getLast hne] at h
  simp [hlast] at h

/-! The steps of the sanitizing, in their order. -/

def basename (raw : List Char) : List Char := (raw.reverse.takeWhile fun c => !separator c).reverse

def replaceReserved (cs : List Char) : List Char := cs.map fun c => if reservedCharacter c then '_' else c

theorem safeCharacters_eq (raw : List Char) :
    safeCharacters raw =
      if trimEndMatches dotOrSpace (replaceReserved (basename raw)) = [] then "unknown".toList
      else if windowsReservedName (trimEndMatches dotOrSpace (replaceReserved (basename raw))) then
        '_' :: trimEndMatches dotOrSpace (replaceReserved (basename raw))
      else trimEndMatches dotOrSpace (replaceReserved (basename raw)) := by
  have hlast := getLast?_trimEndMatches dotOrSpace (replaceReserved (basename raw))
  have hdot : trimEndMatches dotOrSpace (replaceReserved (basename raw)) ≠ ['.'] := by
    intro he
    rw [he] at hlast
    exact absurd hlast (by decide)
  have hdots : trimEndMatches dotOrSpace (replaceReserved (basename raw)) ≠ ['.', '.'] := by
    intro he
    rw [he] at hlast
    exact absurd hlast (by decide)
  change (if _ ∨ _ ∨ _ then _ else _) = _
  rw [← basename, ← replaceReserved]
  simp only [hdot, hdots, or_false]

theorem separator_basename {raw : List Char} {c : Char} (h : c ∈ basename raw) : separator c = false := by
  have hin := List.mem_takeWhile_imp (List.mem_reverse.mp h)
  simpa using hin

theorem replaceReserved_mem {cs : List Char} {c : Char} (h : c ∈ replaceReserved cs) :
    reservedCharacter c = false ∧ (c = '_' ∨ c ∈ cs) := by
  obtain ⟨d, hd, rfl⟩ := List.mem_map.mp h
  by_cases hr : reservedCharacter d = true
  · rw [if_pos hr]
    exact ⟨by decide, .inl rfl⟩
  · rw [if_neg hr]
    exact ⟨by simpa using hr, .inr hd⟩

theorem windowsReservedName_underscore (cs : List Char) : windowsReservedName ('_' :: cs) = false := by
  have hupper : (('_' :: cs).takeWhile (· != '.')).map Char.toUpper =
      '_' :: (cs.takeWhile (· != '.')).map Char.toUpper := rfl
  rw [windowsReservedName, hupper]
  generalize (cs.takeWhile (· != '.')).map Char.toUpper = uppercase
  simp

theorem portable_unknown : Portable "unknown".toList :=
  ⟨by decide, any_false_iff.mp (by decide), any_false_iff.mp (by decide), by decide, by decide⟩

/-- A name that only lacks the mark of a reserved device. -/
theorem portable_trimmed {raw : List Char}
    (h : trimEndMatches dotOrSpace (replaceReserved (basename raw)) ≠ []) :
    Portable (if windowsReservedName (trimEndMatches dotOrSpace (replaceReserved (basename raw))) then
      '_' :: trimEndMatches dotOrSpace (replaceReserved (basename raw))
      else trimEndMatches dotOrSpace (replaceReserved (basename raw))) := by
  have hlast := getLast?_trimEndMatches dotOrSpace (replaceReserved (basename raw))
  have hsubset := trimEndMatches_subset dotOrSpace (replaceReserved (basename raw))
  generalize trimEndMatches dotOrSpace (replaceReserved (basename raw)) = trimmed at *
  have hseparators : ∀ c ∈ trimmed, separator c = false := by
    intro c hc
    rcases (replaceReserved_mem (hsubset hc)).2 with rfl | hbase
    · decide
    · exact separator_basename hbase
  have hcharacters : ∀ c ∈ trimmed, reservedCharacter c = false :=
    fun c hc => (replaceReserved_mem (hsubset hc)).1
  by_cases hdevice : windowsReservedName trimmed = true
  · rw [if_pos hdevice]
    refine ⟨List.cons_ne_nil _ _, ?_, ?_, ?_, windowsReservedName_underscore trimmed⟩
    · exact List.forall_mem_cons.mpr ⟨by decide, hseparators⟩
    · exact List.forall_mem_cons.mpr ⟨by decide, hcharacters⟩
    · rw [List.getLast?_cons_of_ne_nil h]
      exact hlast
  · rw [if_neg hdevice]
    exact ⟨h, hseparators, hcharacters, hlast, by simpa using hdevice⟩

theorem portable_safeCharacters (raw : List Char) : Portable (safeCharacters raw) := by
  rw [safeCharacters_eq]
  by_cases hempty : trimEndMatches dotOrSpace (replaceReserved (basename raw)) = []
  · rw [if_pos hempty]
    exact portable_unknown
  · rw [if_neg hempty]
    exact portable_trimmed hempty

/-! A portable name is left as it is. -/

theorem basename_self {cs : List Char} (h : ∀ c ∈ cs, separator c = false) : basename cs = cs := by
  have hall : ∀ c ∈ cs.reverse, (!separator c) = true := by
    intro c hc
    rw [h c (List.mem_reverse.mp hc)]
    rfl
  rw [basename, List.takeWhile_eq_self_iff.mpr hall, List.reverse_reverse]

theorem replaceReserved_self {cs : List Char} (h : ∀ c ∈ cs, reservedCharacter c = false) :
    replaceReserved cs = cs := by
  rw [replaceReserved]
  conv_rhs => rw [← List.map_id cs]
  refine List.map_congr_left fun c hc => ?_
  rw [if_neg (by simp [h c hc])]
  rfl

theorem safeCharacters_self {cs : List Char} (h : Portable cs) : safeCharacters cs = cs := by
  rw [safeCharacters_eq, basename_self h.separators, replaceReserved_self h.characters,
    trimEndMatches_self h.last, if_neg h.nonempty, if_neg (by simp [h.device])]

/-- Exactly the portable names are taken for themselves. -/
theorem safeCharacters_eq_self_iff (cs : List Char) : safeCharacters cs = cs ↔ Portable cs := by
  constructor
  · intro h
    rw [← h]
    exact portable_safeCharacters cs
  · exact safeCharacters_self

/-- Whatever a peer sends as a name becomes one portable component, and stays what it then is. -/
theorem safeFilename_portable (raw : String) :
    safeFilename raw ≠ "" ∧ safeFilename raw ≠ "." ∧ safeFilename raw ≠ ".." ∧
      components (safeFilename raw) = [safeFilename raw] ∧
      pathFileName (safeFilename raw) = some (safeFilename raw) ∧
      (∀ c ∈ (safeFilename raw).toList,
        c ≠ '/' ∧ c ≠ '\\' ∧ 0x20 ≤ c.toNat ∧ c ∉ "<>:\"|?*".toList) ∧
      invalidComponent (safeFilename raw).toList = false ∧
      safeFilename (safeFilename raw) = safeFilename raw := by
  have hsafe := portable_safeCharacters raw.toList
  have hlist : (safeFilename raw).toList = safeCharacters raw.toList := String.toList_ofList
  have hcomponents : components (safeFilename raw) = [safeFilename raw] := by
    refine components_plain ?_
    rw [hlist]
    exact hsafe.no_slash
  have hne : safeFilename raw ≠ "" := by
    intro he
    rw [he] at hlist
    exact hsafe.nonempty hlist.symm
  have hdot : safeFilename raw ≠ "." := by
    intro he
    rw [he] at hlist
    exact hsafe.ne_dot hlist.symm
  have hdots : safeFilename raw ≠ ".." := by
    intro he
    rw [he] at hlist
    exact hsafe.ne_dots hlist.symm
  refine ⟨hne, hdot, hdots, hcomponents, ?_, ?_, ?_, ?_⟩
  · rw [pathFileName, hcomponents]
    simp [hne, hdot, hdots]
  · intro c hc
    rw [hlist] at hc
    have hseparator := hsafe.separators c hc
    have hreserved := hsafe.characters c hc
    rw [separator, Bool.or_eq_false_iff, beq_eq_false_iff_ne, beq_eq_false_iff_ne] at hseparator
    rw [reservedCharacter, Bool.or_eq_false_iff, decide_eq_false_iff_not] at hreserved
    refine ⟨hseparator.1, hseparator.2, ?_, ?_⟩
    · have hval := hreserved.1
      rw [UInt32.not_lt] at hval
      exact UInt32.le_iff_toNat_le.mp hval
    · simpa using hreserved.2
  · rw [hlist]
    exact hsafe.valid
  · rw [safeFilename, hlist, safeCharacters_self hsafe]
    rfl

end InkHole
