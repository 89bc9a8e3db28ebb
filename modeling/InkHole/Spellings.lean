import InkHole.NormalForms
import InkHole.ManifestSpec

/-! Spellings of one path that a file system which normalises names and ignores their case takes for
one file, and the manifests whose entries are told apart by the key of their paths. -/

set_option linter.unusedSectionVars false

namespace InkHole

open Externals

section Spellings

variable [Externals] {p q : String} {m : FolderManifest}

def normalizedPath (path : String) : String := String.ofList (nfc path.toList)

/-- Every component in lower case. -/
def lowercasePath (path : String) : String :=
  String.ofList (['/'].intercalate ((components path).map fun name => name.toList.flatMap toLowercase))

/-- What the Unicode tables are relied on for. -/
structure UnicodeTables : Prop where
  nfc_nfc : ∀ s, nfc (nfc s) = nfc s
  lowercase_lowercase : ∀ c, (toLowercase c).flatMap toLowercase = toLowercase c
  /-- Text in one canonical form is still so in lower case. -/
  nfc_lowercase_nfc : ∀ s : List Char, nfc ((nfc s).flatMap toLowercase) = nfc (s.flatMap toLowercase)
  /-- Normalising text in lower case leaves it in lower case. -/
  lowercase_nfc_lowercase : ∀ s : List Char, (nfc (s.flatMap toLowercase)).flatMap toLowercase = nfc (s.flatMap toLowercase)
  lowercase_slash : toLowercase '/' = ['/']

/-- One path in two spellings: canonically equivalent ones, or a path and itself in lower case, and so on. -/
abbrev SamePath : String → String → Prop := SameSpelling normalizedPath lowercasePath

/-- The lower case of the normalised path is normalised too. -/
abbrev SettledPath : String → Prop := Settled normalizedPath lowercasePath

theorem flatMap_intercalate {α β : Type} (f : α → List β) (sep : List α) (parts : List (List α)) :
    (sep.intercalate parts).flatMap f = (sep.flatMap f).intercalate (parts.map fun part => part.flatMap f) := by
  induction parts with
  | nil => rfl
  | cons part parts ih =>
    cases parts with
    | nil => simp
    | cons next parts =>
      rw [List.intercalate_cons_cons, List.flatMap_append, List.flatMap_append, ih]
      simp only [List.map_cons, List.intercalate_cons_cons]

theorem lowercasePath_toList (h : UnicodeTables) (path : String) :
    (lowercasePath path).toList = path.toList.flatMap toLowercase := by
  have hparts : (components path).map (fun name => name.toList.flatMap toLowercase) =
      (path.toList.splitOn '/').map fun part => part.flatMap toLowercase := by
    simp [components, Function.comp_def]
  have hslash : ['/'].flatMap toLowercase = ['/'] := by simp [h.lowercase_slash]
  have hwhole := flatMap_intercalate toLowercase ['/'] (path.toList.splitOn '/')
  rw [List.intercalate_splitOn, hslash] at hwhole
  rw [lowercasePath, String.toList_ofList, hparts, hwhole]

theorem UnicodeTables.respects (h : UnicodeTables) : Respects normalizedPath lowercasePath := by
  have hlower : ∀ s : List Char, (s.flatMap toLowercase).flatMap toLowercase = s.flatMap toLowercase := by
    intro s
    rw [List.flatMap_assoc]
    exact congrArg (fun f => s.flatMap f) (funext h.lowercase_lowercase)
  constructor
  · intro path
    rw [normalizedPath, normalizedPath, String.toList_ofList, h.nfc_nfc]
  · intro path
    rw [← String.toList_inj, lowercasePath_toList h, lowercasePath_toList h, hlower]
  · intro path
    rw [normalizedPath, lowercasePath_toList h, normalizedPath, String.toList_ofList, h.nfc_lowercase_nfc,
      ← lowercasePath_toList h]
    rfl
  · intro path
    rw [← String.toList_inj, lowercasePath_toList h, normalizedPath, String.toList_ofList, lowercasePath_toList h,
      h.lowercase_nfc_lowercase]

theorem canonicalFolderPath_eq (h : UnicodeTables) (path : String) :
    canonicalFolderPath path = (lowercasePath (normalizedPath path)).toList := by
  rw [lowercasePath_toList h, normalizedPath, String.toList_ofList]
  rfl

/-- The key of a path is a path again. -/
def folderKey (path : String) : String := String.ofList (canonicalFolderPath path)

theorem folderKey_eq (h : UnicodeTables) (path : String) : folderKey path = lowercasePath (normalizedPath path) := by
  rw [folderKey, canonicalFolderPath_eq h, String.ofList_toList]

/-- No two entries are one file, and each key belongs to all spellings of its path. -/
structure FolderManifest.ToldApart (m : FolderManifest) : Prop where
  distinct : m.entries.Pairwise fun e f => ¬ SamePath e.path f.path
  constant : ∀ e ∈ m.entries, ∀ path, SamePath e.path path → folderKey path = folderKey e.path
  idempotent : ∀ e ∈ m.entries, folderKey (folderKey e.path) = folderKey e.path

theorem FolderManifest.folderKeys_distinct {size : Nat} (hv : m.validate = .ok size) :
    m.entries.Pairwise fun e f => folderKey e.path ≠ folderKey f.path := by
  have hspec := (((FolderManifest.validate_iff m).1 size).mp hv).1
  have hnodup := List.pairwise_map.mp hspec.distinct
  exact hnodup.imp fun {e f} hne heq => hne (String.ofList_injective heq)

/-- An accepted manifest tells its entries apart exactly when all spellings of their paths are settled:
lower case leaves none of them in a form that composes further. For the entries alone it is enough
that an entry that is not settled has no other entry with the same composed form. -/
theorem told_apart_iff (tables : UnicodeTables) {size : Nat} (hv : m.validate = .ok size) :
    (m.ToldApart ↔ ∀ e ∈ m.entries, ∀ path, SamePath e.path path → SettledPath path) ∧
    (m.entries.Pairwise (fun e f => ¬ SamePath e.path f.path) ↔
      m.entries.Pairwise fun e f => SettledPath e.path ∧ SettledPath f.path ∨
        normalizedPath (lowercasePath e.path) ≠ normalizedPath (lowercasePath f.path)) := by
  have h := tables.respects
  have hkeys := FolderManifest.folderKeys_distinct hv
  have hsettled : ∀ {e f : FolderEntry}, folderKey e.path ≠ folderKey f.path →
      SettledPath e.path → SettledPath f.path → ¬ SamePath e.path f.path := by
    intro e f hne he hf hsame
    rw [folderKey_eq tables, folderKey_eq tables, h.key_of_settled he, h.key_of_settled hf] at hne
    exact hne (h.sameSpelling_iff.mp hsame)
  constructor
  · constructor
    · intro hm e he
      refine h.key_constant_iff.mp fun path hpath => ?_
      have hkey := hm.constant e he path hpath
      rwa [folderKey_eq tables, folderKey_eq tables] at hkey
    · intro hall
      constructor
      · refine hkeys.imp_of_mem fun {e f} he hf hne hsame => ?_
        exact hsettled hne (hall e he _ (.refl _)) (hall e he _ hsame) hsame
      · intro e he path hpath
        rw [folderKey_eq tables, folderKey_eq tables]
        exact h.key_constant_iff.mpr (hall e he) path hpath
      · intro e he
        rw [folderKey_eq tables, folderKey_eq tables]
        exact h.key_idempotent_iff.mpr (hall e he _ (.refl _))
  · constructor
    · intro hdistinct
      exact hdistinct.imp fun {e f} hne => .inr fun heq => hne (h.sameSpelling_iff.mpr heq)
    · intro hpair
      refine (hpair.and hkeys).imp fun {e f} hef hsame => ?_
      obtain ⟨hcase, hne⟩ := hef
      rcases hcase with ⟨he, hf⟩ | hcomposed
      · exact hsettled hne he hf hsame
      · exact hcomposed (h.sameSpelling_iff.mp hsame)

end Spellings

namespace Sample

/-- The one composition that the sample needs: the letter h with a line below. -/
def composed : List Char → List Char
  | 'h' :: '\u0331' :: rest => '\u1e96' :: composed rest
  | c :: rest => c :: composed rest
  | [] => []

def lowerChar (c : Char) : Char := if c = 'H' then 'h' else c

theorem lowerChar_lowerChar (c : Char) : lowerChar (lowerChar c) = lowerChar c := by
  by_cases h : c = 'H'
  · rw [h]
    decide
  · simp [lowerChar, h]

theorem composed_cons {c : Char} (hc : c ≠ 'h') (rest : List Char) : composed (c :: rest) = c :: composed rest := by
  rw [composed]
  intro rest' hc' _
  exact hc hc'

theorem composed_h {rest : List Char} (h : ∀ rest', rest ≠ '\u0331' :: rest') :
    composed ('h' :: rest) = 'h' :: composed rest := by
  rw [composed]
  intro rest' _ heq
  exact h rest' heq

/-- Composing puts no line at the front. -/
theorem composed_front {s rest : List Char} (h : composed s = '\u0331' :: rest) : ∃ rest', s = '\u0331' :: rest' := by
  fun_cases composed s with
  | case1 rest' =>
    rw [composed] at h
    have hc := (List.cons.inj h).1
    exact absurd hc (by decide)
  | case2 c rest' hne =>
    rw [composed.eq_2 c rest' hne] at h
    exact ⟨rest', by rw [(List.cons.inj h).1]⟩
  | case3 => cases h

theorem composed_composed (s : List Char) : composed (composed s) = composed s := by
  fun_induction composed s with
  | case1 rest ih => rw [composed_cons (by decide), ih]
  | case2 c rest hne ih =>
    by_cases hc : c = 'h'
    · subst hc
      rw [composed_h, ih]
      intro rest' heq
      obtain ⟨rest'', hrest⟩ := composed_front heq
      exact hne rest'' rfl hrest
    · rw [composed_cons hc, ih]
  | case3 => rfl

/-- Composing before the case is changed makes no difference to composing after it. -/
theorem composed_lower (s : List Char) :
    composed ((composed s).map lowerChar) = composed (s.map lowerChar) := by
  fun_induction composed s with
  | case1 rest ih =>
    have hletter : lowerChar '\u1e96' = '\u1e96' := by decide
    have hfirst : lowerChar 'h' = 'h' := by decide
    have hline : lowerChar '\u0331' = '\u0331' := by decide
    rw [List.map_cons, hletter, composed_cons (by decide), ih, List.map_cons, List.map_cons, hfirst, hline, composed]
  | case2 c rest hne ih =>
    rw [List.map_cons, List.map_cons]
    by_cases hc : lowerChar c = 'h'
    · rw [hc]
      by_cases hline : ∃ rest', rest = '\u0331' :: rest'
      · -- only now does the letter meet its line
        obtain ⟨rest', rfl⟩ := hline
        have hmark : lowerChar '\u0331' = '\u0331' := by decide
        have hfront : ∀ t, composed ('\u0331' :: t) = '\u0331' :: composed t := composed_cons (by decide)
        rw [hfront, List.map_cons, List.map_cons, hmark, hfront, hfront] at ih
        rw [hfront, List.map_cons, List.map_cons, hmark, composed, composed, (List.cons.inj ih).2]
      · have hrest : ∀ t : List Char, (∀ rest', t ≠ '\u0331' :: rest') → ∀ rest', t.map lowerChar ≠ '\u0331' :: rest' := by
          intro t ht rest' heq
          obtain ⟨c', t', rfl, hc', -⟩ := List.map_eq_cons_iff.mp heq
          have hsame : c' = '\u0331' := by
            by_cases hH : c' = 'H'
            · rw [hH] at hc'
              exact absurd hc' (by decide)
            · rwa [lowerChar, if_neg hH] at hc'
          exact ht t' (by rw [hsame])
        rw [composed_h (hrest _ fun rest' heq => hline (composed_front heq)),
          composed_h (hrest _ fun rest' heq => hline ⟨rest', heq⟩), ih]
    · rw [composed_cons hc, composed_cons hc, ih]
  | case3 => rfl

theorem mem_composed {s : List Char} {c : Char} (h : c ∈ composed s) : c ∈ s ∨ c = '\u1e96' := by
  fun_induction composed s with
  | case1 rest ih =>
    rcases List.mem_cons.mp h with rfl | h
    · exact .inr rfl
    · exact (ih h).imp (fun hm => by simp [hm]) id
  | case2 d rest hne ih =>
    rcases List.mem_cons.mp h with rfl | h
    · exact .inl List.mem_cons_self
    · exact (ih h).imp (List.mem_cons_of_mem d) id
  | case3 => exact .inl h

theorem lower_composed_lower (s : List Char) :
    (composed (s.map lowerChar)).map lowerChar = composed (s.map lowerChar) := by
  refine (List.map_congr_left fun c hc => ?_).trans (List.map_id _)
  rcases mem_composed hc with hmem | rfl
  · obtain ⟨d, -, rfl⟩ := List.mem_map.mp hmem
    exact lowerChar_lowerChar d
  · decide

@[reducible] def composing : Externals :=
  { externals with
    nfc := composed
    toLowercase := fun c => [lowerChar c] }

/-- Two directories that differ in the case of a letter, one of them in composed form. -/
def spelledTwice : FolderManifest :=
  ⟨1, [⟨"H\u0331", .directory, 0, 0, ""⟩, ⟨"\u1e96", .directory, 0, 0, ""⟩]⟩

end Sample

attribute [local instance] Sample.composing

theorem composing_tables : UnicodeTables := by
  have hmap : ∀ s : List Char, s.flatMap toLowercase = s.map Sample.lowerChar := by
    intro s
    exact List.map_eq_flatMap.symm
  constructor
  · exact Sample.composed_composed
  · intro c
    change [Sample.lowerChar (Sample.lowerChar c)] = [Sample.lowerChar c]
    rw [Sample.lowerChar_lowerChar]
  · intro s
    rw [hmap, hmap]
    exact Sample.composed_lower s
  · intro s
    rw [hmap, hmap]
    exact Sample.lower_composed_lower s
  · decide

/-- For these directories the condition comes down to spellings of their names. -/
theorem told_apart_sample :
    (Sample.spelledTwice.ToldApart ↔
      ∀ e ∈ Sample.spelledTwice.entries, ∀ path, SamePath e.path path → SettledPath path) ∧
    (Sample.spelledTwice.entries.Pairwise (fun e f => ¬ SamePath e.path f.path) ↔
      Sample.spelledTwice.entries.Pairwise fun e f => SettledPath e.path ∧ SettledPath f.path ∨
        normalizedPath (lowercasePath e.path) ≠ normalizedPath (lowercasePath f.path)) := by
  have hvalid : Sample.spelledTwice.validate = .ok 0 := by decide +kernel
  exact told_apart_iff composing_tables hvalid

/-- Both directories are accepted, although the second is the first in lower case, normalised. The key of the
first is not its own key. -/
theorem spelled_twice_accepted : UnicodeTables ∧ Sample.spelledTwice.validate = .ok 0 ∧
    SamePath "H\u0331" "\u1e96" ∧ folderKey "H\u0331" ≠ folderKey "\u1e96" ∧
    folderKey (folderKey "H\u0331") ≠ folderKey "H\u0331" ∧ ¬ Sample.spelledTwice.ToldApart := by
  have hsame : SamePath "H\u0331" "\u1e96" := by
    refine (Relation.EqvGen.rel _ _ (.lowered _)).trans _ _ _ (.rel _ _ (.normal ?_))
    decide +kernel
  refine ⟨composing_tables, by decide +kernel, hsame, by decide +kernel, by decide +kernel, fun h => ?_⟩
  have hpair := List.pairwise_cons.mp h.distinct
  exact hpair.1 _ (List.mem_singleton.mpr rfl) hsame

end InkHole
