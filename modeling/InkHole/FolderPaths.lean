import InkHole.Protocol
import Mathlib.Data.List.TakeWhile

/-! The relative paths of a folder, and the places they name below its root. -/

set_option linter.unusedSectionVars false

namespace InkHole

theorem rsplitSlash_some {path parent : List Char} :
    rsplitSlash path = some parent ↔ ∃ name, path = parent ++ '/' :: name ∧ '/' ∉ name := by
  constructor
  · intro h
    rw [rsplitSlash] at h
    split at h
    · next hmem =>
      obtain rfl := Option.some.inj h
      have hrev : '/' ∈ path.reverse := by simpa using hmem
      obtain ⟨tail, htail⟩ : ∃ tail, path.reverse.dropWhile (· != '/') = '/' :: tail := by
        cases hd : path.reverse.dropWhile (· != '/') with
        | nil =>
          have hall := List.dropWhile_eq_nil_iff.mp hd '/' hrev
          simp at hall
        | cons c tail =>
          have hne : path.reverse.dropWhile (· != '/') ≠ [] := by simp [hd]
          have hhead := List.head_dropWhile_not (· != '/') hne
          simp only [hd, List.head_cons, bne_eq_false_iff_eq] at hhead
          exact ⟨tail, by rw [hhead]⟩
      have hsplit := List.takeWhile_append_dropWhile (p := (· != '/')) (l := path.reverse)
      rw [htail] at hsplit
      refine ⟨(path.reverse.takeWhile (· != '/')).reverse, ?_, ?_⟩
      · have hpath := congrArg List.reverse hsplit
        rw [List.reverse_reverse] at hpath
        rw [htail, List.drop_one, List.tail_cons]
        simpa using hpath.symm
      · intro hc
        have hin := List.mem_takeWhile_imp (List.mem_reverse.mp hc)
        simp at hin
    · cases h
  · rintro ⟨name, rfl, hname⟩
    have hdrop : (name.reverse ++ '/' :: parent.reverse).dropWhile (· != '/') = '/' :: parent.reverse := by
      have hall : ∀ c ∈ name.reverse, (c != '/') = true := by
        intro c hc
        have hne : c ≠ '/' := fun he => hname (he ▸ List.mem_reverse.mp hc)
        simpa using hne
      rw [List.dropWhile_append_of_pos hall]
      simp
    simp [rsplitSlash, hdrop]

theorem not_mem_splitOn {c : Char} {cs l : List Char} (h : l ∈ cs.splitOn c) : c ∉ l := by
  induction cs generalizing l with
  | nil =>
    rw [List.splitOn_nil, List.mem_singleton] at h
    simp [h]
  | cons x cs ih =>
    rw [List.splitOn_cons_eq_if_modifyHead] at h
    split at h
    · rcases List.mem_cons.mp h with rfl | h
      · simp
      · exact ih h
    · next hx =>
      obtain ⟨a, as, ha⟩ := List.exists_cons_of_ne_nil (List.splitOn_ne_nil c cs)
      rw [ha, List.modifyHead_cons] at h
      rcases List.mem_cons.mp h with rfl | h
      · have hc := ih (l := a) (by simp [ha])
        have hxc : c ≠ x := fun he => hx (by simp [he])
        simp [hc, hxc]
      · exact ih (by simp [ha, h])

theorem not_mem_components {path name : String} (h : name ∈ components path) : '/' ∉ name.toList := by
  obtain ⟨l, hl, rfl⟩ := List.mem_map.mp h
  simpa using not_mem_splitOn hl

theorem components_ne_nil (path : String) : components path ≠ [] := by
  simp [components, List.splitOn_ne_nil]

theorem components_plain {name : String} (h : '/' ∉ name.toList) : components name = [name] := by
  simp [components, List.splitOn_eq_singleton h]

theorem components_append {name : String} (parent : String) (h : '/' ∉ name.toList) :
    components (parent ++ "/" ++ name) = components parent ++ [name] := by
  have hl : (parent ++ "/" ++ name).toList = parent.toList ++ '/' :: name.toList := by simp
  rw [components, hl, List.splitOn_append_cons_self, List.map_append, ← components, ← components,
    components_plain h]

/-- A path is determined by its components. -/
theorem components_inj {a b : String} (h : components a = components b) : a = b := by
  have hinj : Function.Injective String.ofList := fun l l' h => by
    simpa using congrArg String.toList h
  have hs : a.toList.splitOn '/' = b.toList.splitOn '/' := List.map_injective_iff.mpr hinj h
  have ha : a.toList = ['/'].intercalate (a.toList.splitOn '/') := (List.intercalate_splitOn '/').symm
  rw [← String.toList_inj, ha, hs, List.intercalate_splitOn]

/-- The path of an entry of a directory. The path of the folder itself is empty. -/
def childPath (parent name : String) : String := if parent = "" then name else parent ++ "/" ++ name

/-- Where a relative path lies. -/
def place (root : Path) (relative : String) : Path :=
  if relative = "" then root else (components relative).reverse ++ root

variable {root : Path} {parent name : String}

theorem place_empty (root : Path) : place root "" = root := if_pos rfl

theorem suffix_place (root : Path) (path : String) : root <:+ place root path := by
  rw [place]
  split
  · exact List.suffix_rfl
  · exact List.suffix_append _ root

theorem place_of_ne {relative : String} (h : relative ≠ "") :
    place root relative = (components relative).reverse ++ root := if_neg h

theorem childPath_ne (hn : name ≠ "") : childPath parent name ≠ "" := by
  rw [childPath]
  split
  · exact hn
  · intro he
    have hl := congrArg String.length he
    simp [String.length_append] at hl

theorem place_child (root : Path) (parent : String) (hs : '/' ∉ name.toList) (hn : name ≠ "") :
    place root (childPath parent name) = name :: place root parent := by
  rw [place_of_ne (childPath_ne hn), childPath]
  split
  · next hp => simp [hp, place_empty, components_plain hs]
  · next hp => simp [place_of_ne hp, components_append parent hs]

theorem place_inj {a b : String} (h : place root a = place root b) : a = b := by
  have hroot : ∀ {c : String}, c ≠ "" → place root c ≠ root := by
    intro c hc he
    rw [place_of_ne hc] at he
    have hnil := List.append_left_eq_self.mp he
    exact components_ne_nil c (List.reverse_eq_nil_iff.mp hnil)
  by_cases ha : a = ""
  · by_cases hb : b = ""
    · rw [ha, hb]
    · exact absurd (by rw [← h, ha, place_empty]) (hroot hb)
  · by_cases hb : b = ""
    · exact absurd (by rw [h, hb, place_empty]) (hroot ha)
    · rw [place_of_ne ha, place_of_ne hb] at h
      exact components_inj (List.reverse_injective (List.append_cancel_right h))

theorem childPath_inj {parent' name' : String} (hs : '/' ∉ name.toList) (hn : name ≠ "")
    (hs' : '/' ∉ name'.toList) (hn' : name' ≠ "")
    (h : childPath parent name = childPath parent' name') : parent = parent' ∧ name = name' := by
  have hp := congrArg (place []) h
  rw [place_child [] parent hs hn, place_child [] parent' hs' hn'] at hp
  exact ⟨place_inj (List.cons.inj hp).2, (List.cons.inj hp).1⟩

theorem components_intercalate {names : List String} (hs : ∀ name ∈ names, '/' ∉ name.toList)
    (hne : names ≠ []) :
    components (String.ofList (['/'].intercalate (names.map String.toList))) = names := by
  have hl : ∀ l ∈ names.map String.toList, '/' ∉ l := by
    intro l hl
    obtain ⟨name, hn, rfl⟩ := List.mem_map.mp hl
    exact hs name hn
  rw [components, String.toList_ofList, List.splitOn_intercalate '/' hl (by simpa using hne), List.map_map]
  simp [Function.comp_def]

/-- Every path is that of an entry of some directory. -/
theorem exists_childPath {path : String} (h : ∀ name ∈ components path, name ≠ "") :
    ∃ parent name, path = childPath parent name ∧ '/' ∉ name.toList ∧ name ≠ "" := by
  obtain ⟨init, name, hc⟩ := (List.eq_nil_or_concat (components path)).resolve_left (components_ne_nil path)
  rw [List.concat_eq_append] at hc
  have hmem : ∀ l ∈ components path, '/' ∉ l.toList := fun l hl => not_mem_components hl
  have hname : name ∈ components path := by simp [hc]
  by_cases hi : init = []
  · refine ⟨"", name, components_inj ?_, hmem name hname, h name hname⟩
    rw [childPath, if_pos rfl, hc, hi, components_plain (hmem name hname), List.nil_append]
  · have hinit : ∀ l ∈ init, l ∈ components path := fun l hl => by simp [hc, hl]
    have hparent := components_intercalate (fun l hl => hmem l (hinit l hl)) hi
    generalize String.ofList (['/'].intercalate (init.map String.toList)) = parent at hparent
    have hne : parent ≠ "" := by
      rintro rfl
      have he : ("" : String) ∈ init := by rw [← hparent, components_plain (by simp)]; simp
      exact h "" (hinit _ he) rfl
    refine ⟨parent, name, components_inj ?_, hmem name hname, h name hname⟩
    rw [childPath, if_neg hne, components_append parent (hmem name hname), hparent, hc]

/-! What validation says of a path. -/

theorem valid_components {path : String} (h : validateFolderRelativePath path = .ok ()) :
    path ≠ "" ∧ ∀ name ∈ components path, name ≠ "" := by
  rw [validateFolderRelativePath] at h
  split at h
  · cases h
  · next hcond =>
    split at h
    · cases h
    · next hany =>
      refine ⟨fun he => hcond (.inl (by simp [he])), fun name hn he => ?_⟩
      obtain ⟨l, hl, rfl⟩ := List.mem_map.mp hn
      refine hany (List.any_eq_true.mpr ⟨l, hl, ?_⟩)
      have hnil : l = [] := by simpa using he
      simp [invalidComponent, hnil]

end InkHole
