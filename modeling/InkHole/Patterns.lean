import Mathlib.Data.Finset.Card
import Mathlib.Data.Finset.Image
import Mathlib.Data.List.Infix
import Mathlib.Order.Interval.Finset.Nat

/-! Patterns of SQL, and the search for a number that makes a name free. -/

namespace Patterns

/-- Letters of ASCII match in either case. -/
def sameLetter (c d : Char) : Bool := c.toLower == d.toLower

/-- The operator `LIKE`: a percent sign matches any text, an underscore any character. -/
def like : List Char → List Char → Bool
  | [], text => text.isEmpty
  | c :: pattern, text =>
    if c = '%' then text.tails.any (like pattern)
    else text.head?.any (fun d => c == '_' || sameLetter c d) && like pattern text.tail

theorem like_nil (text : List Char) : like [] text = true ↔ text = [] := by simp [like]

theorem like_any (pattern text : List Char) :
    like ('%' :: pattern) text = true ↔ ∃ front rest, text = front ++ rest ∧ like pattern rest = true := by
  rw [like, if_pos rfl, List.any_eq_true]
  constructor
  · rintro ⟨rest, hrest, hlike⟩
    obtain ⟨front, rfl⟩ := (List.mem_tails _ _).mp hrest
    exact ⟨front, rest, rfl, hlike⟩
  · rintro ⟨front, rest, rfl, hlike⟩
    exact ⟨rest, (List.mem_tails _ _).mpr (List.suffix_append front rest), hlike⟩

theorem like_cons {c : Char} (hc : c ≠ '%') (pattern text : List Char) :
    like (c :: pattern) text = true ↔
      ∃ d rest, text = d :: rest ∧ (c = '_' ∨ sameLetter c d = true) ∧ like pattern rest = true := by
  rw [like, if_neg hc]
  cases text with
  | nil => simp
  | cons d rest => simp

/-- A text is at least as long as what of the pattern stands for one character each. -/
theorem length_of_like {pattern text : List Char} (h : like pattern text = true) :
    (pattern.filter (· ≠ '%')).length ≤ text.length := by
  induction pattern generalizing text with
  | nil => simp
  | cons c pattern ih =>
    by_cases hc : c = '%'
    · subst hc
      obtain ⟨front, rest, rfl, hrest⟩ := (like_any pattern text).mp h
      have hlength := ih hrest
      rw [List.filter_cons_of_neg (by simp), List.length_append]
      omega
    · obtain ⟨d, rest, rfl, -, hrest⟩ := (like_cons hc pattern text).mp h
      have hlength := ih hrest
      rw [List.filter_cons_of_pos (by simpa using hc), List.length_cons, List.length_cons]
      omega

/-! The first number that is not taken. -/

variable {α : Type}

/-- The search begins at `n` and gives up after `fuel` numbers. -/
def firstFree (taken : Nat → Bool) : Nat → Nat → Nat
  | 0, n => n
  | fuel + 1, n => if taken n then firstFree taken fuel (n + 1) else n

theorem firstFree_free {taken : Nat → Bool} {fuel n m : Nat} (hn : n ≤ m) (hm : m < n + fuel)
    (hfree : taken m = false) : taken (firstFree taken fuel n) = false := by
  induction fuel generalizing n with
  | zero => omega
  | succ fuel ih =>
    rw [firstFree]
    by_cases htaken : taken n = true
    · rw [if_pos htaken]
      have hne : n ≠ m := by
        rintro rfl
        rw [htaken] at hfree
        cases hfree
      exact ih (by omega) (by omega)
    · rw [if_neg htaken]
      simpa using htaken

/-- Among more names than there are in a list one is not in it. -/
theorem exists_free [DecidableEq α] {candidate : Nat → α} (hinj : Function.Injective candidate) (there : List α)
    (n : Nat) : ∃ m, n ≤ m ∧ m < n + (there.length + 1) ∧ candidate m ∉ there := by
  by_contra hnone
  push Not at hnone
  have hsubset : (Finset.Ico n (n + (there.length + 1))).image candidate ⊆ there.toFinset := by
    intro name hname
    obtain ⟨m, hm, rfl⟩ := Finset.mem_image.mp hname
    obtain ⟨hlow, hhigh⟩ := Finset.mem_Ico.mp hm
    exact List.mem_toFinset.mpr (hnone m hlow hhigh)
  have hcard := Finset.card_le_card hsubset
  rw [Finset.card_image_of_injective _ hinj, Nat.card_Ico] at hcard
  have hlength := there.toFinset_card_le
  omega

/-- A search among as many numbers finds a name that is not in the list. -/
theorem firstFree_not_mem [DecidableEq α] {candidate : Nat → α} (hinj : Function.Injective candidate)
    (there : List α) (n : Nat) :
    candidate (firstFree (fun m => decide (candidate m ∈ there)) (there.length + 1) n) ∉ there := by
  obtain ⟨m, hlow, hhigh, hfree⟩ := exists_free hinj there n
  generalize htaken : (fun m => decide (candidate m ∈ there)) = taken
  have hm : taken m = false := by
    rw [← htaken]
    exact decide_eq_false hfree
  have hfound := firstFree_free hlow hhigh hm
  generalize firstFree taken (there.length + 1) n = found at hfound
  rw [← htaken] at hfound
  exact of_decide_eq_false hfound

end Patterns
