import InkHole.Discovery
import InkHole.SafeNames

/-! Text as the app and the core trim and split it, and the numbers that the app reads from it. -/

namespace InkHole

/-- Both ends are trimmed. -/
def trimMatches (drop : Char → Bool) (cs : List Char) : List Char := trimEndMatches drop (cs.dropWhile drop)

theorem trimMatches_subset (drop : Char → Bool) (cs : List Char) : trimMatches drop cs ⊆ cs :=
  List.Subset.trans (trimEndMatches_subset drop _) (List.dropWhile_subset drop)

/-- What is not trimmed stays. -/
theorem mem_trimMatches {drop : Char → Bool} {c : Char} (hc : drop c = false) {cs : List Char} :
    c ∈ trimMatches drop cs ↔ c ∈ cs := by
  have hdrop : ∀ {ds : List Char}, c ∈ ds → c ∈ ds.dropWhile drop := by
    intro ds hin
    rw [← List.takeWhile_append_dropWhile (p := drop) (l := ds), List.mem_append] at hin
    rcases hin with htaken | hleft
    · rw [List.mem_takeWhile_imp htaken] at hc
      cases hc
    · exact hleft
  constructor
  · exact fun h => trimMatches_subset drop cs h
  · intro hin
    rw [trimMatches, trimEndMatches, List.mem_reverse]
    exact hdrop (List.mem_reverse.mpr (hdrop hin))

theorem getLast?_trimMatches (drop : Char → Bool) (cs : List Char) :
    (trimMatches drop cs).getLast?.any drop = false :=
  getLast?_trimEndMatches drop _

theorem head?_dropWhile_any (drop : Char → Bool) (cs : List Char) : (cs.dropWhile drop).head?.any drop = false := by
  have hhead := List.head?_dropWhile_not drop cs
  cases h : (cs.dropWhile drop).head? with
  | none => rfl
  | some c =>
    rw [h] at hhead
    exact hhead

theorem head?_trimMatches (drop : Char → Bool) (cs : List Char) : (trimMatches drop cs).head?.any drop = false := by
  have hfront : trimMatches drop cs <+: cs.dropWhile drop := List.rdropWhile_prefix drop _
  have hhead := head?_dropWhile_any drop cs
  cases htrimmed : trimMatches drop cs with
  | nil => rfl
  | cons c rest =>
    rw [htrimmed] at hfront
    obtain ⟨tail, htail⟩ := hfront
    rw [← htail] at hhead
    exact hhead

theorem trimMatches_self {drop : Char → Bool} {cs : List Char} (hhead : cs.head?.any drop = false)
    (hlast : cs.getLast?.any drop = false) : trimMatches drop cs = cs := by
  have hdrop : cs.dropWhile drop = cs := by
    cases cs with
    | nil => rfl
    | cons c rest => exact List.dropWhile_cons_of_neg (by simpa using hhead)
  rw [trimMatches, hdrop]
  exact trimEndMatches_self hlast

/-- Text without such characters at its ends stays, whatever less is trimmed. -/
theorem trimMatches_trimMatches {drop more : Char → Bool} (h : ∀ c, drop c = true → more c = true)
    (cs : List Char) : trimMatches drop (trimMatches more cs) = trimMatches more cs := by
  have hany : ∀ {o : Option Char}, o.any more = false → o.any drop = false := by
    intro o ho
    cases o with
    | none => rfl
    | some c =>
      rw [Option.any_some] at ho ⊢
      cases hc : drop c with
      | false => rfl
      | true => rw [h c hc] at ho; cases ho
  exact trimMatches_self (hany (head?_trimMatches more cs)) (hany (getLast?_trimMatches more cs))

/-! Splitting at a character. -/

/-- What is in front of the first such character, and what is after it. -/
def splitFirst (c : Char) (text : List Char) : Option (List Char × List Char) :=
  if c ∈ text then some (text.takeWhile (· != c), (text.dropWhile (· != c)).tail) else none

def splitLast (c : Char) (text : List Char) : Option (List Char × List Char) :=
  (splitFirst c text.reverse).map fun parts => (parts.2.reverse, parts.1.reverse)

theorem splitFirst_none {c : Char} {text : List Char} (h : c ∉ text) : splitFirst c text = none := if_neg h

theorem splitFirst_append {c : Char} {front : List Char} (h : c ∉ front) (back : List Char) :
    splitFirst c (front ++ c :: back) = some (front, back) := by
  have hne : ∀ d ∈ front, (d != c) = true := by
    intro d hd
    rw [bne_iff_ne]
    rintro rfl
    exact h hd
  rw [splitFirst, if_pos (List.mem_append_right _ List.mem_cons_self), List.takeWhile_append_of_pos hne,
    List.dropWhile_append_of_pos hne]
  simp

theorem splitLast_none {c : Char} {text : List Char} (h : c ∉ text) : splitLast c text = none := by
  rw [splitLast, splitFirst_none (by simpa using h), Option.map_none]

theorem splitLast_append {c : Char} {back : List Char} (h : c ∉ back) (front : List Char) :
    splitLast c (front ++ c :: back) = some (front, back) := by
  have hreverse : (front ++ c :: back).reverse = back.reverse ++ c :: front.reverse := by simp
  rw [splitLast, hreverse, splitFirst_append (by simpa using h), Option.map_some, List.reverse_reverse,
    List.reverse_reverse]

/-- A character of a text has a last place in it. -/
theorem exists_splitLast {c : Char} {text : List Char} (h : c ∈ text) :
    ∃ front back, text = front ++ c :: back ∧ c ∉ back := by
  obtain ⟨back, front, heq, hback⟩ := List.eq_append_cons_of_mem (List.mem_reverse.mpr h)
  refine ⟨front.reverse, back.reverse, ?_, by simpa using hback⟩
  rw [← List.reverse_reverse text, heq]
  simp

theorem trim_eq (s : String) : trim s = String.ofList (trimMatches isWhitespace s.toList) := rfl

namespace Dart

/-- Unlike the core the app also trims the mark of a byte order. -/
def whitespace (c : Char) : Bool := isWhitespace c || c == '\uFEFF'

def trim (text : List Char) : List Char := trimMatches whitespace text

/-- The length of a text is that of its encoding in UTF-16. -/
def length (text : List Char) : Nat := (text.map fun c => if c.toNat < 0x10000 then 1 else 2).sum

theorem length_ascii {text : List Char} (h : ∀ c ∈ text, c.val ≤ 127) : length text = text.length := by
  induction text with
  | nil => rfl
  | cons c text ih =>
    obtain ⟨hc, htext⟩ := List.forall_mem_cons.mp h
    have hsmall : c.toNat < 0x10000 := by
      have hle : c.toNat ≤ 127 := UInt32.le_iff_toNat_le.mp hc
      omega
    have hlength := ih htext
    rw [length] at hlength ⊢
    rw [List.map_cons, List.sum_cons, if_pos hsmall, hlength, List.length_cons]
    omega

theorem trim_subset (text : List Char) : trim text ⊆ text := trimMatches_subset whitespace text

theorem mem_trim {c : Char} (hc : whitespace c = false) {text : List Char} : c ∈ trim text ↔ c ∈ text :=
  mem_trimMatches hc

theorem trim_trim (text : List Char) : trim (trim text) = trim text :=
  trimMatches_trimMatches (fun _ h => h) text

theorem trim_self {text : List Char} (hhead : text.head?.any whitespace = false)
    (hlast : text.getLast?.any whitespace = false) : trim text = text :=
  trimMatches_self hhead hlast

theorem trim_spaceless {text : List Char} (h : ∀ c ∈ text, whitespace c = false) : trim text = text := by
  have hend : ∀ {o : Option Char}, (∀ c ∈ o, c ∈ text) → o.any whitespace = false := by
    intro o ho
    cases o with
    | none => rfl
    | some c => exact h c (ho c rfl)
  exact trim_self (hend fun c hc => List.mem_of_mem_head? hc) (hend fun c hc => List.mem_of_getLast? hc)

theorem whitespace_of_isWhitespace (c : Char) (h : isWhitespace c = true) : whitespace c = true := by
  rw [whitespace, h, Bool.true_or]

/-- The core does not trim what the app has trimmed. -/
theorem core_trim (text : List Char) :
    InkHole.trim (String.ofList (trim text)) = String.ofList (trim text) := by
  rw [trim_eq, String.toList_ofList]
  exact congrArg String.ofList (trimMatches_trimMatches whitespace_of_isWhitespace text)

/-! Reading integers. -/

def hexDigit (c : Char) : Bool := c.isDigit || decide ('a' ≤ c ∧ c ≤ 'f') || decide ('A' ≤ c ∧ c ≤ 'F')

def hexDigitValue (c : Char) : Nat :=
  if c.isDigit then c.toNat - '0'.toNat else c.toLower.toNat - 'a'.toNat + 10

def hexValue (digits : List Char) : Nat := digits.foldl (fun n c => 16 * n + hexDigitValue c) 0

def hexMark (digits : List Char) : Bool := digits.take 2 == ['0', 'x'] || digits.take 2 == ['0', 'X']

/-- An integer has 64 bits. Hexadecimal digits may also give all of them. -/
def magnitude (negative : Bool) (digits : List Char) : Option Int :=
  if hexMark digits then
    if digits.drop 2 = [] ∨ !(digits.drop 2).all hexDigit then none
    else if negative then
      if hexValue (digits.drop 2) ≤ 2 ^ 63 then some (-(hexValue (digits.drop 2) : Int)) else none
    else if hexValue (digits.drop 2) < 2 ^ 63 then some (hexValue (digits.drop 2))
    else if hexValue (digits.drop 2) < 2 ^ 64 then some (hexValue (digits.drop 2) - 2 ^ 64)
    else none
  else if digits = [] ∨ !digits.all Char.isDigit then none
  else if negative then
    if Nat.ofDigitChars 10 digits 0 ≤ 2 ^ 63 then some (-(Nat.ofDigitChars 10 digits 0 : Int)) else none
  else if Nat.ofDigitChars 10 digits 0 < 2 ^ 63 then some (Nat.ofDigitChars 10 digits 0)
  else none

/-- White space around the integer does not count. -/
def tryParseInt (text : List Char) : Option Int :=
  let body := trim text
  if body.head? = some '-' then magnitude true body.tail
  else if body.head? = some '+' then magnitude false body.tail
  else magnitude false body

theorem whitespace_of_isDigit {c : Char} (h : c.isDigit = true) : whitespace c = false := by
  obtain ⟨hlow, hhigh⟩ := Char.isDigit_iff_toNat.mp h
  have hzero : '0'.toNat = 48 := rfl
  have hnine : '9'.toNat = 57 := rfl
  have hmark : (c == '\uFEFF') = false := by
    rw [beq_eq_false_iff_ne]
    rintro rfl
    exact absurd hhigh (by decide)
  rw [whitespace, hmark, Bool.or_false, isWhitespace]
  simp
  omega

theorem tryParseInt_trim (text : List Char) : tryParseInt (trim text) = tryParseInt text := by
  rw [tryParseInt, tryParseInt, trim_trim]

theorem toDigits_cons (n : Nat) : ∃ c rest, Nat.toDigits 10 n = c :: rest :=
  List.exists_cons_of_ne_nil Nat.toDigits_ne_nil

/-- The digits of a number are read back. -/
theorem tryParseInt_digits {n : Nat} (hn : n < 2 ^ 63) : tryParseInt (Nat.toDigits 10 n) = some (n : Int) := by
  have hdigits : ∀ c ∈ Nat.toDigits 10 n, c.isDigit = true := fun c hc =>
    Nat.isDigit_of_mem_toDigits (by omega) (by omega) hc
  have hvalue : Nat.ofDigitChars 10 (Nat.toDigits 10 n) 0 = n := Nat.ofDigitChars_ten_toDigits
  rw [tryParseInt, trim_spaceless fun c hc => whitespace_of_isDigit (hdigits c hc)]
  obtain ⟨c, rest, heq⟩ := toDigits_cons n
  rw [heq] at hdigits hvalue ⊢
  have hsign : ∀ d : Char, d.isDigit = false → ¬ (c :: rest).head? = some d := by
    intro d hd hc
    rw [List.head?_cons, Option.some.injEq] at hc
    rw [← hc, hdigits c List.mem_cons_self] at hd
    cases hd
  have hhex : hexMark (c :: rest) = false := by
    have hno : ∀ d : Char, d.isDigit = false → ¬ (c :: rest).take 2 = ['0', d] := by
      intro d hd htake
      have hin : d ∈ (c :: rest).take 2 := by simp [htake]
      rw [hdigits d (List.mem_of_mem_take hin)] at hd
      cases hd
    rw [hexMark, Bool.or_eq_false_iff, beq_eq_false_iff_ne, beq_eq_false_iff_ne]
    exact ⟨hno 'x' rfl, hno 'X' rfl⟩
  rw [if_neg (hsign '-' rfl), if_neg (hsign '+' rfl), magnitude, hhex, if_neg Bool.false_ne_true, hvalue]
  have hall : (c :: rest).all Char.isDigit = true := List.all_eq_true.mpr hdigits
  rw [if_neg (by simp [hall]), if_neg Bool.false_ne_true, if_pos hn]

theorem alphanum_iff {c : Char} :
    c.isAlphanum = true ↔ (('A' ≤ c ∧ c ≤ 'Z') ∨ 'a' ≤ c ∧ c ≤ 'z') ∨ c.isDigit = true := by
  change (decide ('A' ≤ c ∧ c ≤ 'Z') || (decide ('a' ≤ c) && decide (c ≤ 'z')) || c.isDigit) = true ↔ _
  simp only [Bool.or_eq_true, Bool.and_eq_true, decide_eq_true_eq]

theorem isAlphanum_of_hexDigit {c : Char} (h : hexDigit c = true) : c.isAlphanum = true := by
  simp only [hexDigit, Bool.or_eq_true, decide_eq_true_eq] at h
  rw [alphanum_iff]
  rcases h with (hdigit | ⟨hlow, hhigh⟩) | ⟨hlow, hhigh⟩
  · exact .inr hdigit
  · exact .inl (.inr ⟨hlow, Char.le_trans hhigh (by decide : 'f' ≤ 'z')⟩)
  · exact .inl (.inl ⟨hlow, Char.le_trans hhigh (by decide : 'F' ≤ 'Z')⟩)

theorem magnitude_chars {negative : Bool} {digits : List Char} {n : Int} (h : magnitude negative digits = some n)
    {c : Char} (hc : c ∈ digits) : c.isAlphanum = true := by
  rw [magnitude] at h
  by_cases hhex : hexMark digits = true
  · rw [if_pos hhex] at h
    have hall : (digits.drop 2).all hexDigit = true := by
      by_contra hno
      rw [Bool.not_eq_true] at hno
      rw [if_pos (.inr (by rw [hno]; rfl))] at h
      cases h
    rw [← List.take_append_drop 2 digits, List.mem_append] at hc
    rcases hc with hmark | hdigit
    · simp only [hexMark, Bool.or_eq_true, beq_iff_eq] at hhex
      rcases hhex with htake | htake
      · rw [htake] at hmark
        simp only [List.mem_cons, List.not_mem_nil, or_false] at hmark
        rcases hmark with rfl | rfl <;> decide
      · rw [htake] at hmark
        simp only [List.mem_cons, List.not_mem_nil, or_false] at hmark
        rcases hmark with rfl | rfl <;> decide
    · exact isAlphanum_of_hexDigit (List.all_eq_true.mp hall c hdigit)
  · rw [if_neg hhex] at h
    have hall : digits.all Char.isDigit = true := by
      by_contra hno
      rw [Bool.not_eq_true] at hno
      rw [if_pos (.inr (by rw [hno]; rfl))] at h
      cases h
    have hdigit := List.all_eq_true.mp hall c hc
    simp [Char.isAlphanum, hdigit]

/-- What stands in an integer. -/
theorem tryParseInt_chars {text : List Char} {n : Int} (h : tryParseInt text = some n) {c : Char}
    (hc : c ∈ text) : whitespace c = true ∨ c = '-' ∨ c = '+' ∨ c.isAlphanum = true := by
  by_cases hspace : whitespace c = true
  · exact .inl hspace
  · rw [Bool.not_eq_true] at hspace
    rw [← mem_trim hspace] at hc
    rw [tryParseInt] at h
    have hsign : ∀ {negative : Bool} {sign : Char}, (trim text).head? = some sign →
        magnitude negative (trim text).tail = some n → c = sign ∨ c.isAlphanum = true := by
      intro negative sign hhead hmagnitude
      rw [← List.cons_head?_tail hhead, List.mem_cons] at hc
      exact hc.imp_right (magnitude_chars hmagnitude)
    by_cases hminus : (trim text).head? = some '-'
    · rw [if_pos hminus] at h
      have hcases := hsign hminus h
      tauto
    · rw [if_neg hminus] at h
      by_cases hplus : (trim text).head? = some '+'
      · rw [if_pos hplus] at h
        have hcases := hsign hplus h
        tauto
      · rw [if_neg hplus] at h
        exact .inr (.inr (.inr (magnitude_chars h hc)))

end Dart

end InkHole
