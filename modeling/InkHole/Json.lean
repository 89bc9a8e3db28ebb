import InkHole.Codes

/-! JSON values and the compact text a serializer gives them. -/

namespace Json

open Codes

def hexDigit (n : Nat) : Char := if n < 10 then Char.ofNat (48 + n) else Char.ofNat (87 + n)

def escape (c : Char) : List Char :=
  if c = '"' then ['\\', '"']
  else if c = '\\' then ['\\', '\\']
  else if c.toNat = 8 then ['\\', 'b']
  else if c.toNat = 9 then ['\\', 't']
  else if c.toNat = 10 then ['\\', 'n']
  else if c.toNat = 12 then ['\\', 'f']
  else if c.toNat = 13 then ['\\', 'r']
  else if c.toNat < 32 then ['\\', 'u', '0', '0', hexDigit (c.toNat / 16), hexDigit (c.toNat % 16)]
  else [c]

def stringBody (s : List Char) : List Char := s.flatMap escape ++ ['"']

def stringText (s : String) : List Char := '"' :: stringBody s.toList

def readHex (c : Char) : Nat := if c.isDigit then c.toNat - 48 else c.toNat - 87

def readChar : List Char → Option (Char × List Char)
  | '\\' :: 'u' :: _ :: _ :: high :: low :: rest =>
    some (Char.ofNat (readHex high * 16 + readHex low), rest)
  | '\\' :: 'b' :: rest => some (Char.ofNat 8, rest)
  | '\\' :: 't' :: rest => some (Char.ofNat 9, rest)
  | '\\' :: 'n' :: rest => some (Char.ofNat 10, rest)
  | '\\' :: 'f' :: rest => some (Char.ofNat 12, rest)
  | '\\' :: 'r' :: rest => some (Char.ofNat 13, rest)
  | '\\' :: c :: rest => some (c, rest)
  | c :: rest => some (c, rest)
  | [] => none

theorem readHex_hexDigit : ∀ n < 16, readHex (hexDigit n) = n := by decide

theorem readChar_escape (c : Char) (rest : List Char) :
    readChar (escape c ++ rest) = some (c, rest) := by
  have hchar {n : Nat} (h : c.toNat = n) : c = Char.ofNat n := by rw [← h, Char.ofNat_toNat]
  unfold escape
  split
  case isTrue h => subst h; rfl
  split
  case isTrue h => subst h; rfl
  split
  case isTrue h => rw [hchar h]; rfl
  split
  case isTrue h => rw [hchar h]; rfl
  split
  case isTrue h => rw [hchar h]; rfl
  split
  case isTrue h => rw [hchar h]; rfl
  split
  case isTrue h => rw [hchar h]; rfl
  split
  case isTrue h =>
    have hhigh := readHex_hexDigit (c.toNat / 16) (by omega)
    have hlow := readHex_hexDigit (c.toNat % 16) (by omega)
    have hsum : c.toNat / 16 * 16 + c.toNat % 16 = c.toNat := by omega
    simp only [List.cons_append, List.nil_append, readChar, hhigh, hlow, hsum, Char.ofNat_toNat]
  case isFalse hquote hback _ _ _ _ _ _ =>
    simp only [List.cons_append, List.nil_append]
    unfold readChar
    split <;> simp_all

theorem escape_first (c : Char) : ∃ first rest, escape c = first :: rest ∧ first ≠ '"' := by
  unfold escape
  split
  case isTrue h => exact ⟨_, _, rfl, by decide⟩
  case isFalse hquote =>
    repeat' split
    all_goals first
      | exact ⟨_, _, rfl, by decide⟩
      | exact ⟨_, _, rfl, hquote⟩

theorem stringText_unambiguous : Unambiguous anything stringText := by
  have hescape := unambiguous_of_read readChar readChar_escape
  have hbody : Unambiguous anything stringBody := unambiguous_flatMap '"' hescape escape_first
  intro s t x y _ _ heq
  obtain ⟨hst, hxy⟩ := hbody trivial trivial (List.cons.inj heq).2
  exact ⟨String.toList_injective hst, hxy⟩

def numberChar (c : Char) : Bool := c.isDigit || c == '-' || c == '+' || c == '.' || c == 'e'

theorem digit_of_toDigits {n : Nat} {c : Char} (h : c ∈ Nat.toDigits 10 n) : c.isDigit = true :=
  Nat.isDigit_of_mem_toDigits (by omega) (by omega) h

theorem toDigits_injective : Function.Injective (Nat.toDigits 10) := by
  intro m n h
  rw [← Nat.ofDigitChars_ten_toDigits (n := m), h, Nat.ofDigitChars_ten_toDigits]

/-- No integer has a fraction or an exponent. -/
theorem integer_chars {n : Nat} {c : Char} (h : c ∈ '-' :: Nat.toDigits 10 n) : c ≠ '.' ∧ c ≠ 'e' := by
  rcases List.mem_cons.mp h with rfl | hdigit
  · decide
  · have hc := digit_of_toDigits hdigit
    constructor
    · rintro rfl; cases hc
    · rintro rfl; cases hc

theorem toDigits_ne_minus (m n : Nat) : Nat.toDigits 10 m ≠ '-' :: Nat.toDigits 10 n := by
  intro h
  have hdigit : '-' ∈ Nat.toDigits 10 m := h ▸ List.mem_cons_self
  exact absurd (digit_of_toDigits hdigit) (by decide)

def charKind (c : Char) : Nat :=
  if c = 'n' then 0 else if c = 't' then 1 else if c = 'f' then 2 else if c = '"' then 3
  else if c = '[' then 4 else if c = '\x7b' then 5 else 6

theorem charKind_number {c : Char} (h : numberChar c = true) : charKind c = 6 := by
  unfold charKind
  repeat' split
  all_goals first
    | rfl
    | subst c; cases h

/-- The finite floating point numbers, and the shortest text that reads back as the number. -/
class Floats where
  Float : Type
  text : Float → List Char
  text_injective : Function.Injective text
  text_chars : ∀ x, ∀ c ∈ text x, numberChar c = true
  text_fraction : ∀ x, ∃ c ∈ text x, c = '.' ∨ c = 'e'

variable [Floats]

/-- A negative integer `-(n + 1)` is given by `n`. -/
inductive Number where
  | posInt (n : Nat)
  | negInt (n : Nat)
  | float (x : Floats.Float)

def Number.text : Number → List Char
  | .posInt n => Nat.toDigits 10 n
  | .negInt n => '-' :: Nat.toDigits 10 (n + 1)
  | .float x => Floats.text x

inductive Value where
  | null
  | bool (b : Bool)
  | number (n : Number)
  | string (s : String)
  | array (items : List Value)
  | object (fields : List (String × Value))

mutual

def Value.text : Value → List Char
  | .null => ['n', 'u', 'l', 'l']
  | .bool true => ['t', 'r', 'u', 'e']
  | .bool false => ['f', 'a', 'l', 's', 'e']
  | .number n => n.text
  | .string s => stringText s
  | .array [] => ['[', ']']
  | .array (item :: items) => '[' :: (item.text ++ itemsText items)
  | .object [] => ['\x7b', '\x7d']
  | .object ((key, value) :: fields) =>
    '\x7b' :: (stringText key ++ ':' :: (value.text ++ fieldsText fields))

def itemsText : List Value → List Char
  | [] => [']']
  | item :: items => ',' :: (item.text ++ itemsText items)

def fieldsText : List (String × Value) → List Char
  | [] => ['\x7d']
  | (key, value) :: fields =>
    ',' :: (stringText key ++ ':' :: (value.text ++ fieldsText fields))

end

theorem number_chars (n : Number) : ∀ c ∈ n.text, numberChar c = true := by
  intro c hc
  cases n with
  | posInt n => simp [numberChar, digit_of_toDigits hc]
  | negInt n =>
    rcases List.mem_cons.mp hc with rfl | hdigit
    · decide
    · simp [numberChar, digit_of_toDigits hdigit]
  | float x => exact Floats.text_chars x c hc

theorem float_ne_integer (x : Floats.Float) (n : Nat) :
    Floats.text x ≠ Nat.toDigits 10 n ∧ Floats.text x ≠ '-' :: Nat.toDigits 10 n := by
  obtain ⟨c, hc, hfraction⟩ := Floats.text_fraction x
  constructor
  · intro h
    have hinteger := integer_chars (List.mem_cons_of_mem '-' (h ▸ hc))
    exact hfraction.elim hinteger.1 hinteger.2
  · intro h
    have hinteger := integer_chars (h ▸ hc)
    exact hfraction.elim hinteger.1 hinteger.2

theorem number_text_injective : Function.Injective Number.text := by
  intro m n h
  cases m with
  | posInt m =>
    cases n with
    | posInt n => exact congrArg Number.posInt (toDigits_injective h)
    | negInt n => exact absurd h (toDigits_ne_minus m (n + 1))
    | float x => exact absurd h.symm (float_ne_integer x m).1
  | negInt m =>
    cases n with
    | posInt n => exact absurd h.symm (toDigits_ne_minus n (m + 1))
    | negInt n =>
      have hdigits := toDigits_injective (List.cons.inj h).2
      exact congrArg Number.negInt (by omega)
    | float x => exact absurd h.symm (float_ne_integer x (m + 1)).2
  | float x =>
    cases n with
    | posInt n => exact absurd h (float_ne_integer x n).1
    | negInt n => exact absurd h (float_ne_integer x (n + 1)).2
    | float y => exact congrArg Number.float (Floats.text_injective h)

theorem number_unambiguous : Unambiguous (outside numberChar) Number.text :=
  unambiguous_of_class numberChar number_text_injective number_chars

theorem number_first (n : Number) : ∃ c rest, n.text = c :: rest ∧ numberChar c = true := by
  rcases htext : n.text with _ | ⟨c, rest⟩
  · exfalso
    cases n with
    | posInt n => exact Nat.toDigits_ne_nil htext
    | negInt n => cases htext
    | float x =>
      obtain ⟨c, hc, _⟩ := Floats.text_fraction x
      rw [show Floats.text x = [] from htext] at hc
      cases hc
  · exact ⟨c, rest, rfl, number_chars n c (htext ▸ List.mem_cons_self)⟩

/-- What a text begins with shows the kind of its value. -/
def Value.kind : Value → Nat
  | .null => 0
  | .bool true => 1
  | .bool false => 2
  | .string _ => 3
  | .array _ => 4
  | .object _ => 5
  | .number _ => 6

theorem text_first (v : Value) : ∃ c rest, v.text = c :: rest ∧ charKind c = v.kind := by
  cases v with
  | null => exact ⟨_, _, rfl, rfl⟩
  | bool b => cases b <;> exact ⟨_, _, rfl, rfl⟩
  | number n =>
    obtain ⟨c, rest, htext, hc⟩ := number_first n
    exact ⟨c, rest, htext, charKind_number hc⟩
  | string s => exact ⟨_, _, rfl, rfl⟩
  | array items => cases items <;> exact ⟨_, _, rfl, rfl⟩
  | object fields =>
    cases fields with
    | nil => exact ⟨_, _, rfl, rfl⟩
    | cons field fields => exact ⟨_, _, rfl, rfl⟩

theorem kind_eq {v w : Value} {x y : List Char} (h : v.text ++ x = w.text ++ y) : v.kind = w.kind := by
  obtain ⟨c, rest, hv, hc⟩ := text_first v
  obtain ⟨d, rest', hw, hd⟩ := text_first w
  rw [hv, hw] at h
  have hcd : c = d := (List.cons.inj h).1
  rw [← hc, ← hd, hcd]

theorem outside_itemsText (items : List Value) (x : List Char) :
    outside numberChar (itemsText items ++ x) := by
  cases items <;> (intro c hc; obtain rfl := Option.some.inj hc; decide)

theorem outside_fieldsText (fields : List (String × Value)) (x : List Char) :
    outside numberChar (fieldsText fields ++ x) := by
  cases fields <;> (intro c hc; obtain rfl := Option.some.inj hc; decide)

section Kinds

variable {v : Value}

theorem null_of_kind (h : v.kind = 0) : v = .null := by
  cases v with
  | null => rfl
  | bool b => cases b <;> cases h
  | _ => cases h

theorem bool_of_kind {b : Bool} (h : v.kind = (Value.bool b).kind) : v = .bool b := by
  cases v with
  | bool c => cases b <;> cases c <;> first | rfl | cases h
  | _ => cases b <;> cases h

theorem string_of_kind (h : v.kind = 3) : ∃ s, v = .string s := by
  cases v with
  | bool b => cases b <;> cases h
  | string s => exact ⟨s, rfl⟩
  | _ => cases h

theorem array_of_kind (h : v.kind = 4) : ∃ items, v = .array items := by
  cases v with
  | bool b => cases b <;> cases h
  | array items => exact ⟨items, rfl⟩
  | _ => cases h

theorem object_of_kind (h : v.kind = 5) : ∃ fields, v = .object fields := by
  cases v with
  | bool b => cases b <;> cases h
  | object fields => exact ⟨fields, rfl⟩
  | _ => cases h

theorem number_of_kind (h : v.kind = 6) : ∃ n, v = .number n := by
  cases v with
  | bool b => cases b <;> cases h
  | number n => exact ⟨n, rfl⟩
  | _ => cases h

/-- The text of a value never begins like the end of an array. -/
theorem text_ne_close {rest x : List Char} : v.text ++ rest ≠ ']' :: x := by
  intro h
  obtain ⟨first, after, htext, hkind⟩ := text_first v
  rw [htext] at h
  obtain rfl := (List.cons.inj h).1
  obtain ⟨n, rfl⟩ := number_of_kind hkind.symm
  obtain ⟨digit, digits, hdigits, hdigit⟩ := number_first n
  rw [Value.text, hdigits] at htext
  obtain rfl := (List.cons.inj htext).1
  cases hdigit

end Kinds

mutual

theorem text_cancel : ∀ (v w : Value) {x y : List Char}, outside numberChar x → outside numberChar y →
    v.text ++ x = w.text ++ y → v = w ∧ x = y
  | .null, w, x, y, hx, hy, h => by
    obtain rfl := null_of_kind (kind_eq h).symm
    exact ⟨rfl, List.append_cancel_left h⟩
  | .bool b, w, x, y, hx, hy, h => by
    obtain rfl := bool_of_kind (kind_eq h).symm
    exact ⟨rfl, List.append_cancel_left h⟩
  | .number m, w, x, y, hx, hy, h => by
    obtain ⟨n, rfl⟩ := number_of_kind (kind_eq h).symm
    obtain ⟨rfl, hxy⟩ := number_unambiguous hx hy h
    exact ⟨rfl, hxy⟩
  | .string s, w, x, y, hx, hy, h => by
    obtain ⟨t, rfl⟩ := string_of_kind (kind_eq h).symm
    obtain ⟨rfl, hxy⟩ := stringText_unambiguous trivial trivial h
    exact ⟨rfl, hxy⟩
  | .array [], w, x, y, hx, hy, h => by
    obtain ⟨others, rfl⟩ := array_of_kind (kind_eq h).symm
    cases others with
    | nil => exact ⟨rfl, by simpa [Value.text] using h⟩
    | cons other others =>
      simp only [Value.text, List.cons_append, List.append_assoc, List.nil_append] at h
      exact absurd (List.cons.inj h).2.symm text_ne_close
  | .array (item :: items), w, x, y, hx, hy, h => by
    obtain ⟨others, rfl⟩ := array_of_kind (kind_eq h).symm
    cases others with
    | nil =>
      simp only [Value.text, List.cons_append, List.append_assoc, List.nil_append] at h
      exact absurd (List.cons.inj h).2 text_ne_close
    | cons other others =>
      simp only [Value.text, List.cons_append, List.append_assoc] at h
      obtain ⟨rfl, hitems⟩ := text_cancel item other (outside_itemsText _ _) (outside_itemsText _ _)
        (List.cons.inj h).2
      obtain ⟨rfl, hxy⟩ := itemsText_cancel items others hitems
      exact ⟨rfl, hxy⟩
  | .object [], w, x, y, hx, hy, h => by
    obtain ⟨others, rfl⟩ := object_of_kind (kind_eq h).symm
    cases others with
    | nil => exact ⟨rfl, by simpa [Value.text] using h⟩
    | cons other others => simp [Value.text, stringText] at h
  | .object ((key, value) :: fields), w, x, y, hx, hy, h => by
    obtain ⟨others, rfl⟩ := object_of_kind (kind_eq h).symm
    cases others with
    | nil => simp [Value.text, stringText] at h
    | cons other others =>
      simp only [Value.text, List.cons_append, List.append_assoc] at h
      obtain ⟨hkey, hvalue⟩ := stringText_unambiguous trivial trivial (List.cons.inj h).2
      obtain ⟨hv, hfields⟩ := text_cancel value other.2 (outside_fieldsText _ _)
        (outside_fieldsText _ _) (List.cons.inj hvalue).2
      obtain ⟨rfl, hxy⟩ := fieldsText_cancel fields others hfields
      exact ⟨by rw [hkey, hv], hxy⟩

theorem itemsText_cancel : ∀ (items others : List Value) {x y : List Char},
    itemsText items ++ x = itemsText others ++ y → items = others ∧ x = y
  | [], [], x, y, h => ⟨rfl, by simpa [itemsText] using h⟩
  | [], other :: others, x, y, h => by cases (List.cons.inj h).1
  | item :: items, [], x, y, h => by cases (List.cons.inj h).1
  | item :: items, other :: others, x, y, h => by
    simp only [itemsText, List.cons_append, List.append_assoc] at h
    obtain ⟨rfl, hitems⟩ := text_cancel item other (outside_itemsText _ _) (outside_itemsText _ _)
      (List.cons.inj h).2
    obtain ⟨rfl, hxy⟩ := itemsText_cancel items others hitems
    exact ⟨rfl, hxy⟩

theorem fieldsText_cancel : ∀ (fields others : List (String × Value)) {x y : List Char},
    fieldsText fields ++ x = fieldsText others ++ y → fields = others ∧ x = y
  | [], [], x, y, h => ⟨rfl, by simpa [fieldsText] using h⟩
  | [], other :: others, x, y, h => by cases (List.cons.inj h).1
  | field :: fields, [], x, y, h => by cases (List.cons.inj h).1
  | (key, value) :: fields, (key', value') :: others, x, y, h => by
    simp only [fieldsText, List.cons_append, List.append_assoc] at h
    obtain ⟨rfl, hvalue⟩ := stringText_unambiguous trivial trivial (List.cons.inj h).2
    obtain ⟨rfl, hfields⟩ := text_cancel value value' (outside_fieldsText _ _)
      (outside_fieldsText _ _) (List.cons.inj hvalue).2
    obtain ⟨rfl, hxy⟩ := fieldsText_cancel fields others hfields
    exact ⟨rfl, hxy⟩

end

theorem text_injective : Function.Injective Value.text := by
  intro v w h
  exact (text_cancel v w (x := []) (y := []) (by simp [outside]) (by simp [outside])
    (by simpa using h)).1

def Value.encoded (v : Value) : List UInt8 := (String.ofList v.text).toUTF8.data.toList

theorem encoded_injective : Function.Injective Value.encoded := by
  intro v w h
  have harray : (String.ofList v.text).toByteArray.data = (String.ofList w.text).toByteArray.data :=
    Array.toList_inj.mp h
  have hbytes := String.toByteArray_inj.mp (ByteArray.ext harray)
  exact text_injective (String.ofList_injective hbytes)

end Json
