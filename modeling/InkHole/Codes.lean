import Mathlib.Data.List.Induction
import Mathlib.Data.List.TakeWhile
import Mathlib.Logic.Function.Basic
import Mathlib.Algebra.Order.Ring.Nat

/-! Encodings that can be read back at the front of a list, whatever follows them. -/

namespace Codes

variable {α β γ : Type}

/-- Encodings of two values, with anything behind them that may follow, are equal only when the
values and what follows are. -/
def Unambiguous (follows : List γ → Prop) (enc : α → List γ) : Prop :=
  ∀ ⦃a b : α⦄ ⦃x y : List γ⦄, follows x → follows y → enc a ++ x = enc b ++ y → a = b ∧ x = y

def anything : List γ → Prop := fun _ => True

theorem Unambiguous.injective {follows : List γ → Prop} {enc : α → List γ}
    (h : Unambiguous follows enc) (hnil : follows []) : Function.Injective enc := by
  intro a b hab
  exact (h hnil hnil (congrArg (· ++ []) hab)).1

theorem Unambiguous.mono {follows fewer : List γ → Prop} {enc : α → List γ}
    (h : Unambiguous follows enc) (hsub : ∀ x, fewer x → follows x) : Unambiguous fewer enc :=
  fun _ _ _ _ hx hy => h (hsub _ hx) (hsub _ hy)

/-- A value that can be read from the front is encoded without ambiguity. -/
theorem unambiguous_of_read {enc : α → List γ} (read : List γ → Option (α × List γ))
    (h : ∀ a x, read (enc a ++ x) = some (a, x)) : Unambiguous anything enc := by
  intro a b x y _ _ heq
  have hread : some (a, x) = some (b, y) := by rw [← h a x, ← h b y, heq]
  simpa using hread

theorem unambiguous_of_length {enc : α → List γ} (hinj : Function.Injective enc)
    (hlength : ∀ a b, (enc a).length = (enc b).length) : Unambiguous anything enc := by
  intro a b x y _ _ heq
  obtain ⟨henc, hrest⟩ := List.append_inj heq (hlength a b)
  exact ⟨hinj henc, hrest⟩

/-- What may follow an encoding that is made of the elements of a class. -/
def outside (p : γ → Bool) (x : List γ) : Prop := ∀ c ∈ x.head?, p c = false

theorem takeWhile_of_outside {p : γ → Bool} {x : List γ} (h : outside p x) : x.takeWhile p = [] := by
  cases x with
  | nil => rfl
  | cons c x => simp [h c rfl]

theorem unambiguous_of_class {enc : α → List γ} (p : γ → Bool) (hinj : Function.Injective enc)
    (hclass : ∀ a, ∀ c ∈ enc a, p c = true) : Unambiguous (outside p) enc := by
  intro a b x y hx hy heq
  have hfront {c : α} {z : List γ} (hz : outside p z) : (enc c ++ z).takeWhile p = enc c := by
    rw [List.takeWhile_append_of_pos (hclass c), takeWhile_of_outside hz, List.append_nil]
  have henc : enc a = enc b :=
    calc enc a = (enc a ++ x).takeWhile p := (hfront hx).symm
      _ = (enc b ++ y).takeWhile p := by rw [heq]
      _ = enc b := hfront hy
  rw [henc] at heq
  exact ⟨hinj henc, List.append_cancel_left heq⟩

/-- Encodings one after the other, up to an element that none of them begins with. -/
theorem unambiguous_flatMap {enc : α → List γ} (stop : γ) (h : Unambiguous anything enc)
    (hstop : ∀ a, ∃ c rest, enc a = c :: rest ∧ c ≠ stop) :
    Unambiguous anything (fun l : List α => l.flatMap enc ++ [stop]) := by
  intro l m x y _ _ heq
  induction l generalizing m with
  | nil =>
    cases m with
    | nil => simpa using heq
    | cons b m =>
      obtain ⟨c, rest, hb, hc⟩ := hstop b
      simp [hb] at heq
      exact absurd heq.1.symm hc
  | cons a l ih =>
    cases m with
    | nil =>
      obtain ⟨c, rest, ha, hc⟩ := hstop a
      simp [ha] at heq
      exact absurd heq.1 hc
    | cons b m =>
      simp only [List.flatMap_cons, List.append_assoc] at heq
      obtain ⟨rfl, hrest⟩ := h trivial trivial heq
      obtain ⟨rfl, hxy⟩ := ih (m := m) (by simpa using hrest)
      exact ⟨rfl, hxy⟩

/-! Numbers in a fixed number of bytes, and fields behind their lengths. -/

/-- The highest byte comes first, and what does not fit is cut off. -/
def bigEndian : Nat → Nat → List UInt8
  | 0, _ => []
  | width + 1, n => bigEndian width (n / 256) ++ [UInt8.ofNat (n % 256)]

def ofBigEndian (bytes : List UInt8) : Nat := bytes.foldl (fun n b => n * 256 + b.toNat) 0

@[simp] theorem length_bigEndian (width n : Nat) : (bigEndian width n).length = width := by
  induction width generalizing n with
  | zero => rfl
  | succ width ih => simp [bigEndian, ih]

theorem ofBigEndian_concat (bytes : List UInt8) (b : UInt8) :
    ofBigEndian (bytes ++ [b]) = ofBigEndian bytes * 256 + b.toNat := by
  simp [ofBigEndian]

theorem ofBigEndian_bigEndian (width n : Nat) : ofBigEndian (bigEndian width n) = n % 256 ^ width := by
  induction width generalizing n with
  | zero => simp [bigEndian, ofBigEndian, Nat.mod_one]
  | succ width ih =>
    have hbyte : (UInt8.ofNat (n % 256)).toNat = n % 256 := by simp
    have hsplit : n % 256 ^ (width + 1) = n % 256 + 256 * (n / 256 % 256 ^ width) := by
      rw [Nat.pow_succ', Nat.mod_mul]
    rw [bigEndian, ofBigEndian_concat, ih, hbyte, hsplit]
    omega

theorem bigEndian_injective {width n m : Nat} (hn : n < 256 ^ width) (hm : m < 256 ^ width)
    (h : bigEndian width n = bigEndian width m) : n = m := by
  have hread := congrArg ofBigEndian h
  rwa [ofBigEndian_bigEndian, ofBigEndian_bigEndian, Nat.mod_eq_of_lt hn, Nat.mod_eq_of_lt hm] at hread

theorem bigEndian_ofBigEndian (bytes : List UInt8) : bigEndian bytes.length (ofBigEndian bytes) = bytes := by
  induction bytes using List.reverseRecOn with
  | nil => rfl
  | append_singleton bytes b ih =>
    have hb := b.toNat_lt
    have hhigh : (ofBigEndian bytes * 256 + b.toNat) / 256 = ofBigEndian bytes := by omega
    have hlow : (ofBigEndian bytes * 256 + b.toNat) % 256 = b.toNat := by omega
    rw [List.length_append, List.length_singleton, bigEndian, ofBigEndian_concat, hhigh, hlow, ih,
      UInt8.ofNat_toNat]

/-- A field behind its length. -/
def framed (width : Nat) (field : List UInt8) : List UInt8 := bigEndian width field.length ++ field

theorem framed_inj {width : Nat} {a b x y : List UInt8} (ha : a.length < 256 ^ width)
    (hb : b.length < 256 ^ width) (h : framed width a ++ x = framed width b ++ y) : a = b ∧ x = y := by
  rw [framed, framed, List.append_assoc, List.append_assoc] at h
  obtain ⟨hlength, hrest⟩ := List.append_inj h (by simp)
  exact List.append_inj hrest (bigEndian_injective ha hb hlength)

/-- Fields one after the other, where there are as many of them on both sides. -/
theorem flatMap_framed_inj {width : Nat} {l m : List (List UInt8)} {x y : List UInt8}
    (hl : ∀ field ∈ l, field.length < 256 ^ width) (hm : ∀ field ∈ m, field.length < 256 ^ width)
    (hlength : l.length = m.length) (h : l.flatMap (framed width) ++ x = m.flatMap (framed width) ++ y) :
    l = m ∧ x = y := by
  induction l generalizing m with
  | nil =>
    obtain rfl := List.length_eq_zero_iff.mp hlength.symm
    exact ⟨rfl, h⟩
  | cons a l ih =>
    cases m with
    | nil => cases hlength
    | cons b m =>
      rw [List.forall_mem_cons] at hl hm
      rw [List.flatMap_cons, List.flatMap_cons, List.append_assoc, List.append_assoc] at h
      obtain ⟨rfl, hrest⟩ := framed_inj hl.1 hm.1 h
      obtain ⟨rfl, hxy⟩ := ih hl.2 hm.2 (Nat.succ.inj hlength) hrest
      exact ⟨rfl, hxy⟩

/-- Pieces with a mark between them are the first piece, and the mark in front of each further one. -/
theorem intercalate_cons (mark : γ) (first : List γ) (rest : List (List γ)) :
    [mark].intercalate (first :: rest) = first ++ rest.flatMap fun piece => mark :: piece := by
  induction rest generalizing first with
  | nil => simp
  | cons second rest ih =>
    rw [List.intercalate_cons_cons, ih, List.flatMap_cons, List.append_assoc]
    rfl

end Codes
