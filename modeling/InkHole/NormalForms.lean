import Mathlib.Logic.Relation

/-! Values that are told apart by a normal form and by a coarser map that respects it. The key made by
the map after the normal form need not be a normal form itself. -/

namespace InkHole

universe u

variable {α : Type u} {norm lower : α → α} {a b : α}

/-- Two values with one normal form, or a value and its image. -/
inductive Respelled (norm lower : α → α) : α → α → Prop
  | normal {a b : α} (h : norm a = norm b) : Respelled norm lower a b
  | lowered (a : α) : Respelled norm lower a (lower a)

abbrev SameSpelling (norm lower : α → α) : α → α → Prop := Relation.EqvGen (Respelled norm lower)

/-- The map respects the normal form, and each of the two does nothing when it is applied again. -/
structure Respects (norm lower : α → α) : Prop where
  norm_norm : ∀ a, norm (norm a) = norm a
  lower_lower : ∀ a, lower (lower a) = lower a
  norm_lower_norm : ∀ a, norm (lower (norm a)) = norm (lower a)
  lower_norm_lower : ∀ a, lower (norm (lower a)) = norm (lower a)

/-- Mapping the normal form leaves a normal form. -/
def Settled (norm lower : α → α) (a : α) : Prop := norm (lower (norm a)) = lower (norm a)

namespace Respects

theorem norm_lower_of_norm (h : Respects norm lower) (hab : norm a = norm b) : norm (lower a) = norm (lower b) := by
  rw [← h.norm_lower_norm a, hab, h.norm_lower_norm b]

/-- The normal form of the image tells the classes apart. -/
theorem sameSpelling_iff (h : Respects norm lower) :
    SameSpelling norm lower a b ↔ norm (lower a) = norm (lower b) := by
  constructor
  · intro hab
    induction hab with
    | rel a b hab =>
      cases hab with
      | normal hab => exact h.norm_lower_of_norm hab
      | lowered => rw [h.lower_lower]
    | refl a => rfl
    | symm a b _ ih => exact ih.symm
    | trans a b c _ _ ih₁ ih₂ => exact ih₁.trans ih₂
  · intro hab
    have ha : SameSpelling norm lower a (lower a) := .rel _ _ (.lowered a)
    have hb : SameSpelling norm lower b (lower b) := .rel _ _ (.lowered b)
    have hmiddle : SameSpelling norm lower (lower a) (lower b) := .rel _ _ (.normal hab)
    exact (ha.trans _ _ _ hmiddle).trans _ _ _ (hb.symm _ _)

theorem sameSpelling_key (h : Respects norm lower) (a : α) : SameSpelling norm lower a (lower (norm a)) := by
  rw [h.sameSpelling_iff, h.lower_lower, h.norm_lower_norm]

/-- Of a settled value the key is the normal form that tells the classes apart. -/
theorem key_of_settled (h : Respects norm lower) (ha : Settled norm lower a) : lower (norm a) = norm (lower a) := by
  rw [← h.norm_lower_norm a, ha]

/-- The key is its own key exactly where it is a normal form. -/
theorem key_idempotent_iff (h : Respects norm lower) :
    lower (norm (lower (norm a))) = lower (norm a) ↔ Settled norm lower a := by
  rw [h.lower_norm_lower, Settled]

/-- The key is one on a class exactly where every member of the class is settled. -/
theorem key_constant_iff (h : Respects norm lower) :
    (∀ b, SameSpelling norm lower a b → lower (norm b) = lower (norm a)) ↔
      ∀ b, SameSpelling norm lower a b → Settled norm lower b := by
  constructor
  · intro hconst b hab
    have hkey := hconst _ (hab.trans _ _ _ (h.sameSpelling_key b))
    exact h.key_idempotent_iff.mp (hkey.trans (hconst b hab).symm)
  · intro hsettled b hab
    have ha := hsettled a (.refl a)
    rw [h.key_of_settled (hsettled b hab), h.key_of_settled ha]
    exact (h.sameSpelling_iff.mp hab).symm

end Respects

end InkHole
