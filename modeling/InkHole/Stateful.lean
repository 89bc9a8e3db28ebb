import Mathlib.Logic.Basic

/-! Computations with a state that an error leaves as it is then, and what they keep of it. -/

abbrev Stateful (σ ε α : Type) := ExceptT ε (StateM σ) α

namespace Stateful

variable {σ ε α β : Type} {I : σ → Prop} {Q Q' : α → Prop} {R : β → Prop}

/-- What comes of a computation, and the state after it. -/
def from_ (x : Stateful σ ε α) (s : σ) : Except ε α × σ := x.run.run s

/-- `I` holds after the computation if it did before it, whatever comes of it, and `Q` of a value
that it returns. -/
def Keeps (I : σ → Prop) (Q : α → Prop) (x : Stateful σ ε α) : Prop :=
  ∀ s, I s → I (x.from_ s).2 ∧ ∀ a, (x.from_ s).1 = .ok a → Q a

theorem keeps_pure {a : α} (h : Q a) : Keeps I Q (pure a : Stateful σ ε α) := by
  intro s hs
  refine ⟨hs, fun b hb => ?_⟩
  rwa [← Except.ok.inj hb]

theorem keeps_throw (e : ε) : Keeps I Q (throw e : Stateful σ ε α) := by
  intro s hs
  refine ⟨hs, fun b hb => ?_⟩
  cases hb

theorem keeps_lift {x : Except ε α} (h : ∀ a, x = .ok a → Q a) : Keeps I Q (liftM x : Stateful σ ε α) :=
  fun _ hs => ⟨hs, h⟩

theorem keeps_get : Keeps I I (get : Stateful σ ε σ) := by
  intro s hs
  refine ⟨hs, fun a ha => ?_⟩
  rwa [← Except.ok.inj ha]

theorem keeps_set {s : σ} (h : I s) : Keeps I (fun _ => True) (set s : Stateful σ ε PUnit) :=
  fun _ _ => ⟨h, fun _ _ => trivial⟩

theorem keeps_modify {f : σ → σ} (h : ∀ s, I s → I (f s)) :
    Keeps I (fun _ => True) (modify f : Stateful σ ε PUnit) :=
  fun s hs => ⟨h s hs, fun _ _ => trivial⟩

theorem from_bind (x : Stateful σ ε α) (f : α → Stateful σ ε β) (s : σ) :
    (x >>= f).from_ s = match x.from_ s with
      | (.ok a, s') => (f a).from_ s'
      | (.error e, s') => (.error e, s') := by
  change (ExceptT.bindCont f (x.from_ s).1).run (x.from_ s).2 = _
  cases hx : x.from_ s with
  | mk r s' => cases r <;> rfl

theorem from_get_bind (f : σ → Stateful σ ε α) (s : σ) : (get >>= f).from_ s = (f s).from_ s := rfl

theorem keeps_bind {x : Stateful σ ε α} {f : α → Stateful σ ε β} (hx : Keeps I Q x)
    (hf : ∀ a, Q a → Keeps I R (f a)) : Keeps I R (x >>= f) := by
  intro s hs
  rw [from_bind]
  have h := hx s hs
  cases hr : x.from_ s with
  | mk r s' =>
    rw [hr] at h
    cases r with
    | ok a => exact hf a (h.2 a rfl) s' h.1
    | error e =>
      refine ⟨h.1, fun b hb => ?_⟩
      cases hb

theorem Keeps.weaken {x : Stateful σ ε α} (h : Keeps I Q x) (hq : ∀ a, Q a → Q' a) : Keeps I Q' x :=
  fun s hs => ⟨(h s hs).1, fun a ha => hq a ((h s hs).2 a ha)⟩

/-- From a state that satisfies `P`, what the computation returns and the state after it satisfy `Q`,
unless it ends in an error. -/
def Yields (P : σ → Prop) (x : Stateful σ ε α) (Q : α → σ → Prop) : Prop :=
  ∀ s a s', P s → x.from_ s = (.ok a, s') → Q a s'

section Yields

variable {P P' : σ → Prop} {S S' : α → σ → Prop} {T : β → σ → Prop}

theorem yields_pure {a : α} (h : ∀ s, P s → S a s) : Yields P (pure a : Stateful σ ε α) S := by
  intro s b s' hs he
  obtain ⟨hb, rfl⟩ := Prod.mk.inj he
  obtain rfl := Except.ok.inj hb
  exact h s hs

theorem yields_throw (e : ε) : Yields P (throw e : Stateful σ ε α) S := by
  intro s a s' _ he
  cases (Prod.mk.inj he).1

theorem yields_lift {x : Except ε α} (h : ∀ a, x = .ok a → ∀ s, P s → S a s) :
    Yields P (liftM x : Stateful σ ε α) S := by
  intro s a s' hs he
  obtain ⟨hx, rfl⟩ := Prod.mk.inj he
  exact h a hx s hs

theorem yields_get : Yields P (get : Stateful σ ε σ) fun a s => a = s ∧ P s := by
  intro s a s' hs he
  obtain ⟨ha, rfl⟩ := Prod.mk.inj he
  obtain rfl := Except.ok.inj ha
  exact ⟨rfl, hs⟩

theorem yields_set {t : σ} {R : σ → Prop} (h : ∀ s, P s → R t) :
    Yields P (set t : Stateful σ ε PUnit) fun _ => R := by
  intro s _ s' hs he
  obtain ⟨_, rfl⟩ := Prod.mk.inj he
  exact h s hs

theorem yields_bind {x : Stateful σ ε α} {f : α → Stateful σ ε β} (hx : Yields P x S)
    (hf : ∀ a, Yields (S a) (f a) T) : Yields P (x >>= f) T := by
  intro s b s' hs he
  rw [from_bind] at he
  cases hr : x.from_ s with
  | mk r s₁ =>
    rw [hr] at he
    cases r with
    | ok a => exact hf a s₁ b s' (hx s a s₁ hs hr) he
    | error e => cases (Prod.mk.inj he).1

theorem Yields.mono {x : Stateful σ ε α} (h : Yields P' x S) (hp : ∀ s, P s → P' s)
    (hq : ∀ a s, S a s → S' a s) : Yields P x S' :=
  fun s a s' hs he => hq a s' (h s a s' (hp s hs) he)

end Yields

/-- From a state that satisfies `P`, the computation ends with a result and a state that satisfy `R`,
also where it fails. -/
def Ends (P : σ → Prop) (x : Stateful σ ε α) (R : Except ε α → σ → Prop) : Prop :=
  ∀ s, P s → R (x.from_ s).1 (x.from_ s).2

section Ends

variable {P P' : σ → Prop} {S S' : Except ε α → σ → Prop} {T : Except ε β → σ → Prop}

theorem ends_pure {a : α} (h : ∀ s, P s → S (.ok a) s) : Ends P (pure a : Stateful σ ε α) S := h

theorem ends_throw {e : ε} (h : ∀ s, P s → S (.error e) s) : Ends P (throw e : Stateful σ ε α) S := h

theorem ends_lift {x : Except ε α} (h : ∀ s, P s → S x s) : Ends P (liftM x : Stateful σ ε α) S := h

theorem ends_get : Ends P (get : Stateful σ ε σ) fun r s => r = .ok s ∧ P s := fun _ h => ⟨rfl, h⟩

theorem ends_lifted (x : Except ε α) : Ends P (liftM x : Stateful σ ε α) fun r s => r = x ∧ P s :=
  fun _ h => ⟨rfl, h⟩

theorem ends_modify {f : σ → σ} {S : Except ε PUnit → σ → Prop} (h : ∀ s, P s → S (.ok ⟨⟩) (f s)) :
    Ends P (modify f : Stateful σ ε PUnit) S := h

theorem ends_bind {x : Stateful σ ε α} {f : α → Stateful σ ε β} (hx : Ends P x S)
    (hf : ∀ a, Ends (S (.ok a)) (f a) T) (he : ∀ e s, S (.error e) s → T (.error e) s) : Ends P (x >>= f) T := by
  intro s hs
  have h := hx s hs
  rw [from_bind]
  cases hr : x.from_ s with
  | mk r s' =>
    rw [hr] at h
    cases r with
    | ok a => exact hf a s' h
    | error e => exact he e s' h

theorem ends_exists {ι : Type} {P : ι → σ → Prop} {x : Stateful σ ε α} (h : ∀ i, Ends (P i) x S) :
    Ends (fun s => ∃ i, P i s) x S :=
  fun s ⟨i, hs⟩ => h i s hs

theorem ends_of {p : Prop} {x : Stateful σ ε α} (h : p → Ends P x S) : Ends (fun s => p ∧ P s) x S :=
  fun s hs => h hs.1 s hs.2

theorem ends_from {x : Stateful σ ε α} (hp : ∀ s, P s → P' s) (h : Ends P' x S) : Ends P x S :=
  fun s hs => h s (hp s hs)

theorem Ends.mono {x : Stateful σ ε α} (h : Ends P' x S) (hp : ∀ s, P s → P' s)
    (hq : ∀ r s, S r s → S' r s) : Ends P x S' :=
  fun s hs => hq _ _ (h s (hp s hs))

end Ends

end Stateful
