import InkHole.Fallible

/-! What every call of a run is like in the world in which it is made. -/

namespace InkHole

universe u

variable {Call : Type → Type u} {ε α β σ : Type} [Executes Call σ]

namespace Program

variable {N N' : ∀ {δ : Type}, Call δ → σ → Prop} {Q Q' : α → σ → Prop} {R : β → σ → Prop} {w : σ}

/-- Every call satisfies `N` in the world before it, and the end of the run `Q`. -/
def Guarded (N : ∀ {δ : Type}, Call δ → σ → Prop) (Q : α → σ → Prop) : Program Call α → σ → Prop
  | .ret a, w => Q a w
  | .call c k, w => N c w ∧ Guarded N Q (k (exec c w).1) (exec c w).2

theorem guarded_bind {p : Program Call α} {f : α → Program Call β} :
    Guarded N R (p >>= f) w ↔ Guarded N (fun a w' => Guarded N R (f a) w') p w := by
  induction p generalizing w with
  | ret a => rfl
  | call c k ih => simp only [call_bind, Guarded, ih]

theorem Guarded.mono {p : Program Call α} (h : Guarded N Q p w)
    (hn : ∀ {δ : Type} (c : Call δ) (w : σ), N c w → N' c w) (hq : ∀ a w, Q a w → Q' a w) :
    Guarded N' Q' p w := by
  induction p generalizing w with
  | ret a => exact hq a w h
  | call c k ih => exact ⟨hn c w h.1, ih _ h.2⟩

theorem Uses.guarded {M : ∀ {δ : Type}, Call δ → Prop} {V : α → Prop} {p : Program Call α}
    (h : p.Uses M V) (hn : ∀ {δ : Type} (c : Call δ) (w : σ), M c → N c w) (w : σ) :
    Guarded N (fun a _ => V a) p w := by
  induction p generalizing w with
  | ret a => exact h
  | call c k ih => exact ⟨hn c w h.1, ih _ (h.2 _) _⟩

end Program

namespace Fallible

variable {N N' : ∀ {δ : Type}, Call δ → σ → Prop} {Q Q' : α → σ → Prop} {R : β → σ → Prop} {w : σ}

/-- Every call satisfies `N` in the world before it, and a value that is returned `Q`. -/
def Guarded (N : ∀ {δ : Type}, Call δ → σ → Prop) (Q : α → σ → Prop) (x : Fallible Call ε α) (w : σ) : Prop :=
  x.run.Guarded N (fun r w' => ∀ a, r = .ok a → Q a w') w

theorem guarded_run {x : Fallible Call ε α} :
    Guarded N Q x w ↔ x.run.Guarded N (fun r w' => ∀ a, r = .ok a → Q a w') w := Iff.rfl

theorem guarded_pure {a : α} (h : Q a w) : Guarded N Q (pure a : Fallible Call ε α) w := by
  intro b hb
  rwa [← Except.ok.inj hb]

theorem guarded_throw (e : ε) : Guarded N Q (throw e : Fallible Call ε α) w := by
  intro a ha
  cases ha

theorem guarded_lift {x : Except ε α} (h : ∀ a, x = .ok a → Q a w) :
    Guarded N Q (liftM x : Fallible Call ε α) w := h

theorem guarded_bind {x : Fallible Call ε α} {f : α → Fallible Call ε β} (hx : Guarded N Q x w)
    (hf : ∀ a w, Q a w → Guarded N R (f a) w) : Guarded N R (x >>= f) w := by
  rw [Guarded, run_bind, Program.guarded_bind]
  refine Program.Guarded.mono hx (fun _ _ h => h) fun r w' hr => ?_
  cases r with
  | ok a => exact hf a w' (hr a rfl)
  | error e =>
    intro b hb
    cases hb

theorem Guarded.mono {x : Fallible Call ε α} (h : Guarded N Q x w)
    (hn : ∀ {δ : Type} (c : Call δ) (w : σ), N c w → N' c w) (hq : ∀ a w, Q a w → Q' a w) :
    Guarded N' Q' x w :=
  Program.Guarded.mono h hn fun _ w' hr a ha => hq a w' (hr a ha)

theorem Guarded.any {x : Fallible Call ε α} (h : Guarded N Q x w) : Guarded N (fun _ _ => True) x w :=
  h.mono (fun _ _ hn => hn) fun _ _ _ => trivial

theorem Uses.guarded {M : ∀ {δ : Type}, Call δ → Prop} {V : α → Prop} {x : Fallible Call ε α}
    (h : Uses M V x) (hn : ∀ {δ : Type} (c : Call δ) (w : σ), M c → N c w) (w : σ) :
    Guarded N (fun a _ => V a) x w :=
  (Program.Uses.guarded (uses_run.mp h) hn w).mono (fun _ _ hc => hc) fun _ _ hr a ha => hr a ha

attribute [irreducible] Guarded

end Fallible

end InkHole
