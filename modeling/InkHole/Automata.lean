import Mathlib.Data.List.Basic

/-! Automata that are driven by events, each of which a state may refuse, and their runs. -/

namespace InkHole

structure Automaton (σ ε : Type*) where
  start : σ
  step : σ → ε → Option σ

namespace Automaton

variable {σ ε : Type*}

/-- A run that stops at the first event that is refused, or that fails a test. -/
def runFrom (A : Automaton σ ε) (test : σ → ε → Bool) (s : σ) : List ε → Option σ
  | [] => some s
  | e :: es => if test s e then (A.step s e).bind fun s' => A.runFrom test s' es else none

/-- The test that every event passes. -/
def free (_ : σ) (_ : ε) : Bool := true

/-- The states that a run reaches all of whose events pass the test where they happen. -/
def Reaches (A : Automaton σ ε) (test : σ → ε → Bool) (s : σ) : Prop :=
  ∃ es, A.runFrom test A.start es = some s

variable {A : Automaton σ ε} {test : σ → ε → Bool} {P : σ → Prop}

theorem runFrom_cons {s s₁ : σ} {e : ε} {es : List ε} (ht : test s e = true) (hs : A.step s e = some s₁) :
    A.runFrom test s (e :: es) = A.runFrom test s₁ es := by
  rw [runFrom, if_pos ht, hs, Option.bind_some]

theorem runFrom_invariant (hs : ∀ s e s', P s → test s e = true → A.step s e = some s' → P s')
    {s s' : σ} {es : List ε} (h : P s) (hr : A.runFrom test s es = some s') : P s' := by
  induction es generalizing s with
  | nil =>
    obtain rfl := Option.some.inj hr
    exact h
  | cons e es ih =>
    rw [runFrom] at hr
    split at hr
    · next ht =>
      obtain ⟨s₁, he, hr⟩ := Option.bind_eq_some_iff.mp hr
      exact ih (hs s e s₁ h ht he) hr
    · cases hr

/-- What holds at the start and is kept by every event that passes the test holds of every state
that is reached. -/
theorem Reaches.invariant (h0 : P A.start)
    (hs : ∀ s e s', P s → test s e = true → A.step s e = some s' → P s') {s : σ}
    (h : A.Reaches test s) : P s := by
  obtain ⟨es, hr⟩ := h
  exact runFrom_invariant hs h0 hr

end Automaton

end InkHole
