import Mathlib.Logic.Relation

/-! Programs that reach their world one atomic call at a time. A call is a typed
request, and a program is a tree of requests with a continuation for every reply,
so that an execution can be stopped between any two of them. -/

namespace InkHole

universe u

inductive Program (Call : Type → Type u) (α : Type) : Type (max 1 u) where
  | ret (a : α)
  | call {β : Type} (c : Call β) (k : β → Program Call α)

namespace Program

variable {Call : Type → Type u} {α β γ : Type}

def bind (p : Program Call α) (f : α → Program Call β) : Program Call β :=
  match p with
  | .ret a => f a
  | .call c k => .call c (fun r => (k r).bind f)

instance : Monad (Program Call) where
  pure := .ret
  bind := .bind

def request (c : Call β) : Program Call β := .call c .ret

/-- Whatever the replies are, every call satisfies `N` and the value returned `Q`. -/
def Uses (N : ∀ {δ : Type}, Call δ → Prop) (Q : α → Prop) : Program Call α → Prop
  | .ret a => Q a
  | .call c k => N c ∧ ∀ r, Uses N Q (k r)

@[simp] theorem pure_eq (a : α) : (pure a : Program Call α) = .ret a := rfl

@[simp] theorem ret_bind (a : α) (f : α → Program Call β) : (.ret a : Program Call α) >>= f = f a :=
  rfl

@[simp] theorem call_bind {δ : Type} (c : Call δ) (k : δ → Program Call α)
    (f : α → Program Call β) : (.call c k) >>= f = .call c (fun r => k r >>= f) := rfl

theorem bind_ret (p : Program Call α) : p >>= .ret = p := by
  induction p with
  | ret a => rfl
  | call c k ih => exact congrArg (Program.call c) (funext ih)

theorem bind_assoc (p : Program Call α) (f : α → Program Call β) (g : β → Program Call γ) :
    p >>= f >>= g = p >>= fun a => f a >>= g := by
  induction p with
  | ret a => rfl
  | call c k ih => exact congrArg (Program.call c) (funext ih)

variable {N N' : ∀ {δ : Type}, Call δ → Prop} {Q Q' : α → Prop} {R : β → Prop}

@[simp] theorem uses_ret (a : α) : (.ret a : Program Call α).Uses N Q ↔ Q a := Iff.rfl

@[simp] theorem uses_call {δ : Type} (c : Call δ) (k : δ → Program Call α) :
    (Program.call c k).Uses N Q ↔ N c ∧ ∀ r, (k r).Uses N Q := Iff.rfl

theorem uses_bind {p : Program Call α} {f : α → Program Call β} :
    (p >>= f).Uses N R ↔ p.Uses N fun a => (f a).Uses N R := by
  induction p with
  | ret a => rfl
  | call c k ih => simp only [call_bind, uses_call, ih]

theorem Uses.mono {p : Program Call α} (hp : p.Uses N Q)
    (hn : ∀ {δ : Type} (c : Call δ), N c → N' c) (hq : ∀ a, Q a → Q' a) : p.Uses N' Q' := by
  induction p with
  | ret a => exact hq a hp
  | call c k ih => exact ⟨hn c hp.1, fun r => ih r (hp.2 r)⟩

instance : LawfulMonad (Program Call) :=
  LawfulMonad.mk' (Program Call) (fun p => bind_ret p) (fun _ _ => rfl) bind_assoc

end Program

/-- What one call does to a world of type `σ`, when nothing goes wrong. -/
class Executes (Call : Type → Type u) (σ : outParam Type) where
  exec {β : Type} : Call β → σ → β × σ

export Executes (exec)

namespace Program

variable {Call : Type → Type u} {σ α β : Type} [Executes Call σ]

def run : Program Call α → σ → α × σ
  | .ret a, w => (a, w)
  | .call c k, w => (k (exec c w).1).run (exec c w).2

/-- The world left by a program that is stopped after at most `n` calls. -/
def runFor : Nat → Program Call α → σ → σ
  | 0, _, w => w
  | _, .ret _, w => w
  | n + 1, .call c k, w => runFor n (k (exec c w).1) (exec c w).2

/-- Every world after a call satisfies `I`, and the last one satisfies `Q` together
with the returned value. This is a Hoare triple with a crash condition. -/
def Along (I : σ → Prop) (Q : α → σ → Prop) : Program Call α → σ → Prop
  | .ret a, w => Q a w
  | .call c k, w => I (exec c w).2 ∧ Along I Q (k (exec c w).1) (exec c w).2

/-- Every call of the run satisfies `N`, and the value it ends with `Q`. -/
def Asks (N : ∀ {δ : Type}, Call δ → Prop) (Q : α → Prop) : Program Call α → σ → Prop
  | .ret a, _ => Q a
  | .call c k, w => N c ∧ Asks N Q (k (exec c w).1) (exec c w).2

theorem Uses.asks {N : ∀ {δ : Type}, Call δ → Prop} {Q : α → Prop} {p : Program Call α}
    (h : p.Uses N Q) (w : σ) : p.Asks N Q w := by
  induction p generalizing w with
  | ret a => exact h
  | call c k ih => exact ⟨h.1, ih _ (h.2 _) _⟩

variable {I J : σ → Prop} {Q : α → σ → Prop} {R : β → σ → Prop}

@[simp] theorem along_ret (a : α) (w : σ) :
    Along I Q (.ret a : Program Call α) w ↔ Q a w := Iff.rfl

@[simp] theorem along_call {δ : Type} (c : Call δ) (k : δ → Program Call α) (w : σ) :
    Along I Q (.call c k) w ↔ I (exec c w).2 ∧ Along I Q (k (exec c w).1) (exec c w).2 := Iff.rfl

theorem along_bind {p : Program Call α} {f : α → Program Call β} {w : σ} :
    Along I R (p >>= f) w ↔ Along I (fun a w' => Along I R (f a) w') p w := by
  induction p generalizing w with
  | ret a => rfl
  | call c k ih => simp only [Program.call_bind, along_call, ih]

theorem Along.mono {Q' : α → σ → Prop} {p : Program Call α} {w : σ} (h : Along I Q p w)
    (hi : ∀ w, I w → J w) (hq : ∀ a w, Q a w → Q' a w) : Along J Q' p w := by
  induction p generalizing w with
  | ret a => exact hq a w h
  | call c k ih => exact ⟨hi _ h.1, ih _ h.2⟩

theorem Along.post {Q' : α → σ → Prop} {p : Program Call α} {w : σ} (h : Along I Q p w)
    (hq : ∀ a w, Q a w → Q' a w) : Along I Q' p w := h.mono (fun _ => id) hq

/-- What holds at every intermediate world may be used at the last one too. -/
theorem Along.strengthen {p : Program Call α} {w : σ} (h : Along I Q p w) (hw : I w) :
    Along I (fun a w' => Q a w' ∧ I w') p w := by
  induction p generalizing w with
  | ret a => exact ⟨h, hw⟩
  | call c k ih => exact ⟨h.1, ih _ h.2 h.1⟩

theorem Along.and {Q' : α → σ → Prop} {p : Program Call α} {w : σ} (h : Along I Q p w)
    (h' : Along J Q' p w) :
    Along (fun w => I w ∧ J w) (fun a w => Q a w ∧ Q' a w) p w := by
  induction p generalizing w with
  | ret a => exact ⟨h, h'⟩
  | call c k ih => exact ⟨⟨h.1, h'.1⟩, ih _ h.2 h'.2⟩

theorem Along.run {p : Program Call α} {w : σ} (h : Along I Q p w) : Q (p.run w).1 (p.run w).2 := by
  induction p generalizing w with
  | ret a => exact h
  | call c k ih => exact ih _ h.2

theorem Along.runFor {p : Program Call α} {w : σ} (h : Along I Q p w) (hw : I w) (n : Nat) :
    I (p.runFor n w) := by
  induction n generalizing p w with
  | zero => exact hw
  | succ n ih =>
    cases p with
    | ret a => exact hw
    | call c k => exact ih h.2 h.1

/-- A relation every call keeps holds between the first world and each later one. -/
theorem Uses.along {N : ∀ {δ : Type}, Call δ → Prop} {Q : α → Prop} {R : σ → σ → Prop}
    {p : Program Call α} {w : σ} (hp : p.Uses N Q) (htrans : ∀ a b c, R a b → R b c → R a c)
    (hstep : ∀ {δ : Type} (c : Call δ) (w : σ), N c → R w (exec c w).2) (hw : R w w) :
    Along (R w) (fun a w' => Q a ∧ R w w') p w := by
  suffices h : ∀ w', R w w' → Along (R w) (fun a w' => Q a ∧ R w w') p w' from h w hw
  induction p with
  | ret a => exact fun w' h => ⟨hp, h⟩
  | call c k ih =>
    intro w' h
    have hn := htrans _ _ _ h (hstep c w' hp.1)
    exact ⟨hn, ih _ (hp.2 _) _ hn⟩

end Program

end InkHole
