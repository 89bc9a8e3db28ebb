import InkHole.Threads

/-! Programs that stop at their first error, and the rules of the three logics for them:
what every call is like, what a protocol allows, and what holds of every world a run
goes through. -/

namespace InkHole

universe u

abbrev Fallible (Call : Type → Type u) (ε α : Type) := ExceptT ε (Program Call) α

namespace Fallible

variable {Call : Type → Type u} {ε α β σ T L : Type}

def request (c : Call β) : Fallible Call ε β := ExceptT.mk (.call c fun r => .ret (.ok r))

theorem run_bind (x : Fallible Call ε α) (f : α → Fallible Call ε β) :
    (x >>= f).run = x.run >>= fun
      | .ok a => (f a).run
      | .error e => .ret (.error e) := rfl

@[simp] theorem run_pure (a : α) : (pure a : Fallible Call ε α).run = .ret (.ok a) := rfl

@[simp] theorem run_throw (e : ε) : (throw e : Fallible Call ε α).run = .ret (.error e) := rfl

@[simp] theorem run_lift (x : Except ε α) : (liftM x : Fallible Call ε α).run = .ret x := rfl

@[simp] theorem throw_bind (e : ε) (f : α → Fallible Call ε β) :
    (throw e : Fallible Call ε α) >>= f = throw e := rfl

/-! Calls, whatever the replies are. -/

section Uses

variable {N N' : ∀ {δ : Type}, Call δ → Prop} {Q Q' : α → Prop} {R : β → Prop}

/-- Every call satisfies `N`, and a value that is returned `Q`. -/
def Uses (N : ∀ {δ : Type}, Call δ → Prop) (Q : α → Prop) (x : Fallible Call ε α) : Prop :=
  x.run.Uses N fun r => ∀ a, r = .ok a → Q a

theorem uses_run {x : Fallible Call ε α} :
    Uses N Q x ↔ x.run.Uses N fun r => ∀ a, r = .ok a → Q a := Iff.rfl

theorem uses_pure {a : α} (h : Q a) : Uses N Q (pure a : Fallible Call ε α) := by
  intro b hb
  rwa [← Except.ok.inj hb]

theorem uses_throw (e : ε) : Uses N Q (throw e : Fallible Call ε α) := by
  intro a ha
  cases ha

theorem uses_lift {x : Except ε α} (h : ∀ a, x = .ok a → Q a) :
    Uses N Q (liftM x : Fallible Call ε α) := h

theorem uses_bind {x : Fallible Call ε α} {f : α → Fallible Call ε β} (hx : Uses N Q x)
    (hf : ∀ a, Q a → Uses N R (f a)) : Uses N R (x >>= f) := by
  rw [Uses, run_bind, Program.uses_bind]
  refine Program.Uses.mono hx (fun _ => id) fun r hr => ?_
  cases r with
  | ok a => exact hf a (hr a rfl)
  | error e =>
    intro b hb
    cases hb

theorem Uses.mono {x : Fallible Call ε α} (hx : Uses N Q x)
    (hn : ∀ {δ : Type} (c : Call δ), N c → N' c) (hq : ∀ a, Q a → Q' a) : Uses N' Q' x :=
  Program.Uses.mono hx hn fun _ h a ha => hq a (h a ha)

theorem Uses.any {x : Fallible Call ε α} (hx : Uses N Q x) : Uses N (fun _ => True) x :=
  hx.mono (fun _ h => h) fun _ _ => trivial

end Uses

/-! A protocol. -/

section Follows

variable {P : Protocol Call T L} {Q Q' : α → T → Prop} {F F' : ε → T → Prop} {R : β → T → Prop} {t : T}

/-- The protocol is followed to a value with `Q` or to an error with `F`. -/
def Follows (P : Protocol Call T L) (Q : α → T → Prop) (F : ε → T → Prop) (t : T)
    (x : Fallible Call ε α) : Prop :=
  P.Follows (fun r t' => match r with
    | .ok a => Q a t'
    | .error e => F e t') t x.run

theorem follows_run {x : Fallible Call ε α} : Follows P Q F t x ↔
    P.Follows (fun r t' => match r with
      | .ok a => Q a t'
      | .error e => F e t') t x.run := Iff.rfl

theorem follows_pure {a : α} (h : Q a t) : Follows P Q F t (pure a : Fallible Call ε α) := h

theorem follows_throw {e : ε} (h : F e t) : Follows P Q F t (throw e : Fallible Call ε α) := h

theorem follows_lift {x : Except ε α} (h : ∀ a, x = .ok a → Q a t) (he : ∀ e, x = .error e → F e t) :
    Follows P Q F t (liftM x : Fallible Call ε α) := by
  cases x with
  | ok a => exact h a rfl
  | error e => exact he e rfl

theorem follows_bind {x : Fallible Call ε α} {f : α → Fallible Call ε β} (hx : Follows P Q F t x)
    (hf : ∀ a t, Q a t → Follows P R F t (f a)) : Follows P R F t (x >>= f) := by
  rw [Follows, run_bind, Protocol.follows_bind]
  refine Protocol.Follows.mono hx fun r t hr => ?_
  cases r with
  | ok a => exact hf a t hr
  | error e => exact hr

theorem follows_tryCatch {x : Fallible Call ε α} {f : ε → Fallible Call ε α} {E : ε → T → Prop}
    (hx : Follows P Q E t x) (hf : ∀ e t, E e t → Follows P Q F t (f e)) : Follows P Q F t (tryCatch x f) := by
  change Protocol.Follows P _ t (x.run >>= _)
  refine Protocol.follows_bind.mpr (Protocol.Follows.mono hx fun r t hr => ?_)
  cases r with
  | ok a => exact hr
  | error e => exact hf e t hr

theorem Follows.mono {x : Fallible Call ε α} (hx : Follows P Q F t x) (hq : ∀ a t, Q a t → Q' a t)
    (hf : ∀ e t, F e t → F' e t) : Follows P Q' F' t x := by
  refine Protocol.Follows.mono hx fun r t hr => ?_
  cases r with
  | ok a => exact hq a t hr
  | error e => exact hf e t hr

theorem Follows.of_uses {N : ∀ {δ : Type}, Call δ → Prop} {S : T → Prop} {V : α → Prop}
    {x : Fallible Call ε α} (hx : Uses N V x) (hs : ∀ {δ : Type} (t : T) (c : Call δ), S t → N c →
      P.allowed t c ∧ ∀ r, S (P.next t c r)) (ht : S t) :
    Follows P (fun a t' => V a ∧ S t') (fun _ t' => S t') t x := by
  refine Protocol.Follows.mono (Protocol.Follows.of_uses hx hs ht) fun r t hr => ?_
  cases r with
  | ok a => exact ⟨hr.1 a rfl, hr.2⟩
  | error e => exact hr.2

end Follows

/-! The worlds of a run. -/

section Along

variable [Executes Call σ] {I J : σ → Prop} {Q Q' : α → σ → Prop} {F F' : ε → σ → Prop}
  {R : β → σ → Prop} {w : σ}

/-- `I` holds after every call, and at the end `Q` of the value or `F` of the error. -/
def Along (I : σ → Prop) (Q : α → σ → Prop) (F : ε → σ → Prop) (x : Fallible Call ε α) (w : σ) :
    Prop :=
  x.run.Along I (fun r w' => match r with
    | .ok a => Q a w'
    | .error e => F e w') w

theorem along_run {x : Fallible Call ε α} : Along I Q F x w ↔
    x.run.Along I (fun r w' => match r with
      | .ok a => Q a w'
      | .error e => F e w') w := Iff.rfl

theorem along_pure {a : α} (h : Q a w) : Along I Q F (pure a : Fallible Call ε α) w := h

theorem along_throw {e : ε} (h : F e w) : Along I Q F (throw e : Fallible Call ε α) w := h

theorem along_lift {x : Except ε α} (h : ∀ a, x = .ok a → Q a w) (he : ∀ e, x = .error e → F e w) :
    Along I Q F (liftM x : Fallible Call ε α) w := by
  cases x with
  | ok a => exact h a rfl
  | error e => exact he e rfl

theorem along_bind {x : Fallible Call ε α} {f : α → Fallible Call ε β} (hx : Along I Q F x w)
    (hf : ∀ a w, Q a w → Along I R F (f a) w) : Along I R F (x >>= f) w := by
  rw [Along, run_bind, Program.along_bind]
  refine Program.Along.post hx fun r w hr => ?_
  cases r with
  | ok a => exact hf a w hr
  | error e => exact hr

theorem Along.mono {x : Fallible Call ε α} (hx : Along I Q F x w) (hi : ∀ w, I w → J w)
    (hq : ∀ a w, Q a w → Q' a w) (hf : ∀ e w, F e w → F' e w) : Along J Q' F' x w := by
  refine Program.Along.mono hx hi fun r w hr => ?_
  cases r with
  | ok a => exact hq a w hr
  | error e => exact hf e w hr

end Along

attribute [irreducible] Uses Follows Along

end Fallible

end InkHole
