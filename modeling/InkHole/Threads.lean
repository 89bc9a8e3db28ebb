import InkHole.Program
import Mathlib.Logic.Function.Basic

/-! Threads that run programs over one world, one call at a time, with locks that a
thread gives up when it ends. A protocol assigns to each thread a state of its own
that its calls and their replies alone determine; what threads following a protocol
cannot break is an invariant of every run. -/

namespace InkHole

universe u

/-- What a set of threads has to know of a call beside what it does. -/
class Shared (Call : Type → Type u) (σ : outParam Type) (L E : outParam Type) extends
    Executes Call σ where
  acquires {β : Type} : Call β → Option L
  releases {β : Type} : Call β → Option L
  /-- The reply of a call that fails for reasons outside the world. -/
  fault {β : Type} : Call β → Option β
  /-- What a thread remembers of a call. -/
  effect {β : Type} : Call β → β → List E

export Shared (acquires releases fault effect)

structure Thread (Call : Type → Type u) (E ρ : Type) where
  program : Program Call ρ
  history : List E

structure Machine (Call : Type → Type u) (σ L E ρ : Type) where
  world : σ
  holder : L → Option Nat
  threads : Nat → Option (Thread Call E ρ)

inductive Action (Call : Type → Type u) (σ ρ : Type) where
  | spawn (i : Nat) (p : Program Call ρ)
  | call (i : Nat)
  | fault (i : Nat)
  | finish (i : Nat)
  | abort (i : Nat)
  | crash
  | outside (w : σ)

namespace Machine

variable {Call : Type → Type u} {σ L E ρ α β : Type} [Shared Call σ L E] [DecidableEq L]

def init (w : σ) : Machine Call σ L E ρ := ⟨w, fun _ => none, fun _ => none⟩

/-- A call that takes a lock waits until nobody holds it. -/
def free (m : Machine Call σ L E ρ) (c : Call β) : Bool :=
  match acquires c with
  | some ℓ => (m.holder ℓ).isNone
  | none => true

def start (m : Machine Call σ L E ρ) (i : Nat) (p : Program Call ρ) : Machine Call σ L E ρ :=
  { m with threads := Function.update m.threads i (some ⟨p, []⟩) }

/-- Thread `i` goes on with reply `r` in world `w`. -/
def advance (m : Machine Call σ L E ρ) (i : Nat) (c : Call β) (k : β → Program Call ρ)
    (history : List E) (r : β) (w : σ) : Machine Call σ L E ρ where
  world := w
  holder ℓ :=
    if acquires c = some ℓ then some i
    else if releases c = some ℓ ∧ m.holder ℓ = some i then none
    else m.holder ℓ
  threads := Function.update m.threads i (some ⟨k r, history ++ effect c r⟩)

def stop (m : Machine Call σ L E ρ) (i : Nat) : Machine Call σ L E ρ where
  world := m.world
  holder ℓ := if m.holder ℓ = some i then none else m.holder ℓ
  threads := Function.update m.threads i none

def step (m : Machine Call σ L E ρ) : Action Call σ ρ → Option (Machine Call σ L E ρ)
  | .spawn i p => if (m.threads i).isNone then some (m.start i p) else none
  | .call i =>
    match m.threads i with
    | some ⟨.call c k, h⟩ =>
      if m.free c then some (m.advance i c k h (exec c m.world).1 (exec c m.world).2) else none
    | _ => none
  | .fault i =>
    match m.threads i with
    | some ⟨.call c k, h⟩ =>
      match Shared.fault c with
      | some r => if m.free c then some (m.advance i c k h r m.world) else none
      | none => none
    | _ => none
  | .finish i =>
    match m.threads i with
    | some ⟨.ret _, _⟩ => some (m.stop i)
    | _ => none
  | .abort i => if (m.threads i).isSome then some (m.stop i) else none
  | .crash => some (init m.world)
  | .outside w => some { m with world := w }

def runActions (m : Machine Call σ L E ρ) : List (Action Call σ ρ) → Option (Machine Call σ L E ρ)
  | [] => some m
  | a :: as => (m.step a).bind fun m' => m'.runActions as

/-- A step changes the world by one call of a thread, or from outside. -/
theorem step_world {m m' : Machine Call σ L E ρ} {a : Action Call σ ρ} (h : m.step a = some m') :
    m'.world = m.world ∨ (∃ w, a = .outside w ∧ m'.world = w) ∨
      ∃ i, ∃ (β : Type) (c : Call β) (k : β → Program Call ρ) (history : List E),
        m.threads i = some ⟨.call c k, history⟩ ∧ m'.world = (exec c m.world).2 := by
  cases a with
  | spawn i p =>
    simp only [step] at h
    split at h
    · obtain rfl := Option.some.inj h
      exact .inl rfl
    · cases h
  | call i =>
    simp only [step] at h
    split at h
    · next c k history ht =>
      split at h
      · obtain rfl := Option.some.inj h
        exact .inr (.inr ⟨i, _, c, k, history, ht, rfl⟩)
      · cases h
    · cases h
  | fault i =>
    simp only [step] at h
    split at h
    · split at h
      · split at h
        · obtain rfl := Option.some.inj h
          exact .inl rfl
        · cases h
      · cases h
    · cases h
  | finish i =>
    simp only [step] at h
    split at h
    · obtain rfl := Option.some.inj h
      exact .inl rfl
    · cases h
  | abort i =>
    simp only [step] at h
    split at h
    · obtain rfl := Option.some.inj h
      exact .inl rfl
    · cases h
  | crash =>
    obtain rfl := Option.some.inj h
    exact .inl rfl
  | outside w =>
    obtain rfl := Option.some.inj h
    exact .inr (.inl ⟨w, rfl, rfl⟩)

/-- What one thread does, and the start of it, leave the other threads as they are. -/
theorem step_other {m m' : Machine Call σ L E ρ} {a : Action Call σ ρ} {i j : Nat}
    (ha : a = .call i ∨ ∃ p, a = .spawn i p) (h : m.step a = some m') (hji : j ≠ i) :
    m'.threads j = m.threads j := by
  rcases ha with rfl | ⟨p, rfl⟩
  · simp only [step] at h
    split at h
    · split at h
      · obtain rfl := Option.some.inj h
        exact Function.update_of_ne hji _ _
      · cases h
    · cases h
  · simp only [step] at h
    split at h
    · obtain rfl := Option.some.inj h
      exact Function.update_of_ne hji _ _
    · cases h

/-- A run that stops at the first action that fails a test. -/
def runIf (test : Machine Call σ L E ρ → Action Call σ ρ → Bool) (m : Machine Call σ L E ρ) :
    List (Action Call σ ρ) → Option (Machine Call σ L E ρ)
  | [] => some m
  | a :: as => if test m a then (m.step a).bind fun m' => m'.runIf test as else none

/-- The machines that are reached when every action is one the regime allows. -/
inductive Reachable (regime : Machine Call σ L E ρ → Action Call σ ρ → Prop)
    (m₀ : Machine Call σ L E ρ) : Machine Call σ L E ρ → Prop where
  | refl : Reachable regime m₀ m₀
  | step {m m' : Machine Call σ L E ρ} {a : Action Call σ ρ} :
    Reachable regime m₀ m → regime m a → m.step a = some m' → Reachable regime m₀ m'

theorem Reachable.trans {regime : Machine Call σ L E ρ → Action Call σ ρ → Prop}
    {m₀ m m' : Machine Call σ L E ρ} (h : Reachable regime m₀ m) (h' : Reachable regime m m') :
    Reachable regime m₀ m' := by
  induction h' with
  | refl => exact h
  | step _ ha hs ih => exact ih.step ha hs

/-- A run that passes a test reaches its last machine, with what its actions keep known where the
test is read. -/
theorem Reachable.runIf_keeping {regime : Machine Call σ L E ρ → Action Call σ ρ → Prop}
    {test : Machine Call σ L E ρ → Action Call σ ρ → Bool} {I : Machine Call σ L E ρ → Prop}
    {m₀ m m' : Machine Call σ L E ρ} {as : List (Action Call σ ρ)} (h : Reachable regime m₀ m)
    (hi : I m) (hkeep : ∀ a ∈ as, ∀ m m', I m → m.step a = some m' → I m')
    (ht : ∀ m, I m → ∀ a ∈ as, test m a = true → regime m a) (hr : m.runIf test as = some m') :
    Reachable regime m₀ m' := by
  induction as generalizing m with
  | nil =>
    obtain rfl := Option.some.inj hr
    exact h
  | cons a as ih =>
    rw [Machine.runIf] at hr
    split at hr
    · next ha =>
      obtain ⟨m₁, hs, hr⟩ := Option.bind_eq_some_iff.mp hr
      exact ih (h.step (ht m hi a List.mem_cons_self ha) hs) (hkeep a List.mem_cons_self m m₁ hi hs)
        (fun b hb => hkeep b (List.mem_cons_of_mem a hb))
        (fun m hi b hb => ht m hi b (List.mem_cons_of_mem a hb)) hr
    · cases hr

theorem Reachable.runIf {regime : Machine Call σ L E ρ → Action Call σ ρ → Prop}
    {test : Machine Call σ L E ρ → Action Call σ ρ → Bool} {m₀ m m' : Machine Call σ L E ρ}
    {as : List (Action Call σ ρ)} (h : Reachable regime m₀ m)
    (ht : ∀ m, ∀ a ∈ as, test m a = true → regime m a) (hr : m.runIf test as = some m') :
    Reachable regime m₀ m' :=
  h.runIf_keeping (I := fun _ => True) trivial (fun _ _ _ _ _ _ => trivial) (fun m _ => ht m) hr

theorem runIf_true (m : Machine Call σ L E ρ) (as : List (Action Call σ ρ)) :
    m.runIf (fun _ _ => true) as = m.runActions as := by
  induction as generalizing m with
  | nil => rfl
  | cons a as ih => simp only [Machine.runIf, runActions, if_true, ih]

/-- Every machine of a run satisfies `P`. -/
def Always (P : Machine Call σ L E ρ → Prop) (m : Machine Call σ L E ρ) : List (Action Call σ ρ) → Prop
  | [] => P m
  | a :: as => P m ∧ ∀ m', m.step a = some m' → Always P m' as

/-- Every action of a run that is taken satisfies `C` where it is taken. -/
def EachStep (C : Machine Call σ L E ρ → Action Call σ ρ → Prop) (m : Machine Call σ L E ρ) :
    List (Action Call σ ρ) → Prop
  | [] => True
  | a :: as => ∀ m', m.step a = some m' → C m a ∧ EachStep C m' as

theorem Always.head {P : Machine Call σ L E ρ → Prop} {m : Machine Call σ L E ρ}
    {as : List (Action Call σ ρ)} (h : Always P m as) : P m := by
  cases as with
  | nil => exact h
  | cons a as => exact h.1

theorem Always.mono {P Q : Machine Call σ L E ρ → Prop} (hpq : ∀ m, P m → Q m)
    {m : Machine Call σ L E ρ} {as : List (Action Call σ ρ)} (h : Always P m as) : Always Q m as := by
  induction as generalizing m with
  | nil => exact hpq m h
  | cons a as ih => exact ⟨hpq m h.1, fun m' hs => ih (h.2 m' hs)⟩

theorem Always.runActions {P : Machine Call σ L E ρ → Prop} {m m' : Machine Call σ L E ρ}
    {as : List (Action Call σ ρ)} (h : Always P m as) (hr : m.runActions as = some m') : P m' := by
  induction as generalizing m with
  | nil =>
    obtain rfl := Option.some.inj hr
    exact h
  | cons a as ih =>
    obtain ⟨m₁, hs, hr⟩ := Option.bind_eq_some_iff.mp hr
    exact ih (h.2 m₁ hs) hr

theorem EachStep.of_forall {C : Machine Call σ L E ρ → Action Call σ ρ → Prop}
    {m : Machine Call σ L E ρ} {as : List (Action Call σ ρ)} (h : ∀ a ∈ as, ∀ m, C m a) :
    EachStep C m as := by
  induction as generalizing m with
  | nil => trivial
  | cons a as ih =>
    exact fun _ _ => ⟨h a List.mem_cons_self m, ih fun b hb => h b (List.mem_cons_of_mem a hb)⟩

/-- Where one action keeps `P` exactly when it satisfies `C`, a run keeps it exactly when all of
its actions do. -/
theorem always_iff_eachStep {P : Machine Call σ L E ρ → Prop}
    {C R : Machine Call σ L E ρ → Action Call σ ρ → Prop}
    (hstep : ∀ m a m', P m → R m a → m.step a = some m' → (P m' ↔ C m a))
    {m : Machine Call σ L E ρ} {as : List (Action Call σ ρ)} (hm : P m) (hr : EachStep R m as) :
    Always P m as ↔ EachStep C m as := by
  induction as generalizing m with
  | nil => exact ⟨fun _ => trivial, fun _ => hm⟩
  | cons a as ih =>
    constructor
    · intro h m' hs
      have hp := (h.2 m' hs).head
      exact ⟨(hstep m a m' hm (hr m' hs).1 hs).mp hp, (ih hp (hr m' hs).2).mp (h.2 m' hs)⟩
    · intro h
      refine ⟨hm, fun m' hs => ?_⟩
      have hp := (hstep m a m' hm (hr m' hs).1 hs).mpr (h m' hs).1
      exact (ih hp (hr m' hs).2).mpr (h m' hs).2

theorem Reachable.runActions {regime : Machine Call σ L E ρ → Action Call σ ρ → Prop}
    {m₀ m m' : Machine Call σ L E ρ} {as : List (Action Call σ ρ)} (h : Reachable regime m₀ m)
    (ha : ∀ a ∈ as, ∀ m, regime m a) (hr : m.runActions as = some m') : Reachable regime m₀ m' :=
  h.runIf (fun m a hm _ => ha a hm m) ((runIf_true m as).trans hr)

end Machine

/-- The state of a thread under a protocol: which calls it may make, where they lead, and
which locks it holds. -/
structure Protocol (Call : Type → Type u) (T L : Type) where
  allowed {β : Type} : T → Call β → Prop
  next {β : Type} : T → Call β → β → T
  holds : T → L → Prop

namespace Protocol

variable {Call : Type → Type u} {σ L E ρ α β T : Type} (P : Protocol Call T L)

/-- Every call is allowed where it is made, whatever the replies were. -/
def Follows (Q : α → T → Prop) : T → Program Call α → Prop
  | t, .ret a => Q a t
  | t, .call c k => P.allowed t c ∧ ∀ r, Follows Q (P.next t c r) (k r)

variable {P} {Q Q' : α → T → Prop} {R : β → T → Prop}

@[simp] theorem follows_ret (t : T) (a : α) : P.Follows Q t (.ret a) ↔ Q a t := Iff.rfl

@[simp] theorem follows_call {δ : Type} (t : T) (c : Call δ) (k : δ → Program Call α) :
    P.Follows Q t (.call c k) ↔ P.allowed t c ∧ ∀ r, P.Follows Q (P.next t c r) (k r) := Iff.rfl

theorem follows_bind {p : Program Call α} {f : α → Program Call β} {t : T} :
    P.Follows R t (p >>= f) ↔ P.Follows (fun a t' => P.Follows R t' (f a)) t p := by
  induction p generalizing t with
  | ret a => rfl
  | call c k ih => simp only [Program.call_bind, follows_call, ih]

theorem Follows.mono {p : Program Call α} {t : T} (h : P.Follows Q t p)
    (hq : ∀ a t, Q a t → Q' a t) : P.Follows Q' t p := by
  induction p generalizing t with
  | ret a => exact hq a t h
  | call c k ih => exact ⟨h.1, fun r => ih r (h.2 r)⟩

/-- A lock is held after an allowed call only if the call took it, or it was held before and the
call did not give it up. -/
def Locking [Shared Call σ L E] (P : Protocol Call T L) : Prop :=
  ∀ {β : Type} (t : T) (c : Call β) (r : β) (ℓ : L), P.allowed t c → P.holds (P.next t c r) ℓ →
    acquires c = some ℓ ∨ (P.holds t ℓ ∧ releases c ≠ some ℓ)

/-- Calls that keep to a set of states of the protocol can be made in any of them. -/
theorem Follows.of_uses {N : ∀ {δ : Type}, Call δ → Prop} {S : T → Prop} {V : α → Prop}
    {p : Program Call α} (hp : p.Uses N V) (hs : ∀ {δ : Type} (t : T) (c : Call δ), S t → N c →
      P.allowed t c ∧ ∀ r, S (P.next t c r)) {t : T} (ht : S t) :
    P.Follows (fun a t' => V a ∧ S t') t p := by
  induction p generalizing t with
  | ret a => exact ⟨hp, ht⟩
  | call c k ih =>
    have hc := hs t c ht hp.1
    exact ⟨hc.1, fun r => ih r (hp.2 r) (hc.2 r)⟩

end Protocol

namespace Machine

variable {Call : Type → Type u} {σ L E ρ β T : Type}

/-- Each live thread follows the protocol from its own state, and holds the locks that
state says it holds. -/
structure Annotated (P : Protocol Call T L) (Q : ρ → T → Prop) (m : Machine Call σ L E ρ)
    (τ : Nat → T) : Prop where
  follows : ∀ i t, m.threads i = some t → P.Follows Q (τ i) t.program
  holder : ∀ i ℓ, (m.threads i).isSome → P.holds (τ i) ℓ → m.holder ℓ = some i

variable {P : Protocol Call T L} {Q : ρ → T → Prop} {m : Machine Call σ L E ρ} {τ : Nat → T}

/-- No two threads hold the same lock. -/
theorem Annotated.exclusive (h : Annotated P Q m τ) {i j : Nat} {ℓ : L}
    (hi : (m.threads i).isSome) (hj : (m.threads j).isSome)
    (hhi : P.holds (τ i) ℓ) (hhj : P.holds (τ j) ℓ) : i = j :=
  Option.some.inj ((h.holder i ℓ hi hhi).symm.trans (h.holder j ℓ hj hhj))

theorem Annotated.start (h : Annotated P Q m τ) {i : Nat} {p : Program Call ρ} {t : T}
    (hp : P.Follows Q t p) (ht : ∀ ℓ, ¬ P.holds t ℓ) :
    Annotated P Q (m.start i p) (Function.update τ i t) := by
  constructor
  · intro j u hu
    by_cases hj : j = i
    · subst hj
      simp only [Machine.start, Function.update_self, Option.some.injEq] at hu
      subst hu
      simpa using hp
    · simp only [Machine.start, Function.update_of_ne hj] at hu
      simpa only [Function.update_of_ne hj] using h.follows j u hu
  · intro j ℓ hj hh
    by_cases hji : j = i
    · subst hji
      rw [Function.update_self] at hh
      exact absurd hh (ht ℓ)
    · rw [Function.update_of_ne hji] at hh
      simp only [Machine.start, Function.update_of_ne hji] at hj ⊢
      exact h.holder j ℓ hj hh

theorem Annotated.stop (h : Annotated P Q m τ) (i : Nat) : Annotated P Q (m.stop i) τ := by
  constructor
  · intro j u hu
    by_cases hj : j = i
    · simp [Machine.stop, hj] at hu
    · simp only [Machine.stop, Function.update_of_ne hj] at hu
      exact h.follows j u hu
  · intro j ℓ hj hh
    by_cases hji : j = i
    · simp [Machine.stop, hji] at hj
    · simp only [Machine.stop, Function.update_of_ne hji] at hj ⊢
      have hl := h.holder j ℓ hj hh
      rw [hl, if_neg fun he => hji (Option.some.inj he)]

/-- The state of each live thread is one of `R`. -/
def Each (R : T → Prop) (m : Machine Call σ L E ρ) (τ : Nat → T) : Prop :=
  ∀ i, (m.threads i).isSome → R (τ i)

theorem Each.init {R : T → Prop} (w : σ) (τ : Nat → T) :
    Each R (Machine.init w : Machine Call σ L E ρ) τ := fun _ hi => by cases hi

theorem Each.start {R : T → Prop} (h : Each R m τ) {i : Nat} {p : Program Call ρ} {t : T} (ht : R t) :
    Each R (m.start i p) (Function.update τ i t) := by
  intro j hj
  by_cases hji : j = i
  · rw [hji, Function.update_self]
    exact ht
  · simp only [Machine.start, Function.update_of_ne hji] at hj ⊢
    exact h j hj

theorem Each.stop {R : T → Prop} (h : Each R m τ) (i : Nat) : Each R (m.stop i) τ := by
  intro j hj
  by_cases hji : j = i
  · simp [Machine.stop, hji] at hj
  · simp only [Machine.stop, Function.update_of_ne hji] at hj
    exact h j hj

variable [Shared Call σ L E] [DecidableEq L]

theorem Each.advance {R : T → Prop} (h : Each R m τ) {i : Nat} {c : Call β} {k : β → Program Call ρ}
    {history : List E} {r : β} {w : σ} {t : T} (ht : R t) :
    Each R (m.advance i c k history r w) (Function.update τ i t) := by
  intro j hj
  by_cases hji : j = i
  · rw [hji, Function.update_self]
    exact ht
  · simp only [Machine.advance, Function.update_of_ne hji] at hj ⊢
    exact h j hj

theorem Annotated.advance (hl : P.Locking) (h : Annotated P Q m τ) {i : Nat} {c : Call β}
    {k : β → Program Call ρ} {history : List E} (hi : m.threads i = some ⟨.call c k, history⟩)
    (hfree : m.free c = true) (r : β) (w : σ) :
    Annotated P Q (m.advance i c k history r w) (Function.update τ i (P.next (τ i) c r)) := by
  have hacq : ∀ ℓ, acquires c = some ℓ → m.holder ℓ = none := by
    intro ℓ hℓ
    simpa only [free, hℓ, Option.isNone_iff_eq_none] using hfree
  have hsome : (m.threads i).isSome := by rw [hi]; rfl
  constructor
  · intro j u hu
    by_cases hj : j = i
    · subst hj
      simp only [Machine.advance, Function.update_self, Option.some.injEq] at hu
      subst hu
      simpa using (h.follows j _ hi).2 r
    · simp only [Machine.advance, Function.update_of_ne hj] at hu
      simpa only [Function.update_of_ne hj] using h.follows j u hu
  · intro j ℓ hj hh
    by_cases hji : j = i
    · subst hji
      rw [Function.update_self] at hh
      rcases hl _ _ _ _ (h.follows j _ hi).1 hh with ha | ⟨hb, hr⟩
      · simp [Machine.advance, ha]
      · have hb := h.holder j ℓ hsome hb
        simp only [Machine.advance]
        rw [if_neg fun ha => by simp [hacq ℓ ha] at hb, if_neg fun hc => hr hc.1]
        exact hb
    · rw [Function.update_of_ne hji] at hh
      simp only [Machine.advance, Function.update_of_ne hji] at hj ⊢
      have hb := h.holder j ℓ hj hh
      rw [if_neg fun ha => by simp [hacq ℓ ha] at hb, if_neg, hb]
      rw [hb]
      exact fun hc => hji (Option.some.inj hc.2)

/-- What has to be shown of an invariant, action by action. -/
structure Preserved (P : Protocol Call T L) (Q : ρ → T → Prop)
    (regime : Machine Call σ L E ρ → Action Call σ ρ → Prop)
    (Inv : Machine Call σ L E ρ → (Nat → T) → Prop) : Prop where
  spawn : ∀ m τ i p, Annotated P Q m τ → Inv m τ → regime m (.spawn i p) → m.threads i = none →
    ∃ t, P.Follows Q t p ∧ (∀ ℓ, ¬ P.holds t ℓ) ∧ Inv (m.start i p) (Function.update τ i t)
  call : ∀ {β : Type} m τ i (c : Call β) k history, Annotated P Q m τ → Inv m τ →
    regime m (.call i) → m.threads i = some ⟨.call c k, history⟩ → m.free c = true →
    Inv (m.advance i c k history (exec c m.world).1 (exec c m.world).2)
      (Function.update τ i (P.next (τ i) c (exec c m.world).1))
  fault : ∀ {β : Type} m τ i (c : Call β) k history r, Annotated P Q m τ → Inv m τ →
    regime m (.fault i) → m.threads i = some ⟨.call c k, history⟩ → m.free c = true →
    Shared.fault c = some r →
    Inv (m.advance i c k history r m.world) (Function.update τ i (P.next (τ i) c r))
  finish : ∀ m τ i a history, Annotated P Q m τ → Inv m τ → regime m (.finish i) →
    m.threads i = some ⟨.ret a, history⟩ → Inv (m.stop i) τ
  abort : ∀ m τ i, Annotated P Q m τ → Inv m τ → regime m (.abort i) → (m.threads i).isSome →
    Inv (m.stop i) τ
  crash : ∀ m τ, Annotated P Q m τ → Inv m τ → regime m .crash → Inv (init m.world) τ
  outside : ∀ m τ w, Annotated P Q m τ → Inv m τ → regime m (.outside w) → Inv { m with world := w } τ

theorem Preserved.step {regime : Machine Call σ L E ρ → Action Call σ ρ → Prop}
    {Inv : Machine Call σ L E ρ → (Nat → T) → Prop} (hl : P.Locking) (hp : Preserved P Q regime Inv)
    {m m' : Machine Call σ L E ρ} {a : Action Call σ ρ} {τ : Nat → T} (h : Annotated P Q m τ)
    (hi : Inv m τ) (ha : regime m a) (hs : m.step a = some m') :
    ∃ τ', Annotated P Q m' τ' ∧ Inv m' τ' := by
  cases a with
  | spawn i p =>
    simp only [Machine.step] at hs
    split at hs
    · next hn =>
      obtain rfl := Option.some.inj hs
      obtain ⟨t, hf, ht, hinv⟩ := hp.spawn m τ i p h hi ha (Option.isNone_iff_eq_none.mp hn)
      exact ⟨_, h.start hf ht, hinv⟩
    · cases hs
  | call i =>
    simp only [Machine.step] at hs
    split at hs
    · next c k history ht =>
      split at hs
      · next hfree =>
        obtain rfl := Option.some.inj hs
        exact ⟨_, h.advance hl ht hfree _ _, hp.call m τ i c k history h hi ha ht hfree⟩
      · cases hs
    · cases hs
  | fault i =>
    simp only [Machine.step] at hs
    split at hs
    · next c k history ht =>
      split at hs
      · next r hr =>
        split at hs
        · next hfree =>
          obtain rfl := Option.some.inj hs
          exact ⟨_, h.advance hl ht hfree _ _, hp.fault m τ i c k history r h hi ha ht hfree hr⟩
        · cases hs
      · cases hs
    · cases hs
  | finish i =>
    simp only [Machine.step] at hs
    split at hs
    · next ht =>
      obtain rfl := Option.some.inj hs
      exact ⟨τ, h.stop i, hp.finish m τ i _ _ h hi ha ht⟩
    · cases hs
  | abort i =>
    simp only [Machine.step] at hs
    split at hs
    · next ht =>
      obtain rfl := Option.some.inj hs
      exact ⟨τ, h.stop i, hp.abort m τ i h hi ha ht⟩
    · cases hs
  | crash =>
    obtain rfl := Option.some.inj hs
    refine ⟨τ, ⟨fun i t ht => ?_, fun i ℓ ht => ?_⟩, hp.crash m τ h hi ha⟩
    · simp [init] at ht
    · simp [init] at ht
  | outside w =>
    obtain rfl := Option.some.inj hs
    exact ⟨τ, ⟨h.follows, h.holder⟩, hp.outside m τ w h hi ha⟩

/-- An invariant kept by every action holds of every machine that is reached. -/
theorem Preserved.reachable {regime : Machine Call σ L E ρ → Action Call σ ρ → Prop}
    {Inv : Machine Call σ L E ρ → (Nat → T) → Prop} (hl : P.Locking) (hp : Preserved P Q regime Inv)
    {w : σ} {m : Machine Call σ L E ρ} {τ : Nat → T} (h₀ : Inv (init w) τ)
    (hr : Reachable regime (init w) m) : ∃ τ, Annotated P Q m τ ∧ Inv m τ := by
  induction hr with
  | refl =>
    refine ⟨τ, ⟨fun i t ht => ?_, fun i ℓ ht => ?_⟩, h₀⟩
    · simp [init] at ht
    · simp [init] at ht
  | step _ ha hs ih =>
    obtain ⟨τ, h, hi⟩ := ih
    exact hp.step hl h hi ha hs

end Machine

end InkHole
