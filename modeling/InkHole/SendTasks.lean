import InkHole.Automata
import Mathlib.Data.Finset.Basic
import Mathlib.Data.Finset.Dedup
import Mathlib.Logic.Function.Basic

/-! The sends of a session of the local network: a task for each send, or the task of a wormhole for several,
the registry in which they can be cancelled, and what closing the session waits for. -/

namespace InkHole.SendTasks

inductive SendPhase where
  | sending
  /-- The result is known, and the session was not cancelled when it was asked. -/
  | emitting
  | reported
  | ended
  /-- The task has panicked, or was dropped. -/
  | abandoned
  deriving DecidableEq, Repr

structure Send where
  /-- The guard that has registered it for a wormhole. -/
  guard : Option Nat
  phase : SendPhase
  deriving DecidableEq, Repr

inductive GuardPhase where
  | held
  /-- Dropped while the registry was locked: the removal is left to a task. -/
  | dropped
  | released
  deriving DecidableEq, Repr

structure SendRegistry where
  closed : Bool
  cancellations : Finset Nat
  handles : List Nat

structure LanSession where
  cancelled : Bool
  registry : SendRegistry
  sends : Nat → Option Send
  guards : Nat → Option GuardPhase
  /-- The handles that `close` has taken and not yet awaited. -/
  closing : Option (List Nat)
  closed : Bool
  sent : List Nat

inductive Event where
  | lanSend (id : Nat)
  | panic (id : Nat)
  | result (id : Nat)
  | emit (id : Nat)
  | remove (id : Nat)
  | register (guard : Nat) (ids : List Nat)
  | dropGuard (guard : Nat) (contended : Bool)
  | cleanup (guard : Nat)
  | cancel
  /-- The section of `close` under the lock of the registry. -/
  | take
  | await
  | closeReturns
  deriving DecidableEq, Repr

def SendPhase.active : SendPhase → Bool
  | .sending => true
  | .emitting => true
  | .reported => true
  | .ended => false
  | .abandoned => false

/-- What a send comes to when the guard of it is released. -/
def SendPhase.over : SendPhase → SendPhase
  | .reported => .ended
  | .ended => .ended
  | _ => .abandoned

namespace LanSession

def start : LanSession := ⟨false, ⟨false, ∅, []⟩, fun _ => none, fun _ => none, none, false, []⟩

def refuses (s : LanSession) : Bool := s.registry.closed || s.cancelled

def active (s : LanSession) (id : Nat) : Bool := (s.sends id).any fun send => send.phase.active

/-- The task of a send goes on. -/
def runs (s : LanSession) (send : Send) : Bool :=
  send.guard.all fun guard => s.guards guard == some .held

def setPhase (s : LanSession) (id : Nat) (phase : SendPhase) : LanSession :=
  { s with sends := Function.update s.sends id ((s.sends id).map fun send => { send with phase }) }

def unregister (s : LanSession) (guard : Nat) : LanSession :=
  { s with
    registry := { s.registry with
      cancellations := s.registry.cancellations.filter fun id =>
        (s.sends id).all fun send => send.guard ≠ some guard }
    sends := fun id => (s.sends id).map fun send =>
      if send.guard = some guard then { send with phase := send.phase.over } else send
    guards := Function.update s.guards guard (some .released) }

/-- The handles of tasks that have finished are let go of. -/
def started (s : LanSession) (id : Nat) : LanSession :=
  { s with
    registry := { s.registry with
      cancellations := insert id s.registry.cancellations
      handles := s.registry.handles.filter s.active ++ [id] }
    sends := Function.update s.sends id (some ⟨none, .sending⟩) }

def registered (s : LanSession) (guard : Nat) (ids : List Nat) : LanSession :=
  { s with
    registry := { s.registry with cancellations := s.registry.cancellations ∪ ids.toFinset }
    sends := fun id => if id ∈ ids then some ⟨some guard, .sending⟩ else s.sends id
    guards := Function.update s.guards guard (some .held) }

def step (s : LanSession) : Event → Option LanSession
  | .lanSend id => if s.sends id = none then some (if s.refuses then s else s.started id) else none
  | .panic id =>
    if s.active id ∧ (s.sends id).all (fun send => send.guard = none) then some (s.setPhase id .abandoned) else none
  | .result id =>
    if (s.sends id).any fun send => send.phase = .sending && s.runs send then
      some (s.setPhase id (if s.cancelled then .reported else .emitting))
    else none
  | .emit id =>
    if (s.sends id).any fun send => send.phase = .emitting && s.runs send then
      some { s.setPhase id .reported with sent := s.sent ++ [id] }
    else none
  | .remove id =>
    if s.sends id = some ⟨none, .reported⟩ then
      some { s.setPhase id .ended with
        registry := { s.registry with cancellations := s.registry.cancellations.erase id } }
    else none
  | .register guard ids =>
    if s.guards guard = none ∧ ∀ id ∈ ids, s.sends id = none then
      some (if s.refuses then s else s.registered guard ids)
    else none
  | .dropGuard guard contended =>
    if s.guards guard = some .held then
      some (if contended then { s with guards := Function.update s.guards guard (some .dropped) }
        else s.unregister guard)
    else none
  | .cleanup guard => if s.guards guard = some .dropped then some (s.unregister guard) else none
  | .cancel => some { s with cancelled := true }
  | .take =>
    if s.cancelled ∧ s.registry.closed = false then
      some { s with registry := ⟨true, ∅, []⟩, closing := some s.registry.handles }
    else none
  | .await =>
    match s.closing with
    | some (id :: ids) => if s.active id then none else some { s with closing := some ids }
    | _ => none
  | .closeReturns => if s.closing = some [] then some { s with closed := true } else none

end LanSession

def lanSession : Automaton LanSession Event where
  start := .start
  step := LanSession.step

namespace LanSession

variable {s s' : LanSession} {id guard : Nat} {phase : SendPhase} {send : Send}

structure Kept (s : LanSession) : Prop where
  once : s.sent.Nodup
  known : ∀ id ∈ s.sent, (s.sends id).isSome
  unsent : ∀ id send, s.sends id = some send → send.phase = .sending ∨ send.phase = .emitting → id ∉ s.sent
  told : ∀ id send, s.sends id = some send → send.phase = .reported ∨ send.phase = .ended → id ∈ s.sent ∨ s.cancelled
  guarded : ∀ id send guard, s.sends id = some send → send.guard = some guard → (s.guards guard).isSome
  listed : s.registry.closed = false → ∀ id send, s.sends id = some send → send.phase.active →
    id ∈ s.registry.cancellations
  pending : ∀ id ∈ s.registry.cancellations, ∃ send, s.sends id = some send ∧ send.phase ≠ .ended ∧
    ∀ guard, send.guard = some guard → s.guards guard ≠ some .released
  handled : ∀ id phase, s.sends id = some ⟨none, phase⟩ → phase.active →
    id ∈ s.registry.handles ∨ ∃ ids, s.closing = some ids ∧ id ∈ ids
  opened : s.registry.closed = false → s.closing = none
  emptied : s.registry.closed = true → s.cancelled = true ∧ s.registry.cancellations = ∅ ∧ s.registry.handles = []
  waited : s.closed = true → s.closing = some []

theorem kept_start : Kept start where
  once := List.nodup_nil
  known id h := by cases h
  unsent id send h := by cases h
  told id send h := by cases h
  guarded id send guard h := by cases h
  listed _ id send h := by cases h
  pending id h := by cases h
  handled id phase h := by cases h
  opened _ := rfl
  emptied h := by cases h
  waited h := by cases h

/-- A send that is found after one has changed its phase. -/
theorem setPhase_some {i : Nat} (h : (s.setPhase id phase).sends i = some send) :
    (i = id ∧ ∃ old, s.sends id = some old ∧ send = { old with phase }) ∨ (i ≠ id ∧ s.sends i = some send) := by
  rw [setPhase] at h
  by_cases hi : i = id
  · subst hi
    simp only [Function.update_self] at h
    obtain ⟨old, hold, rfl⟩ := Option.map_eq_some_iff.mp h
    exact .inl ⟨rfl, old, hold, rfl⟩
  · simp only [Function.update_of_ne hi] at h
    exact .inr ⟨hi, h⟩

theorem setPhase_self {old : Send} (h : s.sends id = some old) :
    (s.setPhase id phase).sends id = some { old with phase } := by
  simp [setPhase, h]

theorem setPhase_other {i : Nat} (h : i ≠ id) : (s.setPhase id phase).sends i = s.sends i :=
  Function.update_of_ne h _ _

/-- A send moves on to a phase in which it is still known, and may be reported with that. -/
theorem Kept.moved (h : s.Kept) {old : Send} {sent : List Nat} (hold : s.sends id = some old)
    (honce : sent.Nodup) (hsent : ∀ i, i ∈ sent ↔ i ∈ s.sent ∨ i = id ∧ id ∈ sent)
    (hunsent : phase = .sending ∨ phase = .emitting → id ∉ sent)
    (htold : phase = .reported ∨ phase = .ended → id ∈ sent ∨ s.cancelled)
    (hactive : phase.active → old.phase.active) (hended : phase ≠ .ended) :
    { s.setPhase id phase with sent := sent }.Kept where
  once := honce
  known i hi := by
    rcases (hsent i).mp hi with hi | ⟨rfl, -⟩
    · by_cases hne : i = id
      · rw [hne, setPhase_self hold]
        rfl
      · rw [setPhase_other hne]
        exact h.known i hi
    · rw [setPhase_self hold]
      rfl
  unsent i send hs hp := by
    rcases setPhase_some hs with ⟨rfl, old', -, rfl⟩ | ⟨hne, hs⟩
    · exact hunsent hp
    · intro hi
      exact h.unsent i send hs hp (((hsent i).mp hi).resolve_right fun hi => hne hi.1)
  told i send hs hp := by
    rcases setPhase_some hs with ⟨rfl, old', -, rfl⟩ | ⟨hne, hs⟩
    · exact htold hp
    · exact (h.told i send hs hp).imp_left fun hi => (hsent i).mpr (.inl hi)
  guarded i send guard hs hg := by
    rcases setPhase_some hs with ⟨rfl, old', hold', rfl⟩ | ⟨hne, hs⟩
    · exact h.guarded _ old' guard hold' hg
    · exact h.guarded i send guard hs hg
  listed hc i send hs hp := by
    rcases setPhase_some hs with ⟨rfl, old', hold', rfl⟩ | ⟨hne, hs⟩
    · exact h.listed hc _ old hold (hactive hp)
    · exact h.listed hc i send hs hp
  pending i hi := by
    obtain ⟨send, hs, hp, hg⟩ := h.pending i hi
    by_cases hne : i = id
    · subst hne
      rw [hold] at hs
      obtain rfl := Option.some.inj hs
      exact ⟨_, setPhase_self hold, hended, hg⟩
    · exact ⟨send, (setPhase_other hne).trans hs, hp, hg⟩
  handled i p hs hp := by
    rcases setPhase_some hs with ⟨rfl, old', hold', heq⟩ | ⟨hne, hs⟩
    · obtain ⟨guard, oldPhase⟩ := old'
      obtain ⟨rfl, rfl⟩ := Send.mk.inj heq
      rw [hold] at hold'
      obtain rfl := Option.some.inj hold'
      exact h.handled _ _ hold (hactive hp)
    · exact h.handled i p hs hp
  opened := h.opened
  emptied := h.emptied
  waited := h.waited

/-- Nothing more is reported. -/
theorem Kept.setPhase (h : s.Kept) {old : Send} (hold : s.sends id = some old)
    (hunsent : phase = .sending ∨ phase = .emitting → id ∉ s.sent)
    (htold : phase = .reported ∨ phase = .ended → id ∈ s.sent ∨ s.cancelled)
    (hactive : phase.active → old.phase.active) (hended : phase ≠ .ended) : (s.setPhase id phase).Kept := by
  have hsent : ∀ i, i ∈ s.sent ↔ i ∈ s.sent ∨ i = id ∧ id ∈ s.sent := by
    intro i
    exact ⟨.inl, fun hi => hi.elim (fun hi => hi) fun hi => hi.1 ▸ hi.2⟩
  exact h.moved hold h.once hsent hunsent htold hactive hended

theorem Kept.started (h : s.Kept) (hfresh : s.sends id = none) (hopen : s.refuses = false) : (s.started id).Kept := by
  obtain ⟨hclosed, -⟩ := Bool.or_eq_false_iff.mp hopen
  have hold : ∀ {i send}, (s.started id).sends i = some send →
      i = id ∧ send = ⟨none, .sending⟩ ∨ i ≠ id ∧ s.sends i = some send := by
    intro i send hs
    rw [LanSession.started] at hs
    by_cases hi : i = id
    · subst hi
      simp only [Function.update_self] at hs
      exact .inl ⟨rfl, (Option.some.inj hs).symm⟩
    · simp only [Function.update_of_ne hi] at hs
      exact .inr ⟨hi, hs⟩
  have hnew : ∀ {i}, i ≠ id → (s.started id).sends i = s.sends i := fun hi => Function.update_of_ne hi _ _
  have hunsent : id ∉ s.sent := by
    intro hi
    have hknown := h.known id hi
    rw [hfresh] at hknown
    cases hknown
  constructor
  · exact h.once
  · intro i hi
    have hne : i ≠ id := fun heq => hunsent (heq ▸ hi)
    rw [hnew hne]
    exact h.known i hi
  · intro i send hs hp
    rcases hold hs with ⟨rfl, -⟩ | ⟨-, hs⟩
    · exact hunsent
    · exact h.unsent i send hs hp
  · intro i send hs hp
    rcases hold hs with ⟨-, rfl⟩ | ⟨-, hs⟩
    · rcases hp with hp | hp <;> cases hp
    · exact h.told i send hs hp
  · intro i send guard hs hg
    rcases hold hs with ⟨-, rfl⟩ | ⟨-, hs⟩
    · cases hg
    · exact h.guarded i send guard hs hg
  · intro _ i send hs hp
    rcases hold hs with ⟨rfl, -⟩ | ⟨-, hs⟩
    · exact Finset.mem_insert_self _ _
    · exact Finset.mem_insert_of_mem (h.listed hclosed i send hs hp)
  · intro i hi
    rcases Finset.mem_insert.mp hi with rfl | hi
    · exact ⟨⟨none, .sending⟩, Function.update_self .., by simp, fun guard hg => by cases hg⟩
    · obtain ⟨send, hs, hrest⟩ := h.pending i hi
      have hne : i ≠ id := by
        rintro rfl
        rw [hfresh] at hs
        cases hs
      exact ⟨send, (hnew hne).trans hs, hrest⟩
  · intro i phase hs hp
    rcases hold hs with ⟨rfl, -⟩ | ⟨-, hs⟩
    · exact .inl (List.mem_append_right _ List.mem_cons_self)
    · refine (h.handled i phase hs hp).imp_left fun hi => List.mem_append_left _ (List.mem_filter.mpr ⟨hi, ?_⟩)
      rw [LanSession.active, hs]
      exact hp
  · exact h.opened
  · intro hc
    rw [show (s.started id).registry.closed = s.registry.closed from rfl, hclosed] at hc
    cases hc
  · exact h.waited

theorem Kept.registered (h : s.Kept) {ids : List Nat} (hguard : s.guards guard = none)
    (hfresh : ∀ id ∈ ids, s.sends id = none) (hopen : s.refuses = false) : (s.registered guard ids).Kept := by
  obtain ⟨hclosed, -⟩ := Bool.or_eq_false_iff.mp hopen
  have hold : ∀ {i send}, (s.registered guard ids).sends i = some send →
      i ∈ ids ∧ send = ⟨some guard, .sending⟩ ∨ i ∉ ids ∧ s.sends i = some send := by
    intro i send hs
    simp only [LanSession.registered] at hs
    split at hs
    · next hi => exact .inl ⟨hi, (Option.some.inj hs).symm⟩
    · next hi => exact .inr ⟨hi, hs⟩
  have hnew : ∀ {i}, i ∉ ids → (s.registered guard ids).sends i = s.sends i := fun hi => if_neg hi
  have hapart : ∀ {i send}, s.sends i = some send → i ∉ ids := by
    intro i send hs hi
    rw [hfresh i hi] at hs
    cases hs
  have hunsent : ∀ i ∈ ids, i ∉ s.sent := by
    intro i hi hs
    have hknown := h.known i hs
    rw [hfresh i hi] at hknown
    cases hknown
  have hheld : (s.registered guard ids).guards guard = some .held := Function.update_self ..
  have hother : ∀ {other}, (s.guards other).isSome → (s.registered guard ids).guards other = s.guards other := by
    intro other hsome
    refine Function.update_of_ne (fun heq => ?_) _ _
    rw [heq, hguard] at hsome
    cases hsome
  constructor
  · exact h.once
  · intro i hi
    rw [hnew fun hmem => hunsent i hmem hi]
    exact h.known i hi
  · intro i send hs hp
    rcases hold hs with ⟨hi, -⟩ | ⟨-, hs⟩
    · exact hunsent i hi
    · exact h.unsent i send hs hp
  · intro i send hs hp
    rcases hold hs with ⟨-, rfl⟩ | ⟨-, hs⟩
    · rcases hp with hp | hp <;> cases hp
    · exact h.told i send hs hp
  · intro i send other hs hg
    rcases hold hs with ⟨-, rfl⟩ | ⟨-, hs⟩
    · obtain rfl := Option.some.inj hg
      rw [hheld]
      rfl
    · have hsome := h.guarded i send other hs hg
      rw [hother hsome]
      exact hsome
  · intro _ i send hs hp
    rcases hold hs with ⟨hi, -⟩ | ⟨-, hs⟩
    · exact Finset.mem_union_right _ (List.mem_toFinset.mpr hi)
    · exact Finset.mem_union_left _ (h.listed hclosed i send hs hp)
  · intro i hi
    rcases Finset.mem_union.mp hi with hi | hi
    · obtain ⟨send, hs, hp, hg⟩ := h.pending i hi
      refine ⟨send, (hnew (hapart hs)).trans hs, hp, fun other ho => ?_⟩
      rw [hother (h.guarded i send other hs ho)]
      exact hg other ho
    · have hmem := List.mem_toFinset.mp hi
      refine ⟨⟨some guard, .sending⟩, if_pos hmem, by simp, fun other ho => ?_⟩
      obtain rfl := Option.some.inj ho
      rw [hheld]
      simp
  · intro i phase hs hp
    rcases hold hs with ⟨-, heq⟩ | ⟨-, hs⟩
    · cases heq
    · exact h.handled i phase hs hp
  · exact h.opened
  · intro hc
    rw [show (s.registered guard ids).registry.closed = s.registry.closed from rfl, hclosed] at hc
    cases hc
  · exact h.waited

theorem over_active (phase : SendPhase) : phase.over.active = false := by
  cases phase <;> rfl

/-- A send that is found after a guard was released. -/
theorem unregister_some (h : (s.unregister guard).sends id = some send) : ∃ old, s.sends id = some old ∧
    (old.guard = some guard ∧ send = ⟨old.guard, old.phase.over⟩ ∨ old.guard ≠ some guard ∧ send = old) := by
  obtain ⟨old, hold, rfl⟩ := Option.map_eq_some_iff.mp h
  refine ⟨old, hold, ?_⟩
  split
  · next hg => exact .inl ⟨hg, rfl⟩
  · next hg => exact .inr ⟨hg, rfl⟩

theorem Kept.unregister (h : s.Kept) (hguard : (s.guards guard).isSome) : (s.unregister guard).Kept where
  once := h.once
  known i hi := by
    obtain ⟨send, hs⟩ := Option.isSome_iff_exists.mp (h.known i hi)
    rw [LanSession.unregister]
    simp only [hs, Option.map_some, Option.isSome_some]
  unsent i send hs hp := by
    obtain ⟨old, hold, ⟨-, rfl⟩ | ⟨-, rfl⟩⟩ := unregister_some hs
    · cases hphase : old.phase <;> simp [hphase, SendPhase.over] at hp
    · exact h.unsent i send hold hp
  told i send hs hp := by
    obtain ⟨old, hold, ⟨-, rfl⟩ | ⟨-, rfl⟩⟩ := unregister_some hs
    · refine h.told i old hold ?_
      cases hphase : old.phase <;> simp [hphase, SendPhase.over] at hp ⊢
    · exact h.told i send hold hp
  guarded i send other hs hg := by
    obtain ⟨old, hold, hsend⟩ := unregister_some hs
    have hsame : old.guard = some other := by
      rcases hsend with ⟨-, rfl⟩ | ⟨-, rfl⟩
      · exact hg
      · exact hg
    have hsome := h.guarded i old other hold hsame
    rw [LanSession.unregister]
    by_cases heq : other = guard
    · simp [heq]
    · simp only [Function.update_of_ne heq]
      exact hsome
  listed hc i send hs hp := by
    obtain ⟨old, hold, ⟨-, rfl⟩ | ⟨hg, rfl⟩⟩ := unregister_some hs
    · rw [over_active] at hp
      cases hp
    · refine Finset.mem_filter.mpr ⟨h.listed hc i send hold hp, ?_⟩
      rw [hold]
      simpa using hg
  pending i hi := by
    obtain ⟨hmem, hother⟩ := Finset.mem_filter.mp hi
    obtain ⟨send, hs, hp, hg⟩ := h.pending i hmem
    rw [hs] at hother
    have hne : send.guard ≠ some guard := by simpa using hother
    refine ⟨send, ?_, hp, fun other ho => ?_⟩
    · rw [LanSession.unregister]
      simp only [hs, Option.map_some, if_neg hne]
    · rw [LanSession.unregister]
      have hothers : other ≠ guard := by
        rintro rfl
        exact hne ho
      simp only [Function.update_of_ne hothers]
      exact hg other ho
  handled i phase hs hp := by
    obtain ⟨old, hold, ⟨hg, heq⟩ | ⟨-, rfl⟩⟩ := unregister_some hs
    · rw [hg] at heq
      cases heq
    · exact h.handled i phase hold hp
  opened := h.opened
  emptied hc := by
    obtain ⟨hcancelled, hempty, hhandles⟩ := h.emptied hc
    refine ⟨hcancelled, ?_, hhandles⟩
    rw [LanSession.unregister]
    simp only [hempty, Finset.filter_empty]
  waited := h.waited

/-- The task of a send takes it out of the registry when it has reported. -/
theorem Kept.remove (h : s.Kept) (hold : s.sends id = some ⟨none, .reported⟩) :
    { s.setPhase id .ended with
      registry := { s.registry with cancellations := s.registry.cancellations.erase id } }.Kept where
  once := h.once
  known i hi := by
    by_cases hne : i = id
    · rw [hne, setPhase_self hold]
      rfl
    · rw [setPhase_other hne]
      exact h.known i hi
  unsent i send hs hp := by
    rcases setPhase_some hs with ⟨-, old, -, rfl⟩ | ⟨-, hs⟩
    · rcases hp with hp | hp <;> cases hp
    · exact h.unsent i send hs hp
  told i send hs hp := by
    rcases setPhase_some hs with ⟨rfl, -⟩ | ⟨-, hs⟩
    · exact h.told i _ hold (.inl rfl)
    · exact h.told i send hs hp
  guarded i send guard hs hg := by
    rcases setPhase_some hs with ⟨rfl, old, hfound, rfl⟩ | ⟨-, hs⟩
    · exact h.guarded i old guard hfound hg
    · exact h.guarded i send guard hs hg
  listed hc i send hs hp := by
    rcases setPhase_some hs with ⟨-, old, -, rfl⟩ | ⟨hne, hs⟩
    · cases hp
    · exact Finset.mem_erase.mpr ⟨hne, h.listed hc i send hs hp⟩
  pending i hi := by
    obtain ⟨hne, hmem⟩ := Finset.mem_erase.mp hi
    obtain ⟨send, hs, hrest⟩ := h.pending i hmem
    exact ⟨send, (setPhase_other hne).trans hs, hrest⟩
  handled i phase hs hp := by
    rcases setPhase_some hs with ⟨-, old, -, heq⟩ | ⟨-, hs⟩
    · obtain ⟨-, rfl⟩ := Send.mk.inj heq
      cases hp
    · exact h.handled i phase hs hp
  opened := h.opened
  emptied hc := by
    obtain ⟨hcancelled, hempty, hhandles⟩ := h.emptied hc
    exact ⟨hcancelled, by simp [hempty], hhandles⟩
  waited := h.waited

theorem Kept.guardDropped (h : s.Kept) (guard : Nat) :
    { s with guards := Function.update s.guards guard (some .dropped) }.Kept := by
  refine ⟨h.once, h.known, h.unsent, h.told, fun i send other hs hg => ?_, h.listed, fun i hi => ?_, h.handled,
    h.opened, h.emptied, h.waited⟩
  · have hsome := h.guarded i send other hs hg
    by_cases heq : other = guard
    · simp only [heq, Function.update_self, Option.isSome_some]
    · simp only [Function.update_of_ne heq]
      exact hsome
  · obtain ⟨send, hs, hp, hg⟩ := h.pending i hi
    refine ⟨send, hs, hp, fun other ho => ?_⟩
    by_cases heq : other = guard
    · simp [heq]
    · simp only [Function.update_of_ne heq]
      exact hg other ho

/-- `close` takes the handles of all tasks that go on. -/
theorem Kept.take (h : s.Kept) (hcancelled : s.cancelled = true) (hopen : s.registry.closed = false) :
    { s with registry := ⟨true, ∅, []⟩, closing := some s.registry.handles }.Kept where
  once := h.once
  known := h.known
  unsent := h.unsent
  told := h.told
  guarded := h.guarded
  listed hc := by cases hc
  pending i hi := by cases hi
  handled i phase hs hp := by
    refine .inr ⟨_, rfl, (h.handled i phase hs hp).resolve_right ?_⟩
    rintro ⟨ids, hids, -⟩
    rw [h.opened hopen] at hids
    cases hids
  opened hc := by cases hc
  emptied _ := ⟨hcancelled, rfl, rfl⟩
  waited hc := by
    have hwaited := h.waited hc
    rw [h.opened hopen] at hwaited
    cases hwaited

theorem Kept.await (h : s.Kept) {ids : List Nat} (hclosing : s.closing = some (id :: ids))
    (hended : s.active id = false) : { s with closing := some ids }.Kept where
  once := h.once
  known := h.known
  unsent := h.unsent
  told := h.told
  guarded := h.guarded
  listed := h.listed
  pending := h.pending
  handled i phase hs hp := by
    refine (h.handled i phase hs hp).imp_right fun ⟨waiting, hwaiting, hi⟩ => ⟨ids, rfl, ?_⟩
    rw [hclosing] at hwaiting
    obtain rfl := Option.some.inj hwaiting
    rcases List.mem_cons.mp hi with rfl | hi
    · rw [LanSession.active, hs, Option.any_some, hp] at hended
      cases hended
    · exact hi
  opened hc := by
    have hnone := h.opened hc
    rw [hclosing] at hnone
    cases hnone
  emptied := h.emptied
  waited hc := by
    have hwaited := h.waited hc
    rw [hclosing] at hwaited
    cases hwaited

theorem Kept.step (h : s.Kept) (event : Event) (he : s.step event = some s') : s'.Kept := by
  cases event with
  | lanSend id =>
    obtain ⟨hfresh, he⟩ := Option.ite_none_right_eq_some.mp he
    obtain rfl := Option.some.inj he
    split
    · exact h
    · next hopen => exact h.started hfresh (by simpa using hopen)
  | panic id =>
    obtain ⟨⟨hactive, -⟩, he⟩ := Option.ite_none_right_eq_some.mp he
    obtain rfl := Option.some.inj he
    obtain ⟨send, hs, -⟩ := (Option.any_eq_true _ _).mp hactive
    exact h.setPhase hs (by simp) (by simp) (by simp [SendPhase.active]) (by simp)
  | result id =>
    obtain ⟨hrun, he⟩ := Option.ite_none_right_eq_some.mp he
    obtain rfl := Option.some.inj he
    obtain ⟨send, hs, hsending⟩ := (Option.any_eq_true _ _).mp hrun
    have hphase : send.phase = .sending := by simpa using (Bool.and_eq_true_iff.mp hsending).1
    have hunsent := h.unsent id send hs (.inl hphase)
    split
    · next hcancelled =>
      exact h.setPhase hs (by simp) (fun _ => .inr hcancelled) (by simp [hphase, SendPhase.active]) (by simp)
    · exact h.setPhase hs (fun _ => hunsent) (by simp) (by simp [hphase, SendPhase.active]) (by simp)
  | emit id =>
    obtain ⟨hrun, he⟩ := Option.ite_none_right_eq_some.mp he
    obtain rfl := Option.some.inj he
    obtain ⟨send, hs, hemitting⟩ := (Option.any_eq_true _ _).mp hrun
    have hphase : send.phase = .emitting := by simpa using (Bool.and_eq_true_iff.mp hemitting).1
    have hunsent := h.unsent id send hs (.inr hphase)
    have honce : (s.sent ++ [id]).Nodup := by
      refine List.nodup_append.mpr ⟨h.once, by simp, fun i hi j hj heq => ?_⟩
      rw [List.mem_singleton.mp hj] at heq
      exact hunsent (heq ▸ hi)
    exact h.moved hs honce (by simp) (by simp) (by simp) (by simp [hphase, SendPhase.active]) (by simp)
  | remove id =>
    obtain ⟨hold, he⟩ := Option.ite_none_right_eq_some.mp he
    obtain rfl := Option.some.inj he
    exact h.remove hold
  | register guard ids =>
    obtain ⟨⟨hguard, hfresh⟩, he⟩ := Option.ite_none_right_eq_some.mp he
    obtain rfl := Option.some.inj he
    split
    · exact h
    · next hopen => exact h.registered hguard hfresh (by simpa using hopen)
  | dropGuard guard contended =>
    obtain ⟨hheld, he⟩ := Option.ite_none_right_eq_some.mp he
    obtain rfl := Option.some.inj he
    split
    · exact h.guardDropped guard
    · exact h.unregister (by rw [hheld]; rfl)
  | cleanup guard =>
    obtain ⟨hdropped, he⟩ := Option.ite_none_right_eq_some.mp he
    obtain rfl := Option.some.inj he
    exact h.unregister (by rw [hdropped]; rfl)
  | cancel =>
    obtain rfl := Option.some.inj he
    exact ⟨h.once, h.known, h.unsent, fun _ _ _ _ => .inr rfl, h.guarded, h.listed, h.pending, h.handled, h.opened,
      fun hc => ⟨rfl, (h.emptied hc).2⟩, h.waited⟩
  | take =>
    obtain ⟨⟨hcancelled, hopen⟩, he⟩ := Option.ite_none_right_eq_some.mp he
    obtain rfl := Option.some.inj he
    exact h.take hcancelled hopen
  | await =>
    rw [LanSession.step] at he
    split at he
    · next id ids hclosing =>
      split at he
      · cases he
      · next hended =>
        obtain rfl := Option.some.inj he
        exact h.await hclosing (by simpa using hended)
    · cases he
  | closeReturns =>
    obtain ⟨hclosing, he⟩ := Option.ite_none_right_eq_some.mp he
    obtain rfl := Option.some.inj he
    exact ⟨h.once, h.known, h.unsent, h.told, h.guarded, h.listed, h.pending, h.handled, h.opened, h.emptied,
      fun _ => hclosing⟩

theorem kept_of_reaches (h : lanSession.Reaches Automaton.free s) : s.Kept :=
  h.invariant kept_start fun _ event _ h _ he => h.step event he

/-- A registry that is closed stays so, and takes no more sends. -/
theorem closed_step (hc : s.registry.closed = true) {event : Event} (he : s.step event = some s') :
    s'.registry.closed = true ∧ ∀ id, s.sends id = none → s'.sends id = none := by
  have hrefuses : s.refuses = true := by rw [refuses, hc, Bool.true_or]
  have hphase : ∀ {id phase}, (s.setPhase id phase).registry.closed = true ∧
      ∀ i, s.sends i = none → (s.setPhase id phase).sends i = none := by
    intro id phase
    refine ⟨hc, fun i hi => ?_⟩
    rcases hs : (s.setPhase id phase).sends i with _ | send
    · rfl
    · rcases setPhase_some hs with ⟨rfl, old, hold, -⟩ | ⟨-, hs⟩
      · rw [hi] at hold
        cases hold
      · rw [hi] at hs
        cases hs
  have hunregister : ∀ {guard}, (s.unregister guard).registry.closed = true ∧
      ∀ i, s.sends i = none → (s.unregister guard).sends i = none := by
    intro guard
    refine ⟨hc, fun i hi => ?_⟩
    rw [unregister]
    simp only [hi, Option.map_none]
  cases event with
  | lanSend id =>
    obtain ⟨-, he⟩ := Option.ite_none_right_eq_some.mp he
    rw [if_pos hrefuses] at he
    exact Option.some.inj he ▸ ⟨hc, fun _ hi => hi⟩
  | register guard ids =>
    obtain ⟨-, he⟩ := Option.ite_none_right_eq_some.mp he
    rw [if_pos hrefuses] at he
    exact Option.some.inj he ▸ ⟨hc, fun _ hi => hi⟩
  | panic id =>
    obtain ⟨-, he⟩ := Option.ite_none_right_eq_some.mp he
    exact Option.some.inj he ▸ hphase
  | result id =>
    obtain ⟨-, he⟩ := Option.ite_none_right_eq_some.mp he
    exact Option.some.inj he ▸ hphase
  | emit id =>
    obtain ⟨-, he⟩ := Option.ite_none_right_eq_some.mp he
    obtain rfl := Option.some.inj he
    exact hphase
  | remove id =>
    obtain ⟨-, he⟩ := Option.ite_none_right_eq_some.mp he
    obtain rfl := Option.some.inj he
    exact hphase
  | dropGuard guard contended =>
    obtain ⟨-, he⟩ := Option.ite_none_right_eq_some.mp he
    obtain rfl := Option.some.inj he
    split
    · exact ⟨hc, fun _ hi => hi⟩
    · exact hunregister
  | cleanup guard =>
    obtain ⟨-, he⟩ := Option.ite_none_right_eq_some.mp he
    exact Option.some.inj he ▸ hunregister
  | cancel => exact Option.some.inj he ▸ ⟨hc, fun _ hi => hi⟩
  | take =>
    obtain ⟨⟨-, hopen⟩, -⟩ := Option.ite_none_right_eq_some.mp he
    rw [hc] at hopen
    cases hopen
  | await =>
    rw [LanSession.step] at he
    split at he
    · split at he
      · cases he
      · exact Option.some.inj he ▸ ⟨hc, fun _ hi => hi⟩
    · cases he
  | closeReturns =>
    obtain ⟨-, he⟩ := Option.ite_none_right_eq_some.mp he
    exact Option.some.inj he ▸ ⟨hc, fun _ hi => hi⟩

theorem closed_run (hc : s.registry.closed = true) {events : List Event}
    (hr : lanSession.runFrom Automaton.free s events = some s') : ∀ id, s.sends id = none → s'.sends id = none := by
  have hstep : ∀ u event u', (u.registry.closed = true ∧ ∀ id, s.sends id = none → u.sends id = none) →
      Automaton.free u event = true → lanSession.step u event = some u' →
        u'.registry.closed = true ∧ ∀ id, s.sends id = none → u'.sends id = none := by
    intro u event u' hu _ he
    obtain ⟨hclosed, hnone⟩ := closed_step hu.1 he
    exact ⟨hclosed, fun id hi => hnone id (hu.2 id hi)⟩
  exact (Automaton.runFrom_invariant hstep ⟨hc, fun _ hi => hi⟩ hr).2

/-- When `close` has returned, no task that it knew of goes on. -/
theorem Kept.finished (h : s.Kept) (hc : s.closed = true) {phase : SendPhase}
    (hs : s.sends id = some ⟨none, phase⟩) : phase.active = false := by
  cases hp : phase.active with
  | false => rfl
  | true =>
    have hclosing := h.waited hc
    have hregistry : s.registry.closed = true := by
      cases hr : s.registry.closed with
      | true => rfl
      | false =>
        rw [h.opened hr] at hclosing
        cases hclosing
    rcases h.handled id phase hs hp with hi | ⟨ids, hids, hi⟩
    · rw [(h.emptied hregistry).2.2] at hi
      cases hi
    · rw [hclosing] at hids
      obtain rfl := Option.some.inj hids
      cases hi

end LanSession

/-- A send that is reported, one that the close finds, and two of a wormhole that is dropped. -/
def farewell : List Event :=
  [.lanSend 1, .register 0 [2, 3], .result 1, .emit 1, .lanSend 4, .result 2, .remove 1, .cancel, .take,
    .dropGuard 0 true, .result 4, .cleanup 0, .remove 4, .await, .await, .closeReturns]

end InkHole.SendTasks
