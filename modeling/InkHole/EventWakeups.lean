import InkHole.Automata
import InkHole.EventQueue
import Mathlib.Algebra.Order.Ring.Nat

/-! Who waits for the queue of events, and who wakes them. An emit and a close change the queue first and
notify after; a pop registers before it looks at the queue. -/

namespace InkHole.EventWakeups

/-- What has come of a registration: it is in the list of those that wait, one notification was meant for
it, all of the list were notified, or it has had its notification. -/
inductive Registration where
  | waiting
  | one
  | all
  | done
  deriving DecidableEq, Repr

/-- Where a pop stands. -/
inductive Popper (Value : Type) where
  | looping
  /-- The counter of the notifications to all is kept when the wait is created. -/
  | created (calls : Nat)
  | enabled (registration : Registration)
  | blocked (registration : Registration)
  | leaving (registration : Registration) (event : Option (ServiceEvent Value))
  | returned (event : Option (ServiceEvent Value))
  | dropped
  deriving DecidableEq

variable {Value : Type}

namespace Popper

def registration : Popper Value → Option Registration
  | .enabled registration => some registration
  | .blocked registration => some registration
  | .leaving registration _ => some registration
  | _ => none

def notify (popper : Popper Value) (registration : Registration) : Popper Value :=
  match popper with
  | .enabled _ => .enabled registration
  | .blocked _ => .blocked registration
  | .leaving _ event => .leaving registration event
  | _ => popper

end Popper

structure State (Value : Type) where
  queue : EventQueue Value
  /-- A notification that nobody has waited for. -/
  permit : Bool
  calls : Nat
  /-- Those who wait and were not notified, the first first. -/
  waiters : List Nat
  poppers : List (Popper Value)
  /-- The emits that have changed the queue and have not notified yet. -/
  emitting : Nat
  closing : Nat

namespace State

def start : State Value := ⟨.new, false, 0, [], [], 0, 0⟩

def put (s : State Value) (caller : Nat) (popper : Popper Value) : State Value :=
  { s with poppers := s.poppers.set caller popper }

def notifyOne (s : State Value) : State Value :=
  match s.waiters with
  | [] => { s with permit := true }
  | waiter :: waiters =>
    { s with waiters, poppers := s.poppers.modify waiter fun popper => popper.notify .one }

def notifyWaiters (s : State Value) : State Value :=
  { s with
    calls := s.calls + 1
    waiters := []
    poppers := s.poppers.mapIdx fun caller popper => if caller ∈ s.waiters then popper.notify .all else popper }

/-- A registration is dropped. A notification that was meant for it alone goes on to another. -/
def unregister (s : State Value) (caller : Nat) : Registration → State Value
  | .waiting => { s with waiters := s.waiters.erase caller }
  | .one => s.notifyOne
  | _ => s

def enable (s : State Value) (caller calls : Nat) : State Value :=
  if s.permit then { s with permit := false }.put caller (.enabled .done)
  else if s.calls ≠ calls then s.put caller (.enabled .done)
  else { s with waiters := s.waiters ++ [caller] }.put caller (.enabled .waiting)

/-- What is done with the lock of the queue. -/
def look (s : State Value) (caller : Nat) (registration : Registration) : State Value :=
  match s.queue.tryPop with
  | (some event, queue) => { s with queue }.put caller (.leaving registration (some event))
  | (none, _) =>
    if s.queue.closed then s.put caller (.leaving registration none) else s.put caller (.blocked registration)

/-- The next step of a pop. -/
def advance (s : State Value) (caller : Nat) : Popper Value → Option (State Value)
  | .looping => some (s.put caller (.created s.calls))
  | .created calls => some (s.enable caller calls)
  | .enabled registration => some (s.look caller registration)
  | .blocked registration => if registration = .waiting then none else some (s.put caller .looping)
  | .leaving registration event => some ((s.put caller (.returned event)).unregister caller registration)
  | .returned _ => none
  | .dropped => none

/-- A pop is dropped while it waits, as when its time has run out. -/
def cancel (s : State Value) (caller : Nat) : Popper Value → Option (State Value)
  | .blocked registration => some ((s.put caller .dropped).unregister caller registration)
  | _ => none

end State

/-- Whether an emit comes to its notification. -/
def notifies [JsonValue Value] (queue : EventQueue Value) (event : ServiceEvent Value) : Bool :=
  if queue.closed then false
  else if snapshotEvent event.event then
    match queue.items.findIdx? fun queued => sameSnapshotStream queued event with
    | some _ => true
    | none =>
      match (if droppableEventCapacity ≤ queue.items.length then
          queue.items.findIdx? fun queued => droppableEvent queued.event else none) with
      | some _ => true
      | none =>
        if maxSnapshotQueueCapacity ≤ queue.items.length then
          (queue.items.findIdx? fun queued => snapshotEvent queued.event).isSome
        else true
  else !(droppableEvent event.event && droppableEventCapacity ≤ queue.items.length)

inductive Event (Value : Type) where
  | pop
  | next (caller : Nat)
  | cancel (caller : Nat)
  | tryPop
  | emit (event : ServiceEvent Value)
  | notify
  | close
  | notifyAll
  | clear

def State.step [JsonValue Value] (s : State Value) : Event Value → Option (State Value)
  | .pop => some { s with poppers := s.poppers ++ [.looping] }
  | .next caller => s.poppers[caller]?.bind (s.advance caller)
  | .cancel caller => s.poppers[caller]?.bind (s.cancel caller)
  | .tryPop => some { s with queue := s.queue.tryPop.2 }
  | .emit event =>
    some { s with
      queue := s.queue.emit event
      emitting := if notifies s.queue event then s.emitting + 1 else s.emitting }
  | .notify => if s.emitting = 0 then none else some { s with emitting := s.emitting - 1 }.notifyOne
  | .close => some { s with queue := s.queue.close, closing := s.closing + 1 }
  | .notifyAll => if s.closing = 0 then none else some { s with closing := s.closing - 1 }.notifyWaiters
  | .clear => some { s with queue := s.queue.clear }

def waits (Value : Type) [JsonValue Value] : Automaton (State Value) (Event Value) where
  start := .start
  step := State.step

/-! The emits that notify. -/

section Emits

variable [JsonValue Value] {queue : EventQueue Value} {event : ServiceEvent Value}

/-- An emit that does not notify has changed nothing. -/
theorem emit_quiet (h : notifies queue event = false) : queue.emit event = queue := by
  unfold notifies at h
  unfold EventQueue.emit
  split at h
  · next hclosed => rw [if_pos hclosed]
  · next hopen =>
    rw [if_neg hopen]
    split at h
    · next hsnapshot =>
      rw [if_pos hsnapshot]
      split at h
      · cases h
      · next hfresh =>
        split at h
        · cases h
        · next hkeep =>
          split at h
          · next hfull =>
            rw [Option.isSome_eq_false_iff, Option.isNone_iff_eq_none] at h
            simp only [hfresh, hkeep, if_pos hfull, h]
          · cases h
    · next hother =>
      rw [Bool.not_eq_false', Bool.and_eq_true, decide_eq_true_eq] at h
      rw [if_neg hother, if_pos h]

theorem length_emits {items later : List (ServiceEvent Value)} (h : EventQueue.Emits items event later) :
    later.length ≤ items.length + 1 := by
  cases h with
  | replaces before old after hsplit => simp [hsplit]
  | evicts before old after hsplit => simp [hsplit]
  | drops => exact Nat.le_succ _
  | queues => simp

theorem length_emit (queue : EventQueue Value) (event : ServiceEvent Value) :
    (queue.emit event).items.length ≤ queue.items.length + 1 := by
  cases hclosed : queue.closed with
  | true => simp [EventQueue.emit, hclosed]
  | false => exact length_emits (EventQueue.emit_emits hclosed event)

end Emits

/-! What a notification carries. -/

/-- Those who will look at the queue before they wait. -/
def Popper.looking : Popper Value → Bool
  | .looping => true
  | .created _ => true
  | .enabled _ => true
  | _ => false

/-- How many events a popper answers for: one that it will look for, and one whose notification it has
and passes on if it leaves. -/
def Popper.answers (popper : Popper Value) : Nat :=
  (if popper.looking then 1 else 0) + (if popper.registration = some .one then 1 else 0)

theorem Popper.answers_notify {popper : Popper Value} (h : popper.registration = some .waiting) :
    (popper.notify .one).answers = popper.answers + 1 := by
  cases popper <;> simp_all [registration, notify, answers, looking]

theorem Popper.registration_notify {popper : Popper Value} {before : Registration}
    (h : popper.registration = some before) (r : Registration) : (popper.notify r).registration = some r := by
  cases popper <;> first | rfl | cases h

section Poppers

variable {poppers : List (Popper Value)} {waiters : List Nat} {caller : Nat} {old new : Popper Value}

def answered (poppers : List (Popper Value)) : Nat := (poppers.map Popper.answers).sum

/-- Somebody waits and was not notified. -/
def Stuck (poppers : List (Popper Value)) : Prop := ∃ caller : Nat, poppers[caller]? = some (.blocked .waiting)

/-- The list of those who wait. -/
structure Registered (waiters : List Nat) (poppers : List (Popper Value)) : Prop where
  nodup : waiters.Nodup
  mem : ∀ caller, caller ∈ waiters ↔ poppers[caller]?.bind Popper.registration = some .waiting

theorem answered_set (h : poppers[caller]? = some old) (new : Popper Value) :
    answered (poppers.set caller new) + old.answers = answered poppers + new.answers := by
  unfold answered
  induction poppers generalizing caller with
  | nil => cases h
  | cons popper poppers ih =>
    cases caller with
    | zero =>
      obtain rfl := Option.some.inj h
      simp only [List.set_cons_zero, List.map_cons, List.sum_cons]
      omega
    | succ caller =>
      have hrest := ih h
      simp only [List.set_cons_succ, List.map_cons, List.sum_cons]
      omega

theorem getElem?_set_popper (h : poppers[caller]? = some old) (c : Nat) :
    (poppers.set caller new)[c]? = if c = caller then some new else poppers[c]? := by
  obtain ⟨hlt, -⟩ := List.getElem?_eq_some_iff.mp h
  rw [List.getElem?_set]
  by_cases hc : caller = c
  · rw [if_pos hc, if_pos (hc ▸ hlt), if_pos hc.symm]
  · rw [if_neg hc, if_neg (Ne.symm hc)]

theorem Stuck.of_set (h : Stuck (poppers.set caller new)) (hc : poppers[caller]? = some old)
    (hnew : new ≠ Popper.blocked .waiting) : Stuck poppers := by
  obtain ⟨c, hstuck⟩ := h
  rw [getElem?_set_popper hc] at hstuck
  split at hstuck
  · exact absurd (Option.some.inj hstuck) hnew
  · exact ⟨c, hstuck⟩

namespace Registered

theorem of_stuck (h : Registered waiters poppers) (hstuck : Stuck poppers) : waiters ≠ [] := by
  obtain ⟨c, hc⟩ := hstuck
  exact List.ne_nil_of_mem ((h.mem c).mpr (by rw [hc]; rfl))

theorem set (h : Registered waiters poppers) (hc : poppers[caller]? = some old)
    (hsame : new.registration = some .waiting ↔ old.registration = some .waiting) :
    Registered waiters (poppers.set caller new) := by
  refine ⟨h.nodup, fun c => ?_⟩
  rw [getElem?_set_popper hc]
  refine (h.mem c).trans ?_
  split
  · next he =>
    rw [he, hc]
    exact hsame.symm
  · rfl

theorem push (h : Registered waiters poppers) (hc : poppers[caller]? = some old)
    (hold : old.registration ≠ some .waiting) (hnew : new.registration = some .waiting) :
    Registered (waiters ++ [caller]) (poppers.set caller new) := by
  have hfresh : caller ∉ waiters := by
    rw [h.mem, hc]
    exact hold
  refine ⟨?_, fun c => ?_⟩
  · refine List.nodup_append.mpr ⟨h.nodup, by simp, fun c hmem d hd => ?_⟩
    rw [List.mem_singleton.mp hd]
    rintro rfl
    exact hfresh hmem
  · rw [getElem?_set_popper hc, List.mem_append, List.mem_singleton]
    split
    · next he => exact iff_of_true (.inr he) hnew
    · next hne => exact (or_iff_left hne).trans (h.mem c)

theorem erase (h : Registered waiters poppers) (hc : poppers[caller]? = some old)
    (hnew : new.registration ≠ some .waiting) : Registered (waiters.erase caller) (poppers.set caller new) := by
  refine ⟨h.nodup.erase caller, fun c => ?_⟩
  rw [h.nodup.mem_erase_iff, getElem?_set_popper hc]
  split
  · next he => exact iff_of_false (fun hmem => hmem.1 he) hnew
  · next hne => exact (and_iff_right hne).trans (h.mem c)

/-- The first of the list is notified. -/
theorem tail {waiter : Nat} (h : Registered (waiter :: waiters) poppers) : ∃ popper, poppers[waiter]? = some popper ∧
    popper.registration = some .waiting ∧ Registered waiters (poppers.set waiter (popper.notify .one)) := by
  obtain ⟨popper, hpopper, hregistration⟩ := Option.bind_eq_some_iff.mp ((h.mem waiter).mp List.mem_cons_self)
  have hone := Popper.registration_notify hregistration .one
  have herase : Registered ((waiter :: waiters).erase waiter) (poppers.set waiter (popper.notify .one)) :=
    h.erase hpopper (by rw [hone]; rintro ⟨⟩)
  rw [List.erase_cons_head] at herase
  exact ⟨popper, hpopper, hregistration, herase⟩

end Registered

end Poppers

/-! Every step keeps this. -/

/-- While somebody waits, each event is answered for by a popper, or by an emit that will notify. After
a close somebody waits only until all are notified. -/
structure Kept (s : State Value) : Prop where
  registered : Registered s.waiters s.poppers
  enough : Stuck s.poppers → s.queue.items.length ≤ s.emitting + answered s.poppers
  closed : s.queue.closed = true → Stuck s.poppers → 0 < s.closing

namespace Kept

variable {s : State Value} {caller : Nat} {old new : Popper Value}

/-- A popper that does not wait after the step, and answers for as much as before. -/
theorem put (h : Kept s) (hc : s.poppers[caller]? = some old)
    (hsame : new.registration = some .waiting ↔ old.registration = some .waiting)
    (hnew : new ≠ .blocked .waiting) (hless : old.answers ≤ new.answers) : Kept (s.put caller new) where
  registered := h.registered.set hc hsame
  enough hstuck := by
    have hold := h.enough (hstuck.of_set hc hnew)
    have hanswered := answered_set hc new
    change s.queue.items.length ≤ s.emitting + answered (s.poppers.set caller new)
    omega
  closed hclosed hstuck := h.closed hclosed (hstuck.of_set hc hnew)

/-- One who passes a notification on answers for it no more, and another does. -/
theorem notifyOne (hr : Registered s.waiters s.poppers) (hn : Stuck s.poppers →
    s.queue.items.length ≤ s.emitting + 1 + answered s.poppers)
    (hclosed : s.queue.closed = true → Stuck s.poppers → 0 < s.closing) : Kept s.notifyOne := by
  unfold State.notifyOne
  split
  · next hw => exact ⟨hr, fun hstuck => absurd hw (hr.of_stuck hstuck), hclosed⟩
  · next waiter waiters hw =>
    rw [hw] at hr
    obtain ⟨popper, hpopper, hregistration, htail⟩ := hr.tail
    have hone := Popper.registration_notify hregistration .one
    have hnew : popper.notify .one ≠ .blocked .waiting := by
      intro he
      rw [he] at hone
      cases hone
    have hset : (s.poppers.modify waiter fun popper => popper.notify .one) =
        s.poppers.set waiter (popper.notify .one) := by
      rw [List.modify_eq_set_getElem?, hpopper]
      rfl
    refine ⟨hset ▸ htail, fun hstuck => ?_, fun hc hstuck => ?_⟩
    · change Stuck (s.poppers.modify waiter _) at hstuck
      rw [hset] at hstuck
      have hold := hn (hstuck.of_set hpopper hnew)
      have hanswered := answered_set hpopper (popper.notify .one)
      rw [Popper.answers_notify hregistration] at hanswered
      change s.queue.items.length ≤ s.emitting + answered (s.poppers.modify waiter _)
      rw [hset]
      omega
    · change Stuck (s.poppers.modify waiter _) at hstuck
      rw [hset] at hstuck
      exact hclosed hc (hstuck.of_set hpopper hnew)

theorem notifyWaiters (h : Registered s.waiters s.poppers) : Kept s.notifyWaiters := by
  have hnone : ∀ c : Nat, s.notifyWaiters.poppers[c]?.bind Popper.registration ≠ some .waiting := by
    intro c hc
    rw [State.notifyWaiters, List.getElem?_mapIdx] at hc
    obtain ⟨popper, hpopper, hregistration⟩ := Option.bind_eq_some_iff.mp hc
    obtain ⟨old, hold, rfl⟩ := Option.map_eq_some_iff.mp hpopper
    have hmem := h.mem c
    rw [hold, Option.bind_some] at hmem
    split at hregistration
    · next hc =>
      rw [Popper.registration_notify (hmem.mp hc)] at hregistration
      cases hregistration
    · next hc => exact hc (hmem.mpr hregistration)
  have hfree : ¬ Stuck s.notifyWaiters.poppers := by
    rintro ⟨c, hc⟩
    exact hnone c (by rw [hc]; rfl)
  exact ⟨⟨List.nodup_nil, fun c => iff_of_false List.not_mem_nil (hnone c)⟩, fun hstuck => absurd hstuck hfree,
    fun _ hstuck => absurd hstuck hfree⟩

theorem enable (h : Kept s) {calls : Nat} (hc : s.poppers[caller]? = some (.created calls)) :
    Kept (s.enable caller calls) := by
  have hdone : Kept (s.put caller (.enabled .done)) :=
    h.put hc (iff_of_false (by rintro ⟨⟩) (by rintro ⟨⟩)) (by rintro ⟨⟩) (Nat.le_refl _)
  unfold State.enable
  split
  · exact ⟨hdone.registered, hdone.enough, hdone.closed⟩
  · split
    · exact hdone
    · have hnew : Popper.enabled .waiting ≠ (.blocked .waiting : Popper Value) := by rintro ⟨⟩
      refine ⟨h.registered.push hc (by rintro ⟨⟩) rfl, fun hstuck => ?_, fun hclosed hstuck => ?_⟩
      · have hold := h.enough (hstuck.of_set hc hnew)
        have hanswered := answered_set hc (.enabled .waiting)
        have hsame : (Popper.created calls : Popper Value).answers = (Popper.enabled .waiting : Popper Value).answers := rfl
        change s.queue.items.length ≤ s.emitting + answered (s.poppers.set caller _)
        omega
      · exact h.closed hclosed (hstuck.of_set hc hnew)

theorem look (h : Kept s) {registration : Registration} (hc : s.poppers[caller]? = some (.enabled registration)) :
    Kept (s.look caller registration) := by
  have hleaving {event : Option (ServiceEvent Value)} :
      Popper.leaving registration event ≠ .blocked .waiting := by rintro ⟨⟩
  have hregistered {event : Option (ServiceEvent Value)} :
      Registered s.waiters (s.poppers.set caller (.leaving registration event)) := h.registered.set hc Iff.rfl
  unfold State.look EventQueue.tryPop
  cases hitems : s.queue.items with
  | nil =>
    have hempty (poppers : List (Popper Value)) : s.queue.items.length ≤ s.emitting + answered poppers := by
      rw [hitems]
      exact Nat.zero_le _
    dsimp only
    split
    · exact ⟨hregistered, fun _ => hempty _, fun hclosed hstuck => h.closed hclosed (hstuck.of_set hc hleaving)⟩
    · next hopen => exact ⟨h.registered.set hc Iff.rfl, fun _ => hempty _, fun hclosed => absurd hclosed hopen⟩
  | cons event items =>
    refine ⟨hregistered, fun hstuck => ?_, fun hclosed hstuck => h.closed hclosed (hstuck.of_set hc hleaving)⟩
    have hold := h.enough (hstuck.of_set hc hleaving)
    have hanswered := answered_set hc (.leaving registration (some event))
    have hone : (Popper.enabled registration : Popper Value).answers =
        (Popper.leaving registration (some event)).answers + 1 := by
      simp [Popper.answers, Popper.looking, Popper.registration, Nat.add_comm]
    rw [hitems, List.length_cons] at hold
    change items.length ≤ s.emitting + answered (s.poppers.set caller _)
    omega

/-- The registration of a popper that goes away is dropped. -/
theorem unregister (h : Kept s) {registration : Registration} (hc : s.poppers[caller]? = some old)
    (hold : old.registration = some registration) (hlooking : old.looking = false)
    (hnew : new.registration = none) (hgone : new.looking = false) :
    Kept ((s.put caller new).unregister caller registration) := by
  have hne : new ≠ .blocked .waiting := by
    rintro rfl
    cases hnew
  have hanswered := answered_set hc new
  have hnone : new.answers = 0 := by simp [Popper.answers, hnew, hgone]
  have hanswers : old.answers = if registration = .one then 1 else 0 := by simp [Popper.answers, hold, hlooking]
  have hclosed : s.queue.closed = true → Stuck (s.poppers.set caller new) → 0 < s.closing :=
    fun hclosed hstuck => h.closed hclosed (hstuck.of_set hc hne)
  have hother (hr : registration ≠ .waiting) (hr' : registration ≠ .one) : Kept (s.put caller new) := by
    refine h.put hc (iff_of_false ?_ ?_) hne ?_
    · rw [hnew]
      rintro ⟨⟩
    · rw [hold]
      exact fun he => hr (Option.some.inj he)
    · rw [hanswers, if_neg hr']
      exact Nat.zero_le _
  cases registration with
  | waiting =>
    refine ⟨h.registered.erase hc (by rw [hnew]; rintro ⟨⟩), fun hstuck => ?_, hclosed⟩
    have henough := h.enough (hstuck.of_set hc hne)
    rw [if_neg (by rintro ⟨⟩)] at hanswers
    change s.queue.items.length ≤ s.emitting + answered (s.poppers.set caller new)
    omega
  | one =>
    refine Kept.notifyOne (h.registered.set hc (iff_of_false ?_ ?_)) (fun hstuck => ?_) hclosed
    · rw [hnew]
      rintro ⟨⟩
    · rw [hold]
      rintro ⟨⟩
    · have henough := h.enough (hstuck.of_set hc hne)
      rw [if_pos rfl] at hanswers
      change s.queue.items.length ≤ s.emitting + 1 + answered (s.poppers.set caller new)
      omega
  | all => exact hother (by rintro ⟨⟩) (by rintro ⟨⟩)
  | done => exact hother (by rintro ⟨⟩) (by rintro ⟨⟩)

theorem advance {s' : State Value} (h : Kept s) {popper : Popper Value} (hc : s.poppers[caller]? = some popper)
    (hs : s.advance caller popper = some s') : Kept s' := by
  cases popper with
  | looping =>
    obtain rfl := Option.some.inj hs
    exact h.put hc Iff.rfl (by rintro ⟨⟩) (Nat.le_refl _)
  | created calls =>
    obtain rfl := Option.some.inj hs
    exact h.enable hc
  | enabled registration =>
    obtain rfl := Option.some.inj hs
    exact h.look hc
  | blocked registration =>
    rw [State.advance] at hs
    split at hs
    · cases hs
    · next hr =>
      obtain rfl := Option.some.inj hs
      refine h.put hc (iff_of_false (by rintro ⟨⟩) fun he => hr (Option.some.inj he)) (by rintro ⟨⟩) ?_
      cases registration <;> simp [Popper.answers, Popper.looking, Popper.registration]
  | leaving registration event =>
    obtain rfl := Option.some.inj hs
    exact h.unregister hc rfl rfl rfl rfl
  | returned event => cases hs
  | dropped => cases hs

theorem cancel {s' : State Value} (h : Kept s) {popper : Popper Value} (hc : s.poppers[caller]? = some popper)
    (hs : s.cancel caller popper = some s') : Kept s' := by
  cases popper with
  | blocked registration =>
    obtain rfl := Option.some.inj hs
    exact h.unregister hc rfl rfl rfl rfl
  | _ => cases hs

theorem pop (h : Kept s) : Kept { s with poppers := s.poppers ++ [.looping] } := by
  have hget (c : Nat) : (s.poppers ++ [.looping])[c]?.bind Popper.registration =
      s.poppers[c]?.bind Popper.registration := by
    rw [List.getElem?_append]
    split
    · rfl
    · next hge =>
      rw [List.getElem?_eq_none (l := s.poppers) (by omega)]
      cases hl : ([.looping] : List (Popper Value))[c - s.poppers.length]? with
      | none => rfl
      | some popper =>
        rw [List.mem_singleton.mp (List.mem_of_getElem? hl)]
        rfl
  have hstuck (h' : Stuck (s.poppers ++ [.looping])) : Stuck s.poppers := by
    obtain ⟨c, hc⟩ := h'
    rw [List.getElem?_append] at hc
    split at hc
    · exact ⟨c, hc⟩
    · cases List.mem_singleton.mp (List.mem_of_getElem? hc)
  refine ⟨⟨h.registered.nodup, fun c => (h.registered.mem c).trans (by rw [hget])⟩, fun h' => ?_, fun hc h' =>
    h.closed hc (hstuck h')⟩
  have hold := h.enough (hstuck h')
  have hanswered : answered (s.poppers ++ [.looping]) = answered s.poppers + 1 := by
    simp [answered, Popper.answers, Popper.looking, Popper.registration]
  change s.queue.items.length ≤ s.emitting + answered (s.poppers ++ [.looping])
  omega

/-- A queue that becomes no longer. -/
theorem shrink (h : Kept s) {queue : EventQueue Value} (hlength : queue.items.length ≤ s.queue.items.length)
    (hclosed : queue.closed = s.queue.closed) : Kept { s with queue } :=
  ⟨h.registered, fun hstuck => Nat.le_trans hlength (h.enough hstuck), fun hc => h.closed (hclosed ▸ hc)⟩

variable [JsonValue Value]

theorem step {e : Event Value} {s' : State Value} (h : Kept s) (hs : s.step e = some s') : Kept s' := by
  cases e with
  | pop =>
    obtain rfl := Option.some.inj hs
    exact h.pop
  | next caller =>
    obtain ⟨popper, hc, hs⟩ := Option.bind_eq_some_iff.mp hs
    exact h.advance hc hs
  | cancel caller =>
    obtain ⟨popper, hc, hs⟩ := Option.bind_eq_some_iff.mp hs
    exact h.cancel hc hs
  | tryPop =>
    obtain rfl := Option.some.inj hs
    refine h.shrink ?_ (EventQueue.tryPop_closed _)
    have hitems := congrArg List.length s.queue.tryPop_items
    rw [List.length_append] at hitems
    omega
  | emit event =>
    obtain rfl := Option.some.inj hs
    cases hquiet : notifies s.queue event with
    | false =>
      rw [emit_quiet hquiet]
      exact h
    | true =>
      refine ⟨h.registered, fun hstuck => ?_, fun hc => h.closed (QueueRun.emit_closed s.queue event ▸ hc)⟩
      have hold := h.enough hstuck
      have hlength := length_emit s.queue event
      change (s.queue.emit event).items.length ≤ s.emitting + 1 + answered s.poppers
      omega
  | notify =>
    rw [State.step] at hs
    split at hs
    · cases hs
    · next hemitting =>
      obtain rfl := Option.some.inj hs
      refine Kept.notifyOne h.registered (fun hstuck => ?_) h.closed
      have hold := h.enough hstuck
      change s.queue.items.length ≤ s.emitting - 1 + 1 + answered s.poppers
      omega
  | close =>
    obtain rfl := Option.some.inj hs
    exact ⟨h.registered, h.enough, fun _ _ => Nat.succ_pos _⟩
  | notifyAll =>
    rw [State.step] at hs
    split at hs
    · cases hs
    · obtain rfl := Option.some.inj hs
      exact Kept.notifyWaiters h.registered
  | clear =>
    obtain rfl := Option.some.inj hs
    exact h.shrink (Nat.zero_le _) rfl

end Kept

theorem kept_reached [JsonValue Value] {s : State Value} (h : (waits Value).Reaches Automaton.free s) : Kept s := by
  refine h.invariant ⟨⟨List.nodup_nil, fun c => ?_⟩, ?_, ?_⟩ fun _ _ _ h _ hs => h.step hs
  all_goals simp [waits, State.start, Stuck, EventQueue.new]

/-- A popper that will look at the queue, or has a notification that it passes on if it does not. -/
def Popper.awake (popper : Popper Value) : Bool := popper.looking || popper.registration == some .one

/-- Whatever is emitted, closed, popped and dropped, and in whatever order: while somebody waits and was
not notified, an event in the queue has a popper that is awake or an emit that has still to notify, and
a queue that is closed has a close that has still to notify all. -/
theorem no_lost_wakeup [JsonValue Value] {s : State Value} (h : (waits Value).Reaches Automaton.free s)
    (hstuck : Stuck s.poppers) :
    (s.queue.items ≠ [] → 0 < s.emitting ∨ ∃ popper ∈ s.poppers, popper.awake = true) ∧
    (s.queue.closed = true → 0 < s.closing) := by
  have hk := kept_reached h
  refine ⟨fun hitems => ?_, fun hclosed => hk.closed hclosed hstuck⟩
  have henough := hk.enough hstuck
  have hpos := List.length_pos_iff.mpr hitems
  rcases Nat.eq_zero_or_pos s.emitting with hnone | hsome
  · have hanswered : 0 < answered s.poppers := by omega
    obtain ⟨n, hn, hn0⟩ := List.sum_pos_iff_exists_pos_nat.mp hanswered
    obtain ⟨popper, hpopper, rfl⟩ := List.mem_map.mp hn
    refine .inr ⟨popper, hpopper, ?_⟩
    by_contra hasleep
    simp_all [Popper.awake, Popper.answers]
  · exact .inl hsome

/-- Two wait and one of them was notified. -/
theorem no_lost_wakeup_two : ∃ s : State Sample.EventData, s.poppers = [.blocked .one, .blocked .waiting] ∧
    (s.queue.items ≠ [] → 0 < s.emitting ∨ ∃ popper ∈ s.poppers, popper.awake = true) := by
  let events : List (Event Sample.EventData) := [.pop, .next 0, .next 0, .next 0, .pop, .next 1, .next 1, .next 1,
    .emit ⟨"lan.received", .null⟩, .notify]
  have hrun : ((waits Sample.EventData).runFrom Automaton.free .start events).map State.poppers =
      some [.blocked .one, .blocked .waiting] := by decide +kernel
  obtain ⟨s, hs, hpoppers⟩ := Option.map_eq_some_iff.mp hrun
  exact ⟨s, hpoppers, (no_lost_wakeup ⟨events, hs⟩ ⟨1, by rw [hpoppers]; rfl⟩).1⟩

end InkHole.EventWakeups
