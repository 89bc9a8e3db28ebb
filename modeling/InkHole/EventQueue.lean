import Mathlib.Data.List.Basic
import Mathlib.Data.List.Count
import Mathlib.Data.List.Induction

/-! The queue of events between the service and its one consumer. Progress and status may be
dropped, a list of peers may be replaced by a newer one, every other event is critical. -/

namespace InkHole

section FirstIndex

variable {α : Type} {p : α → Bool} {items : List α} {i : Nat}

theorem split_of_findIdx? (h : items.findIdx? p = some i) : ∃ before old after,
    items = before ++ old :: after ∧ p old = true ∧ items.eraseIdx i = before ++ after ∧
      ∀ x, items.set i x = before ++ x :: after := by
  obtain ⟨hi, hp, _⟩ := List.findIdx?_eq_some_iff_getElem.mp h
  have hsplit : items = items.take i ++ items[i] :: items.drop (i + 1) := by simp
  have hlength : (items.take i).length = i := by simp only [List.length_take]; omega
  refine ⟨items.take i, items[i], items.drop (i + 1), hsplit, hp, ?_, fun x => ?_⟩
  · rw [List.eraseIdx_eq_take_drop_succ]
  · rw [List.set_eq_take_append_cons_drop, if_pos hi]

theorem none_of_findIdx? (h : items.findIdx? p = none) (x : α) (hx : x ∈ items) : p x = false := by
  simpa using List.findIdx?_eq_none_iff.mp h x hx

end FirstIndex

/-- What the queue uses of a JSON value. -/
class JsonValue (Value : Type) extends BEq Value where
  index : Value → String → Value

structure ServiceEvent (Value : Type) where
  event : String
  data : Value
deriving DecidableEq

def droppableEventCapacity : Nat := 128
def maxSnapshotQueueCapacity : Nat := droppableEventCapacity * 8

def droppableEvent (name : String) : Bool := name == "lan.progress" || name == "lan.status"
def snapshotEvent (name : String) : Bool := name == "lan.peers"

theorem not_droppable_of_snapshot {name : String} (h : snapshotEvent name = true) :
    droppableEvent name = false := by
  have hname : name = "lan.peers" := by simpa [snapshotEvent] using h
  subst hname
  decide

/-- Events other than these reach the consumer, all of them and in order. -/
def criticalEvent (name : String) : Bool := !droppableEvent name && !snapshotEvent name

variable {Value : Type}

def criticals (events : List (ServiceEvent Value)) : List (ServiceEvent Value) :=
  events.filter fun queued => criticalEvent queued.event

@[simp] theorem criticals_append (first second : List (ServiceEvent Value)) :
    criticals (first ++ second) = criticals first ++ criticals second := by
  simp [criticals]

structure EventQueue (Value : Type) where
  items : List (ServiceEvent Value)
  closed : Bool

namespace EventQueue

def new : EventQueue Value := ⟨[], false⟩

/-- A timed `pop` that waits takes the first event as well, or nothing. -/
def tryPop (queue : EventQueue Value) : Option (ServiceEvent Value) × EventQueue Value :=
  match queue.items with
  | [] => (none, queue)
  | event :: items => (some event, { queue with items })

def clear (queue : EventQueue Value) : EventQueue Value := { queue with items := [] }

def close (queue : EventQueue Value) : EventQueue Value := { queue with closed := true }

theorem tryPop_items (queue : EventQueue Value) :
    queue.items = queue.tryPop.1.toList ++ queue.tryPop.2.items := by
  unfold tryPop
  cases h : queue.items
  · simp [h]
  · simp

@[simp] theorem tryPop_closed (queue : EventQueue Value) : queue.tryPop.2.closed = queue.closed := by
  unfold tryPop
  split <;> rfl

end EventQueue

variable [JsonValue Value]

def sameSnapshotStream (left right : ServiceEvent Value) : Bool :=
  left.event == right.event &&
    JsonValue.index left.data "session_id" == JsonValue.index right.data "session_id"

namespace EventQueue

def emit (queue : EventQueue Value) (event : ServiceEvent Value) : EventQueue Value :=
  if queue.closed then queue
  else if snapshotEvent event.event then
    match queue.items.findIdx? fun queued => sameSnapshotStream queued event with
    | some index => { queue with items := queue.items.set index event }
    | none =>
      match (if droppableEventCapacity ≤ queue.items.length then
          queue.items.findIdx? fun queued => droppableEvent queued.event else none) with
      | some index => { queue with items := queue.items.eraseIdx index ++ [event] }
      | none =>
        if maxSnapshotQueueCapacity ≤ queue.items.length then
          match queue.items.findIdx? fun queued => snapshotEvent queued.event with
          | some index => { queue with items := queue.items.eraseIdx index ++ [event] }
          | none => queue
        else { queue with items := queue.items ++ [event] }
  else if droppableEvent event.event ∧ droppableEventCapacity ≤ queue.items.length then queue
  else { queue with items := queue.items ++ [event] }

/-- Whether an event is a snapshot of the stream of this name and session. -/
def ofStream (name : String) (session : Value) (event : ServiceEvent Value) : Bool :=
  snapshotEvent event.event && event.event == name &&
    JsonValue.index event.data "session_id" == session

/-- What an open queue does with an event. -/
inductive Emits (items : List (ServiceEvent Value)) (event : ServiceEvent Value) :
    List (ServiceEvent Value) → Prop where
  | replaces (before : List (ServiceEvent Value)) (old : ServiceEvent Value)
      (after : List (ServiceEvent Value)) : items = before ++ old :: after →
      snapshotEvent event.event = true → sameSnapshotStream old event = true →
      Emits items event (before ++ event :: after)
  | evicts (before : List (ServiceEvent Value)) (old : ServiceEvent Value)
      (after : List (ServiceEvent Value)) : items = before ++ old :: after →
      snapshotEvent event.event = true →
      (∀ queued ∈ items, sameSnapshotStream queued event = false) →
      criticalEvent old.event = false →
      Emits items event (before ++ after ++ [event])
  | drops : criticalEvent event.event = false → Emits items event items
  | queues : (snapshotEvent event.event = true →
        (∀ queued ∈ items, sameSnapshotStream queued event = false) ∧
          items.length < maxSnapshotQueueCapacity) →
      (droppableEvent event.event = true → items.length < droppableEventCapacity) →
      Emits items event (items ++ [event])

theorem emit_emits {queue : EventQueue Value} (hopen : queue.closed = false)
    (event : ServiceEvent Value) : Emits queue.items event (queue.emit event).items := by
  unfold emit
  rw [if_neg (by simp [hopen])]
  by_cases hsnapshot : snapshotEvent event.event = true
  · rw [if_pos hsnapshot]
    have hdroppable := not_droppable_of_snapshot hsnapshot
    split
    case h_1 index hsame =>
      obtain ⟨before, old, after, hitems, hold, _, hset⟩ := split_of_findIdx? hsame
      exact hset event ▸ .replaces before old after hitems hsnapshot hold
    case h_2 hsame =>
      have hnone := none_of_findIdx? hsame
      split
      case h_1 index hfirst =>
        split at hfirst
        · obtain ⟨before, old, after, hitems, hold, herase, _⟩ := split_of_findIdx? hfirst
          exact herase ▸ .evicts before old after hitems hsnapshot hnone (by simp [criticalEvent, hold])
        · cases hfirst
      case h_2 =>
        split
        · split
          case h_1 index hfirst =>
            obtain ⟨before, old, after, hitems, hold, herase, _⟩ := split_of_findIdx? hfirst
            exact herase ▸ .evicts before old after hitems hsnapshot hnone (by simp [criticalEvent, hold])
          case h_2 => exact .drops (by simp [criticalEvent, hsnapshot])
        case isFalse hroom =>
          exact .queues (fun _ => ⟨hnone, by omega⟩) (by simp [hdroppable])
  · rw [if_neg hsnapshot]
    split
    case isTrue hfull => exact .drops (by simp [criticalEvent, hfull.1])
    case isFalse hroom =>
      refine .queues (fun h => absurd h hsnapshot) fun hdroppable => ?_
      by_contra hfull
      exact hroom ⟨hdroppable, by omega⟩

/-- What holds of the queued events whatever the consumer does. -/
structure Bounded (items : List (ServiceEvent Value)) : Prop where
  streams (name : String) (session : Value) : items.countP (ofStream name session) ≤ 1
  droppable : items.countP (fun queued => droppableEvent queued.event) ≤ droppableEventCapacity
  snapshots : items.countP (fun queued => !criticalEvent queued.event) ≤ maxSnapshotQueueCapacity

theorem Bounded.sublist {items fewer : List (ServiceEvent Value)} (h : Bounded items)
    (hsub : fewer.Sublist items) : Bounded fewer where
  streams name session := Nat.le_trans hsub.countP_le (h.streams name session)
  droppable := Nat.le_trans hsub.countP_le h.droppable
  snapshots := Nat.le_trans hsub.countP_le h.snapshots

theorem bounded_nil : Bounded ([] : List (ServiceEvent Value)) := ⟨by simp, by simp, by simp⟩

theorem event_eq_of_same {left right : ServiceEvent Value} (h : sameSnapshotStream left right = true) :
    left.event = right.event := by
  simp only [sameSnapshotStream, Bool.and_eq_true, beq_iff_eq] at h
  exact h.1

theorem Emits.criticals_eq {items later : List (ServiceEvent Value)} {event : ServiceEvent Value}
    (h : Emits items event later) : criticals later = criticals items ++ criticals [event] := by
  cases h with
  | replaces before old after hitems hsnapshot hsame =>
    have hevent : criticalEvent event.event = false := by simp [criticalEvent, hsnapshot]
    have hold : criticalEvent old.event = false := by rw [event_eq_of_same hsame]; exact hevent
    simp [criticals, hitems, hevent, hold]
  | evicts before old after hitems hsnapshot hnone hold =>
    have hevent : criticalEvent event.event = false := by simp [criticalEvent, hsnapshot]
    simp [criticals, hitems, hevent, hold]
  | drops hevent => simp [criticals, hevent]
  | queues => exact criticals_append items [event]

section Streams

variable [EquivBEq Value]

theorem same_of_ofStream {name : String} {session : Value} {left right : ServiceEvent Value}
    (hleft : ofStream name session left = true) (hright : ofStream name session right = true) :
    sameSnapshotStream left right = true := by
  simp only [ofStream, Bool.and_eq_true, beq_iff_eq] at hleft hright
  simp only [sameSnapshotStream, Bool.and_eq_true, beq_iff_eq]
  exact ⟨hleft.1.2.trans hright.1.2.symm, PartialEquivBEq.trans hleft.2 (BEq.symm hright.2)⟩

theorem ofStream_eq_of_same {left right : ServiceEvent Value}
    (h : sameSnapshotStream left right = true) (name : String) (session : Value) :
    ofStream name session left = ofStream name session right := by
  have hevent := event_eq_of_same h
  simp only [sameSnapshotStream, Bool.and_eq_true] at h
  simp only [ofStream, hevent, BEq.congr_left h.2]

theorem Bounded.push {items : List (ServiceEvent Value)} {event : ServiceEvent Value}
    (h : Bounded items)
    (hnone : snapshotEvent event.event = true →
      ∀ queued ∈ items, sameSnapshotStream queued event = false)
    (hdroppable : droppableEvent event.event = true →
      items.countP (fun queued => droppableEvent queued.event) < droppableEventCapacity)
    (hsnapshots : criticalEvent event.event = false →
      items.countP (fun queued => !criticalEvent queued.event) < maxSnapshotQueueCapacity) :
    Bounded (items ++ [event]) := by
  refine ⟨fun name session => ?_, ?_, ?_⟩
  · have hstreams := h.streams name session
    rw [List.countP_append, List.countP_singleton]
    split
    case isTrue hevent =>
      -- a second snapshot of the stream would have been replaced
      have hsnapshot : snapshotEvent event.event = true := by
        simp only [ofStream, Bool.and_eq_true] at hevent
        exact hevent.1.1
      have hzero : items.countP (ofStream name session) = 0 := by
        rw [List.countP_eq_zero]
        intro queued hqueued hstream
        have hsame := same_of_ofStream hstream hevent
        rw [hnone hsnapshot queued hqueued] at hsame
        cases hsame
      omega
    case isFalse => omega
  · have hcount := h.droppable
    rw [List.countP_append, List.countP_singleton]
    split
    case isTrue hevent => have := hdroppable hevent; omega
    case isFalse => omega
  · have hcount := h.snapshots
    rw [List.countP_append, List.countP_singleton]
    split
    case isTrue hevent => have := hsnapshots (by simpa using hevent); omega
    case isFalse => omega

theorem Emits.bounded {items later : List (ServiceEvent Value)} {event : ServiceEvent Value}
    (h : Emits items event later) (hitems : Bounded items) : Bounded later := by
  cases h with
  | replaces before old after hsplit hsnapshot hsame =>
    subst hsplit
    have hevent := event_eq_of_same hsame
    refine ⟨fun name session => ?_, ?_, ?_⟩
    · have hcount := hitems.streams name session
      have hstream := ofStream_eq_of_same hsame name session
      simpa only [List.countP_append, List.countP_cons, hstream] using hcount
    · simpa only [List.countP_append, List.countP_cons, hevent] using hitems.droppable
    · simpa only [List.countP_append, List.countP_cons, hevent] using hitems.snapshots
  | evicts before old after hsplit hsnapshot hnone hold =>
    subst hsplit
    have hsub : (before ++ after).Sublist (before ++ old :: after) := by simp
    -- the event evicted made room for the new one
    have hroom : (before ++ after).countP (fun queued => !criticalEvent queued.event) <
        maxSnapshotQueueCapacity := by
      have hcount := hitems.snapshots
      simp only [List.countP_append, List.countP_cons, hold] at hcount ⊢
      simp only [Bool.not_false, if_true] at hcount
      omega
    refine (hitems.sublist hsub).push (fun _ queued hqueued => hnone queued (hsub.subset hqueued))
      (fun hdroppable => ?_) (fun _ => hroom)
    rw [not_droppable_of_snapshot hsnapshot] at hdroppable
    cases hdroppable
  | drops => exact hitems
  | queues hsnapshot hdroppable =>
    have hle (p : ServiceEvent Value → Bool) : items.countP p ≤ items.length := List.countP_le_length
    refine hitems.push (fun h => (hsnapshot h).1) (fun h => ?_) fun hcritical => ?_
    · have := hdroppable h
      have := hle fun queued => droppableEvent queued.event
      omega
    · have := hle fun queued => !criticalEvent queued.event
      have hcapacity : droppableEventCapacity ≤ maxSnapshotQueueCapacity := by decide
      by_cases h : snapshotEvent event.event = true
      · have := (hsnapshot h).2
        omega
      · have := hdroppable (by simpa [criticalEvent, h] using hcritical)
        omega

end Streams

end EventQueue

inductive QueueStep (Value : Type) where
  | emit (event : ServiceEvent Value)
  | pop
  | close
  | clear
deriving DecidableEq

/-- A queue with what was emitted to it and what was popped from it so far. -/
structure QueueRun (Value : Type) where
  queue : EventQueue Value
  emitted : List (ServiceEvent Value)
  popped : List (ServiceEvent Value)

namespace QueueRun

open EventQueue

def step (run : QueueRun Value) : QueueStep Value → QueueRun Value
  | .emit event => { run with queue := run.queue.emit event, emitted := run.emitted ++ [event] }
  | .pop => { run with queue := run.queue.tryPop.2, popped := run.popped ++ run.queue.tryPop.1.toList }
  | .close => { run with queue := run.queue.close }
  | .clear => { run with queue := run.queue.clear }

def start : QueueRun Value := ⟨.new, [], []⟩

def after (steps : List (QueueStep Value)) : QueueRun Value := steps.foldl step start

theorem after_concat (steps : List (QueueStep Value)) (s : QueueStep Value) :
    after (steps ++ [s]) = (after steps).step s := by
  simp [after]

@[simp] theorem emit_closed (queue : EventQueue Value) (event : ServiceEvent Value) :
    (queue.emit event).closed = queue.closed := by
  unfold EventQueue.emit
  repeat' split
  all_goals rfl

theorem emit_of_closed {queue : EventQueue Value} (h : queue.closed = true)
    (event : ServiceEvent Value) : queue.emit event = queue := by
  simp [EventQueue.emit, h]

/-- Nothing critical is lost or out of order. -/
def Lossless (run : QueueRun Value) : Prop :=
  criticals run.popped ++ criticals run.queue.items = criticals run.emitted

theorem step_lossless {run : QueueRun Value} (hopen : run.queue.closed = false)
    (h : run.Lossless) {s : QueueStep Value} (hclear : s ≠ .clear) : (run.step s).Lossless := by
  cases s with
  | emit event =>
    have hemits := (emit_emits hopen event).criticals_eq
    simp only [Lossless, step, criticals_append, hemits, ← List.append_assoc]
    rw [h]
  | pop =>
    rw [Lossless, tryPop_items run.queue] at h
    simpa only [Lossless, step, criticals_append, List.append_assoc] using h
  | close => exact h
  | clear => exact absurd rfl hclear

theorem after_open (steps : List (QueueStep Value)) (hclose : .close ∉ steps) :
    (after steps).queue.closed = false := by
  induction steps using List.reverseRecOn with
  | nil => rfl
  | append_singleton steps s ih =>
    rw [List.mem_append, not_or] at hclose
    have hbefore := ih hclose.1
    rw [after_concat]
    cases s with
    | emit event => simpa [step] using hbefore
    | pop => simpa [step] using hbefore
    | close => exact absurd (List.mem_singleton_self _) hclose.2
    | clear => exact hbefore

theorem after_lossless (steps : List (QueueStep Value)) (hclose : .close ∉ steps)
    (hclear : .clear ∉ steps) : (after steps).Lossless := by
  induction steps using List.reverseRecOn with
  | nil => rfl
  | append_singleton steps s ih =>
    rw [List.mem_append, not_or] at hclose hclear
    have hne : s ≠ .clear := fun h => hclear.2 (h ▸ List.mem_singleton_self _)
    rw [after_concat]
    exact step_lossless (after_open steps hclose.1) (ih hclose.1 hclear.1) hne

section Bounds

variable [EquivBEq Value]

theorem step_bounded {run : QueueRun Value} (h : Bounded run.queue.items) (s : QueueStep Value) :
    Bounded (run.step s).queue.items := by
  cases s with
  | emit event =>
    rcases hclosed : run.queue.closed with _ | _
    · exact (emit_emits hclosed event).bounded h
    · simpa only [step, emit_of_closed hclosed] using h
  | pop =>
    rw [tryPop_items run.queue] at h
    exact h.sublist (List.sublist_append_right _ _)
  | close => exact h
  | clear => exact bounded_nil

theorem after_bounded (steps : List (QueueStep Value)) : Bounded (after steps).queue.items := by
  induction steps using List.reverseRecOn with
  | nil => exact bounded_nil
  | append_singleton steps s ih => rw [after_concat]; exact step_bounded ih s

/-- The queue keeps every critical event until it is closed or cleared, and it holds few others. -/
theorem queue_keeps_critical (steps : List (QueueStep Value)) :
    (.close ∉ steps → .clear ∉ steps →
      criticals (after steps).popped ++ criticals (after steps).queue.items =
        criticals (after steps).emitted) ∧
    (∀ name session, (after steps).queue.items.countP (ofStream name session) ≤ 1) ∧
    (after steps).queue.items.countP (fun queued => droppableEvent queued.event) ≤
      droppableEventCapacity ∧
    (after steps).queue.items.countP (fun queued => !criticalEvent queued.event) ≤
      maxSnapshotQueueCapacity := by
  have hbounded := after_bounded steps
  exact ⟨after_lossless steps, hbounded.streams, hbounded.droppable, hbounded.snapshots⟩

end Bounds

end QueueRun

namespace Sample

/-- The JSON values of the sample: null, texts, and lists of peers with their session. -/
inductive EventData where
  | null
  | text (value : String)
  | peers (sessionId : String)
deriving DecidableEq

instance : JsonValue EventData where
  index
    | .peers sessionId, "session_id" => .text sessionId
    | _, _ => .null

def queueSteps : List (QueueStep EventData) :=
  [.emit ⟨"lan.peers", .peers "a"⟩, .emit ⟨"lan.received", .null⟩, .pop,
    .emit ⟨"lan.progress", .null⟩, .emit ⟨"lan.sent", .null⟩, .pop]

end Sample

open QueueRun EventQueue in
theorem queue_keeps_critical_sample :
    criticals (after Sample.queueSteps).popped ++ criticals (after Sample.queueSteps).queue.items =
      [⟨"lan.received", .null⟩, ⟨"lan.sent", .null⟩] := by
  have hkept := (queue_keeps_critical Sample.queueSteps).1 (by decide +kernel) (by decide +kernel)
  rw [hkept]
  decide +kernel

end InkHole
