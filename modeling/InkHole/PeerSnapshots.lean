import InkHole.EventQueue

/-! The lists of peers that the consumer of the queue gets: as long as the queue has room for a
snapshot, it gets the newest list of every session, and never an old one after it. -/

namespace InkHole

open EventQueue

variable {Value : Type} [JsonValue Value]

/-- The lists of peers of a session. -/
def peersOf (session : Value) (events : List (ServiceEvent Value)) : List (ServiceEvent Value) :=
  events.filter (ofStream "lan.peers" session)

theorem peersOf_append (session : Value) (first second : List (ServiceEvent Value)) :
    peersOf session (first ++ second) = peersOf session first ++ peersOf session second :=
  List.filter_append first second

theorem peersOf_singleton (session : Value) (event : ServiceEvent Value) :
    peersOf session [event] = if ofStream "lan.peers" session event then [event] else [] := by
  by_cases h : ofStream "lan.peers" session event = true
  · simp [peersOf, h]
  · simp [peersOf, h]

theorem snapshot_of_ofStream {name : String} {session : Value} {event : ServiceEvent Value}
    (h : ofStream name session event = true) : snapshotEvent event.event = true := by
  simp only [ofStream, Bool.and_eq_true] at h
  exact h.1.1

/-- What an open queue with room does with a snapshot: only progress and status give way to it. -/
inductive Refreshes (items : List (ServiceEvent Value)) (event : ServiceEvent Value) :
    List (ServiceEvent Value) → Prop where
  | replaces (before : List (ServiceEvent Value)) (old : ServiceEvent Value)
      (after : List (ServiceEvent Value)) : items = before ++ old :: after →
      sameSnapshotStream old event = true → Refreshes items event (before ++ event :: after)
  | evicts (before : List (ServiceEvent Value)) (old : ServiceEvent Value)
      (after : List (ServiceEvent Value)) : items = before ++ old :: after →
      droppableEvent old.event = true → Refreshes items event (before ++ after ++ [event])
  | queues : Refreshes items event (items ++ [event])

theorem emit_refreshes {queue : EventQueue Value} {event : ServiceEvent Value} (hopen : queue.closed = false)
    (hsnapshot : snapshotEvent event.event = true) (hroom : queue.items.length < maxSnapshotQueueCapacity) :
    Refreshes queue.items event (queue.emit event).items := by
  have hfull : ¬ maxSnapshotQueueCapacity ≤ queue.items.length := by omega
  unfold EventQueue.emit
  rw [if_neg (by simp [hopen]), if_pos hsnapshot]
  split
  case h_1 index hsame =>
    obtain ⟨before, old, after, hitems, hold, _, hset⟩ := split_of_findIdx? hsame
    exact hset event ▸ .replaces before old after hitems hold
  case h_2 =>
    split
    case h_1 index hfirst =>
      split at hfirst
      · obtain ⟨before, old, after, hitems, hold, herase, _⟩ := split_of_findIdx? hfirst
        exact herase ▸ .evicts before old after hitems hold
      · cases hfirst
    case h_2 =>
      rw [if_neg hfull]
      exact .queues

/-- What is not a snapshot leaves the lists of peers alone. -/
theorem emit_other {queue : EventQueue Value} {event : ServiceEvent Value} (hopen : queue.closed = false)
    (hother : snapshotEvent event.event = false) (session : Value) :
    peersOf session (queue.emit event).items = peersOf session queue.items := by
  have hemits := emit_emits hopen event
  generalize (queue.emit event).items = later at hemits
  cases hemits with
  | replaces before old after hitems hsnapshot => simp [hother] at hsnapshot
  | evicts before old after hitems hsnapshot => simp [hother] at hsnapshot
  | drops => rfl
  | queues =>
    have hstream : ofStream "lan.peers" session event = false := by simp [ofStream, hother]
    simp [peersOf_append, peersOf_singleton, hstream]

section Order

omit [JsonValue Value]

/-- The lists in `seen` came out of those in `sent`, in their order and with the newest one. -/
structure Fresh (sent seen : List (ServiceEvent Value)) : Prop where
  order : seen.Sublist sent
  newest : seen.getLast? = sent.getLast?

theorem Fresh.push {sent seen fewer : List (ServiceEvent Value)} (h : Fresh sent seen)
    (hfewer : fewer.Sublist seen) (event : ServiceEvent Value) : Fresh (sent ++ [event]) (fewer ++ [event]) where
  order := (hfewer.trans h.order).append (List.Sublist.refl [event])
  newest := by simp

end Order

section Streams

variable [EquivBEq Value]

theorem Refreshes.fresh {items later popped sent : List (ServiceEvent Value)} {event : ServiceEvent Value}
    (h : Refreshes items event later) (hbounded : Bounded items) (session : Value)
    (hfresh : Fresh (peersOf session sent) (peersOf session (popped ++ items))) :
    Fresh (peersOf session (sent ++ [event])) (peersOf session (popped ++ later)) := by
  rw [peersOf_append session sent, peersOf_singleton]
  rw [peersOf_append] at hfresh ⊢
  cases h with
  | replaces before old after hitems hsame =>
    subst hitems
    have hstream := ofStream_eq_of_same hsame "lan.peers" session
    by_cases hevent : ofStream "lan.peers" session event = true
    · -- the old list was the only one of the session
      have hone := hbounded.streams "lan.peers" session
      rw [List.countP_append, List.countP_cons, hstream, if_pos hevent] at hone
      have hbefore : before.countP (ofStream "lan.peers" session) = 0 := by omega
      have hafter : after.countP (ofStream "lan.peers" session) = 0 := by omega
      have hb : peersOf session before = [] := by
        rw [peersOf, List.filter_eq_nil_iff]
        exact fun queued hqueued => List.countP_eq_zero.mp hbefore queued hqueued
      have ha : peersOf session after = [] := by
        rw [peersOf, List.filter_eq_nil_iff]
        exact fun queued hqueued => List.countP_eq_zero.mp hafter queued hqueued
      have hnew : peersOf session (before ++ event :: after) = [event] := by
        rw [peersOf_append, hb, ← List.singleton_append, peersOf_append, ha, peersOf_singleton, if_pos hevent]
        rfl
      rw [hnew, if_pos hevent]
      exact hfresh.push (List.sublist_append_left _ _) event
    · have hsame : peersOf session (before ++ event :: after) = peersOf session (before ++ old :: after) := by
        simp [peersOf, hstream, hevent]
      rw [hsame, if_neg hevent, List.append_nil]
      exact hfresh
  | evicts before old after hitems hdroppable =>
    have hold : ofStream "lan.peers" session old = false := by
      rw [Bool.eq_false_iff]
      intro hc
      rw [not_droppable_of_snapshot (snapshot_of_ofStream hc)] at hdroppable
      cases hdroppable
    have hkept : peersOf session items = peersOf session (before ++ after) := by
      simp [hitems, peersOf, hold]
    rw [hkept] at hfresh
    rw [peersOf_append session (before ++ after), peersOf_singleton, ← List.append_assoc]
    split
    · exact hfresh.push (List.Sublist.refl _) event
    · simpa using hfresh
  | queues =>
    rw [peersOf_append session items, peersOf_singleton, ← List.append_assoc]
    split
    · exact hfresh.push (List.Sublist.refl _) event
    · simpa using hfresh

end Streams

namespace QueueRun

/-- Whenever a snapshot is emitted, fewer events than the capacity are queued. -/
def Roomy (steps : List (QueueStep Value)) : Prop :=
  ∀ before event rest, steps = before ++ .emit event :: rest → snapshotEvent event.event = true →
    (after before).queue.items.length < maxSnapshotQueueCapacity

theorem Roomy.init {steps : List (QueueStep Value)} {s : QueueStep Value} (h : Roomy (steps ++ [s])) : Roomy steps :=
  fun before event rest hsplit => h before event (rest ++ [s]) (by simp [hsplit])

/-- The lists of peers that were delivered or wait to be, against those emitted. -/
def FreshFor (session : Value) (run : QueueRun Value) : Prop :=
  Fresh (peersOf session run.emitted) (peersOf session (run.popped ++ run.queue.items))

variable [EquivBEq Value]

theorem step_fresh {run : QueueRun Value} {session : Value} (hopen : run.queue.closed = false)
    (hbounded : Bounded run.queue.items) (h : run.FreshFor session) {s : QueueStep Value} (hclear : s ≠ .clear)
    (hroom : ∀ event, s = .emit event → snapshotEvent event.event = true →
      run.queue.items.length < maxSnapshotQueueCapacity) : (run.step s).FreshFor session := by
  cases s with
  | emit event =>
    by_cases hsnapshot : snapshotEvent event.event = true
    · exact (emit_refreshes hopen hsnapshot (hroom event rfl hsnapshot)).fresh hbounded session h
    · have hother : snapshotEvent event.event = false := by simpa using hsnapshot
      have hstream : ofStream "lan.peers" session event = false := by simp [ofStream, hother]
      have hkept := emit_other hopen hother session
      rw [FreshFor, peersOf_append] at h
      simpa only [FreshFor, step, peersOf_append, peersOf_singleton, hstream, hkept, Bool.false_eq_true, if_false,
        List.append_nil] using h
  | pop =>
    rw [FreshFor, tryPop_items run.queue, ← List.append_assoc] at h
    exact h
  | close => exact h
  | clear => exact absurd rfl hclear

theorem after_fresh (steps : List (QueueStep Value)) (hclose : .close ∉ steps) (hclear : .clear ∉ steps)
    (hroomy : Roomy steps) (session : Value) : (after steps).FreshFor session := by
  induction steps using List.reverseRecOn with
  | nil => exact ⟨List.Sublist.refl _, rfl⟩
  | append_singleton steps s ih =>
    have hroom : ∀ event, s = .emit event → snapshotEvent event.event = true →
        (after steps).queue.items.length < maxSnapshotQueueCapacity :=
      fun event hs => hroomy steps event [] (by rw [hs])
    rw [List.mem_append, not_or] at hclose hclear
    have hne : s ≠ .clear := fun h => hclear.2 (h ▸ List.mem_singleton_self _)
    rw [after_concat]
    exact step_fresh (after_open steps hclose.1) (after_bounded steps) (ih hclose.1 hclear.1 hroomy.init) hne hroom

/-- The lists of peers of a session are delivered in the order in which they were emitted, and
the newest one is delivered by the time the queue is empty. -/
theorem snapshots_fresh (steps : List (QueueStep Value)) (hclose : .close ∉ steps) (hclear : .clear ∉ steps)
    (hroomy : Roomy steps) (session : Value) :
    (peersOf session (after steps).popped).Sublist (peersOf session (after steps).emitted) ∧
      ((after steps).queue.items = [] →
        (peersOf session (after steps).popped).getLast? = (peersOf session (after steps).emitted).getLast?) := by
  have hfresh := after_fresh steps hclose hclear hroomy session
  rw [FreshFor] at hfresh
  constructor
  · have hpart : (peersOf session (after steps).popped).Sublist
        (peersOf session ((after steps).popped ++ (after steps).queue.items)) := by
      rw [peersOf_append]
      exact List.sublist_append_left _ _
    exact hpart.trans hfresh.order
  · intro hempty
    rw [hempty, List.append_nil] at hfresh
    exact hfresh.newest

omit [EquivBEq Value] in
theorem length_step (run : QueueRun Value) (s : QueueStep Value) :
    (run.step s).queue.items.length ≤ run.queue.items.length + 1 := by
  cases s with
  | emit event =>
    rcases hclosed : run.queue.closed with _ | _
    · have hemits := emit_emits hclosed event
      simp only [step]
      generalize (run.queue.emit event).items = later at hemits
      cases hemits with
      | replaces before old after hitems => simp [hitems]
      | evicts before old after hitems =>
        have hlength := congrArg List.length hitems
        simp only [List.length_append, List.length_cons, List.length_nil] at hlength ⊢
        omega
      | drops => omega
      | queues => simp
    · simp [step, emit_of_closed hclosed]
  | pop =>
    have hlength := congrArg List.length (tryPop_items run.queue)
    rw [List.length_append] at hlength
    simp only [step]
    omega
  | close => exact Nat.le_succ _
  | clear => simp [step, EventQueue.clear]

omit [EquivBEq Value] in
theorem length_after (steps : List (QueueStep Value)) : (after steps).queue.items.length ≤ steps.length := by
  induction steps using List.reverseRecOn with
  | nil => exact Nat.le_refl 0
  | append_singleton steps s ih =>
    have hstep := length_step (after steps) s
    rw [after_concat, List.length_append, List.length_singleton]
    omega

omit [EquivBEq Value] in
/-- A short run cannot fill the queue. -/
theorem roomy_of_length {steps : List (QueueStep Value)} (h : steps.length ≤ maxSnapshotQueueCapacity) :
    Roomy steps := by
  intro before event rest hsplit _
  have hitems := length_after before
  have hlength := congrArg List.length hsplit
  rw [List.length_append, List.length_cons] at hlength
  omega

end QueueRun

namespace Sample

/-- Lists of peers that differ by their generation. -/
inductive ViewData where
  | null
  | text (value : String)
  | peers (sessionId : String) (generation : Nat)
deriving DecidableEq

instance : JsonValue ViewData where
  index
    | .peers sessionId _, "session_id" => .text sessionId
    | _, _ => .null

/-- The first list of session `a` is delivered, the second one gives way to the third. -/
def viewSteps : List (QueueStep ViewData) :=
  [.emit ⟨"lan.peers", .peers "a" 1⟩, .pop, .emit ⟨"lan.peers", .peers "a" 2⟩, .emit ⟨"lan.peers", .peers "b" 1⟩,
    .emit ⟨"lan.sent", .null⟩, .emit ⟨"lan.peers", .peers "a" 3⟩, .pop, .pop, .pop, .pop]

end Sample

open QueueRun in
theorem snapshots_fresh_sample : peersOf (.text "a") (after Sample.viewSteps).popped =
      [⟨"lan.peers", .peers "a" 1⟩, ⟨"lan.peers", .peers "a" 3⟩] ∧
    (peersOf (.text "a") (after Sample.viewSteps).popped).getLast? = some ⟨"lan.peers", .peers "a" 3⟩ := by
  have hroomy : Roomy Sample.viewSteps := roomy_of_length (by decide)
  have hfresh := snapshots_fresh Sample.viewSteps (by decide +kernel) (by decide +kernel) hroomy (.text "a")
  refine ⟨by decide +kernel, ?_⟩
  rw [hfresh.2 (by decide +kernel)]
  decide +kernel

end InkHole
