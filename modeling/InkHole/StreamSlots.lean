import InkHole.Automata
import InkHole.Tables

/-! The tasks of a QUIC server: one for the server, one for each connection and one for each stream, which
holds a slot as long as it lives. A task that was aborted goes on until it is dropped. -/

namespace InkHole.StreamSlots

open Table

def maxActiveConnections : Nat := 128
def maxActiveStreams : Nat := 64

inductive ConnectionPhase where
  | handshaking
  | serving
  /-- Its streams are aborted, and joined one by one. -/
  | draining
  | ended
  deriving DecidableEq, Repr

structure ConnectionTask where
  phase : ConnectionPhase
  aborted : Bool
  deriving DecidableEq, Repr

/-- A task that has neither returned nor panicked nor been dropped. -/
structure StreamTask where
  connection : Nat
  aborted : Bool
  deriving DecidableEq, Repr

inductive ServerPhase where
  | accepting
  | draining
  | ended
  /-- The task was dropped, and with it the set of the connections. -/
  | dropped
  deriving DecidableEq, Repr

structure QuicServer where
  cancelled : Bool
  phase : ServerPhase
  /-- The tasks of the set, among them those that have ended and were not joined. -/
  connections : Table Nat ConnectionTask
  /-- What is left of connections whose set was dropped. -/
  detached : Table Nat ConnectionTask
  streams : Table Nat StreamTask
  /-- The free slots. -/
  permits : Nat
  refused : Nat
  busy : Nat

inductive Event where
  /-- A connection comes in; `accepted` is whether `accept` of it gives a handshake. -/
  | incoming (connection : Nat) (accepted : Bool)
  | handshake (connection : Nat) (done : Bool)
  | stream (connection stream : Nat)
  /-- A stream returns or panics, or is dropped after it was aborted. -/
  | streamEnd (stream : Nat)
  /-- The loop of a connection ends: it is cancelled, or the connection is closed. -/
  | leave (connection : Nat)
  | finish (connection : Nat)
  /-- A connection panics, or is dropped after it was aborted. -/
  | connectionEnd (connection : Nat)
  | join (connection : Nat)
  | cancel
  | serverLeave
  | serverEnd
  /-- The server is closed immediately: its task is aborted, and dropped later. -/
  | serverDrop
  deriving DecidableEq, Repr

def StreamTask.abortOf (connection : Nat) (task : StreamTask) : StreamTask :=
  if task.connection = connection then { task with aborted := true } else task

def ConnectionTask.abort (task : ConnectionTask) : ConnectionTask := { task with aborted := true }

namespace QuicServer

def start : QuicServer := ⟨false, .accepting, ∅, ∅, ∅, maxActiveStreams, 0, 0⟩

def task (s : QuicServer) (connection : Nat) : Option ConnectionTask :=
  (s.connections.lookup connection).orElse fun _ => s.detached.lookup connection

def phaseOf (s : QuicServer) (connection : Nat) : Option ConnectionPhase :=
  (s.task connection).map ConnectionTask.phase

/-- A task stays in the set that it is in. -/
def setPhase (s : QuicServer) (connection : Nat) (phase : ConnectionPhase) : QuicServer :=
  { s with
    connections := mapValues s.connections fun id task => if id = connection then { task with phase } else task
    detached := mapValues s.detached fun id task => if id = connection then { task with phase } else task }

def abortStreams (s : QuicServer) (connection : Nat) : QuicServer :=
  { s with streams := mapValues s.streams fun _ => StreamTask.abortOf connection }

def hasStreams (s : QuicServer) (connection : Nat) : Bool :=
  s.streams.values.any fun task => task.connection == connection

def fresh (s : QuicServer) (id : Nat) : Bool := (s.task id).isNone && !s.hasStreams id

/-- The slot comes before the task. -/
def openStream (s : QuicServer) (connection stream : Nat) : QuicServer :=
  if s.permits = 0 then { s with busy := s.busy + 1 }
  else { s with permits := s.permits - 1, streams := s.streams.insert stream ⟨connection, false⟩ }

def step (s : QuicServer) : Event → Option QuicServer
  | .incoming connection accepted =>
    if s.phase = .accepting ∧ s.fresh connection then
      if maxActiveConnections ≤ s.connections.entries.length then some { s with refused := s.refused + 1 }
      else if accepted then some { s with connections := s.connections.insert connection ⟨.handshaking, false⟩ }
      else some s
    else none
  | .handshake connection done =>
    if s.phaseOf connection = some .handshaking then
      some (s.setPhase connection (if done then .serving else .ended))
    else none
  | .stream connection stream =>
    if s.phaseOf connection = some .serving ∧ stream ∉ s.streams then
      some (s.openStream connection stream)
    else none
  | .streamEnd stream =>
    if stream ∈ s.streams then some { s with streams := s.streams.erase stream, permits := s.permits + 1 } else none
  | .leave connection =>
    if s.phaseOf connection = some .serving then
      some ((s.setPhase connection .draining).abortStreams connection)
    else none
  | .finish connection =>
    if s.phaseOf connection = some .draining ∧ !s.hasStreams connection then
      some (s.setPhase connection .ended)
    else none
  | .connectionEnd connection =>
    if (s.task connection).any (·.phase ≠ .ended) then
      some ((s.setPhase connection .ended).abortStreams connection)
    else none
  | .join connection =>
    if (s.phase = .accepting ∨ s.phase = .draining) ∧
        (s.connections.lookup connection).map ConnectionTask.phase = some .ended then
      some { s with connections := s.connections.erase connection }
    else none
  | .cancel => some { s with cancelled := true }
  | .serverLeave =>
    if s.phase = .accepting then
      some { s with phase := .draining, connections := mapValues s.connections fun _ => ConnectionTask.abort }
    else none
  | .serverEnd => if s.phase = .draining ∧ s.connections.entries = [] then some { s with phase := .ended } else none
  | .serverDrop =>
    if s.cancelled ∧ (s.phase = .accepting ∨ s.phase = .draining) then
      some { s with
        phase := .dropped
        connections := ∅
        detached := mapValues s.connections fun _ => ConnectionTask.abort }
    else none

end QuicServer

def quicServer : Automaton QuicServer Event where
  start := .start
  step := QuicServer.step

namespace QuicServer

variable {s s' : QuicServer} {connection stream : Nat} {phase : ConnectionPhase}

/-! What the updates leave. -/

theorem task_setPhase (s : QuicServer) (connection : Nat) (phase : ConnectionPhase) (id : Nat) :
    (s.setPhase connection phase).task id =
      (s.task id).map fun task => if id = connection then { task with phase } else task := by
  rw [task, task, setPhase, lookup_mapValues, lookup_mapValues]
  cases s.connections.lookup id with
  | none => rfl
  | some task => rfl

theorem phaseOf_setPhase_self (h : (s.task connection).isSome) :
    (s.setPhase connection phase).phaseOf connection = some phase := by
  obtain ⟨task, htask⟩ := Option.isSome_iff_exists.mp h
  rw [phaseOf, task_setPhase, htask, Option.map_some, if_pos rfl]
  rfl

theorem phaseOf_setPhase_other {id : Nat} (h : id ≠ connection) :
    (s.setPhase connection phase).phaseOf id = s.phaseOf id := by
  rw [phaseOf, task_setPhase, phaseOf]
  simp only [if_neg h, Option.map_id']

theorem hasStreams_iff : s.hasStreams connection = true ↔
    ∃ id task, s.streams.lookup id = some task ∧ task.connection = connection := by
  rw [hasStreams, List.any_eq_true]
  constructor
  · rintro ⟨task, hmem, hconnection⟩
    obtain ⟨id, hid⟩ := mem_values.mp hmem
    exact ⟨id, task, hid, by simpa using hconnection⟩
  · rintro ⟨id, task, hid, hconnection⟩
    exact ⟨task, mem_values.mpr ⟨id, hid⟩, by simpa using hconnection⟩

/-- A stream that goes on was there before, on another connection. -/
theorem lookup_abortStreams {id : Nat} {task : StreamTask}
    (h : (s.abortStreams connection).streams.lookup id = some task) (ha : task.aborted = false) :
    s.streams.lookup id = some task ∧ task.connection ≠ connection := by
  rw [abortStreams, lookup_mapValues] at h
  obtain ⟨old, hold, rfl⟩ := Option.map_eq_some_iff.mp h
  rw [StreamTask.abortOf] at ha ⊢
  split at ha
  · cases ha
  · next hne =>
    rw [if_neg hne]
    exact ⟨hold, hne⟩

/-! The invariant. -/

structure Kept (s : QuicServer) : Prop where
  slots : s.permits + s.streams.entries.length = maxActiveStreams
  connections : s.connections.entries.length ≤ maxActiveConnections
  /-- What has not been aborted belongs to a connection that serves. -/
  served : ∀ id task, s.streams.lookup id = some task → task.aborted = false →
    s.phaseOf task.connection = some .serving
  detached : s.phase ≠ .dropped → s.detached = ∅
  emptied : s.phase = .ended ∨ s.phase = .dropped → s.connections = ∅
  abandoned : s.phase = .dropped → ∀ id task, s.detached.lookup id = some task → task.aborted = true

theorem kept_start : Kept start where
  slots := rfl
  connections := by decide
  served id task h := by cases h
  detached _ := rfl
  emptied _ := rfl
  abandoned h := by cases h

/-- The phase of one connection may change when none of its streams goes on. -/
theorem Kept.setPhase (h : s.Kept) (hnone : ∀ id task, s.streams.lookup id = some task → task.aborted = false →
    task.connection ≠ connection) (phase : ConnectionPhase) : (s.setPhase connection phase).Kept where
  slots := h.slots
  connections := by
    rw [QuicServer.setPhase]
    simp only [mapValues, List.length_map]
    exact h.connections
  served id task hl ha := by
    rw [phaseOf_setPhase_other (hnone id task hl ha)]
    exact h.served id task hl ha
  detached hp := by
    rw [QuicServer.setPhase, h.detached hp]
    rfl
  emptied hp := by
    rw [QuicServer.setPhase, h.emptied hp]
    rfl
  abandoned hp id task hl := by
    rw [QuicServer.setPhase, lookup_mapValues] at hl
    obtain ⟨old, hold, rfl⟩ := Option.map_eq_some_iff.mp hl
    have haborted := h.abandoned hp id old hold
    split
    · exact haborted
    · exact haborted

theorem Kept.abortStreams (h : s.Kept) (connection : Nat) : (s.abortStreams connection).Kept where
  slots := by
    rw [QuicServer.abortStreams]
    simp only [mapValues, List.length_map]
    exact h.slots
  connections := h.connections
  served id task hl ha := h.served id task (lookup_abortStreams hl ha).1 ha
  detached := h.detached
  emptied := h.emptied
  abandoned := h.abandoned

/-- The streams of a connection are aborted as its phase changes. -/
theorem Kept.leaves (h : s.Kept) (connection : Nat) (phase : ConnectionPhase) :
    ((s.setPhase connection phase).abortStreams connection).Kept := by
  have habort := h.abortStreams connection
  have hnone : ∀ id task, (s.abortStreams connection).streams.lookup id = some task → task.aborted = false →
      task.connection ≠ connection := fun id task hl ha => (lookup_abortStreams hl ha).2
  exact habort.setPhase hnone phase

theorem Kept.openStream (h : s.Kept) (hserving : s.phaseOf connection = some .serving) (hfresh : stream ∉ s.streams) :
    (s.openStream connection stream).Kept := by
  rw [QuicServer.openStream]
  have hslots := h.slots
  split
  · exact ⟨h.slots, h.connections, h.served, h.detached, h.emptied, h.abandoned⟩
  · next hfree =>
    refine ⟨?_, h.connections, fun id task hl ha => ?_, h.detached, h.emptied, h.abandoned⟩
    · simp only [length_insert_of_not_mem hfresh]
      omega
    · rcases lookup_insert_cases hl with ⟨-, rfl⟩ | ⟨-, hl⟩
      · exact hserving
      · exact h.served id task hl ha

theorem Kept.streamEnd (h : s.Kept) (hmem : stream ∈ s.streams) :
    { s with streams := s.streams.erase stream, permits := s.permits + 1 }.Kept := by
  have hslots := h.slots
  refine ⟨?_, h.connections, fun id task hl ha => h.served id task (lookup_of_erase hl) ha, h.detached, h.emptied,
    h.abandoned⟩
  have herase := length_erase_of_mem hmem
  simp only
  omega

/-- A connection that comes in has no streams yet. -/
theorem Kept.incoming (h : s.Kept) (hfresh : s.fresh connection = true)
    (hroom : s.connections.entries.length < maxActiveConnections) (hphase : s.phase = .accepting) :
    { s with connections := s.connections.insert connection ⟨.handshaking, false⟩ }.Kept := by
  have hbound := length_insert_le s.connections connection ⟨.handshaking, false⟩
  refine ⟨h.slots, by simp only; omega, fun id task hl ha => ?_, h.detached, fun hp => ?_, h.abandoned⟩
  · have hserving := h.served id task hl ha
    have hne : task.connection ≠ connection := by
      rintro rfl
      rw [fresh, Bool.and_eq_true, Option.isNone_iff_eq_none] at hfresh
      rw [phaseOf, hfresh.1] at hserving
      cases hserving
    rw [phaseOf, QuicServer.task] at hserving ⊢
    simp only [AList.lookup_insert_ne hne]
    exact hserving
  · rw [hphase] at hp
    rcases hp with hp | hp <;> cases hp

theorem Kept.join (h : s.Kept) (hended : (s.connections.lookup connection).map ConnectionTask.phase = some .ended)
    (hphase : s.phase = .accepting ∨ s.phase = .draining) :
    { s with connections := s.connections.erase connection }.Kept := by
  have hlength := length_erase_le s.connections connection
  have hconnections := h.connections
  have hrunning : s.phase ≠ .ended ∧ s.phase ≠ .dropped := by
    rcases hphase with hp | hp <;> simp [hp]
  refine ⟨h.slots, Nat.le_trans hlength hconnections, fun id task hl ha => ?_, h.detached,
    fun hp => absurd hp (not_or.mpr hrunning), h.abandoned⟩
  have hserving := h.served id task hl ha
  have hne : task.connection ≠ connection := by
    intro hsame
    obtain ⟨old, hold, hended⟩ := Option.map_eq_some_iff.mp hended
    rw [hsame, phaseOf, QuicServer.task, hold] at hserving
    rw [Option.orElse_some, Option.map_some, hended] at hserving
    cases hserving
  rw [phaseOf, QuicServer.task] at hserving ⊢
  simp only [AList.lookup_erase_ne hne]
  exact hserving

/-- The connections are aborted together; their phases stay. -/
theorem phaseOf_abort (s : QuicServer) (id : Nat) :
    (({ s with connections := mapValues s.connections fun _ => ConnectionTask.abort } : QuicServer).phaseOf id) =
      s.phaseOf id := by
  rw [phaseOf, task, phaseOf, task, lookup_mapValues]
  cases s.connections.lookup id with
  | none => rfl
  | some task => rfl

theorem Kept.serverLeave (h : s.Kept) (hphase : s.phase = .accepting) :
    { s with phase := .draining, connections := mapValues s.connections fun _ => ConnectionTask.abort }.Kept where
  slots := h.slots
  connections := by
    simp only [mapValues, List.length_map]
    exact h.connections
  served id task hl ha := (phaseOf_abort s _).trans (h.served id task hl ha)
  detached _ := h.detached (by rw [hphase]; decide)
  emptied hp := by rcases hp with hp | hp <;> cases hp
  abandoned hp := by cases hp

theorem Kept.serverDrop (h : s.Kept) (hphase : s.phase = .accepting ∨ s.phase = .draining) :
    { s with
      phase := .dropped
      connections := ∅
      detached := mapValues s.connections fun _ => ConnectionTask.abort }.Kept where
  slots := h.slots
  connections := Nat.zero_le _
  served id task hl ha := by
    have hdetached : s.detached = ∅ := h.detached (by rcases hphase with hp | hp <;> simp [hp])
    have hserving := h.served id task hl ha
    rw [phaseOf, QuicServer.task, hdetached] at hserving
    rw [phaseOf, QuicServer.task, AList.lookup_empty, lookup_mapValues]
    cases hc : s.connections.lookup task.connection with
    | none =>
      rw [hc] at hserving
      cases hserving
    | some connection =>
      rw [hc] at hserving
      exact hserving
  detached hp := absurd rfl hp
  emptied _ := rfl
  abandoned _ id task hl := by
    rw [lookup_mapValues] at hl
    obtain ⟨old, -, rfl⟩ := Option.map_eq_some_iff.mp hl
    rfl

theorem Kept.step (h : s.Kept) (event : Event) (he : s.step event = some s') : s'.Kept := by
  cases event with
  | incoming connection accepted =>
    rw [QuicServer.step] at he
    split at he
    · next hopen =>
      split at he
      · obtain rfl := Option.some.inj he
        exact ⟨h.slots, h.connections, h.served, h.detached, h.emptied, h.abandoned⟩
      · next hroom =>
        split at he
        · obtain rfl := Option.some.inj he
          exact h.incoming hopen.2 (Nat.not_le.mp hroom) hopen.1
        · exact Option.some.inj he ▸ h
    · cases he
  | handshake connection done =>
    obtain ⟨hphase, he⟩ := Option.ite_none_right_eq_some.mp he
    obtain rfl := Option.some.inj he
    refine h.setPhase (fun id task hl ha hsame => ?_) _
    have hserving := h.served id task hl ha
    rw [hsame, hphase] at hserving
    cases hserving
  | stream connection stream =>
    obtain ⟨⟨hserving, hfresh⟩, he⟩ := Option.ite_none_right_eq_some.mp he
    obtain rfl := Option.some.inj he
    exact h.openStream hserving hfresh
  | streamEnd stream =>
    obtain ⟨hmem, he⟩ := Option.ite_none_right_eq_some.mp he
    obtain rfl := Option.some.inj he
    exact h.streamEnd hmem
  | leave connection =>
    obtain ⟨-, he⟩ := Option.ite_none_right_eq_some.mp he
    obtain rfl := Option.some.inj he
    exact h.leaves connection .draining
  | finish connection =>
    obtain ⟨⟨-, hnone⟩, he⟩ := Option.ite_none_right_eq_some.mp he
    obtain rfl := Option.some.inj he
    refine h.setPhase (fun id task hl _ hsame => ?_) _
    rw [hasStreams_iff.mpr ⟨id, task, hl, hsame⟩] at hnone
    cases hnone
  | connectionEnd connection =>
    obtain ⟨-, he⟩ := Option.ite_none_right_eq_some.mp he
    obtain rfl := Option.some.inj he
    exact h.leaves connection .ended
  | join connection =>
    obtain ⟨⟨hphase, hended⟩, he⟩ := Option.ite_none_right_eq_some.mp he
    obtain rfl := Option.some.inj he
    exact h.join hended hphase
  | cancel =>
    obtain rfl := Option.some.inj he
    exact ⟨h.slots, h.connections, h.served, h.detached, h.emptied, h.abandoned⟩
  | serverLeave =>
    obtain ⟨hphase, he⟩ := Option.ite_none_right_eq_some.mp he
    obtain rfl := Option.some.inj he
    exact h.serverLeave hphase
  | serverEnd =>
    obtain ⟨⟨hphase, hempty⟩, he⟩ := Option.ite_none_right_eq_some.mp he
    obtain rfl := Option.some.inj he
    exact ⟨h.slots, h.connections, h.served, fun _ => h.detached (by rw [hphase]; decide), fun _ => AList.ext hempty,
      fun hp => by cases hp⟩
  | serverDrop =>
    obtain ⟨⟨-, hphase⟩, he⟩ := Option.ite_none_right_eq_some.mp he
    obtain rfl := Option.some.inj he
    exact h.serverDrop hphase

/-! After the task of the server has ended. -/

/-- Nothing goes on but streams that have been aborted. -/
structure Over (s : QuicServer) : Prop where
  phase : s.phase = .ended
  tasks : ∀ id, s.task id = none
  aborted : ∀ id task, s.streams.lookup id = some task → task.aborted = true

theorem Kept.over (h : s.Kept) (hp : s.phase = .ended) : s.Over := by
  have htasks : ∀ id, s.task id = none := by
    intro id
    rw [QuicServer.task, h.emptied (.inl hp), h.detached (by rw [hp]; decide)]
    rfl
  refine ⟨hp, htasks, fun id task hl => ?_⟩
  cases ha : task.aborted with
  | true => rfl
  | false =>
    have hserving := h.served id task hl ha
    rw [phaseOf, htasks] at hserving
    cases hserving

/-- A step from there on only ends streams. -/
theorem Over.step (h : s.Over) {event : Event} (he : s.step event = some s') :
    s'.Over ∧ ∀ id task, s'.streams.lookup id = some task → s.streams.lookup id = some task := by
  have hphase : ∀ connection, s.phaseOf connection = none := fun connection => by rw [phaseOf, h.tasks]; rfl
  cases event with
  | streamEnd stream =>
    obtain ⟨-, he⟩ := Option.ite_none_right_eq_some.mp he
    obtain rfl := Option.some.inj he
    exact ⟨⟨h.phase, h.tasks, fun id task hl => h.aborted id task (lookup_of_erase hl)⟩,
      fun id task hl => lookup_of_erase hl⟩
  | cancel =>
    obtain rfl := Option.some.inj he
    exact ⟨⟨h.phase, h.tasks, h.aborted⟩, fun _ _ hl => hl⟩
  | incoming | handshake | stream | leave | finish | connectionEnd | join | serverLeave | serverEnd | serverDrop =>
    simp [QuicServer.step, h.phase, hphase, h.tasks] at he

theorem kept_of_reaches (h : quicServer.Reaches Automaton.free s) : s.Kept :=
  h.invariant kept_start fun _ event _ h _ he => h.step event he

/-- A stream is turned away only when every slot is taken. -/
theorem Kept.busy (h : s.Kept) (he : s.step (.stream connection stream) = some s') (hb : s'.busy ≠ s.busy) :
    s.streams.entries.length = maxActiveStreams := by
  obtain ⟨-, he⟩ := Option.ite_none_right_eq_some.mp he
  obtain rfl := Option.some.inj he
  have hslots := h.slots
  rw [QuicServer.openStream] at hb
  split at hb
  · omega
  · exact absurd rfl hb

/-- What a run leaves of the streams of a server that has ended. -/
theorem Over.run (h : s.Over) {events : List Event} (hr : quicServer.runFrom Automaton.free s events = some s') :
    s'.Over ∧ ∀ id task, s'.streams.lookup id = some task → s.streams.lookup id = some task := by
  have hstep : ∀ u event u', (u.Over ∧ ∀ id task, u.streams.lookup id = some task →
      s.streams.lookup id = some task) → Automaton.free u event = true → quicServer.step u event = some u' →
        u'.Over ∧ ∀ id task, u'.streams.lookup id = some task → s.streams.lookup id = some task := by
    intro u event u' hu _ he
    obtain ⟨hover, hkept⟩ := hu.1.step he
    exact ⟨hover, fun id task hl => hu.2 id task (hkept id task hl)⟩
  exact Automaton.runFrom_invariant hstep ⟨h, fun _ _ hl => hl⟩ hr

end QuicServer

/-- The server is closed while a stream is served, and the connection of it is dropped first. -/
def closing : List Event :=
  [.incoming 0 true, .handshake 0 true, .stream 0 7, .cancel, .serverLeave, .connectionEnd 0, .join 0, .serverEnd]

def closed : QuicServer :=
  ⟨true, .ended, ∅, ∅, AList.insert 7 ⟨0, true⟩ ∅, 63, 0, 0⟩

end InkHole.StreamSlots
