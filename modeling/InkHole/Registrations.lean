import InkHole.ServiceOperations

/-! One session at a time, and no relay without its session: what the tables of a service say of
each other, and the two registrations that can break it. -/

namespace InkHole

open Machine

namespace JsonService

/-- At most one session is registered. -/
def OneSession (s : ServiceState) : Prop := ∀ a ∈ s.sessions, ∀ b ∈ s.sessions, a = b

/-- Every relay stands beside a session that is registered. -/
def RelaysServed (s : ServiceState) : Prop := ∀ relay ∈ s.sshRelays, relay.2 ∈ s.sessions

structure Lawful (s : ServiceState) : Prop where
  one : OneSession s
  served : RelaysServed s

/-- When a registration comes in time: a session finds no other one, a relay finds its own. -/
def Call.timely {β : Type} : Call β → ServiceState → Prop
  | .insertSession _ id, s => s.closed = true ∨ ∀ other ∈ s.sessions, other = id
  | .insertRelay _ lan, s =>
    s.closed = true ∨ (∃ relay ∈ s.sshRelays, relay.2 = lan) ∨ lan ∈ s.sessions
  | _, _ => True

/-- What leaves the tables takes its relays along. -/
structure Shrinks (s s' : ServiceState) : Prop where
  sessions : ∀ id ∈ s'.sessions, id ∈ s.sessions
  relays : ∀ relay ∈ s'.sshRelays, relay ∈ s.sshRelays ∧ (relay.2 ∈ s.sessions → relay.2 ∈ s'.sessions)

theorem Lawful.shrinks {s s' : ServiceState} (h : Lawful s) (hs : Shrinks s s') : Lawful s' := by
  constructor
  · intro a ha b hb
    exact h.one a (hs.sessions a ha) b (hs.sessions b hb)
  · intro relay hr
    obtain ⟨hold, hkeep⟩ := hs.relays relay hr
    exact hkeep (h.served relay hold)

theorem Shrinks.of_eq {s s' : ServiceState} (hs : s'.sessions = s.sessions)
    (hr : s'.sshRelays = s.sshRelays) : Shrinks s s' := by
  constructor
  · rw [hs]
    exact fun _ h => h
  · rw [hs, hr]
    exact fun _ h => ⟨h, fun h => h⟩

theorem Shrinks.of_empty {s s' : ServiceState} (hs : s'.sessions = []) (hr : s'.sshRelays = []) :
    Shrinks s s' := by
  constructor
  · rw [hs]
    exact fun _ h => absurd h List.not_mem_nil
  · rw [hr]
    exact fun _ h => absurd h List.not_mem_nil

theorem shrinks_takeLan (s : Service) (me id : Nat) : Shrinks s.state (s.takeLan me id).2.state := by
  constructor
  · intro other h
    exact (List.mem_filter.mp h).1
  · intro relay h
    obtain ⟨hold, hother⟩ := List.mem_filter.mp h
    refine ⟨hold, fun hs => List.mem_filter.mpr ⟨hs, ?_⟩⟩
    simpa using hother

theorem shrinks_takeRelay (s : Service) (id : Nat) : Shrinks s.state (s.takeRelay id).2.state := by
  constructor
  · exact fun _ h => h
  · intro relay h
    exact ⟨(List.mem_filter.mp h).1, fun hs => hs⟩

theorem shrinks_drain (s : Service) (me : Nat) (closes : Bool) :
    Shrinks s.state (s.drain me closes).2.state := by
  rw [Service.drain]
  split
  · exact .of_eq rfl rfl
  · exact .of_empty rfl rfl

/-- The two registrations that the law is about. -/
def Call.registers {β : Type} : Call β → Bool
  | .insertSession _ _ => true
  | .insertRelay _ _ => true
  | _ => false

theorem exec_shrinks {β : Type} (c : Call β) (s : Service) (h : c.registers = false) :
    Shrinks s.state (exec c s).2.state := by
  cases c with
  | insertSession me id => cases h
  | insertRelay id lan => cases h
  | takeStale me => exact .of_empty rfl rfl
  | takeLan me id => exact shrinks_takeLan s me id
  | takeRelay id => exact shrinks_takeRelay s id
  | drain me closes => exact shrinks_drain s me closes
  | session me id => exact .of_eq (by simp [exec]) (by simp [exec])
  | insertWormhole id =>
    simp only [exec, Service.insertWormhole]
    split
    · exact .of_eq rfl rfl
    · exact .of_eq rfl rfl
  | setHandle id => exact .of_eq (by simp [exec]) (by simp [exec])
  | dropLan me id => exact .of_eq (by simp [exec]) (by simp [exec])
  | abortTask id => exact .of_eq (by simp [exec, Service.joinTask]) (by simp [exec, Service.joinTask])
  | joinTask id => exact .of_eq (by simp [exec, Service.joinTask]) (by simp [exec, Service.joinTask])
  | _ => exact .of_eq rfl rfl

theorem tick_shrinks {s s' : Service} (h : Tick s s') : Shrinks s.state s'.state := by
  cases h with
  | finishes id session _ _ => exact .of_eq (by rw [Service.endWork_state]) (by rw [Service.endWork_state])
  | panics id session _ _ => exact .of_eq (by rw [Service.endWork_state]) (by rw [Service.endWork_state])
  | leaves id session _ _ => exact .of_eq rfl rfl
  | marks id session _ _ => exact .of_eq rfl rfl
  | stops id _ => exact .of_eq rfl rfl

theorem lawful_insertSession_iff (s : Service) (me id : Nat) (h : Lawful s.state) :
    Lawful (s.insertSession id).2.state ↔ (Call.insertSession me id).timely s.state := by
  by_cases hc : s.state.closed = true
  · have he : (s.insertSession id).2 = s := by simp only [Service.insertSession, if_pos hc]
    rw [he]
    exact iff_of_true h (.inl hc)
  · have he : (s.insertSession id).2.state =
        { s.state with sessions := s.state.sessions.insert id } := by
      simp only [Service.insertSession, if_neg hc]
    rw [he]
    constructor
    · intro hl
      exact .inr fun other ho =>
        hl.one other (List.mem_insert_of_mem ho) id List.mem_insert_self
    · intro ht
      have hother := ht.resolve_left hc
      have hall : ∀ a ∈ s.state.sessions.insert id, a = id := by
        intro a ha
        rcases List.mem_insert_iff.mp ha with rfl | ha
        · rfl
        · exact hother a ha
      refine ⟨fun a ha b hb => (hall a ha).trans (hall b hb).symm, fun relay hr => ?_⟩
      exact List.mem_insert_of_mem (h.served relay hr)

theorem lawful_insertRelay_iff (s : Service) (id lan : Nat) (h : Lawful s.state) :
    Lawful (s.insertRelay id lan).2.state ↔ (Call.insertRelay id lan).timely s.state := by
  by_cases hc : s.state.closed = true
  · have he : (s.insertRelay id lan).2 = s := by simp only [Service.insertRelay, hc, Bool.true_or, if_true]
    rw [he]
    exact iff_of_true h (.inl hc)
  by_cases ha : ∃ relay ∈ s.state.sshRelays, relay.2 = lan
  · have he : (s.insertRelay id lan).2 = s := by
      have hany : (s.state.sshRelays.any fun relay => relay.2 == lan) = true := by
        simpa only [List.any_eq_true, beq_iff_eq] using ha
      simp only [Service.insertRelay, hany, Bool.or_true, if_true]
    rw [he]
    exact iff_of_true h (.inr (.inl ha))
  have he : (s.insertRelay id lan).2.state =
      { s.state with sshRelays := s.state.sshRelays.insert (id, lan) } := by
    have hany : (s.state.sshRelays.any fun relay => relay.2 == lan) = false := by
      simpa only [Bool.eq_false_iff, ne_eq, List.any_eq_true, beq_iff_eq] using ha
    have hopen : s.state.closed = false := Bool.eq_false_iff.mpr hc
    simp only [Service.insertRelay, hopen, hany, Bool.or_false, Bool.false_eq_true, if_false]
  rw [he]
  constructor
  · intro hl
    exact .inr (.inr (hl.served (id, lan) List.mem_insert_self))
  · intro ht
    have hlan := (ht.resolve_left hc).resolve_left ha
    refine ⟨h.one, fun relay hr => ?_⟩
    rcases List.mem_insert_iff.mp hr with rfl | hr
    · exact hlan
    · exact h.served relay hr

theorem lawful_exec_iff {β : Type} (c : Call β) (s : Service) (h : Lawful s.state) :
    Lawful (exec c s).2.state ↔ c.timely s.state := by
  cases c with
  | insertSession me id => exact lawful_insertSession_iff s me id h
  | insertRelay id lan => exact lawful_insertRelay_iff s id lan h
  | _ => exact iff_of_true (h.shrinks (exec_shrinks _ s rfl)) trivial

/-- The next call of an operation comes in time, if it is a registration. -/
def nextTimely (s : ServiceState) : Program Call (Except ServiceError Reply) → Prop
  | .ret _ => True
  | .call c _ => c.timely s

/-- A session is registered only when no other one is, and a relay only while its session is. -/
def Timely (m : Host) : Action Call Service (Except ServiceError Reply) → Prop
  | .call i => ∀ t, m.threads i = some t → nextTimely m.world.state t.program
  | _ => True

def RegistryLawful (m : Host) : Prop := Lawful m.world.state

theorem lawful_step_iff {m m' : Host} {a : Action Call Service (Except ServiceError Reply)}
    (h : RegistryLawful m) (ha : Serves m a) (hs : m.step a = some m') :
    RegistryLawful m' ↔ Timely m a := by
  cases a with
  | call i =>
    simp only [Machine.step] at hs
    split at hs
    · next c k history ht =>
      split at hs
      · obtain rfl := Option.some.inj hs
        have hiff := lawful_exec_iff c m.world h
        constructor
        · intro hl t htt
          obtain rfl := Option.some.inj (ht.symm.trans htt)
          exact hiff.mp hl
        · intro hc
          exact hiff.mpr (hc _ ht)
      · cases hs
    · cases hs
  | outside s =>
    obtain rfl := Option.some.inj hs
    exact iff_of_true (h.shrinks (tick_shrinks ha)) trivial
  | spawn i p =>
    simp only [Machine.step] at hs
    split at hs
    · obtain rfl := Option.some.inj hs
      exact iff_of_true h trivial
    · cases hs
  | fault i =>
    simp only [Machine.step] at hs
    split at hs
    · split at hs
      · split at hs
        · obtain rfl := Option.some.inj hs
          exact iff_of_true h trivial
        · cases hs
      · cases hs
    · cases hs
  | finish i =>
    simp only [Machine.step] at hs
    split at hs
    · obtain rfl := Option.some.inj hs
      exact iff_of_true h trivial
    · cases hs
  | abort i => cases ha
  | crash => cases ha

theorem lawful_new : RegistryLawful (init .new) := by
  constructor
  · exact fun a ha => absurd ha List.not_mem_nil
  · exact fun relay hr => absurd hr List.not_mem_nil

/-- In a run of a new service the law holds throughout exactly when every registration comes in
time. -/
theorem registry_lawful_iff {as : List (Action Call Service (Except ServiceError Reply))}
    (h : EachStep Serves (init .new) as) :
    Always RegistryLawful (init .new) as ↔ EachStep Timely (init .new) as :=
  always_iff_eachStep (fun _ _ _ hm hr hs => lawful_step_iff hm hr hs) lawful_new h

/-! ### Two runs -/

theorem serves_moves (m : Host) (moves : List Move) : EachStep Serves m (moves.map Move.action) := by
  refine EachStep.of_forall fun a ha m => ?_
  obtain ⟨move, _, rfl⟩ := List.mem_map.mp ha
  exact serves_move m move

/-- A run of a host that ends in tables without the property. -/
theorem not_always_of_state {moves : List Move} {P : ServiceState → Prop} {s : ServiceState}
    (h : ((init .new : Host).runActions (moves.map Move.action)).map (·.world.state) = some s)
    (hs : ¬ P s) : ¬ Always (fun m : Host => P m.world.state) (init .new) (moves.map Move.action) := by
  intro ha
  obtain ⟨m, hm, rfl⟩ := Option.map_eq_some_iff.mp h
  exact hs (ha.runActions hm)

namespace Sample

def params : LanStartParams := ⟨true, 0, false⟩

/-- Two starts empty the tables before either of them registers its session. -/
def twoStarts : List Move :=
  [.starts 0 (.lanStart params), .starts 1 (.lanStart params), .goes 0, .goes 1, .goes 0, .goes 1,
    .goes 0, .goes 0, .goes 0, .goes 1, .goes 1, .goes 1]

/-- A session is stopped while a relay for it is being connected. -/
def lateRelay : List Move :=
  [.starts 0 (.lanStart params), .goes 0, .goes 0, .goes 0, .goes 0, .goes 0,
    .starts 1 (.sshListen (.lan 0)), .goes 1, .goes 1, .goes 1, .goes 1,
    .starts 2 (.lanStop (.lan 0)), .goes 2, .goes 2, .goes 2, .goes 2, .goes 2, .goes 2, .goes 2,
    .goes 2, .returns 2, .goes 1]

end Sample

theorem twoStarts_sessions : ¬ Always (fun m : Host => OneSession m.world.state) (init .new)
    (Sample.twoStarts.map Move.action) := by
  refine not_always_of_state (s := ⟨false, [1, 0], [], []⟩) (by decide +kernel) fun h => ?_
  exact absurd (h 1 (by decide) 0 (by decide)) (by decide)

theorem lateRelay_relays : ¬ Always (fun m : Host => RelaysServed m.world.state) (init .new)
    (Sample.lateRelay.map Move.action) := by
  refine not_always_of_state (s := ⟨false, [], [], [(1, 0)]⟩) (by decide +kernel) fun h => ?_
  exact absurd (h (1, 0) (by decide)) (by decide)

/-- The run of two starts is one of a host, and one of its registrations comes too late. -/
theorem registry_lawful_sample : EachStep Serves (init .new) (Sample.twoStarts.map Move.action) ∧
    ¬ EachStep Timely (init .new) (Sample.twoStarts.map Move.action) := by
  refine ⟨serves_moves _ _, fun h => twoStarts_sessions ?_⟩
  exact ((registry_lawful_iff (serves_moves _ _)).mpr h).mono fun _ h => h.one

/-- Neither half of the law holds of every run: two sessions are registered at once, and a relay
outlives its session. -/
theorem registry_unlawful :
    (¬ ∀ as, EachStep Serves (init .new) as → Always (fun m => OneSession m.world.state) (init .new) as) ∧
      ¬ ∀ as, EachStep Serves (init .new) as → Always (fun m => RelaysServed m.world.state) (init .new) as :=
  ⟨fun h => twoStarts_sessions (h _ (serves_moves _ _)), fun h => lateRelay_relays (h _ (serves_moves _ _))⟩

end JsonService

end InkHole
