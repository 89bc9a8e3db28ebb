import InkHole.Automata
import InkHole.Names
import Mathlib.Data.List.Perm.Basic

/-! The race of the addresses of a host. The first address is dialled at once, each further one after
a stagger or when an attempt fails, and the first connection wins. -/

namespace InkHole

/-- What the task of an attempt ends with. -/
inductive Finish (Stream : Type*) where
  | connected (stream : Stream)
  | refused (error : String)
  | panicked (error : String)

/-- What the loop keeps in `last_error`. -/
def Finish.error {Stream : Type*} : Finish Stream → Option String
  | .connected _ => none
  | .refused error => some error
  | .panicked error => some s!"dial task failed: {error}"

/-- The attempts are told apart by the position of their address in the list. -/
structure Race (Addr Stream : Type*) where
  remaining : List (Addr × Nat)
  /-- The attempts that were spawned so far. -/
  attempted : List (Addr × Nat)
  running : List Nat
  /-- The tasks that have completed and were not joined yet, in the order they completed in. -/
  finished : List (Nat × Finish Stream)
  /-- All that have completed. -/
  completions : List (Nat × Finish Stream)
  started : Nat
  lastError : Option String
  result : Option (Except CoreError Stream)

inductive RaceEvent (Stream : Type*) where
  | complete (position : Nat) (finish : Finish Stream)
  | tick
  | join

namespace Race

variable {Addr Stream : Type*}

/-- The set of attempts holds the tasks that run and those that wait to be joined. -/
def inFlight (s : Race Addr Stream) : Nat := s.running.length + s.finished.length

def timerArmed (s : Race Addr Stream) : Bool := s.result.isNone && decide (0 < s.remaining.length)

def spawn (s : Race Addr Stream) (target : Addr × Nat) (rest : List (Addr × Nat)) : Race Addr Stream :=
  { s with remaining := rest, attempted := s.attempted ++ [target], running := s.running ++ [target.2] }

def allFailed (lastError : Option String) : CoreError :=
  .protocol ("all addresses failed: " ++ lastError.getD "no attempt was made")

/-- The inner loop, over the addresses that remain. -/
def fill : List (Addr × Nat) → Race Addr Stream → Race Addr Stream
  | [], s =>
    if s.started = 0 ∧ s.inFlight = 0 then { s with result := some (.error (allFailed s.lastError)) } else s
  | target :: rest, s =>
    if s.started = 0 then fill rest { s.spawn target rest with started := s.started + 1 } else s

def nextRound (s : Race Addr Stream) : Race Addr Stream := fill s.remaining s

def idle (addresses : List Addr) : Race Addr Stream where
  remaining := addresses.zipIdx
  attempted := []
  running := []
  finished := []
  completions := []
  started := 0
  lastError := none
  result := none

def complete (s : Race Addr Stream) (position : Nat) (finish : Finish Stream) : Race Addr Stream :=
  { s with
    running := s.running.erase position
    finished := s.finished ++ [(position, finish)]
    completions := s.completions ++ [(position, finish)] }

def tick (s : Race Addr Stream) : Race Addr Stream :=
  match s.remaining with
  | [] => s
  | target :: rest => s.spawn target rest

def fail (s : Race Addr Stream) (error : String) : Race Addr Stream :=
  { s with lastError := some error, started := s.started - 1 }

/-- The task that completed first leaves the set. -/
def join (s : Race Addr Stream) (finish : Finish Stream) (rest : List (Nat × Finish Stream)) :
    Race Addr Stream :=
  let left := { s with finished := rest }
  match finish with
  | .connected stream => { left with result := some (.ok stream) }
  | .refused error => (left.fail error).nextRound
  | .panicked error => (left.fail s!"dial task failed: {error}").nextRound

def step (s : Race Addr Stream) : RaceEvent Stream → Option (Race Addr Stream)
  | .complete position finish =>
    if s.result.isNone && s.running.contains position then some (s.complete position finish) else none
  | .tick => if s.timerArmed then some s.tick.nextRound else none
  | .join =>
    if s.result.isNone then
      match s.finished with
      | [] => none
      | (_, finish) :: rest => some (s.join finish rest)
    else none

/-- Every attempt is that of the next address, and it runs until it completes. -/
structure Placed (addresses : List Addr) (s : Race Addr Stream) : Prop where
  order : s.attempted ++ s.remaining = addresses.zipIdx
  each : List.Perm (s.running ++ s.completions.map Prod.fst) (s.attempted.map Prod.snd)

/-- The attempts that were joined have failed, and the last of them has left its error. -/
structure Joined (s : Race Addr Stream) (failed : List (Nat × Finish Stream)) : Prop where
  completions : s.completions = failed ++ s.finished
  failures : ∀ attempt ∈ failed, attempt.2.error.isSome = true
  reported : s.lastError = failed.getLast?.bind fun attempt => attempt.2.error

/-- What holds when the loop goes to sleep. -/
structure Waits (s : Race Addr Stream) : Prop where
  counted : s.started ≤ s.inFlight
  busy : s.started = 0 → s.remaining = [] ∧ 0 < s.inFlight

structure Racing (addresses : List Addr) (s : Race Addr Stream) : Prop where
  placed : Placed addresses s
  waits : s.result = none → Waits s ∧ ∃ failed, Joined s failed
  lost : ∀ e, s.result = some (.error e) →
    s.remaining = [] ∧ s.inFlight = 0 ∧ e = allFailed s.lastError ∧ ∃ failed, Joined s failed
  won : ∀ stream, s.result = some (.ok stream) → ∃ failed position rest,
    (∀ attempt ∈ failed, attempt.2.error.isSome = true) ∧
      s.completions = failed ++ (position, .connected stream) :: rest

theorem fill_of_started {s : Race Addr Stream} (h : s.started ≠ 0) (remaining : List (Addr × Nat)) :
    fill remaining s = s := by
  cases remaining with
  | nil =>
    rw [fill, if_neg]
    exact fun hzero => h hzero.1
  | cons target rest => rw [fill, if_neg h]

theorem nextRound_of_started {s : Race Addr Stream} (h : s.started ≠ 0) : s.nextRound = s :=
  fill_of_started h s.remaining

theorem nextRound_cons {s : Race Addr Stream} {target : Addr × Nat} {rest : List (Addr × Nat)}
    (h : s.started = 0) (hs : s.remaining = target :: rest) :
    s.nextRound = { s.spawn target rest with started := s.started + 1 } := by
  rw [nextRound, hs, fill, if_pos h]
  exact fill_of_started (Nat.succ_ne_zero s.started) rest

theorem nextRound_out {s : Race Addr Stream} (h : s.started = 0) (hs : s.remaining = [])
    (hempty : s.inFlight = 0) :
    s.nextRound = { s with result := some (.error (allFailed s.lastError)) } := by
  rw [nextRound, hs, fill, if_pos ⟨h, hempty⟩, hs]

theorem nextRound_break {s : Race Addr Stream} (hs : s.remaining = []) (hempty : s.inFlight ≠ 0) :
    s.nextRound = s := by
  rw [nextRound, hs, fill, if_neg]
  exact fun hout => hempty hout.2

@[simp] theorem spawn_inFlight (s : Race Addr Stream) (target : Addr × Nat) (rest : List (Addr × Nat)) :
    (s.spawn target rest).inFlight = s.inFlight + 1 := by
  simp only [inFlight, spawn, List.length_append, List.length_singleton]
  omega

theorem Placed.spawn {addresses : List Addr} {s : Race Addr Stream} {target : Addr × Nat}
    {rest : List (Addr × Nat)} (h : Placed addresses s) (hs : s.remaining = target :: rest) :
    Placed addresses (s.spawn target rest) where
  order := by
    rw [← h.order, hs]
    simp [Race.spawn]
  each := by
    have hmoved : List.Perm (s.running ++ [target.2] ++ s.completions.map Prod.fst)
        (s.running ++ s.completions.map Prod.fst ++ [target.2]) := by
      rw [List.append_assoc, List.append_assoc]
      exact List.perm_append_comm.append_left s.running
    have hmore := h.each.append_right [target.2]
    simpa [Race.spawn] using hmoved.trans hmore

/-- What the rest of the race needs of an error that was joined, or of a tick, before the inner loop. -/
theorem Racing.nextRound {addresses : List Addr} {s : Race Addr Stream} {failed : List (Nat × Finish Stream)}
    (hresult : s.result = none) (hplaced : Placed addresses s) (hjoined : Joined s failed)
    (hcounted : s.started ≤ s.inFlight) : Racing addresses s.nextRound := by
  by_cases hstarted : s.started = 0
  · cases hs : s.remaining with
    | nil =>
      by_cases hempty : s.inFlight = 0
      · rw [nextRound_out hstarted hs hempty]
        refine ⟨⟨hplaced.order, hplaced.each⟩, by simp, ?_, by simp⟩
        intro e he
        have he' : allFailed s.lastError = e := by simpa using he
        exact ⟨hs, hempty, he'.symm, failed, hjoined.completions, hjoined.failures, hjoined.reported⟩
      · rw [nextRound_break hs hempty]
        have hbusy : Waits s := ⟨hcounted, fun _ => ⟨hs, Nat.pos_of_ne_zero hempty⟩⟩
        exact ⟨hplaced, fun _ => ⟨hbusy, failed, hjoined⟩, by simp [hresult], by simp [hresult]⟩
    | cons target rest =>
      rw [nextRound_cons hstarted hs]
      have hnext := hplaced.spawn hs
      have hbusy : Waits { s.spawn target rest with started := s.started + 1 } := by
        constructor
        · have := spawn_inFlight s target rest
          change s.started + 1 ≤ (s.spawn target rest).inFlight
          omega
        · intro hzero
          exact absurd hzero (Nat.succ_ne_zero s.started)
      refine ⟨⟨hnext.order, hnext.each⟩, fun _ => ⟨hbusy, failed, ?_⟩, ?_, ?_⟩
      · exact ⟨hjoined.completions, hjoined.failures, hjoined.reported⟩
      · intro e he
        exact absurd (hresult.symm.trans he) (by simp)
      · intro stream hok
        exact absurd (hresult.symm.trans hok) (by simp)
  · rw [nextRound_of_started hstarted]
    have hbusy : Waits s := ⟨hcounted, fun hzero => absurd hzero hstarted⟩
    exact ⟨hplaced, fun _ => ⟨hbusy, failed, hjoined⟩, by simp [hresult], by simp [hresult]⟩

theorem Racing.start (addresses : List Addr) :
    Racing addresses (idle addresses : Race Addr Stream).nextRound := by
  have hplaced : Placed addresses (idle addresses : Race Addr Stream) := ⟨rfl, List.Perm.refl []⟩
  have hjoined : Joined (idle addresses : Race Addr Stream) [] := ⟨rfl, by simp, rfl⟩
  exact Racing.nextRound rfl hplaced hjoined (Nat.zero_le _)

theorem Racing.complete {addresses : List Addr} {s : Race Addr Stream} {position : Nat} {finish : Finish Stream}
    (h : Racing addresses s) (hresult : s.result = none) (hrunning : position ∈ s.running) :
    Racing addresses (s.complete position finish) := by
  obtain ⟨hwaits, failed, hjoined⟩ := h.waits hresult
  have hsame : (s.complete position finish).inFlight = s.inFlight := by
    have hlength := List.length_erase_add_one hrunning
    simp only [inFlight, Race.complete, List.length_append, List.length_singleton]
    omega
  have hplaced : Placed addresses (s.complete position finish) := by
    constructor
    · exact h.placed.order
    · have hmoved : List.Perm (position :: (s.running.erase position ++ s.completions.map Prod.fst))
          (s.running ++ s.completions.map Prod.fst) :=
        (List.perm_cons_erase hrunning).symm.append_right _
      have hlast : List.Perm (s.running.erase position ++ (s.completions.map Prod.fst ++ [position]))
          (position :: (s.running.erase position ++ s.completions.map Prod.fst)) := by
        rw [← List.append_assoc]
        exact List.perm_append_singleton position _
      simpa [Race.complete] using (hlast.trans hmoved).trans h.placed.each
  have hnext : Joined (s.complete position finish) failed := by
    refine ⟨?_, hjoined.failures, hjoined.reported⟩
    simp [Race.complete, hjoined.completions]
  have hbusy : Waits (s.complete position finish) := by
    constructor
    · rw [hsame]
      exact hwaits.counted
    · rw [hsame]
      exact hwaits.busy
  exact ⟨hplaced, fun _ => ⟨hbusy, failed, hnext⟩, by simp [Race.complete, hresult],
    by simp [Race.complete, hresult]⟩

theorem Racing.tick {addresses : List Addr} {s : Race Addr Stream} (h : Racing addresses s)
    (hresult : s.result = none) : Racing addresses s.tick.nextRound := by
  obtain ⟨hwaits, failed, hjoined⟩ := h.waits hresult
  cases hs : s.remaining with
  | nil =>
    have htick : s.tick = s := by rw [Race.tick, hs]
    rw [htick]
    exact Racing.nextRound hresult h.placed hjoined hwaits.counted
  | cons target rest =>
    have htick : s.tick = s.spawn target rest := by rw [Race.tick, hs]
    rw [htick]
    have hnext : Joined (s.spawn target rest) failed :=
      ⟨hjoined.completions, hjoined.failures, hjoined.reported⟩
    have hcounted : s.started ≤ (s.spawn target rest).inFlight := by
      rw [spawn_inFlight]
      exact Nat.le_succ_of_le hwaits.counted
    exact Racing.nextRound hresult (h.placed.spawn hs) hnext hcounted

/-- A failure leaves one attempt less in flight, and counts one less. -/
theorem Racing.fail {addresses : List Addr} {s : Race Addr Stream} {position : Nat} {finish : Finish Stream}
    {rest : List (Nat × Finish Stream)} {error : String} (h : Racing addresses s) (hresult : s.result = none)
    (hs : s.finished = (position, finish) :: rest) (herror : finish.error = some error) :
    Racing addresses (Race.nextRound (Race.fail { s with finished := rest } error)) := by
  obtain ⟨hwaits, failed, hjoined⟩ := h.waits hresult
  have hlast : Joined (Race.fail { s with finished := rest } error) (failed ++ [(position, finish)]) := by
    constructor
    · simp [Race.fail, hjoined.completions, hs]
    · intro attempt ha
      rcases List.mem_append.mp ha with hold | hnew
      · exact hjoined.failures attempt hold
      · obtain rfl := List.mem_singleton.mp hnew
        rw [herror]
        rfl
    · simp [Race.fail, herror]
  refine Racing.nextRound hresult ⟨h.placed.order, h.placed.each⟩ hlast ?_
  have hcounted := hwaits.counted
  simp only [inFlight, hs, List.length_cons] at hcounted
  simp only [inFlight, Race.fail]
  omega

theorem Racing.join {addresses : List Addr} {s : Race Addr Stream} {position : Nat} {finish : Finish Stream}
    {rest : List (Nat × Finish Stream)} (h : Racing addresses s) (hresult : s.result = none)
    (hs : s.finished = (position, finish) :: rest) : Racing addresses (s.join finish rest) := by
  cases finish with
  | connected stream =>
    obtain ⟨-, failed, hjoined⟩ := h.waits hresult
    refine ⟨⟨h.placed.order, h.placed.each⟩, by simp [Race.join], by simp [Race.join], ?_⟩
    intro other hok
    obtain rfl : stream = other := by simpa [Race.join] using hok
    refine ⟨failed, position, rest, hjoined.failures, ?_⟩
    rw [← hs]
    exact hjoined.completions
  | refused error => exact h.fail hresult hs rfl
  | panicked error => exact h.fail hresult hs rfl

theorem Racing.step {addresses : List Addr} {s s' : Race Addr Stream} {event : RaceEvent Stream}
    (h : Racing addresses s) (he : s.step event = some s') : Racing addresses s' := by
  cases event with
  | complete position finish =>
    rw [Race.step] at he
    split at he
    · next hguard =>
      obtain rfl := Option.some.inj he
      rw [Bool.and_eq_true, Option.isNone_iff_eq_none, List.contains_iff_mem] at hguard
      exact h.complete hguard.1 hguard.2
    · cases he
  | tick =>
    rw [Race.step] at he
    split at he
    · next harmed =>
      obtain rfl := Option.some.inj he
      rw [timerArmed, Bool.and_eq_true, Option.isNone_iff_eq_none] at harmed
      exact h.tick harmed.1
    · cases he
  | join =>
    rw [Race.step] at he
    split at he
    · next hresult =>
      rw [Option.isNone_iff_eq_none] at hresult
      cases hs : s.finished with
      | nil => simp [hs] at he
      | cons attempt rest =>
        obtain ⟨position, finish⟩ := attempt
        rw [hs] at he
        obtain rfl := Option.some.inj he
        exact h.join hresult hs
    · cases he

/-- What is promised in every state of a race. -/
structure Correct (addresses : List Addr) (s : Race Addr Stream) : Prop where
  /-- The attempts so far are those of the first positions, each once and in the order of the list. -/
  inOrder : s.attempted <+: addresses.zipIdx
  once : (s.attempted.map Prod.snd).Nodup
  /-- The attempts that have completed are those that were spawned and do not run, each once. -/
  each : List.Perm (s.running ++ s.completions.map Prod.fst) (s.attempted.map Prod.snd)
  /-- An error comes after each position has completed, and none of them with a connection. -/
  lost : ∀ e, s.result = some (.error e) →
    List.Perm (s.completions.map Prod.fst) (List.range addresses.length) ∧
      ∀ attempt ∈ s.completions, attempt.2.error.isSome = true
  /-- The stream is that of the first completion with a connection. -/
  won : ∀ stream, s.result = some (.ok stream) →
    ∃ position, s.completions.find? (fun attempt => attempt.2.error.isNone) =
      some (position, .connected stream)
  busy : s.result = none → 0 < s.inFlight
  neverStuck : ¬ (s.result = none ∧ s.remaining ≠ [] ∧ s.inFlight = 0 ∧ s.timerArmed = false)

theorem zipIdx_positions (addresses : List Addr) :
    addresses.zipIdx.map Prod.snd = List.range addresses.length := by
  rw [List.zipIdx_map_snd, List.range_eq_range']

theorem Waits.inFlight_pos {s : Race Addr Stream} (h : Waits s) : 0 < s.inFlight := by
  by_cases hstarted : s.started = 0
  · exact (h.busy hstarted).2
  · exact Nat.lt_of_lt_of_le (Nat.pos_of_ne_zero hstarted) h.counted

theorem Racing.correct {addresses : List Addr} {s : Race Addr Stream} (h : Racing addresses s) :
    Correct addresses s := by
  have horder : s.attempted <+: addresses.zipIdx := ⟨s.remaining, h.placed.order⟩
  have hbusy : s.result = none → 0 < s.inFlight := fun hnone => (h.waits hnone).1.inFlight_pos
  refine ⟨horder, ?_, h.placed.each, ?_, ?_, hbusy, ?_⟩
  · have hpositions : (addresses.zipIdx.map Prod.snd).Nodup := by
      rw [zipIdx_positions]
      exact List.nodup_range
    exact hpositions.sublist (horder.sublist.map Prod.snd)
  · intro e he
    obtain ⟨hremaining, hempty, -, failed, hjoined⟩ := h.lost e he
    have hidle : s.running = [] ∧ s.finished = [] := by
      rw [inFlight, Nat.add_eq_zero_iff] at hempty
      exact ⟨List.eq_nil_of_length_eq_zero hempty.1, List.eq_nil_of_length_eq_zero hempty.2⟩
    have hall : s.attempted = addresses.zipIdx := by
      rw [← h.placed.order, hremaining, List.append_nil]
    constructor
    · have heach := h.placed.each
      rwa [hidle.1, List.nil_append, hall, zipIdx_positions] at heach
    · rw [hjoined.completions, hidle.2, List.append_nil]
      exact hjoined.failures
  · intro stream hok
    obtain ⟨failed, position, rest, hfailed, hcompletions⟩ := h.won stream hok
    have hnone : failed.find? (fun attempt => attempt.2.error.isNone) = none := by
      rw [List.find?_eq_none]
      intro attempt ha
      have := hfailed attempt ha
      rw [Option.isNone_iff_eq_none]
      intro hsome
      rw [hsome] at this
      cases this
    refine ⟨position, ?_⟩
    rw [hcompletions, List.find?_append, hnone]
    rfl
  · rintro ⟨hnone, -, hempty, -⟩
    exact absurd hempty (Nat.pos_iff_ne_zero.mp (hbusy hnone))

end Race

/-- The runs of `race_addresses` that nobody cancels. -/
def raceAddresses {Addr : Type*} (Stream : Type*) (addresses : List Addr) :
    Automaton (Race Addr Stream) (RaceEvent Stream) where
  start := (Race.idle addresses).nextRound
  step := Race.step

theorem raceAddresses_racing {Addr Stream : Type*} {addresses : List Addr} {s : Race Addr Stream}
    (h : (raceAddresses Stream addresses).Reaches Automaton.free s) : Race.Racing addresses s :=
  h.invariant (Race.Racing.start addresses) fun _ _ _ hracing _ he => hracing.step he

/-- Whatever the order of ticks and completions, the race tries every address before it fails, takes
the first connection, and always waits for something. -/
theorem raceAddresses_correct {Addr Stream : Type*} {addresses : List Addr} {s : Race Addr Stream}
    (h : (raceAddresses Stream addresses).Reaches Automaton.free s) : Race.Correct addresses s :=
  (raceAddresses_racing h).correct

/-- The second address is dialled on a tick and fails before the first one connects. -/
theorem raceAddresses_correct_slow_first :
    ∃ s : Race String String, s.result = some (.ok "stream") ∧ Race.Correct ["[fd00::1]:47891", "10.0.0.7:47891"] s := by
  have hrun : (raceAddresses String ["[fd00::1]:47891", "10.0.0.7:47891"]).Reaches Automaton.free
      { remaining := []
        attempted := [("[fd00::1]:47891", 0), ("10.0.0.7:47891", 1)]
        running := []
        finished := []
        completions := [(1, .refused "connection refused"), (0, .connected "stream")]
        started := 0
        lastError := some "connection refused"
        result := some (.ok "stream") } := by
    refine ⟨[.tick, .complete 1 (.refused "connection refused"), .join, .complete 0 (.connected "stream"), .join], ?_⟩
    rfl
  exact ⟨_, rfl, raceAddresses_correct hrun⟩

/-- The error that is returned names that of the attempt which was joined last. -/
theorem raceAddresses_error {Addr Stream : Type*} {addresses : List Addr} {s : Race Addr Stream} {e : CoreError}
    (h : (raceAddresses Stream addresses).Reaches Automaton.free s) (he : s.result = some (.error e)) :
    e = Race.allFailed (s.completions.getLast?.bind fun attempt => attempt.2.error) := by
  obtain ⟨-, hempty, rfl, failed, hjoined⟩ := (raceAddresses_racing h).lost e he
  have hfinished : s.finished = [] := by
    rw [Race.inFlight, Nat.add_eq_zero_iff] at hempty
    exact List.eq_nil_of_length_eq_zero hempty.2
  rw [hjoined.reported, hjoined.completions, hfinished, List.append_nil]

end InkHole
