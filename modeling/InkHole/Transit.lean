import InkHole.AddressRace
import InkHole.Protocol

/-! The transit of a wormhole. The sender waits for a connection from its listeners and its relay, the
receiver dials every hint it was offered, and both take the first one whose handshake is done. -/

namespace InkHole

namespace Transit

inductive TransitHintKind where
  | directTcpV1
  | relayV1
  deriving DecidableEq, Repr

structure TransitHint where
  kind : TransitHintKind
  host : String
  port : Nat
  priority : Nat
  deriving DecidableEq, Repr

structure TransitOffer where
  hints : List TransitHint

def maxTransitHints : Nat := 32

def invalidHint (hint : TransitHint) : Bool :=
  hint.host.isEmpty || decide (255 < hint.host.utf8ByteSize) || hint.port == 0 || hint.host.toList.any isWhitespace

def validateOffer (offer : TransitOffer) : Except CoreError Unit :=
  if offer.hints.isEmpty || decide (maxTransitHints < offer.hints.length) then
    .error (.protocol "transit offer has an invalid hint count")
  else if offer.hints.any invalidHint then .error (.protocol "transit offer contains an invalid hint")
  else .ok ()

/-- Tasks that run, and those that have completed and were not joined yet. -/
structure JoinSet where
  running : List Nat
  finished : List (Nat × Finish Unit)

namespace JoinSet

def empty : JoinSet := ⟨[], []⟩

def spawn (tasks : JoinSet) (task : Nat) : JoinSet := { tasks with running := tasks.running ++ [task] }

def complete (tasks : JoinSet) (task : Nat) (finish : Finish Unit) : JoinSet :=
  ⟨tasks.running.erase task, tasks.finished ++ [(task, finish)]⟩

end JoinSet

/-! The side of the sender. Connections are numbered. -/

/-- A future that `accept` selects from: what `accept_direct` has spawned, or where the reserved
connection to the relay stands. -/
inductive Source where
  | absent
  | listening (handshakes : JoinSet)
  | reserved (stream : Nat)
  | paired (stream : Nat)
  | ended (result : Except CoreError Nat)

inductive SourceEvent where
  | accepted (stream : Nat)
  | acceptFailed (error : IoError)
  | handshake (stream : Nat) (finish : Finish Unit)
  | join
  /-- The relay has found the other side. -/
  | acknowledged
  | relayFailed (error : CoreError)
  | relayAuthenticated

namespace Source

/-- The next task of the set is joined. -/
def join (handshakes : JoinSet) : Option Source :=
  match handshakes.finished with
  | [] => none
  | (stream, .connected ()) :: _ => some (.ended (.ok stream))
  | (_, .refused _) :: rest => some (.listening { handshakes with finished := rest })
  | (_, .panicked _) :: rest => some (.listening { handshakes with finished := rest })

def step : Source → SourceEvent → Option Source
  | .listening handshakes, .accepted stream => some (.listening (handshakes.spawn stream))
  | .listening _, .acceptFailed error => some (.ended (.error (.io error)))
  | .listening handshakes, .handshake stream finish =>
    if handshakes.running.contains stream then some (.listening (handshakes.complete stream finish)) else none
  | .listening handshakes, .join => join handshakes
  | .reserved stream, .acknowledged => some (.paired stream)
  | .reserved _, .relayFailed error => some (.ended (.error error))
  | .paired stream, .relayAuthenticated => some (.ended (.ok stream))
  | .paired _, .relayFailed error => some (.ended (.error error))
  | _, _ => none

def result : Source → Option (Except CoreError Nat)
  | .ended result => some result
  | _ => none

def isAbsent : Source → Bool
  | .absent => true
  | _ => false

/-- What happens to this source alone can still end with an authenticated stream. -/
def CanComplete (source : Source) : Prop :=
  ∃ (events : List SourceEvent) (stream : Nat), events.foldlM step source = some (.ended (.ok stream))

end Source

inductive Candidate where
  | direct
  | directV6
  | relay
  deriving DecidableEq, Repr

structure Acceptor where
  direct : Source
  directV6 : Source
  relay : Source
  result : Option (Except CoreError Nat)

namespace Acceptor

def source (s : Acceptor) : Candidate → Source
  | .direct => s.direct
  | .directV6 => s.directV6
  | .relay => s.relay

def put (s : Acceptor) (candidate : Candidate) (next : Source) : Acceptor :=
  match candidate with
  | .direct => { s with direct := next }
  | .directV6 => { s with directV6 := next }
  | .relay => { s with relay := next }

/-- The host may lack IPv6, and the reservation of the relay may have failed. -/
def waiting (hasV6 : Bool) (relay : Option Nat) : Acceptor where
  direct := .listening .empty
  directV6 := if hasV6 then .listening .empty else .absent
  relay := relay.elim .absent .reserved
  result := none

/-- The first future that ends decides. -/
def step (s : Acceptor) (event : Candidate × SourceEvent) : Option Acceptor :=
  if s.result.isNone then
    ((s.source event.1).step event.2).map fun next => { s.put event.1 next with result := next.result }
  else none

/-- An error is returned only if no candidate can complete a handshake any more. -/
def Tolerant (s : Acceptor) : Prop :=
  ∀ e, s.result = some (.error e) → ∀ candidate, ¬ (s.source candidate).CanComplete

def failing : SourceEvent → Bool
  | .acceptFailed _ => true
  | .relayFailed _ => true
  | _ => false

/-- No source fails beside another one. -/
def harmless (s : Acceptor) (event : Candidate × SourceEvent) : Bool :=
  !failing event.2 || (s.directV6.isAbsent && s.relay.isAbsent)

end Acceptor

/-- The runs of `accept` that nobody cancels. -/
def accept (hasV6 : Bool) (relay : Option Nat) : Automaton Acceptor (Candidate × SourceEvent) where
  start := Acceptor.waiting hasV6 relay
  step := Acceptor.step

namespace Source

/-- The source is one that something can still happen to. -/
def waits : Source → Bool
  | .listening _ => true
  | .reserved _ => true
  | .paired _ => true
  | _ => false

theorem isAbsent_of_waits {source : Source} (h : source.waits = true) : source.isAbsent = false := by
  cases source <;> first | rfl | cases h

theorem step_waits {source next : Source} {event : SourceEvent} (h : source.step event = some next) :
    source.waits = true := by
  cases source with
  | listening handshakes => rfl
  | reserved stream => rfl
  | paired stream => rfl
  | absent => cases event <;> cases h
  | ended result => cases event <;> cases h

theorem join_cases {handshakes : JoinSet} {next : Source} (h : join handshakes = some next) :
    next.waits = true ∨ ∃ stream, next = .ended (.ok stream) := by
  rw [join] at h
  split at h
  · cases h
  · exact .inr ⟨_, (Option.some.inj h).symm⟩
  · obtain rfl := Option.some.inj h
    exact .inl rfl
  · obtain rfl := Option.some.inj h
    exact .inl rfl

/-- A source goes on, gives a stream, or fails. -/
theorem step_cases {source next : Source} {event : SourceEvent} (h : source.step event = some next) :
    (Acceptor.failing event = false ∧ (next.waits = true ∨ ∃ stream, next = .ended (.ok stream))) ∨
      (Acceptor.failing event = true ∧ ∃ e, next = .ended (.error e)) := by
  cases source with
  | absent => cases event <;> cases h
  | ended result => cases event <;> cases h
  | listening handshakes =>
    cases event with
    | accepted stream =>
      obtain rfl := Option.some.inj h
      exact .inl ⟨rfl, .inl rfl⟩
    | acceptFailed error => exact .inr ⟨rfl, _, (Option.some.inj h).symm⟩
    | handshake stream finish =>
      rw [step] at h
      split at h
      · obtain rfl := Option.some.inj h
        exact .inl ⟨rfl, .inl rfl⟩
      · cases h
    | join => exact .inl ⟨rfl, join_cases h⟩
    | acknowledged => cases h
    | relayFailed error => cases h
    | relayAuthenticated => cases h
  | reserved stream =>
    cases event with
    | acknowledged =>
      obtain rfl := Option.some.inj h
      exact .inl ⟨rfl, .inl rfl⟩
    | relayFailed error => exact .inr ⟨rfl, _, (Option.some.inj h).symm⟩
    | _ => cases h
  | paired stream =>
    cases event with
    | relayAuthenticated => exact .inl ⟨rfl, .inr ⟨_, (Option.some.inj h).symm⟩⟩
    | relayFailed error => exact .inr ⟨rfl, _, (Option.some.inj h).symm⟩
    | _ => cases h

theorem not_canComplete {source : Source} (hwaits : source.waits = false)
    (hended : ∀ stream, source ≠ .ended (.ok stream)) : ¬ source.CanComplete := by
  rintro ⟨events, stream, hrun⟩
  cases events with
  | nil => exact hended stream (Option.some.inj hrun)
  | cons event events =>
    obtain ⟨next, hstep, -⟩ := Option.bind_eq_some_iff.mp hrun
    rw [step_waits hstep] at hwaits
    cases hwaits

/-- A listener drops the handshakes that were rejected before the one that is done. -/
theorem drain (finished : List (Nat × Finish Unit)) (running : List Nat) (stream : Nat) :
    ∃ (events : List SourceEvent) (other : Nat), events.foldlM step (.listening ⟨running, finished ++ [(stream, .connected ())]⟩) =
      some (.ended (.ok other)) := by
  induction finished with
  | nil => exact ⟨[.join], stream, rfl⟩
  | cons first finished ih =>
    obtain ⟨task, finish⟩ := first
    obtain ⟨events, other, hrun⟩ := ih
    cases finish with
    | connected _ => exact ⟨[.join], task, rfl⟩
    | refused error => exact ⟨.join :: events, other, hrun⟩
    | panicked error => exact ⟨.join :: events, other, hrun⟩

theorem canComplete_of_waits {source : Source} (h : source.waits = true) : source.CanComplete := by
  cases source with
  | absent => cases h
  | ended result => cases h
  | reserved stream => exact ⟨[.acknowledged, .relayAuthenticated], stream, rfl⟩
  | paired stream => exact ⟨[.relayAuthenticated], stream, rfl⟩
  | listening handshakes =>
    -- another peer connects, and the handshake with it succeeds
    obtain ⟨events, stream, hrun⟩ := drain handshakes.finished ((handshakes.running ++ [0]).erase 0) 0
    refine ⟨.accepted 0 :: .handshake 0 (.connected ()) :: events, stream, ?_⟩
    have hin : (handshakes.spawn 0).running.contains 0 = true := by simp [JoinSet.spawn]
    have hnext : step (.listening (handshakes.spawn 0)) (.handshake 0 (.connected ())) =
        some (.listening ((handshakes.spawn 0).complete 0 (.connected ()))) := if_pos hin
    rw [List.foldlM_cons]
    change (((SourceEvent.handshake 0 (.connected ())) :: events).foldlM step (.listening (handshakes.spawn 0))) = _
    rw [List.foldlM_cons, hnext]
    exact hrun

end Source

namespace Acceptor

/-- Nothing is decided, and every source there is can still be the one that completes. -/
structure Open (s : Acceptor) : Prop where
  result : s.result = none
  direct : s.direct.waits = true
  sources : ∀ candidate, (s.source candidate).waits = true ∨ s.source candidate = .absent

theorem source_put (s : Acceptor) (candidate other : Candidate) (next : Source) :
    (s.put candidate next).source other = if other = candidate then next else s.source other := by
  cases candidate <;> cases other <;> rfl

theorem open_waiting (hasV6 : Bool) (relay : Option Nat) : Open (waiting hasV6 relay) := by
  refine ⟨rfl, rfl, fun candidate => ?_⟩
  cases candidate with
  | direct => exact .inl rfl
  | directV6 =>
    cases hasV6 with
    | false => exact .inr rfl
    | true => exact .inl rfl
  | relay =>
    cases relay with
    | none => exact .inr rfl
    | some stream => exact .inl rfl

theorem step_eq {s s' : Acceptor} {event : Candidate × SourceEvent} (h : s.step event = some s') :
    ∃ next, (s.source event.1).step event.2 = some next ∧
      s' = { s.put event.1 next with result := next.result } := by
  rw [step] at h
  split at h
  · obtain ⟨next, hnext, rfl⟩ := Option.map_eq_some_iff.mp h
    exact ⟨next, hnext, rfl⟩
  · cases h

theorem Open.put {s : Acceptor} (h : Open s) (candidate : Candidate) {next : Source}
    (hnext : next.waits = true) : Open { s.put candidate next with result := next.result } := by
  have hresult : next.result = none := by
    cases next <;> first | rfl | cases hnext
  have hsources : ∀ other, ((s.put candidate next).source other).waits = true ∨
      (s.put candidate next).source other = .absent := by
    intro other
    rw [source_put]
    split
    · exact .inl hnext
    · exact h.sources other
  refine ⟨hresult, ?_, hsources⟩
  change ((s.put candidate next).source .direct).waits = true
  rw [source_put]
  split
  · exact hnext
  · exact h.direct

theorem isAbsent_iff {s : Acceptor} (h : Open s) (candidate : Candidate) :
    (s.source candidate).isAbsent = true ↔ ¬ (s.source candidate).CanComplete := by
  rcases h.sources candidate with hwaits | habsent
  · simp [Source.isAbsent_of_waits hwaits, Source.canComplete_of_waits hwaits]
  · have hno : ¬ Source.CanComplete .absent := Source.not_canComplete rfl (by simp)
    rw [habsent]
    exact ⟨fun _ => hno, fun _ => rfl⟩

/-- When a source has failed, the others are as they were. -/
theorem tolerant_failed_iff {s : Acceptor} {candidate : Candidate} {e : CoreError} (h : Open s)
    (hcandidate : (s.source candidate).waits = true) :
    Tolerant { s.put candidate (.ended (.error e)) with result := some (.error e) } ↔
      s.directV6.isAbsent = true ∧ s.relay.isAbsent = true := by
  have hself : ¬ Source.CanComplete (.ended (.error e)) :=
    Source.not_canComplete rfl (by simp)
  have hothers : Tolerant { s.put candidate (.ended (.error e)) with result := some (.error e) } ↔
      ∀ other, other ≠ candidate → (s.source other).isAbsent = true := by
    constructor
    · intro ht other hne
      have hno : ¬ ((s.put candidate (.ended (.error e))).source other).CanComplete := ht e rfl other
      rw [source_put, if_neg hne] at hno
      exact (isAbsent_iff h other).mpr hno
    · intro hall e' he other
      change ¬ ((s.put candidate (.ended (.error e))).source other).CanComplete
      rw [source_put]
      split
      · exact hself
      · next hne => exact (isAbsent_iff h other).mp (hall other hne)
  rw [hothers]
  have hdirect := Source.isAbsent_of_waits h.direct
  have hown := Source.isAbsent_of_waits hcandidate
  cases candidate with
  | direct =>
    refine ⟨fun hall => ⟨hall .directV6 (by decide), hall .relay (by decide)⟩, ?_⟩
    rintro ⟨hv6, hrelay⟩ other hne
    cases other with
    | direct => exact absurd rfl hne
    | directV6 => exact hv6
    | relay => exact hrelay
  | directV6 =>
    constructor
    · intro hall
      exact absurd (hall .direct (by decide)) (by simp [source, hdirect])
    · rintro ⟨hv6, -⟩
      exact absurd (hown.symm.trans hv6) (by decide)
  | relay =>
    constructor
    · intro hall
      exact absurd (hall .direct (by decide)) (by simp [source, hdirect])
    · rintro ⟨-, hrelay⟩
      exact absurd (hown.symm.trans hrelay) (by decide)

/-- A step keeps the acceptor open and is harmless, or it decides. -/
theorem step_open {s s' : Acceptor} {event : Candidate × SourceEvent} (h : Open s)
    (he : s.step event = some s') :
    (Open s' ∧ harmless s event = true) ∨
      (s'.result.isNone = false ∧ (Tolerant s' ↔ harmless s event = true)) := by
  obtain ⟨next, hnext, rfl⟩ := step_eq he
  rcases Source.step_cases hnext with ⟨hfails, hwaits | ⟨stream, rfl⟩⟩ | ⟨hfails, e, rfl⟩
  · exact .inl ⟨h.put event.1 hwaits, by rw [harmless, hfails]; rfl⟩
  · refine .inr ⟨rfl, ?_⟩
    have hok : Tolerant { s.put event.1 (.ended (.ok stream)) with result := some (.ok stream) } := by
      intro e he
      cases he
    rw [harmless, hfails]
    exact ⟨fun _ => rfl, fun _ => hok⟩
  · refine .inr ⟨rfl, ?_⟩
    rw [harmless, hfails, Bool.not_true, Bool.false_or, Bool.and_eq_true]
    exact tolerant_failed_iff h (Source.step_waits hnext)

theorem tolerant_of_open {s : Acceptor} (h : Open s) : Tolerant s := by
  intro e he
  rw [h.result] at he
  cases he

theorem tolerant_iff_from {A : Automaton Acceptor (Candidate × SourceEvent)} (hA : A.step = Acceptor.step)
    {s t : Acceptor} {es : List (Candidate × SourceEvent)} (h : Open s)
    (hrun : A.runFrom Automaton.free s es = some t) : Tolerant t ↔ A.runFrom harmless s es = some t := by
  induction es generalizing s with
  | nil =>
    obtain rfl := Option.some.inj hrun
    exact ⟨fun _ => rfl, fun _ => tolerant_of_open h⟩
  | cons event es ih =>
    rw [Automaton.runFrom, Automaton.free, if_pos rfl, hA] at hrun
    obtain ⟨s₁, hstep, hrest⟩ := Option.bind_eq_some_iff.mp hrun
    rw [Automaton.runFrom, hA, hstep, Option.bind_some]
    rcases step_open h hstep with ⟨hopen, hharmless⟩ | ⟨hdecided, htolerant⟩
    · rw [if_pos hharmless]
      exact ih hopen hrest
    · -- nothing happens after the decision
      cases es with
      | nil =>
        obtain rfl := Option.some.inj hrest
        rw [htolerant]
        by_cases hh : harmless s event = true
        · rw [if_pos hh]
          exact ⟨fun _ => rfl, fun _ => hh⟩
        · rw [if_neg hh]
          exact ⟨fun hh' => absurd hh' hh, fun hnone => by cases hnone⟩
      | cons next es =>
        rw [Automaton.runFrom, Automaton.free, if_pos rfl, hA, step, hdecided, if_neg Bool.false_ne_true] at hrest
        cases hrest

end Acceptor

/-! The side of the receiver. -/

def sortedHints (offer : TransitOffer) : List TransitHint :=
  offer.hints.mergeSort fun a b => decide (b.priority ≤ a.priority)

/-- An attempt is named by the position of its hint among the sorted ones. -/
structure Connector where
  attempts : JoinSet
  completions : List (Nat × Finish Unit)
  errors : List String
  result : Option (Except CoreError Nat)

inductive ConnectEvent where
  | complete (attempt : Nat) (finish : Finish Unit)
  | join

namespace Connector

def dialling (offer : TransitOffer) : Connector :=
  match validateOffer offer with
  | .error error => ⟨.empty, [], [], some (.error error)⟩
  | .ok () => ⟨⟨List.range (sortedHints offer).length, []⟩, [], [], none⟩

def failed (errors : List String) : CoreError :=
  .protocol ("failed to establish direct or relayed transit: " ++ errors.getLast?.getD "no transit hints")

def join (s : Connector) : Option Connector :=
  match s.attempts.finished with
  | [] => if s.attempts.running.isEmpty then some { s with result := some (.error (failed s.errors)) } else none
  | (attempt, .connected ()) :: rest =>
    some { s with attempts := { s.attempts with finished := rest }, result := some (.ok attempt) }
  | (_, .refused error) :: rest =>
    some { s with attempts := { s.attempts with finished := rest }, errors := s.errors ++ [error] }
  | (_, .panicked error) :: rest =>
    some { s with
      attempts := { s.attempts with finished := rest }
      errors := s.errors ++ [s!"transit task failed: {error}"] }

def step (s : Connector) : ConnectEvent → Option Connector
  | .complete attempt finish =>
    if s.result.isNone && s.attempts.running.contains attempt then
      some { s with
        attempts := s.attempts.complete attempt finish
        completions := s.completions ++ [(attempt, finish)] }
    else none
  | .join => if s.result.isNone then s.join else none

/-- An error is returned only after every hint has failed. -/
def Exhausted (offer : TransitOffer) (s : Connector) : Prop :=
  ∀ e, s.result = some (.error e) → ∀ attempt ∈ (sortedHints offer).zipIdx,
    ∃ finish, (attempt.2, finish) ∈ s.completions ∧ finish.error.isSome = true

end Connector

/-- The runs of `connect` that nobody cancels. -/
def connect (offer : TransitOffer) : Automaton Connector ConnectEvent where
  start := Connector.dialling offer
  step := Connector.step

theorem sortedHints_perm (offer : TransitOffer) : List.Perm (sortedHints offer) offer.hints :=
  List.mergeSort_perm _ _

namespace Connector

/-- What holds while attempts are joined: those that were joined have failed, and every attempt runs
or has completed. -/
structure Dialled (offer : TransitOffer) (s : Connector) : Prop where
  each : List.Perm (s.attempts.running ++ s.completions.map Prod.fst) (List.range (sortedHints offer).length)
  joined : ∃ failed, s.completions = failed ++ s.attempts.finished ∧
    ∀ attempt ∈ failed, attempt.2.error.isSome = true

theorem Dialled.complete {offer : TransitOffer} {s : Connector} {attempt : Nat} {finish : Finish Unit}
    (h : Dialled offer s) (hrunning : attempt ∈ s.attempts.running) :
    Dialled offer { s with
      attempts := s.attempts.complete attempt finish
      completions := s.completions ++ [(attempt, finish)] } := by
  obtain ⟨failed, hcompletions, hfailed⟩ := h.joined
  constructor
  · have hmoved : List.Perm (attempt :: (s.attempts.running.erase attempt ++ s.completions.map Prod.fst))
        (s.attempts.running ++ s.completions.map Prod.fst) :=
      (List.perm_cons_erase hrunning).symm.append_right _
    have hlast : List.Perm (s.attempts.running.erase attempt ++ (s.completions.map Prod.fst ++ [attempt]))
        (attempt :: (s.attempts.running.erase attempt ++ s.completions.map Prod.fst)) := by
      rw [← List.append_assoc]
      exact List.perm_append_singleton attempt _
    simpa [JoinSet.complete] using (hlast.trans hmoved).trans h.each
  · refine ⟨failed, ?_, hfailed⟩
    simp [JoinSet.complete, hcompletions]

theorem Dialled.fail {offer : TransitOffer} {s : Connector} {attempt : Nat} {finish : Finish Unit}
    {rest : List (Nat × Finish Unit)} {errors : List String} (h : Dialled offer s)
    (hs : s.attempts.finished = (attempt, finish) :: rest) (herror : finish.error.isSome = true) :
    Dialled offer { s with attempts := { s.attempts with finished := rest }, errors := errors } := by
  obtain ⟨failed, hcompletions, hfailed⟩ := h.joined
  refine ⟨h.each, failed ++ [(attempt, finish)], ?_, ?_⟩
  · simp [hcompletions, hs]
  · intro other ho
    rcases List.mem_append.mp ho with hold | hnew
    · exact hfailed other hold
    · obtain rfl := List.mem_singleton.mp hnew
      exact herror

theorem Dialled.exhausted {offer : TransitOffer} {s : Connector} (h : Dialled offer s)
    (hfinished : s.attempts.finished = []) (hrunning : s.attempts.running = []) (e : CoreError) :
    Exhausted offer { s with result := some (.error e) } := by
  intro e' he attempt ha
  obtain ⟨failed, hcompletions, hfailed⟩ := h.joined
  rw [hfinished, List.append_nil] at hcompletions
  have hposition : attempt.2 ∈ List.range (sortedHints offer).length :=
    List.mem_range.mpr (List.snd_lt_of_mem_zipIdx ha)
  have hin := h.each.symm.mem_iff.mp hposition
  rw [hrunning, List.nil_append, List.mem_map] at hin
  obtain ⟨⟨position, finish⟩, hmem, hsame⟩ := hin
  obtain rfl : position = attempt.2 := hsame
  exact ⟨finish, hmem, hfailed _ (hcompletions ▸ hmem)⟩

/-- An offer that is valid is dialled until it is decided. -/
def Sound (offer : TransitOffer) (s : Connector) : Prop :=
  Exhausted offer s ∧ (s.result = none → Dialled offer s)

theorem Sound.of_dialled {offer : TransitOffer} {s : Connector} (h : Dialled offer s) (hs : s.result = none) :
    Sound offer s := by
  refine ⟨fun e he => ?_, fun _ => h⟩
  rw [hs] at he
  cases he

theorem Sound.join {offer : TransitOffer} {s s' : Connector} (h : Sound offer s) (hs : s.result = none)
    (he : s.join = some s') : Sound offer s' := by
  have hdialled := h.2 hs
  rw [Connector.join] at he
  split at he
  · next hfinished =>
    split at he
    · next hrunning =>
      obtain rfl := Option.some.inj he
      refine ⟨hdialled.exhausted hfinished (List.isEmpty_iff.mp hrunning) _, ?_⟩
      intro hnone
      cases hnone
    · cases he
  · obtain rfl := Option.some.inj he
    exact ⟨fun e hno => (by cases hno), fun hno => by cases hno⟩
  · next hfinished =>
    obtain rfl := Option.some.inj he
    exact .of_dialled (hdialled.fail hfinished rfl) hs
  · next hfinished =>
    obtain rfl := Option.some.inj he
    exact .of_dialled (hdialled.fail hfinished rfl) hs

theorem Sound.step {offer : TransitOffer} {s s' : Connector} {event : ConnectEvent} (h : Sound offer s)
    (he : s.step event = some s') : Sound offer s' := by
  cases event with
  | complete attempt finish =>
    rw [Connector.step] at he
    split at he
    · next hguard =>
      obtain rfl := Option.some.inj he
      rw [Bool.and_eq_true, Option.isNone_iff_eq_none, List.contains_iff_mem] at hguard
      exact .of_dialled ((h.2 hguard.1).complete hguard.2) hguard.1
    · cases he
  | join =>
    rw [Connector.step] at he
    split at he
    · next hnone => exact h.join (Option.isNone_iff_eq_none.mp hnone) he
    · cases he

theorem sound_of_valid {offer : TransitOffer} (h : validateOffer offer = .ok ()) {s : Connector}
    (hs : (connect offer).Reaches Automaton.free s) : Sound offer s := by
  refine hs.invariant ?_ fun _ _ _ hsound _ he => hsound.step he
  have hstart : (connect offer).start = ⟨⟨List.range (sortedHints offer).length, []⟩, [], [], none⟩ := by
    rw [connect, dialling, h]
  rw [hstart]
  refine .of_dialled ⟨?_, [], rfl, ?_⟩ rfl
  · rw [List.map_nil, List.append_nil]
  · simp

/-- An offer that is refused is not dialled. -/
theorem refused_start {offer : TransitOffer} {e : CoreError} (h : validateOffer offer = .error e) {s : Connector}
    (hs : (connect offer).Reaches Automaton.free s) : s = ⟨.empty, [], [], some (.error e)⟩ := by
  refine hs.invariant (P := fun s => s = ⟨.empty, [], [], some (.error e)⟩) ?_ ?_
  · change dialling offer = _
    rw [dialling, h]
  · rintro _ event s' rfl - he
    cases event <;> cases he

theorem exhausted_iff {offer : TransitOffer} {s : Connector} (hs : (connect offer).Reaches Automaton.free s) :
    Exhausted offer s ↔ validateOffer offer = .ok () ∨ offer.hints = [] := by
  cases h : validateOffer offer with
  | ok _ => exact ⟨fun _ => .inl rfl, fun _ => (sound_of_valid h hs).1⟩
  | error e =>
    obtain rfl := refused_start h hs
    constructor
    · intro hall
      cases hsorted : sortedHints offer with
      | nil =>
        have hperm := sortedHints_perm offer
        rw [hsorted] at hperm
        exact .inr hperm.nil_eq.symm
      | cons hint rest =>
        obtain ⟨finish, hin, -⟩ := hall e rfl (hint, 0) (by simp [hsorted])
        cases hin
    · rintro (hok | hempty)
      · cases hok
      · intro e' he attempt ha
        have hsorted : sortedHints offer = [] := by
          have hperm := sortedHints_perm offer
          rw [hempty] at hperm
          exact hperm.eq_nil
        rw [hsorted] at ha
        cases ha

end Connector

/-- A source of the sender may fail only if there is no other one. The receiver dials every hint of an
offer that it takes. -/
theorem transit_tolerates_iff {hasV6 : Bool} {relay : Option Nat} {es : List (Candidate × SourceEvent)}
    {s : Acceptor} {offer : TransitOffer} {c : Connector}
    (hs : (accept hasV6 relay).runFrom Automaton.free (accept hasV6 relay).start es = some s)
    (hc : (connect offer).Reaches Automaton.free c) :
    (s.Tolerant ∧ c.Exhausted offer) ↔
      ((accept hasV6 relay).runFrom Acceptor.harmless (accept hasV6 relay).start es = some s ∧
        (validateOffer offer = .ok () ∨ offer.hints = [])) := by
  have hopen : Acceptor.Open (accept hasV6 relay).start := Acceptor.open_waiting hasV6 relay
  rw [Acceptor.tolerant_iff_from rfl hopen hs, Connector.exhausted_iff hc]

def localOffer : TransitOffer := ⟨[⟨.directTcpV1, "10.0.0.7", 47891, 0⟩, ⟨.relayV1, "relay", 4001, 3⟩]⟩

theorem localOffer_valid : validateOffer localOffer = .ok () := by rfl

theorem dialling_localOffer : Connector.dialling localOffer = ⟨⟨[0, 1], []⟩, [], [], none⟩ := by
  have hlength : (sortedHints localOffer).length = 2 := (sortedHints_perm localOffer).length_eq
  rw [Connector.dialling, localOffer_valid]
  dsimp only
  rw [hlength]
  rfl

/-- One peer is rejected before another one is authenticated, and both hints fail. -/
theorem transit_tolerates_rejected :
    ∃ s c, s.result = some (.ok 2) ∧ c.result.isSome = true ∧ Acceptor.Tolerant s ∧
      Connector.Exhausted localOffer c := by
  have haccept : (accept true (some 9)).runFrom Automaton.free (accept true (some 9)).start
      [(.direct, .accepted 1), (.direct, .accepted 2), (.direct, .handshake 1 (.refused "invalid header")),
        (.direct, .handshake 2 (.connected ())), (.direct, .join), (.direct, .join)] =
      some ⟨.ended (.ok 2), .listening .empty, .reserved 9, some (.ok 2)⟩ := by rfl
  have hharmless : (accept true (some 9)).runFrom Acceptor.harmless (accept true (some 9)).start
      [(.direct, .accepted 1), (.direct, .accepted 2), (.direct, .handshake 1 (.refused "invalid header")),
        (.direct, .handshake 2 (.connected ())), (.direct, .join), (.direct, .join)] =
      some ⟨.ended (.ok 2), .listening .empty, .reserved 9, some (.ok 2)⟩ := by rfl
  have hconnect : (connect localOffer).Reaches Automaton.free
      ⟨⟨[], []⟩, [(1, .refused "connection refused"), (0, .refused "timed out")],
        ["connection refused", "timed out"],
        some (.error (Connector.failed ["connection refused", "timed out"]))⟩ := by
    refine ⟨[.complete 1 (.refused "connection refused"), .complete 0 (.refused "timed out"), .join, .join, .join], ?_⟩
    change (connect localOffer).runFrom Automaton.free (Connector.dialling localOffer) _ = _
    rw [dialling_localOffer]
    rfl
  have htolerant := (transit_tolerates_iff haccept hconnect).mpr ⟨hharmless, .inl localOffer_valid⟩
  exact ⟨_, _, rfl, rfl, htolerant.1, htolerant.2⟩

/-- The relay drops its idle connection, and `accept` fails although the listener still waits. -/
theorem accept_fails_with_relay :
    ∃ s, (accept false (some 9)).runFrom Automaton.free (accept false (some 9)).start
        [(.relay, .relayFailed (.io .unexpectedEof))] = some s ∧ ¬ s.Tolerant := by
  refine ⟨_, rfl, fun htolerant => ?_⟩
  exact htolerant _ rfl .direct (Source.canComplete_of_waits rfl)

end Transit

end InkHole
