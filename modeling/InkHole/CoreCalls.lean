import InkHole.CoreConnection

/-! The calls of the mobile application: which request each of them has sent, and how its future
completes. -/

namespace InkHole

open InkHoleCore (Message)

namespace CoreCalls

/-- How the future of a call completes: with the result of a message, or with an error. -/
inductive Outcome where
  | answer (message : Message)
  | error
  deriving DecidableEq, Repr

end CoreCalls

open CoreCalls (Outcome)

/-- The main isolate and the workers, and all the calls that the program has made, by number. -/
structure CoreCalls where
  core : InkHoleCore
  made : Nat
  /-- The calls whose start has not returned. -/
  waiting : List Nat
  /-- The number of a request, and the call that has sent it. -/
  requests : List (Nat × Nat)
  completions : List (Nat × Outcome)

namespace CoreCalls

/-- What a message completes the request `id` with. -/
def outcomeOf (id : Nat) (message : Message) : Option Outcome :=
  match message with
  | .ready => none
  | .event => none
  | .response id' => if id' = id then some (.answer message) else none
  | .shutdown id' => if id' = id then some (.answer message) else none
  | .error id' => if id' = id then some .error else none
  | .fatal => some .error

/-- What an event completes the request `id` with, if it is pending. -/
def completes (core : InkHoleCore) (id : Nat) : InkHoleCore.Event → Option Outcome
  | .deliver w => (core.workers w).messages.head?.bind (outcomeOf id)
  | .timesOut _ => some .error
  | .closeEnds id' => if core.closeOutcome id' = some (some true) then some .error else none
  | _ => none

/-- The requests whose completers are in the table of the main isolate. -/
def asked (s : CoreCalls) : List (Nat × Nat) := s.requests.filter (·.1 ∈ s.core.pending)

def completed (s : CoreCalls) (e : InkHoleCore.Event) : List (Nat × Outcome) :=
  s.asked.filterMap fun r => (completes s.core r.1 e).map (Prod.mk r.2)

inductive Event where
  /-- The program calls `call`. -/
  | call
  /-- A call goes on after its start, which has succeeded or failed; the port may refuse the request. -/
  | send (k : Nat)
  | throws (k : Nat)
  | refuse (k : Nat)
  /-- Everything that is not a step of a call. -/
  | core (e : InkHoleCore.Event)

/-- The steps of the calls, which have events of their own. -/
def ofCall : InkHoleCore.Event → Bool
  | .call => true
  | .send => true
  | .refuse => true
  | _ => false

def fresh : CoreCalls := ⟨.fresh, 0, [], [], []⟩

/-- A request that cannot be sent leaves the table at once. -/
def unsent (core : InkHoleCore) : InkHoleCore :=
  { core with calls := core.calls - 1, nextRequest := core.nextRequest + 1 }

def step (s : CoreCalls) : Event → Option CoreCalls
  | .call => (s.core.step .call).map fun core =>
    if s.core.disposed then
      { s with core, made := s.made + 1, completions := (s.made, .error) :: s.completions }
    else { s with core, made := s.made + 1, waiting := s.made :: s.waiting }
  | .send k =>
    if k ∈ s.waiting then
      (s.core.step .send).map fun core =>
        { s with
          core
          waiting := s.waiting.erase k
          requests := (s.core.nextRequest, k) :: s.requests
          completions := if s.core.commands.isNone then (k, .error) :: s.completions else s.completions }
    else none
  | .throws k =>
    if k ∈ s.waiting then
      some { s with
        core := unsent s.core
        waiting := s.waiting.erase k
        requests := (s.core.nextRequest, k) :: s.requests
        completions := (k, .error) :: s.completions }
    else none
  | .refuse k =>
    if k ∈ s.waiting then
      (s.core.step .refuse).map fun core =>
        { s with core, waiting := s.waiting.erase k, completions := (k, .error) :: s.completions }
    else none
  | .core e =>
    if ofCall e then none
    else (s.core.step e).map fun core => { s with core, completions := s.completed e ++ s.completions }

/-- The application with the program that calls it. -/
def callers : Automaton CoreCalls Event := ⟨fresh, step⟩

/-- What a step does to the table of the requests, where `done` is what it completes them with. -/
structure Settles (core core' : InkHoleCore) (done : Nat → Option Outcome) : Prop where
  calls : core'.calls = core.calls
  numbers : core.nextRequest ≤ core'.nextRequest
  pending : ∀ id < core.nextRequest, id ∈ core'.pending ↔ id ∈ core.pending ∧ done id = none
  numbered : ∀ id ∈ core'.pending, id ∈ core.pending ∨ id < core'.nextRequest

section Settles

open InkHoleCore

variable {core core' : InkHoleCore} {done : Nat → Option Outcome}

theorem Settles.idle (hc : core'.calls = core.calls) (hn : core'.nextRequest = core.nextRequest)
    (hp : core'.pending = core.pending) (hd : ∀ id, done id = none) : Settles core core' done := by
  refine ⟨hc, Nat.le_of_eq hn.symm, fun id _ => ?_, fun id hm => .inl (hp ▸ hm)⟩
  rw [hp, hd id, and_iff_left rfl]

/-- Every request fails. -/
theorem Settles.cleared (hc : core'.calls = core.calls) (hn : core'.nextRequest = core.nextRequest)
    (hp : core'.pending = []) (hd : ∀ id, done id = some .error) : Settles core core' done := by
  refine ⟨hc, Nat.le_of_eq hn.symm, fun id _ => ?_, fun id hm => ?_⟩
  · rw [hp, hd id]
    exact ⟨fun hm => absurd hm List.not_mem_nil, fun hm => by cases hm.2⟩
  · rw [hp] at hm
    cases hm

theorem Settles.complete (core : InkHoleCore) (id : Nat) (ok : Bool) (outcome : Outcome) :
    Settles core (core.complete id ok) fun id' => if id = id' then some outcome else none := by
  have hnone (id' : Nat) : (if id = id' then some outcome else none) = none ↔ id' ≠ id := by
    split
    · next heq => exact ⟨(by rintro ⟨⟩), fun h => absurd heq.symm h⟩
    · next hne => exact ⟨fun _ he => hne he.symm, fun _ => rfl⟩
  rw [InkHoleCore.complete]
  split
  · refine ⟨rfl, Nat.le_refl _, fun id' _ => ?_, fun id' hm => .inl (List.mem_filter.mp hm).1⟩
    rw [hnone]
    simp only [List.mem_filter, decide_eq_true_eq]
  · next hm =>
    refine ⟨rfl, Nat.le_refl _, fun id' _ => ?_, fun id' hm' => .inl hm'⟩
    rw [hnone]
    exact ⟨fun hm' => ⟨hm', fun he => hm (he ▸ hm')⟩, fun hm' => hm'.1⟩

theorem Settles.tearDown (id : Nat) (hd : ∀ id, done id = some .error) :
    Settles core (core.tearDown.dropClose id) done := by
  rw [InkHoleCore.tearDown, closeReceive_eq, killIsolate_eq]
  exact .cleared rfl rfl rfl hd

theorem Settles.close (core : InkHoleCore) (hd : ∀ id, done id = none) : Settles core core.close done := by
  rw [InkHoleCore.close]
  split
  · exact .idle rfl rfl rfl hd
  · refine ⟨rfl, Nat.le_succ _, fun id hlt => ?_, fun id hm => ?_⟩
    · rw [hd id, and_iff_left rfl]
      exact List.mem_cons.trans (or_iff_right (Nat.ne_of_lt hlt))
    · rcases List.mem_cons.mp hm with rfl | hm
      · exact .inr (Nat.lt_succ_self _)
      · exact .inl hm

theorem Settles.message (core : InkHoleCore) (w : Nat) (message : Message) :
    Settles core (core.handleMessage w message) (outcomeOf · message) := by
  cases message with
  | ready => exact .idle rfl rfl rfl fun _ => rfl
  | event => exact .idle rfl rfl rfl fun _ => rfl
  | response id => exact .complete core id true _
  | error id => exact .complete core id false _
  | shutdown id => exact .complete core id true _
  | fatal =>
    rw [handleMessage, closeReceive_eq, killIsolate_eq]
    exact .cleared rfl rfl rfl fun _ => rfl

theorem Settles.start (hd : ∀ id, done id = none) : Settles core core.start done := by
  rw [InkHoleCore.start]
  split <;> exact .idle rfl rfl rfl hd

theorem Settles.spawnFailed (attempt : Attempt) (hd : ∀ id, done id = none) :
    Settles core (core.spawnFailed attempt) done := by
  rw [InkHoleCore.spawnFailed, killIsolate_eq]
  exact .idle rfl rfl rfl hd

theorem Settles.step {e : InkHoleCore.Event} (he : ofCall e = false) (hs : core.step e = some core') :
    Settles core core' (completes core · e) := by
  cases e with
  | start =>
    obtain rfl := Option.some.inj hs
    have hstart : Settles core core.start fun _ => none := .start fun _ => rfl
    exact ⟨hstart.calls, hstart.numbers, hstart.pending, hstart.numbered⟩
  | call => cases he
  | send => cases he
  | refuse => cases he
  | close =>
    obtain rfl := Option.some.inj hs
    exact .close core fun _ => rfl
  | timesOut id =>
    obtain ⟨_, rfl⟩ := Option.ite_some_none_eq_some.mp hs
    have hlate : Settles { core with shutdownTimedOut := true } _ fun _ => some Outcome.error :=
      .tearDown id fun _ => rfl
    exact ⟨hlate.calls, hlate.numbers, hlate.pending, hlate.numbered⟩
  | closeEnds id =>
    simp only [InkHoleCore.step] at hs
    split at hs
    · next ho =>
      obtain rfl := Option.some.inj hs
      exact .tearDown id fun _ => if_pos ho
    · next ho =>
      obtain rfl := Option.some.inj hs
      exact .idle rfl rfl rfl fun _ => if_neg (by rw [ho]; rintro ⟨⟩)
    · cases hs
  | release =>
    obtain rfl := Option.some.inj hs
    exact .idle rfl rfl rfl fun _ => rfl
  | spawned =>
    obtain ⟨w, ready, _, rfl⟩ := onSpawned_cases hs
    exact .idle rfl rfl rfl fun _ => rfl
  | spawnFails =>
    obtain ⟨w, ready, _, _, rfl⟩ := onSpawnFails_cases hs
    have hfailed : Settles (core.modify w fun worker => { worker with phase := .gone }) _ fun _ => none :=
      .spawnFailed ⟨w, false, ready⟩ fun _ => rfl
    exact ⟨hfailed.calls, hfailed.numbers, hfailed.pending, hfailed.numbered⟩
  | attemptEnds =>
    obtain ⟨w, ⟨_, rfl⟩ | ⟨_, rfl⟩⟩ := onAttemptEnds_cases hs
    · exact .idle rfl rfl rfl fun _ => rfl
    · exact .spawnFailed _ fun _ => rfl
  | deliver w =>
    obtain ⟨m, rest, _, hm, rfl⟩ := onDeliver_cases hs
    have hmessage := Settles.message (core.modify w fun worker => { worker with messages := rest }) w m
    have hdone (id : Nat) : completes core id (.deliver w) = outcomeOf id m := by
      rw [completes, hm]
      rfl
    refine ⟨hmessage.calls, hmessage.numbers, fun id hlt => ?_, hmessage.numbered⟩
    rw [hdone]
    exact hmessage.pending id hlt
  | boot w ok =>
    obtain ⟨_, rfl⟩ := Option.ite_some_none_eq_some.mp hs
    exact .idle rfl rfl rfl fun _ => rfl
  | poll w ok =>
    obtain ⟨_, rfl⟩ := Option.ite_some_none_eq_some.mp hs
    exact .idle rfl rfl rfl fun _ => rfl
  | answer w ok =>
    obtain ⟨id, rest, _, _, rfl⟩ := onAnswer_cases hs
    exact .idle rfl rfl rfl fun _ => rfl
  | shutdown w r c d =>
    obtain ⟨id, rest, _, _, rfl⟩ := onShutdown_cases hs
    exact .idle rfl rfl rfl fun _ => rfl
  | dies w =>
    obtain ⟨_, rfl⟩ := Option.ite_some_none_eq_some.mp hs
    exact .idle rfl rfl rfl fun _ => rfl

end Settles

structure Sound (s : CoreCalls) : Prop where
  connected : s.core.Connected
  numbered : s.core.Numbered
  told : s.core.Told (s.requests.map (·.1))
  pended : ∀ id ∈ s.core.pending, id < s.core.nextRequest
  distinct : (s.requests.map (·.1)).Nodup
  calls : s.waiting.length = s.core.calls
  /-- Every call has completed, or waits for its start, or has a request in the table. -/
  counted : (s.completions.map (·.1) ++ (s.waiting ++ s.asked.map (·.2))).Perm (List.range s.made)
  own : ∀ k m, (k, .answer m) ∈ s.completions → ∃ id, m = .response id ∧ (id, k) ∈ s.requests

/-- What is completed is no longer in the table. -/
theorem completed_perm (l : List (Nat × Nat)) (done : Nat → Option Outcome) :
    ((l.filterMap fun r => (done r.1).map (Prod.mk r.2)).map (·.1) ++
      (l.filter fun r => (done r.1).isNone).map (·.2)).Perm (l.map (·.2)) := by
  induction l with
  | nil => exact .nil
  | cons r l ih =>
    cases hd : done r.1 with
    | none =>
      rw [List.filterMap_cons_none (by rw [hd]; rfl), List.filter_cons_of_pos (by rw [hd]; rfl)]
      exact List.perm_middle.trans (ih.cons r.2)
    | some outcome =>
      rw [List.filterMap_cons_some (by rw [hd]; rfl), List.filter_cons_of_neg (by rw [hd]; rintro ⟨⟩)]
      exact ih.cons r.2

/-- A result is that of a response, or of a shutdown. -/
theorem completes_answer {core : InkHoleCore} {id : Nat} {e : InkHoleCore.Event} {m : Message}
    (h : completes core id e = some (.answer m)) : m = .response id ∨ ∃ w, (core.workers w).Ends id := by
  cases e with
  | deliver w =>
    obtain ⟨m', hm, ho⟩ := Option.bind_eq_some_iff.mp h
    have hmem := List.mem_of_mem_head? hm
    cases m' with
    | response id' =>
      obtain ⟨hid, hm⟩ := Option.ite_some_none_eq_some.mp ho
      rw [← hid]
      exact .inl (Outcome.answer.inj hm).symm
    | shutdown id' =>
      obtain ⟨rfl, -⟩ := Option.ite_some_none_eq_some.mp ho
      exact .inr ⟨w, .inr hmem⟩
    | error id' => cases (Option.ite_some_none_eq_some.mp ho).2
    | ready => cases ho
    | event => cases ho
    | fatal => cases ho
  | closeEnds id' => cases (Option.ite_some_none_eq_some.mp h).2
  | timesOut => cases h
  | _ => cases h

theorem perm_waited {k : Nat} {waiting : List Nat} (hk : k ∈ waiting) (completed asked : List Nat) :
    (k :: completed ++ (waiting.erase k ++ asked)).Perm (completed ++ (waiting ++ asked)) :=
  calc (k :: completed ++ (waiting.erase k ++ asked)).Perm (completed ++ (k :: waiting.erase k ++ asked)) :=
        List.perm_middle.symm
    _ |>.Perm (completed ++ (waiting ++ asked)) :=
        ((List.perm_cons_erase hk).symm.append_right asked).append_left completed

namespace Sound

variable {s s' : CoreCalls} {k : Nat}

theorem fresh : Sound fresh where
  connected := InkHoleCore.Connected.fresh
  numbered := InkHoleCore.Numbered.fresh
  told := InkHoleCore.Told.fresh
  pended := by rintro _ ⟨⟩
  distinct := List.nodup_nil
  calls := rfl
  counted := .nil
  own := by rintro _ _ ⟨⟩

/-- No request of a call has a number that is not given out yet. -/
theorem used (h : Sound s) {r : Nat × Nat} (hr : r ∈ s.requests) : r.1 < s.core.nextRequest :=
  h.told.used r.1 (List.mem_map_of_mem hr)

theorem core (h : Sound s) {e : InkHoleCore.Event} {core : InkHoleCore} (he : ofCall e = false)
    (hs : s.core.step e = some core) :
    Sound { s with core, completions := s.completed e ++ s.completions } := by
  have hsettles := Settles.step he hs
  have hasked : s.requests.filter (·.1 ∈ core.pending) =
      s.asked.filter fun r => (completes s.core r.1 e).isNone := by
    rw [asked, List.filter_filter]
    refine List.filter_congr fun r hr => ?_
    rw [Bool.eq_iff_iff, decide_eq_true_eq, hsettles.pending r.1 (h.used hr), Bool.and_eq_true, decide_eq_true_eq,
      Option.isNone_iff_eq_none, and_comm]
  refine ⟨h.connected.step h.numbered h.told hs, h.numbered.step hs, h.told.step h.numbered ?_ hs, fun id hm => ?_,
    h.distinct, h.calls.trans hsettles.calls.symm, ?_, fun k m hm => ?_⟩
  · rintro rfl
    cases he
  · rcases hsettles.numbered id hm with hm | hlt
    · exact Nat.lt_of_lt_of_le (h.pended id hm) hsettles.numbers
    · exact hlt
  · have hperm := completed_perm s.asked (completes s.core · e)
    have hcounted : ((s.completed e ++ s.completions).map (·.1) ++ (s.waiting ++
        (s.asked.filter fun r => (completes s.core r.1 e).isNone).map (·.2))).Perm (List.range s.made) := by
      refine .trans (List.perm_iff_count.mpr fun k => ?_) h.counted
      have hcount := List.perm_iff_count.mp hperm k
      rw [List.count_append] at hcount
      simp only [completed, List.map_append, List.count_append]
      omega
    rw [asked, hasked]
    exact hcounted
  · rcases List.mem_append.mp hm with hm | hm
    · obtain ⟨r, hr, ho⟩ := List.mem_filterMap.mp hm
      obtain ⟨outcome, ho, heq⟩ := Option.map_eq_some_iff.mp ho
      obtain ⟨rfl, rfl⟩ := Prod.mk.inj heq
      have hmem := (List.mem_filter.mp hr).1
      rcases completes_answer ho with rfl | ⟨w, hends⟩
      · exact ⟨r.1, rfl, hmem⟩
      · exact absurd (List.mem_map_of_mem hmem) (h.told.ends w r.1 hends)
    · exact h.own k m hm

theorem call (h : Sound s) (hs : s.step .call = some s') : Sound s' := by
  rw [step] at hs
  obtain ⟨core, hcore, rfl⟩ := Option.map_eq_some_iff.mp hs
  have hconnected := h.connected.step h.numbered h.told hcore
  have hnumbered := h.numbered.step hcore
  have htold := h.told.step h.numbered (by rintro ⟨⟩) hcore
  have hcall : core.pending = s.core.pending ∧ core.nextRequest = s.core.nextRequest ∧
      core.calls = if s.core.disposed then s.core.calls else s.core.calls + 1 := by
    obtain rfl := Option.some.inj hcore
    unfold InkHoleCore.start
    split <;> exact ⟨rfl, rfl, rfl⟩
  obtain ⟨hpending, hnext, hcalls⟩ := hcall
  have hpended : ∀ id ∈ core.pending, id < core.nextRequest := by
    rw [hpending, hnext]
    exact h.pended
  have hasked : s.requests.filter (·.1 ∈ core.pending) = s.asked := by rw [hpending, asked]
  have hcounted := (h.counted.cons s.made).trans (List.perm_append_singleton s.made (List.range s.made)).symm
  rw [← List.range_succ] at hcounted
  split
  · next hd =>
    rw [if_pos hd] at hcalls
    refine ⟨hconnected, hnumbered, htold, hpended, h.distinct, h.calls.trans hcalls.symm, ?_, fun k m hm => ?_⟩
    · rw [asked, hasked]
      exact hcounted
    · rcases List.mem_cons.mp hm with heq | hm
      · cases (Prod.mk.inj heq).2
      · exact h.own k m hm
  · next hd =>
    rw [if_neg hd] at hcalls
    refine ⟨hconnected, hnumbered, htold, hpended, h.distinct, ?_, ?_, h.own⟩
    · exact (congrArg (· + 1) h.calls).trans hcalls.symm
    · rw [asked, hasked]
      exact List.perm_middle.trans hcounted

theorem erased (h : Sound s) (hk : k ∈ s.waiting) : (s.waiting.erase k).length = s.core.calls - 1 := by
  rw [List.length_erase_of_mem hk, h.calls]

/-- The request of a call that goes on gets a number that no other has. -/
theorem distinct_cons (h : Sound s) : (((s.core.nextRequest, k) :: s.requests).map (·.1)).Nodup := by
  refine List.nodup_cons.mpr ⟨fun hm => ?_, h.distinct⟩
  exact Nat.lt_irrefl _ (h.told.used _ hm)

/-- A request that does not reach the table leaves its call with an error. -/
theorem unanswered (h : Sound s) (hk : k ∈ s.waiting) {core : InkHoleCore} {requests : List (Nat × Nat)}
    (hconnected : core.Connected) (hnumbered : core.Numbered) (htold : core.Told (requests.map (·.1)))
    (hp : core.pending = s.core.pending) (hn : s.core.nextRequest ≤ core.nextRequest)
    (hc : core.calls = s.core.calls - 1)
    (hr : requests = s.requests ∨ requests = (s.core.nextRequest, k) :: s.requests) :
    Sound { s with core, requests, waiting := s.waiting.erase k, completions := (k, .error) :: s.completions } := by
  have hasked : requests.filter (·.1 ∈ core.pending) = s.asked := by
    rw [hp, asked]
    rcases hr with rfl | rfl
    · rfl
    · refine List.filter_cons_of_neg fun hm => ?_
      exact Nat.lt_irrefl _ (h.pended _ (of_decide_eq_true hm))
  have hdistinct : (requests.map (·.1)).Nodup := by
    rcases hr with rfl | rfl
    · exact h.distinct
    · exact h.distinct_cons
  have hsub : s.requests ⊆ requests := by
    rcases hr with rfl | rfl
    · exact List.Subset.refl _
    · exact List.subset_cons_self ..
  refine ⟨hconnected, hnumbered, htold, ?_, hdistinct, (h.erased hk).trans hc.symm, ?_, fun k' m hm => ?_⟩
  · intro id hm
    exact Nat.lt_of_lt_of_le (h.pended id (hp ▸ hm)) hn
  · rw [asked, hasked]
    exact (perm_waited hk _ _).trans h.counted
  · rcases List.mem_cons.mp hm with heq | hm
    · cases (Prod.mk.inj heq).2
    · obtain ⟨id, hid, hmem⟩ := h.own k' m hm
      exact ⟨id, hid, hsub hmem⟩

theorem send (h : Sound s) (hk : k ∈ s.waiting) {core : InkHoleCore} (hs : s.core.step .send = some core) :
    Sound { s with
      core
      waiting := s.waiting.erase k
      requests := (s.core.nextRequest, k) :: s.requests
      completions := if s.core.commands.isNone then (k, .error) :: s.completions else s.completions } := by
  have hconnected := h.connected.step h.numbered h.told hs
  have hnumbered := h.numbered.step hs
  obtain ⟨_, rfl⟩ := Option.ite_some_none_eq_some.mp hs
  have htold : s.core.send.Told (((s.core.nextRequest, k) :: s.requests).map (·.1)) := h.told.send h.numbered
  cases hc : s.core.commands with
  | none =>
    have hsend : s.core.send = unsent s.core := by
      unfold InkHoleCore.send
      split
      · next w hw =>
        rw [hc] at hw
        cases hw
      · rfl
    rw [hsend] at hconnected hnumbered htold ⊢
    exact h.unanswered hk hconnected hnumbered htold rfl (Nat.le_succ _) rfl (.inr rfl)
  | some w =>
    have hsend : s.core.send.pending = s.core.nextRequest :: s.core.pending ∧
        s.core.send.nextRequest = s.core.nextRequest + 1 ∧ s.core.send.calls = s.core.calls - 1 := by
      rw [InkHoleCore.send, hc]
      exact ⟨rfl, rfl, rfl⟩
    generalize s.core.send = core at hconnected hnumbered htold hsend hs
    obtain ⟨hpending, hnext, hcalls⟩ := hsend
    have hasked : ((s.core.nextRequest, k) :: s.requests).filter (·.1 ∈ core.pending) =
        (s.core.nextRequest, k) :: s.asked := by
      rw [hpending]
      refine (List.filter_cons_of_pos (by simp only [List.mem_cons_self, decide_true])).trans (congrArg _ ?_)
      refine List.filter_congr fun r hr => decide_eq_decide.mpr ?_
      exact List.mem_cons.trans (or_iff_right (Nat.ne_of_lt (h.used hr)))
    refine ⟨hconnected, hnumbered, htold, fun id hm => ?_, h.distinct_cons, (h.erased hk).trans hcalls.symm, ?_,
      fun k' m hm => ?_⟩
    · rw [hpending] at hm
      rw [hnext]
      rcases List.mem_cons.mp hm with rfl | hm
      · exact Nat.lt_succ_self _
      · exact Nat.lt_succ_of_lt (h.pended id hm)
    · rw [asked, hasked]
      refine .trans ?_ ((perm_waited hk _ _).trans h.counted)
      refine (List.Perm.append_left _ List.perm_middle).trans List.perm_middle
    · obtain ⟨id, hid, hmem⟩ := h.own k' m hm
      exact ⟨id, hid, List.mem_cons_of_mem _ hmem⟩

/-- The port refuses the request, as it is when there is none. -/
theorem throws (h : Sound s) (hk : k ∈ s.waiting) :
    Sound { s with
      core := unsent s.core
      waiting := s.waiting.erase k
      requests := (s.core.nextRequest, k) :: s.requests
      completions := (k, .error) :: s.completions } := by
  have hnum : InkHoleCore.Numbered { s.core with commands := none } :=
    ⟨h.numbered.closes, h.numbered.serves, h.numbered.ends⟩
  have htold : InkHoleCore.Told { s.core with commands := none } (s.requests.map (·.1)) :=
    ⟨h.told.distinct, h.told.errors, h.told.used, h.told.ends⟩
  have hnum' := hnum.send
  have htold' := htold.send hnum
  exact h.unanswered hk (h.connected.congr rfl rfl rfl rfl rfl rfl) ⟨hnum'.closes, hnum'.serves, hnum'.ends⟩
    ⟨htold'.distinct, htold'.errors, htold'.used, htold'.ends⟩ rfl (Nat.le_succ _) rfl (.inr rfl)

theorem step (h : Sound s) {e : Event} (hs : s.step e = some s') : Sound s' := by
  cases e with
  | call => exact h.call hs
  | send k =>
    rw [CoreCalls.step] at hs
    split at hs
    · next hk =>
      obtain ⟨core, hcore, rfl⟩ := Option.map_eq_some_iff.mp hs
      exact h.send hk hcore
    · cases hs
  | throws k =>
    obtain ⟨hk, rfl⟩ := Option.ite_some_none_eq_some.mp hs
    exact h.throws hk
  | refuse k =>
    rw [CoreCalls.step] at hs
    split at hs
    · next hk =>
      obtain ⟨core, hcore, rfl⟩ := Option.map_eq_some_iff.mp hs
      have hconnected := h.connected.step h.numbered h.told hcore
      have hnumbered := h.numbered.step hcore
      have htold := h.told.step h.numbered (by rintro ⟨⟩) hcore
      obtain ⟨_, rfl⟩ := Option.ite_some_none_eq_some.mp hcore
      exact h.unanswered hk hconnected hnumbered htold rfl (Nat.le_refl _) rfl (.inl rfl)
    · cases hs
  | core e =>
    rw [CoreCalls.step] at hs
    split at hs
    · cases hs
    · next he =>
      obtain ⟨core, hcore, rfl⟩ := Option.map_eq_some_iff.mp hs
      exact h.core (Bool.eq_false_iff.mpr he) hcore

theorem completed_once (h : Sound s) : (s.completions.map (·.1)).Nodup :=
  (List.nodup_append.mp (h.counted.nodup_iff.mpr List.nodup_range)).1

/-- A call that is not in the table, and that waits for no start, has completed. -/
theorem completed_of_empty (h : Sound s) (hp : s.core.pending = []) (hk : k < s.made) :
    (∃ outcome, (k, outcome) ∈ s.completions) ∨ k ∈ s.waiting := by
  have hasked : s.asked = [] := by
    rw [asked, hp]
    exact List.filter_eq_nil_iff.mpr fun r _ hm => List.not_mem_nil (of_decide_eq_true hm)
  have hmem := h.counted.mem_iff.mpr (List.mem_range.mpr hk)
  rw [hasked, List.map_nil, List.append_nil] at hmem
  refine (List.mem_append.mp hmem).imp_left fun hm => ?_
  obtain ⟨⟨_, outcome⟩, hcompletion, rfl⟩ := List.mem_map.mp hm
  exact ⟨outcome, hcompletion⟩

/-- Without a port, a call that goes on has an error at once. -/
theorem resumed (h : Sound s) (hc : s.core.commands = none) (hk : k ∈ s.waiting) {e : Event}
    (he : e = .send k ∨ e = .throws k ∨ e = .refuse k) :
    ∃ s', s.step e = some s' ∧ (k, .error) ∈ s'.completions := by
  have hcalls : 0 < s.core.calls := by
    rw [← h.calls]
    exact List.length_pos_of_mem hk
  rcases he with rfl | rfl | rfl
  · refine ⟨_, (if_pos hk).trans (congrArg (Option.map _) (if_pos hcalls)), ?_⟩
    change _ ∈ if s.core.commands.isNone then _ else _
    rw [hc]
    exact List.mem_cons_self
  · exact ⟨_, if_pos hk, List.mem_cons_self⟩
  · exact ⟨_, (if_pos hk).trans (congrArg (Option.map _) (if_pos hcalls)), List.mem_cons_self⟩

end Sound

/-- Whatever the program, the isolates and the clock do, the future of a call completes once at most,
with the response to its own request or with an error. When no worker is alive and nothing is under way, no
request is pending, every call whose start has returned has completed, and one that has not gone on yet does
so with an error. -/
theorem calls_complete (s : CoreCalls) (h : callers.Reaches Automaton.free s) :
    (s.completions.map (·.1)).Nodup ∧
    (∀ k m, (k, .answer m) ∈ s.completions →
      ∃ id, m = .response id ∧ (id, k) ∈ s.requests ∧ ∀ k', (id, k') ∈ s.requests → k' = k) ∧
    ((∀ w, (s.core.workers w).phase = .gone) →
      (∀ w, (s.core.workers w).listened = true → (s.core.workers w).messages = []) →
      s.core.closes = [] →
      s.core.pending = [] ∧
      (∀ k < s.made, (∃ outcome, (k, outcome) ∈ s.completions) ∨ k ∈ s.waiting) ∧
      ∀ k ∈ s.waiting, ∀ e, e = .send k ∨ e = .throws k ∨ e = .refuse k →
        ∃ s', s.step e = some s' ∧ (k, .error) ∈ s'.completions) := by
  have hsound : Sound s := h.invariant Sound.fresh fun _ _ _ h _ hs => h.step hs
  refine ⟨hsound.completed_once, fun k m hm => ?_, fun hgone hdelivered hcloses => ?_⟩
  · obtain ⟨id, rfl, hmem⟩ := hsound.own k m hm
    refine ⟨id, rfl, hmem, fun k' hmem' => ?_⟩
    have heq := List.inj_on_of_nodup_map hsound.distinct hmem' hmem rfl
    exact (Prod.mk.inj heq).2
  · obtain ⟨hcommands, hpending⟩ := hsound.connected.quiescent hgone hdelivered hcloses
    exact ⟨hpending, fun k hk => hsound.completed_of_empty hpending hk, fun k hk e he =>
      hsound.resumed hcommands hk he⟩

/-- Three calls: one is answered, one is in the table when the worker fails, and one goes on after that. -/
def failedRun : List Event := [.core .start, .core (.boot 0 true), .core .spawned, .core (.deliver 0),
  .core .attemptEnds, .call, .send 0, .call, .send 1, .call, .core (.answer 0 true), .core (.poll 0 false),
  .core (.deliver 0), .core (.deliver 0), .core (.dies 0), .send 2]

theorem calls_complete_failed : ∃ s : CoreCalls,
    s.completions = [(2, .error), (1, .error), (0, .answer (.response 1))] ∧ s.core.pending = [] ∧
      (s.completions.map (·.1)).Nodup := by
  have hrun : (callers.runFrom Automaton.free callers.start failedRun).map
      (fun s => (s.completions, s.core.closes)) =
        some ([(2, .error), (1, .error), (0, .answer (.response 1))], []) := rfl
  have hworkers (w : Nat) : (callers.runFrom Automaton.free callers.start failedRun).map
      (fun s => ((s.core.workers w).phase, (s.core.workers w).listened)) = some (.gone, false) := by
    cases w <;> rfl
  obtain ⟨s, hs, he⟩ := Option.map_eq_some_iff.mp hrun
  obtain ⟨hcompletions, hcloses⟩ := Prod.mk.inj he
  have hw (w : Nat) : (s.core.workers w).phase = .gone ∧ (s.core.workers w).listened = false := by
    have hw := hworkers w
    rw [hs] at hw
    exact Prod.mk.inj (Option.some.inj hw)
  obtain ⟨honce, -, hrest⟩ := calls_complete s ⟨failedRun, hs⟩
  have hquiet := hrest (fun w => (hw w).1) (fun w hl => by rw [(hw w).2] at hl; cases hl) hcloses
  exact ⟨s, hcompletions, hquiet.1, honce⟩

end CoreCalls

end InkHole
