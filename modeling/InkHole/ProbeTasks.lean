import InkHole.Automata
import InkHole.Farewell
import Mathlib.Data.Finset.Card

/-! Probes are tasks of a set. What a task was started for is known from a table beside the set, since one
that panicked or was aborted gives nothing back. -/

namespace InkHole.ProbeTasks

open Table

/-- What joining a task gives. -/
inductive TaskEnd where
  | outcome (result : Except CoreError VerifiedPeer)
  | panicked
  | aborted

structure ProbeTask where
  candidate : Candidate
  ended : Option TaskEnd

structure ProbeTracker where
  /-- The tasks that were not joined, under their ids. -/
  probes : Table Nat ProbeTask
  pending : Finset CandidateKey
  owners : Table Nat CandidateKey
  lastAttempt : Table CandidateKey Nat

namespace ProbeTracker

def empty : ProbeTracker := ⟨∅, ∅, ∅, ∅⟩

def attemptedLately (tracker : ProbeTracker) (timings : ProbingTimings) (now : Nat) (key : CandidateKey) : Bool :=
  (tracker.lastAttempt.lookup key).any fun last => now - last < timings.minProbeInterval

/-- The id is the one that the task is given if it is started. -/
def scheduleProbe (tracker : ProbeTracker) (timings : ProbingTimings) (now id : Nat) (candidate : Candidate) :
    ProbeTracker :=
  if maxPendingProbes ≤ tracker.probes.entries.length ∨ candidate.key ∈ tracker.pending then tracker
  else if tracker.attemptedLately timings now candidate.key then tracker
  else
    { lastAttempt := tracker.lastAttempt.insert candidate.key now
      pending := insert candidate.key tracker.pending
      probes := tracker.probes.insert id ⟨candidate, none⟩
      owners := tracker.owners.insert id candidate.key }

def forget (tracker : ProbeTracker) (key : CandidateKey) : ProbeTracker :=
  { tracker with lastAttempt := tracker.lastAttempt.erase key }

def prune (tracker : ProbeTracker) (timings : ProbingTimings) (now : Nat) : ProbeTracker :=
  { tracker with
    lastAttempt := Table.retain tracker.lastAttempt fun attempted =>
      decide (now - attempted < timings.discovery.staleAfter * 2) }

/-- The task comes to its end. -/
def finish (tracker : ProbeTracker) (id : Nat) (ended : TaskEnd) : Option ProbeTracker :=
  match tracker.probes.lookup id with
  | some ⟨candidate, none⟩ => some { tracker with probes := tracker.probes.insert id ⟨candidate, some ended⟩ }
  | _ => none

/-- The set gives a task that has ended, and what it gives is released. -/
def joinNext (tracker : ProbeTracker) (id : Nat) : Option ProbeTracker :=
  match tracker.probes.lookup id with
  | some ⟨candidate, some (.outcome _)⟩ =>
    some { tracker with
      probes := tracker.probes.erase id
      owners := tracker.owners.erase id
      pending := tracker.pending.erase candidate.key }
  | some ⟨_, some _⟩ =>
    match tracker.owners.lookup id with
    | some key =>
      some { tracker with
        probes := tracker.probes.erase id
        owners := tracker.owners.erase id
        pending := tracker.pending.erase key }
    | none => some { tracker with probes := tracker.probes.erase id }
  | _ => none

/-- After its loop the discovery waits for the tasks alone. -/
def drain (tracker : ProbeTracker) (id : Nat) : Option ProbeTracker :=
  match tracker.probes.lookup id with
  | some ⟨_, some _⟩ => some { tracker with probes := tracker.probes.erase id }
  | _ => none

end ProbeTracker

structure Discovering where
  tracker : ProbeTracker
  /-- Whether the loop goes on. -/
  running : Bool

inductive Event where
  | probe (now id : Nat) (candidate : Candidate)
  /-- One that must not wait. -/
  | refresh (now id : Nat) (candidate : Candidate)
  | prune (now : Nat)
  | finish (id : Nat) (ended : TaskEnd)
  | join (id : Nat)
  /-- The loop ends, cancelled or with an error. -/
  | leave

namespace Discovering

def step (timings : ProbingTimings) (s : Discovering) : Event → Option Discovering
  | .probe now id candidate =>
    if s.running ∧ id ∉ s.tracker.probes then
      some { s with tracker := s.tracker.scheduleProbe timings now id candidate }
    else none
  | .refresh now id candidate =>
    if s.running ∧ id ∉ s.tracker.probes then
      some { s with tracker := (s.tracker.forget candidate.key).scheduleProbe timings now id candidate }
    else none
  | .prune now => if s.running then some { s with tracker := s.tracker.prune timings now } else none
  | .finish id ended => (s.tracker.finish id ended).map fun tracker => { s with tracker }
  | .join id =>
    (if s.running then s.tracker.joinNext id else s.tracker.drain id).map fun tracker => { s with tracker }
  | .leave => if s.running then some { s with running := false } else none

end Discovering

def discovering (timings : ProbingTimings) : Automaton Discovering Event where
  start := ⟨.empty, true⟩
  step := Discovering.step timings

namespace ProbeTracker

variable {t t' : ProbeTracker} {timings : ProbingTimings} {now id : Nat} {candidate : Candidate}

/-- What a task that was not joined was started for. -/
def target (t : ProbeTracker) (id : Nat) : Option CandidateKey :=
  (t.probes.lookup id).map fun task => task.candidate.key

/-- Each probe has a candidate of its own. -/
def Apart (t : ProbeTracker) : Prop := ∀ i j key, t.target i = some key → t.target j = some key → i = j

/-- The slots are those of the tasks that were not joined. -/
structure Accounted (t : ProbeTracker) : Prop where
  owned : ∀ id, t.owners.lookup id = t.target id
  pending : ∀ key, key ∈ t.pending ↔ ∃ id, t.owners.lookup id = some key

/-! What the steps of the loop do. -/

def started (t : ProbeTracker) (now id : Nat) (candidate : Candidate) : ProbeTracker where
  lastAttempt := t.lastAttempt.insert candidate.key now
  pending := insert candidate.key t.pending
  probes := t.probes.insert id ⟨candidate, none⟩
  owners := t.owners.insert id candidate.key

def released (t : ProbeTracker) (id : Nat) (candidate : Candidate) : ProbeTracker :=
  { t with
    probes := t.probes.erase id
    owners := t.owners.erase id
    pending := t.pending.erase candidate.key }

theorem scheduleProbe_cases (t : ProbeTracker) (timings : ProbingTimings) (now id : Nat) (candidate : Candidate) :
    t.scheduleProbe timings now id candidate = t ∨
      (t.probes.entries.length < maxPendingProbes ∧ candidate.key ∉ t.pending ∧
        t.scheduleProbe timings now id candidate = t.started now id candidate) := by
  unfold scheduleProbe
  split
  · exact .inl rfl
  · next hfree =>
    split
    · exact .inl rfl
    · rw [not_or, Nat.not_le] at hfree
      exact .inr ⟨hfree.1, hfree.2, rfl⟩

theorem finish_some {ended : TaskEnd} (h : t.finish id ended = some t') :
    ∃ candidate, t.probes.lookup id = some ⟨candidate, none⟩ ∧
      t' = { t with probes := t.probes.insert id ⟨candidate, some ended⟩ } := by
  rw [finish] at h
  split at h
  · next candidate hl => exact ⟨candidate, hl, (Option.some.inj h).symm⟩
  · cases h

theorem drain_some (h : t.drain id = some t') : t' = { t with probes := t.probes.erase id } := by
  rw [drain] at h
  split at h
  · exact (Option.some.inj h).symm
  · cases h

/-- Whatever a task gives, its own slot is released. -/
theorem joinNext_ended (h : t.Accounted) {ended : TaskEnd} (hl : t.probes.lookup id = some ⟨candidate, some ended⟩) :
    t.joinNext id = some (t.released id candidate) := by
  have howner : t.owners.lookup id = some candidate.key := by rw [h.owned, target, hl]; rfl
  cases ended <;> simp [joinNext, hl, howner, released]

theorem joinNext_some (h : t.Accounted) (hj : t.joinNext id = some t') :
    ∃ candidate ended, t.probes.lookup id = some ⟨candidate, some ended⟩ ∧ t' = t.released id candidate := by
  cases hl : t.probes.lookup id with
  | none => simp [joinNext, hl] at hj
  | some task =>
    obtain ⟨candidate, ended⟩ := task
    cases ended with
    | none => simp [joinNext, hl] at hj
    | some ended =>
      rw [joinNext_ended h hl] at hj
      exact ⟨candidate, ended, rfl, (Option.some.inj hj).symm⟩

/-! Targets. -/

theorem target_started (i : Nat) :
    (t.started now id candidate).target i = if i = id then some candidate.key else t.target i := by
  rw [target, started]
  split
  · next hi =>
    rw [hi, AList.lookup_insert]
    rfl
  · next hi =>
    rw [AList.lookup_insert_ne hi]
    rfl

theorem target_erase (i : Nat) :
    ({ t with probes := t.probes.erase id } : ProbeTracker).target i = if i = id then none else t.target i := by
  rw [target]
  split
  · next hi =>
    rw [hi, AList.lookup_erase]
    rfl
  · next hi =>
    rw [AList.lookup_erase_ne hi]
    rfl

theorem target_finish {ended : TaskEnd} (h : t.finish id ended = some t') (i : Nat) : t'.target i = t.target i := by
  obtain ⟨candidate, hl, rfl⟩ := finish_some h
  rw [target, target]
  by_cases hi : i = id
  · rw [hi, AList.lookup_insert, hl]
    rfl
  · rw [AList.lookup_insert_ne hi]

theorem target_none (hid : id ∉ t.probes) : t.target id = none := by
  rw [target, AList.lookup_eq_none.mpr hid]
  rfl

/-! What every step keeps. -/

theorem Apart.congr (h : t.Apart) (hsame : ∀ i, t'.target i = t.target i) : t'.Apart := by
  intro i j key hi hj
  rw [hsame] at hi hj
  exact h i j key hi hj

theorem Apart.started (h : t.Apart) (ha : t.Accounted) (hfree : candidate.key ∉ t.pending) :
    (t.started now id candidate).Apart := by
  have hother : ∀ i, t.target i ≠ some candidate.key := fun i hi =>
    hfree ((ha.pending _).mpr ⟨i, (ha.owned i).trans hi⟩)
  intro i j key hi hj
  rw [target_started] at hi hj
  split at hi
  · next hii =>
    obtain rfl := Option.some.inj hi
    split at hj
    · next hjj => rw [hii, hjj]
    · exact absurd hj (hother j)
  · split at hj
    · obtain rfl := Option.some.inj hj
      exact absurd hi (hother i)
    · exact h i j key hi hj

theorem Apart.erase (h : t.Apart) (id : Nat) : ({ t with probes := t.probes.erase id } : ProbeTracker).Apart := by
  intro i j key hi hj
  rw [target_erase] at hi hj
  split at hi
  · cases hi
  · split at hj
    · cases hj
    · exact h i j key hi hj

theorem Accounted.started (h : t.Accounted) (hid : id ∉ t.probes) : (t.started now id candidate).Accounted where
  owned i := by
    rw [target_started, ProbeTracker.started]
    split
    · next hi => rw [hi, AList.lookup_insert]
    · next hi => rw [AList.lookup_insert_ne hi, h.owned]
  pending key := by
    have hnone : t.owners.lookup id = none := (h.owned id).trans (target_none hid)
    rw [ProbeTracker.started, Finset.mem_insert, h.pending]
    constructor
    · rintro (rfl | ⟨i, hi⟩)
      · exact ⟨id, AList.lookup_insert _⟩
      · refine ⟨i, (AList.lookup_insert_ne ?_).trans hi⟩
        rintro rfl
        rw [hnone] at hi
        cases hi
    · rintro ⟨i, hi⟩
      rcases lookup_insert_cases hi with ⟨-, rfl⟩ | ⟨-, hi⟩
      · exact .inl rfl
      · exact .inr ⟨i, hi⟩

theorem Accounted.released (h : t.Accounted) (ha : t.Apart) (hl : t.target id = some candidate.key) :
    (t.released id candidate).Accounted where
  owned i := by
    refine Eq.trans ?_ (target_erase i).symm
    rw [ProbeTracker.released]
    split
    · next hi => rw [hi, AList.lookup_erase]
    · next hi => rw [AList.lookup_erase_ne hi, h.owned]
  pending key := by
    have howner : t.owners.lookup id = some candidate.key := (h.owned id).trans hl
    rw [ProbeTracker.released, Finset.mem_erase, h.pending]
    constructor
    · rintro ⟨hne, i, hi⟩
      refine ⟨i, (AList.lookup_erase_ne ?_).trans hi⟩
      rintro rfl
      exact hne (Option.some.inj (hi.symm.trans howner))
    · rintro ⟨i, hi⟩
      have hold := lookup_of_erase hi
      refine ⟨?_, i, hold⟩
      rintro rfl
      obtain rfl := ha i id _ ((h.owned i).symm.trans hold) hl
      rw [AList.lookup_erase] at hi
      cases hi

theorem Accounted.finish (h : t.Accounted) {ended : TaskEnd} (hf : t.finish id ended = some t') : t'.Accounted := by
  have htarget := target_finish hf
  obtain ⟨candidate, -, rfl⟩ := finish_some hf
  exact ⟨fun i => (h.owned i).trans (htarget i).symm, h.pending⟩

/-- As many slots are taken as tasks were not joined. -/
theorem Accounted.length (h : t.Accounted) : t.owners.entries.length = t.probes.entries.length := by
  have hmem : ∀ id, id ∈ t.owners.keys ↔ id ∈ t.probes.keys := by
    intro id
    change id ∈ t.owners ↔ id ∈ t.probes
    rw [← AList.lookup_isSome, ← AList.lookup_isSome, h.owned, target, Option.isSome_map]
  rw [← length_keys, ← length_keys]
  exact ((List.perm_ext_iff_of_nodup t.owners.nodupKeys t.probes.nodupKeys).mpr hmem).length_eq

theorem Accounted.injective (h : t.Accounted) (ha : t.Apart) {i j : Nat} {key : CandidateKey}
    (hi : t.owners.lookup i = some key) (hj : t.owners.lookup j = some key) : i = j :=
  ha i j key ((h.owned i).symm.trans hi) ((h.owned j).symm.trans hj)

theorem Accounted.card (h : t.Accounted) (ha : t.Apart) : t.pending.card = t.probes.entries.length := by
  have hvalues : t.pending = t.owners.values.toFinset := by
    ext key
    rw [h.pending, List.mem_toFinset, mem_values]
  have hnodup : t.owners.values.Nodup := by
    refine List.Nodup.map_on (fun a hi b hj he => ?_) (List.NodupKeys.nodup t.owners.nodupKeys)
    obtain ⟨i, key⟩ := a
    obtain ⟨j, key'⟩ := b
    obtain rfl : key = key' := he
    obtain rfl := h.injective ha (AList.mem_lookup_iff.mpr hi) (AList.mem_lookup_iff.mpr hj)
    rfl
  rw [hvalues, List.toFinset_card_of_nodup hnodup, ← h.length]
  exact List.length_map ..

end ProbeTracker

namespace Discovering

structure Sound (s : Discovering) : Prop where
  apart : s.tracker.Apart
  bounded : s.tracker.probes.entries.length ≤ maxPendingProbes
  pending : ∀ key, key ∈ s.tracker.pending ↔ ∃ id, s.tracker.owners.lookup id = some key
  injective : ∀ i j key, s.tracker.owners.lookup i = some key → s.tracker.owners.lookup j = some key → i = j
  /-- After the loop nothing is released any more. -/
  accounted : s.running = true → s.tracker.Accounted

variable {timings : ProbingTimings} {s s' : Discovering}

theorem Sound.of_accounted (ha : s.tracker.Accounted) (h : s.tracker.Apart)
    (hb : s.tracker.probes.entries.length ≤ maxPendingProbes) : s.Sound :=
  ⟨h, hb, ha.pending, fun _ _ _ => ha.injective h, fun _ => ha⟩

theorem Sound.schedule (h : s.Sound) (hr : s.running = true) {now id : Nat} (candidate : Candidate)
    (hid : id ∉ s.tracker.probes) :
    Sound { s with tracker := s.tracker.scheduleProbe timings now id candidate } := by
  have ha := h.accounted hr
  rcases s.tracker.scheduleProbe_cases timings now id candidate with heq | ⟨hroom, hfree, heq⟩
  · rw [heq]
    exact h
  · rw [heq]
    refine .of_accounted (ha.started hid) (h.apart.started ha hfree) ?_
    exact (length_insert_le s.tracker.probes id ⟨candidate, none⟩).trans hroom

theorem Sound.attempts (h : s.Sound) (lastAttempt : Table CandidateKey Nat) :
    Sound { s with tracker := { s.tracker with lastAttempt } } :=
  ⟨h.apart, h.bounded, h.pending, h.injective, fun hr => ⟨(h.accounted hr).owned, h.pending⟩⟩

theorem Sound.step {e : Event} (h : s.Sound) (hs : s.step timings e = some s') : s'.Sound := by
  cases e with
  | probe now id candidate =>
    rw [Discovering.step] at hs
    split at hs
    · next hg =>
      obtain rfl := Option.some.inj hs
      exact h.schedule hg.1 candidate hg.2
    · cases hs
  | refresh now id candidate =>
    rw [Discovering.step] at hs
    split at hs
    · next hg =>
      obtain rfl := Option.some.inj hs
      exact (h.attempts (s.tracker.lastAttempt.erase candidate.key)).schedule hg.1 candidate hg.2
    · cases hs
  | prune now =>
    rw [Discovering.step] at hs
    split at hs
    · obtain rfl := Option.some.inj hs
      exact h.attempts _
    · cases hs
  | finish id ended =>
    obtain ⟨tracker, hf, rfl⟩ := Option.map_eq_some_iff.mp hs
    have happart := h.apart.congr (ProbeTracker.target_finish hf)
    have haccounted : s.running = true → tracker.Accounted := fun hr => (h.accounted hr).finish hf
    obtain ⟨candidate, hl, rfl⟩ := ProbeTracker.finish_some hf
    exact ⟨happart, (length_insert_of_some hl).trans_le h.bounded, h.pending, h.injective, haccounted⟩
  | join id =>
    obtain ⟨tracker, hj, rfl⟩ := Option.map_eq_some_iff.mp hs
    have hless := (length_erase_le s.tracker.probes id).trans h.bounded
    split at hj
    · next hr =>
      have ha := h.accounted hr
      obtain ⟨candidate, ended, hl, rfl⟩ := ProbeTracker.joinNext_some ha hj
      have htarget : s.tracker.target id = some candidate.key := by rw [ProbeTracker.target, hl]; rfl
      exact .of_accounted (ha.released h.apart htarget) (h.apart.erase id) hless
    · next hr =>
      obtain rfl := ProbeTracker.drain_some hj
      exact ⟨h.apart.erase id, hless, h.pending, h.injective, fun hrun => absurd hrun hr⟩
  | leave =>
    rw [Discovering.step] at hs
    split at hs
    · obtain rfl := Option.some.inj hs
      exact ⟨h.apart, h.bounded, h.pending, h.injective, fun hr => by cases hr⟩
    · cases hs

theorem running_before {e : Event} (hs : s.step timings e = some s') (hr : s'.running = true) : s.running = true := by
  cases e with
  | finish id ended =>
    obtain ⟨tracker, -, rfl⟩ := Option.map_eq_some_iff.mp hs
    exact hr
  | join id =>
    obtain ⟨tracker, -, rfl⟩ := Option.map_eq_some_iff.mp hs
    exact hr
  | _ =>
    rw [Discovering.step] at hs
    split at hs
    · next hg => simp_all
    · cases hs

theorem sound_reached (h : (discovering timings).Reaches Automaton.free s) : s.Sound := by
  refine h.invariant (.of_accounted ⟨?_, ?_⟩ ?_ ?_) fun _ _ _ h _ hs => h.step hs
  all_goals simp [discovering, ProbeTracker.empty, ProbeTracker.Apart, ProbeTracker.target]

end Discovering

/-! The tracker whose probes have no tasks goes the same way. -/

namespace ProbeTracker

variable {t t' : ProbeTracker} {timings : ProbingTimings} {now id : Nat} {candidate other : Candidate}

/-- There is a task that was started for a candidate and was not joined. -/
def Probed (t : ProbeTracker) (candidate : Candidate) : Prop :=
  ∃ id, (t.probes.lookup id).map ProbeTask.candidate = some candidate

theorem Probed.target (h : t.Probed candidate) : ∃ id, t.target id = some candidate.key := by
  obtain ⟨id, hid⟩ := h
  obtain ⟨task, htask, rfl⟩ := Option.map_eq_some_iff.mp hid
  exact ⟨id, by rw [ProbeTracker.target, htask]; rfl⟩

theorem Accounted.mem_pending (h : t.Accounted) {key : CandidateKey} :
    key ∈ t.pending ↔ ∃ candidate, t.Probed candidate ∧ candidate.key = key := by
  rw [h.pending]
  constructor
  · rintro ⟨id, hid⟩
    rw [h.owned] at hid
    obtain ⟨task, htask, rfl⟩ := Option.map_eq_some_iff.mp hid
    exact ⟨task.candidate, ⟨id, by rw [htask]; rfl⟩, rfl⟩
  · rintro ⟨candidate, hprobed, rfl⟩
    obtain ⟨id, hid⟩ := hprobed.target
    exact ⟨id, (h.owned id).trans hid⟩

theorem probed_started (hid : id ∉ t.probes) :
    (t.started now id candidate).Probed other ↔ other = candidate ∨ t.Probed other := by
  constructor
  · rintro ⟨i, hi⟩
    obtain ⟨task, htask, rfl⟩ := Option.map_eq_some_iff.mp hi
    rcases lookup_insert_cases htask with ⟨-, rfl⟩ | ⟨-, htask⟩
    · exact .inl rfl
    · exact .inr ⟨i, by rw [htask]; rfl⟩
  · rintro (rfl | ⟨i, hi⟩)
    · exact ⟨id, by rw [started, AList.lookup_insert]; rfl⟩
    · refine ⟨i, ?_⟩
      rw [started, AList.lookup_insert_ne]
      · exact hi
      · rintro rfl
        rw [AList.lookup_eq_none.mpr hid] at hi
        cases hi

theorem probed_released (h : t.Apart) (hl : (t.probes.lookup id).map ProbeTask.candidate = some candidate) :
    (t.released id candidate).Probed other ↔ t.Probed other ∧ other.key ≠ candidate.key := by
  obtain ⟨held, hheld, rfl⟩ := Option.map_eq_some_iff.mp hl
  have htarget : t.target id = some held.candidate.key := by rw [target, hheld]; rfl
  constructor
  · rintro ⟨i, hi⟩
    obtain ⟨task, htask, rfl⟩ := Option.map_eq_some_iff.mp hi
    have hold := lookup_of_erase htask
    refine ⟨⟨i, by rw [hold]; rfl⟩, fun he => ?_⟩
    obtain rfl := h i id _ (by rw [target, hold, ← he]; rfl) htarget
    rw [released, AList.lookup_erase] at htask
    cases htask
  · rintro ⟨⟨i, hi⟩, hne⟩
    refine ⟨i, ?_⟩
    rw [released, AList.lookup_erase_ne]
    · exact hi
    · rintro rfl
      rw [hl] at hi
      obtain rfl := Option.some.inj hi
      exact hne rfl

theorem probed_finish {ended : TaskEnd} (h : t.finish id ended = some t') : t'.Probed other ↔ t.Probed other := by
  obtain ⟨candidate, hl, rfl⟩ := finish_some h
  have hsame : ∀ i, ((t.probes.insert id ⟨candidate, some ended⟩).lookup i).map ProbeTask.candidate =
      (t.probes.lookup i).map ProbeTask.candidate := by
    intro i
    by_cases hi : i = id
    · rw [hi, AList.lookup_insert, hl]
      rfl
    · rw [AList.lookup_insert_ne hi]
  exact exists_congr fun i => by rw [hsame]

/-- Both trackers have the same candidates in flight, and remember the same attempts. -/
structure Tracks (t : ProbeTracker) (c : InkHole.ProbeTracker) : Prop where
  inFlight : ∀ key candidate, (c.pending.lookup key).map Probe.candidate = some candidate ↔
    t.Probed candidate ∧ candidate.key = key
  lastAttempt : c.lastAttempt = t.lastAttempt

variable {c : InkHole.ProbeTracker} {clock : Nat}

theorem Tracks.isSome (h : Tracks t c) (ha : t.Accounted) (key : CandidateKey) :
    (c.pending.lookup key).isSome ↔ key ∈ t.pending := by
  rw [ha.mem_pending, ← Option.isSome_map (f := Probe.candidate), Option.isSome_iff_exists]
  exact exists_congr fun candidate => h.inFlight key candidate

theorem Tracks.length (h : Tracks t c) (ha : t.Accounted) (hapart : t.Apart) :
    c.pending.entries.length = t.probes.entries.length := by
  have hkeys : c.pending.keys.toFinset = t.pending := by
    ext key
    rw [List.mem_toFinset, ← h.isSome ha, AList.lookup_isSome]
    rfl
  rw [← ha.card hapart, ← hkeys, List.toFinset_card_of_nodup c.pending.keys_nodup, length_keys]

theorem Tracks.scheduleProbe (h : Tracks t c) (ha : t.Accounted) (hapart : t.Apart) (hid : id ∉ t.probes) :
    Tracks (t.scheduleProbe timings now id candidate) (c.scheduleProbe timings clock now candidate) := by
  have hlate : c.attemptedLately timings now candidate.key = t.attemptedLately timings now candidate.key := by
    rw [InkHole.ProbeTracker.attemptedLately, attemptedLately, h.lastAttempt]
    cases t.lastAttempt.lookup candidate.key <;> rfl
  simp only [ProbeTracker.scheduleProbe, InkHole.ProbeTracker.scheduleProbe, h.length ha hapart, h.isSome ha, hlate]
  split
  · exact h
  · next hroom =>
    split
    · exact h
    · have hfree : candidate.key ∉ t.pending := (not_or.mp hroom).2
      refine ⟨fun key other => ?_, by rw [h.lastAttempt]⟩
      refine Iff.trans ?_ (and_congr_left' (probed_started hid).symm)
      by_cases hkey : key = candidate.key
      · rw [hkey, AList.lookup_insert]
        constructor
        · rintro ⟨⟩
          exact ⟨.inl rfl, rfl⟩
        · rintro ⟨rfl | hprobed, he⟩
          · rfl
          · exact absurd (ha.mem_pending.mpr ⟨other, hprobed, he⟩) hfree
      · rw [AList.lookup_insert_ne hkey, h.inFlight]
        constructor
        · exact fun ⟨hprobed, he⟩ => ⟨.inr hprobed, he⟩
        · rintro ⟨rfl | hprobed, he⟩
          · exact absurd he.symm hkey
          · exact ⟨hprobed, he⟩

theorem Tracks.released (h : Tracks t c) (hapart : t.Apart)
    (hl : (t.probes.lookup id).map ProbeTask.candidate = some candidate) :
    Tracks (t.released id candidate) (c.release candidate.key) := by
  refine ⟨fun key other => ?_, h.lastAttempt⟩
  rw [probed_released hapart hl, InkHole.ProbeTracker.release]
  by_cases hkey : key = candidate.key
  · rw [hkey, AList.lookup_erase]
    constructor
    · rintro ⟨⟩
    · exact fun ⟨⟨_, hne⟩, he⟩ => absurd he hne
  · rw [AList.lookup_erase_ne hkey, h.inFlight]
    constructor
    · rintro ⟨hprobed, rfl⟩
      exact ⟨⟨hprobed, hkey⟩, rfl⟩
    · exact fun ⟨⟨hprobed, _⟩, he⟩ => ⟨hprobed, he⟩

end ProbeTracker

namespace Discovering

variable {timings : ProbingTimings} {s s' : Discovering}

/-- What an event is for the tracker whose probes have no tasks. -/
def probingEvents (s : Discovering) : Event → List ProbingEvent
  | .probe now _ candidate => [.candidate now candidate]
  | .refresh now _ candidate => [.refresh now candidate]
  | .prune now => [.prune now]
  | .join id =>
    match s.tracker.probes.lookup id with
    | some ⟨candidate, some (.outcome result)⟩ => [.joined 0 candidate.key result]
    | some ⟨candidate, _⟩ => [.aborted candidate.key]
    | none => []
  | _ => []

variable [Texts]

theorem tracks_step {e : Event} (h : s.Sound) {history : List ProbingEvent}
    (ht : s.tracker.Tracks (Probing.after timings history).tracker) (hs : s.step timings e = some s')
    (hr : s'.running = true) :
    s'.tracker.Tracks (Probing.after timings (s.probingEvents e ++ history)).tracker := by
  cases e with
  | probe now id candidate =>
    rw [Discovering.step] at hs
    split at hs
    · next hg =>
      obtain rfl := Option.some.inj hs
      exact ht.scheduleProbe (h.accounted hg.1) h.apart hg.2
    · cases hs
  | refresh now id candidate =>
    rw [Discovering.step] at hs
    split at hs
    · next hg =>
      obtain rfl := Option.some.inj hs
      have hforget := h.attempts (s.tracker.lastAttempt.erase candidate.key)
      have htracks : (s.tracker.forget candidate.key).Tracks
          ((Probing.after timings history).tracker.forget candidate.key) :=
        ⟨ht.inFlight, by rw [ProbeTracker.forget, InkHole.ProbeTracker.forget, ht.lastAttempt]⟩
      exact htracks.scheduleProbe (hforget.accounted hg.1) hforget.apart hg.2
    · cases hs
  | prune now =>
    rw [Discovering.step] at hs
    split at hs
    · obtain rfl := Option.some.inj hs
      exact ⟨ht.inFlight, congrArg (Table.retain · fun attempted =>
        decide (now - attempted < timings.discovery.staleAfter * 2)) ht.lastAttempt⟩
    · cases hs
  | finish id ended =>
    obtain ⟨tracker, hf, rfl⟩ := Option.map_eq_some_iff.mp hs
    refine ⟨fun key candidate => (ht.inFlight key candidate).trans ?_, ?_⟩
    · exact and_congr_left' (ProbeTracker.probed_finish hf).symm
    · obtain ⟨candidate, -, rfl⟩ := ProbeTracker.finish_some hf
      exact ht.lastAttempt
  | join id =>
    obtain ⟨tracker, hj, rfl⟩ := Option.map_eq_some_iff.mp hs
    rw [if_pos hr] at hj
    obtain ⟨candidate, ended, hl, rfl⟩ := ProbeTracker.joinNext_some (h.accounted hr) hj
    have hreleased : (s.tracker.released id candidate).Tracks
        ((Probing.after timings history).tracker.release candidate.key) :=
      ht.released h.apart (by rw [hl]; rfl)
    rw [probingEvents, hl]
    cases ended <;> exact hreleased
  | leave =>
    rw [Discovering.step] at hs
    split at hs
    · obtain rfl := Option.some.inj hs
      cases hr
    · cases hs

/-- In the loop, what a run does to the tracker is what some events do to the one without tasks. -/
theorem tracks_reached (h : (discovering timings).Reaches Automaton.free s) (hr : s.running = true) :
    ∃ history, s.tracker.Tracks (Probing.after timings history).tracker := by
  have hkept : s.Sound ∧ (s.running = true → ∃ history, s.tracker.Tracks (Probing.after timings history).tracker) := by
    refine h.invariant (P := fun s : Discovering => s.Sound ∧ (s.running = true → ∃ history,
      s.tracker.Tracks (Probing.after timings history).tracker)) ⟨sound_reached ⟨[], rfl⟩, fun _ => ⟨[], ?_⟩⟩ ?_
    · refine ⟨fun key candidate => ?_, rfl⟩
      simp [discovering, ProbeTracker.empty, ProbeTracker.Probed, Probing.after, Probing.empty]
    · rintro s e s' ⟨hsound, htracks⟩ - hs
      refine ⟨hsound.step hs, fun hr => ?_⟩
      obtain ⟨history, ht⟩ := htracks (running_before hs hr)
      exact ⟨_, tracks_step hsound ht hs hr⟩
  exact hkept.2 hr

end Discovering

/-- Candidates are pending as tasks own them, each one for one task, and never two tasks of one candidate
are there at once. While the loop goes on, as many are pending as tasks were not joined, a task that
ended, in whatever way, is joined and releases its own slot and no other, and a candidate that no
task has is probed as long as there is room. -/
theorem probes_accounted (timings : ProbingTimings) {s : Discovering}
    (h : (discovering timings).Reaches Automaton.free s) :
    ((∀ key, key ∈ s.tracker.pending ↔ ∃ id, s.tracker.owners.lookup id = some key) ∧
      (∀ i j key, s.tracker.owners.lookup i = some key → s.tracker.owners.lookup j = some key → i = j) ∧
      (∀ i j a b, s.tracker.probes.lookup i = some a → s.tracker.probes.lookup j = some b →
        a.candidate.key = b.candidate.key → i = j) ∧
      s.tracker.probes.entries.length ≤ maxPendingProbes) ∧
    (s.running = true →
      s.tracker.owners.entries.length = s.tracker.probes.entries.length ∧
      s.tracker.pending.card = s.tracker.probes.entries.length ∧
      (∀ id s', s.step timings (.join id) = some s' ↔ ∃ candidate ended,
        s.tracker.probes.lookup id = some ⟨candidate, some ended⟩ ∧
        s.tracker.owners.lookup id = some candidate.key ∧
        s' = { s with tracker := s.tracker.released id candidate }) ∧
      ∀ now id candidate, s.tracker.probes.entries.length < maxPendingProbes → id ∉ s.tracker.probes →
        (∀ i a, s.tracker.probes.lookup i = some a → a.candidate.key ≠ candidate.key) →
        s.tracker.attemptedLately timings now candidate.key = false →
        s.step timings (.probe now id candidate) = some { s with tracker := s.tracker.started now id candidate }) := by
  have hs := Discovering.sound_reached h
  refine ⟨⟨hs.pending, hs.injective, fun i j a b hi hj he => ?_, hs.bounded⟩, fun hr => ?_⟩
  · refine hs.apart i j a.candidate.key ?_ ?_
    · rw [ProbeTracker.target, hi]
      rfl
    · rw [ProbeTracker.target, hj, he]
      rfl
  · have ha := hs.accounted hr
    refine ⟨ha.length, ?_, fun id s' => ?_, fun now id candidate hroom hid hother hlate => ?_⟩
    · exact ha.card hs.apart
    · rw [Discovering.step, if_pos hr, Option.map_eq_some_iff]
      constructor
      · rintro ⟨tracker, hj, rfl⟩
        obtain ⟨candidate, ended, hl, rfl⟩ := ProbeTracker.joinNext_some ha hj
        exact ⟨candidate, ended, hl, by rw [ha.owned, ProbeTracker.target, hl]; rfl, rfl⟩
      · rintro ⟨candidate, ended, hl, -, rfl⟩
        exact ⟨_, ProbeTracker.joinNext_ended ha hl, rfl⟩
    · have hfree : candidate.key ∉ s.tracker.pending := by
        rw [ha.pending]
        rintro ⟨i, hi⟩
        rw [ha.owned, ProbeTracker.target] at hi
        obtain ⟨a, ha, hkey⟩ := Option.map_eq_some_iff.mp hi
        exact hother i a ha hkey
      rw [Discovering.step, if_pos ⟨hr, hid⟩, ProbeTracker.scheduleProbe,
        if_neg (not_or.mpr ⟨Nat.not_le.mpr hroom, hfree⟩), hlate]
      rfl

open Sample in
/-- One of two probes panics. -/
theorem probes_accounted_panicked : ∃ s s' : Discovering,
    s.tracker.pending = {(candidateAt firstAddress).key, (candidateAt secondAddress).key} ∧
    s.step probing (.join 7) = some s' ∧ s'.tracker.pending = {(candidateAt secondAddress).key} := by
  let events : List Event :=
    [.probe 0 7 (candidateAt firstAddress), .probe 0 8 (candidateAt secondAddress), .finish 7 .panicked]
  have hrun : ∃ s, (discovering probing).runFrom Automaton.free (discovering probing).start events = some s ∧
      s.running = true ∧ s.tracker.probes.lookup 7 = some ⟨candidateAt firstAddress, some .panicked⟩ ∧
      s.tracker.owners.lookup 7 = some (candidateAt firstAddress).key ∧
      s.tracker.pending = {(candidateAt firstAddress).key, (candidateAt secondAddress).key} :=
    ⟨_, rfl, rfl, rfl, rfl, by decide +kernel⟩
  obtain ⟨s, hs, hrunning, htask, howner, hpending⟩ := hrun
  obtain ⟨-, -, hjoin, -⟩ := (probes_accounted probing ⟨events, hs⟩).2 hrunning
  refine ⟨s, _, hpending, (hjoin 7 _).mpr ⟨_, _, htask, howner, rfl⟩, ?_⟩
  have herase : ({(candidateAt firstAddress).key, (candidateAt secondAddress).key} : Finset CandidateKey).erase
      (candidateAt firstAddress).key = {(candidateAt secondAddress).key} := by decide +kernel
  rw [ProbeTracker.released, hpending]
  exact herase

end InkHole.ProbeTasks
