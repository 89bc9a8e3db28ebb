import InkHole.CoreWorkers
import Mathlib.Tactic.Tauto

/-! A close that returns leaves no native service behind: there is one worker at most that has not
ended, the main isolate knows it, and it ends with its service given back. -/

namespace InkHole

namespace InkHoleCore

/-- A shutdown whose close succeeds gives the allocation back, however destroy ends. -/
theorem shutdownService_released {runtimeThread : Bool} {closing destroying : Closing}
    {service : InkholeService} (h : (closeService runtimeThread closing service).1 = .ok) :
    (shutdownService runtimeThread closing destroying service).released = true := by
  cases runtimeThread with
  | true => simp [closeService] at h
  | false =>
    unfold shutdownService
    split
    · simp [serviceDestroy]
    · next status closed hne he =>
      rw [he] at h
      exact absurd h hne

def Message.ends : Message → Bool
  | .shutdown _ => true
  | _ => false

/-- What holds of a worker whatever the main isolate does. -/
structure Worker.Ordered (worker : Worker) : Prop where
  booting : worker.phase = .booting → worker.messages = []
  owned : ∀ service ∈ worker.service, service.released = false → worker.phase = .serving
  fatal : .fatal ∈ worker.messages → worker.phase = .gone
  ended : ∀ m ∈ worker.messages, m.ends = true → worker.phase = .gone
  ready : worker.messages.count .ready ≤ 1
  last : worker.messages.countP Message.ends ≤ 1

namespace Worker.Ordered

variable {worker : Worker}

theorem unborn : Worker.unborn.Ordered := by
  constructor <;> simp [Worker.unborn]

theorem spawned : Worker.spawned.Ordered := by
  constructor <;> simp [Worker.spawned]

theorem congr {worker' : Worker} (h : worker.Ordered) (hp : worker'.phase = worker.phase)
    (hs : worker'.service = worker.service) (hm : worker'.messages = worker.messages) :
    worker'.Ordered := by
  constructor
  · rw [hp, hm]
    exact h.booting
  · rw [hp, hs]
    exact h.owned
  · rw [hp, hm]
    exact h.fatal
  · rw [hp, hm]
    exact h.ended
  · rw [hm]
    exact h.ready
  · rw [hm]
    exact h.last

/-- A worker that serves has sent nothing that ends it. -/
theorem not_ends (h : worker.Ordered) (hp : worker.phase ≠ .gone) :
    worker.messages.countP Message.ends = 0 := by
  rw [List.countP_eq_zero]
  intro m hm he
  exact hp (h.ended m hm he)

theorem boot (h : worker.Ordered) (hp : worker.phase = .booting) (ok : Bool) :
    (worker.boot ok).Ordered := by
  have hm := h.booting hp
  cases ok
  · constructor <;> simp [Worker.boot, Worker.post, hm, Message.ends]
    intro service hs
    have := h.owned service hs
    simp_all
  · constructor <;> simp [Worker.boot, Worker.post, hm, Message.ends]

theorem post (h : worker.Ordered) (hp : worker.phase = .serving) {m : Message}
    (hr : m ≠ .ready) (hf : m ≠ .fatal) (he : m.ends = false) : (worker.post m).Ordered := by
  constructor
  · simp [Worker.post, hp]
  · exact h.owned
  · intro hm
    rcases List.mem_append.mp hm with hm | hm
    · exact h.fatal hm
    · exact absurd (List.mem_singleton.mp hm).symm hf
  · intro m' hm ht
    rcases List.mem_append.mp hm with hm | hm
    · exact h.ended m' hm ht
    · rw [List.mem_singleton.mp hm, he] at ht
      cases ht
  · have := h.ready
    simpa [Worker.post, hr] using this
  · have := h.last
    simpa [Worker.post, he] using this

theorem shutdown (h : worker.Ordered) (hp : worker.phase = .serving) {id : Nat}
    {runtimeThread : Bool} {closing destroying : Closing}
    (hc : ∀ service ∈ worker.service, (closeService runtimeThread closing service).1 = .ok) :
    (worker.shutdown id runtimeThread closing destroying).Ordered := by
  constructor
  · simp [Worker.shutdown]
  · intro service hs hr
    obtain ⟨created, hcreated, rfl⟩ := Option.map_eq_some_iff.mp hs
    rw [shutdownService_released (hc created hcreated)] at hr
    cases hr
  · simp [Worker.shutdown]
  · simp [Worker.shutdown]
  · have := h.ready
    simpa [Worker.shutdown, Worker.post] using this
  · have := h.not_ends (by simp [hp])
    simp [Worker.shutdown, Worker.post, this, Message.ends]

theorem take (h : worker.Ordered) {m : Message} {rest : List Message}
    (hm : worker.messages = m :: rest) : { worker with messages := rest }.Ordered := by
  have hsub : rest ⊆ worker.messages := by
    rw [hm]
    exact List.subset_cons_self m rest
  have hl : rest.Sublist worker.messages := by
    rw [hm]
    exact List.sublist_cons_self m rest
  constructor
  · intro hp
    have := h.booting hp
    simp [hm] at this
  · exact h.owned
  · exact fun hf => h.fatal (hsub hf)
  · exact fun m' hm' he => h.ended m' (hsub hm') he
  · exact Nat.le_trans (hl.count_le _) h.ready
  · exact Nat.le_trans hl.countP_le h.last

theorem dies (h : worker.Ordered) (hs : worker.phase = .serving → worker.Destroyed) :
    { worker with phase := .gone }.Ordered := by
  constructor
  · simp
  · intro service hm hr
    have := hs (h.owned service hm hr) service hm
    simp [hr] at this
  · simp
  · simp
  · exact h.ready
  · exact h.last

end Worker.Ordered

variable {s : InkHoleCore}

/-- A start waits for a worker. -/
def Awaits (s : InkHoleCore) (w : Nat) : Prop :=
  ∃ attempt ∈ s.starting, attempt.worker = w ∧ attempt.ready = none

/-- The main isolate and the workers, as long as no close has timed out. -/
structure Orderly (s : InkHoleCore) : Prop where
  onTime : s.shutdownTimedOut = false
  ordered : ∀ w, (s.workers w).Ordered
  alive : ∀ w, (s.workers w).phase ≠ .gone →
    (s.workers w).listened = true ∧ (s.workers w).killed = false
  heard : ∀ w, (s.workers w).listened = true →
    s.receive = some w ∧ (s.commands = some w ∨ s.Awaits w)
  port : ∀ w ∈ s.commands, (s.workers w).phase ≠ .booting ∧ .fatal ∉ (s.workers w).messages
  idle : ∀ w, (s.workers w).phase = .booting → (s.workers w).commands = []
  blank : ∀ w, s.Awaits w → s.commands = none
  ready : ∀ w, .ready ∈ (s.workers w).messages →
    (s.workers w).phase = .serving ∧ (s.workers w).commands = [] ∧ s.Awaits w
  failed : ∀ attempt ∈ s.starting, attempt.ready = some false → s.receive = none ∧ s.commands = none
  waiting : ∀ c ∈ s.closes, c.outcome = none → s.commands = some c.worker
  answered : ∀ c ∈ s.closes, c.outcome = some true → s.commands = some c.worker ∧
    (s.workers c.worker).phase = .gone ∧ (s.workers c.worker).messages.countP Message.ends = 0
  once : ∀ c ∈ s.closes, ∀ c' ∈ s.closes, c.outcome = some true → c'.outcome = some true → c.id = c'.id
  quiet : s.quiet = true → s.commands = none ∧ ∀ w, (s.workers w).phase = .gone

/-- The state after a close has timed out: nothing is connected, and nothing is said to be
closed. -/
structure Abandoned (s : InkHoleCore) : Prop where
  late : s.shutdownTimedOut = true
  commands : s.commands = none
  unheard : ∀ w, (s.workers w).listened = false
  settled : ∀ w, ¬s.Awaits w
  quiet : s.quiet = false

/-- Which worker a request of which kind has been sent to. -/
def Worker.Serves (worker : Worker) (id : Nat) : Prop :=
  .call id ∈ worker.commands ∨ .response id ∈ worker.messages

def Worker.Ends (worker : Worker) (id : Nat) : Prop :=
  .shutdown id ∈ worker.commands ∨ .shutdown id ∈ worker.messages

/-- The numbers of the requests are used once. -/
structure Numbered (s : InkHoleCore) : Prop where
  closes : ∀ c ∈ s.closes, c.id < s.nextRequest ∧ (c.outcome = none → c.id ∈ s.pending)
  serves : ∀ w id, (s.workers w).Serves id → id < s.nextRequest ∧ ∀ c ∈ s.closes, c.id ≠ id
  ends : ∀ w id, (s.workers w).Ends id →
    id < s.nextRequest ∧ ∀ c ∈ s.closes, c.id = id → c.worker = w

theorem modify_workers (s : InkHoleCore) (w : Nat) (f : Worker → Worker) (w' : Nat) :
    (s.modify w f).workers w' = if w' = w then f (s.workers w) else s.workers w' := by
  simp only [modify, Function.update_apply]

section Inversion

variable {s' : InkHoleCore} {w : Nat}

theorem onSpawned_cases (h : s.onSpawned = some s') : ∃ w ready,
    s.starting = some ⟨w, false, ready⟩ ∧
      s' = { s with isolate := some w, starting := some ⟨w, true, ready⟩ } := by
  unfold onSpawned at h
  split at h
  · next w ready hs => exact ⟨w, ready, hs, (Option.some.inj h).symm⟩
  · cases h

theorem onSpawnFails_cases (h : s.onSpawnFails = some s') : ∃ w ready,
    s.starting = some ⟨w, false, ready⟩ ∧ (s.workers w).phase = .booting ∧
      s' = (s.modify w fun worker => { worker with phase := .gone }).spawnFailed
        ⟨w, false, ready⟩ := by
  unfold onSpawnFails at h
  split at h
  · next w ready hs =>
    split at h
    · next hp => exact ⟨w, ready, hs, hp, (Option.some.inj h).symm⟩
    · cases h
  · cases h

theorem onAttemptEnds_cases (h : s.onAttemptEnds = some s') : ∃ w,
    (s.starting = some ⟨w, true, some true⟩ ∧ s' = { s with starting := none }) ∨
    (s.starting = some ⟨w, true, some false⟩ ∧ s' = s.spawnFailed ⟨w, true, some false⟩) := by
  unfold onAttemptEnds at h
  split at h
  · next w hs => exact ⟨w, .inl ⟨hs, (Option.some.inj h).symm⟩⟩
  · next w hs => exact ⟨w, .inr ⟨hs, (Option.some.inj h).symm⟩⟩
  · cases h

theorem onDeliver_cases (h : s.onDeliver w = some s') : ∃ m rest,
    (s.workers w).listened = true ∧ (s.workers w).messages = m :: rest ∧
      s' = (s.modify w fun worker => { worker with messages := rest }).handleMessage w m := by
  unfold onDeliver at h
  split at h
  · next m rest hl hm => exact ⟨m, rest, hl, hm, (Option.some.inj h).symm⟩
  · cases h

theorem onAnswer_cases {ok : Bool} (h : s.onAnswer w ok = some s') : ∃ id rest,
    (s.workers w).phase = .serving ∧ (s.workers w).commands = .call id :: rest ∧
      s' = s.modify w fun worker =>
        { worker with commands := rest }.post (if ok then .response id else .error id) := by
  unfold onAnswer at h
  split at h
  · next id rest hp hc => exact ⟨id, rest, hp, hc, (Option.some.inj h).symm⟩
  · cases h

theorem onShutdown_cases {runtimeThread : Bool} {closing destroying : Closing}
    (h : s.onShutdown w runtimeThread closing destroying = some s') : ∃ id rest,
    (s.workers w).phase = .serving ∧ (s.workers w).commands = .shutdown id :: rest ∧
      s' = s.modify w fun worker =>
        { worker with commands := rest }.shutdown id runtimeThread closing destroying := by
  unfold onShutdown at h
  split at h
  · next id rest hp hc => exact ⟨id, rest, hp, hc, (Option.some.inj h).symm⟩
  · cases h

end Inversion

namespace Numbered

theorem modify (h : Numbered s) {w : Nat} {f : Worker → Worker}
    (hs : ∀ id, (f (s.workers w)).Serves id → (s.workers w).Serves id)
    (he : ∀ id, (f (s.workers w)).Ends id → (s.workers w).Ends id) : Numbered (s.modify w f) := by
  constructor
  · exact h.closes
  · intro w' id hw
    rw [modify_workers] at hw
    split at hw
    · next heq => exact h.serves w id (hs id hw)
    · exact h.serves w' id hw
  · intro w' id hw
    rw [modify_workers] at hw
    split at hw
    · next heq => exact heq ▸ h.ends w id (he id hw)
    · exact h.ends w' id hw

theorem closeReceive (h : Numbered s) : Numbered s.closeReceive := by
  unfold InkHoleCore.closeReceive
  split
  · exact h.modify (fun _ hs => hs) (fun _ he => he)
  · exact h

theorem killIsolate (h : Numbered s) : Numbered s.killIsolate := by
  unfold InkHoleCore.killIsolate
  split
  · exact h.modify (fun _ hs => hs) (fun _ he => he)
  · exact h

theorem mapCloses (h : Numbered s) {pending : List Nat} {f : PendingClose → PendingClose}
    (hi : ∀ c, (f c).id = c.id ∧ (f c).worker = c.worker)
    (hp : ∀ c ∈ s.closes, (f c).outcome = none → c.id ∈ pending) :
    Numbered { s with pending := pending, closes := s.closes.map f } := by
  constructor
  · intro c' hc'
    obtain ⟨c, hc, rfl⟩ := List.mem_map.mp hc'
    rw [(hi c).1]
    exact ⟨(h.closes c hc).1, hp c hc⟩
  · intro w id hw
    refine ⟨(h.serves w id hw).1, fun c' hc' => ?_⟩
    obtain ⟨c, hc, rfl⟩ := List.mem_map.mp hc'
    rw [(hi c).1]
    exact (h.serves w id hw).2 c hc
  · intro w id hw
    refine ⟨(h.ends w id hw).1, fun c' hc' => ?_⟩
    obtain ⟨c, hc, rfl⟩ := List.mem_map.mp hc'
    rw [(hi c).1, (hi c).2]
    exact (h.ends w id hw).2 c hc

theorem complete (h : Numbered s) (id : Nat) (ok : Bool) : Numbered (s.complete id ok) := by
  unfold InkHoleCore.complete
  split
  · apply h.mapCloses
    · intro c
      unfold PendingClose.settle
      split <;> exact ⟨rfl, rfl⟩
    · intro c hc ho
      unfold PendingClose.settle at ho
      split at ho
      · cases ho
      · next hn =>
        have hmem := (h.closes c hc).2 ho
        simpa [hmem] using fun hid => hn ⟨hid, ho⟩
  · exact h

theorem failPending (h : Numbered s) : Numbered s.failPending := by
  apply h.mapCloses
  · intro c
    unfold PendingClose.fail
    split <;> exact ⟨rfl, rfl⟩
  · intro c hc ho
    unfold PendingClose.fail at ho
    split at ho
    · cases ho
    · next hn => exact absurd ⟨(h.closes c hc).2 ho, ho⟩ hn

theorem dropClose (h : Numbered s) (id : Nat) : Numbered (s.dropClose id) := by
  constructor
  · exact fun c hc => h.closes c (List.mem_filter.mp hc).1
  · exact fun w id hw => ⟨(h.serves w id hw).1, fun c hc =>
      (h.serves w id hw).2 c (List.mem_filter.mp hc).1⟩
  · exact fun w id hw => ⟨(h.ends w id hw).1, fun c hc =>
      (h.ends w id hw).2 c (List.mem_filter.mp hc).1⟩

theorem start (h : Numbered s) : Numbered s.start := by
  unfold InkHoleCore.start
  split
  · constructor
    · exact h.closes
    · intro w id hw
      simp only [InkHoleCore.spawn, Function.update_apply] at hw
      split at hw
      · simp [Worker.Serves, Worker.spawned] at hw
      · exact h.serves w id hw
    · intro w id hw
      simp only [InkHoleCore.spawn, Function.update_apply] at hw
      split at hw
      · simp [Worker.Ends, Worker.spawned] at hw
      · exact h.ends w id hw
  · exact h

theorem spawnFailed (h : Numbered s) (attempt : Attempt) : Numbered (s.spawnFailed attempt) := by
  have hk := (h.modify (w := attempt.worker) (f := fun worker => { worker with listened := false })
    (fun _ hs => hs) (fun _ he => he)).killIsolate
  exact ⟨hk.closes, hk.serves, hk.ends⟩

theorem readyWith (h : Numbered s) (ok : Bool) : Numbered (s.readyWith ok) :=
  ⟨h.closes, h.serves, h.ends⟩

theorem handleMessage (h : Numbered s) (w : Nat) (m : Message) : Numbered (s.handleMessage w m) := by
  cases m with
  | ready => exact ⟨h.closes, h.serves, h.ends⟩
  | event => exact h
  | response id => exact h.complete id true
  | error id => exact h.complete id false
  | shutdown id => exact h.complete id true
  | fatal =>
    have hk := (h.readyWith false).failPending.closeReceive.killIsolate
    exact ⟨hk.closes, hk.serves, hk.ends⟩

theorem tearDown (h : Numbered s) : Numbered s.tearDown := by
  have hk := h.closeReceive.killIsolate.failPending
  exact ⟨hk.closes, hk.serves, hk.ends⟩

theorem send (h : Numbered s) : Numbered s.send := by
  unfold InkHoleCore.send
  cases hc : s.commands with
  | none =>
    constructor
    · exact fun c hc => ⟨Nat.lt_succ_of_lt (h.closes c hc).1, (h.closes c hc).2⟩
    · exact fun w id hw => ⟨Nat.lt_succ_of_lt (h.serves w id hw).1, (h.serves w id hw).2⟩
    · exact fun w id hw => ⟨Nat.lt_succ_of_lt (h.ends w id hw).1, (h.ends w id hw).2⟩
  | some w =>
    constructor
    · intro c hc
      have := h.closes c hc
      exact ⟨Nat.lt_succ_of_lt this.1, fun ho => List.mem_cons_of_mem _ (this.2 ho)⟩
    · intro w' id hw
      have hold : (s.workers w').Serves id ∨ id = s.nextRequest := by
        simp only [modify_workers, Worker.Serves] at hw
        split at hw
        · next heq =>
          subst heq
          simpa [Worker.Serves, or_right_comm] using hw
        · exact .inl hw
      rcases hold with hold | rfl
      · exact ⟨Nat.lt_succ_of_lt (h.serves w' id hold).1, (h.serves w' id hold).2⟩
      · exact ⟨Nat.lt_succ_self _, fun c hc => Nat.ne_of_lt (h.closes c hc).1⟩
    · intro w' id hw
      have hold : (s.workers w').Ends id := by
        simp only [modify_workers, Worker.Ends] at hw
        split at hw
        · next heq =>
          subst heq
          simpa [Worker.Ends] using hw
        · exact hw
      exact ⟨Nat.lt_succ_of_lt (h.ends w' id hold).1, (h.ends w' id hold).2⟩

theorem close (h : Numbered s) : Numbered s.close := by
  unfold InkHoleCore.close
  cases hc : s.commands with
  | none => exact ⟨h.closes, h.serves, h.ends⟩
  | some w =>
    constructor
    · intro c hc
      rcases List.mem_cons.mp hc with rfl | hc
      · exact ⟨Nat.lt_succ_self _, fun _ => List.mem_cons_self⟩
      · have := h.closes c hc
        exact ⟨Nat.lt_succ_of_lt this.1, fun ho => List.mem_cons_of_mem _ (this.2 ho)⟩
    · intro w' id hw
      have hold : (s.workers w').Serves id := by
        simp only [modify_workers, Worker.Serves] at hw
        split at hw
        · next heq =>
          subst heq
          simpa [Worker.Serves] using hw
        · exact hw
      have hlt := (h.serves w' id hold).1
      refine ⟨Nat.lt_succ_of_lt hlt, fun c hc => ?_⟩
      rcases List.mem_cons.mp hc with rfl | hc
      · exact (Nat.ne_of_lt hlt).symm
      · exact (h.serves w' id hold).2 c hc
    · intro w' id hw
      have hold : (s.workers w').Ends id ∨ (id = s.nextRequest ∧ w' = w) := by
        simp only [modify_workers, Worker.Ends] at hw
        split at hw
        · next heq =>
          subst heq
          simpa [Worker.Ends, or_right_comm] using hw
        · exact .inl hw
      rcases hold with hold | ⟨rfl, rfl⟩
      · have hlt := (h.ends w' id hold).1
        refine ⟨Nat.lt_succ_of_lt hlt, fun c hc hid => ?_⟩
        rcases List.mem_cons.mp hc with rfl | hc
        · exact absurd hid (Nat.ne_of_lt hlt).symm
        · exact (h.ends w' id hold).2 c hc hid
      · refine ⟨Nat.lt_succ_self _, fun c hc hid => ?_⟩
        rcases List.mem_cons.mp hc with rfl | hc
        · rfl
        · exact absurd hid (Nat.ne_of_lt (h.closes c hc).1)

theorem deliver (h : Numbered s) {w : Nat} {m : Message} {rest : List Message}
    (hm : (s.workers w).messages = m :: rest) :
    Numbered (s.modify w fun worker => { worker with messages := rest }) := by
  apply h.modify
  · intro id hs
    have := hs.imp_right fun hr : Message.response id ∈ rest => List.mem_cons_of_mem m hr
    rwa [← hm] at this
  · intro id he
    have := he.imp_right fun hr : Message.shutdown id ∈ rest => List.mem_cons_of_mem m hr
    rwa [← hm] at this

/-- A worker speaks of the requests it has been sent only. -/
theorem worker (h : Numbered s) {s' : InkHoleCore} {w : Nat} {e : Event}
    (he : (∃ ok, e = .boot w ok) ∨ (∃ ok, e = .poll w ok) ∨ (∃ ok, e = .answer w ok) ∨
      (∃ r c d, e = .shutdown w r c d) ∨ e = .dies w)
    (hs : s.step e = some s') : Numbered s' := by
  rcases he with ⟨ok, rfl⟩ | ⟨ok, rfl⟩ | ⟨ok, rfl⟩ | ⟨r, c, d, rfl⟩ | rfl
  · obtain ⟨_, rfl⟩ := Option.ite_some_none_eq_some.mp hs
    cases ok <;> exact h.modify
      (fun id hm => by simpa [Worker.Serves, Worker.boot, Worker.post] using hm)
      (fun id hm => by simpa [Worker.Ends, Worker.boot, Worker.post] using hm)
  · obtain ⟨_, rfl⟩ := Option.ite_some_none_eq_some.mp hs
    cases ok <;> exact h.modify
      (fun id hm => by simpa [Worker.Serves, Worker.poll, Worker.post] using hm)
      (fun id hm => by simpa [Worker.Ends, Worker.poll, Worker.post] using hm)
  · obtain ⟨id, rest, _, hc, rfl⟩ := onAnswer_cases hs
    cases ok <;> exact h.modify
      (fun id' hm => by
        simp [Worker.Serves, Worker.post, hc] at hm ⊢
        tauto)
      (fun id' hm => by simpa [Worker.Ends, Worker.post, hc] using hm)
  · obtain ⟨id, rest, _, hc, rfl⟩ := onShutdown_cases hs
    exact h.modify
      (fun id' hm => by simpa [Worker.Serves, Worker.shutdown, Worker.post, hc] using hm)
      (fun id' hm => by
        simp [Worker.Ends, Worker.shutdown, Worker.post, hc] at hm ⊢
        tauto)
  · obtain ⟨_, rfl⟩ := Option.ite_some_none_eq_some.mp hs
    exact h.modify (fun _ hm => hm) (fun _ hm => hm)

theorem step (h : Numbered s) {s' : InkHoleCore} {e : Event} (hs : s.step e = some s') :
    Numbered s' := by
  cases e with
  | start =>
    obtain rfl := Option.some.inj hs
    exact ⟨h.start.closes, h.start.serves, h.start.ends⟩
  | call =>
    obtain rfl := Option.some.inj hs
    exact ⟨h.start.closes, h.start.serves, h.start.ends⟩
  | send =>
    obtain ⟨_, rfl⟩ := Option.ite_some_none_eq_some.mp hs
    exact h.send
  | refuse =>
    obtain ⟨_, rfl⟩ := Option.ite_some_none_eq_some.mp hs
    exact ⟨h.closes, h.serves, h.ends⟩
  | close =>
    obtain rfl := Option.some.inj hs
    exact h.close
  | timesOut id =>
    obtain ⟨_, rfl⟩ := Option.ite_some_none_eq_some.mp hs
    have hl : Numbered { s with shutdownTimedOut := true } := ⟨h.closes, h.serves, h.ends⟩
    exact hl.tearDown.dropClose id
  | closeEnds id =>
    simp only [InkHoleCore.step] at hs
    split at hs
    · obtain rfl := Option.some.inj hs
      exact h.tearDown.dropClose id
    · obtain rfl := Option.some.inj hs
      exact h.dropClose id
    · cases hs
  | release =>
    obtain rfl := Option.some.inj hs
    exact ⟨h.closes, h.serves, h.ends⟩
  | spawned =>
    obtain ⟨w, ready, _, rfl⟩ := onSpawned_cases hs
    exact ⟨h.closes, h.serves, h.ends⟩
  | spawnFails =>
    obtain ⟨w, ready, _, _, rfl⟩ := onSpawnFails_cases hs
    exact (h.modify (fun _ hm => hm) (fun _ hm => hm)).spawnFailed _
  | attemptEnds =>
    obtain ⟨w, ⟨_, rfl⟩ | ⟨_, rfl⟩⟩ := onAttemptEnds_cases hs
    · exact ⟨h.closes, h.serves, h.ends⟩
    · exact h.spawnFailed _
  | deliver w =>
    obtain ⟨m, rest, _, hm, rfl⟩ := onDeliver_cases hs
    exact (h.deliver hm).handleMessage w m
  | boot w ok => exact h.worker (.inl ⟨ok, rfl⟩) hs
  | poll w ok => exact h.worker (.inr (.inl ⟨ok, rfl⟩)) hs
  | answer w ok => exact h.worker (.inr (.inr (.inl ⟨ok, rfl⟩))) hs
  | shutdown w r c d => exact h.worker (.inr (.inr (.inr (.inl ⟨r, c, d, rfl⟩)))) hs
  | dies w => exact h.worker (.inr (.inr (.inr (.inr rfl)))) hs

theorem fresh : Numbered fresh := by
  constructor
  · intro c hc
    cases hc
  · intro w id hw
    simp [InkHoleCore.fresh, Worker.Serves, Worker.unborn] at hw
  · intro w id hw
    simp [InkHoleCore.fresh, Worker.Ends, Worker.unborn] at hw

end Numbered

theorem settle_cases (id : Nat) (ok : Bool) (c : PendingClose) : PendingClose.settle id ok c = c ∨
    (c.id = id ∧ c.outcome = none ∧
      PendingClose.settle id ok c = { c with outcome := some ok }) := by
  unfold PendingClose.settle
  split
  · next h => exact .inr ⟨h.1, h.2, rfl⟩
  · exact .inl rfl

theorem fail_cases (pending : List Nat) (c : PendingClose) : PendingClose.fail pending c = c ∨
    PendingClose.fail pending c = { c with outcome := some false } := by
  unfold PendingClose.fail
  split
  · exact .inr rfl
  · exact .inl rfl

theorem closeReceive_workers (s : InkHoleCore) (w : Nat) : s.closeReceive.workers w =
    { s.workers w with listened := (s.workers w).listened && decide (s.receive ≠ some w) } := by
  unfold closeReceive
  cases hr : s.receive with
  | none => simp
  | some r =>
    by_cases h : w = r
    · simp [modify_workers, h]
    · have : r ≠ w := fun he => h he.symm
      simp [modify_workers, h, this]

theorem killIsolate_workers (s : InkHoleCore) (w : Nat) : s.killIsolate.workers w =
    { s.workers w with killed := (s.workers w).killed || decide (s.isolate = some w) } := by
  unfold killIsolate
  cases hi : s.isolate with
  | none => simp
  | some i =>
    by_cases h : w = i
    · simp [modify_workers, h]
    · have : i ≠ w := fun he => h he.symm
      simp [modify_workers, h, this]

theorem closeReceive_eq (s : InkHoleCore) : s.closeReceive = { s with
    workers := fun w =>
      { s.workers w with listened := (s.workers w).listened && decide (s.receive ≠ some w) } } := by
  have h := funext (closeReceive_workers s)
  rw [← h]
  unfold closeReceive
  split <;> rfl

theorem killIsolate_eq (s : InkHoleCore) : s.killIsolate = { s with
    workers := fun w =>
      { s.workers w with killed := (s.workers w).killed || decide (s.isolate = some w) } } := by
  have h := funext (killIsolate_workers s)
  rw [← h]
  unfold killIsolate
  split <;> rfl

namespace Orderly

/-- A worker that hears nothing, and one that has ended, is nobody's. -/
theorem gone_of_unheard (h : Orderly s) (hc : s.commands = none) (ha : ∀ w, ¬s.Awaits w) (w : Nat) :
    (s.workers w).listened = false ∧ (s.workers w).phase = .gone := by
  have hl : (s.workers w).listened = false := by
    by_contra hl
    rcases (h.heard w (by simpa using hl)).2 with hw | hw
    · simp [hc] at hw
    · exact ha w hw
  refine ⟨hl, ?_⟩
  by_contra hp
  have := (h.alive w hp).1
  simp [hl] at this

theorem not_ready (h : Orderly s) {w : Nat} (hp : (s.workers w).phase = .gone) :
    .ready ∉ (s.workers w).messages := by
  intro hm
  have := (h.ready w hm).1
  simp [hp] at this

/-- What is left when every worker has ended and none is connected. -/
theorem of_gone (ht : s.shutdownTimedOut = false)
    (hw : ∀ w, (s.workers w).Ordered ∧ (s.workers w).phase = .gone ∧
      (s.workers w).listened = false ∧ .ready ∉ (s.workers w).messages)
    (hc : s.commands = none) (ha : ∀ w, ¬s.Awaits w)
    (hf : ∀ attempt ∈ s.starting, attempt.ready = some false → s.receive = none)
    (hcl : ∀ c ∈ s.closes, c.outcome = some false) : Orderly s := by
  constructor
  · exact ht
  · exact fun w => (hw w).1
  · exact fun w hp => absurd (hw w).2.1 hp
  · intro w hl
    simp [(hw w).2.2.1] at hl
  · intro w hp
    simp [hc] at hp
  · intro w hp
    simp [(hw w).2.1] at hp
  · exact fun w h => absurd h (ha w)
  · exact fun w hm => absurd hm (hw w).2.2.2
  · exact fun attempt hs hr => ⟨hf attempt hs hr, hc⟩
  · intro c hm ho
    simp [hcl c hm] at ho
  · intro c hm ho
    simp [hcl c hm] at ho
  · intro c hm c' hm' ho
    simp [hcl c hm] at ho
  · exact fun _ => ⟨hc, fun w => (hw w).2.1⟩

theorem modify (h : Orderly s) {w : Nat} {f : Worker → Worker}
    (ho : (f (s.workers w)).Ordered)
    (hl : (f (s.workers w)).listened = (s.workers w).listened)
    (hk : (f (s.workers w)).killed = (s.workers w).killed)
    (hb : (f (s.workers w)).phase = .booting → (s.workers w).phase = .booting ∧
      (f (s.workers w)).commands = (s.workers w).commands)
    (hg : (s.workers w).phase = .gone → (f (s.workers w)).phase = .gone ∧
      (f (s.workers w)).messages.countP Message.ends ≤ (s.workers w).messages.countP Message.ends)
    (hr : .ready ∈ (f (s.workers w)).messages →
      (f (s.workers w)).phase = .serving ∧ (f (s.workers w)).commands = [] ∧ s.Awaits w)
    (hf : .fatal ∈ (f (s.workers w)).messages →
      .fatal ∈ (s.workers w).messages ∨ (s.workers w).phase = .booting) :
    Orderly (s.modify w f) := by
  constructor
  · exact h.onTime
  · intro w'
    rw [modify_workers]
    split
    · exact ho
    · exact h.ordered w'
  · intro w' hp
    rw [modify_workers] at hp ⊢
    split at hp
    · next heq =>
      rw [if_pos heq, hl, hk]
      exact h.alive w fun hw => hp (hg hw).1
    · next hne =>
      rw [if_neg hne]
      exact h.alive w' hp
  · intro w' hp
    rw [modify_workers] at hp
    split at hp
    · next heq =>
      subst heq
      exact h.heard w' (hl ▸ hp)
    · exact h.heard w' hp
  · intro w' hc
    rw [modify_workers]
    split
    · next heq =>
      subst heq
      obtain ⟨hp, hm⟩ := h.port w' hc
      exact ⟨fun hp' => hp (hb hp').1, fun hm' => (hf hm').elim hm hp⟩
    · exact h.port w' hc
  · intro w' hp
    rw [modify_workers] at hp ⊢
    split at hp
    · next heq =>
      rw [if_pos heq, (hb hp).2]
      exact h.idle w (hb hp).1
    · next hne =>
      rw [if_neg hne]
      exact h.idle w' hp
  · exact h.blank
  · intro w' hm
    rw [modify_workers] at hm ⊢
    split at hm
    · next heq =>
      rw [if_pos heq]
      exact heq ▸ hr hm
    · next hne =>
      rw [if_neg hne]
      exact h.ready w' hm
  · exact h.failed
  · exact h.waiting
  · intro c hm hc
    obtain ⟨hw, hp, hn⟩ := h.answered c hm hc
    refine ⟨hw, ?_⟩
    rw [modify_workers]
    split
    · next heq =>
      rw [heq] at hp hn
      have := hg hp
      exact ⟨this.1, by omega⟩
    · exact ⟨hp, hn⟩
  · exact h.once
  · intro hq
    have := h.quiet hq
    refine ⟨this.1, fun w' => ?_⟩
    rw [modify_workers]
    split
    · exact (hg (this.2 w)).1
    · exact this.2 w'

theorem spawn (h : Orderly s) (hs : s.spawns = true) :
    Orderly { s.spawn with quiet := false } := by
  simp only [spawns, Bool.and_eq_true, Option.isNone_iff_eq_none] at hs
  obtain ⟨⟨-, hc⟩, hst⟩ := hs
  have hna : ∀ w, ¬s.Awaits w := by
    rintro w ⟨attempt, ha, -⟩
    simp [hst] at ha
  have hgone := h.gone_of_unheard hc hna
  have hworkers (w : Nat) : s.spawn.workers w =
      if w = s.spawned then Worker.spawned else s.workers w := by
    simp only [InkHoleCore.spawn, Function.update_apply]
  constructor
  · exact h.onTime
  · intro w
    simp only [hworkers]
    split
    · exact Worker.Ordered.spawned
    · exact h.ordered w
  · intro w hp
    simp only [hworkers] at hp ⊢
    split at hp
    · next heq => simp [heq, Worker.spawned]
    · exact absurd (hgone w).2 hp
  · intro w hl
    simp only [hworkers] at hl
    split at hl
    · next heq =>
      subst heq
      exact ⟨rfl, .inr ⟨_, rfl, rfl, rfl⟩⟩
    · simp [(hgone w).1] at hl
  · intro w hw
    simp [InkHoleCore.spawn, hc] at hw
  · intro w hp
    simp only [hworkers] at hp ⊢
    split at hp
    · next heq => simp [heq, Worker.spawned]
    · exact absurd hp (by simp [(hgone w).2])
  · exact fun _ _ => hc
  · intro w hm
    simp only [hworkers] at hm
    split at hm
    · simp [Worker.spawned] at hm
    · exact absurd hm (h.not_ready (hgone w).2)
  · intro attempt ha hr
    obtain rfl := Option.some.inj ha
    cases hr
  · intro c hm ho
    have := h.waiting c hm ho
    simp [hc] at this
  · intro c hm ho
    have := (h.answered c hm ho).1
    simp [hc] at this
  · exact h.once
  · intro hq
    cases hq

/-- `quiet` may be taken back. -/
theorem unquiet (h : Orderly s) : Orderly { s with quiet := false } :=
  ⟨h.onTime, h.ordered, h.alive, h.heard, h.port, h.idle, h.blank, h.ready, h.failed, h.waiting, h.answered,
    h.once, fun hq => by cases hq⟩

theorem start (h : Orderly s) : Orderly { s.start with quiet := false } := by
  unfold InkHoleCore.start
  split
  · next hs => exact h.spawn hs
  · exact h.unquiet

/-- A command goes to the worker whose port the main isolate has. -/
theorem command (h : Orderly s) {w : Nat} (hc : s.commands = some w) (command : Command) :
    Orderly (s.modify w fun worker =>
      { worker with commands := worker.commands ++ [command] }) := by
  apply h.modify
  · exact (h.ordered w).congr rfl rfl rfl
  · rfl
  · rfl
  · exact fun hp => absurd hp (h.port w hc).1
  · exact fun hg => ⟨hg, Nat.le_refl _⟩
  · intro hm
    have := h.blank w (h.ready w hm).2.2
    simp [hc] at this
  · exact .inl

theorem send (h : Orderly s) : Orderly s.send := by
  unfold InkHoleCore.send
  split
  · next w hc =>
    have h' := h.command hc (.call s.nextRequest)
    exact ⟨h'.onTime, h'.ordered, h'.alive, h'.heard, h'.port, h'.idle, h'.blank, h'.ready,
      h'.failed, h'.waiting, h'.answered, h'.once, h'.quiet⟩
  · exact ⟨h.onTime, h.ordered, h.alive, h.heard, h.port, h.idle, h.blank, h.ready, h.failed, h.waiting,
      h.answered, h.once, h.quiet⟩

theorem close (h : Orderly s) (ha : ∀ w, ¬s.Awaits w) : Orderly s.close := by
  unfold InkHoleCore.close
  split
  · next hc =>
    have hgone := h.gone_of_unheard hc ha
    exact ⟨h.onTime, h.ordered, h.alive, h.heard, h.port, h.idle, h.blank, h.ready, h.failed,
      h.waiting, h.answered, h.once, fun _ => ⟨hc, fun w => (hgone w).2⟩⟩
  · next w hc =>
    have h' := h.command hc (.shutdown s.nextRequest)
    refine ⟨rfl, h'.ordered, h'.alive, h'.heard, h'.port, h'.idle, h'.blank, h'.ready, h'.failed,
      ?_, ?_, ?_, h'.quiet⟩
    · intro c hm ho
      rcases List.mem_cons.mp hm with rfl | hm
      · exact hc
      · exact h'.waiting c hm ho
    · intro c hm ho
      rcases List.mem_cons.mp hm with rfl | hm
      · cases ho
      · exact h'.answered c hm ho
    · intro c hm c' hm' ho ho'
      rcases List.mem_cons.mp hm with rfl | hm
      · cases ho
      · rcases List.mem_cons.mp hm' with rfl | hm'
        · cases ho'
        · exact h'.once c hm c' hm' ho ho'

theorem boot (h : Orderly s) {w : Nat} (hp : (s.workers w).phase = .booting) (ok : Bool) :
    Orderly (s.modify w fun worker => worker.boot ok) := by
  have ha : s.Awaits w := by
    have hl := (h.alive w (by simp [hp])).1
    rcases (h.heard w hl).2 with hc | ha
    · exact absurd hp (h.port w hc).1
    · exact ha
  apply h.modify
  · exact (h.ordered w).boot hp ok
  · cases ok <;> rfl
  · cases ok <;> rfl
  · cases ok <;> exact fun hb => by cases hb
  · intro hg
    simp [hp] at hg
  · intro hm
    have hmessages := (h.ordered w).booting hp
    cases ok with
    | false => simp [Worker.boot, Worker.post, hmessages] at hm
    | true => exact ⟨rfl, h.idle w hp, ha⟩
  · exact fun _ => .inr hp

theorem post (h : Orderly s) {w : Nat} (hp : (s.workers w).phase = .serving) {m : Message}
    (hr : m ≠ .ready) (hf : m ≠ .fatal) (he : m.ends = false) (rest : List Command)
    (hrest : .ready ∈ (s.workers w).messages → rest = []) :
    Orderly (s.modify w fun worker => { worker with commands := rest }.post m) := by
  have ho : { s.workers w with commands := rest }.Ordered := (h.ordered w).congr rfl rfl rfl
  apply h.modify
  · exact ho.post hp hr hf he
  · rfl
  · rfl
  · intro hb
    simp [Worker.post, hp] at hb
  · intro hg
    simp [hp] at hg
  · intro hm
    have hold : .ready ∈ (s.workers w).messages := by
      rcases List.mem_append.mp hm with hm | hm
      · exact hm
      · exact absurd (List.mem_singleton.mp hm).symm hr
    exact ⟨hp, hrest hold, (h.ready w hold).2.2⟩
  · intro hm
    rcases List.mem_append.mp hm with hm | hm
    · exact .inl hm
    · exact absurd (List.mem_singleton.mp hm).symm hf

theorem shutdown (h : Orderly s) {w id : Nat} {rest : List Command}
    (hp : (s.workers w).phase = .serving) (hc : (s.workers w).commands = .shutdown id :: rest)
    {runtimeThread : Bool} {closing destroying : Closing}
    (hok : ∀ service ∈ (s.workers w).service, (closeService runtimeThread closing service).1 = .ok) :
    Orderly (s.modify w fun worker =>
      { worker with commands := rest }.shutdown id runtimeThread closing destroying) := by
  have ho : { s.workers w with commands := rest }.Ordered := (h.ordered w).congr rfl rfl rfl
  apply h.modify
  · exact ho.shutdown hp hok
  · rfl
  · rfl
  · intro hb
    cases hb
  · intro hg
    simp [hp] at hg
  · intro hm
    have hold : .ready ∈ (s.workers w).messages := by
      simpa [Worker.shutdown, Worker.post] using hm
    have := (h.ready w hold).2.1
    simp [hc] at this
  · intro hm
    simp only [Worker.shutdown, Worker.post, List.mem_append, List.mem_singleton, reduceCtorEq,
      or_false] at hm
    exact .inl hm

theorem take (h : Orderly s) {w : Nat} {m : Message} {rest : List Message}
    (hm : (s.workers w).messages = m :: rest) :
    Orderly (s.modify w fun worker => { worker with messages := rest }) := by
  apply h.modify
  · exact (h.ordered w).take hm
  · rfl
  · rfl
  · exact fun hb => ⟨hb, rfl⟩
  · refine fun hg => ⟨hg, ?_⟩
    simp [hm, List.countP_cons]
  · intro hr
    exact h.ready w (hm ▸ List.mem_cons_of_mem m hr)
  · exact fun hf => .inl (hm ▸ List.mem_cons_of_mem m hf)

theorem onReady (h : Orderly s) {w : Nat} (hp : (s.workers w).phase = .serving) (ha : s.Awaits w)
    (hm : .ready ∉ (s.workers w).messages) : Orderly ({ s with commands := some w }.readyWith true) := by
  obtain ⟨attempt, hs, hw, hr⟩ := ha
  have hc : s.commands = none := h.blank w ⟨attempt, hs, hw, hr⟩
  have hst : (s.starting.map fun attempt : Attempt =>
      if attempt.ready = none then { attempt with ready := some true } else attempt) =
      some { attempt with ready := some true } := by
    rw [Option.mem_def.mp hs]
    simp [hr]
  have hone (w' : Nat) (ha' : s.Awaits w') : w' = w := by
    obtain ⟨attempt', hs', hw', -⟩ := ha'
    rw [Option.mem_def.mp hs] at hs'
    obtain rfl := Option.some.inj hs'
    exact hw'.symm.trans hw
  have hna (w' : Nat) : ¬({ s with commands := some w }.readyWith true).Awaits w' := by
    rintro ⟨attempt', hs', -, hr'⟩
    simp only [InkHoleCore.readyWith, hst] at hs'
    obtain rfl := Option.some.inj hs'
    cases hr'
  constructor
  · exact h.onTime
  · exact h.ordered
  · exact h.alive
  · intro w' hl
    obtain ⟨hrec, hw' | hw'⟩ := h.heard w' hl
    · simp [hc] at hw'
    · exact ⟨hrec, .inl (congrArg some (hone w' hw').symm)⟩
  · intro w' hw'
    obtain rfl := Option.some.inj hw'
    refine ⟨by simp [InkHoleCore.readyWith, hp], fun hf => ?_⟩
    have := (h.ordered w).fatal hf
    simp [hp] at this
  · exact h.idle
  · exact fun w' hw' => absurd hw' (hna w')
  · intro w' hm'
    have hw' := hone w' (h.ready w' hm').2.2
    subst hw'
    exact absurd hm' hm
  · intro attempt' hs' hr'
    simp only [InkHoleCore.readyWith, hst] at hs'
    obtain rfl := Option.some.inj hs'
    cases hr'
  · intro c hcl ho
    have := h.waiting c hcl ho
    simp [hc] at this
  · intro c hcl ho
    have := (h.answered c hcl ho).1
    simp [hc] at this
  · exact h.once
  · intro hq
    have := (h.quiet hq).2 w
    simp [hp] at this

/-- A completer may fail at any time. -/
theorem fails (h : Orderly s) {pending : List Nat} {f : PendingClose → PendingClose}
    (hf : ∀ c, f c = c ∨ f c = { c with outcome := some false }) :
    Orderly { s with pending := pending, closes := s.closes.map f } := by
  have hold {c' : PendingClose} (hc' : c' ∈ s.closes.map f) (ho : c'.outcome ≠ some false) :
      c' ∈ s.closes := by
    obtain ⟨c, hc, rfl⟩ := List.mem_map.mp hc'
    rcases hf c with he | he
    · rwa [he]
    · rw [he] at ho
      exact absurd rfl ho
  refine ⟨h.onTime, h.ordered, h.alive, h.heard, h.port, h.idle, h.blank, h.ready, h.failed,
    ?_, ?_, ?_, h.quiet⟩
  · intro c hc ho
    exact h.waiting c (hold hc (by simp [ho])) ho
  · intro c hc ho
    exact h.answered c (hold hc (by simp [ho])) ho
  · intro c hc c' hc' ho ho'
    exact h.once c (hold hc (by simp [ho])) c' (hold hc' (by simp [ho'])) ho ho'

theorem onError (h : Orderly s) (id : Nat) : Orderly (s.complete id false) := by
  unfold InkHoleCore.complete
  split
  · apply h.fails
    intro c
    exact (settle_cases id false c).imp_right fun hc => hc.2.2
  · exact h

theorem onResponse (h : Orderly s) {id : Nat} (hc : ∀ c ∈ s.closes, c.id ≠ id) :
    Orderly (s.complete id true) := by
  unfold InkHoleCore.complete
  split
  · have hmap : s.closes.map (PendingClose.settle id true) = s.closes.map fun c => c := by
      apply List.map_congr_left
      intro c hm
      simp [PendingClose.settle, hc c hm]
    rw [hmap, List.map_id']
    exact ⟨h.onTime, h.ordered, h.alive, h.heard, h.port, h.idle, h.blank, h.ready, h.failed,
      h.waiting, h.answered, h.once, h.quiet⟩
  · exact h

/-- The answer of a worker that has ended completes the close that waits for that worker. -/
theorem onShutdown (h : Orderly s) {w id : Nat} (hc : ∀ c ∈ s.closes, c.id = id → c.worker = w)
    (hp : (s.workers w).phase = .gone) (hm : (s.workers w).messages.countP Message.ends = 0)
    (hn : ∀ c ∈ s.closes, c.worker = w → c.outcome ≠ some true) :
    Orderly (s.complete id true) := by
  unfold InkHoleCore.complete
  split
  · have hnew {c : PendingClose} (hcl : c ∈ s.closes) (hid : c.id = id) (ho : c.outcome = none) :
        s.commands = some w ∧ c.worker = w := by
      have hw := hc c hcl hid
      exact ⟨hw ▸ h.waiting c hcl ho, hw⟩
    refine ⟨h.onTime, h.ordered, h.alive, h.heard, h.port, h.idle, h.blank, h.ready, h.failed,
      ?_, ?_, ?_, h.quiet⟩
    · intro c' hc' ho
      obtain ⟨c, hcl, rfl⟩ := List.mem_map.mp hc'
      rcases settle_cases id true c with he | ⟨-, -, he⟩
      · rw [he] at ho ⊢
        exact h.waiting c hcl ho
      · simp [he] at ho
    · intro c' hc' ho
      obtain ⟨c, hcl, rfl⟩ := List.mem_map.mp hc'
      rcases settle_cases id true c with he | ⟨hid, hnone, he⟩
      · rw [he] at ho ⊢
        exact h.answered c hcl ho
      · obtain ⟨hcom, hw⟩ := hnew hcl hid hnone
        simp only [he, hw]
        exact ⟨hcom, hp, hm⟩
    · intro c₁' hc₁' c₂' hc₂' ho₁ ho₂
      obtain ⟨c₁, hcl₁, rfl⟩ := List.mem_map.mp hc₁'
      obtain ⟨c₂, hcl₂, rfl⟩ := List.mem_map.mp hc₂'
      -- an answered close waits for the worker that is connected, and that worker has not
      -- answered before
      have hold {c d : PendingClose} (hcl : c ∈ s.closes) (hdl : d ∈ s.closes)
          (ho : c.outcome = some true) (hid : d.id = id) (hnone : d.outcome = none) : False := by
        have hcw := (h.answered c hcl ho).1
        rw [(hnew hdl hid hnone).1] at hcw
        exact hn c hcl (Option.some.inj hcw).symm ho
      rcases settle_cases id true c₁ with he₁ | ⟨hid₁, hnone₁, he₁⟩ <;>
        rcases settle_cases id true c₂ with he₂ | ⟨hid₂, hnone₂, he₂⟩
      · rw [he₁] at ho₁ ⊢
        rw [he₂] at ho₂ ⊢
        exact h.once c₁ hcl₁ c₂ hcl₂ ho₁ ho₂
      · exact (hold hcl₁ hcl₂ (he₁ ▸ ho₁) hid₂ hnone₂).elim
      · exact (hold hcl₂ hcl₁ (he₂ ▸ ho₂) hid₁ hnone₁).elim
      · rw [he₁, he₂]
        exact hid₁.trans hid₂.symm
  · exact h

/-- Without a port, no close waits. -/
theorem closes_failed (h : Orderly s) (hc : s.commands = none) :
    ∀ c ∈ s.closes, c.outcome = some false := by
  intro c hcl
  cases ho : c.outcome with
  | none =>
    have := h.waiting c hcl ho
    simp [hc] at this
  | some ok =>
    cases ok with
    | false => rfl
    | true =>
      have := (h.answered c hcl ho).1
      simp [hc] at this

/-- Whoever has not ended is the worker that the main isolate hears. -/
theorem gone_of_receive (h : Orderly s) {w : Nat} (hr : s.receive = some w)
    (hp : (s.workers w).phase = .gone) (w' : Nat) : (s.workers w').phase = .gone := by
  by_contra hp'
  have hr' := (h.heard w' (h.alive w' hp').1).1
  rw [hr] at hr'
  obtain rfl := Option.some.inj hr'
  exact hp' hp

/-- After a worker that could not begin has reported, the main isolate forgets it. -/
theorem onFatal (h : Orderly s) {w : Nat} (hl : (s.workers w).listened = true)
    (hp : (s.workers w).phase = .gone) (hc : s.commands = none) :
    Orderly (s.handleMessage w .fatal) := by
  have hgone := h.gone_of_receive (h.heard w hl).1 hp
  simp only [InkHoleCore.handleMessage, closeReceive_eq, killIsolate_eq]
  apply of_gone
  · exact h.onTime
  · intro w'
    refine ⟨(h.ordered w').congr rfl rfl rfl, hgone w', ?_, h.not_ready (hgone w')⟩
    cases hw : (s.workers w').listened with
    | false => simp [failPending, InkHoleCore.readyWith, hw]
    | true => simp [failPending, InkHoleCore.readyWith, (h.heard w' hw).1]
  · rfl
  · rintro w' ⟨attempt', hs', -, hr'⟩
    obtain ⟨attempt, hs, rfl⟩ := Option.map_eq_some_iff.mp hs'
    split at hr'
    · cases hr'
    · next hne => exact hne hr'
  · exact fun _ _ _ => rfl
  · intro c' hc'
    obtain ⟨c, hcl, rfl⟩ := List.mem_map.mp hc'
    rcases fail_cases (s.readyWith false).pending c with he | he
    · rw [he]
      exact h.closes_failed hc c hcl
    · rw [he]

theorem spawnFailed (h : Orderly s) {attempt : Attempt}
    (hg : ∀ w, (s.workers w).phase = .gone)
    (hl : ∀ w, (s.workers w).listened = true → w = attempt.worker) (hc : s.commands = none) :
    Orderly (s.spawnFailed attempt) := by
  simp only [InkHoleCore.spawnFailed, killIsolate_eq]
  apply of_gone
  · exact h.onTime
  · intro w
    simp only [modify_workers]
    split
    · next heq =>
      subst heq
      exact ⟨(h.ordered _).congr rfl rfl rfl, hg _, rfl, h.not_ready (hg _)⟩
    · next hne =>
      refine ⟨(h.ordered w).congr rfl rfl rfl, hg w, ?_, h.not_ready (hg w)⟩
      by_contra hw
      exact hne (hl w (by simpa using hw))
  · rfl
  · rintro w ⟨attempt', hs, -⟩
    cases hs
  · exact fun _ _ _ => rfl
  · exact h.closes_failed hc

theorem spawnFails (h : Orderly s) {w : Nat} {ready : Option Bool}
    (hp : (s.workers w).phase = .booting) :
    Orderly ((s.modify w fun worker => { worker with phase := .gone }).spawnFailed
      ⟨w, false, ready⟩) := by
  have halive : (s.workers w).phase ≠ .gone := by simp [hp]
  obtain ⟨hr, hca⟩ := h.heard w (h.alive w halive).1
  have hc : s.commands = none := by
    rcases hca with hc | ha
    · exact absurd hp (h.port w hc).1
    · exact h.blank w ha
  have h' : Orderly (s.modify w fun worker => { worker with phase := .gone }) := by
    apply h.modify
    · exact (h.ordered w).dies fun hs => by simp [hp] at hs
    · rfl
    · rfl
    · intro hb
      cases hb
    · exact fun hg => absurd hg halive
    · intro hm
      simp [(h.ordered w).booting hp] at hm
    · exact fun _ => .inr hp
  apply h'.spawnFailed
  · exact h'.gone_of_receive hr (by simp [modify_workers])
  · intro w' hl
    have := (h'.heard w' hl).1
    exact (Option.some.inj (hr.symm.trans this)).symm
  · exact hc

theorem attemptEnds (h : Orderly s) {w : Nat} (hs : s.starting = some ⟨w, true, some true⟩) :
    Orderly { s with starting := none } := by
  have hna (w' : Nat) : ¬s.Awaits w' := by
    rintro ⟨attempt, ha, -, hr⟩
    rw [hs] at ha
    obtain rfl := Option.some.inj ha
    cases hr
  refine ⟨h.onTime, h.ordered, h.alive, ?_, h.port, h.idle, ?_, ?_, ?_, h.waiting, h.answered,
    h.once, h.quiet⟩
  · intro w' hl
    obtain ⟨hr, hc | ha⟩ := h.heard w' hl
    · exact ⟨hr, .inl hc⟩
    · exact absurd ha (hna w')
  · rintro w' ⟨attempt, ha, -⟩
    cases ha
  · intro w' hm
    exact absurd (h.ready w' hm).2.2 (hna w')
  · intro attempt ha
    cases ha

theorem attemptFails (h : Orderly s) {attempt : Attempt} (hs : s.starting = some attempt)
    (hf : attempt.ready = some false) : Orderly (s.spawnFailed attempt) := by
  obtain ⟨hr, hc⟩ := h.failed attempt hs hf
  have hl (w : Nat) : (s.workers w).listened ≠ true := by
    intro hl
    have := (h.heard w hl).1
    simp [hr] at this
  apply h.spawnFailed
  · intro w
    by_contra hp
    exact hl w (h.alive w hp).1
  · exact fun w hw => absurd hw (hl w)
  · exact hc

theorem onSpawned (h : Orderly s) {w : Nat} {ready : Option Bool}
    (hs : s.starting = some ⟨w, false, ready⟩) :
    Orderly { s with isolate := some w, starting := some ⟨w, true, ready⟩ } := by
  have hiff (w' : Nat) : s.Awaits w' ↔
      { s with isolate := some w, starting := some ⟨w, true, ready⟩ }.Awaits w' := by
    simp [Awaits, hs]
  refine ⟨h.onTime, h.ordered, h.alive, ?_, h.port, h.idle, ?_, ?_, ?_, h.waiting, h.answered,
    h.once, h.quiet⟩
  · intro w' hl
    obtain ⟨hr, hc⟩ := h.heard w' hl
    exact ⟨hr, hc.imp_right (hiff w').mp⟩
  · exact fun w' ha => h.blank w' ((hiff w').mpr ha)
  · intro w' hm
    obtain ⟨hp, hc, ha⟩ := h.ready w' hm
    exact ⟨hp, hc, (hiff w').mp ha⟩
  · intro attempt ha hf
    obtain rfl := Option.some.inj ha
    exact h.failed _ hs hf

/-- A close that was answered has heard from the only worker that had not ended. -/
theorem tearDown (h : Orderly s) (hnum : Numbered s) {c : PendingClose} (hc : c ∈ s.closes)
    (ho : c.outcome = some true) : Orderly (s.tearDown.dropClose c.id) := by
  obtain ⟨hcom, hp, -⟩ := h.answered c hc ho
  have hna (w : Nat) : ¬s.Awaits w := by
    intro ha
    have := h.blank w ha
    simp [hcom] at this
  have hgone (w : Nat) : (s.workers w).phase = .gone := by
    by_contra hw
    rcases (h.heard w (h.alive w hw).1).2 with hw' | ha
    · rw [hcom] at hw'
      obtain rfl := Option.some.inj hw'
      exact hw hp
    · exact hna w ha
  simp only [InkHoleCore.tearDown, closeReceive_eq, killIsolate_eq]
  apply of_gone
  · exact h.onTime
  · intro w
    refine ⟨(h.ordered w).congr rfl rfl rfl, hgone w, ?_, h.not_ready (hgone w)⟩
    cases hw : (s.workers w).listened with
    | false => simp [InkHoleCore.dropClose, closeReturns, InkHoleCore.failPending, hw]
    | true => simp [InkHoleCore.dropClose, closeReturns, InkHoleCore.failPending, (h.heard w hw).1]
  · rfl
  · exact hna
  · exact fun _ _ _ => rfl
  · intro d' hd'
    obtain ⟨hd', hid⟩ := List.mem_filter.mp hd'
    obtain ⟨d, hd, rfl⟩ := List.mem_map.mp hd'
    unfold PendingClose.fail at hid ⊢
    split
    · rfl
    · next hn =>
      rw [if_neg hn] at hid
      cases hdo : d.outcome with
      | none => exact absurd ⟨(hnum.closes d hd).2 hdo, hdo⟩ hn
      | some ok =>
        cases ok with
        | false => rfl
        | true => simp [h.once d hd c hc hdo ho] at hid

theorem abandoned (h : Orderly s) {c : PendingClose} (hc : c ∈ s.closes) (ho : c.outcome = none) :
    Abandoned ({ s with shutdownTimedOut := true }.tearDown.dropClose c.id) := by
  have hcom := h.waiting c hc ho
  simp only [InkHoleCore.tearDown, closeReceive_eq, killIsolate_eq]
  constructor
  · rfl
  · rfl
  · intro w
    cases hw : (s.workers w).listened with
    | false => simp [InkHoleCore.dropClose, closeReturns, InkHoleCore.failPending, hw]
    | true => simp [InkHoleCore.dropClose, closeReturns, InkHoleCore.failPending, (h.heard w hw).1]
  · intro w ha
    have := h.blank w ha
    simp [hcom] at this
  · cases hq : s.quiet with
    | false => simp [InkHoleCore.dropClose, closeReturns, InkHoleCore.failPending]
    | true =>
      have := (h.quiet hq).1
      simp [hcom] at this

theorem dropClose (h : Orderly s) (id : Nat) : Orderly (s.dropClose id) :=
  ⟨h.onTime, h.ordered, h.alive, h.heard, h.port, h.idle, h.blank, h.ready, h.failed,
    fun c hc => h.waiting c (List.mem_filter.mp hc).1,
    fun c hc => h.answered c (List.mem_filter.mp hc).1,
    fun c hc c' hc' => h.once c (List.mem_filter.mp hc).1 c' (List.mem_filter.mp hc').1, h.quiet⟩

theorem fresh : Orderly fresh := by
  apply of_gone
  · rfl
  · exact fun _ => ⟨Worker.Ordered.unborn, rfl, rfl, by simp [InkHoleCore.fresh, Worker.unborn]⟩
  · rfl
  · rintro w ⟨attempt, hs, -⟩
    cases hs
  · exact fun _ _ _ => rfl
  · intro c hc
    cases hc

/-- The message at the head of the port does what the worker that has sent it stands for. -/
theorem deliver (h : Orderly s) (hnum : Numbered s) {w : Nat} {m : Message} {rest : List Message}
    (hl : (s.workers w).listened = true) (hm : (s.workers w).messages = m :: rest) :
    Orderly ((s.modify w fun worker => { worker with messages := rest }).handleMessage w m) := by
  have hhead : m ∈ (s.workers w).messages := by simp [hm]
  have h' := h.take hm
  cases m with
  | ready =>
    obtain ⟨hp, -, ha⟩ := h.ready w hhead
    apply h'.onReady
    · simpa [modify_workers] using hp
    · exact ha
    · have hone := (h.ordered w).ready
      rw [hm, List.count_cons_self] at hone
      have : rest.count .ready = 0 := by omega
      simpa [modify_workers] using List.count_eq_zero.mp this
  | event => exact h'
  | response id => exact h'.onResponse (hnum.serves w id (.inr hhead)).2
  | error id => exact h'.onError id
  | shutdown id =>
    have hends : (Message.shutdown id).ends = true := rfl
    apply h'.onShutdown (w := w)
    · exact (hnum.ends w id (.inr hhead)).2
    · simpa [modify_workers] using (h.ordered w).ended _ hhead hends
    · have hone := (h.ordered w).last
      rw [hm, List.countP_cons_of_pos hends] at hone
      have : rest.countP Message.ends = 0 := by omega
      simpa [modify_workers] using this
    · intro c hc hw ho
      have hnone := (h.answered c hc ho).2.2
      rw [hw, List.countP_eq_zero] at hnone
      exact hnone _ hhead hends
  | fatal =>
    apply h'.onFatal
    · simpa [modify_workers] using hl
    · simpa [modify_workers] using (h.ordered w).fatal hhead
    · rcases (h.heard w hl).2 with hc | ha
      · exact absurd hhead (h.port w hc).2
      · exact h.blank w ha

end Orderly

namespace Abandoned

theorem of_workers (h : Abandoned s) {s' : InkHoleCore}
    (ht : s'.shutdownTimedOut = s.shutdownTimedOut) (hc : s'.commands = s.commands)
    (hl : ∀ w, (s'.workers w).listened = true → (s.workers w).listened = true)
    (ha : ∀ w, s'.Awaits w → s.Awaits w) (hq : s'.quiet = s.quiet) : Abandoned s' := by
  constructor
  · exact ht.trans h.late
  · exact hc.trans h.commands
  · intro w
    by_contra hw
    have := hl w (by simpa using hw)
    simp [h.unheard w] at this
  · exact fun w hw => h.settled w (ha w hw)
  · exact hq.trans h.quiet

theorem modify (h : Abandoned s) {w : Nat} {f : Worker → Worker}
    (hf : (f (s.workers w)).listened = (s.workers w).listened) : Abandoned (s.modify w f) := by
  apply h.of_workers
  · rfl
  · rfl
  · intro w' hl
    rw [modify_workers] at hl
    split at hl
    · next heq => simpa [heq, hf] using hl
    · exact hl
  · exact fun _ ha => ha
  · rfl

theorem tearDown (h : Abandoned s) : Abandoned s.tearDown := by
  simp only [InkHoleCore.tearDown, closeReceive_eq, killIsolate_eq]
  apply h.of_workers
  · rfl
  · exact h.commands.symm
  · intro w hl
    exact (Bool.and_eq_true_iff.mp hl).1
  · exact fun _ ha => ha
  · simp [closeReturns, failPending, h.late]

theorem spawnFailed (h : Abandoned s) (attempt : Attempt) : Abandoned (s.spawnFailed attempt) := by
  have h' : Abandoned (s.modify attempt.worker fun worker => { worker with listened := false }) := by
    apply h.of_workers
    · rfl
    · rfl
    · intro w hl
      rw [modify_workers] at hl
      split at hl
      · cases hl
      · exact hl
    · exact fun _ ha => ha
    · rfl
  simp only [InkHoleCore.spawnFailed, killIsolate_eq]
  apply h'.of_workers
  · rfl
  · exact h.commands.symm
  · exact fun _ hl => hl
  · rintro w ⟨attempt', hs, -⟩
    cases hs
  · rfl

end Abandoned

/-- The steps that leave no service behind: the close of a shutdown succeeds, no poll fails, no
close comes while a start waits for its worker, and no start comes after a close has timed out. -/
def regular (s : InkHoleCore) : Event → Bool
  | .start => !(s.spawns && s.shutdownTimedOut)
  | .call => !(s.spawns && s.shutdownTimedOut)
  | .close => s.starting.all fun attempt => attempt.ready.isSome
  | .poll _ ok => ok
  | .shutdown w runtimeThread closing _ =>
    (s.workers w).service.all fun service => (closeService runtimeThread closing service).1 = .ok
  | _ => true

theorem closeOutcome_mem {id : Nat} {outcome : Option Bool} (h : s.closeOutcome id = some outcome) :
    ∃ c ∈ s.closes, c.id = id ∧ c.outcome = outcome := by
  obtain ⟨c, hc, ho⟩ := Option.map_eq_some_iff.mp h
  have hid := List.find?_some hc
  exact ⟨c, List.mem_of_find?_eq_some hc, by simpa using hid, ho⟩

theorem Orderly.not_awaits (hr : s.regular .close = true) (w : Nat) : ¬s.Awaits w := by
  rintro ⟨attempt, hs, -, hready⟩
  simp [regular, Option.mem_def.mp hs, hready] at hr

theorem Orderly.step (h : Orderly s) (hnum : Numbered s) {s' : InkHoleCore} {e : Event}
    (hr : s.regular e = true) (hs : s.step e = some s') : Orderly s' ∨ Abandoned s' := by
  cases e with
  | start =>
    obtain rfl := Option.some.inj hs
    exact .inl h.start
  | call =>
    obtain rfl := Option.some.inj hs
    have h' := h.start
    exact .inl ⟨h'.onTime, h'.ordered, h'.alive, h'.heard, h'.port, h'.idle, h'.blank, h'.ready,
      h'.failed, h'.waiting, h'.answered, h'.once, h'.quiet⟩
  | send =>
    obtain ⟨_, rfl⟩ := Option.ite_some_none_eq_some.mp hs
    exact .inl h.send
  | refuse =>
    obtain ⟨_, rfl⟩ := Option.ite_some_none_eq_some.mp hs
    exact .inl ⟨h.onTime, h.ordered, h.alive, h.heard, h.port, h.idle, h.blank, h.ready, h.failed,
      h.waiting, h.answered, h.once, h.quiet⟩
  | close =>
    obtain rfl := Option.some.inj hs
    exact .inl (h.close (not_awaits hr))
  | timesOut id =>
    obtain ⟨ho, rfl⟩ := Option.ite_some_none_eq_some.mp hs
    obtain ⟨c, hc, rfl, hco⟩ := closeOutcome_mem ho
    exact .inr (h.abandoned hc hco)
  | closeEnds id =>
    simp only [InkHoleCore.step] at hs
    split at hs
    · next ho =>
      obtain rfl := Option.some.inj hs
      obtain ⟨c, hc, rfl, hco⟩ := closeOutcome_mem ho
      exact .inl (h.tearDown hnum hc hco)
    · obtain rfl := Option.some.inj hs
      exact .inl (h.dropClose id)
    · cases hs
  | release =>
    obtain rfl := Option.some.inj hs
    exact .inl ⟨h.onTime, h.ordered, h.alive, h.heard, h.port, h.idle, h.blank, h.ready, h.failed,
      h.waiting, h.answered, h.once, h.quiet⟩
  | spawned =>
    obtain ⟨w, ready, hst, rfl⟩ := onSpawned_cases hs
    exact .inl (h.onSpawned hst)
  | spawnFails =>
    obtain ⟨w, ready, _, hp, rfl⟩ := onSpawnFails_cases hs
    exact .inl (h.spawnFails hp)
  | attemptEnds =>
    obtain ⟨w, ⟨hst, rfl⟩ | ⟨hst, rfl⟩⟩ := onAttemptEnds_cases hs
    · exact .inl (h.attemptEnds hst)
    · exact .inl (h.attemptFails hst rfl)
  | deliver w =>
    obtain ⟨m, rest, hl, hm, rfl⟩ := onDeliver_cases hs
    exact .inl (h.deliver hnum hl hm)
  | boot w ok =>
    obtain ⟨hp, rfl⟩ := Option.ite_some_none_eq_some.mp hs
    exact .inl (h.boot hp ok)
  | poll w ok =>
    obtain ⟨⟨hp, _⟩, rfl⟩ := Option.ite_some_none_eq_some.mp hs
    obtain rfl : ok = true := hr
    exact .inl (h.post hp (by simp) (by simp) rfl (s.workers w).commands
      fun hm => (h.ready w hm).2.1)
  | answer w ok =>
    obtain ⟨id, rest, hp, hc, rfl⟩ := onAnswer_cases hs
    have hrest : .ready ∈ (s.workers w).messages → rest = [] := by
      intro hm
      have := (h.ready w hm).2.1
      simp [hc] at this
    cases ok
    · exact .inl (h.post hp (by simp) (by simp) rfl rest hrest)
    · exact .inl (h.post hp (by simp) (by simp) rfl rest hrest)
  | shutdown w r c d =>
    obtain ⟨id, rest, hp, hc, rfl⟩ := onShutdown_cases hs
    refine .inl (h.shutdown hp hc fun service hm => ?_)
    simpa [regular, Option.mem_def.mp hm] using hr
  | dies w =>
    obtain ⟨⟨hk, hp⟩, rfl⟩ := Option.ite_some_none_eq_some.mp hs
    have := (h.alive w hp).2
    simp [hk] at this

theorem Abandoned.step (h : Abandoned s) {s' : InkHoleCore} {e : Event} (hr : s.regular e = true)
    (hs : s.step e = some s') : Abandoned s' := by
  have hstart (hr : (!(s.spawns && s.shutdownTimedOut)) = true) : s.start = s := by
    rw [h.late, Bool.and_true, Bool.not_eq_true'] at hr
    rw [InkHoleCore.start, if_neg (by simp [hr])]
  cases e with
  | start =>
    obtain rfl := Option.some.inj hs
    rw [hstart hr]
    exact ⟨h.late, h.commands, h.unheard, h.settled, rfl⟩
  | call =>
    obtain rfl := Option.some.inj hs
    rw [hstart hr]
    exact ⟨h.late, h.commands, h.unheard, h.settled, rfl⟩
  | send =>
    obtain ⟨_, rfl⟩ := Option.ite_some_none_eq_some.mp hs
    unfold InkHoleCore.send
    split
    · next hc => simp [h.commands] at hc
    · exact ⟨h.late, h.commands, h.unheard, h.settled, h.quiet⟩
  | refuse =>
    obtain ⟨_, rfl⟩ := Option.ite_some_none_eq_some.mp hs
    exact ⟨h.late, h.commands, h.unheard, h.settled, h.quiet⟩
  | close =>
    obtain rfl := Option.some.inj hs
    unfold InkHoleCore.close
    split
    · exact ⟨h.late, h.commands, h.unheard, h.settled, by simp [closeReturns, h.quiet, h.late]⟩
    · next hc => simp [h.commands] at hc
  | timesOut id =>
    obtain ⟨_, rfl⟩ := Option.ite_some_none_eq_some.mp hs
    have h' : Abandoned { s with shutdownTimedOut := true } :=
      ⟨rfl, h.commands, h.unheard, h.settled, h.quiet⟩
    have ht := h'.tearDown
    exact ⟨ht.late, ht.commands, ht.unheard, ht.settled, ht.quiet⟩
  | closeEnds id =>
    simp only [InkHoleCore.step] at hs
    have ht := h.tearDown
    split at hs
    · obtain rfl := Option.some.inj hs
      exact ⟨ht.late, ht.commands, ht.unheard, ht.settled, ht.quiet⟩
    · obtain rfl := Option.some.inj hs
      exact ⟨h.late, h.commands, h.unheard, h.settled, h.quiet⟩
    · cases hs
  | release =>
    obtain rfl := Option.some.inj hs
    exact ⟨h.late, h.commands, h.unheard, h.settled, h.quiet⟩
  | spawned =>
    obtain ⟨w, ready, hst, rfl⟩ := onSpawned_cases hs
    exact h.of_workers rfl rfl (fun _ hl => hl) (fun w' ha => by simpa [Awaits, hst] using ha) rfl
  | spawnFails =>
    obtain ⟨w, ready, _, _, rfl⟩ := onSpawnFails_cases hs
    have h' : Abandoned (s.modify w fun worker => { worker with phase := .gone }) := h.modify rfl
    exact h'.spawnFailed _
  | attemptEnds =>
    obtain ⟨w, ⟨_, rfl⟩ | ⟨_, rfl⟩⟩ := onAttemptEnds_cases hs
    · refine ⟨h.late, h.commands, h.unheard, ?_, h.quiet⟩
      rintro w' ⟨attempt, ha, -⟩
      cases ha
    · exact h.spawnFailed _
  | deliver w =>
    obtain ⟨m, rest, hl, _, rfl⟩ := onDeliver_cases hs
    simp [h.unheard w] at hl
  | boot w ok =>
    obtain ⟨_, rfl⟩ := Option.ite_some_none_eq_some.mp hs
    cases ok <;> exact h.modify rfl
  | poll w ok =>
    obtain ⟨_, rfl⟩ := Option.ite_some_none_eq_some.mp hs
    cases ok <;> exact h.modify rfl
  | answer w ok =>
    obtain ⟨id, rest, _, _, rfl⟩ := onAnswer_cases hs
    exact h.modify rfl
  | shutdown w r c d =>
    obtain ⟨id, rest, _, _, rfl⟩ := onShutdown_cases hs
    exact h.modify rfl
  | dies w =>
    obtain ⟨_, rfl⟩ := Option.ite_some_none_eq_some.mp hs
    exact h.modify rfl

/-- In every run whose steps are regular, once a close has returned without a timeout and nothing
starts the core again, every service that was created is destroyed. -/
theorem close_destroys (s : InkHoleCore) (h : application.Reaches regular s)
    (hq : s.quiet = true) (w : Nat) : (s.workers w).Destroyed := by
  have hinv : Numbered s ∧ (Orderly s ∨ Abandoned s) := by
    refine h.invariant (P := fun s => Numbered s ∧ (Orderly s ∨ Abandoned s))
      ⟨Numbered.fresh, .inl Orderly.fresh⟩ ?_
    rintro s e s' ⟨hnum, h⟩ hr hs
    refine ⟨hnum.step hs, ?_⟩
    rcases h with h | h
    · exact h.step hnum hr hs
    · exact .inr (h.step hr hs)
  rcases hinv.2 with h | h
  · intro service hm
    by_contra hrel
    have hp := (h.ordered w).owned service hm (by simpa using hrel)
    have hg := (h.quiet hq).2 w
    simp [hp] at hg
  · simp [h.quiet] at hq

/-- The application starts the core, sends a request and closes the core, whose worker closes and
destroys the service. -/
def usualRun : List Event := [.start, .boot 0 true, .spawned, .deliver 0, .attemptEnds, .call, .send,
  .answer 0 true, .deliver 0, .close, .shutdown 0 false .done .done, .deliver 0, .closeEnds 2]

theorem close_destroys_usualRun : ∃ s : InkHoleCore, s.quiet = true ∧
    (s.workers 0).service = some ⟨true, true⟩ ∧ (s.workers 0).Destroyed := by
  have hrun : ((application.runFrom regular application.start usualRun).map fun s =>
      (s.quiet, (s.workers 0).service)) = some (true, some ⟨true, true⟩) := rfl
  obtain ⟨s, hs, he⟩ := Option.map_eq_some_iff.mp hrun
  obtain ⟨hq, hservice⟩ := Prod.mk.inj he
  exact ⟨s, hq, hservice, close_destroys s ⟨usualRun, hs⟩ hq 0⟩

/-- The same without the request, but the native close reports an error: the worker skips destroy
and still acknowledges the shutdown. -/
def failingRun : List Event := [.start, .boot 0 true, .spawned, .deliver 0, .attemptEnds, .close,
  .shutdown 0 false .timedOut .done, .deliver 0, .closeEnds 1]

theorem close_leaks : ¬ ∀ s, application.Reaches Automaton.free s → s.quiet = true →
    ∀ w, (s.workers w).Destroyed := by
  intro h
  have hrun : ((application.runFrom Automaton.free application.start failingRun).map fun s =>
      (s.quiet, (s.workers 0).service)) = some (true, some ⟨true, false⟩) := rfl
  obtain ⟨s, hs, he⟩ := Option.map_eq_some_iff.mp hrun
  obtain ⟨hq, hservice⟩ := Prod.mk.inj he
  have hd := h s ⟨failingRun, hs⟩ hq 0 ⟨true, false⟩ hservice
  cases hd

end InkHoleCore

end InkHole
