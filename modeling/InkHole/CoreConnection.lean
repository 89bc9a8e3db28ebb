import InkHole.CoreShutdown
import Mathlib.Data.List.Nodup

/-! The worker that the main isolate is connected to, in any run. While requests are pending there is one,
and when it has ended, either something that says so is on its way or a close has been answered. -/

namespace InkHole

namespace InkHoleCore

/-- A message after which a worker is no longer asked anything. -/
def Message.last : Message → Bool
  | .shutdown _ => true
  | .fatal => true
  | _ => false

/-- A message that no command has caused. -/
def Message.unasked : Message → Bool
  | .ready => true
  | .event => true
  | .fatal => true
  | _ => false

/-- Nobody knows the port of a worker before it has been heard. -/
def Worker.Unknown (worker : Worker) : Prop := worker.phase = .booting ∨ .ready ∈ worker.messages

structure Worker.Sound (worker : Worker) : Prop where
  killed : worker.killed = true → worker.listened = false
  silent : worker.phase = .booting → worker.messages = []
  unknown : worker.Unknown → worker.commands = [] ∧ ∀ m ∈ worker.messages, m.unasked = true
  ready : worker.messages.count .ready ≤ 1
  serving : worker.listened = true → .ready ∈ worker.messages → worker.phase = .serving

namespace Worker.Sound

variable {worker : Worker}

theorem unborn : Worker.unborn.Sound := by
  constructor <;> simp [Worker.unborn, Unknown]

theorem spawned : Worker.spawned.Sound := by
  constructor <;> simp [Worker.spawned, Unknown]

theorem boot (h : worker.Sound) (hp : worker.phase = .booting) (ok : Bool) : (worker.boot ok).Sound := by
  have hm := h.silent hp
  have hc := (h.unknown (.inl hp)).1
  cases ok <;> refine ⟨h.killed, ?_, ?_, ?_, ?_⟩ <;>
    simp [Worker.boot, Worker.post, Unknown, Message.unasked, hm, hc]

theorem post (h : worker.Sound) (hp : worker.phase ≠ .booting) {m : Message} (hr : m ≠ .ready)
    (hm : .ready ∈ worker.messages → m.unasked = true) : (worker.post m).Sound := by
  have hready : Message.ready ∈ (worker.post m).messages → .ready ∈ worker.messages := by
    intro hmem
    rcases List.mem_append.mp hmem with hmem | hmem
    · exact hmem
    · exact absurd (List.mem_singleton.mp hmem).symm hr
  refine ⟨h.killed, fun hb => absurd hb hp, fun hu => ?_, ?_, fun hl hmem => h.serving hl (hready hmem)⟩
  · have hold : .ready ∈ worker.messages := hready (hu.resolve_left hp)
    obtain ⟨hc, hall⟩ := h.unknown (.inr hold)
    refine ⟨hc, fun m' hm' => ?_⟩
    rcases List.mem_append.mp hm' with hm' | hm'
    · exact hall m' hm'
    · rw [List.mem_singleton.mp hm']
      exact hm hold
  · rw [Worker.post, List.count_append, List.count_singleton, if_neg (by simpa using hr)]
    exact h.ready

/-- A worker whose port is not known yet has nothing to answer. -/
theorem known (h : worker.Sound) {command : Command} {rest : List Command}
    (hc : worker.commands = command :: rest) : ¬ worker.Unknown := by
  intro hu
  have hnone := (h.unknown hu).1
  rw [hc] at hnone
  cases hnone

theorem commands (h : worker.Sound) (hu : ¬ worker.Unknown) (commands : List Command) :
    { worker with commands }.Sound :=
  ⟨h.killed, h.silent, fun hu' => absurd hu' hu, h.ready, h.serving⟩

theorem take (h : worker.Sound) {m : Message} {rest : List Message} (hm : worker.messages = m :: rest) :
    { worker with messages := rest }.Sound := by
  have hsub : ∀ m' ∈ rest, m' ∈ worker.messages := fun m' hm' => hm ▸ List.mem_cons_of_mem m hm'
  refine ⟨h.killed, fun hb => ?_, fun hu => ?_, ?_, fun hl hmem => h.serving hl (hsub _ hmem)⟩
  · have hnone := h.silent hb
    rw [hm] at hnone
    cases hnone
  · obtain ⟨hc, hall⟩ := h.unknown (hu.imp_right (hsub _))
    exact ⟨hc, fun m' hm' => hall m' (hsub m' hm')⟩
  · have hcount := h.ready
    rw [hm] at hcount
    exact Nat.le_trans (List.count_le_count_cons ..) hcount

/-- A port that is closed, and perhaps a worker that is killed. -/
theorem unheard (h : worker.Sound) (killed : Bool) : { worker with listened := false, killed }.Sound :=
  ⟨fun _ => rfl, h.silent, h.unknown, h.ready, fun hl => by cases hl⟩

theorem gone (h : worker.Sound) (hr : worker.listened = true → .ready ∉ worker.messages) :
    { worker with phase := .gone }.Sound := by
  refine ⟨h.killed, (by rintro ⟨⟩), fun hu => ?_, h.ready, fun hl hm => absurd hm (hr hl)⟩
  exact h.unknown (.inr (hu.resolve_left (by rintro ⟨⟩)))

end Worker.Sound

variable {s s' : InkHoleCore} {w id : Nat}

/-- The worker of a close that waits has answered it. -/
def Answered (s : InkHoleCore) : Prop := ∃ c ∈ s.closes, c.outcome = some true

def Waiting (s : InkHoleCore) (id : Nat) : Prop := ∃ c ∈ s.closes, c.id = id ∧ c.outcome = none

structure Connected (s : InkHoleCore) : Prop where
  sound : ∀ w, (s.workers w).Sound
  heard : ∀ w, (s.workers w).listened = true → s.receive = some w
  received : s.receive ≠ none → s.commands ≠ none ∨ ∃ attempt ∈ s.starting, attempt.ready = none
  attempted : ∀ attempt ∈ s.starting, ∀ w, s.receive = some w → w = attempt.worker
  failed : ∀ attempt ∈ s.starting, attempt.ready = some false → s.receive = none ∧ s.commands = none
  port : ∀ w, s.commands = some w →
    s.receive = some w ∧ (s.workers w).listened = true ∧ ¬ (s.workers w).Unknown
  asked : s.pending ≠ [] → s.commands ≠ none
  /-- A worker that has ended has said so, or a close knows it. -/
  ended : ∀ w, s.commands = some w → (s.workers w).phase = .gone →
    (∃ m ∈ (s.workers w).messages, m.last = true) ∨ s.Answered
  /-- What a worker will say about a shutdown, a close waits for. -/
  awaited : ∀ w id, s.commands = some w → (s.workers w).Ends id → s.Waiting id ∨ s.Answered

namespace Connected

/-- When no worker has ended in silence, nobody waits for an answer that does not come. -/
theorem quiescent (h : Connected s) (hgone : ∀ w, (s.workers w).phase = .gone)
    (hmessages : ∀ w, (s.workers w).listened = true → (s.workers w).messages = []) (hcloses : s.closes = []) :
    s.commands = none ∧ s.pending = [] := by
  have hcommands : s.commands = none := by
    cases hc : s.commands with
    | none => rfl
    | some w =>
      have hempty := hmessages w (h.port w hc).2.1
      rcases h.ended w hc (hgone w) with ⟨m, hm, -⟩ | ⟨c, hm, -⟩
      · rw [hempty] at hm
        cases hm
      · rw [hcloses] at hm
        cases hm
  refine ⟨hcommands, ?_⟩
  by_contra hpending
  exact h.asked hpending hcommands

theorem congr (h : Connected s) (hw : s'.workers = s.workers) (hr : s'.receive = s.receive)
    (hc : s'.commands = s.commands) (hs : s'.starting = s.starting) (hp : s'.pending = s.pending)
    (hcl : s'.closes = s.closes) : Connected s' := by
  constructor
  · rw [hw]
    exact h.sound
  · rw [hw, hr]
    exact h.heard
  · rw [hr, hc, hs]
    exact h.received
  · rw [hs, hr]
    exact h.attempted
  · rw [hs, hr, hc]
    exact h.failed
  · rw [hw, hr, hc]
    exact h.port
  · rw [hp, hc]
    exact h.asked
  · rw [hw, hc, Answered, hcl]
    exact h.ended
  · unfold Waiting Answered
    rw [hw, hc, hcl]
    exact h.awaited

/-- The main isolate hears nobody. -/
theorem of_disconnected (hw : ∀ w, (s.workers w).Sound ∧ (s.workers w).listened = false) (hr : s.receive = none)
    (hc : s.commands = none) (hp : s.pending = []) : Connected s := by
  have hport (w : Nat) (hw' : s.commands = some w) : False := by
    rw [hc] at hw'
    cases hw'
  have hreceive (w : Nat) (hw' : s.receive = some w) : False := by
    rw [hr] at hw'
    cases hw'
  refine ⟨fun w => (hw w).1, fun w hl => ?_, fun hne => absurd hr hne, fun _ _ w hw' => (hreceive w hw').elim,
    fun _ _ _ => ⟨hr, hc⟩, fun w hw' => (hport w hw').elim, fun hne => absurd hp hne,
    fun w hw' => (hport w hw').elim, fun w _ hw' => (hport w hw').elim⟩
  rw [(hw w).2] at hl
  cases hl

theorem fresh : Connected fresh :=
  of_disconnected (fun _ => ⟨Worker.Sound.unborn, rfl⟩) rfl rfl rfl

/-- A step of one worker. -/
theorem modify (h : Connected s) {f : Worker → Worker} (hs : (f (s.workers w)).Sound)
    (hl : (f (s.workers w)).listened = (s.workers w).listened)
    (hport : s.commands = some w → ¬ (f (s.workers w)).Unknown)
    (hend : s.commands = some w → (f (s.workers w)).phase = .gone →
      (∃ m ∈ (f (s.workers w)).messages, m.last = true) ∨ s.Answered)
    (hends : ∀ id, s.commands = some w → (f (s.workers w)).Ends id → (s.workers w).Ends id ∨ s.Waiting id) :
    Connected (s.modify w f) := by
  constructor
  · intro w'
    rw [modify_workers]
    split
    · exact hs
    · exact h.sound w'
  · intro w' hl'
    rw [modify_workers] at hl'
    split at hl'
    · next heq =>
      rw [hl, ← heq] at hl'
      exact h.heard w' hl'
    · exact h.heard w' hl'
  · exact h.received
  · exact h.attempted
  · exact h.failed
  · intro w' hc
    obtain ⟨hr, hl', hu⟩ := h.port w' hc
    refine ⟨hr, ?_⟩
    rw [modify_workers]
    split
    · next heq =>
      subst heq
      exact ⟨hl.trans hl', hport hc⟩
    · exact ⟨hl', hu⟩
  · exact h.asked
  · intro w' hc hp
    rw [modify_workers] at hp ⊢
    split at hp
    · next heq =>
      subst heq
      rw [if_pos rfl]
      exact hend hc hp
    · next hne =>
      rw [if_neg hne]
      exact h.ended w' hc hp
  · intro w' id hc he
    rw [modify_workers] at he
    split at he
    · next heq =>
      subst heq
      exact (hends id hc he).elim (h.awaited w' id hc) .inl
    · exact h.awaited w' id hc he

theorem spawn (h : Connected s) (hs : s.spawns = true) : Connected s.spawn := by
  simp only [spawns, Bool.and_eq_true, Option.isNone_iff_eq_none] at hs
  obtain ⟨⟨-, hc⟩, hst⟩ := hs
  have hreceive : s.receive = none := by
    by_contra hne
    rcases h.received hne with hne | ⟨attempt, ha, -⟩
    · exact hne hc
    · rw [hst] at ha
      cases ha
  have hunheard (w : Nat) : (s.workers w).listened = false := by
    by_contra hl
    have hr := h.heard w (by simpa using hl)
    rw [hreceive] at hr
    cases hr
  have hworkers (w : Nat) : s.spawn.workers w = if w = s.spawned then Worker.spawned else s.workers w := by
    simp only [InkHoleCore.spawn, Function.update_apply]
  have hport (w : Nat) (hw : s.spawn.commands = some w) : False := by
    change s.commands = some w at hw
    rw [hc] at hw
    cases hw
  constructor
  · intro w
    rw [hworkers]
    split
    · exact Worker.Sound.spawned
    · exact h.sound w
  · intro w hl
    rw [hworkers] at hl
    split at hl
    · next heq =>
      subst heq
      rfl
    · rw [hunheard w] at hl
      cases hl
  · exact fun _ => .inr ⟨_, rfl, rfl⟩
  · intro attempt ha w hw
    obtain rfl := Option.some.inj ha
    exact (Option.some.inj hw).symm
  · intro attempt ha hr
    obtain rfl := Option.some.inj ha
    cases hr
  · exact fun w hw => (hport w hw).elim
  · exact h.asked
  · exact fun w hw => (hport w hw).elim
  · exact fun w _ hw => (hport w hw).elim

theorem start (h : Connected s) : Connected s.start := by
  rw [InkHoleCore.start]
  split
  · next hs => exact h.spawn hs
  · exact h

/-- What becomes of the requests while the workers go on as before. -/
theorem pend (h : Connected s) {pending : List Nat} {closes : List PendingClose}
    (hasked : pending ≠ [] → s.commands ≠ none) (hanswered : s.Answered → ∃ c ∈ closes, c.outcome = some true)
    (hwaiting : ∀ id, s.Waiting id →
      (∃ c ∈ closes, c.id = id ∧ c.outcome = none) ∨ ∃ c ∈ closes, c.outcome = some true) :
    Connected { s with pending, closes } :=
  ⟨h.sound, h.heard, h.received, h.attempted, h.failed, h.port, hasked,
    fun w hc hp => (h.ended w hc hp).imp_right hanswered,
    fun w id hc he => (h.awaited w id hc he).elim (hwaiting id) fun ha => .inr (hanswered ha)⟩

theorem command (h : Connected s) (hc : s.commands = some w) (command : Command)
    (hends : ∀ id, command = .shutdown id → s.Waiting id) :
    Connected (s.modify w fun worker => { worker with commands := worker.commands ++ [command] }) := by
  refine h.modify ((h.sound w).commands (h.port w hc).2.2 _) rfl (fun _ => (h.port w hc).2.2) (fun _ => h.ended w hc)
    fun id _ he => ?_
  rcases he with he | he
  · rcases List.mem_append.mp he with he | he
    · exact .inl (.inl he)
    · exact .inr (hends id (List.mem_singleton.mp he).symm)
  · exact .inl (.inr he)

theorem send (h : Connected s) : Connected s.send := by
  rw [InkHoleCore.send]
  split
  · next w hc =>
    have hpend : Connected { s with pending := s.nextRequest :: s.pending } :=
      h.pend (fun _ => by rw [hc]; rintro ⟨⟩) id fun _ => .inl
    have hcommand := hpend.command (w := w) hc (.call s.nextRequest) (by rintro id ⟨⟩)
    exact hcommand.congr rfl rfl rfl rfl rfl rfl
  · exact h.congr rfl rfl rfl rfl rfl rfl

theorem close (h : Connected s) : Connected s.close := by
  rw [InkHoleCore.close]
  split
  · exact h.congr rfl rfl rfl rfl rfl rfl
  · next w hc =>
    have hpend : Connected { s with
        pending := s.nextRequest :: s.pending, closes := ⟨s.nextRequest, w, none⟩ :: s.closes } := by
      refine h.pend (fun _ => by rw [hc]; rintro ⟨⟩) ?_ ?_
      · rintro ⟨c, hm, ho⟩
        exact ⟨c, List.mem_cons_of_mem _ hm, ho⟩
      · rintro id ⟨c, hm, hid⟩
        exact .inl ⟨c, List.mem_cons_of_mem _ hm, hid⟩
    have hcommand := hpend.command (w := w) hc (.shutdown s.nextRequest) fun id he => by
      cases he
      exact ⟨_, List.mem_cons_self, rfl, rfl⟩
    exact hcommand.congr rfl rfl rfl rfl rfl rfl

theorem complete (h : Connected s) (ok : Bool) (hcall : ok = false → ∀ c ∈ s.closes, c.id ≠ id) :
    Connected (s.complete id ok) := by
  rw [InkHoleCore.complete]
  split
  · refine h.pend (fun hne => h.asked ?_) ?_ ?_
    · rintro hnil
      rw [hnil] at hne
      exact hne rfl
    · rintro ⟨c, hm, ho⟩
      refine ⟨_, List.mem_map_of_mem hm, ?_⟩
      rw [PendingClose.settle, if_neg (by rw [ho]; rintro ⟨-, ⟨⟩⟩)]
      exact ho
    · rintro id' ⟨c, hm, hid, ho⟩
      rcases settle_cases id ok c with he | ⟨heq, -, he⟩
      · exact .inl ⟨_, List.mem_map_of_mem hm, by rw [he]; exact ⟨hid, ho⟩⟩
      · cases ok with
        | true => exact .inr ⟨_, List.mem_map_of_mem hm, by rw [he]⟩
        | false => exact absurd heq (hcall rfl c hm)
  · exact h

/-- The answer to a shutdown is what a close waits for. -/
theorem answered_complete (hnum : Numbered s) (hw : s.Waiting id ∨ s.Answered) : (s.complete id true).Answered := by
  have hkeep {c : PendingClose} (ho : c.outcome = some true) : (PendingClose.settle id true c).outcome = some true := by
    rw [PendingClose.settle, if_neg (by rw [ho]; rintro ⟨-, ⟨⟩⟩)]
    exact ho
  rw [InkHoleCore.complete]
  rcases hw with ⟨c, hm, rfl, ho⟩ | ⟨c, hm, ho⟩
  · rw [if_pos ((hnum.closes c hm).2 ho)]
    exact ⟨_, List.mem_map_of_mem hm, by rw [PendingClose.settle, if_pos ⟨rfl, ho⟩]⟩
  · split
    · exact ⟨_, List.mem_map_of_mem hm, hkeep ho⟩
    · exact ⟨c, hm, ho⟩

theorem complete_modify (f : Worker → Worker) (ok : Bool) :
    (s.modify w f).complete id ok = (s.complete id ok).modify w f := by
  unfold InkHoleCore.complete
  change (if id ∈ s.pending then _ else _) = _
  split <;> rfl

theorem complete_eq (s : InkHoleCore) (id : Nat) (ok : Bool) : ∃ pending closes,
    s.complete id ok = { s with pending, closes } := by
  unfold InkHoleCore.complete
  split
  · exact ⟨_, _, rfl⟩
  · exact ⟨s.pending, s.closes, rfl⟩

/-- The oldest message is taken from the port. -/
theorem take (h : Connected s) {m : Message} {rest : List Message} (hm : (s.workers w).messages = m :: rest)
    (hlast : s.commands = some w → m.last = true → s.Answered) :
    Connected (s.modify w fun worker => { worker with messages := rest }) := by
  have hsub : ∀ m' ∈ rest, m' ∈ (s.workers w).messages := fun m' hm' => hm ▸ List.mem_cons_of_mem m hm'
  refine h.modify ((h.sound w).take hm) rfl (fun hc hu => ?_) (fun hc hp => ?_) fun id _ he => ?_
  · exact (h.port w hc).2.2 (hu.imp_right (hsub _))
  · rcases h.ended w hc hp with ⟨m', hm', hl⟩ | ha
    · rw [hm] at hm'
      rcases List.mem_cons.mp hm' with rfl | hm'
      · exact .inr (hlast hc hl)
      · exact .inl ⟨m', hm', hl⟩
    · exact .inr ha
  · exact .inl (he.imp_right (hsub _))

/-- After both ports are closed nobody is heard. -/
theorem unheard (hs : ∀ w, (s.workers w).Sound) (hh : ∀ w, (s.workers w).listened = true → s.receive = some w)
    (w : Nat) : (s.closeReceive.killIsolate.workers w).Sound ∧
    (s.closeReceive.killIsolate.workers w).listened = false := by
  have hl : ((s.workers w).listened && decide (s.receive ≠ some w)) = false := by
    cases hl : (s.workers w).listened with
    | false => rfl
    | true => simp [hh w hl]
  rw [closeReceive_eq, killIsolate_eq]
  dsimp only
  rw [hl]
  exact ⟨(hs w).unheard _, rfl⟩

theorem tearDown (h : Connected s) (id : Nat) : Connected (s.tearDown.dropClose id) :=
  of_disconnected (unheard h.sound h.heard) rfl rfl rfl

theorem fatal (hs : ∀ w, (s.workers w).Sound) (hh : ∀ w, (s.workers w).listened = true → s.receive = some w) :
    Connected (s.handleMessage w .fatal) := by
  refine of_disconnected (unheard (s := (s.readyWith false).failPending) hs hh) rfl rfl ?_
  change ((s.readyWith false).failPending.closeReceive.killIsolate).pending = []
  rw [closeReceive_eq, killIsolate_eq]
  rfl

theorem spawnFailed (h : Connected s) {attempt : Attempt} (ha : attempt ∈ s.starting) (hc : s.commands = none) :
    Connected (s.spawnFailed attempt) := by
  have hpending : s.pending = [] := by
    by_contra hne
    exact h.asked hne hc
  refine of_disconnected (fun w => ?_) rfl rfl ?_
  · have hunheard : (s.workers w).Sound ∧ (w ≠ attempt.worker → (s.workers w).listened = false) := by
      refine ⟨h.sound w, fun hne => ?_⟩
      by_contra hl
      exact hne (h.attempted attempt ha w (h.heard w (by simpa using hl)))
    let closed := s.modify attempt.worker fun worker => { worker with listened := false }
    change (closed.killIsolate.workers w).Sound ∧ (closed.killIsolate.workers w).listened = false
    have hworker : closed.workers w = { s.workers w with listened := false } := by
      rw [modify_workers]
      split
      · next heq => rw [heq]
      · next hne => rw [← hunheard.2 hne]
    rw [killIsolate_eq]
    dsimp only
    rw [hworker]
    exact ⟨hunheard.1.unheard _, rfl⟩
  · change ((s.modify attempt.worker _).killIsolate).pending = []
    rw [killIsolate_eq]
    exact hpending

theorem ready (h : Connected s) (hl : (s.workers w).listened = true) {rest : List Message}
    (hm : (s.workers w).messages = .ready :: rest) :
    Connected ((s.modify w fun worker => { worker with messages := rest }).handleMessage w .ready) := by
  have hhead : Message.ready ∈ (s.workers w).messages := hm ▸ List.mem_cons_self
  have hsound := h.sound w
  obtain ⟨hcommands, hunasked⟩ := hsound.unknown (.inr hhead)
  have hserving := hsound.serving hl hhead
  have hreceive := h.heard w hl
  have hrest : Message.ready ∉ rest := by
    have hcount := hsound.ready
    rw [hm, List.count_cons_self] at hcount
    exact List.count_eq_zero.mp (by omega)
  have htake := h.take hm fun _ hlast => by cases hlast
  have hworker : (s.modify w fun worker => { worker with messages := rest }).workers w =
      { s.workers w with messages := rest } := by rw [modify_workers, if_pos rfl]
  have hreceive' : (s.modify w fun worker => { worker with messages := rest }).receive = some w := hreceive
  generalize s.modify w (fun worker => { worker with messages := rest }) = s₁ at htake hworker hreceive'
  have hunique {w' : Nat} (hw' : some w = some w') : w' = w := (Option.some.inj hw').symm
  have hknown : ¬ (s₁.workers w).Unknown := by
    rw [hworker]
    rintro (hb | hm')
    · rw [hserving] at hb
      cases hb
    · exact hrest hm'
  have hserves : ¬ (s₁.workers w).phase = .gone ∧ ∀ id, ¬ (s₁.workers w).Ends id := by
    rw [hworker]
    refine ⟨by rw [hserving]; rintro ⟨⟩, fun id he => ?_⟩
    rcases he with he | he
    · rw [hcommands] at he
      cases he
    · have hunasked' := hunasked (.shutdown id) (hm ▸ List.mem_cons_of_mem _ he)
      cases hunasked'
  have hstarting {attempt' : Attempt} (ha : attempt' ∈ (s₁.handleMessage w .ready).starting) :
      attempt'.worker = w ∧ attempt'.ready ≠ some false := by
    obtain ⟨attempt, hold, rfl⟩ := Option.map_eq_some_iff.mp ha
    have hattempt := htake.attempted attempt hold w hreceive'
    split
    · exact ⟨hattempt.symm, by rintro ⟨⟩⟩
    · refine ⟨hattempt.symm, fun hfalse => ?_⟩
      have hnone := (htake.failed attempt hold hfalse).1
      rw [hreceive'] at hnone
      cases hnone
  constructor
  · exact htake.sound
  · exact htake.heard
  · exact fun _ => .inl fun hnone => by cases hnone
  · intro attempt ha w' hw'
    exact (hunique (hreceive'.symm.trans hw')).trans (hstarting ha).1.symm
  · exact fun attempt ha hfalse => absurd hfalse (hstarting ha).2
  · intro w' hw'
    obtain rfl := hunique hw'
    refine ⟨hreceive', ?_, hknown⟩
    change (s₁.workers w').listened = true
    rw [hworker]
    exact hl
  · exact fun _ hnone => by cases hnone
  · intro w' hw' hgone
    obtain rfl := hunique hw'
    exact absurd hgone hserves.1
  · intro w' id hw' hends
    obtain rfl := hunique hw'
    exact absurd hends (hserves.2 id)

/-- What a worker does that the main isolate does not know. -/
theorem strange (h : Connected s) {f : Worker → Worker} (hc : s.commands ≠ some w) (hs : (f (s.workers w)).Sound)
    (hl : (f (s.workers w)).listened = (s.workers w).listened) : Connected (s.modify w f) :=
  h.modify hs hl (fun hw => absurd hw hc) (fun hw => absurd hw hc) fun _ hw => absurd hw hc

theorem boot (h : Connected s) (hp : (s.workers w).phase = .booting) (ok : Bool) :
    Connected (s.modify w fun worker => worker.boot ok) := by
  refine h.strange (fun hc => (h.port w hc).2.2 (.inl hp)) ((h.sound w).boot hp ok) ?_
  cases ok <;> rfl

theorem dies (h : Connected s) (hk : (s.workers w).killed = true) :
    Connected (s.modify w fun worker => { worker with phase := .gone }) := by
  have hl := (h.sound w).killed hk
  refine h.strange (fun hc => ?_) ((h.sound w).gone fun hl' => ?_) rfl
  · rw [(h.port w hc).2.1] at hl
    cases hl
  · rw [hl'] at hl
    cases hl

/-- A worker that serves sends a message. -/
theorem post (h : Connected s) {f : Worker → Worker} {m : Message} (hp : (s.workers w).phase = .serving)
    (hs : (f (s.workers w)).Sound) (hl : (f (s.workers w)).listened = (s.workers w).listened)
    (hphase : (f (s.workers w)).phase = (s.workers w).phase)
    (hmessages : (f (s.workers w)).messages = (s.workers w).messages ++ [m])
    (hcommands : (f (s.workers w)).commands.Sublist (s.workers w).commands) (hready : m ≠ .ready)
    (hm : m.ends = false) : Connected (s.modify w f) := by
  refine h.modify hs hl (fun hc hu => ?_) (fun _ hg => ?_) fun id _ he => .inl ?_
  · refine (h.port w hc).2.2 (hu.imp (fun hb => hphase.symm.trans hb) fun hmem => ?_)
    rw [hmessages] at hmem
    exact (List.mem_append.mp hmem).resolve_right fun he => hready (List.mem_singleton.mp he).symm
  · rw [hphase, hp] at hg
    cases hg
  · refine he.imp (fun hmem => hcommands.mem hmem) fun hmem => ?_
    rw [hmessages] at hmem
    refine (List.mem_append.mp hmem).resolve_right fun he => ?_
    rw [← List.mem_singleton.mp he] at hm
    cases hm

theorem poll (h : Connected s) (hp : (s.workers w).phase = .serving) (ok : Bool) :
    Connected (s.modify w fun worker => worker.poll ok) := by
  have hne : (s.workers w).phase ≠ .booting := by rw [hp]; rintro ⟨⟩
  cases ok with
  | true => exact h.post hp ((h.sound w).post hne (by rintro ⟨⟩) fun _ => rfl) rfl rfl rfl (.refl _) (by rintro ⟨⟩) rfl
  | false =>
    have hs : ((s.workers w).post .fatal).Sound := (h.sound w).post hne (by rintro ⟨⟩) fun _ => rfl
    exact h.post hp ⟨hs.killed, hs.silent, hs.unknown, hs.ready, hs.serving⟩ rfl rfl rfl (.refl _) (by rintro ⟨⟩) rfl

theorem answer (h : Connected s) {command : Command} {rest : List Command} {m : Message}
    (hp : (s.workers w).phase = .serving) (hc : (s.workers w).commands = command :: rest) (hready : m ≠ .ready)
    (hm : m.ends = false) :
    Connected (s.modify w fun worker => { worker with commands := rest }.post m) := by
  have hne : (s.workers w).phase ≠ .booting := by rw [hp]; rintro ⟨⟩
  have hu := (h.sound w).known hc
  refine h.post hp (((h.sound w).commands hu rest).post hne hready fun hmem => ?_) rfl rfl rfl ?_ hready hm
  · exact absurd (.inr hmem) hu
  · change rest.Sublist (s.workers w).commands
    rw [hc]
    exact List.sublist_cons_self ..

theorem shutdown (h : Connected s) {rest : List Command} (hp : (s.workers w).phase = .serving)
    (hc : (s.workers w).commands = .shutdown id :: rest) (runtimeThread : Bool) (closing destroying : Closing) :
    Connected (s.modify w fun worker =>
      { worker with commands := rest }.shutdown id runtimeThread closing destroying) := by
  have hne : (s.workers w).phase ≠ .booting := by rw [hp]; rintro ⟨⟩
  have hu := (h.sound w).known hc
  have hpost : ({ s.workers w with commands := rest }.post (.shutdown id)).Sound :=
    ((h.sound w).commands hu rest).post hne (by rintro ⟨⟩) fun hmem => absurd (.inr hmem) hu
  have hready : .ready ∉ (s.workers w).messages ++ [.shutdown id] := by
    intro hmem
    rcases List.mem_append.mp hmem with hmem | hmem
    · exact hu (.inr hmem)
    · cases List.mem_singleton.mp hmem
  have hgone := hpost.gone fun _ => hready
  refine h.modify ⟨hgone.killed, hgone.silent, hgone.unknown, hgone.ready, hgone.serving⟩ rfl (fun _ hu' => ?_)
    (fun _ _ => .inl ⟨.shutdown id, List.mem_append_right _ List.mem_cons_self, rfl⟩) fun id' _ he => .inl ?_
  · rcases hu' with hb | hmem
    · cases hb
    · exact hready hmem
  · rcases he with he | he
    · exact .inl (hc ▸ List.mem_cons_of_mem _ he)
    · rcases List.mem_append.mp he with he | he
      · exact .inr he
      · obtain ⟨rfl⟩ := List.mem_singleton.mp he
        exact .inl (hc ▸ List.mem_cons_self)

theorem onSpawned (h : Connected s) {ready : Option Bool} (hs : s.starting = some ⟨w, false, ready⟩) :
    Connected { s with isolate := some w, starting := some ⟨w, true, ready⟩ } := by
  have hstarting {attempt : Attempt} (ha : attempt ∈ some (Attempt.mk w true ready)) :
      ∃ old ∈ s.starting, old.worker = attempt.worker ∧ old.ready = attempt.ready := by
    obtain rfl := Option.some.inj ha
    exact ⟨_, hs, rfl, rfl⟩
  refine ⟨h.sound, h.heard, fun hr => ?_, fun attempt ha w' hr => ?_, fun attempt ha hf => ?_, h.port, h.asked,
    h.ended, h.awaited⟩
  · refine (h.received hr).imp_right ?_
    rintro ⟨attempt, ha, hready⟩
    obtain rfl := Option.some.inj (hs.symm.trans ha)
    exact ⟨_, rfl, hready⟩
  · obtain ⟨old, ha, hw, -⟩ := hstarting ha
    exact (h.attempted old ha w' hr).trans hw
  · obtain ⟨old, ha, -, hready⟩ := hstarting ha
    exact h.failed old ha (hready.trans hf)

theorem attemptEnds (h : Connected s) (hs : s.starting = some ⟨w, true, some true⟩) :
    Connected { s with starting := none } := by
  refine ⟨h.sound, h.heard, fun hr => .inl ?_, (by rintro _ ⟨⟩), (by rintro _ ⟨⟩), h.port, h.asked, h.ended, h.awaited⟩
  rcases h.received hr with hc | ⟨attempt, ha, hready⟩
  · exact hc
  · obtain rfl := Option.some.inj (hs.symm.trans ha)
    cases hready

theorem spawnFails (h : Connected s) {attempt : Attempt} (ha : attempt ∈ s.starting)
    (hp : (s.workers attempt.worker).phase = .booting) :
    Connected ((s.modify attempt.worker fun worker => { worker with phase := .gone }).spawnFailed attempt) := by
  have hc : s.commands = none := by
    by_contra hc
    obtain ⟨w, hc⟩ := Option.ne_none_iff_exists'.mp hc
    obtain ⟨hr, -, hu⟩ := h.port w hc
    rw [h.attempted attempt ha w hr] at hu
    exact hu (.inl hp)
  have hs : { s.workers attempt.worker with phase := .gone }.Sound := (h.sound _).gone fun _ hm => by
    rw [(h.sound _).silent hp] at hm
    cases hm
  have hgone := h.strange (f := fun worker => { worker with phase := .gone }) (by rw [hc]; rintro ⟨⟩) hs rfl
  exact hgone.spawnFailed ha hc

end Connected

/-- What the workers say of the requests, where `requests` are those of the calls. -/
structure Told (s : InkHoleCore) (requests : List Nat) : Prop where
  distinct : (s.closes.map (·.id)).Nodup
  errors : ∀ w id, .error id ∈ (s.workers w).messages → id < s.nextRequest ∧ ∀ c ∈ s.closes, c.id ≠ id
  used : ∀ id ∈ requests, id < s.nextRequest
  ends : ∀ w id, (s.workers w).Ends id → id ∉ requests

namespace Told

variable {requests : List Nat}

theorem fresh : Told fresh [] := by
  refine ⟨List.nodup_nil, ?_, (by rintro _ ⟨⟩), fun _ _ _ => List.not_mem_nil⟩
  rintro w id hm
  cases hm

theorem closes_ne (hc : (s'.closes.map (·.id)).Sublist (s.closes.map (·.id)))
    (hid : ∀ c ∈ s.closes, c.id ≠ id) : ∀ c ∈ s'.closes, c.id ≠ id := by
  intro c hm
  obtain ⟨old, hold, he⟩ := List.mem_map.mp (hc.mem (List.mem_map_of_mem hm))
  exact he ▸ hid old hold

/-- A step of the main isolate alone. -/
theorem mono (h : Told s requests) (hc : (s'.closes.map (·.id)).Sublist (s.closes.map (·.id)))
    (hn : s.nextRequest ≤ s'.nextRequest) (hm : ∀ w, (s'.workers w).messages ⊆ (s.workers w).messages)
    (he : ∀ w id, (s'.workers w).Ends id → (s.workers w).Ends id) : Told s' requests := by
  refine ⟨hc.nodup h.distinct, fun w id hmem => ?_, fun id hmem => Nat.lt_of_lt_of_le (h.used id hmem) hn,
    fun w id hw => h.ends w id (he w id hw)⟩
  obtain ⟨hlt, hid⟩ := h.errors w id (hm w hmem)
  exact ⟨Nat.lt_of_lt_of_le hlt hn, closes_ne hc hid⟩

/-- A step of one worker. -/
theorem modify (h : Told s requests) {f : Worker → Worker}
    (hm : ∀ id, .error id ∈ (f (s.workers w)).messages →
      .error id ∈ (s.workers w).messages ∨ id < s.nextRequest ∧ ∀ c ∈ s.closes, c.id ≠ id)
    (he : ∀ id, (f (s.workers w)).Ends id → (s.workers w).Ends id) : Told (s.modify w f) requests := by
  refine ⟨h.distinct, fun w' id hmem => ?_, h.used, fun w' id hw => ?_⟩
  · rw [modify_workers] at hmem
    split at hmem
    · exact (hm id hmem).elim (h.errors w id) fun hid => hid
    · exact h.errors w' id hmem
  · rw [modify_workers] at hw
    split at hw
    · exact h.ends w id (he id hw)
    · exact h.ends w' id hw

theorem take (h : Told s requests) {m : Message} {rest : List Message} (hm : (s.workers w).messages = m :: rest) :
    Told (s.modify w fun worker => { worker with messages := rest }) requests := by
  have hsub : rest ⊆ (s.workers w).messages := hm ▸ List.subset_cons_self ..
  exact h.modify (fun id hmem => .inl (hsub hmem)) fun id he => he.imp_right fun hmem => hsub hmem

theorem ids_map {closes : List PendingClose} {f : PendingClose → PendingClose} (hf : ∀ c, (f c).id = c.id) :
    (closes.map f).map (·.id) = closes.map (·.id) := by
  rw [List.map_map]
  exact List.map_congr_left fun c _ => hf c

theorem complete (h : Told s requests) (id : Nat) (ok : Bool) : Told (s.complete id ok) requests := by
  unfold InkHoleCore.complete
  split
  · have hids : (s.closes.map (PendingClose.settle id ok)).map (·.id) = s.closes.map (·.id) := by
      refine ids_map fun c => ?_
      rcases settle_cases id ok c with he | ⟨-, -, he⟩ <;> rw [he]
    exact h.mono (hids ▸ .refl _) (Nat.le_refl _) (fun _ => List.Subset.refl _) fun _ _ he => he
  · exact h

theorem failed_ids (s : InkHoleCore) :
    (s.closes.map (PendingClose.fail s.pending)).map (·.id) = s.closes.map (·.id) := by
  refine ids_map fun c => ?_
  rcases fail_cases s.pending c with he | he <;> rw [he]

/-- Ports are closed and workers are killed, but nothing is sent or taken. -/
theorem ports (h : Told s requests) (hc : (s'.closes.map (·.id)).Sublist (s.closes.map (·.id)))
    (hn : s.nextRequest ≤ s'.nextRequest) (hm : ∀ w, (s'.workers w).messages = (s.workers w).messages)
    (hcommands : ∀ w, (s'.workers w).commands = (s.workers w).commands) : Told s' requests := by
  refine h.mono hc hn (fun w => by rw [hm w]; exact List.Subset.refl _) fun w id he => ?_
  rw [Worker.Ends, hm w, hcommands w] at he
  exact he

theorem tearDown (h : Told s requests) (id : Nat) : Told (s.tearDown.dropClose id) requests := by
  rw [InkHoleCore.tearDown, closeReceive_eq, killIsolate_eq]
  refine h.ports ?_ (Nat.le_refl _) (fun _ => rfl) fun _ => rfl
  change (((s.closes.map (PendingClose.fail s.pending)).filter (·.id ≠ id)).map (·.id)).Sublist _
  rw [← failed_ids]
  exact List.filter_sublist.map _

theorem fatal (h : Told s requests) : Told (s.handleMessage w .fatal) requests := by
  rw [InkHoleCore.handleMessage, closeReceive_eq, killIsolate_eq]
  refine h.ports ?_ (Nat.le_refl _) (fun _ => rfl) fun _ => rfl
  change ((s.closes.map (PendingClose.fail s.pending)).map (·.id)).Sublist _
  rw [← failed_ids]

theorem spawnFailed (h : Told s requests) (attempt : Attempt) : Told (s.spawnFailed attempt) requests := by
  rw [InkHoleCore.spawnFailed, killIsolate_eq]
  refine h.ports (.refl _) (Nat.le_refl _) (fun w => ?_) fun w => ?_
  · change ((s.modify attempt.worker _).workers w).messages = _
    rw [modify_workers]
    split
    · next heq => rw [heq]
    · rfl
  · change ((s.modify attempt.worker _).workers w).commands = _
    rw [modify_workers]
    split
    · next heq => rw [heq]
    · rfl

theorem dropClose (h : Told s requests) (id : Nat) : Told (s.dropClose id) requests :=
  h.ports (List.filter_sublist.map _) (Nat.le_refl _) (fun _ => rfl) fun _ => rfl

theorem start (h : Told s requests) : Told s.start requests := by
  rw [InkHoleCore.start]
  split
  · have hworkers (w : Nat) : s.spawn.workers w = if w = s.spawned then Worker.spawned else s.workers w := by
      simp only [InkHoleCore.spawn, Function.update_apply]
    refine h.mono (.refl _) (Nat.le_refl _) (fun w => ?_) fun w id he => ?_
    · rw [hworkers]
      split
      · exact List.nil_subset _
      · exact List.Subset.refl _
    · rw [hworkers] at he
      split at he
      · rcases he with ⟨⟨⟩⟩ | ⟨⟨⟩⟩
      · exact he
  · exact h

theorem send (h : Told s requests) (hnum : Numbered s) : Told s.send (s.nextRequest :: requests) := by
  have hnew : Told { s with nextRequest := s.nextRequest + 1 } (s.nextRequest :: requests) := by
    refine ⟨h.distinct, fun w id hm => ?_, fun id hm => ?_, fun w id he hm => ?_⟩
    · exact (h.errors w id hm).imp_left Nat.lt_succ_of_lt
    · rcases List.mem_cons.mp hm with rfl | hm
      · exact Nat.lt_succ_self _
      · exact Nat.lt_succ_of_lt (h.used id hm)
    · rcases List.mem_cons.mp hm with rfl | hm
      · exact Nat.lt_irrefl _ (hnum.ends w _ he).1
      · exact h.ends w id he hm
  rw [InkHoleCore.send]
  split
  · next w hc =>
    have hsent := hnew.modify (w := w) (f := fun worker => { worker with
        commands := worker.commands ++ [.call s.nextRequest] }) (fun id hm => .inl hm) fun id he => by
      refine he.imp_left fun hm => (List.mem_append.mp hm).resolve_right fun hm => ?_
      cases List.mem_singleton.mp hm
    exact ⟨hsent.distinct, hsent.errors, hsent.used, hsent.ends⟩
  · exact ⟨hnew.distinct, hnew.errors, hnew.used, hnew.ends⟩

theorem close (h : Told s requests) (hnum : Numbered s) : Told s.close requests := by
  rw [InkHoleCore.close]
  split
  · exact ⟨h.distinct, h.errors, h.used, h.ends⟩
  · next w hc =>
    refine ⟨List.nodup_cons.mpr ⟨fun hm => ?_, h.distinct⟩, fun w' id hm => ?_,
      fun id hm => Nat.lt_succ_of_lt (h.used id hm), fun w' id he hm => ?_⟩
    · obtain ⟨c, hm, hid⟩ := List.mem_map.mp hm
      have hlt := (hnum.closes c hm).1
      exact Nat.lt_irrefl _ (hid ▸ hlt)
    · have hold : .error id ∈ (s.workers w').messages := by
        rw [modify_workers] at hm
        split at hm
        · next heq => exact heq ▸ hm
        · exact hm
      obtain ⟨hlt, hid⟩ := h.errors w' id hold
      exact ⟨Nat.lt_succ_of_lt hlt, List.forall_mem_cons.mpr ⟨(Nat.ne_of_lt hlt).symm, hid⟩⟩
    · rw [modify_workers] at he
      split at he
      · rcases he with he | he
        · rcases List.mem_append.mp he with he | he
          · exact h.ends w id (.inl he) hm
          · obtain ⟨rfl⟩ := List.mem_singleton.mp he
            exact Nat.lt_irrefl _ (h.used _ hm)
        · exact h.ends w id (.inr he) hm
      · exact h.ends w' id he hm

theorem handleMessage (h : Told s requests) (w : Nat) (m : Message) : Told (s.handleMessage w m) requests := by
  cases m with
  | ready => exact ⟨h.distinct, h.errors, h.used, h.ends⟩
  | event => exact h
  | response id => exact h.complete id true
  | error id => exact h.complete id false
  | shutdown id => exact h.complete id true
  | fatal => exact h.fatal

/-- A worker speaks of the requests that it has been sent. -/
theorem worker (h : Told s requests) (hnum : Numbered s) {e : Event}
    (he : (∃ ok, e = .boot w ok) ∨ (∃ ok, e = .poll w ok) ∨ (∃ ok, e = .answer w ok) ∨
      (∃ r c d, e = .shutdown w r c d) ∨ e = .dies w)
    (hs : s.step e = some s') : Told s' requests := by
  rcases he with ⟨ok, rfl⟩ | ⟨ok, rfl⟩ | ⟨ok, rfl⟩ | ⟨r, c, d, rfl⟩ | rfl
  · obtain ⟨_, rfl⟩ := Option.ite_some_none_eq_some.mp hs
    cases ok <;> exact h.modify
      (fun id hm => .inl (by simpa [Worker.boot, Worker.post] using hm))
      (fun id hm => by simpa [Worker.Ends, Worker.boot, Worker.post] using hm)
  · obtain ⟨_, rfl⟩ := Option.ite_some_none_eq_some.mp hs
    cases ok <;> exact h.modify
      (fun id hm => .inl (by simpa [Worker.poll, Worker.post] using hm))
      (fun id hm => by simpa [Worker.Ends, Worker.poll, Worker.post] using hm)
  · obtain ⟨id, rest, _, hc, rfl⟩ := onAnswer_cases hs
    have hid := hnum.serves w id (.inl (hc ▸ List.mem_cons_self))
    refine h.modify (fun id' hm => ?_) fun id' he => ?_
    · rcases List.mem_append.mp hm with hm | hm
      · exact .inl hm
      · cases ok with
        | true => cases List.mem_singleton.mp hm
        | false =>
          obtain ⟨rfl⟩ := List.mem_singleton.mp hm
          exact .inr hid
    · refine he.imp (fun hm => hc ▸ List.mem_cons_of_mem _ hm) fun hm => ?_
      refine (List.mem_append.mp hm).resolve_right fun hm => ?_
      cases ok <;> cases List.mem_singleton.mp hm
  · obtain ⟨id, rest, _, hc, rfl⟩ := onShutdown_cases hs
    refine h.modify (fun id' hm => ?_) fun id' he => ?_
    · refine .inl ((List.mem_append.mp hm).resolve_right fun hm => ?_)
      cases List.mem_singleton.mp hm
    · rcases he with hm | hm
      · exact .inl (hc ▸ List.mem_cons_of_mem _ hm)
      · rcases List.mem_append.mp hm with hm | hm
        · exact .inr hm
        · obtain ⟨rfl⟩ := List.mem_singleton.mp hm
          exact .inl (hc ▸ List.mem_cons_self)
  · obtain ⟨_, rfl⟩ := Option.ite_some_none_eq_some.mp hs
    exact h.modify (fun _ hm => .inl hm) fun _ he => he

/-- Every step but the one in which a call sends its request. -/
theorem step (h : Told s requests) (hnum : Numbered s) {e : Event} (he : e ≠ .send) (hs : s.step e = some s') :
    Told s' requests := by
  cases e with
  | start =>
    obtain rfl := Option.some.inj hs
    exact ⟨h.start.distinct, h.start.errors, h.start.used, h.start.ends⟩
  | call =>
    obtain rfl := Option.some.inj hs
    exact ⟨h.start.distinct, h.start.errors, h.start.used, h.start.ends⟩
  | send => exact absurd rfl he
  | refuse =>
    obtain ⟨_, rfl⟩ := Option.ite_some_none_eq_some.mp hs
    exact ⟨h.distinct, h.errors, h.used, h.ends⟩
  | close =>
    obtain rfl := Option.some.inj hs
    exact h.close hnum
  | timesOut id =>
    obtain ⟨_, rfl⟩ := Option.ite_some_none_eq_some.mp hs
    have hl : Told { s with shutdownTimedOut := true } requests := ⟨h.distinct, h.errors, h.used, h.ends⟩
    exact hl.tearDown id
  | closeEnds id =>
    simp only [InkHoleCore.step] at hs
    split at hs
    · obtain rfl := Option.some.inj hs
      exact h.tearDown id
    · obtain rfl := Option.some.inj hs
      exact h.dropClose id
    · cases hs
  | release =>
    obtain rfl := Option.some.inj hs
    exact ⟨h.distinct, h.errors, h.used, h.ends⟩
  | spawned =>
    obtain ⟨w, ready, _, rfl⟩ := onSpawned_cases hs
    exact ⟨h.distinct, h.errors, h.used, h.ends⟩
  | spawnFails =>
    obtain ⟨w, ready, _, _, rfl⟩ := onSpawnFails_cases hs
    have hgone : Told (s.modify w fun worker => { worker with phase := .gone }) requests :=
      h.modify (fun _ hm => .inl hm) fun _ he => he
    exact hgone.spawnFailed _
  | attemptEnds =>
    obtain ⟨w, ⟨_, rfl⟩ | ⟨_, rfl⟩⟩ := onAttemptEnds_cases hs
    · exact ⟨h.distinct, h.errors, h.used, h.ends⟩
    · exact h.spawnFailed _
  | deliver w =>
    obtain ⟨m, rest, _, hm, rfl⟩ := onDeliver_cases hs
    exact (h.take hm).handleMessage w m
  | boot w ok => exact h.worker hnum (.inl ⟨ok, rfl⟩) hs
  | poll w ok => exact h.worker hnum (.inr (.inl ⟨ok, rfl⟩)) hs
  | answer w ok => exact h.worker hnum (.inr (.inr (.inl ⟨ok, rfl⟩))) hs
  | shutdown w r c d => exact h.worker hnum (.inr (.inr (.inr (.inl ⟨r, c, d, rfl⟩)))) hs
  | dies w => exact h.worker hnum (.inr (.inr (.inr (.inr rfl)))) hs

end Told

namespace Connected

variable {requests : List Nat}

/-- A close that returns with an error has no more use for its answer. -/
theorem dropClose (h : Connected s) (htold : Told s requests) (ho : s.closeOutcome id = some (some false)) :
    Connected (s.dropClose id) := by
  obtain ⟨c, hc, hid, hco⟩ := closeOutcome_mem ho
  have hkeep {c' : PendingClose} (hm : c' ∈ s.closes) (hne : c'.outcome ≠ some false) :
      c' ∈ s.closes.filter (·.id ≠ id) := by
    refine List.mem_filter.mpr ⟨hm, decide_eq_true fun hid' => hne ?_⟩
    have heq := List.inj_on_of_nodup_map htold.distinct hm hc (hid'.trans hid.symm)
    rw [heq]
    exact hco
  have hanswered : s.Answered → ∃ c ∈ s.closes.filter (·.id ≠ id), c.outcome = some true := by
    rintro ⟨c', hm, ho'⟩
    exact ⟨c', hkeep hm (by rw [ho']; rintro ⟨⟩), ho'⟩
  refine h.pend h.asked hanswered fun id' hw => .inl ?_
  obtain ⟨c', hm, hid', ho'⟩ := hw
  exact ⟨c', hkeep hm (by rw [ho']; rintro ⟨⟩), hid', ho'⟩

/-- The oldest message of a worker does what it stands for. -/
theorem deliver (h : Connected s) (hnum : Numbered s) (htold : Told s requests) {m : Message} {rest : List Message}
    (hl : (s.workers w).listened = true) (hm : (s.workers w).messages = m :: rest) :
    Connected ((s.modify w fun worker => { worker with messages := rest }).handleMessage w m) := by
  have hhead : m ∈ (s.workers w).messages := hm ▸ List.mem_cons_self
  have hcompleted {id : Nat} {ok : Bool} (hc : Connected (s.complete id ok))
      (hlast : s.commands = some w → m.last = true → (s.complete id ok).Answered) :
      Connected ((s.modify w fun worker => { worker with messages := rest }).complete id ok) := by
    obtain ⟨pending, closes, he⟩ := complete_eq s id ok
    rw [complete_modify]
    rw [he] at hc hlast ⊢
    exact hc.take hm hlast
  cases m with
  | ready => exact h.ready hl hm
  | event => exact h.take hm fun _ hlast => by cases hlast
  | response id => exact hcompleted (h.complete true (by rintro ⟨⟩)) fun _ hlast => by cases hlast
  | error id =>
    exact hcompleted (h.complete false fun _ => (htold.errors w id hhead).2) fun _ hlast => by cases hlast
  | shutdown id =>
    refine hcompleted (h.complete true (by rintro ⟨⟩)) fun hc _ => ?_
    exact answered_complete hnum (h.awaited w id hc (.inr hhead))
  | fatal =>
    refine fatal (fun w' => ?_) fun w' hl' => ?_
    · rw [modify_workers]
      split
      · exact (h.sound w).take hm
      · exact h.sound w'
    · rw [modify_workers] at hl'
      split at hl'
      · next heq => exact heq ▸ h.heard w hl
      · exact h.heard w' hl'

theorem step (h : Connected s) (hnum : Numbered s) (htold : Told s requests) {e : Event}
    (hs : s.step e = some s') : Connected s' := by
  cases e with
  | start =>
    obtain rfl := Option.some.inj hs
    exact h.start.congr rfl rfl rfl rfl rfl rfl
  | call =>
    obtain rfl := Option.some.inj hs
    exact h.start.congr rfl rfl rfl rfl rfl rfl
  | send =>
    obtain ⟨_, rfl⟩ := Option.ite_some_none_eq_some.mp hs
    exact h.send
  | refuse =>
    obtain ⟨_, rfl⟩ := Option.ite_some_none_eq_some.mp hs
    exact h.congr rfl rfl rfl rfl rfl rfl
  | close =>
    obtain rfl := Option.some.inj hs
    exact h.close
  | timesOut id =>
    obtain ⟨_, rfl⟩ := Option.ite_some_none_eq_some.mp hs
    have hlate : Connected { s with shutdownTimedOut := true } := h.congr rfl rfl rfl rfl rfl rfl
    exact hlate.tearDown id
  | closeEnds id =>
    simp only [InkHoleCore.step] at hs
    split at hs
    · obtain rfl := Option.some.inj hs
      exact h.tearDown id
    · next ho =>
      obtain rfl := Option.some.inj hs
      exact h.dropClose htold ho
    · cases hs
  | release =>
    obtain rfl := Option.some.inj hs
    exact h.congr rfl rfl rfl rfl rfl rfl
  | spawned =>
    obtain ⟨w, ready, hst, rfl⟩ := onSpawned_cases hs
    exact h.onSpawned hst
  | spawnFails =>
    obtain ⟨w, ready, hst, hp, rfl⟩ := onSpawnFails_cases hs
    exact h.spawnFails hst hp
  | attemptEnds =>
    obtain ⟨w, ⟨hst, rfl⟩ | ⟨hst, rfl⟩⟩ := onAttemptEnds_cases hs
    · exact h.attemptEnds hst
    · exact h.spawnFailed hst (h.failed _ hst rfl).2
  | deliver w =>
    obtain ⟨m, rest, hl, hm, rfl⟩ := onDeliver_cases hs
    exact h.deliver hnum htold hl hm
  | boot w ok =>
    obtain ⟨hp, rfl⟩ := Option.ite_some_none_eq_some.mp hs
    exact h.boot hp ok
  | poll w ok =>
    obtain ⟨⟨hp, _⟩, rfl⟩ := Option.ite_some_none_eq_some.mp hs
    exact h.poll hp ok
  | answer w ok =>
    obtain ⟨id, rest, hp, hc, rfl⟩ := onAnswer_cases hs
    cases ok <;> exact h.answer hp hc (by rintro ⟨⟩) rfl
  | shutdown w r c d =>
    obtain ⟨id, rest, hp, hc, rfl⟩ := onShutdown_cases hs
    exact h.shutdown hp hc r c d
  | dies w =>
    obtain ⟨⟨hk, _⟩, rfl⟩ := Option.ite_some_none_eq_some.mp hs
    exact h.dies hk

end Connected

end InkHoleCore

end InkHole
