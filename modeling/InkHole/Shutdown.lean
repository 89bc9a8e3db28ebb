import InkHole.Custody

/-! A service that has been closed: nothing is registered in it any more, and nothing that its
operations had made goes on once they have returned. -/

namespace InkHole

open Machine

namespace JsonService

/-! ### The sessions of the local network -/

def Owned (s : Service) (id : Nat) : Prop := id ∈ s.state.sessions ∨ ∃ owner, (owner, id) ∈ s.owners

theorem owned_iff (s : Service) (id : Nat) : s.owned id = true ↔ Owned s id := by
  simp only [Service.owned, Bool.or_eq_true, List.contains_iff_mem, List.any_eq_true, beq_iff_eq, Owned,
    Prod.exists]
  constructor
  · rintro (h | ⟨owner, other, h, rfl⟩)
    · exact .inl h
    · exact .inr ⟨owner, h⟩
  · rintro (h | ⟨owner, h⟩)
    · exact .inl h
    · exact .inr ⟨owner, id, h, rfl⟩

/-- A session that runs is held by somebody. -/
def Live (s : Service) : Prop := ∀ id l, s.lans id = some l → l.running = true → Owned s id

section Live

variable {s s' : Service}

theorem Live.mono (h : Live s) (hl : s'.lans = s.lans) (ho : ∀ id, Owned s id → Owned s' id) : Live s' := by
  intro id l hid hrun
  rw [hl] at hid
  exact ho id (h id l hid hrun)

theorem Live.of_eq (h : Live s) (hl : s'.lans = s.lans) (hs : s'.state.sessions = s.state.sessions)
    (ho : s'.owners = s.owners) : Live s' := by
  refine h.mono hl fun id hid => ?_
  rwa [Owned, hs, ho]

/-- What a session is told does not start it. -/
theorem Live.modifyLan (h : Live s) (id : Nat) {f : LanSession → LanSession}
    (hf : ∀ l, (f l).running = true → l.running = true) : Live (s.modifyLan id f) := by
  intro other l hl hrun
  obtain ⟨_, l₀, hl₀, rfl⟩ | ⟨_, hl⟩ := Service.modifyLan_lans hl
  · exact h other l₀ hl₀ (hf l₀ hrun)
  · exact h other l hl hrun

theorem dropped_not_running (l : LanSession) : l.dropped.running = false := by
  cases hd : l.discovery with
  | none => simp [LanSession.dropped, LanSession.running, hd]
  | some d => simp [LanSession.dropped, LanSession.running, hd]

/-- A session that nobody holds any more is dropped, and runs no longer. -/
theorem Live.release (h : Live s) (owner : Owner) (id : Nat) : Live (s.release owner id) := by
  have hkept : ∀ other, other ≠ id → Owned s other →
      Owned { s with owners := s.owners.filter (· ≠ (owner, id)) } other := by
    rintro other hne (ho | ⟨o, ho⟩)
    · exact .inl ho
    · refine .inr ⟨o, List.mem_filter.mpr ⟨ho, ?_⟩⟩
      simp only [ne_eq, decide_eq_true_eq, Prod.mk.injEq, not_and]
      exact fun _ he => hne he
  simp only [Service.release]
  split
  · next hown =>
    intro other l hl hrun
    by_cases hne : other = id
    · subst hne
      exact (owned_iff _ _).mp hown
    · exact hkept other hne (h other l hl hrun)
  · intro other l hl hrun
    obtain ⟨_, l₀, _, rfl⟩ | ⟨hne, hl⟩ := Service.modifyLan_lans hl
    · rw [dropped_not_running] at hrun
      cases hrun
    · exact hkept other hne (h other l hl hrun)

theorem Live.endWork (h : Live s) (id : Nat) (phase : TaskPhase → TaskPhase) : Live (s.endWork id phase) := by
  simp only [Service.endWork]
  split
  · next session _ =>
    have hm : Live (s.modifyWormhole id fun w => { w with task := w.task.map phase }) := h.of_eq rfl rfl rfl
    exact hm.release (.task id) session.lanSessionId
  · exact h

end Live

theorem mem_acquire {s : Service} {owner o : Owner} {ids : List Nat} {id : Nat} :
    (o, id) ∈ (s.acquire owner ids).owners ↔ (o = owner ∧ id ∈ ids) ∨ (o, id) ∈ s.owners := by
  simp only [Service.acquire, List.mem_append, List.mem_map, Prod.mk.injEq]
  constructor
  · rintro (⟨_, hid, rfl, rfl⟩ | h)
    · exact .inl ⟨rfl, hid⟩
    · exact .inr h
  · rintro (⟨rfl, hid⟩ | h)
    · exact .inl ⟨id, hid, rfl, rfl⟩
    · exact .inr h

theorem mem_release {s : Service} {owner o : Owner} {id other : Nat} :
    (o, other) ∈ (s.release owner id).owners ↔ (o, other) ∈ s.owners ∧ ¬ (o = owner ∧ other = id) := by
  rw [Service.release_owners, List.mem_filter]
  simp only [ne_eq, decide_eq_true_eq, Prod.mk.injEq]

/-- The tasks hold what they work with. -/
structure LansKept (s : Service) (H : Nat → Set Duty) : Prop where
  live : Live s
  operations : ∀ j id, (.operation j, id) ∈ s.owners ↔ .lan id ∈ H j
  tasks : ∀ wormhole id, (.task wormhole, id) ∈ s.owners → ∃ w, s.wormholes wormhole = some w ∧
    w.task = some .working ∧ w.lanSessionId = id

theorem Live.exec {s : Service} (h : Live s) {β : Type} (c : Call β) {t : Holding} (hf : c.fits t)
    (hheld : ∀ id, .lan id ∈ t.duties → Owned s id) : Live (exec c s).2 := by
  cases c with
  | takeStale me =>
    refine h.mono rfl ?_
    rintro id (hid | ⟨o, ho⟩)
    · exact .inr ⟨.operation me, mem_acquire.mpr (.inl ⟨rfl, hid⟩)⟩
    · exact .inr ⟨o, mem_acquire.mpr (.inr ho)⟩
  | takeLan me other =>
    refine h.mono rfl ?_
    rintro id (hid | ⟨o, ho⟩)
    · by_cases he : id = other
      · subst he
        refine .inr ⟨.operation me, mem_acquire.mpr (.inl ⟨rfl, ?_⟩)⟩
        rw [if_pos (List.contains_iff_mem.mpr hid)]
        exact List.mem_singleton_self id
      · exact .inl (List.mem_filter.mpr ⟨hid, by simpa using he⟩)
    · exact .inr ⟨o, mem_acquire.mpr (.inr ho)⟩
  | drain me closes =>
    refine h.mono (Service.drain_lans s me closes) fun id hid => ?_
    simp only [JsonService.exec, Service.drain]
    split
    · exact hid
    · rcases hid with hid | ⟨o, ho⟩
      · exact .inr ⟨.operation me, mem_acquire.mpr (.inl ⟨rfl, hid⟩)⟩
      · exact .inr ⟨o, mem_acquire.mpr (.inr ho)⟩
  | session me other =>
    refine h.mono (Service.session_lans s me other) fun id hid => ?_
    simp only [JsonService.exec, Service.session]
    split
    · rcases hid with hid | ⟨o, ho⟩
      · exact .inl hid
      · exact .inr ⟨o, mem_acquire.mpr (.inr ho)⟩
    · exact hid
  | dropLan me other => exact h.release (.operation me) other
  | bindServer me =>
    intro id l hl hrun
    by_cases hid : id = s.drawn
    · exact .inr ⟨.operation me, mem_acquire.mpr (.inl ⟨rfl, List.mem_singleton.mpr hid⟩)⟩
    · simp only [JsonService.exec, Service.bindServer, Service.acquire, Function.update_of_ne hid] at hl
      rcases h id l hl hrun with hown | ⟨o, ho⟩
      · exact .inl hown
      · exact .inr ⟨o, mem_acquire.mpr (.inr ho)⟩
  | startDiscovery me other =>
    intro id l hl hrun
    obtain ⟨rfl, _⟩ | ⟨_, hl⟩ := Service.modifyLan_lans hl
    · exact hheld id hf
    · exact h id l hl hrun
  | insertSession me other =>
    refine h.mono (Service.insertSession_lans s other) fun id hid => ?_
    simp only [JsonService.exec, Service.insertSession]
    split
    · exact hid
    · exact hid.imp_left List.mem_insert_of_mem
  | closeSends other => exact h.modifyLan other fun l hl => hl
  | closeDiscovery other =>
    refine h.modifyLan other fun l hl => ?_
    cases hd : l.discovery with
    | none => simpa [LanSession.running, hd] using hl
    | some d =>
      simp only [LanSession.running, hd, Option.map_some] at hl
      simp only [LanSession.running, Bool.or_eq_true]
      exact .inl (by simpa using hl)
  | closeServer other =>
    refine h.modifyLan other fun l hl => ?_
    simp only [LanSession.running, Bool.false_or] at hl
    simp only [LanSession.running, hl, Bool.or_true]
  | spawnTask me lan other =>
    refine h.mono rfl ?_
    rintro id (hid | ⟨o, ho⟩)
    · exact .inl hid
    · by_cases he : (o, id) = (.operation me, lan)
      · obtain ⟨_, rfl⟩ := Prod.mk.inj he
        exact .inr ⟨.task other, List.mem_cons_self⟩
      · exact .inr ⟨o, List.mem_cons_of_mem _ (List.mem_filter.mpr ⟨ho, decide_eq_true he⟩)⟩
  | abortTask other => exact h.endWork other _
  | joinTask other => exact h.endWork other _
  | insertRelay other lan =>
    refine h.of_eq (Service.insertRelay_lans s other lan) ?_ (Service.insertRelay_owners s other lan)
    simp only [JsonService.exec, Service.insertRelay]
    split
    · rfl
    · rfl
  | insertWormhole other =>
    refine h.of_eq (Service.insertWormhole_lans s other) ?_ (Service.insertWormhole_owners s other)
    simp only [JsonService.exec, Service.insertWormhole]
    split
    · rfl
    · rfl
  | setHandle other =>
    exact h.of_eq (Service.setHandle_lans s other) (congrArg _ (Service.setHandle_state s other))
      (Service.setHandle_owners s other)
  | _ => exact h.of_eq rfl rfl rfl

/-- The calls that hand sessions on. -/
def Call.ofLan {β : Type} : Call β → Bool
  | .takeStale _ => true
  | .takeLan _ _ => true
  | .drain _ _ => true
  | .session _ _ => true
  | .dropLan _ _ => true
  | .bindServer _ => true
  | .spawnTask _ _ _ => true
  | _ => false

theorem endWork_operation {s : Service} {id j lan : Nat} {phase : TaskPhase → TaskPhase} :
    (.operation j, lan) ∈ (s.endWork id phase).owners ↔ (.operation j, lan) ∈ s.owners := by
  simp only [Service.endWork]
  split
  · rw [mem_release]
    exact ⟨fun h => h.1, fun h => ⟨h, fun he => Owner.noConfusion he.1⟩⟩
  · rfl

theorem exec_operation {β : Type} (c : Call β) (s : Service) (h : c.ofLan = false) {j id : Nat} :
    (.operation j, id) ∈ (exec c s).2.owners ↔ (.operation j, id) ∈ s.owners := by
  cases c with
  | takeStale me => cases h
  | takeLan me other => cases h
  | drain me closes => cases h
  | session me other => cases h
  | dropLan me other => cases h
  | bindServer me => cases h
  | spawnTask me lan other => cases h
  | insertSession me other => rw [JsonService.exec, Service.insertSession_owners]
  | insertRelay other lan => rw [JsonService.exec, Service.insertRelay_owners]
  | insertWormhole other => rw [JsonService.exec, Service.insertWormhole_owners]
  | setHandle other => rw [JsonService.exec, Service.setHandle_owners]
  | abortTask other => exact endWork_operation
  | joinTask other => exact endWork_operation
  | _ => rfl

/-- An operation is handed a session as a duty, and settles the duty by handing it on. -/
theorem operation_owners_exec {β : Type} (c : Call β) (s : Service) {t : Holding} (hf : c.fits t)
    {j id : Nat} : (.operation j, id) ∈ (exec c s).2.owners ↔
      ((.operation j, id) ∈ s.owners ∧ (j = t.me → .lan id ∉ settles c (exec c s).1)) ∨
        (j = t.me ∧ .lan id ∈ gains c (exec c s).1) := by
  cases hc : c.ofLan with
  | false =>
    rw [exec_operation c s hc]
    constructor
    · intro h
      refine .inl ⟨h, fun _ hs => ?_⟩
      cases settledBy_of_mem hs <;> cases hc
    · rintro (h | ⟨_, hg⟩)
      · exact h.1
      · cases gainedBy_of_mem hg <;> cases hc
  | true =>
    cases c with
    | takeStale me =>
      obtain rfl := hf
      rw [JsonService.exec, Service.takeStale, mem_acquire, Owner.operation.injEq]
      constructor
      · rintro (⟨rfl, hid⟩ | h)
        · exact .inr ⟨rfl, .inl ⟨id, hid, rfl⟩⟩
        · exact .inl ⟨h, fun _ hs => hs⟩
      · rintro (h | ⟨rfl, ⟨_, hid, he⟩ | ⟨_, _, he⟩⟩)
        · exact .inr h.1
        · obtain rfl := Duty.lan.inj he
          exact .inl ⟨rfl, hid⟩
        · cases he
    | takeLan me other =>
      obtain rfl := hf
      rw [JsonService.exec, Service.takeLan, mem_acquire, Owner.operation.injEq]
      constructor
      · rintro (⟨rfl, hid⟩ | h)
        · split at hid
          · next hfound =>
            obtain rfl := List.mem_singleton.mp hid
            exact .inr ⟨rfl, .inl ⟨hfound, rfl⟩⟩
          · cases hid
        · exact .inl ⟨h, fun _ hs => hs⟩
      · rintro (h | ⟨rfl, ⟨hfound, he⟩ | ⟨_, _, he⟩⟩)
        · exact .inr h.1
        · obtain rfl := Duty.lan.inj he
          refine .inl ⟨rfl, ?_⟩
          rw [if_pos hfound]
          exact List.mem_singleton_self id
        · cases he
    | drain me closes =>
      obtain rfl := hf
      by_cases hclosed : s.state.closed = true
      · have he : s.drain t.me closes = (none, s) := by simp only [Service.drain, if_pos hclosed]
        rw [JsonService.exec, he]
        constructor
        · exact fun h => .inl ⟨h, fun _ hs => hs⟩
        · rintro (h | ⟨_, _, hx, _⟩)
          · exact h.1
          · cases hx
      · have he : s.drain t.me closes = (some ⟨s.state.sessions, s.state.wormholes, s.state.sshRelays.map Prod.fst⟩,
            ({ s with state := ⟨closes, [], [], []⟩ } : Service).acquire (.operation t.me) s.state.sessions) := by
          simp only [Service.drain, if_neg hclosed]
        rw [JsonService.exec, he, mem_acquire, Owner.operation.injEq]
        constructor
        · rintro (⟨rfl, hid⟩ | h)
          · exact .inr ⟨rfl, _, rfl, .inl ⟨id, hid, rfl⟩⟩
          · exact .inl ⟨h, fun _ hs => hs⟩
        · rintro (h | ⟨rfl, _, hx, ⟨_, hid, he⟩ | ⟨_, _, he⟩ | ⟨_, _, he⟩⟩)
          · exact .inr h.1
          · obtain rfl := Option.some.inj hx
            obtain rfl := Duty.lan.inj he
            exact .inl ⟨rfl, hid⟩
          · cases he
          · cases he
    | session me other =>
      obtain rfl := hf
      by_cases hfound : s.state.sessions.contains other = true
      · have he : s.session t.me other = (true, s.acquire (.operation t.me) [other]) := by
          simp only [Service.session, if_pos hfound]
        rw [JsonService.exec, he, mem_acquire, Owner.operation.injEq, List.mem_singleton]
        constructor
        · rintro (⟨rfl, rfl⟩ | h)
          · exact .inr ⟨rfl, rfl, rfl⟩
          · exact .inl ⟨h, fun _ hs => hs⟩
        · rintro (h | ⟨rfl, _, he⟩)
          · exact .inr h.1
          · exact .inl ⟨rfl, Duty.lan.inj he⟩
      · have he : s.session t.me other = (false, s) := by simp only [Service.session, if_neg hfound]
        rw [JsonService.exec, he]
        constructor
        · exact fun h => .inl ⟨h, fun _ hs => hs⟩
        · rintro (h | ⟨_, hx, _⟩)
          · exact h.1
          · cases hx
    | dropLan me other =>
      obtain rfl := hf
      rw [JsonService.exec, mem_release, Owner.operation.injEq]
      constructor
      · rintro ⟨h, hne⟩
        exact .inl ⟨h, fun hj hs => hne ⟨hj, Duty.lan.inj hs⟩⟩
      · rintro (⟨h, hne⟩ | ⟨_, hg⟩)
        · exact ⟨h, fun he => hne he.1 (congrArg Duty.lan he.2)⟩
        · exact hg.elim
    | bindServer me =>
      obtain rfl := hf
      rw [JsonService.exec, Service.bindServer, mem_acquire, Owner.operation.injEq, List.mem_singleton]
      constructor
      · rintro (⟨rfl, rfl⟩ | h)
        · exact .inr ⟨rfl, _, rfl, rfl⟩
        · exact .inl ⟨h, fun _ hs => hs⟩
      · rintro (h | ⟨rfl, _, hx, he⟩)
        · exact .inr h.1
        · obtain rfl := Option.some.inj hx
          exact .inl ⟨rfl, Duty.lan.inj he⟩
    | spawnTask me lan other =>
      obtain ⟨rfl, _⟩ := hf
      simp only [JsonService.exec, Service.spawnTask, List.mem_cons, Prod.mk.injEq, reduceCtorEq, false_and,
        false_or, List.mem_filter, ne_eq, decide_eq_true_eq, Owner.operation.injEq, not_and]
      constructor
      · rintro ⟨h, hne⟩
        refine .inl ⟨h, fun hj hs => ?_⟩
        rcases hs with hs | hs | ⟨_, hs⟩
        · exact hne hj (Duty.lan.inj hs)
        · cases hs
        · cases hs
      · rintro (⟨h, hne⟩ | ⟨_, hg⟩)
        · exact ⟨h, fun hj he => hne hj (.inl (congrArg Duty.lan he))⟩
        · cases hg
    | _ => cases hc

/-- A task lets go of its session when its work ends. -/
theorem task_owners_endWork {s : Service} {id wormhole lan : Nat} {phase : TaskPhase → TaskPhase}
    (h : (.task wormhole, lan) ∈ (s.endWork id phase).owners) : (.task wormhole, lan) ∈ s.owners ∧
      ∀ w, s.wormholes wormhole = some w → w.lanSessionId = lan → wormhole ≠ id := by
  simp only [Service.endWork] at h
  split at h
  · next session hs =>
    obtain ⟨h, hne⟩ := mem_release.mp h
    refine ⟨h, fun w hw hlan he => hne ⟨congrArg Owner.task he, ?_⟩⟩
    subst he
    obtain rfl := Option.some.inj (hs.symm.trans hw)
    exact hlan.symm
  · next hnone =>
    refine ⟨h, fun w hw _ he => ?_⟩
    rw [he, hnone] at hw
    cases hw

theorem task_owner_before {β : Type} (c : Call β) {s : Service} {wormhole lan : Nat}
    (h : (.task wormhole, lan) ∈ (exec c s).2.owners) :
    (.task wormhole, lan) ∈ s.owners ∨ ∃ me, (⟨β, c⟩ : Σ β : Type, Call β) = ⟨_, .spawnTask me lan wormhole⟩ := by
  have hacquired : ∀ {u : Service} {me : Nat} {ids : List Nat}, u.owners = s.owners →
      (.task wormhole, lan) ∈ (u.acquire (.operation me) ids).owners → (.task wormhole, lan) ∈ s.owners := by
    intro u me ids hu hm
    rcases mem_acquire.mp hm with ⟨he, _⟩ | hm
    · cases he
    · rwa [hu] at hm
  cases c with
  | takeStale me => exact .inl (hacquired rfl h)
  | takeLan me other => exact .inl (hacquired rfl h)
  | drain me closes =>
    simp only [exec, Service.drain] at h
    split at h
    · exact .inl h
    · exact .inl (hacquired rfl h)
  | session me other =>
    simp only [exec, Service.session] at h
    split at h
    · exact .inl (hacquired rfl h)
    · exact .inl h
  | bindServer me => exact .inl (hacquired rfl h)
  | dropLan me other => exact .inl (mem_release.mp h).1
  | spawnTask me l other =>
    rcases List.mem_cons.mp h with he | hm
    · obtain ⟨ho, rfl⟩ := Prod.mk.inj he
      obtain rfl := Owner.task.inj ho
      exact .inr ⟨me, rfl⟩
    · exact .inl (List.mem_filter.mp hm).1
  | abortTask other => exact .inl (task_owners_endWork h).1
  | joinTask other => exact .inl (task_owners_endWork h).1
  | insertSession me other => exact .inl (by rwa [exec, Service.insertSession_owners] at h)
  | insertRelay other l => exact .inl (by rwa [exec, Service.insertRelay_owners] at h)
  | insertWormhole other => exact .inl (by rwa [exec, Service.insertWormhole_owners] at h)
  | setHandle other => exact .inl (by rwa [exec, Service.setHandle_owners] at h)
  | _ => exact .inl h

theorem LansKept.exec {s : Service} {H : Nat → Set Duty} (h : LansKept s H) (hw : WormholesKept s H)
    {β : Type} (c : Call β) {t : Holding} (hf : c.fits t) (ht : t.duties = H t.me) :
    LansKept (exec c s).2 (held H t.me c (exec c s).1) := by
  constructor
  · refine h.live.exec c hf fun id hid => ?_
    rw [ht] at hid
    exact .inr ⟨.operation t.me, (h.operations t.me id).mpr hid⟩
  · intro j id
    rw [operation_owners_exec c s hf, h.operations]
    constructor
    · rintro (⟨hd, hs⟩ | ⟨rfl, hg⟩)
      · by_cases hj : j = t.me
        · exact mem_held_of_mem hd (hs hj)
        · rwa [held_of_ne hj]
      · exact mem_held_of_gains hg
    · exact mem_of_mem_held
  · intro wormhole lan hm
    obtain hold | ⟨me, hspawn⟩ := task_owner_before c hm
    · obtain ⟨w, hws, hwork, hlan⟩ := h.tasks wormhole lan hold
      obtain ⟨w', hws', hch⟩ := changed_exec c hws (hw.drawn wormhole w hws)
      refine ⟨w', hws', ?_, hch.lan.trans hlan⟩
      rcases hch.task with he | ⟨hs | hs, _⟩ | ⟨_, he⟩
      · rw [he, hwork]
      · cases settledBy_of_mem hs with
        | joinTask id => exact absurd rfl ((task_owners_endWork hm).2 w hws hlan)
      · cases settledBy_of_mem hs with
        | abortTask id => exact absurd rfl ((task_owners_endWork hm).2 w hws hlan)
      · exact he
    · cases hspawn
      obtain ⟨_, hmade, _⟩ := hf
      rw [ht] at hmade
      obtain ⟨w, hws, hlan, _⟩ := hw.made t.me wormhole lan hmade
      refine ⟨{ w with task := some .working }, ?_, rfl, hlan⟩
      exact (Service.modifyWormhole_apply hws).trans (by rw [if_pos rfl])

theorem LansKept.tick {s s' : Service} {H : Nat → Set Duty} (h : LansKept s H) (ht : Tick s s') :
    LansKept s' H := by
  have hended : ∀ {id : Nat} {phase : TaskPhase}, LansKept (s.endWork id fun _ => phase) H := by
    intro id phase
    refine ⟨h.live.endWork id _, fun j lan => endWork_operation.trans (h.operations j lan), ?_⟩
    intro wormhole lan hm
    obtain ⟨hold, hne⟩ := task_owners_endWork hm
    obtain ⟨w, hws, hwork, hlan⟩ := h.tasks wormhole lan hold
    refine ⟨w, ?_, hwork, hlan⟩
    rw [Service.endWork_wormholes, Service.modifyWormhole_apply hws, if_neg (hne w hws hlan)]
  have hset : ∀ {u : Service} {id : Nat} {session : WormholeSession} {f : WormholeSession → WormholeSession},
      u.lans = s.lans → u.state.sessions = s.state.sessions → u.owners = s.owners →
      u.wormholes = s.wormholes → s.wormholes id = some session → session.task ≠ some .working →
      LansKept (u.modifyWormhole id f) H := by
    intro u id session f hl hs ho hu hsome hidle
    refine ⟨h.live.of_eq hl hs ho, fun j lan => ?_, fun wormhole lan hm => ?_⟩
    · show (_, _) ∈ u.owners ↔ _
      rw [ho]
      exact h.operations j lan
    · have hold : (.task wormhole, lan) ∈ s.owners := ho ▸ hm
      obtain ⟨w, hws, hwork, hlan⟩ := h.tasks wormhole lan hold
      have hne : wormhole ≠ id := by
        rintro rfl
        obtain rfl := Option.some.inj (hws.symm.trans hsome)
        exact hidle hwork
      exact ⟨w, by rw [Service.modifyWormhole_apply (by rw [hu, hws]), if_neg hne], hwork, hlan⟩
  cases ht with
  | finishes id session hs htask => exact hended
  | panics id session hs htask => exact hended
  | leaves id session hs htask => exact hset rfl rfl rfl rfl hs (by rw [htask]; decide)
  | marks id session hs htask => exact hset rfl rfl rfl rfl hs (by rw [htask]; decide)
  | stops id hc => exact ⟨h.live.of_eq rfl rfl rfl, h.operations, h.tasks⟩

/-! ### The closed service -/

/-- Nothing is registered. -/
structure Vacant (s : ServiceState) : Prop where
  sessions : s.sessions = []
  wormholes : s.wormholes = []
  sshRelays : s.sshRelays = []

/-- A service that has been closed has empty tables. -/
def ClosedVacant (s : ServiceState) : Prop := s.closed = true → Vacant s

theorem ClosedVacant.exec {s : Service} (h : ClosedVacant s.state) {β : Type} (c : Call β) :
    ClosedVacant (exec c s).2.state := by
  cases c with
  | takeStale me => exact fun hc => ⟨rfl, (h hc).wormholes, rfl⟩
  | takeLan me id =>
    intro hc
    have hv := h hc
    constructor
    · simp [JsonService.exec, Service.takeLan, hv.sessions]
    · exact hv.wormholes
    · simp [JsonService.exec, Service.takeLan, hv.sshRelays]
  | takeWormhole id =>
    intro hc
    have hv := h hc
    exact ⟨hv.sessions, by simp [JsonService.exec, Service.takeWormhole, hv.wormholes], hv.sshRelays⟩
  | takeRelay id =>
    intro hc
    have hv := h hc
    exact ⟨hv.sessions, hv.wormholes, by simp [JsonService.exec, Service.takeRelay, hv.sshRelays]⟩
  | drain me closes =>
    simp only [JsonService.exec, Service.drain]
    split
    · exact h
    · exact fun _ => ⟨rfl, rfl, rfl⟩
  | session me id => rwa [JsonService.exec, Service.session_state]
  | insertSession me id =>
    by_cases hc : s.state.closed = true
    · simpa only [JsonService.exec, Service.insertSession, if_pos hc] using h
    · simp only [JsonService.exec, Service.insertSession, if_neg hc]
      exact fun hopen => absurd hopen hc
  | insertRelay id lan =>
    simp only [JsonService.exec, Service.insertRelay]
    split
    · exact h
    · next hc =>
      simp only [Bool.or_eq_true, not_or] at hc
      exact fun hopen => absurd hopen hc.1
  | insertWormhole id =>
    by_cases hc : s.state.closed = true
    · simpa only [JsonService.exec, Service.insertWormhole, if_pos hc] using h
    · simp only [JsonService.exec, Service.insertWormhole, if_neg hc]
      exact fun hopen => absurd hopen hc
  | setHandle id => rwa [JsonService.exec, Service.setHandle_state]
  | dropLan me id => rwa [JsonService.exec, Service.release_state]
  | abortTask id => rwa [JsonService.exec, Service.joinTask, Service.endWork_state]
  | joinTask id => rwa [JsonService.exec, Service.joinTask, Service.endWork_state]
  | _ => exact h

theorem ClosedVacant.tick {s s' : Service} (h : ClosedVacant s.state) (ht : Tick s s') :
    ClosedVacant s'.state := by
  cases ht with
  | finishes id session hs htask => rwa [Service.endWork_state]
  | panics id session hs htask => rwa [Service.endWork_state]
  | leaves id session hs htask => exact h.exec (.takeWormhole id)
  | marks id session hs htask => exact h
  | stops id hc => exact h

/-- A service never opens again. -/
theorem closed_exec {β : Type} (c : Call β) {s : Service} (h : s.state.closed = true) :
    (exec c s).2.state.closed = true := by
  cases c with
  | drain me closes => simp only [exec, Service.drain, h, if_true]
  | session me id => rwa [exec, Service.session_state]
  | insertSession me id => simpa only [exec, Service.insertSession, if_pos h] using h
  | insertRelay id lan => simp only [exec, Service.insertRelay, h, Bool.true_or, if_true]
  | insertWormhole id => simpa only [exec, Service.insertWormhole, if_pos h] using h
  | setHandle id => rwa [exec, Service.setHandle_state]
  | dropLan me id => rwa [exec, Service.release_state]
  | abortTask id => rwa [exec, Service.joinTask, Service.endWork_state]
  | joinTask id => rwa [exec, Service.joinTask, Service.endWork_state]
  | _ => exact h

theorem closed_tick {s s' : Service} (ht : Tick s s') (h : s.state.closed = true) :
    s'.state.closed = true := by
  cases ht with
  | finishes id session hs htask => rwa [Service.endWork_state]
  | panics id session hs htask => rwa [Service.endWork_state]
  | leaves id session hs htask => exact h
  | marks id session hs htask => exact h
  | stops id hc => exact h

structure Kept (s : Service) (H : Nat → Set Duty) : Prop where
  closed : ClosedVacant s.state
  relays : RelaysKept s H
  wormholes : WormholesKept s H
  lans : LansKept s H

theorem kept_new : Kept .new fun _ => ∅ where
  closed h := by cases h
  relays _ _ h := by cases h
  wormholes :=
    { drawn := fun _ _ h => by cases h
      made := fun _ _ _ h => h.elim
      unique := fun _ _ _ _ _ h => h.elim
      inserted := fun _ _ h => h.elim
      working := fun _ _ h => by cases h }
  lans :=
    { live := fun _ _ h => by cases h
      operations := fun _ _ => ⟨fun h => absurd h List.not_mem_nil, fun h => h.elim⟩
      tasks := fun _ _ h => absurd h List.not_mem_nil }

theorem Kept.exec {s : Service} {H : Nat → Set Duty} (h : Kept s H) {β : Type} (c : Call β) {t : Holding}
    (hf : c.fits t) (ht : t.duties = H t.me) : Kept (exec c s).2 (held H t.me c (exec c s).1) where
  closed := h.closed.exec c
  relays := h.relays.exec c t.me
  wormholes := h.wormholes.exec c hf ht
  lans := h.lans.exec h.wormholes c hf ht

theorem Kept.tick {s s' : Service} {H : Nat → Set Duty} (h : Kept s H) (ht : Tick s s') : Kept s' H where
  closed := h.closed.tick ht
  relays := relays_tick h.relays ht
  wormholes := h.wormholes.tick ht
  lans := h.lans.tick ht

/-- A call that fails brings no duty and settles none. -/
theorem held_fault {H : Nat → Set Duty} {i : Nat} {β : Type} {c : Call β} {r : β}
    (hr : Shared.fault c = some r) : held H i c r = H := by
  have hsame : nextDuties (H i) c r = H i := by
    ext d
    cases c with
    | attempt => exact ⟨fun h => h.elim (fun h => h.1) fun h => h.elim, fun h => .inl ⟨h, fun hs => hs⟩⟩
    | bindServer me =>
      obtain rfl := Option.some.inj hr
      refine ⟨fun h => h.elim (fun h => h.1) ?_, fun h => .inl ⟨h, fun hs => hs⟩⟩
      rintro ⟨_, hn, _⟩
      cases hn
    | startDiscovery me id =>
      exact ⟨fun h => h.elim (fun h => h.1) fun h => h.elim, fun h => .inl ⟨h, fun hs => hs⟩⟩
    | startRelay lan =>
      obtain rfl := Option.some.inj hr
      refine ⟨fun h => h.elim (fun h => h.1) ?_, fun h => .inl ⟨h, fun hs => hs⟩⟩
      rintro ⟨_, hn, _⟩
      cases hn
    | _ => cases hr
  rw [held, hsame, Function.update_eq_self]

/-- What is kept at every step of a host, `τ` being what its operations hold. -/
structure Safe (m : Host) (τ : Nat → Holding) : Prop where
  me : ∀ i, (m.threads i).isSome → (τ i).me = i
  dead : ∀ i, m.threads i = none → (τ i).duties = ∅
  outside : ∀ i t, m.threads i = some t → t.history = [] → (τ i).entered = false
  idle : ∀ i, (τ i).entered = false → (τ i).duties = ∅
  kept : Kept m.world fun i => (τ i).duties

/-- A call that does not let an operation in brings it nothing. -/
theorem not_gained_outside {β : Type} {c : Call β} {r : β} (hk : c.knocks = true) (he : enters c r = false)
    (d : Duty) : d ∉ gains c r := by
  intro hg
  cases gainedBy_of_mem hg with
  | drainedLan me closes id =>
    obtain ⟨x, rfl, _⟩ := hg
    cases he
  | drainedWormhole me closes id =>
    obtain ⟨x, rfl, _⟩ := hg
    cases he
  | drainedRelay me closes id =>
    obtain ⟨x, rfl, _⟩ := hg
    cases he
  | _ => cases hk

theorem duties_update (τ : Nat → Holding) (i : Nat) {β : Type} (c : Call β) (r : β) :
    (fun j => (Function.update τ i (duteous.next (τ i) c r) j).duties) =
      held (fun j => (τ j).duties) i c r := by
  funext j
  by_cases hj : j = i
  · subst hj
    rw [Function.update_self, held_self]
    rfl
  · rw [Function.update_of_ne hj, held_of_ne hj]

section Steps

variable {m : Host} {τ : Nat → Holding} {i : Nat}

theorem Safe.start (h : Safe m τ) (hi : m.threads i = none)
    (p : Program Call (Except ServiceError Reply)) :
    Safe (m.start i p) (Function.update τ i (idleHolding i)) where
  me j hj := by
    by_cases he : j = i
    · subst he
      rw [Function.update_self]
      rfl
    · simp only [Machine.start, Function.update_of_ne he] at hj
      rw [Function.update_of_ne he]
      exact h.me j hj
  dead j hj := by
    by_cases he : j = i
    · subst he
      rw [Function.update_self]
      rfl
    · simp only [Machine.start, Function.update_of_ne he] at hj
      rw [Function.update_of_ne he]
      exact h.dead j hj
  outside j t hj hh := by
    by_cases he : j = i
    · subst he
      rw [Function.update_self]
      rfl
    · simp only [Machine.start, Function.update_of_ne he] at hj
      rw [Function.update_of_ne he]
      exact h.outside j t hj hh
  idle j hj := by
    by_cases he : j = i
    · subst he
      rw [Function.update_self]
      rfl
    · rw [Function.update_of_ne he] at hj ⊢
      exact h.idle j hj
  kept := by
    have hsame : (fun j => (Function.update τ i (idleHolding i) j).duties) = fun j => (τ j).duties := by
      funext j
      by_cases he : j = i
      · subst he
        rw [Function.update_self, h.dead j hi]
        rfl
      · rw [Function.update_of_ne he]
    rw [hsame]
    exact h.kept

/-- A step of one operation, whatever it does to the service. -/
theorem Safe.advance (h : Safe m τ) {β : Type} {c : Call β}
    {k : β → Program Call (Except ServiceError Reply)} {history : List Mark}
    (hi : m.threads i = some ⟨.call c k, history⟩) (ha : duteous.allowed (τ i) c) (r : β) (s : Service)
    (hk : Kept s (held (fun j => (τ j).duties) i c r)) :
    Safe (m.advance i c k history r s) (Function.update τ i (duteous.next (τ i) c r)) where
  me j hj := by
    by_cases he : j = i
    · subst he
      rw [Function.update_self]
      exact h.me j (by rw [hi]; rfl)
    · simp only [Machine.advance, Function.update_of_ne he] at hj
      rw [Function.update_of_ne he]
      exact h.me j hj
  dead j hj := by
    by_cases he : j = i
    · subst he
      simp only [Machine.advance, Function.update_self] at hj
      cases hj
    · simp only [Machine.advance, Function.update_of_ne he] at hj
      rw [Function.update_of_ne he]
      exact h.dead j hj
  outside j t hj hh := by
    by_cases he : j = i
    · subst he
      simp only [Machine.advance, Function.update_self] at hj
      obtain rfl := Option.some.inj hj
      obtain ⟨hhist, heff⟩ := List.append_eq_nil_iff.mp hh
      have hout := h.outside j _ hi hhist
      rw [Function.update_self]
      simp only [duteous, hout, Bool.false_or, enters, heff, List.isEmpty_nil, Bool.not_true]
    · simp only [Machine.advance, Function.update_of_ne he] at hj
      rw [Function.update_of_ne he]
      exact h.outside j t hj hh
  idle j hj := by
    by_cases he : j = i
    · subst he
      rw [Function.update_self] at hj ⊢
      obtain ⟨hout, hent⟩ := Bool.or_eq_false_iff.mp hj
      have hknock : c.knocks = true := ha.1.resolve_left (by rw [hout]; decide)
      exact settled_next (h.idle j hout) (not_gained_outside hknock hent)
    · rw [Function.update_of_ne he] at hj ⊢
      exact h.idle j hj
  kept := by
    rw [duties_update]
    exact hk

theorem Safe.stop (h : Safe m τ) (hd : (τ i).duties = ∅) : Safe (m.stop i) τ where
  me j hj := by
    by_cases he : j = i
    · subst he
      simp [Machine.stop] at hj
    · simp only [Machine.stop, Function.update_of_ne he] at hj
      exact h.me j hj
  dead j hj := by
    by_cases he : j = i
    · rw [he]
      exact hd
    · simp only [Machine.stop, Function.update_of_ne he] at hj
      exact h.dead j hj
  outside j t hj hh := by
    by_cases he : j = i
    · subst he
      simp [Machine.stop] at hj
    · simp only [Machine.stop, Function.update_of_ne he] at hj
      exact h.outside j t hj hh
  idle := h.idle
  kept := h.kept

end Steps

theorem safe_new : Safe (init .new) fun i => idleHolding i where
  me _ hi := by cases hi
  dead _ _ := rfl
  outside _ _ hi := by cases hi
  idle _ _ := rfl
  kept := kept_new

/-- No step of a host leaves anything running that nobody keeps. -/
theorem safe_preserved : Preserved duteous (fun _ => Settled) Serves Safe where
  spawn m τ i p _ h hr hi := by
    obtain ⟨op, rfl⟩ := hr
    exact ⟨idleHolding i, follows_operation op i, fun _ hl => hl, h.start hi _⟩
  call m τ i c k history ha h _ hi _ := by
    obtain ⟨hallowed, _⟩ := ha.follows i _ hi
    have hme := h.me i (by rw [hi]; rfl)
    have hkept := h.kept.exec c hallowed.2 (by rw [hme])
    rw [hme] at hkept
    exact h.advance hi hallowed _ _ hkept
  fault m τ i c k history r ha h _ hi _ hr := by
    obtain ⟨hallowed, _⟩ := ha.follows i _ hi
    refine h.advance hi hallowed r m.world ?_
    rw [held_fault hr]
    exact h.kept
  finish m τ i a history ha h _ hi := h.stop (ha.follows i _ hi)
  abort _ _ _ _ _ hr _ := hr.elim
  crash _ _ _ _ hr := hr.elim
  outside m τ s _ h hr := ⟨h.me, h.dead, h.outside, h.idle, h.kept.tick hr⟩

theorem closed_reachable {m m' : Host} (hr : Reachable Serves m m') (hc : m.world.state.closed = true) :
    m'.world.state.closed = true := by
  induction hr with
  | refl => exact hc
  | step _ ha hs ih =>
    obtain he | ⟨s, rfl, he⟩ | ⟨i, β, c, k, history, _, he⟩ := step_world hs
    · rwa [he]
    · rw [he]
      exact closed_tick ha ih
    · rw [he]
      exact closed_exec c ih

/-- An operation that has found the service open, and has not returned. -/
def InFlight (m : Host) (i : Nat) : Prop := ∃ t, m.threads i = some t ∧ t.history ≠ []

/-- Nothing runs any more of what operations have made: no server and no discovery of a session,
no relay, and no task of a wormhole. -/
structure Still (s : Service) : Prop where
  lans : ∀ id l, s.lans id = some l → l.server = false ∧ l.discovery ≠ some true
  relays : ∀ id r, s.relays id = some r → r.running = false
  tasks : ∀ id w, s.wormholes id = some w → w.task ≠ some .working

/-- Without operations that owe anything, and without anything registered, nothing runs. -/
theorem Kept.still {s : Service} {H : Nat → Set Duty} (h : Kept s H) (hv : Vacant s.state)
    (hd : ∀ j d, d ∉ H j) : Still s := by
  have htasks : ∀ id w, s.wormholes id = some w → w.task ≠ some .working := by
    intro id w hw hworks
    cases h.wormholes.working id w hw hworks with
    | registered w₀ hw₀ hh hreg =>
      rw [hv.wormholes] at hreg
      exact absurd hreg List.not_mem_nil
    | closing w₀ j hw₀ hh hj => exact hd j _ hj
    | taking w₀ j hw₀ hh hj => exact hd j _ hj
    | giving j hj hatt => exact hd j _ hj
    | joining j hj => exact hd j _ hj
    | aborting j hj => exact hd j _ hj
  refine ⟨fun id l hl => ?_, fun id r hr => ?_, htasks⟩
  · have hnot : l.running ≠ true := by
      intro hrun
      rcases h.lans.live id l hl hrun with hreg | ⟨owner, ho⟩
      · rw [hv.sessions] at hreg
        exact absurd hreg List.not_mem_nil
      · cases owner with
        | operation j => exact hd j _ ((h.lans.operations j id).mp ho)
        | task wormhole =>
          obtain ⟨w, hw, hworks, _⟩ := h.lans.tasks wormhole id ho
          exact htasks wormhole w hw hworks
    simp only [LanSession.running, ne_eq, Bool.or_eq_true, beq_iff_eq, not_or] at hnot
    exact ⟨Bool.eq_false_iff.mpr hnot.1, hnot.2⟩
  · by_contra hrun
    rcases h.relays id r hr (Bool.eq_true_of_not_eq_false hrun) with ⟨lan, hreg⟩ | ⟨j, hj⟩
    · rw [hv.sshRelays] at hreg
      exact absurd hreg List.not_mem_nil
    · exact hd j _ hj

/-- Once a service is closed, which `close` does in the section where it empties the tables, nothing
is registered in it, now or later; and when no operation is in flight any more, `close` being one,
nothing runs of what any of them had made. -/
theorem closed_for_good {m : Host} (hr : Reachable Serves (init .new) m) (hc : m.world.state.closed = true) :
    (∀ m', Reachable Serves m m' → m'.world.state.closed = true ∧ Vacant m'.world.state) ∧
      ((∀ i, ¬ InFlight m i) → Still m.world) := by
  have hvacant : ∀ m', Reachable Serves (init .new) m' → m'.world.state.closed = true →
      Vacant m'.world.state := by
    intro m' hr' hc'
    obtain ⟨τ, _, hsafe⟩ := safe_preserved.reachable duteous_locking safe_new hr'
    exact hsafe.kept.closed hc'
  constructor
  · intro m' hr'
    have hc' := closed_reachable hr' hc
    exact ⟨hc', hvacant m' (hr.trans hr') hc'⟩
  · intro hidle
    obtain ⟨τ, _, hsafe⟩ := safe_preserved.reachable duteous_locking safe_new hr
    refine hsafe.kept.still (hvacant m hr hc) fun j d hd => ?_
    have hnone : (τ j).duties = ∅ := by
      cases ht : m.threads j with
      | none => exact hsafe.dead j ht
      | some t =>
        have hhist : t.history = [] := by_contra fun hne => hidle j ⟨t, ht, hne⟩
        exact hsafe.idle j (hsafe.outside j t ht hhist)
    rw [hnone] at hd
    exact hd

/-! ### A run -/

def Move.thread : Move → Nat
  | .starts i _ => i
  | .goes i => i
  | .fails i => i
  | .returns i => i

/-- A move concerns one operation. -/
theorem step_other {m m' : Host} {move : Move} (h : m.step move.action = some m') {j : Nat}
    (hj : j ≠ move.thread) : m'.threads j = m.threads j := by
  cases move with
  | starts i op =>
    simp only [Move.action, Machine.step] at h
    split at h
    · obtain rfl := Option.some.inj h
      exact Function.update_of_ne hj _ _
    · cases h
  | goes i =>
    simp only [Move.action, Machine.step] at h
    split at h
    · split at h
      · obtain rfl := Option.some.inj h
        exact Function.update_of_ne hj _ _
      · cases h
    · cases h
  | fails i =>
    simp only [Move.action, Machine.step] at h
    split at h
    · split at h
      · split at h
        · obtain rfl := Option.some.inj h
          exact Function.update_of_ne hj _ _
        · cases h
      · cases h
    · cases h
  | returns i =>
    simp only [Move.action, Machine.step] at h
    split at h
    · obtain rfl := Option.some.inj h
      exact Function.update_of_ne hj _ _
    · cases h

theorem run_other {m m' : Host} {moves : List Move} (h : m.runActions (moves.map Move.action) = some m')
    {j : Nat} (hj : ∀ move ∈ moves, j ≠ move.thread) : m'.threads j = m.threads j := by
  induction moves generalizing m with
  | nil =>
    obtain rfl := Option.some.inj h
    rfl
  | cons move moves ih =>
    obtain ⟨m₁, hs, hr⟩ := Option.bind_eq_some_iff.mp h
    rw [ih hr fun other ho => hj other (List.mem_cons_of_mem move ho)]
    exact step_other hs (hj move List.mem_cons_self)

/-- A wormhole is opened while the service closes: it is refused, and the session of the network
is closed. -/
def Sample.closing : List Move :=
  [.starts 0 (.lanStart Sample.params), .goes 0, .goes 0, .goes 0, .goes 0, .goes 0, .goes 0, .returns 0,
    .starts 1 (.wormholeJoin (.lan 0) false), .goes 1, .goes 1, .goes 1,
    .starts 2 .close, .goes 2, .goes 2,
    .goes 1, .goes 1, .goes 1, .returns 1,
    .goes 2, .goes 2, .goes 2, .goes 2, .goes 2, .goes 2, .returns 2]

theorem closed_for_good_sample : ∃ m : Host,
    (init .new : Host).runActions (Sample.closing.map Move.action) = some m ∧
      m.world.lans 0 ≠ none ∧ m.world.wormholes 1 ≠ none ∧ Vacant m.world.state ∧ Still m.world := by
  have hrun : (((init .new : Host).runActions (Sample.closing.map Move.action)).map fun m =>
      (m.world.state.closed, (m.world.lans 0).isSome, (m.world.wormholes 1).isSome,
        (List.range 3).all fun i => (m.threads i).isNone)) = some (true, true, true, true) := by
    decide +kernel
  obtain ⟨m, hm, he⟩ := Option.map_eq_some_iff.mp hrun
  simp only [Prod.mk.injEq] at he
  obtain ⟨hclosed, hlan, hwormhole, hthreads⟩ := he
  have hreach : Reachable Serves (init .new) m :=
    Reachable.refl.runActions (fun a ha m => by
      obtain ⟨move, _, rfl⟩ := List.mem_map.mp ha
      exact serves_move m move) hm
  have hidle : ∀ i, ¬ InFlight m i := by
    rintro i ⟨t, ht, _⟩
    by_cases hi : i < 3
    · have hnone := List.all_eq_true.mp hthreads i (List.mem_range.mpr hi)
      rw [ht] at hnone
      cases hnone
    · have hother : ∀ move ∈ Sample.closing, i ≠ move.thread := by
        intro move hmove he
        have hall : ∀ move ∈ Sample.closing, move.thread < 3 := by decide
        exact hi (he ▸ hall move hmove)
      rw [run_other hm hother] at ht
      cases ht
  obtain ⟨hlater, hstill⟩ := closed_for_good hreach hclosed
  refine ⟨m, hm, ?_, ?_, (hlater m .refl).2, hstill hidle⟩
  · exact Option.isSome_iff_ne_none.mp hlan
  · exact Option.isSome_iff_ne_none.mp hwormhole

end JsonService

end InkHole
