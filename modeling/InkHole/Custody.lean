import InkHole.Duties

/-! Relays and wormholes in custody: every one that runs is in its table, or some operation owes its
end. -/

namespace InkHole

open Machine

namespace JsonService

/-- What the operations owe after a call of one of them. -/
def held {β : Type} (H : Nat → Set Duty) (i : Nat) (c : Call β) (r : β) : Nat → Set Duty :=
  Function.update H i (nextDuties (H i) c r)

section Held

variable {β : Type} {H : Nat → Set Duty} {i j : Nat} {c : Call β} {r : β} {d : Duty}

theorem held_self : held H i c r i = nextDuties (H i) c r := Function.update_self ..

theorem held_of_ne (h : j ≠ i) : held H i c r j = H j := Function.update_of_ne h ..

theorem mem_held_of_gains (h : d ∈ gains c r) : d ∈ held H i c r i := by
  rw [held_self]
  exact .inr h

theorem mem_held_of_mem (h : d ∈ H j) (hs : d ∉ settles c r) : d ∈ held H i c r j := by
  by_cases hj : j = i
  · subst hj
    rw [held_self]
    exact .inl ⟨h, hs⟩
  · rwa [held_of_ne hj]

theorem mem_of_mem_held (h : d ∈ held H i c r j) :
    (d ∈ H j ∧ (j = i → d ∉ settles c r)) ∨ j = i ∧ d ∈ gains c r := by
  by_cases hj : j = i
  · subst hj
    rw [held_self] at h
    exact h.imp (fun h => ⟨h.1, fun _ => h.2⟩) fun h => ⟨rfl, h⟩
  · rw [held_of_ne hj] at h
    exact .inl ⟨h, fun he => absurd he hj⟩

/-- Nobody has the duty any more that is settled. -/
theorem mem_held_or (h : d ∈ H j) : d ∈ held H i c r j ∨ d ∈ settles c r := by
  by_cases hs : d ∈ settles c r
  · exact .inr hs
  · exact .inl (mem_held_of_mem h hs)

end Held

namespace Service

variable {s : Service} {id other : Nat}

theorem modifyLan_lans {f : LanSession → LanSession} {l : LanSession}
    (h : (s.modifyLan id f).lans other = some l) :
    (other = id ∧ ∃ l₀, s.lans other = some l₀ ∧ l = f l₀) ∨ (other ≠ id ∧ s.lans other = some l) := by
  by_cases ho : other = id
  · subst ho
    simp only [modifyLan, Function.update_self, Option.map_eq_some_iff] at h
    obtain ⟨l₀, hl₀, rfl⟩ := h
    exact .inl ⟨rfl, l₀, hl₀, rfl⟩
  · simp only [modifyLan, Function.update_of_ne ho] at h
    exact .inr ⟨ho, h⟩

theorem modifyRelay_relays {f : SshRelaySession → SshRelaySession} {r : SshRelaySession}
    (h : (s.modifyRelay id f).relays other = some r) :
    (other = id ∧ ∃ r₀, s.relays other = some r₀ ∧ r = f r₀) ∨ (other ≠ id ∧ s.relays other = some r) := by
  by_cases ho : other = id
  · subst ho
    simp only [modifyRelay, Function.update_self, Option.map_eq_some_iff] at h
    obtain ⟨r₀, hr₀, rfl⟩ := h
    exact .inl ⟨rfl, r₀, hr₀, rfl⟩
  · simp only [modifyRelay, Function.update_of_ne ho] at h
    exact .inr ⟨ho, h⟩

theorem modifyWormhole_wormholes {f : WormholeSession → WormholeSession} {w : WormholeSession}
    (h : (s.modifyWormhole id f).wormholes other = some w) :
    (other = id ∧ ∃ w₀, s.wormholes other = some w₀ ∧ w = f w₀) ∨
      (other ≠ id ∧ s.wormholes other = some w) := by
  by_cases ho : other = id
  · subst ho
    simp only [modifyWormhole, Function.update_self, Option.map_eq_some_iff] at h
    obtain ⟨w₀, hw₀, rfl⟩ := h
    exact .inl ⟨rfl, w₀, hw₀, rfl⟩
  · simp only [modifyWormhole, Function.update_of_ne ho] at h
    exact .inr ⟨ho, h⟩

end Service

/-! ### The relays -/

/-- A relay that runs is registered, or somebody has to close it. -/
def RelaysKept (s : Service) (H : Nat → Set Duty) : Prop :=
  ∀ id r, s.relays id = some r → r.running = true →
    (∃ lan, (id, lan) ∈ s.state.sshRelays) ∨ ∃ j, .relay id ∈ H j

/-- The calls that concern single relays. -/
def Call.ofRelay {β : Type} : Call β → Bool
  | .startRelay _ => true
  | .cancelRelay _ => true
  | .joinRelay _ => true
  | _ => false

theorem exec_relays {β : Type} (c : Call β) (s : Service) (h : c.ofRelay = false) :
    (exec c s).2.relays = s.relays := by
  cases c with
  | startRelay lan => cases h
  | cancelRelay id => cases h
  | joinRelay id => cases h
  | drain me closes => exact Service.drain_relays s me closes
  | session me id => exact Service.session_relays s me id
  | insertSession me id => exact Service.insertSession_relays s id
  | insertRelay id lan => exact Service.insertRelay_relays s id lan
  | insertWormhole id => exact Service.insertWormhole_relays s id
  | setHandle id => exact Service.setHandle_relays s id
  | dropLan me id => exact Service.release_relays s _ id
  | abortTask id => exact Service.endWork_relays s id _
  | joinTask id => exact Service.endWork_relays s id _
  | _ => rfl

/-- A call starts a relay only as a duty. -/
theorem relay_running_exec {β : Type} (c : Call β) (s : Service) {id : Nat} {r : SshRelaySession}
    (h : (exec c s).2.relays id = some r) (hr : r.running = true) :
    .relay id ∈ gains c (exec c s).1 ∨ ∃ r₀, s.relays id = some r₀ ∧ r₀.running = true := by
  cases hc : c.ofRelay with
  | false =>
    rw [exec_relays c s hc] at h
    exact .inr ⟨r, h, hr⟩
  | true =>
    cases c with
    | startRelay lan =>
      by_cases hid : id = s.drawn
      · subst hid
        exact .inl ⟨s.drawn, rfl, rfl⟩
      · simp only [exec, Service.startRelay, Function.update_of_ne hid] at h
        exact .inr ⟨r, h, hr⟩
    | cancelRelay other =>
      obtain ⟨rfl, r₀, hr₀, rfl⟩ | ⟨_, h⟩ := Service.modifyRelay_relays h
      · exact .inr ⟨r₀, hr₀, hr⟩
      · exact .inr ⟨r, h, hr⟩
    | joinRelay other =>
      obtain ⟨rfl, r₀, hr₀, rfl⟩ | ⟨_, h⟩ := Service.modifyRelay_relays h
      · cases hr
      · exact .inr ⟨r, h, hr⟩
    | _ => cases hc

/-- The calls that take relays out of their table, or put one in. -/
def Call.movesRelays {β : Type} : Call β → Bool
  | .takeStale _ => true
  | .takeLan _ _ => true
  | .takeRelay _ => true
  | .drain _ _ => true
  | .insertRelay _ _ => true
  | _ => false

theorem exec_sshRelays {β : Type} (c : Call β) (s : Service) (h : c.movesRelays = false) :
    (exec c s).2.state.sshRelays = s.state.sshRelays := by
  cases c with
  | takeStale me => cases h
  | takeLan me id => cases h
  | takeRelay id => cases h
  | drain me closes => cases h
  | insertRelay id lan => cases h
  | session me id => exact congrArg _ (Service.session_state s me id)
  | insertSession me id =>
    simp only [exec, Service.insertSession]
    split
    · rfl
    · rfl
  | insertWormhole id =>
    simp only [exec, Service.insertWormhole]
    split
    · rfl
    · rfl
  | setHandle id => exact congrArg _ (Service.setHandle_state s id)
  | dropLan me id => exact congrArg _ (Service.release_state s _ id)
  | abortTask id => exact congrArg _ (Service.endWork_state s id _)
  | joinTask id => exact congrArg _ (Service.endWork_state s id _)
  | _ => rfl

/-- A relay that leaves the table becomes a duty of the one who takes it out. -/
theorem relay_registered_exec {β : Type} (c : Call β) (s : Service) {id lan : Nat}
    (h : (id, lan) ∈ s.state.sshRelays) :
    (id, lan) ∈ (exec c s).2.state.sshRelays ∨ .relay id ∈ gains c (exec c s).1 := by
  cases hc : c.movesRelays with
  | false =>
    rw [exec_sshRelays c s hc]
    exact .inl h
  | true =>
    cases c with
    | takeStale me => exact .inr (.inr ⟨id, List.mem_map.mpr ⟨_, h, rfl⟩, rfl⟩)
    | takeLan me other =>
      by_cases hl : lan = other
      · refine .inr (.inr ⟨id, List.mem_map.mpr ⟨(id, lan), List.mem_filter.mpr ⟨h, ?_⟩, rfl⟩, rfl⟩)
        simpa using hl
      · exact .inl (List.mem_filter.mpr ⟨h, by simpa using hl⟩)
    | takeRelay other =>
      by_cases hid : id = other
      · subst hid
        exact .inr ⟨List.any_eq_true.mpr ⟨_, h, by simp⟩, rfl⟩
      · exact .inl (List.mem_filter.mpr ⟨h, by simpa using hid⟩)
    | drain me closes =>
      simp only [exec, Service.drain]
      split
      · exact .inl h
      · exact .inr ⟨_, rfl, .inr (.inr ⟨id, List.mem_map.mpr ⟨_, h, rfl⟩, rfl⟩)⟩
    | insertRelay other l =>
      simp only [exec, Service.insertRelay]
      split
      · exact .inl h
      · exact .inl (List.mem_insert_of_mem h)
    | _ => cases hc

/-- The duty for a relay is settled when it is registered, or has been closed. -/
theorem relay_settled_exec {β : Type} (c : Call β) (s : Service) {id : Nat}
    (h : .relay id ∈ settles c (exec c s).1) :
    (∃ lan, (id, lan) ∈ (exec c s).2.state.sshRelays) ∨
      ∀ r, (exec c s).2.relays id = some r → r.running = false := by
  cases settledBy_of_mem h with
  | insertRelay id lan =>
    refine .inl ⟨lan, ?_⟩
    have hr := h.1
    simp only [exec, Service.insertRelay] at hr ⊢
    split
    · next hc => simp [hc] at hr
    · exact List.mem_insert_self
  | joinRelay id =>
    refine .inr fun r hr => ?_
    obtain ⟨_, r₀, _, rfl⟩ | ⟨hne, _⟩ := Service.modifyRelay_relays hr
    · rfl
    · exact absurd rfl hne

theorem RelaysKept.exec {s : Service} {H : Nat → Set Duty} (h : RelaysKept s H) {β : Type} (c : Call β)
    (i : Nat) : RelaysKept (exec c s).2 (held H i c (exec c s).1) := by
  intro id r hr hrun
  obtain hg | ⟨r₀, hr₀, hrun₀⟩ := relay_running_exec c s hr hrun
  · exact .inr ⟨i, mem_held_of_gains hg⟩
  obtain ⟨lan, hreg⟩ | ⟨j, hj⟩ := h id r₀ hr₀ hrun₀
  · obtain hreg | hg := relay_registered_exec c s hreg
    · exact .inl ⟨lan, hreg⟩
    · exact .inr ⟨i, mem_held_of_gains hg⟩
  · obtain hj | hs := mem_held_or hj
    · exact .inr ⟨j, hj⟩
    · obtain hreg | hoff := relay_settled_exec c s hs
      · exact .inl hreg
      · rw [hoff r hr] at hrun
        cases hrun

theorem relays_tick {s s' : Service} {H : Nat → Set Duty} (h : RelaysKept s H) (ht : Tick s s') :
    RelaysKept s' H := by
  intro id r hr hrun
  cases ht with
  | stops other hc =>
    obtain ⟨rfl, r₀, hr₀, rfl⟩ | ⟨_, hr⟩ := Service.modifyRelay_relays hr
    · cases hrun
    · exact h id r hr hrun
  | finishes other session hs hw => simpa using h id r (by simpa using hr) hrun
  | panics other session hs hw => simpa using h id r (by simpa using hr) hrun
  | leaves other session hs hw => exact h id r hr hrun
  | marks other session hs hw => exact h id r hr hrun

/-! ### The wormholes -/

/-- A wormhole that is registered, or cancelled, or that somebody has to close. -/
def Attended (s : Service) (H : Nat → Set Duty) (id : Nat) : Prop :=
  (∃ w, s.wormholes id = some w ∧ w.cancelled = true) ∨ id ∈ s.state.wormholes ∨ ∃ j, .closing id ∈ H j

/-- A task that somebody waits for or will: the session has its handle and will be closed, or gets
the handle yet, or somebody else has taken it. -/
inductive Watched (s : Service) (H : Nat → Set Duty) (id : Nat) : Prop where
  | registered (w : WormholeSession) : s.wormholes id = some w → w.handle = true →
    id ∈ s.state.wormholes → Watched s H id
  | closing (w : WormholeSession) (j : Nat) : s.wormholes id = some w → w.handle = true →
    .closing id ∈ H j → Watched s H id
  | taking (w : WormholeSession) (j : Nat) : s.wormholes id = some w → w.handle = true →
    .taking id ∈ H j → Watched s H id
  | giving (j : Nat) : .giving id ∈ H j → Attended s H id → Watched s H id
  | joining (j : Nat) : .joining id ∈ H j → Watched s H id
  | aborting (j : Nat) : .aborting id ∈ H j → Watched s H id

structure WormholesKept (s : Service) (H : Nat → Set Duty) : Prop where
  drawn : ∀ id w, s.wormholes id = some w → id < s.drawn
  made : ∀ j id lan, .made id lan ∈ H j → ∃ w, s.wormholes id = some w ∧ w.lanSessionId = lan ∧ w.task = none
  unique : ∀ j k id lan lan', .made id lan ∈ H j → .made id lan' ∈ H k → j = k
  inserted : ∀ j id, .inserted id ∈ H j → (∃ lan, .made id lan ∈ H j) ∧ Attended s H id
  working : ∀ id w, s.wormholes id = some w → w.task = some .working → Watched s H id

/-- The calls that concern wormholes. -/
def Call.ofWormhole {β : Type} : Call β → Bool
  | .takeWormhole _ => true
  | .drain _ _ => true
  | .newWormhole _ => true
  | .insertWormhole _ => true
  | .dropWormhole _ => true
  | .spawnTask _ _ _ => true
  | .setHandle _ => true
  | .abortTask _ => true
  | .cancelWormhole _ => true
  | .takeHandle _ => true
  | .joinTask _ => true
  | _ => false

theorem exec_wormholes {β : Type} (c : Call β) (s : Service) (h : c.ofWormhole = false) :
    (exec c s).2.wormholes = s.wormholes := by
  cases c with
  | session me id => exact Service.session_wormholes s me id
  | insertSession me id => exact Service.insertSession_wormholes s id
  | insertRelay id lan => exact Service.insertRelay_wormholes s id lan
  | dropLan me id => exact Service.release_wormholes s _ id
  | takeWormhole id => cases h
  | drain me closes => cases h
  | newWormhole lan => cases h
  | insertWormhole id => cases h
  | dropWormhole id => cases h
  | spawnTask me lan id => cases h
  | setHandle id => cases h
  | abortTask id => cases h
  | cancelWormhole id => cases h
  | takeHandle id => cases h
  | joinTask id => cases h
  | _ => rfl

theorem exec_registered {β : Type} (c : Call β) (s : Service) (h : c.ofWormhole = false) :
    (exec c s).2.state.wormholes = s.state.wormholes := by
  cases c with
  | session me id => exact congrArg _ (Service.session_state s me id)
  | insertSession me id =>
    simp only [exec, Service.insertSession]
    split
    · rfl
    · rfl
  | insertRelay id lan =>
    simp only [exec, Service.insertRelay]
    split
    · rfl
    · rfl
  | dropLan me id => exact congrArg _ (Service.release_state s _ id)
  | takeWormhole id => cases h
  | drain me closes => cases h
  | newWormhole lan => cases h
  | insertWormhole id => cases h
  | dropWormhole id => cases h
  | spawnTask me lan id => cases h
  | setHandle id => cases h
  | abortTask id => cases h
  | cancelWormhole id => cases h
  | takeHandle id => cases h
  | joinTask id => cases h
  | _ => rfl

theorem drawn_exec {β : Type} (c : Call β) (s : Service) : s.drawn ≤ (exec c s).2.drawn := by
  cases c with
  | bindServer me => exact Nat.le_succ _
  | startRelay lan => exact Nat.le_succ _
  | newWormhole lan => exact Nat.le_succ _
  | drain me closes => exact (Service.drain_drawn s me closes).ge
  | session me id => exact (Service.session_drawn s me id).ge
  | insertSession me id => exact (Service.insertSession_drawn s id).ge
  | insertRelay id lan => exact (Service.insertRelay_drawn s id lan).ge
  | insertWormhole id => exact (Service.insertWormhole_drawn s id).ge
  | setHandle id => exact (Service.setHandle_drawn s id).ge
  | dropLan me id => exact (Service.release_drawn s _ id).ge
  | abortTask id => exact (Service.endWork_drawn s id _).ge
  | joinTask id => exact (Service.endWork_drawn s id _).ge
  | _ => exact Nat.le_refl _

theorem Service.modifyWormhole_apply {s : Service} {id other : Nat} {f : WormholeSession → WormholeSession}
    {w : WormholeSession} (h : s.wormholes other = some w) :
    (s.modifyWormhole id f).wormholes other = some (if other = id then f w else w) := by
  by_cases ho : other = id
  · subst ho
    simp only [Service.modifyWormhole, Function.update_self, h, Option.map_some, if_true]
  · simp only [Service.modifyWormhole, Function.update_of_ne ho, h, if_neg ho]

/-- What a call leaves of a wormhole. -/
structure Changed {β : Type} (c : Call β) (r : β) (id : Nat) (w w' : WormholeSession) : Prop where
  lan : w'.lanSessionId = w.lanSessionId
  cancelled : w.cancelled = true → w'.cancelled = true
  handle : w.handle = true → w'.handle = true ∨ .joining id ∈ gains c r
  task : w'.task = w.task ∨
    ((.joining id ∈ settles c r ∨ .aborting id ∈ settles c r) ∧ w'.task = w.task.map TaskPhase.joined) ∨
      (.giving id ∈ gains c r ∧ w'.task = some .working)

theorem Changed.refl {β : Type} (c : Call β) (r : β) (id : Nat) (w : WormholeSession) :
    Changed c r id w w := ⟨rfl, fun h => h, .inl, .inl rfl⟩

theorem Changed.ite {β : Type} {c : Call β} {r : β} {id other : Nat} {w w' : WormholeSession}
    (h : id = other → Changed c r id w w') : Changed c r id w (if id = other then w' else w) := by
  by_cases ho : id = other
  · rw [if_pos ho]
    exact h ho
  · rw [if_neg ho]
    exact .refl c r id w

theorem changed_exec {β : Type} (c : Call β) {s : Service} {id : Nat} {w : WormholeSession}
    (hw : s.wormholes id = some w) (hid : id < s.drawn) :
    ∃ w', (exec c s).2.wormholes id = some w' ∧ Changed c (exec c s).1 id w w' := by
  cases hc : c.ofWormhole with
  | false =>
    rw [exec_wormholes c s hc]
    exact ⟨w, hw, .refl _ _ _ _⟩
  | true =>
    cases c with
    | takeWormhole other => exact ⟨w, hw, .refl _ _ _ _⟩
    | drain me closes => exact ⟨w, by rw [exec, Service.drain_wormholes, hw], .refl _ _ _ _⟩
    | newWormhole lan =>
      refine ⟨w, ?_, .refl _ _ _ _⟩
      simp only [exec, Service.newWormhole, Function.update_of_ne (Nat.ne_of_lt hid), hw]
    | insertWormhole other => exact ⟨w, by rw [exec, Service.insertWormhole_wormholes, hw], .refl _ _ _ _⟩
    | dropWormhole other =>
      exact ⟨_, Service.modifyWormhole_apply hw, .ite fun _ => ⟨rfl, fun _ => rfl, .inl, .inl rfl⟩⟩
    | spawnTask me lan other =>
      refine ⟨_, Service.modifyWormhole_apply hw, .ite fun ho => ⟨rfl, fun h => h, .inl, ?_⟩⟩
      exact .inr (.inr ⟨congrArg Duty.giving ho, rfl⟩)
    | setHandle other =>
      simp only [exec, Service.setHandle]
      split
      · exact ⟨w, hw, .refl _ _ _ _⟩
      · exact ⟨_, Service.modifyWormhole_apply hw, .ite fun _ => ⟨rfl, fun h => h, fun _ => .inl rfl, .inl rfl⟩⟩
    | abortTask other =>
      simp only [exec, Service.joinTask, Service.endWork_wormholes]
      refine ⟨_, Service.modifyWormhole_apply hw, .ite fun ho => ⟨rfl, fun h => h, .inl, ?_⟩⟩
      exact .inr (.inl ⟨.inr (congrArg Duty.aborting ho), rfl⟩)
    | cancelWormhole other =>
      exact ⟨_, Service.modifyWormhole_apply hw, .ite fun _ => ⟨rfl, fun _ => rfl, .inl, .inl rfl⟩⟩
    | takeHandle other =>
      refine ⟨_, Service.modifyWormhole_apply hw, .ite fun ho => ⟨rfl, fun h => h, fun hh => .inr ?_, .inl rfl⟩⟩
      subst ho
      exact ⟨by simp only [exec, Service.takeHandle, hw, Option.any_some, hh], rfl⟩
    | joinTask other =>
      simp only [exec, Service.joinTask, Service.endWork_wormholes]
      refine ⟨_, Service.modifyWormhole_apply hw, .ite fun ho => ⟨rfl, fun h => h, .inl, ?_⟩⟩
      exact .inr (.inl ⟨.inl (congrArg Duty.joining ho), rfl⟩)
    | _ => cases hc

/-- A wormhole is new, or was there before. -/
theorem wormhole_before {β : Type} (c : Call β) {s : Service} {id : Nat} {w' : WormholeSession}
    (h : (exec c s).2.wormholes id = some w') :
    (id = s.drawn ∧ s.drawn < (exec c s).2.drawn ∧ w'.task = none) ∨ ∃ w, s.wormholes id = some w := by
  cases hc : c.ofWormhole with
  | false =>
    rw [exec_wormholes c s hc] at h
    exact .inr ⟨w', h⟩
  | true =>
    cases c with
    | takeWormhole other => exact .inr ⟨w', h⟩
    | drain me closes =>
      rw [exec, Service.drain_wormholes] at h
      exact .inr ⟨w', h⟩
    | newWormhole lan =>
      by_cases hid : id = s.drawn
      · subst hid
        simp only [exec, Service.newWormhole, Function.update_self, Option.some.injEq] at h
        subst h
        exact .inl ⟨rfl, Nat.lt_succ_self _, rfl⟩
      · simp only [exec, Service.newWormhole, Function.update_of_ne hid] at h
        exact .inr ⟨w', h⟩
    | insertWormhole other =>
      rw [exec, Service.insertWormhole_wormholes] at h
      exact .inr ⟨w', h⟩
    | dropWormhole other =>
      obtain ⟨_, w, hw, _⟩ | ⟨_, hw⟩ := Service.modifyWormhole_wormholes h
      · exact .inr ⟨w, hw⟩
      · exact .inr ⟨w', hw⟩
    | spawnTask me lan other =>
      obtain ⟨_, w, hw, _⟩ | ⟨_, hw⟩ := Service.modifyWormhole_wormholes h
      · exact .inr ⟨w, hw⟩
      · exact .inr ⟨w', hw⟩
    | setHandle other =>
      simp only [exec, Service.setHandle] at h
      split at h
      · exact .inr ⟨w', h⟩
      · obtain ⟨_, w, hw, _⟩ | ⟨_, hw⟩ := Service.modifyWormhole_wormholes h
        · exact .inr ⟨w, hw⟩
        · exact .inr ⟨w', hw⟩
    | abortTask other =>
      simp only [exec, Service.joinTask, Service.endWork_wormholes] at h
      obtain ⟨_, w, hw, _⟩ | ⟨_, hw⟩ := Service.modifyWormhole_wormholes h
      · exact .inr ⟨w, hw⟩
      · exact .inr ⟨w', hw⟩
    | cancelWormhole other =>
      obtain ⟨_, w, hw, _⟩ | ⟨_, hw⟩ := Service.modifyWormhole_wormholes h
      · exact .inr ⟨w, hw⟩
      · exact .inr ⟨w', hw⟩
    | takeHandle other =>
      obtain ⟨_, w, hw, _⟩ | ⟨_, hw⟩ := Service.modifyWormhole_wormholes h
      · exact .inr ⟨w, hw⟩
      · exact .inr ⟨w', hw⟩
    | joinTask other =>
      simp only [exec, Service.joinTask, Service.endWork_wormholes] at h
      obtain ⟨_, w, hw, _⟩ | ⟨_, hw⟩ := Service.modifyWormhole_wormholes h
      · exact .inr ⟨w, hw⟩
      · exact .inr ⟨w', hw⟩
    | _ => cases hc

/-- A wormhole that leaves the table is closed by the one who takes it out. -/
theorem wormhole_registered_exec {β : Type} (c : Call β) {s : Service} {id : Nat}
    (h : id ∈ s.state.wormholes) :
    id ∈ (exec c s).2.state.wormholes ∨ .closing id ∈ gains c (exec c s).1 := by
  cases hc : c.ofWormhole with
  | false =>
    rw [exec_registered c s hc]
    exact .inl h
  | true =>
    cases c with
    | takeWormhole other =>
      by_cases ho : id = other
      · subst ho
        exact .inr ⟨List.contains_iff_mem.mpr h, rfl⟩
      · exact .inl (List.mem_filter.mpr ⟨h, by simpa using ho⟩)
    | drain me closes =>
      simp only [exec, Service.drain]
      split
      · exact .inl h
      · exact .inr ⟨_, rfl, .inr (.inl ⟨id, h, rfl⟩)⟩
    | insertWormhole other =>
      simp only [exec, Service.insertWormhole]
      split
      · exact .inl h
      · exact .inl (List.mem_insert_of_mem h)
    | setHandle other => exact .inl (by rwa [exec, Service.setHandle_state])
    | abortTask other => exact .inl (by rwa [exec, Service.joinTask, Service.endWork_state])
    | joinTask other => exact .inl (by rwa [exec, Service.joinTask, Service.endWork_state])
    | newWormhole lan => exact .inl h
    | dropWormhole other => exact .inl h
    | spawnTask me lan other => exact .inl h
    | cancelWormhole other => exact .inl h
    | takeHandle other => exact .inl h
    | _ => cases hc

/-- Who does not have to cancel a wormhole any more has cancelled it. -/
theorem closing_settled {β : Type} {c : Call β} {s : Service} {id : Nat} {w' : WormholeSession}
    (h : .closing id ∈ settles c (exec c s).1) (hw : (exec c s).2.wormholes id = some w') :
    w'.cancelled = true ∧ .taking id ∈ gains c (exec c s).1 := by
  cases settledBy_of_mem h with
  | cancelWormhole id =>
    obtain ⟨_, _, _, rfl⟩ | ⟨ho, _⟩ := Service.modifyWormhole_wormholes hw
    · exact ⟨rfl, rfl⟩
    · exact absurd rfl ho

/-- Who has found no handle leaves the task to the one who has still to give it. -/
theorem taking_settled {β : Type} {c : Call β} {s : Service} {id : Nat} {w : WormholeSession}
    (h : .taking id ∈ settles c (exec c s).1) (hw : s.wormholes id = some w) (hh : w.handle = true) :
    .joining id ∈ gains c (exec c s).1 := by
  cases settledBy_of_mem h with
  | takeHandle id => exact ⟨by simp only [exec, Service.takeHandle, hw, Option.any_some, hh], rfl⟩

/-- A handle is given to a wormhole that is not cancelled; the task of another one is aborted. -/
theorem giving_settled {β : Type} {c : Call β} {s : Service} {id : Nat} {w w' : WormholeSession}
    (h : .giving id ∈ settles c (exec c s).1) (hw : s.wormholes id = some w)
    (hw' : (exec c s).2.wormholes id = some w') :
    .aborting id ∈ gains c (exec c s).1 ∨ (w.cancelled = false ∧ w'.handle = true) := by
  cases settledBy_of_mem h with
  | setHandle id =>
    by_cases hc : s.wormholeCancelled id = true
    · exact .inl ⟨by simp only [exec, Service.setHandle, if_pos hc], rfl⟩
    · simp only [exec, Service.setHandle, if_neg hc] at hw'
      obtain ⟨_, _, _, rfl⟩ | ⟨ho, _⟩ := Service.modifyWormhole_wormholes hw'
      · refine .inr ⟨?_, rfl⟩
        simp only [Service.wormholeCancelled, hw, Bool.or_eq_true, not_or] at hc
        exact Bool.eq_false_iff.mpr hc.1
      · exact absurd rfl ho

/-- Who has waited for a task leaves none that works. -/
theorem task_ended {β : Type} {c : Call β} {s : Service} {id : Nat} {w' : WormholeSession}
    (h : .joining id ∈ settles c (exec c s).1 ∨ .aborting id ∈ settles c (exec c s).1)
    (hw' : (exec c s).2.wormholes id = some w') : w'.task ≠ some .working := by
  have hjoined : ∀ {other : Nat}, (s.joinTask id).wormholes other = some w' → other = id →
      w'.task ≠ some .working := by
    intro other hw ho
    rw [Service.joinTask, Service.endWork_wormholes] at hw
    obtain ⟨_, w, _, rfl⟩ | ⟨hne, _⟩ := Service.modifyWormhole_wormholes hw
    · cases ht : w.task with
      | none => simp
      | some phase => cases phase <;> simp [TaskPhase.joined]
    · exact absurd ho hne
  rcases h with h | h
  · cases settledBy_of_mem h with
    | joinTask id => exact hjoined hw' rfl
  · cases settledBy_of_mem h with
    | abortTask id => exact hjoined hw' rfl

section Wormholes

variable {s : Service} {H : Nat → Set Duty} {i : Nat} {id : Nat} {β : Type}

theorem attended_exec (c : Call β) (h : Attended s H id) {w : WormholeSession}
    (hw : s.wormholes id = some w) (hid : id < s.drawn) :
    Attended (exec c s).2 (held H i c (exec c s).1) id := by
  obtain ⟨w', hw', hch⟩ := changed_exec c hw hid
  obtain ⟨w₀, hw₀, hcancelled⟩ | hreg | ⟨j, hj⟩ := h
  · obtain rfl := Option.some.inj (hw.symm.trans hw₀)
    exact .inl ⟨w', hw', hch.cancelled hcancelled⟩
  · obtain hreg | hg := wormhole_registered_exec c hreg
    · exact .inr (.inl hreg)
    · exact .inr (.inr ⟨i, mem_held_of_gains hg⟩)
  · obtain hj | hs := mem_held_or hj
    · exact .inr (.inr ⟨j, hj⟩)
    · exact .inl ⟨w', hw', (closing_settled hs hw').1⟩

theorem watched_exec (c : Call β) (h : Watched s H id) {w : WormholeSession} (hw : s.wormholes id = some w)
    (hid : id < s.drawn) (hworks : ∀ w', (exec c s).2.wormholes id = some w' → w'.task = some .working) :
    Watched (exec c s).2 (held H i c (exec c s).1) id := by
  obtain ⟨w', hw', hch⟩ := changed_exec c hw hid
  have hhandle : ∀ w₀, s.wormholes id = some w₀ → w₀.handle = true →
      w'.handle = true ∨ Watched (exec c s).2 (held H i c (exec c s).1) id := by
    intro w₀ hw₀ hh
    obtain rfl := Option.some.inj (hw.symm.trans hw₀)
    exact (hch.handle hh).imp_right fun hg => .joining i (mem_held_of_gains hg)
  cases h with
  | registered w₀ hw₀ hh hreg =>
    obtain hh' | hdone := hhandle w₀ hw₀ hh
    · obtain hreg | hg := wormhole_registered_exec c hreg
      · exact .registered w' hw' hh' hreg
      · exact .closing w' i hw' hh' (mem_held_of_gains hg)
    · exact hdone
  | closing w₀ j hw₀ hh hj =>
    obtain hh' | hdone := hhandle w₀ hw₀ hh
    · obtain hj | hs := mem_held_or hj
      · exact .closing w' j hw' hh' hj
      · exact .taking w' i hw' hh' (mem_held_of_gains (closing_settled hs hw').2)
    · exact hdone
  | taking w₀ j hw₀ hh hj =>
    obtain hh' | hdone := hhandle w₀ hw₀ hh
    · obtain hj | hs := mem_held_or hj
      · exact .taking w' j hw' hh' hj
      · exact .joining i (mem_held_of_gains (taking_settled hs hw₀ hh))
    · exact hdone
  | giving j hj hatt =>
    obtain hj | hs := mem_held_or hj
    · exact .giving j hj (attended_exec c hatt hw hid)
    · obtain hg | ⟨hnot, hh'⟩ := giving_settled hs hw hw'
      · exact .aborting i (mem_held_of_gains hg)
      · obtain ⟨w₀, hw₀, hcancelled⟩ | hreg | ⟨k, hk⟩ := hatt
        · obtain rfl := Option.some.inj (hw.symm.trans hw₀)
          rw [hnot] at hcancelled
          cases hcancelled
        · obtain hreg | hg := wormhole_registered_exec c hreg
          · exact .registered w' hw' hh' hreg
          · exact .closing w' i hw' hh' (mem_held_of_gains hg)
        · obtain hk | hs := mem_held_or hk
          · exact .closing w' k hw' hh' hk
          · exact .taking w' i hw' hh' (mem_held_of_gains (closing_settled hs hw').2)
  | joining j hj =>
    obtain hj | hs := mem_held_or hj
    · exact .joining j hj
    · exact absurd (hworks w' hw') (task_ended (.inl hs) hw')
  | aborting j hj =>
    obtain hj | hs := mem_held_or hj
    · exact .aborting j hj
    · exact absurd (hworks w' hw') (task_ended (.inr hs) hw')

end Wormholes

/-- The duty that a fresh wormhole brings. -/
theorem made_gained {β : Type} {c : Call β} {s : Service} {id lan : Nat}
    (h : .made id lan ∈ gains c (exec c s).1) : id = s.drawn ∧
      (exec c s).2.wormholes id = some ⟨lan, false, false, none⟩ := by
  cases gainedBy_of_mem h with
  | newWormhole lan id =>
    obtain rfl := (Duty.made.inj h).1
    refine ⟨rfl, ?_⟩
    simp only [exec, Service.newWormhole, Function.update_self]

theorem inserted_gained {β : Type} {c : Call β} {s : Service} {id : Nat}
    (h : .inserted id ∈ gains c (exec c s).1) : id ∈ (exec c s).2.state.wormholes := by
  cases gainedBy_of_mem h with
  | insertWormhole id =>
    have hr := h.1
    simp only [exec, Service.insertWormhole] at hr ⊢
    split
    · next hc => simp [hc] at hr
    · exact List.mem_insert_self

/-- Where a task starts, its wormhole had been made and registered by the same operation. -/
theorem giving_gained {β : Type} {c : Call β} {s : Service} {t : Holding} {id : Nat} (hf : c.fits t)
    (h : .giving id ∈ gains c (exec c s).1) : (∃ lan, .made id lan ∈ t.duties) ∧ .inserted id ∈ t.duties ∧
      ∀ l, .made id l ∈ settles c (exec c s).1 := by
  cases gainedBy_of_mem h with
  | spawnTask me lan id => exact ⟨⟨lan, hf.2.1⟩, hf.2.2, fun l => .inr (.inr ⟨l, rfl⟩)⟩

/-- Who is done with a wormhole that it has made is done with its registration. -/
theorem made_settled {β : Type} {c : Call β} {r : β} {id lan : Nat} (h : .made id lan ∈ settles c r) :
    .inserted id ∈ settles c r := by
  cases settledBy_of_mem h with
  | dropMade id lan => exact .inl rfl
  | spawnMade me lan id l => exact .inr (.inl rfl)

theorem WormholesKept.exec {s : Service} {H : Nat → Set Duty} (h : WormholesKept s H) {β : Type} (c : Call β)
    {t : Holding} (hf : c.fits t) (ht : t.duties = H t.me) :
    WormholesKept (exec c s).2 (held H t.me c (exec c s).1) := by
  have hlt : ∀ {id lan j}, .made id lan ∈ H j → id < s.drawn := by
    intro id lan j hm
    obtain ⟨w, hw, _⟩ := h.made j id lan hm
    exact h.drawn id w hw
  -- a made wormhole is not started by anybody else
  have hquiet : ∀ {id lan j}, .made id lan ∈ H j → (j = t.me → .made id lan ∉ settles c (JsonService.exec c s).1) →
      .giving id ∉ gains c (JsonService.exec c s).1 := by
    intro id lan j hm hs hg
    obtain ⟨⟨lan', hm'⟩, _, hall⟩ := giving_gained hf hg
    rw [ht] at hm'
    exact hs (h.unique j t.me id lan lan' hm hm') (hall lan)
  constructor
  · intro id w' hw'
    obtain ⟨rfl, hd, _⟩ | ⟨w, hw⟩ := wormhole_before c hw'
    · exact hd
    · exact (h.drawn id w hw).trans_le (drawn_exec c s)
  · intro j id lan hm
    obtain ⟨hm, hs⟩ | ⟨_, hg⟩ := mem_of_mem_held hm
    · obtain ⟨w, hw, hlan, htask⟩ := h.made j id lan hm
      obtain ⟨w', hw', hch⟩ := changed_exec c hw (hlt hm)
      refine ⟨w', hw', hch.lan.trans hlan, ?_⟩
      rcases hch.task with he | ⟨_, he⟩ | ⟨hg, _⟩
      · rw [he, htask]
      · rw [he, htask]
        rfl
      · exact absurd hg (hquiet hm hs)
    · exact ⟨_, (made_gained hg).2, rfl, rfl⟩
  · intro j k id lan lan' hj hk
    obtain ⟨hj, _⟩ | ⟨rfl, hgj⟩ := mem_of_mem_held hj
    · obtain ⟨hk, _⟩ | ⟨rfl, hgk⟩ := mem_of_mem_held hk
      · exact h.unique j k id lan lan' hj hk
      · exact absurd (hlt hj) (by rw [(made_gained hgk).1]; exact Nat.lt_irrefl _)
    · obtain ⟨hk, _⟩ | ⟨rfl, _⟩ := mem_of_mem_held hk
      · exact absurd (hlt hk) (by rw [(made_gained hgj).1]; exact Nat.lt_irrefl _)
      · rfl
  · intro j id hi
    obtain ⟨hi, hs⟩ | ⟨rfl, hg⟩ := mem_of_mem_held hi
    · obtain ⟨⟨lan, hm⟩, hatt⟩ := h.inserted j id hi
      obtain ⟨w, hw, _⟩ := h.made j id lan hm
      refine ⟨⟨lan, ?_⟩, attended_exec c hatt hw (hlt hm)⟩
      by_cases hj : j = t.me
      · exact mem_held_of_mem hm fun hms => hs hj (made_settled hms)
      · rwa [held_of_ne hj]
    · refine ⟨?_, .inr (.inl (inserted_gained hg))⟩
      cases gainedBy_of_mem hg with
      | insertWormhole id =>
        obtain ⟨lan, hm⟩ := hf
        rw [ht] at hm
        exact ⟨lan, mem_held_of_mem hm fun hs => hs⟩
  · intro id w' hw' hworks
    obtain ⟨_, _, hnone⟩ | ⟨w, hw⟩ := wormhole_before c hw'
    · rw [hnone] at hworks
      cases hworks
    have hid := h.drawn id w hw
    obtain ⟨w₁, hw₁, hch⟩ := changed_exec c hw hid
    obtain rfl := Option.some.inj (hw'.symm.trans hw₁)
    rcases hch.task with he | ⟨hs, _⟩ | ⟨hg, _⟩
    · rw [hworks] at he
      refine watched_exec c (h.working id w hw he.symm) hw hid fun w₂ hw₂ => ?_
      obtain rfl := Option.some.inj (hw'.symm.trans hw₂)
      exact hworks
    · exact absurd hworks (task_ended hs hw')
    · obtain ⟨_, hins, _⟩ := giving_gained hf hg
      rw [ht] at hins
      exact .giving t.me (mem_held_of_gains hg) (attended_exec c (h.inserted t.me id hins).2 hw hid)

/-- What a task does to a wormhole of its own accord. -/
theorem changed_tick {s s' : Service} (ht : Tick s s') {id : Nat} {w : WormholeSession}
    (hw : s.wormholes id = some w) : ∃ w', s'.wormholes id = some w' ∧
      w'.lanSessionId = w.lanSessionId ∧ (w.cancelled = true → w'.cancelled = true) ∧
      (w' = w ∨ (w.task ≠ none ∧ w'.task ≠ some .working)) := by
  have hsame : ∃ w', s.wormholes id = some w' ∧ w'.lanSessionId = w.lanSessionId ∧
      (w.cancelled = true → w'.cancelled = true) ∧ (w' = w ∨ (w.task ≠ none ∧ w'.task ≠ some .working)) :=
    ⟨w, hw, rfl, fun h => h, .inl rfl⟩
  have hset : ∀ {u : Service} {other : Nat} {f : WormholeSession → WormholeSession} {session : WormholeSession},
      u.wormholes = s.wormholes → s.wormholes other = some session → session.task ≠ none →
      (f session).lanSessionId = session.lanSessionId →
      (session.cancelled = true → (f session).cancelled = true) → (f session).task ≠ some .working →
      ∃ w', (u.modifyWormhole other f).wormholes id = some w' ∧ w'.lanSessionId = w.lanSessionId ∧
        (w.cancelled = true → w'.cancelled = true) ∧ (w' = w ∨ (w.task ≠ none ∧ w'.task ≠ some .working)) := by
    intro u other f session hu hs htask hlan hcancelled hworking
    refine ⟨_, Service.modifyWormhole_apply (by rw [hu, hw]), ?_⟩
    by_cases ho : id = other
    · subst ho
      obtain rfl := Option.some.inj (hw.symm.trans hs)
      rw [if_pos rfl]
      exact ⟨hlan, hcancelled, .inr ⟨htask, hworking⟩⟩
    · rw [if_neg ho]
      exact ⟨rfl, fun h => h, .inl rfl⟩
  cases ht with
  | finishes other session hs htask =>
    rw [Service.endWork_wormholes]
    exact hset rfl hs (by simp [htask]) rfl (fun h => h) (by simp [htask])
  | panics other session hs htask =>
    rw [Service.endWork_wormholes]
    exact hset rfl hs (by simp [htask]) rfl (fun h => h) (by simp [htask])
  | leaves other session hs htask =>
    refine hset rfl hs (by simp [htask]) rfl (fun h => h) ?_
    by_cases hc : s.state.wormholes.contains other = true
    · simp only [hc, if_true]
      decide
    · simp only [hc]
      decide
  | marks other session hs htask =>
    refine hset rfl hs (by simp [htask]) rfl (fun h => h) ?_
    simp
  | stops other hc => exact hsame

theorem wormhole_before_tick {s s' : Service} (ht : Tick s s') {id : Nat} {w' : WormholeSession}
    (h : s'.wormholes id = some w') : ∃ w, s.wormholes id = some w := by
  have hset : ∀ {u : Service} {other : Nat} {f : WormholeSession → WormholeSession},
      u.wormholes = s.wormholes → (u.modifyWormhole other f).wormholes id = some w' →
      ∃ w, s.wormholes id = some w := by
    intro u other f hu hw
    obtain ⟨_, w, hw, _⟩ | ⟨_, hw⟩ := Service.modifyWormhole_wormholes hw
    · exact ⟨w, hu ▸ hw⟩
    · exact ⟨w', hu ▸ hw⟩
  cases ht with
  | finishes other session hs htask =>
    rw [Service.endWork_wormholes] at h
    exact hset rfl h
  | panics other session hs htask =>
    rw [Service.endWork_wormholes] at h
    exact hset rfl h
  | leaves other session hs htask => exact hset rfl h
  | marks other session hs htask => exact hset rfl h
  | stops other hc => exact ⟨w', h⟩

/-- A task takes its own session out of the table, and works no more then. -/
theorem wormhole_registered_tick {s s' : Service} (ht : Tick s s') {id : Nat} (h : id ∈ s.state.wormholes) :
    id ∈ s'.state.wormholes ∨ ∃ w, s.wormholes id = some w ∧ w.task = some .finishing := by
  cases ht with
  | leaves other session hs htask =>
    by_cases ho : id = other
    · subst ho
      exact .inr ⟨session, hs, htask⟩
    · exact .inl (List.mem_filter.mpr ⟨h, by simpa using ho⟩)
  | finishes other session hs htask => exact .inl (by rwa [Service.endWork_state])
  | panics other session hs htask => exact .inl (by rwa [Service.endWork_state])
  | marks other session hs htask => exact .inl h
  | stops other hc => exact .inl h

theorem drawn_tick {s s' : Service} (ht : Tick s s') : s'.drawn = s.drawn := by
  cases ht with
  | finishes other session hs htask => rw [Service.endWork_drawn]
  | panics other session hs htask => rw [Service.endWork_drawn]
  | leaves other session hs htask => rfl
  | marks other session hs htask => rfl
  | stops other hc => rfl

theorem attended_tick {s s' : Service} {H : Nat → Set Duty} {id : Nat} (ht : Tick s s')
    (h : Attended s H id) {w : WormholeSession} (hw : s.wormholes id = some w)
    (hphase : w.task ≠ some .finishing) : Attended s' H id := by
  obtain ⟨w', hw', _, hcancelled, _⟩ := changed_tick ht hw
  obtain ⟨w₀, hw₀, hc⟩ | hreg | hj := h
  · obtain rfl := Option.some.inj (hw.symm.trans hw₀)
    exact .inl ⟨w', hw', hcancelled hc⟩
  · obtain hreg | ⟨w₀, hw₀, hfin⟩ := wormhole_registered_tick ht hreg
    · exact .inr (.inl hreg)
    · obtain rfl := Option.some.inj (hw.symm.trans hw₀)
      exact absurd hfin hphase
  · exact .inr (.inr hj)

theorem WormholesKept.tick {s s' : Service} {H : Nat → Set Duty} (h : WormholesKept s H) (ht : Tick s s') :
    WormholesKept s' H := by
  constructor
  · intro id w' hw'
    obtain ⟨w, hw⟩ := wormhole_before_tick ht hw'
    rw [drawn_tick ht]
    exact h.drawn id w hw
  · intro j id lan hm
    obtain ⟨w, hw, hlan, htask⟩ := h.made j id lan hm
    obtain ⟨w', hw', hlan', _, rfl | ⟨hsome, _⟩⟩ := changed_tick ht hw
    · exact ⟨w', hw', hlan, htask⟩
    · exact absurd htask hsome
  · exact h.unique
  · intro j id hi
    obtain ⟨⟨lan, hm⟩, hatt⟩ := h.inserted j id hi
    obtain ⟨w, hw, _, htask⟩ := h.made j id lan hm
    exact ⟨⟨lan, hm⟩, attended_tick ht hatt hw (by rw [htask]; decide)⟩
  · intro id w' hw' hworks
    obtain ⟨w, hw⟩ := wormhole_before_tick ht hw'
    obtain ⟨w₁, hw₁, _, _, hsame⟩ := changed_tick ht hw
    obtain rfl := Option.some.inj (hw'.symm.trans hw₁)
    obtain rfl := hsame.resolve_right fun hno => hno.2 hworks
    have hphase : w'.task ≠ some .finishing := by
      rw [hworks]
      decide
    cases h.working id w' hw hworks with
    | registered w₀ hw₀ hh hreg =>
      obtain rfl := Option.some.inj (hw.symm.trans hw₀)
      obtain hreg | ⟨w₂, hw₂, hfin⟩ := wormhole_registered_tick ht hreg
      · exact .registered w' hw' hh hreg
      · obtain rfl := Option.some.inj (hw.symm.trans hw₂)
        exact absurd hfin hphase
    | closing w₀ j hw₀ hh hj =>
      obtain rfl := Option.some.inj (hw.symm.trans hw₀)
      exact .closing w' j hw' hh hj
    | taking w₀ j hw₀ hh hj =>
      obtain rfl := Option.some.inj (hw.symm.trans hw₀)
      exact .taking w' j hw' hh hj
    | giving j hj hatt => exact .giving j hj (attended_tick ht hatt hw hphase)
    | joining j hj => exact .joining j hj
    | aborting j hj => exact .aborting j hj

end JsonService

end InkHole
