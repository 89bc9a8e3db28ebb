import InkHole.Announce
import InkHole.Writers

/-! Servers with stores of their own deliver into the same roots. Each store keeps its own
handlers apart, no store those of another. -/

set_option linter.unusedSectionVars false

namespace InkHole

open Machine

/-- The transfer was given this destination: its item was renamed there, or announced there. -/
def EndsAt (id : String) (d : Path) (log : List Effect) : Prop :=
  0 < created id d log ∨ 0 < announced id d log

/-- Different transfers end at different destinations. -/
def Distinct (log : List Effect) : Prop :=
  ∀ id id' d, StateId id → StateId id' → EndsAt id d log → EndsAt id' d log → id = id'

section AcrossServers

variable [Externals] {L : Layout} {w : World} {m : Server}

/-- The path onto which the next call renames an item. -/
def Program.target : Program Call Unit → Option Path
  | .call (.fs (.rename _ d)) _ => some d
  | _ => none

/-- The path that the next call looks at, to rename an item onto it when it is free. -/
def Program.looksAt : Program Call Unit → Option Path
  | .call (.fs (.tryExists d)) k => if (k (.ok false)).target = some d then some d else none
  | _ => none

/-- Servers over the same roots. Users may edit what is outside the state directories, but make and
remove nothing. -/
def inboxServers (L : Layout) (m : Server) : Action Call World Unit → Prop
  | .spawn _ p => ∃ s : TransferStore, (∀ r ∈ s.categoryRoots.allRoots s.inbox, r ∈ L.roots) ∧
      Serves (fun _ => True) s p
  | .outside w => Edited L m.world w ∧ ∀ p, w.fs.Occupied p ↔ m.world.fs.Occupied p
  | _ => True

/-- A handler renames onto its destination only while no other is about to rename onto the same
one, and none that looks at its destination right before the rename finds it taken. -/
def Unraced (L : Layout) (m : Server) : Action Call World Unit → Prop
  | .call i => ∀ t d, m.threads i = some t →
      (t.program.target = some d → ¬ L.Inside d → ∀ j u, m.threads j = some u →
        u.program.target = some d → j = i) ∧
      (t.program.looksAt = some d → m.world.fs.exists? d ≠ .ok true)
  | _ => True

/-- No step of a server changes an entry outside the state directories. -/
def OverwritesNothing (L : Layout) (m : Server) : Prop :=
  ∀ a m', m.step a = some m' → (∀ w, a ≠ .outside w) → ∀ p, ¬ L.Inside p → m.world.fs.Occupied p →
    m'.world.fs.get p = m.world.fs.get p

/-- An item belongs to one transfer. -/
theorem delivers_unique {id id' : String} {src d d' : Path} (hid : StateId id) (hid' : StateId id')
    (h : Effect.delivers id d (.renamed src d') = true)
    (h' : Effect.delivers id' d (.renamed src d') = true) : id = id' := by
  have hname : ∀ {id : String}, Effect.delivers id d (.renamed src d') = true →
      ∃ extension, src.head? = some (stateName id extension) := by
    intro id h
    rcases (of_decide_eq_true h).2 with hs | hs
    · exact ⟨_, hs⟩
    · exact ⟨_, hs⟩
  obtain ⟨a, ha⟩ := hname h
  obtain ⟨b, hb⟩ := hname h'
  exact ((stateName_eq hid hid').mp (Option.some.inj (ha.symm.trans hb))).1

/-- Only the rename of a handler that has found its destination free creates an entry there. -/
theorem Role.created_absent {β : Type} {t : Role} {c : Call β} {r : β} {id : String} {d : Path}
    (hid : StateId id) (ht : t.Aimed L) (ha : (conduct L).allowed t c)
    (hc : 0 < created id d (effect c r)) : t.Absent d ∧
      ∃ src, (⟨β, (c, r)⟩ : Σ β, Call β × β) = ⟨_, (.fs (.rename src d), .ok ())⟩ ∧ L.Inside src ∧
        Effect.delivers id d (.renamed src d) = true := by
  cases t with
  | opening =>
    cases c with
    | fs op =>
      cases op with
      | rename => exact ha.elim
      | _ => exact absurd hc (lt_irrefl 0)
    | _ => exact ha.elim
  | handling h =>
    cases c with
    | fs op =>
      cases op with
      | rename src dst =>
        cases r with
        | error e => exact absurd hc (lt_irrefl 0)
        | ok _ =>
          have hd : Effect.delivers id d (.renamed src dst) = true := by
            by_contra hd
            simp [created, Call.effect, effect, hd] at hc
          obtain rfl : dst = d := (of_decide_eq_true hd).1
          have htame : L.TameOp h.id (.rename src dst) → h.phase.exclusive → False := by
            intro hop he
            rw [delivers_tame hid (ht.stateId he) hop] at hd
            cases hd
          have ha : h.allowsOp L (.rename src dst) := ha
          rw [Handling.allowsOp.eq_def] at ha
          split at ha
          · next hp =>
            exact (ha.elim (fun ha => htame ha (by rw [hp]; rfl)) fun ha => ha).elim
          · next hp => exact (htame ha (by rw [hp]; rfl)).elim
          · exact ha.elim
          · next hp =>
            obtain ⟨hsrc, rfl⟩ := ha
            exact ⟨hp, src, rfl, Handling.source_inside ht.root hsrc, hd⟩
          · next hp => exact (htame ha (by rw [hp]; rfl)).elim
          · next hp => exact (htame ha (by rw [hp]; rfl)).elim
          · exact ha.elim
      | _ => exact absurd hc (lt_irrefl 0)
    | respond response => cases r <;> exact absurd hc (lt_irrefl 0)
    | _ => exact absurd hc (lt_irrefl 0)

/-- What a call announces, and what is owed after it, was created by it or owed before. -/
theorem Role.owing_step {β : Type} {t : Role} {c : Call β} {r : β} {id : String} {d : Path}
    (hid : StateId id) (ht : t.Aimed L) (ha : (conduct L).allowed t c) (hs : ¬ t.Skips) :
    announced id d (effect c r) + ((conduct L).next t c r).owing id d ≤
      created id d (effect c r) + t.owing id d := by
  by_cases hu : ∃ serial transferId,
      (⟨β, c⟩ : Σ β, Call β) = ⟨Unit, .unlock (.transfer serial transferId)⟩
  · obtain ⟨serial, transferId, he⟩ := hu
    cases he
    cases t with
    | opening => exact ha.elim
    | handling h =>
      have hnone : (Role.handling (h.next (.unlock (.transfer serial transferId)) r)).owing id d = 0 :=
        Handling.owing_none rfl id d
      rw [show (conduct L).next (.handling h) _ r = .handling (h.next _ r) from rfl, hnone]
      exact Nat.zero_le _
  · exact (Role.balance hid ht ha hs fun serial transferId he => absurd ⟨serial, transferId, he⟩ hu).ge

/-- What the servers of one inbox have delivered is there, each destination for one transfer. -/
structure Deliveries (L : Layout) (m : Server) (τ : Nat → Role) : Prop where
  tidy : Tidy L m τ
  free : Free m τ
  straight : Each (fun t => ¬ t.Skips) m τ
  owed : ∀ i id d, (m.threads i).isSome → StateId id → 0 < (τ i).owing id d →
    0 < created id d m.world.log
  announced : ∀ id d, StateId id → 0 < announced id d m.world.log → 0 < created id d m.world.log
  occupied : ∀ id d, StateId id → 0 < created id d m.world.log →
    m.world.fs.Occupied d ∧ ¬ L.Inside d
  sole : ∀ id id' d, StateId id → StateId id' → 0 < created id d m.world.log →
    0 < created id' d m.world.log → id = id'

namespace Deliveries

variable {Q : Unit → Role → Prop} {τ : Nat → Role} {i : Nat}

theorem init (hw : L.Sound w.fs) (hlog : w.log = []) : Deliveries L (Machine.init w) τ where
  tidy := Tidy.init hw
  free := Free.init
  straight := Each.init _ _
  owed i id d hi := by cases hi
  announced id d _ h := by
    rw [show (Machine.init w : Server).world.log = [] from hlog] at h
    cases h
  occupied id d _ h := by
    rw [show (Machine.init w : Server).world.log = [] from hlog] at h
    cases h
  sole id id' d _ _ h := by
    rw [show (Machine.init w : Server).world.log = [] from hlog] at h
    cases h

theorem start (h : Deliveries L m τ) {p : Program Call Unit} {t : Role} (haimed : t.Aimed L)
    (hout : t.Out) (habsent : ∀ d, ¬ t.Absent d) :
    Deliveries L (m.start i p) (Function.update τ i t) := by
  refine ⟨h.tidy.start haimed, h.free.start habsent, h.straight.start hout.not_skips,
    fun j id d hj hid ho => ?_, h.announced, h.occupied, h.sole⟩
  by_cases hji : j = i
  · rw [hji, Function.update_self, hout.owing] at ho
    cases ho
  · simp only [Machine.start, Function.update_of_ne hji] at hj ho
    exact h.owed j id d hj hid ho

theorem stop (h : Deliveries L m τ) (i : Nat) : Deliveries L (m.stop i) τ := by
  refine ⟨h.tidy.stop, h.free.stop, h.straight.stop i, fun j id d hj hid ho => ?_, h.announced,
    h.occupied, h.sole⟩
  by_cases hji : j = i
  · simp [Machine.stop, hji] at hj
  · simp only [Machine.stop, Function.update_of_ne hji] at hj
    exact h.owed j id d hj hid ho

theorem crash (h : Deliveries L m τ) : Deliveries L (Machine.init m.world) τ :=
  ⟨Tidy.init h.tidy.sound, Free.init, Each.init _ _, fun _ _ _ hi => (by cases hi), h.announced,
    h.occupied, h.sole⟩

theorem outside (h : Deliveries L m τ) (he : Edited L m.world w)
    (ho : ∀ p, w.fs.Occupied p ↔ m.world.fs.Occupied p) : Deliveries L { m with world := w } τ := by
  have hlog : ({ m with world := w } : Server).world.log = m.world.log := he.log
  refine ⟨h.tidy.outside he, fun i d hi hd => (ho d).not.mpr (h.free i d hi hd), h.straight, ?_, ?_, ?_, ?_⟩
  · rw [hlog]
    exact h.owed
  · rw [hlog]
    exact h.announced
  · rw [hlog]
    exact fun id d hid hc => ⟨(ho d).mpr (h.occupied id d hid hc).1, (h.occupied id d hid hc).2⟩
  · rw [hlog]
    exact h.sole

variable {β : Type} {c : Call β} {k : β → Program Call Unit} {past : List Effect}

/-- The announcements keep behind the deliveries, whatever a call replies. -/
theorem owed_advance (h : Deliveries L m τ) (ha : (conduct L).allowed (τ i) c)
    (hi : m.threads i = some ⟨.call c k, past⟩) {r : β} (hlog : w.log = m.world.log ++ effect c r) :
    (∀ j id d, ((m.advance i c k past r w).threads j).isSome → StateId id →
      0 < (Function.update τ i ((conduct L).next (τ i) c r) j).owing id d → 0 < created id d w.log) ∧
    ∀ id d, StateId id → 0 < InkHole.announced id d w.log → 0 < created id d w.log := by
  have hlive : (m.threads i).isSome := by rw [hi]; rfl
  have hstep : ∀ id d, StateId id → InkHole.announced id d (effect c r) +
      ((conduct L).next (τ i) c r).owing id d ≤ created id d (effect c r) + (τ i).owing id d :=
    fun id d hid => Role.owing_step hid (h.tidy.aimed i hlive) ha (h.straight i hlive)
  refine ⟨fun j id d hj hid ho => ?_, fun id d hid ho => ?_⟩
  · rw [hlog, created_append]
    by_cases hji : j = i
    · subst hji
      rw [Function.update_self] at ho
      have hs := hstep id d hid
      have hold := h.owed j id d hlive hid
      omega
    · simp only [Machine.advance, Function.update_of_ne hji] at hj ho
      have hold := h.owed j id d hj hid ho
      omega
  · rw [hlog, announced_append] at ho
    rw [hlog, created_append]
    have hs := hstep id d hid
    have hold := h.owed i id d hlive hid
    have hold' := h.announced id d hid
    omega

/-- What is there stays there. -/
theorem frame (h : Deliveries L m τ) (ha : (conduct L).allowed (τ i) c)
    (hi : (m.threads i).isSome) {p : Path} (hp : ¬ L.Inside p) (ho : m.world.fs.Occupied p) :
    (c.changed m.world).get p = m.world.fs.get p :=
  allowed_frame h.tidy.sound (h.tidy.aimed i hi) ha (fun d hd => h.free i d hi hd) hp ho

/-- A delivery that succeeds was made onto a free name, and is there then. -/
theorem fresh (h : Deliveries L m τ) (ha : (conduct L).allowed (τ i) c)
    (hi : (m.threads i).isSome) {id : String} {d : Path} (hid : StateId id)
    (hc : 0 < created id d (effect c (c.reply m.world))) :
    ¬ m.world.fs.Occupied d ∧ (c.changed m.world).Occupied d ∧ ¬ L.Inside d := by
  obtain ⟨habsent, src, he, hsrc, -⟩ := Role.created_absent hid (h.tidy.aimed i hi) ha hc
  obtain ⟨name, r, hr, rfl⟩ := h.tidy.absent_destination hi habsent
  obtain ⟨rfl, he⟩ := Sigma.mk.inj he
  obtain ⟨rfl, hreply⟩ := Prod.mk.inj (eq_of_heq he)
  have hout := L.not_inside_destination hr name
  have hways := h.tidy.sound.straight_deliver hsrc hr name
  obtain ⟨n, hn, hget⟩ := FileTree.renameTo_moved hways.1 hways.2 (fun he => hout (he ▸ hsrc)) hreply
  refine ⟨h.free i _ hi habsent, ?_, hout⟩
  rcases h.tidy.sound.plain src hsrc n hn with rfl | ⟨data, rfl⟩
  · exact .inl hget
  · exact .inr ⟨data, hget⟩

theorem call (h : Deliveries L m τ) (ha : (conduct L).allowed (τ i) c)
    (hi : m.threads i = some ⟨.call c k, past⟩)
    (hsolo : ∀ j d, (m.threads j).isSome → (τ j).Absent d → (τ i).Absent d → j = i)
    (hskip : ¬ ((conduct L).next (τ i) c (exec c m.world).1).Skips) :
    Deliveries L (m.advance i c k past (exec c m.world).1 (exec c m.world).2)
      (Function.update τ i ((conduct L).next (τ i) c (exec c m.world).1)) := by
  have hlive : (m.threads i).isSome := by rw [hi]; rfl
  have hlog : (exec c m.world).2.log = m.world.log ++ effect c (exec c m.world).1 := rfl
  have howed := h.owed_advance ha hi hlog
  have hold : ∀ id d, StateId id → 0 < created id d m.world.log →
      (c.changed m.world).Occupied d ∧ ¬ L.Inside d := by
    intro id d hid hc
    obtain ⟨ho, hp⟩ := h.occupied id d hid hc
    refine ⟨?_, hp⟩
    rw [FileTree.Occupied, h.frame ha hlive hp ho]
    exact ho
  refine ⟨h.tidy.call ha hi, h.free.call h.tidy ha hi hsolo, h.straight.advance hskip, howed.1, howed.2,
    fun id d hid hc => ?_, fun id id' d hid hid' hc hc' => ?_⟩
  · change 0 < created id d (m.world.log ++ _) at hc
    rw [created_append] at hc
    rcases Nat.add_pos_iff_pos_or_pos.mp hc with hc | hc
    · exact hold id d hid hc
    · exact (h.fresh ha hlive hid hc).2
  · change 0 < created id d (m.world.log ++ _) at hc
    change 0 < created id' d (m.world.log ++ _) at hc'
    rw [created_append] at hc hc'
    rcases Nat.add_pos_iff_pos_or_pos.mp hc with hc | hc
    · rcases Nat.add_pos_iff_pos_or_pos.mp hc' with hc' | hc'
      · exact h.sole id id' d hid hid' hc hc'
      · exact absurd (h.occupied id d hid hc).1 (h.fresh ha hlive hid' hc').1
    · rcases Nat.add_pos_iff_pos_or_pos.mp hc' with hc' | hc'
      · exact absurd (h.occupied id' d hid' hc').1 (h.fresh ha hlive hid hc).1
      · -- one rename delivers the part of one transfer
        obtain ⟨-, src, he, -, hd⟩ := Role.created_absent hid (h.tidy.aimed i hlive) ha hc
        obtain ⟨-, src', he', -, hd'⟩ := Role.created_absent hid' (h.tidy.aimed i hlive) ha hc'
        cases he.symm.trans he'
        exact delivers_unique hid hid' hd hd'

theorem fault (h : Deliveries L m τ) (ha : (conduct L).allowed (τ i) c)
    (hi : m.threads i = some ⟨.call c k, past⟩) {r : β} (hf : Shared.fault c = some r) :
    Deliveries L (m.advance i c k past r m.world)
      (Function.update τ i ((conduct L).next (τ i) c r)) := by
  have hlog : m.world.log = m.world.log ++ effect c r := by rw [effect_fault hf, List.append_nil]
  have howed := h.owed_advance ha hi hlog
  have hstraight := h.straight i (by rw [hi]; rfl)
  exact ⟨h.tidy.fault ha hi r, h.free.fault ha hf,
    h.straight.advance (Role.not_skips_fault ha hstraight hf), howed.1, howed.2, h.occupied, h.sole⟩

end Deliveries

theorem deliveries_preserved : Preserved (conduct L) (fun _ t => t.Out)
    (fun m a => inboxServers L m a ∧ Unraced L m a) (Deliveries L) where
  spawn m τ i p ha h hr hi := by
    obtain ⟨s, hroots, hp⟩ := hr.1
    obtain ⟨t, hf, hb⟩ := hp.follows hroots
    exact ⟨t, hf, hb.free, h.start hb.aimed hb.out hb.out.not_absent⟩
  call m τ i c k past ha h hr hi hfree := by
    have hf := ha.follows i _ hi
    have hlive : (m.threads i).isSome := by rw [hi]; rfl
    have hcalm := hr.2
    have honto : ∀ {j t d}, m.threads j = some t → (τ j).Absent d → t.program.target = some d := by
      intro j t d hj hd
      obtain ⟨src, k', hk⟩ := absent_program (ha.follows j t hj) (fun _ ho => ho.not_absent d hd) hd
      rw [hk]
      rfl
    refine h.call hf.1 hi (fun j d hj hdj hdi => ?_) fun hs => ?_
    · obtain ⟨u, hu⟩ := Option.isSome_iff_exists.mp hj
      obtain ⟨name, r, hr, rfl⟩ := h.tidy.absent_destination hlive hdi
      exact (hcalm _ _ hi).1 (honto hi hdi) (L.not_inside_destination hr name) j u hu (honto hu hdj)
    · obtain ⟨d, k', hk, ⟨src, k'', hnext⟩, hfound⟩ := Role.skips_found hf (h.straight i hlive) hs
      refine (hcalm _ d hi).2 ?_ hfound
      rw [show (⟨.call c k, past⟩ : Thread Call Effect Unit).program = _ from hk]
      simp only [Program.looksAt, hnext, Program.target, if_true]
  fault m τ i c k past r ha h hr hi hfree hf := h.fault (ha.follows i _ hi).1 hi hf
  finish m τ i a past ha h hr hi := h.stop i
  abort m τ i ha h hr hi := h.stop i
  crash m τ ha h hr := h.crash
  outside m τ w ha h hr := h.outside hr.1.1 hr.1.2

end AcrossServers

attribute [local instance] Sample.externals

/-- The first two threads keep to the condition. -/
def unracedPair (m : Server) : Action Call World Unit → Bool
  | .call i =>
    match m.threads i with
    | some t =>
      (t.program.target.all fun d => [0, 1].all fun j => decide (j = i) ||
        (m.threads j).all fun u => decide (u.program.target ≠ some d)) &&
      t.program.looksAt.all fun d => decide (m.world.fs.exists? d ≠ .ok true)
    | none => true
  | _ => true

theorem unraced_of_pair {L : Layout} {m : Server} {a : Action Call World Unit}
    (hm : ∀ j, 2 ≤ j → m.threads j = none) (ht : unracedPair m a = true) : Unraced L m a := by
  cases a with
  | call i =>
    intro t d hi
    simp only [unracedPair, hi, Bool.and_eq_true, Option.all_eq_true] at ht
    refine ⟨fun hd _ j u hj hu => ?_, fun hd => of_decide_eq_true (ht.2 d hd)⟩
    have hj2 : j < 2 := by
      by_contra hge
      rw [hm j (Nat.le_of_not_lt hge)] at hj
      cases hj
    have hboth := List.all_eq_true.mp (ht.1 d hd) j (by simp; omega)
    rw [Bool.or_eq_true, Option.all_eq_true] at hboth
    rcases hboth with he | hne
    · exact of_decide_eq_true he
    · exact absurd hu (of_decide_eq_true (hne u hj))
  | _ => trivial

end InkHole
