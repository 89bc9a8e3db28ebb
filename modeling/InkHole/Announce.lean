import InkHole.Operations

/-! What a server delivers it announces, unless a handler ends between the two. -/

set_option linter.unusedSectionVars false

namespace InkHole

open Machine

/-- The part of a transfer is renamed onto a destination. -/
def Effect.delivers (id : String) (d : Path) : Effect → Bool
  | .renamed src dst => decide (dst = d ∧
      (src.head? = some (stateName id "part") ∨ src.head? = some (stateName id "folder.part")))
  | _ => false

def Effect.announces (id : String) (d : Path) : Effect → Bool
  | .emitted (.received transferId path ..) => decide (transferId = id ∧ path = d)
  | _ => false

def created (id : String) (d : Path) (log : List Effect) : Nat := log.countP (Effect.delivers id d)
def announced (id : String) (d : Path) (log : List Effect) : Nat := log.countP (Effect.announces id d)

/-- An entry was created that is still to be announced. -/
def Pending (log : List Effect) : Prop :=
  ∃ id d, StateId id ∧ announced id d log < created id d log

/-- The next call tells the sender that its transfer is complete. -/
def Program.completes : Program Call Unit → Bool
  | .call (.respond (.complete _)) _ => true
  | _ => false

theorem Program.completes_call {p : Program Call Unit} (h : p.completes = true) :
    ∃ receipt k, p = .call (.respond (.complete receipt)) k := by
  cases p with
  | ret a => cases h
  | call c k =>
    cases c with
    | respond response =>
      cases response with
      | complete receipt => exact ⟨receipt, k, rfl⟩
      | _ => cases h
    | _ => cases h

section Announce

variable [Externals] {L : Layout} {s : TransferStore} {w : World} {m : Server}

/-- The announcements a handler owes. -/
def Role.owing (id : String) (d : Path) : Role → Nat
  | .opening => 0
  | .handling h => if h.id = id ∧ h.phase.owed = some d then 1 else 0

/-- The handler found its destination taken. -/
def Role.Skips : Role → Prop
  | .opening => False
  | .handling h => h.phase = .skipped ∨ h.phase = .passed

theorem created_append (id : String) (d : Path) (l l' : List Effect) :
    created id d (l ++ l') = created id d l + created id d l' := List.countP_append

theorem announced_append (id : String) (d : Path) (l l' : List Effect) :
    announced id d (l ++ l') = announced id d l + announced id d l' := List.countP_append

theorem delivers_statePath {id id' extension : String} {root d dst : Path} (hid : StateId id)
    (hid' : StateId id') : Effect.delivers id d (.renamed (statePath root id' extension) dst) =
      decide (dst = d ∧ id' = id ∧ (extension = "part" ∨ extension = "folder.part")) := by
  simp only [Effect.delivers, statePath, List.head?_cons, Option.some.injEq, stateName_eq hid' hid]
  refine decide_eq_decide.mpr ?_
  constructor
  · rintro ⟨hd, ⟨hid, he⟩ | ⟨hid, he⟩⟩
    · exact ⟨hd, hid, .inl he⟩
    · exact ⟨hd, hid, .inr he⟩
  · rintro ⟨hd, hid, he | he⟩
    · exact ⟨hd, .inl ⟨hid, he⟩⟩
    · exact ⟨hd, .inr ⟨hid, he⟩⟩

/-- No document is delivered. -/
theorem delivers_tame {id id' : String} {d dst src : Path} (hid : StateId id) (hid' : StateId id')
    (h : L.TameOp id' (.rename src dst)) : Effect.delivers id d (.renamed src dst) = false := by
  obtain ⟨r, -, n, uuid, rfl, -⟩ := h
  rw [delivers_statePath hid hid', decide_eq_false_iff_not]
  rintro ⟨-, -, he | he⟩
  · exact n.temporary_ne uuid "part" (by decide) he
  · exact n.temporary_ne uuid "folder.part" (by decide) he

namespace Handling

variable {β : Type} {h : Handling}

/-- Only a rename creates a debt. -/
theorem owed_afterOp {op : FsOp Contents β} (r : Except IoError β)
    (hop : ∀ src dst, (⟨β, op⟩ : Σ β, FsOp Contents β) ≠ ⟨Unit, .rename src dst⟩) :
    (afterOp h.phase h.commit op r).owed = h.phase.owed := by
  cases op with
  | rename src dst => exact absurd rfl (hop src dst)
  | read p =>
    simp only [afterOp, afterRead.eq_def]
    split
    · split
      · split
        · next hp => rw [hp]; rfl
        · rfl
      · rfl
    · rfl
  | tryExists p =>
    cases r with
    | error e => rfl
    | ok found =>
      simp only [afterOp, afterSearch]
      split
      · next hp =>
        rw [hp]
        cases found <;> rfl
      · rfl
  | _ => rfl

theorem owing_next {c : Call β} {r : β} (ho : (h.next c r).phase.owed = h.phase.owed) (id : String)
    (d : Path) : (Role.handling (h.next c r)).owing id d = (Role.handling h).owing id d := by
  rw [Role.owing, Role.owing, ho]
  rfl

theorem owing_none (ho : h.phase.owed = none) (id : String) (d : Path) :
    (Role.handling h).owing id d = 0 := by
  simp [Role.owing, ho]

theorem counts_fs {op : FsOp Contents β} (r : Except IoError β) (id : String) (d : Path)
    (hop : ∀ src dst, (⟨β, op⟩ : Σ β, FsOp Contents β) ≠ ⟨Unit, .rename src dst⟩) :
    created id d (Call.effect (.fs op) r) = 0 ∧ announced id d (Call.effect (.fs op) r) = 0 := by
  cases op with
  | rename src dst => exact absurd rfl (hop src dst)
  | _ => exact ⟨rfl, rfl⟩

/-- A rename of the part is the creation of what it makes the handler owe. -/
theorem balance_rename {src dst : Path} {r : Except IoError Unit} {id : String} {d : Path}
    (hid : StateId id) (ht : h.Aimed L) (ha : h.allowsOp L (.rename src dst)) :
    created id d (Call.effect (.fs (.rename src dst)) r) + (Role.handling h).owing id d =
      announced id d (Call.effect (.fs (.rename src dst)) r) +
        (Role.handling (h.next (.fs (.rename src dst)) r)).owing id d := by
  have htame : L.TameOp h.id (.rename src dst) → h.phase.exclusive → (∀ d, h.phase ≠ .absent d) →
      created id d (Call.effect (.fs (.rename src dst)) r) + (Role.handling h).owing id d =
        announced id d (Call.effect (.fs (.rename src dst)) r) +
          (Role.handling (h.next (.fs (.rename src dst)) r)).owing id d := by
    intro htame hexclusive hn
    have howed : (h.next (.fs (.rename src dst)) r).phase.owed = h.phase.owed := by
      cases hp : h.phase with
      | absent d => exact absurd hp (hn d)
      | committing =>
        cases r with
        | ok _ =>
          simp only [next, after, afterOp, afterRename, hp]
          split <;> rfl
        | error _ => simp [next, after, afterOp, afterRename, hp]
      | _ => cases r <;> simp [next, after, afterOp, afterRename, hp]
    rw [owing_next howed]
    cases r with
    | ok _ =>
      have hd := delivers_tame (d := d) hid (ht.stateId hexclusive) htame
      simp [created, announced, Call.effect, hd, Effect.announces]
    | error _ => rfl
  rw [allowsOp.eq_def] at ha
  split at ha
  · next hp =>
    rcases ha with ha | ha
    · exact htame ha (by rw [hp]; rfl) (by simp [hp])
    · exact ha.elim
  · next hp => exact htame ha (by rw [hp]; rfl) (by simp [hp])
  · exact ha.elim
  · next dst' hp =>
    obtain ⟨hsrc, rfl⟩ := ha
    have hstate := ht.stateId (by rw [hp]; rfl)
    cases r with
    | ok _ =>
      have hd : Effect.delivers id d (.renamed src dst) = decide (h.id = id ∧ dst = d) := by
        rcases hsrc with rfl | rfl
        · rw [part, delivers_statePath hid hstate]
          simp [and_comm]
        · rw [folderPart, delivers_statePath hid hstate]
          simp [and_comm]
      have howed : (h.next (.fs (.rename src dst)) (.ok ())).phase.owed = some dst := by
        simp [next, after, afterOp, afterRename, hp, Phase.owed]
      have hnone : h.phase.owed = none := by
        rw [hp]
        rfl
      rw [owing_none hnone, Role.owing, howed]
      simp only [created, announced, Call.effect, List.countP_cons, List.countP_nil, hd,
        Effect.announces, decide_eq_true_eq, Option.some.injEq]
      rfl
    | error _ =>
      have howed : (h.next (.fs (.rename src dst)) (.error ‹IoError›)).phase.owed = h.phase.owed := by
        simp [next, after, afterOp, afterRename, hp, Phase.owed]
      rw [owing_next howed]
      rfl
  · next hp => exact htame ha (by rw [hp]; rfl) (by simp [hp])
  · next hp => exact htame ha (by rw [hp]; rfl) (by simp [hp])
  · exact ha.elim

/-- What a call creates and what was owed before it are what it announces and what is owed after
it, unless the transfer is given up. -/
theorem balance {c : Call β} {r : β} {id : String} {d : Path} (hid : StateId id) (ht : h.Aimed L)
    (ha : h.allows L c) (hs : ¬ (Role.handling h).Skips)
    (hu : ∀ serial transferId, (⟨β, c⟩ : Σ β, Call β) = ⟨Unit, .unlock (.transfer serial transferId)⟩ →
      (Role.handling h).owing id d = 0) :
    created id d (effect c r) + (Role.handling h).owing id d =
      announced id d (effect c r) + (Role.handling (h.next c r)).owing id d := by
  cases c with
  | fs op =>
    by_cases hop : ∃ src dst, (⟨_, op⟩ : Σ β, FsOp Contents β) = ⟨Unit, .rename src dst⟩
    · obtain ⟨src, dst, he⟩ := hop
      cases he
      exact balance_rename hid ht ha
    · have hop : ∀ src dst, (⟨_, op⟩ : Σ β, FsOp Contents β) ≠ ⟨Unit, .rename src dst⟩ :=
        fun src dst he => hop ⟨src, dst, he⟩
      have hcounts := counts_fs r id d hop
      have howed : (h.next (.fs op) r).phase.owed = h.phase.owed := owed_afterOp r hop
      rw [owing_next howed]
      exact congrArg (· + _) (hcounts.1.trans hcounts.2.symm)
  | newUuid => rfl
  | lock ℓ =>
    have hnone : h.phase.owed = none := by
      rcases ha with ⟨hp, -⟩ | ⟨hp, -⟩
      · rw [hp]
        rfl
      · rw [hp]
        rfl
    have hnext : (h.next (.lock ℓ) r).phase.owed = none := by cases ℓ <;> rfl
    rw [owing_none hnone, owing_none hnext]
    rfl
  | unlock ℓ =>
    cases ℓ with
    | transfer serial transferId =>
      rw [hu serial transferId rfl, owing_none (h := h.next _ r) rfl]
      rfl
    | commit serial =>
      have howed : (h.next (.unlock (.commit serial)) r).phase.owed = h.phase.owed := by
        rcases ha with ⟨hc, hn, -⟩ | ⟨-, -, hl⟩
        · cases hp : h.phase with
          | absent d => exact absurd hp (hn d)
          | skipped => exact absurd (.inl hp) hs
          | renamed d => simp [next, after, afterUnlock, hp, Phase.owed]
          | committing => simp [next, after, afterUnlock, hp, Phase.owed]
          | recorded => simp [next, after, afterUnlock, hp, Phase.owed]
          | _ => simp [hp, Phase.critical] at hc
        · cases hl
      rw [owing_next howed]
      rfl
  | emit e =>
    cases e with
    | received transferId path filename size digest senderId senderName =>
      obtain ⟨rfl, hp⟩ := ha
      have hp : h.phase = .committed path := hp.resolve_right fun hp => hs (.inr hp)
      have howed : h.phase.owed = some path := by
        rw [hp]
        rfl
      rw [owing_none (h := h.next _ r) rfl, Role.owing, howed]
      simp [created, announced, effect, Call.effect, Effect.announces, Effect.delivers]
    | progress p => rfl
    | status error => rfl
  | respond response => cases r <;> rfl

/-- A handler skips its rename only when it sees its destination. -/
theorem skips_next {c : Call β} {r : β} (ha : h.allows L c) (hs : ¬ (Role.handling h).Skips)
    (hn : (Role.handling (h.next c r)).Skips) : h.phase = .recorded ∧
      ∃ d, (⟨β, (c, r)⟩ : Σ β, Call β × β) = ⟨_, (.fs (.tryExists d), .ok true)⟩ := by
  have hskipped : h.phase ≠ .skipped := fun hp => hs (.inl hp)
  have hpassed : h.phase ≠ .passed := fun hp => hs (.inr hp)
  cases c with
  | fs op =>
    have hn : afterOp h.phase h.commit op r = .skipped ∨ afterOp h.phase h.commit op r = .passed := hn
    cases op with
    | tryExists d =>
      cases r with
      | error e => exact absurd hn (not_or.mpr ⟨hskipped, hpassed⟩)
      | ok found =>
        simp only [afterOp, afterSearch] at hn
        split at hn
        · next hp =>
          cases found with
          | true => exact ⟨hp, d, rfl⟩
          | false => simp at hn
        · exact absurd hn (not_or.mpr ⟨hskipped, hpassed⟩)
    | read p =>
      simp only [afterOp, afterRead.eq_def] at hn
      split at hn
      · split at hn
        · split at hn
          · simp at hn
          · exact absurd hn (not_or.mpr ⟨hskipped, hpassed⟩)
        · exact absurd hn (not_or.mpr ⟨hskipped, hpassed⟩)
      · exact absurd hn (not_or.mpr ⟨hskipped, hpassed⟩)
    | rename src dst =>
      cases r with
      | ok _ =>
        cases hp : h.phase with
        | skipped => exact absurd hp hskipped
        | passed => exact absurd hp hpassed
        | committing =>
          simp only [afterOp, afterRename, hp] at hn
          split at hn <;> simp at hn
        | _ => simp [afterOp, afterRename, hp] at hn
      | error _ =>
        cases hp : h.phase with
        | skipped => exact absurd hp hskipped
        | passed => exact absurd hp hpassed
        | _ => simp [afterOp, afterRename, hp] at hn
    | _ => exact absurd hn (not_or.mpr ⟨hskipped, hpassed⟩)
  | lock ℓ => cases ℓ <;> simp [Role.Skips, next, after] at hn
  | unlock ℓ =>
    cases ℓ with
    | transfer => simp [Role.Skips, next, after, afterUnlock] at hn
    | commit =>
      simp only [Role.Skips, next, after, afterUnlock] at hn
      split at hn
      · simp at hn
      · next hp => exact absurd hp hskipped
      · simp at hn
  | emit e =>
    cases e with
    | received => simp [Role.Skips, next, after] at hn
    | _ => exact absurd hn hs
  | newUuid => exact absurd hn hs
  | respond response => exact absurd hn hs

end Handling

/-- Before and after its work a thread has looked for no destination and owes nothing. -/
theorem Role.Out.not_skips {t : Role} (h : t.Out) : ¬ t.Skips := by
  cases t with
  | opening => exact fun hs => hs
  | handling g =>
    rintro (hp | hp)
    · rcases h with ho | ho <;> simp [hp] at ho
    · rcases h with ho | ho <;> simp [hp] at ho

theorem Role.Out.owing {t : Role} (h : t.Out) (id : String) (d : Path) : t.owing id d = 0 := by
  cases t with
  | opening => rfl
  | handling g =>
    refine Handling.owing_none ?_ id d
    rcases h with hp | hp
    · rw [hp]
      rfl
    · rw [hp]
      rfl

theorem Role.Out.not_absent {t : Role} (h : t.Out) (d : Path) : ¬ t.Absent d := by
  intro hd
  cases t with
  | opening => exact hd
  | handling g =>
    rcases h with ho | ho
    · cases ho.symm.trans hd
    · cases ho.symm.trans hd

/-- A handler that skips its rename has looked for its destination and found it taken. -/
theorem Role.skips_found {β : Type} {t : Role} {c : Call β} {k : β → Program Call Unit}
    (hf : (conduct L).Follows (fun _ t => t.Out) t (.call c k)) (hs : ¬ t.Skips)
    (hn : ((conduct L).next t c (c.reply w)).Skips) :
    ∃ d k', Program.call c k = .call (.fs (.tryExists d)) k' ∧
      (∃ src k'', k' (.ok false) = .call (.fs (.rename src d)) k'') ∧ w.fs.exists? d = .ok true := by
  cases t with
  | opening => exact hn.elim
  | handling g =>
    obtain ⟨hp, d, he⟩ := Handling.skips_next hf.1 hs hn
    obtain ⟨rfl, he⟩ := Sigma.mk.inj he
    obtain ⟨rfl, hreply⟩ := Prod.mk.inj (eq_of_heq he)
    have hnext := hf.2 (.ok false)
    have habsent : ((conduct L).next (.handling g) (.fs (.tryExists d)) (.ok false)).Absent d := by
      change Handling.afterOp g.phase g.commit (.tryExists d) (.ok false) = .absent d
      simp [Handling.afterOp, Handling.afterSearch, hp]
    exact ⟨d, k, rfl, absent_program hnext (fun _ ho => ho.not_absent d habsent) habsent, hreply⟩

theorem Role.not_skips_fault {β : Type} {t : Role} {c : Call β} {r : β}
    (ha : (conduct L).allowed t c) (hs : ¬ t.Skips) (hf : Shared.fault c = some r) :
    ¬ ((conduct L).next t c r).Skips := by
  intro hn
  cases t with
  | opening => exact hn
  | handling g =>
    obtain ⟨-, d, he⟩ := Handling.skips_next ha hs hn
    obtain ⟨rfl, he⟩ := Sigma.mk.inj he
    obtain ⟨rfl, rfl⟩ := Prod.mk.inj (eq_of_heq he)
    cases hf

theorem Role.balance {β : Type} {t : Role} {c : Call β} {r : β} {id : String} {d : Path}
    (hid : StateId id) (ht : t.Aimed L) (ha : (conduct L).allowed t c) (hs : ¬ t.Skips)
    (hu : ∀ serial transferId, (⟨β, c⟩ : Σ β, Call β) = ⟨Unit, .unlock (.transfer serial transferId)⟩ →
      t.owing id d = 0) :
    created id d (effect c r) + t.owing id d =
      announced id d (effect c r) + ((conduct L).next t c r).owing id d := by
  cases t with
  | handling h => exact Handling.balance hid ht ha hs hu
  | opening =>
    have hnone : effect c r = [] := by
      cases c with
      | fs op =>
        cases op with
        | rename => exact ha.elim
        | _ => rfl
      | _ => exact ha.elim
    rw [hnone]
    rfl

/-- What a thread owes while it lives. -/
def due (m : Server) (τ : Nat → Role) (id : String) (d : Path) (i : Nat) : Nat :=
  if (m.threads i).isSome then (τ i).owing id d else 0

/-- The books of one server: each thread remembers what it owes, at most one thread of a transfer
owes anything, and but for that what was created was announced. -/
structure Accounted (L : Layout) (s : TransferStore) (m : Server) (τ : Nat → Role) : Prop where
  tidy : Tidy L m τ
  store : Each (Role.Of s) m τ
  straight : Each (fun t => ¬ t.Skips) m τ
  history : ∀ i t, m.threads i = some t → ∀ id d, StateId id →
    created id d t.history = announced id d t.history + (τ i).owing id d
  log : ∀ id d i, StateId id → (∀ j, j ≠ i → due m τ id d j = 0) →
    created id d m.world.log = announced id d m.world.log + due m τ id d i

namespace Accounted

variable {Q : Unit → Role → Prop} {τ : Nat → Role} {i : Nat} {id : String} {d : Path}

theorem due_lock (h : Accounted L s m τ) (hi : due m τ id d i ≠ 0) :
    (m.threads i).isSome ∧ (conduct L).holds (τ i) (.transfer s.serial id) := by
  rw [due] at hi
  split at hi
  · next hlive =>
    have hof := h.store i hlive
    refine ⟨hlive, ?_⟩
    cases hτ : τ i with
    | opening =>
      rw [hτ] at hi
      exact absurd rfl hi
    | handling g =>
      rw [hτ] at hi hof
      simp only [Role.owing, ne_eq, ite_eq_right_iff, Classical.not_imp] at hi
      obtain rfl := hof
      refine ⟨?_, rfl, hi.1.1.symm⟩
      cases hp : g.phase with
      | renamed => rfl
      | committed => rfl
      | _ => simp [hp, Phase.owed] at hi
  · exact absurd rfl hi

theorem due_exclusive (h : Accounted L s m τ) (ha : Annotated (conduct L) Q m τ) {j : Nat}
    (hi : due m τ id d i ≠ 0) (hj : due m τ id d j ≠ 0) : i = j :=
  ha.exclusive (h.due_lock hi).1 (h.due_lock hj).1 (h.due_lock hi).2 (h.due_lock hj).2

theorem not_pending (h : Accounted L s m τ) {t : Thread Call Effect Unit} (hi : m.threads i = some t)
    (hp : ¬ Pending t.history) (hid : StateId id) : (τ i).owing id d = 0 := by
  have hh := h.history i t hi id d hid
  by_contra hne
  exact hp ⟨id, d, hid, by omega⟩

theorem init (hw : L.Sound w.fs)
    (hlog : ∀ id d, StateId id → created id d w.log = announced id d w.log) :
    Accounted L s (Machine.init w) τ where
  tidy := Tidy.init hw
  store := Each.init _ _
  straight := Each.init _ _
  history i t hi := by cases hi
  log id d i hid _ := hlog id d hid

theorem start (h : Accounted L s m τ) {p : Program Call Unit} {t : Role} (hi : m.threads i = none)
    (haimed : t.Aimed L) (hof : t.Of s) (hout : t.Out) :
    Accounted L s (m.start i p) (Function.update τ i t) := by
  have howing : ∀ id d, t.owing id d = 0 := hout.owing
  have hdue : ∀ id d j, due (m.start i p) (Function.update τ i t) id d j = due m τ id d j := by
    intro id d j
    by_cases hji : j = i
    · subst hji
      simp [due, Machine.start, hi, howing]
    · simp [due, Machine.start, Function.update_of_ne hji]
  refine ⟨h.tidy.start haimed, h.store.start hof, h.straight.start hout.not_skips,
    fun j u hu id d hid => ?_, ?_⟩
  · by_cases hji : j = i
    · subst hji
      simp only [Machine.start, Function.update_self, Option.some.injEq] at hu
      rw [← hu, Function.update_self, howing]
      rfl
    · simp only [Machine.start, Function.update_of_ne hji] at hu ⊢
      exact h.history j u hu id d hid
  · intro id d j hid hj
    rw [hdue]
    exact h.log id d j hid fun k hk => (hdue id d k).symm.trans (hj k hk)

/-- A thread that owes nothing may end. -/
theorem stop (h : Accounted L s m τ) (hi : ∀ id d, StateId id → (τ i).owing id d = 0) :
    Accounted L s (m.stop i) τ := by
  have hdue : ∀ id d j, StateId id → due (m.stop i) τ id d j = due m τ id d j := by
    intro id d j hid
    by_cases hji : j = i
    · subst hji
      simp [due, Machine.stop, hi id d hid]
    · simp [due, Machine.stop, Function.update_of_ne hji]
  refine ⟨h.tidy.stop, h.store.stop i, h.straight.stop i, fun j u hu id d hid => ?_,
    fun id d j hid hj => ?_⟩
  · by_cases hji : j = i
    · simp [Machine.stop, hji] at hu
    · simp only [Machine.stop, Function.update_of_ne hji] at hu
      exact h.history j u hu id d hid
  · rw [hdue id d j hid]
    exact h.log id d j hid fun k hk => (hdue id d k hid).symm.trans (hj k hk)

/-- A crash loses nothing when no thread owes anything. -/
theorem crash (h : Accounted L s m τ)
    (hm : ∀ i id d, (m.threads i).isSome → StateId id → (τ i).owing id d = 0) :
    Accounted L s (Machine.init m.world) τ := by
  refine init h.tidy.sound fun id d hid => ?_
  have hdue : ∀ i, due m τ id d i = 0 := by
    intro i
    rw [due]
    split
    · next hi => exact hm i id d hi hid
    · rfl
  have hlog := h.log id d 0 hid fun j _ => hdue j
  rw [hdue] at hlog
  exact hlog

theorem outside (h : Accounted L s m τ) (he : Edited L m.world w) :
    Accounted L s { m with world := w } τ where
  tidy := h.tidy.outside he
  store := h.store
  straight := h.straight
  history := h.history
  log id d i hid hi := by
    rw [show ({ m with world := w } : Server).world.log = m.world.log from he.log]
    exact h.log id d i hid hi

/-- A call that gives up no debt and skips no rename keeps the books. -/
theorem advance {β : Type} {c : Call β} {k : β → Program Call Unit} {past : List Effect} {r : β}
    (h : Accounted L s m τ) (ha : Annotated (conduct L) Q m τ)
    (hi : m.threads i = some ⟨.call c k, past⟩)
    (htidy : Tidy L (m.advance i c k past r w) (Function.update τ i ((conduct L).next (τ i) c r)))
    (hlog : w.log = m.world.log ++ effect c r)
    (hunlock : ∀ serial transferId,
      (⟨β, c⟩ : Σ β, Call β) = ⟨Unit, .unlock (.transfer serial transferId)⟩ → ¬ Pending past)
    (hskip : ¬ ((conduct L).next (τ i) c r).Skips) :
    Accounted L s (m.advance i c k past r w) (Function.update τ i ((conduct L).next (τ i) c r)) := by
  have hlive : (m.threads i).isSome := by
    rw [hi]
    rfl
  have hbalance : ∀ id d, StateId id →
      created id d (effect c r) + (τ i).owing id d =
        announced id d (effect c r) + ((conduct L).next (τ i) c r).owing id d := fun id d hid =>
    Role.balance hid (h.tidy.aimed i hlive) (ha.follows i _ hi).1 (h.straight i hlive)
      fun serial transferId he => h.not_pending hi (hunlock serial transferId he) hid
  have hother : ∀ id d j, j ≠ i →
      due (m.advance i c k past r w) (Function.update τ i ((conduct L).next (τ i) c r)) id d j =
        due m τ id d j := by
    intro id d j hji
    simp [due, Machine.advance, Function.update_of_ne hji]
  have hself : ∀ id d,
      due (m.advance i c k past r w) (Function.update τ i ((conduct L).next (τ i) c r)) id d i =
        ((conduct L).next (τ i) c r).owing id d := by
    intro id d
    simp [due, Machine.advance]
  have hdue : ∀ id d, due m τ id d i = (τ i).owing id d := fun id d => if_pos hlive
  refine ⟨htidy, h.store.advance ((h.store i hlive).next L), h.straight.advance hskip,
    fun j t hj id d hid => ?_, fun id d j hid hj => ?_⟩
  · by_cases hji : j = i
    · subst hji
      simp only [Machine.advance, Function.update_self, Option.some.injEq] at hj
      have hpast : created id d past = announced id d past + (τ j).owing id d :=
        h.history j _ hi id d hid
      have hnew := hbalance id d hid
      rw [← hj, Function.update_self, created_append, announced_append]
      omega
    · simp only [Machine.advance, Function.update_of_ne hji] at hj ⊢
      exact h.history j t hj id d hid
  · have hnew := hbalance id d hid
    change created id d w.log = announced id d w.log + _
    rw [hlog, created_append, announced_append]
    by_cases hji : j = i
    · subst hji
      have hold := h.log id d j hid fun k hk => (hother id d k hk).symm.trans (hj k hk)
      rw [hdue] at hold
      rw [hself]
      omega
    · have hzero := hj i (Ne.symm hji)
      rw [hself] at hzero
      rw [hother id d j hji]
      by_cases hd : due m τ id d j = 0
      · have hold := h.log id d i hid fun k hk => ?_
        · rw [hdue] at hold
          omega
        · by_cases hkj : k = j
          · rw [hkj, hd]
          · exact (hother id d k hk).symm.trans (hj k hkj)
      · have howes : (τ i).owing id d = 0 := by
          by_contra hne
          exact hji (h.due_exclusive ha hd (by rwa [hdue]))
        have hold := h.log id d j hid fun k hk => ?_
        · omega
        · by_cases hki : k = i
          · rw [hki, hdue, howes]
          · exact (hother id d k hki).symm.trans (hj k hk)

end Accounted

/-- One server: its threads may be aborted wherever they wait, its calls may fail and it may crash,
and users edit what is outside its state directories. -/
def oneServer (L : Layout) (s : TransferStore) (m : Server) : Action Call World Unit → Prop
  | .spawn _ p => Serves (fun _ => True) s p
  | .outside w => Edited L m.world w
  | _ => True

/-- No handler ends or gives up its transfer with an entry to announce, and none that looks for its
destination finds it taken. -/
def Undisturbed (m : Server) : Action Call World Unit → Prop
  | .call i => ∀ t, m.threads i = some t →
    (∀ serial transferId k, t.program = .call (.unlock (.transfer serial transferId)) k →
      ¬ Pending t.history) ∧
    ∀ d k, t.program = .call (.fs (.tryExists d)) k →
      (∃ src k', k (.ok false) = .call (.fs (.rename src d)) k') → m.world.fs.exists? d ≠ .ok true
  | .abort i => ∀ t, m.threads i = some t → ¬ Pending t.history
  | .crash => ∀ i t, m.threads i = some t → ¬ Pending t.history
  | _ => True

theorem undisturbed_preserved (hroots : ∀ r ∈ s.categoryRoots.allRoots s.inbox, r ∈ L.roots) :
    Preserved (conduct L) (fun _ t => t.Out) (fun m a => oneServer L s m a ∧ Undisturbed m a)
      (Accounted L s) where
  spawn m τ i p ha h hr hi := by
    obtain ⟨t, hf, hb⟩ := Serves.follows hroots hr.1
    exact ⟨t, hf, hb.free, h.start hi hb.aimed hb.store hb.out⟩
  call m τ i c k past ha h hr hi hfree := by
    have hcalm := hr.2 _ hi
    have hf := ha.follows i _ hi
    refine h.advance ha hi (h.tidy.call hf.1 hi) rfl (fun serial transferId he => ?_) fun hs => ?_
    · cases he
      exact hcalm.1 serial transferId k rfl
    · obtain ⟨d, k', hk, hnext, hfound⟩ := Role.skips_found hf (h.straight i (by rw [hi]; rfl)) hs
      exact hcalm.2 d k' hk hnext hfound
  fault m τ i c k past r ha h hr hi hfree hf := by
    have hallowed := (ha.follows i _ hi).1
    refine h.advance ha hi (h.tidy.fault hallowed hi r) ?_ (fun serial transferId he => ?_)
      (Role.not_skips_fault hallowed (h.straight i (by rw [hi]; rfl)) hf)
    · rw [effect_fault hf, List.append_nil]
    · cases he
      cases hf
  finish m τ i a past ha h hr hi := by
    have hout : (τ i).Out := ha.follows i _ hi
    exact h.stop fun id d _ => hout.owing id d
  abort m τ i ha h hr hi := by
    obtain ⟨t, ht⟩ := Option.isSome_iff_exists.mp hi
    exact h.stop fun id d hid => h.not_pending ht (hr.2 t ht) hid
  crash m τ ha h hr := by
    refine h.crash fun i id d hi hid => ?_
    obtain ⟨t, ht⟩ := Option.isSome_iff_exists.mp hi
    exact h.not_pending ht (hr.2 i t ht) hid
  outside m τ w ha h hr := h.outside hr.1

/-- Where nobody works on a transfer, and where its sender is about to be told that it is complete,
each entry created for it was announced once. -/
def EveryDeliveryAnnounced (s : TransferStore) (m : Server) : Prop :=
  ∀ id d, StateId id →
    (m.holder (.transfer s.serial id) = none ∨ ∃ i t,
      m.holder (.transfer s.serial id) = some i ∧ m.threads i = some t ∧ t.program.completes) →
    announced id d m.world.log = created id d m.world.log

theorem announced_of_undisturbed (hroots : ∀ r ∈ s.categoryRoots.allRoots s.inbox, r ∈ L.roots)
    (hw : L.Sound w.fs) (hlog : w.log = [])
    (hr : Reachable (fun m a => oneServer L s m a ∧ Undisturbed m a) (Machine.init w) m) :
    EveryDeliveryAnnounced s m := by
  have h₀ : Accounted L s (Machine.init w) fun _ => .opening :=
    Accounted.init hw fun id d _ => by rw [hlog]; rfl
  obtain ⟨τ, ha, h⟩ := (undisturbed_preserved hroots).reachable (conduct_locking L) h₀ hr
  intro id d hid hquiet
  have hdue : ∀ i, due m τ id d i = 0 := by
    intro i
    by_contra hne
    obtain ⟨hlive, hl⟩ := h.due_lock hne
    have hholder := ha.holder i _ hlive hl
    rcases hquiet with hfree | ⟨j, t, hj, ht, hp⟩
    · rw [hfree] at hholder
      cases hholder
    · obtain rfl : i = j := Option.some.inj (hholder.symm.trans hj)
      have hf := ha.follows i t ht
      obtain ⟨receipt, k, hp⟩ := Program.completes_call hp
      rw [hp] at hf
      refine hne ?_
      rw [due, if_pos hlive]
      cases hτ : τ i with
      | opening => rfl
      | handling g =>
        rw [hτ] at hf
        exact Handling.owing_none (by rw [show g.phase = .working from hf.1]; rfl) id d
  have hcount := h.log id d 0 hid fun j _ => hdue j
  rw [hdue] at hcount
  exact hcount.symm

end Announce

attribute [local instance] Sample.externals

/-- The call gives up no transfer and finds no name taken. -/
def Call.calm {β : Type} (w : World) : Call β → Bool
  | .fs (.tryExists d) => decide (w.fs.exists? d ≠ .ok true)
  | .unlock (.transfer ..) => false
  | _ => true

def calmAction (m : Server) : Action Call World Unit → Bool
  | .spawn .. => true
  | .call i =>
    match m.threads i with
    | some ⟨.call c _, _⟩ => c.calm m.world
    | _ => true
  | _ => false

/-- A handler that is about to answer, its one delivery announced. -/
theorem announced_sample : ∃ m : Server,
    created Sample.first.transferId ["a.txt", "inbox"] m.world.log = 1 ∧
      announced Sample.first.transferId ["a.txt", "inbox"] m.world.log =
        created Sample.first.transferId ["a.txt", "inbox"] m.world.log := by
  let stream : Program Call Unit :=
    (Sample.store 0).serveStream Sample.first (.error .json) (Sample.peer [65])
  let run : List (Action Call World Unit) := .spawn 0 stream :: List.replicate 43 (.call 0)
  have hrun : ((Machine.init Sample.world : Server).runIf calmAction run).map (fun m =>
      (m.holder (.transfer 0 Sample.first.transferId),
        created Sample.first.transferId ["a.txt", "inbox"] m.world.log,
        (m.threads 0).any fun t => t.program.completes)) = some (some 0, 1, true) := by decide +kernel
  obtain ⟨m, hm, he⟩ := Option.map_eq_some_iff.mp hrun
  obtain ⟨hholder, hcreated, hnext⟩ : _ ∧ _ ∧ _ := by simpa only [Prod.mk.injEq] using he
  have hregime : ∀ m, ∀ a ∈ run, calmAction m a = true →
      oneServer Sample.layout (Sample.store 0) m a ∧ Undisturbed m a := by
    intro m a ha ht
    rcases List.mem_cons.mp ha with rfl | ha
    · exact ⟨.stream _ _ _ trivial, trivial⟩
    · obtain rfl := List.eq_of_mem_replicate ha
      refine ⟨trivial, ?_⟩
      rintro ⟨p, past⟩ hi
      simp only [calmAction, hi] at ht
      constructor
      · rintro serial transferId k rfl
        cases ht
      · rintro d k rfl -
        exact of_decide_eq_true ht
  have hreach := Reachable.refl.runIf hregime hm
  have hroots : ∀ r ∈ (Sample.store 0).categoryRoots.allRoots (Sample.store 0).inbox,
      r ∈ Sample.layout.roots := by decide
  have hstate : StateId Sample.first.transferId := ⟨by decide, by decide⟩
  refine ⟨m, hcreated, announced_of_undisturbed hroots Sample.sound rfl hreach _ _ hstate (.inr ?_)⟩
  obtain ⟨t, ht, hp⟩ := Option.any_eq_true _ _ |>.mp hnext
  exact ⟨0, t, hholder, ht, hp⟩

/-- A handler is aborted once its file is in place. The sender comes back and is told that the
transfer is complete, of which the user never hears. -/
theorem delivery_unannounced : ∃ m : Server,
    Reachable (oneServer Sample.layout (Sample.store 0)) (Machine.init Sample.world) m ∧
      .responded (.complete Sample.first.receipt) ∈ m.world.log ∧
        ¬ EveryDeliveryAnnounced (Sample.store 0) m := by
  let stream : Program Call Unit :=
    (Sample.store 0).serveStream Sample.first (.error .json) (Sample.peer [65])
  let run : List (Action Call World Unit) :=
    .spawn 0 stream :: List.replicate 31 (.call 0) ++ .abort 0 :: .spawn 1 stream ::
      List.replicate 16 (.call 1)
  have hrun : ((Machine.init Sample.world : Server).runActions run).map (fun m =>
      (m.holder (.transfer 0 Sample.first.transferId),
        created Sample.first.transferId ["a.txt", "inbox"] m.world.log,
        announced Sample.first.transferId ["a.txt", "inbox"] m.world.log,
        decide (.responded (.complete Sample.first.receipt) ∈ m.world.log))) =
      some (none, 1, 0, true) := by decide +kernel
  obtain ⟨m, hm, he⟩ := Option.map_eq_some_iff.mp hrun
  simp only [Prod.mk.injEq, decide_eq_true_eq] at he
  obtain ⟨hfree, hcreated, hannounced, hcomplete⟩ := he
  have hregime : ∀ a ∈ run, ∀ m, oneServer Sample.layout (Sample.store 0) m a := by
    intro a ha m
    simp only [run, List.cons_append, List.mem_cons, List.mem_append, List.mem_replicate] at ha
    rcases ha with rfl | ⟨-, rfl⟩ | rfl | rfl | ⟨-, rfl⟩
    · exact .stream _ _ _ trivial
    · trivial
    · trivial
    · exact .stream _ _ _ trivial
    · trivial
  refine ⟨m, Reachable.refl.runActions hregime hm, hcomplete, fun h => ?_⟩
  have hstate : StateId Sample.first.transferId := ⟨by decide, by decide⟩
  have heq := h _ ["a.txt", "inbox"] hstate (.inl hfree)
  rw [hcreated, hannounced] at heq
  cases heq

end InkHole
