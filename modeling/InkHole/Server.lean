import InkHole.Handlers
import InkHole.Threads

/-! Servers as sets of threads: what a call that keeps to the conduct does to the files,
and where it leads the handler that makes it. -/

set_option linter.unusedSectionVars false

namespace InkHole

variable [Externals] {β : Type} {L : Layout}

abbrev Server := Machine Call World Lock Effect Unit

/-- A handler works below one of the roots, on a transfer whose id it has checked, and what
it found free is a name there. -/
structure Handling.Aimed (L : Layout) (h : Handling) : Prop where
  root : h.root ∈ L.roots
  stateId : h.phase.exclusive → StateId h.id
  destination : ∀ d, h.phase = .absent d → ∃ name, d = name :: h.root

def Role.Aimed (L : Layout) : Role → Prop
  | .opening => True
  | .handling h => h.Aimed L

/-- The handler has found its destination free and is about to rename onto it. -/
def Role.Absent (d : Path) : Role → Prop
  | .opening => False
  | .handling h => h.phase = .absent d

namespace Handling

variable {h : Handling}

theorem source_state {src : Path} (hs : src = h.part ∨ src = h.folderPart) :
    ∃ state, src = state :: stateDirectory :: h.root := by
  rcases hs with rfl | rfl <;> exact ⟨_, rfl⟩

theorem source_inside {src : Path} (hr : h.root ∈ L.roots) (hs : src = h.part ∨ src = h.folderPart) :
    L.Inside src := by
  obtain ⟨state, rfl⟩ := source_state hs
  exact ⟨h.root, hr, state, [], rfl⟩

/-- Once a destination was found free, the one thing left to do is to rename onto it. -/
theorem absent_call {d : Path} {c : Call β} (hp : h.phase = .absent d) (ha : h.allows L c) :
    ∃ src, (src = h.part ∨ src = h.folderPart) ∧
      (⟨β, c⟩ : Σ β, Call β) = ⟨_, .fs (.rename src d)⟩ := by
  cases c with
  | fs op =>
    simp only [allows, allowsOp, hp] at ha
    cases op with
    | rename src dst =>
      obtain ⟨hs, rfl⟩ := ha
      exact ⟨src, hs, rfl⟩
    | _ => exact ha.elim
  | newUuid => exact absurd hp (ha d)
  | lock ℓ => rcases ha with ⟨hw, -⟩ | ⟨hw, -⟩ <;> simp [hp] at hw
  | unlock ℓ =>
    rcases ha with ⟨-, hn, -⟩ | ⟨-, hn, -⟩
    · exact absurd hp (hn d)
    · simp [hp, Phase.critical] at hn
  | emit e =>
    cases e with
    | received => rcases ha.2 with hw | hw <;> simp [hp] at hw
    | progress => exact absurd hp (ha d)
    | status => exact absurd hp (ha d)
  | respond response =>
    cases response with
    | complete =>
      have hw : h.phase = .working := ha
      simp [hp] at hw
    | _ => exact absurd hp (ha d)

/-- A destination is only taken for free after it was looked for. -/
theorem absent_next {d : Path} {c : Call β} {r : β} (hn : ∀ d, h.phase ≠ .absent d)
    (ha : h.allows L c) (hd : (h.next c r).phase = .absent d) :
    (∃ name, d = name :: h.root) ∧ h.phase = .recorded ∧
      (⟨β, (c, r)⟩ : Σ β, Call β × β) = ⟨_, (.fs (.tryExists d), .ok false)⟩ := by
  cases c with
  | fs op =>
    have hd : afterOp h.phase h.commit op r = .absent d := hd
    cases op with
    | tryExists p =>
      cases r with
      | error e => exact absurd hd (hn d)
      | ok found =>
        simp only [afterOp, afterSearch] at hd
        split at hd
        · next hp =>
          simp only [allows, allowsOp, hp] at ha
          cases found with
          | true => cases hd
          | false =>
            obtain rfl : p = d := by simpa using hd
            exact ⟨ha, hp, rfl⟩
        · exact absurd hd (hn d)
    | read p =>
      simp only [afterOp, afterRead.eq_def] at hd
      split at hd
      · split at hd
        · split at hd
          · cases hd
          · exact absurd hd (hn d)
        · exact absurd hd (hn d)
      · exact absurd hd (hn d)
    | rename src dst =>
      cases r with
      | ok _ =>
        cases hp : h.phase with
        | absent d => exact absurd hp (hn d)
        | committing =>
          simp only [afterOp, afterRename, hp] at hd
          split at hd <;> cases hd
        | _ => simp [afterOp, afterRename, hp] at hd
      | error _ =>
        cases hp : h.phase with
        | absent d => exact absurd hp (hn d)
        | _ => simp [afterOp, afterRename, hp] at hd
    | _ => exact absurd hd (hn d)
  | lock ℓ => cases ℓ <;> cases hd
  | unlock ℓ =>
    cases ℓ with
    | transfer => cases hd
    | commit =>
      simp only [next, after, afterUnlock] at hd
      split at hd <;> cases hd
  | emit e =>
    cases e with
    | received => cases hd
    | _ => exact absurd hd (hn d)
  | newUuid => exact absurd hd (hn d)
  | respond response => exact absurd hd (hn d)

/-- The rename settles it, either way. -/
theorem not_absent_after {d d' : Path} {c : Call β} {r : β} (hp : h.phase = .absent d)
    (ha : h.allows L c) : (h.next c r).phase ≠ .absent d' := by
  obtain ⟨src, -, he⟩ := absent_call hp ha
  cases he
  cases r <;> simp [next, after, afterOp, afterRename, hp]

theorem exclusive_next {c : Call β} {r : β} (ha : h.allows L c) (he : (h.next c r).phase.exclusive) :
    h.phase.exclusive ∨ StateId h.id := by
  rcases holds_next (r := r) (ℓ := .transfer h.store.serial h.id) ha ⟨he, rfl, rfl⟩ with hq | hh
  · cases c with
    | lock ℓ =>
      rcases ha with ⟨-, -, hid⟩ | ⟨-, rfl⟩
      · exact .inr hid
      · cases hq
    | _ => cases hq
  · exact .inl hh.1.1

theorem Aimed.next {c : Call β} {r : β} (ht : h.Aimed L) (ha : h.allows L c) :
    (h.next c r).Aimed L := by
  refine ⟨ht.root, fun he => (exclusive_next ha he).elim ht.stateId fun h => h, fun d hd => ?_⟩
  by_cases hp : ∃ d', h.phase = .absent d'
  · obtain ⟨d', hp⟩ := hp
    exact absurd hd (not_absent_after hp ha)
  · exact (absent_next (fun d' h' => hp ⟨d', h'⟩) ha hd).1

end Handling

theorem Role.aimed_next {t : Role} {c : Call β} {r : β} (ht : t.Aimed L)
    (ha : (conduct L).allowed t c) : ((conduct L).next t c r).Aimed L := by
  cases t with
  | opening => trivial
  | handling h => exact Handling.Aimed.next ht ha

theorem Role.not_absent_after {t : Role} {c : Call β} {r : β} {d d' : Path} (hd : t.Absent d)
    (ha : (conduct L).allowed t c) : ¬ ((conduct L).next t c r).Absent d' := by
  cases t with
  | opening => exact hd.elim
  | handling h => exact Handling.not_absent_after hd ha

theorem effect_fault {c : Call β} {r : β} (h : fault c = some r) : effect c r = [] := by
  cases c with
  | fs op =>
    obtain rfl := Option.some.inj h
    cases op <;> rfl
  | respond response =>
    obtain rfl := Option.some.inj h
    rfl
  | _ => cases h

/-! The files. -/

theorem Layout.TameOp.confined {id : String} {op : FsOp Contents β} (h : L.TameOp id op) :
    L.Confined op := by
  cases op with
  | createDir p => exact h.inside
  | openFile p o => exact h.inside
  | edit p f => exact h.1.inside
  | removeFile p => exact h.inside
  | removeDir p => exact h.inside
  | rename src dst =>
    obtain ⟨r, hr, n, uuid, rfl, rfl⟩ := h
    exact ⟨(L.owned_statePath hr _ _).inside, (L.owned_statePath hr _ _).inside⟩
  | _ => trivial

theorem Handling.confined {h : Handling} {op : FsOp Contents β} (hr : h.root ∈ L.roots)
    (ha : h.allowsOp L op) (hn : ∀ d, h.phase ≠ .absent d) : L.Confined op := by
  rw [allowsOp.eq_def] at ha
  split at ha
  · rcases ha with ha | ha
    · exact ha.confined
    · cases op with
      | edit p f =>
        obtain ⟨n, chunk, rfl, -⟩ := ha
        exact source_inside hr (.inl rfl)
      | _ => exact ha.elim
  · exact ha.confined
  · cases op with
    | tryExists p => trivial
    | _ => exact ha.elim
  · next d hp => exact absurd hp (hn d)
  · exact ha.confined
  · exact ha.confined
  · exact ha.elim

/-- Everything outside the state directories is as it was. -/
structure Quiet (L : Layout) (t t' : FileTree Contents) : Prop where
  sound : L.Sound t'
  frame : ∀ p, ¬ L.Inside p → t'.get p = t.get p

variable {w : World}

theorem Layout.Confined.quiet {op : FsOp Contents β} (hs : L.Sound w.fs) (h : L.Confined op) :
    Quiet L w.fs (op.exec w.fs).2 := ⟨hs.confined h, fun _ hp => hs.frame_confined h hp⟩

/-- A state directory that is there is not made again. -/
theorem Layout.Sound.createDir_chain {p r : Path} (hs : L.Sound w.fs) (hr : r ∈ L.roots)
    (hp : p <:+ stateDirectory :: r) : (Call.fs (.createDir p)).changed w = w.fs := by
  change (w.fs.makeDir p).2 = w.fs
  rw [FileTree.makeDir]
  cases p with
  | nil => rfl
  | cons name p =>
    have hd := hs.chain r hr _ hp (List.cons_ne_nil name p)
    simp [FileTree.locate_real (FileTree.Real.of_get hd), hd]

theorem Layout.Opens.quiet {c : Call β} (hs : L.Sound w.fs) (h : L.Opens c) :
    Quiet L w.fs (c.changed w) := by
  have hconfined : ∀ {δ : Type} (op : FsOp Contents δ), L.Confined op →
      Quiet L w.fs (op.exec w.fs).2 := fun _ h => h.quiet hs
  cases c with
  | fs op =>
    cases op with
    | createDir p =>
      obtain ⟨r, hr, hp⟩ := h
      rw [hs.createDir_chain hr hp]
      exact ⟨hs, fun _ _ => rfl⟩
    | removeFile p => exact hconfined (.removeFile p) h
    | removeDir p => exact hconfined (.removeDir p) h
    | openFile => exact h.elim
    | edit => exact h.elim
    | rename => exact h.elim
    | _ => exact ⟨hs, fun _ _ => rfl⟩
  | _ => exact ⟨hs, fun _ _ => rfl⟩

/-- As long as a thread is not about to rename onto its destination, it keeps to the state
directories. -/
theorem allowed_quiet {t : Role} {c : Call β} (hs : L.Sound w.fs) (ht : t.Aimed L)
    (ha : (conduct L).allowed t c) (hn : ∀ d, ¬ t.Absent d) : Quiet L w.fs (c.changed w) := by
  cases t with
  | opening => exact Layout.Opens.quiet hs ha
  | handling h =>
    cases c with
    | fs op => exact (Handling.confined ht.root ha hn).quiet hs
    | _ => exact ⟨hs, fun _ _ => rfl⟩

/-- No thread breaks what all of them rely on. -/
theorem allowed_sound {t : Role} {c : Call β} (hs : L.Sound w.fs) (ht : t.Aimed L)
    (ha : (conduct L).allowed t c) : L.Sound (c.changed w) := by
  by_cases hn : ∃ d, t.Absent d
  · obtain ⟨d, hd⟩ := hn
    cases t with
    | opening => exact hd.elim
    | handling h =>
      obtain ⟨src, hsrc, he⟩ := Handling.absent_call hd ha
      obtain ⟨name, rfl⟩ := ht.destination d hd
      cases he
      exact hs.deliver ht.root (Handling.source_state hsrc)
  · exact (allowed_quiet hs ht ha fun d hd => hn ⟨d, hd⟩).sound

/-- A rename onto a name that nothing has leaves what is there alone. -/
theorem allowed_frame {t : Role} {c : Call β} {p : Path} (hs : L.Sound w.fs) (ht : t.Aimed L)
    (ha : (conduct L).allowed t c) (hv : ∀ d, t.Absent d → ¬ w.fs.Occupied d) (hp : ¬ L.Inside p)
    (ho : w.fs.Occupied p) : (c.changed w).get p = w.fs.get p := by
  by_cases hn : ∃ d, t.Absent d
  · obtain ⟨d, hd⟩ := hn
    have hv := hv d hd
    cases t with
    | opening => exact hd.elim
    | handling h =>
      obtain ⟨src, hsrc, he⟩ := Handling.absent_call hd ha
      obtain ⟨name, rfl⟩ := ht.destination d hd
      cases he
      obtain ⟨n, hn⟩ : ∃ n, w.fs.get p = some n := by
        rcases ho with hd | ⟨data, hd⟩
        · exact ⟨_, hd⟩
        · exact ⟨_, hd⟩
      rw [hn]
      exact hs.frame_deliver (Handling.source_inside ht.root hsrc) ht.root hv hp hn ho
  · exact (allowed_quiet hs ht ha fun d hd => hn ⟨d, hd⟩).frame p hp

/-- A rename onto a free name makes no entry at another one. -/
theorem allowed_free {t : Role} {c : Call β} {name : String} {r : Path} (hs : L.Sound w.fs)
    (ht : t.Aimed L) (ha : (conduct L).allowed t c) (hv : ∀ d, t.Absent d → ¬ w.fs.Occupied d)
    (hr : r ∈ L.roots) (hd : ¬ t.Absent (name :: r)) (hf : ¬ w.fs.Occupied (name :: r)) :
    ¬ (c.changed w).Occupied (name :: r) := by
  by_cases hn : ∃ d, t.Absent d
  · obtain ⟨d, hd'⟩ := hn
    have hv := hv d hd'
    cases t with
    | opening => exact hd'.elim
    | handling h =>
      obtain ⟨src, hsrc, he⟩ := Handling.absent_call hd' ha
      obtain ⟨name', rfl⟩ := ht.destination d hd'
      cases he
      have hne : name :: r ≠ name' :: h.root := fun he => hd (he ▸ hd')
      exact hs.free_deliver (Handling.source_inside ht.root hsrc) ht.root hr hv hne hf
  · have hquiet := allowed_quiet hs ht ha fun d hd => hn ⟨d, hd⟩
    rwa [FileTree.Occupied, hquiet.frame _ (L.not_inside_destination hr name)]

/-- What a handler has found free is free. -/
theorem absent_free {t : Role} {c : Call β} {d : Path} (hs : L.Sound w.fs) (ht : t.Aimed L)
    (ha : (conduct L).allowed t c) (hn : ∀ d, ¬ t.Absent d)
    (hd : ((conduct L).next t c (c.reply w)).Absent d) :
    ¬ w.fs.Occupied d ∧ c.changed w = w.fs := by
  cases t with
  | opening => exact hd.elim
  | handling h =>
    obtain ⟨⟨name, rfl⟩, -, he⟩ := Handling.absent_next hn ha hd
    obtain ⟨rfl, he⟩ := Sigma.mk.inj he
    obtain ⟨rfl, hr⟩ := Prod.mk.inj (eq_of_heq he)
    exact ⟨FileTree.not_occupied_of_exists (hs.real_destination ht.root name) hr, rfl⟩

/-- No failure makes a destination free. -/
theorem fault_not_absent {t : Role} {c : Call β} {r : β} {d : Path} (ha : (conduct L).allowed t c)
    (hf : fault c = some r) : ¬ ((conduct L).next t c r).Absent d := by
  intro hd
  cases t with
  | opening => exact hd
  | handling h =>
    by_cases hp : ∃ d', h.phase = .absent d'
    · obtain ⟨d', hp⟩ := hp
      exact Handling.not_absent_after hp ha hd
    · obtain ⟨-, -, he⟩ := Handling.absent_next (fun d' h' => hp ⟨d', h'⟩) ha hd
      obtain ⟨rfl, he⟩ := Sigma.mk.inj he
      obtain ⟨rfl, rfl⟩ := Prod.mk.inj (eq_of_heq he)
      cases hf

/-- A thread that has found its destination free is about to rename onto it. -/
theorem absent_program {Q : Unit → Role → Prop} {t : Role} {p : Program Call Unit} {d : Path}
    (hp : (conduct L).Follows Q t p) (hq : ∀ u, ¬ Q u t) (hd : t.Absent d) :
    ∃ src k, p = .call (.fs (.rename src d)) k := by
  cases t with
  | opening => exact hd.elim
  | handling h =>
    cases p with
    | ret u => exact absurd hp (hq u)
    | call c k =>
      obtain ⟨src, -, he⟩ := Handling.absent_call hd hp.1
      cases he
      exact ⟨src, k, rfl⟩

/-! Runs. -/

/-- What a user may do to the files, outside the state directories. -/
structure Edited (L : Layout) (w w' : World) : Prop where
  inside : ∀ p, L.Inside p → w'.fs.get p = w.fs.get p
  chain : ∀ r ∈ L.roots, ∀ q, q <:+ stateDirectory :: r → w'.fs.get q = w.fs.get q
  log : w'.log = w.log

theorem Edited.sound {w' : World} (he : Edited L w w') (hs : L.Sound w.fs) : L.Sound w'.fs :=
  ⟨fun r hr q hq hne => (he.chain r hr q hq).trans (hs.chain r hr q hq hne),
    fun p hp n hn => hs.plain p hp n ((he.inside p hp).symm.trans hn)⟩

/-- The state directories are as they are to be, and every thread relies on nothing else. -/
structure Tidy (L : Layout) (m : Server) (τ : Nat → Role) : Prop where
  sound : L.Sound m.world.fs
  aimed : Machine.Each (Role.Aimed L) m τ

/-- What threads have found free is free. -/
def Free (m : Server) (τ : Nat → Role) : Prop :=
  ∀ i d, (m.threads i).isSome → (τ i).Absent d → ¬ m.world.fs.Occupied d

namespace Tidy

open Machine

variable {m : Server} {τ : Nat → Role} {Q : Unit → Role → Prop} {i : Nat} {c : Call β}
  {k : β → Program Call Unit} {history : List Effect}

theorem init (hs : L.Sound w.fs) : Tidy L (Machine.init w) τ := ⟨hs, Each.init _ _⟩

theorem start (h : Tidy L m τ) {p : Program Call Unit} {t : Role} (ht : t.Aimed L) :
    Tidy L (m.start i p) (Function.update τ i t) := ⟨h.sound, h.aimed.start ht⟩

theorem stop (h : Tidy L m τ) : Tidy L (m.stop i) τ := ⟨h.sound, h.aimed.stop i⟩

theorem outside (h : Tidy L m τ) (he : Edited L m.world w) : Tidy L { m with world := w } τ :=
  ⟨he.sound h.sound, h.aimed⟩

theorem call (h : Tidy L m τ) (ha : (conduct L).allowed (τ i) c)
    (hi : m.threads i = some ⟨.call c k, history⟩) :
    Tidy L (m.advance i c k history (exec c m.world).1 (exec c m.world).2)
      (Function.update τ i ((conduct L).next (τ i) c (exec c m.world).1)) :=
  have ht := h.aimed i (by rw [hi]; rfl)
  ⟨allowed_sound h.sound ht ha, h.aimed.advance (Role.aimed_next ht ha)⟩

theorem fault (h : Tidy L m τ) (ha : (conduct L).allowed (τ i) c)
    (hi : m.threads i = some ⟨.call c k, history⟩) (r : β) :
    Tidy L (m.advance i c k history r m.world) (Function.update τ i ((conduct L).next (τ i) c r)) :=
  ⟨h.sound, h.aimed.advance (Role.aimed_next (h.aimed i (by rw [hi]; rfl)) ha)⟩

/-- What a thread has found free is a name in one of the roots. -/
theorem absent_destination (h : Tidy L m τ) (hi : (m.threads i).isSome) {d : Path}
    (hd : (τ i).Absent d) : ∃ name, ∃ r, r ∈ L.roots ∧ d = name :: r := by
  have ht := h.aimed i hi
  cases hτ : τ i with
  | opening =>
    rw [hτ] at hd
    exact hd.elim
  | handling g =>
    rw [hτ] at hd ht
    obtain ⟨name, rfl⟩ := ht.destination d hd
    exact ⟨name, g.root, ht.root, rfl⟩

end Tidy

namespace Free

open Machine

variable {m : Server} {τ : Nat → Role} {i : Nat} {c : Call β} {k : β → Program Call Unit}
  {history : List Effect}

theorem init : Free (Machine.init w) τ := fun i d hi => by cases hi

theorem start (h : Free m τ) {p : Program Call Unit} {t : Role} (ht : ∀ d, ¬ t.Absent d) :
    Free (m.start i p) (Function.update τ i t) := by
  intro j d hj hd
  by_cases hji : j = i
  · rw [hji, Function.update_self] at hd
    exact absurd hd (ht d)
  · simp only [Machine.start, Function.update_of_ne hji] at hj hd
    exact h j d hj hd

theorem stop (h : Free m τ) : Free (m.stop i) τ := by
  intro j d hj hd
  by_cases hji : j = i
  · simp [Machine.stop, hji] at hj
  · simp only [Machine.stop, Function.update_of_ne hji] at hj
    exact h j d hj hd

/-- No other thread makes an entry at a name that was found free, as long as only one of them
has found it. -/
theorem call (h : Free m τ) (ht : Tidy L m τ) (ha : (conduct L).allowed (τ i) c)
    (hi : m.threads i = some ⟨.call c k, history⟩)
    (hsolo : ∀ j d, (m.threads j).isSome → (τ j).Absent d → (τ i).Absent d → j = i) :
    Free (m.advance i c k history (exec c m.world).1 (exec c m.world).2)
      (Function.update τ i ((conduct L).next (τ i) c (exec c m.world).1)) := by
  have hsome : (m.threads i).isSome := by
    rw [hi]
    rfl
  have haimed := ht.aimed i hsome
  intro j d hj hd
  by_cases hji : j = i
  · subst hji
    rw [Function.update_self] at hd
    by_cases hn : ∃ d', (τ j).Absent d'
    · obtain ⟨d', hd'⟩ := hn
      exact absurd hd (Role.not_absent_after hd' ha)
    · obtain ⟨hv, he⟩ := absent_free ht.sound haimed ha (fun d' hd' => hn ⟨d', hd'⟩) hd
      change ¬ (c.changed m.world).Occupied d
      rwa [he]
  · simp only [Machine.advance, Function.update_of_ne hji] at hj hd
    obtain ⟨name, r, hr, rfl⟩ := ht.absent_destination hj hd
    exact allowed_free ht.sound haimed ha (fun d' hd' => h i d' hsome hd') hr
      (fun hd' => hji (hsolo j _ hj hd hd')) (h j _ hj hd)

theorem fault (h : Free m τ) (ha : (conduct L).allowed (τ i) c) {r : β}
    (hf : Shared.fault c = some r) :
    Free (m.advance i c k history r m.world)
      (Function.update τ i ((conduct L).next (τ i) c r)) := by
  intro j d hj hd
  by_cases hji : j = i
  · rw [hji, Function.update_self] at hd
    exact absurd hd (fault_not_absent ha hf)
  · simp only [Machine.advance, Function.update_of_ne hji] at hj hd
    exact h j d hj hd

end Free

end InkHole
