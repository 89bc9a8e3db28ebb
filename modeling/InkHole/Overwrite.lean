import InkHole.Operations

/-! A store overwrites nothing that it finds in a destination root, whichever of its
operations run at once and wherever they are cut off. -/

set_option linter.unusedSectionVars false

namespace InkHole

open Machine

section Overwrite

variable [Externals] {L : Layout} {s : TransferStore} {w : World} {m : Server}

/-- The threads of one store. Others may edit the files outside the state directories, but make
no entry at a name between the check that it is free and the rename onto it. -/
def oneStore (L : Layout) (s : TransferStore) (m : Server) : Action Call World Unit → Prop
  | .spawn _ p => ∃ op : Operation, op.Valid s ∧ p = op.program s
  | .outside w => Edited L m.world w ∧ ∀ i src d k history,
      m.threads i = some ⟨.call (.fs (.rename src d)) k, history⟩ →
        ¬ m.world.fs.Occupied d → ¬ w.fs.Occupied d
  | _ => True

/-- What holds of the threads of one store at every moment. -/
structure Members (L : Layout) (s : TransferStore) (m : Server) (τ : Nat → Role) : Prop where
  tidy : Tidy L m τ
  free : Free m τ
  store : Each (Role.Of s) m τ

/-- The commit lock of the store lets one thread at a time look for a free name. -/
theorem Members.solo {Q : Unit → Role → Prop} {τ : Nat → Role} {i j : Nat} {d d' : Path}
    (h : Members L s m τ) (ha : Annotated (committing L) Q m τ) (hj : (m.threads j).isSome)
    (hi : (m.threads i).isSome) (hdj : (τ j).Absent d) (hdi : (τ i).Absent d') : j = i :=
  ha.exclusive hj hi ((h.store j hj).holds hdj) ((h.store i hi).holds hdi)

theorem oneStore_preserved (hroots : L.roots = s.categoryRoots.allRoots s.inbox) :
    Preserved (committing L) (fun _ t => Operation.Settled t) (oneStore L s) (Members L s) where
  spawn m τ i p ha h hr hi := by
    obtain ⟨op, hv, rfl⟩ := hr
    obtain ⟨t, hf, haimed, hof, hl, hn⟩ := op.follows_program (fun r hr => hroots ▸ hr) hv
    exact ⟨t, follows_committing.mpr hf, hl, h.tidy.start haimed, h.free.start hn, h.store.start hof⟩
  call m τ i c k history ha h hr hi hfree :=
    have hsome : (m.threads i).isSome := by rw [hi]; rfl
    have hallowed := (ha.follows i _ hi).1
    ⟨h.tidy.call hallowed hi, h.free.call h.tidy hallowed hi fun j d hj hdj hdi =>
      h.solo ha hj hsome hdj hdi, h.store.advance ((h.store i hsome).next L)⟩
  fault m τ i c k history r ha h hr hi hfree hf :=
    have hsome : (m.threads i).isSome := by rw [hi]; rfl
    have hallowed := (ha.follows i _ hi).1
    ⟨h.tidy.fault hallowed hi r, h.free.fault hallowed hf, h.store.advance ((h.store i hsome).next L)⟩
  finish m τ i a history ha h hr hi := ⟨h.tidy.stop, h.free.stop, h.store.stop i⟩
  abort m τ i ha h hr hi := ⟨h.tidy.stop, h.free.stop, h.store.stop i⟩
  crash m τ ha h hr := ⟨Tidy.init h.tidy.sound, Free.init, Each.init _ _⟩
  outside m τ w ha h hr := by
    refine ⟨h.tidy.outside hr.1, fun i d hi hd => ?_, h.store⟩
    obtain ⟨t, ht⟩ := Option.isSome_iff_exists.mp hi
    obtain ⟨src, k, hp⟩ := absent_program (follows_committing.mp (ha.follows i t ht)) (fun _ hq => hq d hd) hd
    exact hr.2 i src d k t.history (by rw [ht, ← hp]) (h.free i d hi hd)

/-- In every run of one store, whatever is done in it by others and wherever it is cut off, no step
of the store changes a file or a directory outside the state directories: none is overwritten,
truncated or removed. -/
theorem no_overwrite (hroots : L.roots = s.categoryRoots.allRoots s.inbox) (hw : L.Sound w.fs)
    (hr : Reachable (oneStore L s) (Machine.init w) m) {m' : Server} {a : Action Call World Unit}
    (ha : oneStore L s m a) (hs : m.step a = some m') (hstore : ∀ w', a ≠ .outside w') {p : Path}
    (hp : ¬ L.Inside p) (ho : m.world.fs.Occupied p) : m'.world.fs.get p = m.world.fs.get p := by
  have h₀ : Members L s (Machine.init w) fun _ => .opening :=
    ⟨Tidy.init hw, Free.init, Each.init _ _⟩
  obtain ⟨τ, hann, hm⟩ := (oneStore_preserved hroots).reachable (committing_locking L) h₀ hr
  rcases step_world hs with h | ⟨w', rfl, -⟩ | ⟨i, β, c, k, history, hi, h⟩
  · rw [h]
  · exact absurd rfl (hstore w')
  · have hsome : (m.threads i).isSome := by rw [hi]; rfl
    rw [h]
    exact allowed_frame hm.tidy.sound (hm.tidy.aimed i hsome) (hann.follows i _ hi).1
      (fun d hd => hm.free i d hsome hd) hp ho

end Overwrite

attribute [local instance] Sample.externals

/-- A handler delivers its file beside one that is there. -/
theorem no_overwrite_beside : ∃ m m' : Server, m.step (.call 0) = some m' ∧
    m'.world.fs.get ["a.txt", "inbox"] = some (.file (.bytes [65])) ∧
      m'.world.fs.get ["old.txt", "inbox"] = m.world.fs.get ["old.txt", "inbox"] := by
  let run : List (Action Call World Unit) :=
    .spawn 0 (Operation.program (Sample.store 0) (.serve Sample.first (.error .json) (Sample.peer [65]))) ::
      List.replicate 30 (.call 0)
  have hrun : ((Machine.init Sample.world : Server).runActions run).bind (fun m =>
      (m.step (.call 0)).map fun m' => (m.world.fs.get ["old.txt", "inbox"],
        m'.world.fs.get ["a.txt", "inbox"])) =
      some (some (.file (.bytes [64])), some (.file (.bytes [65]))) := by decide +kernel
  obtain ⟨m, hm, hstep⟩ := Option.bind_eq_some_iff.mp hrun
  obtain ⟨m', hm', he⟩ := Option.map_eq_some_iff.mp hstep
  obtain ⟨hold, hnew⟩ := Prod.mk.inj he
  have hregime : ∀ a ∈ run, ∀ m, oneStore Sample.layout (Sample.store 0) m a := by
    intro a ha m
    rcases List.mem_cons.mp ha with rfl | ha
    · exact ⟨.serve Sample.first (.error .json) (Sample.peer [65]), trivial, rfl⟩
    · rw [List.eq_of_mem_replicate ha]
      trivial
  exact ⟨m, m', hm', hnew, no_overwrite (L := Sample.layout) (s := Sample.store 0) rfl Sample.sound
    (a := .call 0) (Reachable.refl.runActions hregime hm) trivial hm' (fun w' h => by cases h)
    (Sample.layout.not_inside_destination (List.mem_singleton.mpr rfl) "old.txt") (.inr ⟨_, hold⟩)⟩

end InkHole
