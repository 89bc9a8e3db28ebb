import InkHole.Operations

/-! The handlers of one transfer on several servers: one at a time writes to its part,
unless the lock of one server is taken while a handler of another server is at work. -/

set_option linter.unusedSectionVars false

namespace InkHole

open Machine

/-- The transfer whose lock was taken last and is not given up. -/
def Effect.writes : Option (Nat × String) → Effect → Option (Nat × String)
  | _, .entered (.transfer serial id) => some (serial, id)
  | _, .left (.transfer ..) => none
  | current, _ => current

/-- The transfer a thread with this past is at work on, between its preparation and its answer. -/
def writing (past : List Effect) : Option (Nat × String) := past.foldl Effect.writes none

section Writers

variable [Externals] {β : Type} {L : Layout} {s : TransferStore} {w : World} {m : Server}

def Role.writes : Role → Option (Nat × String)
  | .opening => none
  | .handling h => if h.phase.exclusive then some (h.store.serial, h.id) else none

theorem Role.writes_iff {t : Role} {serial : Nat} {id : String} :
    t.writes = some (serial, id) ↔ (conduct L).holds t (.transfer serial id) := by
  cases t with
  | opening => exact ⟨fun h => (by cases h), fun h => h.elim⟩
  | handling h =>
    simp only [Role.writes, Option.ite_none_right_eq_some, Option.some.injEq, Prod.mk.injEq]
    constructor
    · rintro ⟨he, rfl, rfl⟩
      exact ⟨he, rfl, rfl⟩
    · rintro ⟨he, rfl, rfl⟩
      exact ⟨he, rfl, rfl⟩

theorem Handling.writes_next {h : Handling} {c : Call β} {r : β} (ha : h.allows L c) :
    (effect c r).foldl Effect.writes (Role.handling h).writes = (Role.handling (h.next c r)).writes := by
  cases c with
  | fs op =>
    have hsame : (effect (Call.fs op) r).foldl Effect.writes (Role.handling h).writes =
        (Role.handling h).writes := by
      cases op with
      | rename src dst => cases r <;> rfl
      | _ => rfl
    have hl := (afterOp_locks h.phase h.commit op r).1
    rw [hsame, Role.writes, Role.writes, next, after, hl]
    rfl
  | newUuid => rfl
  | lock ℓ =>
    rcases ha with ⟨hp, rfl, -⟩ | ⟨hp, rfl⟩
    · rfl
    · have hl : h.phase.exclusive = true := by rw [hp]; rfl
      simp only [Role.writes, hl]
      rfl
  | unlock ℓ =>
    rcases ha with ⟨hp, -, rfl⟩ | ⟨hp, -, rfl⟩
    · have hl := exclusive_of_critical hp
      have hu := (afterUnlock_commit h.phase h.store.serial).1
      simp only [Role.writes, hl, next, after, hu]
      rfl
    · rfl
  | emit e =>
    cases e with
    | received =>
      have hl : h.phase.exclusive = true := by
        rcases ha.2 with hp | hp
        · rw [hp]
          rfl
        · rw [hp]
          rfl
      simp only [Role.writes, hl]
      rfl
    | _ => rfl
  | respond response => cases r <;> rfl

theorem Role.writes_next {t : Role} {c : Call β} {r : β} (ha : (conduct L).allowed t c) :
    (effect c r).foldl Effect.writes t.writes = ((conduct L).next t c r).writes := by
  cases t with
  | handling h => exact Handling.writes_next ha
  | opening =>
    cases c with
    | fs op =>
      cases op with
      | rename => exact ha.elim
      | _ => rfl
    | _ => exact ha.elim

theorem Role.Begins.writes {admits : TransferOffer → Prop} {t : Role} (h : t.Begins L admits s) :
    t.writes = none := by
  cases t with
  | opening => rfl
  | handling g =>
    rw [Role.writes, (h.admitted g rfl).2.1]
    rfl

/-! The part. -/

namespace Handling

variable {h : Handling}

theorem part_owned (hr : h.root ∈ L.roots) : L.Owned h.id h.part := L.owned_statePath hr _ _

/-- The call appends to a file. -/
def AppendsTo (p : Path) (chunk : Bytes) : Call β → Prop
  | .fs (.edit q f) => q = p ∧ f = Contents.append chunk
  | _ => False

/-- What a call can make of the part of a transfer: it is as it was, or empty, or a handler of that
transfer has appended to it. -/
inductive PartChange (h : Handling) (c : Call β) (id : String) (p : Path) (t : FileTree Contents)
    (data : Contents) : Prop where
  | kept : t.get p = some (.file data) → PartChange h c id p t data
  | emptied : h.phase.exclusive → h.id = id → data = FileData.empty → PartChange h c id p t data
  | appended (n : Nat) (chunk : Bytes) (old : Contents) :
    AppendsTo h.part chunk c → h.phase.exclusive → h.id = id → p = h.part →
      t.get p = some (.file old) → data = Contents.append chunk old → h.length = some n →
        n + chunk.length ≤ h.offer.size → PartChange h c id p t data

theorem part_tame {op : FsOp Contents β} {id : String} {r : Path} {data : Contents}
    (hs : L.Sound w.fs) (ht : h.Aimed L) (he : h.phase.exclusive) (hid : StateId id) (hr : r ∈ L.roots)
    (ha : L.TameOp h.id op) (hd : (op.exec w.fs).2.get (statePath r id "part") = some (.file data)) :
    PartChange h (.fs op) id (statePath r id "part") w.fs data := by
  have hid' := ht.stateId he
  have hc := FsOp.exec_change _ (hs.straight_confined ha.confined) (statePath r id "part")
  have howned := L.owned_statePath hr id "part"
  rw [hd] at hc
  generalize hp : statePath r id "part" = p at hc howned
  generalize hv : some (Node.file data) = v at hc
  cases hc with
  | kept => exact .kept hv.symm
  | made => cases hv
  | emptied =>
    have hsame : h.id = id := Layout.Owned.eq hid' hid ha howned
    cases hv
    exact .emptied he hsame rfl
  | edited =>
    have hsame : h.id = id := Layout.Owned.eq hid' hid ha.1 howned
    exact absurd (hsame ▸ hp.symm) (ha.2 r hr)
  | unlinked => cases hv
  | removed => cases hv
  | gone => cases hv
  | moved s =>
    exfalso
    obtain ⟨r', hr', n, uuid, -, rfl⟩ := ha
    have hsuffix : statePath r' h.id n.extension <:+ statePath r id "part" := hp ▸ List.suffix_append s _
    have hname := (stateName_eq hid' hid).mp (Layout.statePath_suffix hr' hr hsuffix)
    cases n <;> exact absurd hname.2 (by decide)

theorem part_change {c : Call β} {id : String} {r : Path} {data : Contents} (hs : L.Sound w.fs)
    (ht : h.Aimed L) (ha : h.allows L c) (hid : StateId id) (hr : r ∈ L.roots)
    (hd : (c.changed w).get (statePath r id "part") = some (.file data)) :
    PartChange h c id (statePath r id "part") w.fs data := by
  cases c with
  | fs op =>
    have ha : h.allowsOp L op := ha
    have hinside := (L.owned_statePath hr id "part").inside
    rw [allowsOp.eq_def] at ha
    split at ha
    · next hp =>
      have he : h.phase.exclusive = true := by rw [hp]; rfl
      have hstate := ht.stateId he
      rcases ha with ha | ha
      · exact part_tame hs ht he hid hr ha hd
      · cases op with
        | edit p f =>
          obtain ⟨n, chunk, rfl, rfl, hn, hle⟩ := ha
          have hc := FsOp.exec_change (.edit h.part (Contents.append chunk))
            (hs.straight_confined (source_inside ht.root (.inl rfl))) (statePath r id "part")
          rw [show (FsOp.exec (.edit h.part (Contents.append chunk)) w.fs).2.get (statePath r id "part") =
            some (.file data) from hd] at hc
          generalize hp : statePath r id "part" = p at hc
          generalize hv : some (Node.file data) = v at hc
          cases hc with
          | kept => exact .kept hv.symm
          | edited hold =>
            cases hv
            have hsuffix : statePath r id "part" <:+ statePath h.root h.id "part" := by
              rw [hp]
              exact List.suffix_rfl
            have hname := Layout.statePath_suffix hr ht.root hsuffix
            exact .appended n chunk _ ⟨rfl, rfl⟩ he ((stateName_eq hid hstate).mp hname).1.symm rfl hold rfl hn hle
        | _ => exact ha.elim
    · next hp => exact part_tame hs ht (by rw [hp]; rfl) hid hr ha hd
    · cases op with
      | tryExists p => exact .kept hd
      | _ => exact ha.elim
    · next dst hp =>
      obtain ⟨name, rfl⟩ := ht.destination dst hp
      cases op with
      | rename src dst =>
        obtain ⟨hsrc, rfl⟩ := ha
        rcases hs.deliver_inside name ht.root (source_state hsrc) hinside with he | ⟨-, he⟩
        · exact .kept (he.symm.trans hd)
        · cases he.symm.trans hd
      | _ => exact ha.elim
    · next hp => exact part_tame hs ht (by rw [hp]; rfl) hid hr ha hd
    · next hp => exact part_tame hs ht (by rw [hp]; rfl) hid hr ha hd
    · exact ha.elim
  | _ => exact .kept hd

theorem size_append (chunk : Bytes) (old : Contents) :
    FileData.size (Contents.append chunk old) = FileData.size old + chunk.length := by
  simp [FileData.size, Contents.append, Contents.toBytes]

/-- The part is not longer than the handler has been told. -/
def Bounded (h : Handling) (t : FileTree Contents) : Prop :=
  ∀ n data, h.length = some n → t.get h.part = some (.file data) → FileData.size data ≤ n

theorem Bounded.next {c : Call β} (hb : h.Bounded w.fs) (hs : L.Sound w.fs) (ht : h.Aimed L)
    (ha : h.allows L c) (he : h.phase.exclusive) : (h.next c (c.reply w)).Bounded (c.changed w) := by
  intro n data hnext hd
  have hchange := part_change hs ht ha (ht.stateId he) ht.root hd
  have hsame : h.length = some n →
      (∀ chunk, ¬ AppendsTo h.part chunk c) → FileData.size data ≤ n := by
    intro hn hnot
    cases hchange with
    | kept hold => exact hb n data hn hold
    | emptied _ _ hempty => rw [hempty]; exact Nat.zero_le n
    | appended _ chunk _ hc => exact absurd hc (hnot chunk)
  cases c with
  | fs op =>
    have hn : lengthAfterOp h.length h.part op (op.exec w.fs).1 = some n := hnext
    cases op with
    | metadata p =>
      cases hr : (FsOp.exec (.metadata p) w.fs).1 with
      | error e =>
        rw [hr] at hn
        exact hsame hn fun chunk hc => hc
      | ok metadata =>
        rw [hr] at hn
        change (if p = h.part then some metadata.len else h.length) = some n at hn
        split at hn
        · next hp =>
          subst hp
          have hstraight := hs.straight (source_inside ht.root (.inl rfl) : L.Inside h.part)
          have hm := FsOp.metadata_file hstraight hd hr
          have hlen := Option.some.inj hn
          rw [hm] at hlen
          exact hlen.le
        · exact hsame hn fun chunk hc => hc
    | openFile p o =>
      cases hr : (FsOp.exec (.openFile p o) w.fs).1 with
      | error e =>
        rw [hr] at hn
        exact hsame hn fun chunk hc => hc
      | ok u =>
        rw [hr] at hn
        simp only [lengthAfterOp] at hn
        split at hn
        · next hp =>
          obtain ⟨rfl, ho⟩ := hp
          have hstraight := hs.straight (source_inside ht.root (.inl rfl) : L.Inside h.part)
          have hempty := FsOp.openAt_truncate hstraight ho hr
          rw [show data = FileData.empty from Node.file.inj (Option.some.inj (hd.symm.trans hempty))]
          exact Nat.zero_le n
        · exact hsame hn fun chunk hc => hc
    | edit p f =>
      cases hr : (FsOp.exec (.edit p f) w.fs).1 with
      | error e =>
        rw [hr] at hn
        have hfs := FsOp.exec_error hr
        change (FsOp.exec (.edit p f) w.fs).2.get _ = _ at hd
        rw [hfs] at hd
        exact hb n data hn hd
      | ok u =>
        rw [hr] at hn
        simp only [lengthAfterOp] at hn
        split at hn
        · next hp =>
          obtain ⟨n', hn', rfl⟩ := Option.map_eq_some_iff.mp hn
          cases hchange with
          | kept hold => exact (hb n' data hn' hold).trans (Nat.le_add_right _ _)
          | emptied _ _ hempty => rw [hempty]; exact Nat.zero_le _
          | appended k chunk old hc _ _ _ hold hdata hk =>
            obtain ⟨rfl, rfl⟩ := hc
            rw [hdata, size_append]
            have hle := hb n' old hn' hold
            have hempty : FileData.size (Contents.append chunk FileData.empty) = chunk.length := by
              rw [size_append]
              exact Nat.zero_add _
            omega
        · next hp =>
          exact hsame hn fun chunk hc => hp hc.1
    | _ => exact hsame hn fun chunk hc => hc
  | _ => exact hsame hnext fun chunk hc => hc

theorem length_fault {c : Call β} {r : β} (hf : fault c = some r) : (h.next c r).length = h.length := by
  cases c with
  | fs op =>
    obtain rfl := Option.some.inj hf
    cases op <;> rfl
  | respond response => rfl
  | _ => cases hf

/-- A handler gets to work by taking its lock, and knows nothing of its part before. -/
theorem exclusive_from {c : Call β} {r : β} (ha : h.allows L c) (hn : (h.next c r).phase.exclusive) :
    h.phase.exclusive ∨ (h.phase = .waiting ∧ (h.next c r).length = h.length) := by
  rcases holds_next (r := r) (ℓ := .transfer h.store.serial h.id) ha ⟨hn, rfl, rfl⟩ with hq | hh
  · cases c with
    | lock ℓ =>
      rcases ha with ⟨hp, -⟩ | ⟨-, rfl⟩
      · exact .inr ⟨hp, rfl⟩
      · cases hq
    | _ => cases hq
  · exact .inl hh.1.1

theorem waiting_from {c : Call β} {r : β} (ha : h.allows L c) (hn : (h.next c r).phase = .waiting) :
    h.phase = .waiting ∧ (h.next c r).length = h.length := by
  cases c with
  | fs op =>
    have hl := (afterOp_locks h.phase h.commit op r).1
    rw [show afterOp h.phase h.commit op r = .waiting from hn] at hl
    cases hp : h.phase <;> simp [hp, Phase.exclusive] at hl
    all_goals simp [allows, allowsOp, hp] at ha
  | lock ℓ => cases ℓ <;> cases hn
  | unlock ℓ =>
    cases ℓ with
    | transfer => cases hn
    | commit =>
      simp only [next, after, afterUnlock] at hn
      split at hn <;> cases hn
  | emit e =>
    cases e with
    | received => cases hn
    | _ => exact ⟨hn, rfl⟩
  | newUuid => exact ⟨hn, rfl⟩
  | respond response => exact ⟨hn, rfl⟩

end Handling

/-- Opening a store writes to no part. -/
theorem opens_part {c : Call β} {p : Path} {data : Contents} (hs : L.Sound w.fs) (ha : L.Opens c)
    (hp : L.Inside p) (hd : (c.changed w).get p = some (.file data)) : w.fs.get p = some (.file data) := by
  have hremove : ∀ {op : FsOp Contents Unit} {q : Path}, (op = .removeFile q ∨ op = .removeDir q) →
      L.Inside q → (op.exec w.fs).2.get p = some (.file data) → w.fs.get p = some (.file data) := by
    intro op q hop hq hd
    have hconfined : L.Confined op := by rcases hop with rfl | rfl <;> exact hq
    have hc := FsOp.exec_change _ (hs.straight_confined hconfined) p
    rw [hd] at hc
    generalize hv : some (Node.file data) = v at hc
    cases hc with
    | kept => rfl
    | unlinked => cases hv
    | removed => cases hv
    | _ => rcases hop with hop | hop <;> cases hop
  cases c with
  | fs op =>
    cases op with
    | createDir q =>
      obtain ⟨r, hr, hq⟩ := ha
      have hframe := FsOp.exec_change (t := w.fs) (.createDir q) (fun x hx hne hn target => ?_) p
      · rw [show (FsOp.exec (.createDir q) w.fs).2.get p = some (.file data) from hd] at hframe
        generalize hv : some (Node.file data) = v at hframe
        cases hframe with
        | kept => rfl
        | made => cases hv
      · rw [hs.chain r hr x (hx.trans hq) hn]
        simp
    | removeFile q => exact hremove (.inl rfl) ha hd
    | removeDir q => exact hremove (.inr rfl) ha hd
    | openFile => exact ha.elim
    | edit => exact ha.elim
    | rename => exact ha.elim
    | _ => exact hd
  | _ => exact hd

/-- The handlers of one transfer: one at a time is at work, whatever the server, its part is no
longer than its offer, and it knows how long that is at most. -/
structure OneWriter (L : Layout) (id : String) (size : Nat) (m : Server) (τ : Nat → Role) : Prop where
  tidy : Tidy L m τ
  admitted : Each (fun t => ∀ h, t = .handling h → h.id = id → h.offer.size = size) m τ
  past : ∀ i t, m.threads i = some t → writing t.history = (τ i).writes
  sole : ∀ i j a b, (m.threads i).isSome → (m.threads j).isSome → (τ i).writes = some (a, id) →
    (τ j).writes = some (b, id) → a = b
  part : ∀ r ∈ L.roots, ∀ data, m.world.fs.get (statePath r id "part") = some (.file data) →
    FileData.size data ≤ size
  bounded : ∀ i h, (m.threads i).isSome → τ i = .handling h → h.id = id →
    (h.phase = .waiting → h.length = none) ∧ (h.phase.exclusive → h.Bounded m.world.fs)

namespace OneWriter

variable {Q : Unit → Role → Prop} {τ : Nat → Role} {i : Nat} {id : String} {size : Nat}

theorem alone (h : OneWriter L id size m τ) (ha : Annotated (conduct L) Q m τ) {j a b : Nat}
    (hi : (m.threads i).isSome) (hj : (m.threads j).isSome) (hwi : (τ i).writes = some (a, id))
    (hwj : (τ j).writes = some (b, id)) : i = j := by
  obtain rfl := h.sole i j a b hi hj hwi hwj
  exact ha.exclusive hi hj (Role.writes_iff.mp hwi) (Role.writes_iff.mp hwj)

theorem init (hw : L.Sound w.fs) (hpart : ∀ r ∈ L.roots, ∀ data,
      w.fs.get (statePath r id "part") = some (.file data) → FileData.size data ≤ size) :
    OneWriter L id size (Machine.init w) τ where
  tidy := Tidy.init hw
  admitted := Each.init _ _
  past i t hi := by cases hi
  sole i j a b hi := by cases hi
  part := hpart
  bounded i h hi := by cases hi

theorem stop (h : OneWriter L id size m τ) (i : Nat) : OneWriter L id size (m.stop i) τ := by
  have hold : ∀ {j t}, (m.stop i).threads j = some t → m.threads j = some t := by
    intro j t hj
    by_cases hji : j = i
    · simp [Machine.stop, hji] at hj
    · simpa only [Machine.stop, Function.update_of_ne hji] using hj
  have hlive : ∀ {j}, ((m.stop i).threads j).isSome → (m.threads j).isSome := by
    intro j hj
    obtain ⟨t, ht⟩ := Option.isSome_iff_exists.mp hj
    rw [hold ht]
    rfl
  exact ⟨h.tidy.stop, h.admitted.stop i, fun j t hj => h.past j t (hold hj),
    fun j k a b hj hk => h.sole j k a b (hlive hj) (hlive hk), h.part,
    fun j g hj => h.bounded j g (hlive hj)⟩

theorem start (h : OneWriter L id size m τ) {admits : TransferOffer → Prop} {p : Program Call Unit}
    {t : Role} (ht : t.Begins L admits s)
    (hsize : ∀ offer, admits offer → offer.transferId = id → offer.size = size) :
    OneWriter L id size (m.start i p) (Function.update τ i t) := by
  have hold : ∀ {j}, j ≠ i → (m.start i p).threads j = m.threads j := fun hji => by
    simp only [Machine.start, Function.update_of_ne hji]
  have hwrites : ∀ {j a}, (Function.update τ i t j).writes = some (a, id) → j ≠ i := by
    rintro j a hj rfl
    rw [Function.update_self, ht.writes] at hj
    cases hj
  refine ⟨h.tidy.start ht.aimed, h.admitted.start fun g hg hid => hsize _ (ht.admitted g hg).1 hid,
    fun j u hj => ?_, fun j k a b hj hk hwj hwk => ?_, h.part, fun j g hj hg hid => ?_⟩
  · by_cases hji : j = i
    · subst hji
      simp only [Machine.start, Function.update_self, Option.some.injEq] at hj
      rw [← hj, Function.update_self, ht.writes]
      rfl
    · rw [hold hji] at hj
      rw [Function.update_of_ne hji]
      exact h.past j u hj
  · have hji := hwrites hwj
    have hki := hwrites hwk
    rw [hold hji] at hj
    rw [hold hki] at hk
    rw [Function.update_of_ne hji] at hwj
    rw [Function.update_of_ne hki] at hwk
    exact h.sole j k a b hj hk hwj hwk
  · by_cases hji : j = i
    · subst hji
      rw [Function.update_self] at hg
      obtain ⟨-, hp, hn⟩ := ht.admitted g hg
      exact ⟨fun _ => hn, fun he => by rw [hp] at he; cases he⟩
    · rw [hold hji] at hj
      rw [Function.update_of_ne hji] at hg
      exact h.bounded j g hj hg hid

theorem outside (h : OneWriter L id size m τ) (he : Edited L m.world w) :
    OneWriter L id size { m with world := w } τ := by
  have hsame : ∀ {p}, L.Inside p → w.fs.get p = m.world.fs.get p := fun hp => he.inside _ hp
  refine ⟨h.tidy.outside he, h.admitted, h.past, h.sole, fun r hr data hd => ?_, fun j g hj hg hid => ?_⟩
  · refine h.part r hr data ?_
    rw [← hsame (L.owned_statePath hr id "part").inside]
    exact hd
  · refine ⟨(h.bounded j g hj hg hid).1, fun hex n data hn hd => ?_⟩
    have haimed := h.tidy.aimed j hj
    rw [hg] at haimed
    refine (h.bounded j g hj hg hid).2 hex n data hn ?_
    rw [← hsame (Handling.source_inside haimed.root (.inl rfl))]
    exact hd

section Advance

variable {c : Call β} {k : β → Program Call Unit} {before : List Effect}

/-- A lock of the transfer is taken only while no thread of another server holds its own. -/
def Apart (m : Server) (τ : Nat → Role) (id : String) (c : Call β) : Prop :=
  ∀ a, acquires c = some (Lock.transfer a id) → ∀ j b, (m.threads j).isSome →
    (τ j).writes = some (b, id) → b = a

theorem past_advance (h : OneWriter L id size m τ) (ha : (conduct L).allowed (τ i) c)
    (hi : m.threads i = some ⟨.call c k, before⟩) (r : β) (j : Nat) (t : Thread Call Effect Unit)
    (hj : (m.advance i c k before r w).threads j = some t) :
    writing t.history = (Function.update τ i ((conduct L).next (τ i) c r) j).writes := by
  by_cases hji : j = i
  · subst hji
    simp only [Machine.advance, Function.update_self, Option.some.injEq] at hj
    have hbefore : writing before = (τ j).writes := h.past j _ hi
    rw [← hj, Function.update_self, writing, List.foldl_append, ← Role.writes_next ha, ← hbefore]
    rfl
  · simp only [Machine.advance, Function.update_of_ne hji] at hj ⊢
    exact h.past j t hj

theorem sole_advance (h : OneWriter L id size m τ) (ha : (conduct L).allowed (τ i) c)
    (hi : m.threads i = some ⟨.call c k, before⟩) (hr : Apart m τ id c) (r : β) (j l a b : Nat)
    (hj : ((m.advance i c k before r w).threads j).isSome)
    (hl : ((m.advance i c k before r w).threads l).isSome)
    (hwj : (Function.update τ i ((conduct L).next (τ i) c r) j).writes = some (a, id))
    (hwl : (Function.update τ i ((conduct L).next (τ i) c r) l).writes = some (b, id)) : a = b := by
  have hold : ∀ {j a}, ((m.advance i c k before r w).threads j).isSome →
      (Function.update τ i ((conduct L).next (τ i) c r) j).writes = some (a, id) →
        ((m.threads j).isSome ∧ (τ j).writes = some (a, id)) ∨
          acquires c = some (Lock.transfer a id) := by
    intro j a hj hw
    by_cases hji : j = i
    · subst hji
      rw [Function.update_self, Role.writes_iff] at hw
      rcases conduct_locking L _ c r _ ha hw with hq | ⟨hh, -⟩
      · exact .inr hq
      · exact .inl ⟨by rw [hi]; rfl, Role.writes_iff.mpr hh⟩
    · simp only [Machine.advance, Function.update_of_ne hji] at hj hw
      exact .inl ⟨hj, hw⟩
  rcases hold hj hwj with ⟨hj, hwj⟩ | hqj
  · rcases hold hl hwl with ⟨hl, hwl⟩ | hql
    · exact h.sole j l a b hj hl hwj hwl
    · exact hr b hql j a hj hwj
  · rcases hold hl hwl with ⟨hl, hwl⟩ | hql
    · exact (hr a hqj l b hl hwl).symm
    · have he := Option.some.inj (hqj.symm.trans hql)
      exact (Lock.transfer.inj he).1

/-- Only the handler at work on the transfer writes to its part. -/
theorem part_untouched (h : OneWriter L id size m τ) (ha : Annotated (conduct L) Q m τ)
    (hid : StateId id) (hi : m.threads i = some ⟨.call c k, before⟩) {r : Path} (hr : r ∈ L.roots)
    {data : Contents} (hn : ∀ a, (τ i).writes ≠ some (a, id))
    (hd : (c.changed m.world).get (statePath r id "part") = some (.file data)) :
    m.world.fs.get (statePath r id "part") = some (.file data) := by
  have haimed := h.tidy.aimed i (by rw [hi]; rfl)
  have hallowed := (ha.follows i _ hi).1
  cases hτ : τ i with
  | opening =>
    rw [hτ] at hallowed
    exact opens_part h.tidy.sound hallowed (L.owned_statePath hr id "part").inside hd
  | handling g =>
    rw [hτ] at hallowed haimed hn
    have hnot : g.phase.exclusive → g.id ≠ id := by
      rintro he rfl
      exact hn g.store.serial (if_pos he)
    cases Handling.part_change h.tidy.sound haimed hallowed hid hr hd with
    | kept hold => exact hold
    | emptied he hsame => exact absurd hsame (hnot he)
    | appended _ _ _ _ he hsame => exact absurd hsame (hnot he)

theorem part_advance (h : OneWriter L id size m τ) (ha : Annotated (conduct L) Q m τ)
    (hid : StateId id) (hi : m.threads i = some ⟨.call c k, before⟩) {r : Path} (hr : r ∈ L.roots)
    {data : Contents} (hd : (c.changed m.world).get (statePath r id "part") = some (.file data)) :
    FileData.size data ≤ size := by
  have hlive : (m.threads i).isSome := by rw [hi]; rfl
  have haimed := h.tidy.aimed i hlive
  have hallowed := (ha.follows i _ hi).1
  cases hτ : τ i with
  | opening =>
    exact h.part r hr data (h.part_untouched ha hid hi hr (fun a hw => by rw [hτ] at hw; cases hw) hd)
  | handling g =>
    rw [hτ] at hallowed haimed
    cases Handling.part_change h.tidy.sound haimed hallowed hid hr hd with
    | kept hold => exact h.part r hr data hold
    | emptied _ _ hempty => rw [hempty]; exact Nat.zero_le size
    | appended n chunk old _ he hsame hp hold hdata hn hle =>
      have hold := (h.bounded i g hlive hτ hsame).2 he n old hn (hp ▸ hold)
      have hsize := h.admitted i hlive g hτ hsame
      rw [hdata, Handling.size_append]
      omega

theorem bounded_advance (h : OneWriter L id size m τ) (ha : Annotated (conduct L) Q m τ)
    (hid : StateId id) (hi : m.threads i = some ⟨.call c k, before⟩) (j : Nat) (g : Handling)
    (hj : ((m.advance i c k before (exec c m.world).1 (exec c m.world).2).threads j).isSome)
    (hg : Function.update τ i ((conduct L).next (τ i) c (exec c m.world).1) j = .handling g)
    (hsame : g.id = id) :
    (g.phase = .waiting → g.length = none) ∧
      (g.phase.exclusive → g.Bounded (c.changed m.world)) := by
  have hlive : (m.threads i).isSome := by rw [hi]; rfl
  by_cases hji : j = i
  · subst hji
    have haimed := h.tidy.aimed j hlive
    have hallowed := (ha.follows j _ hi).1
    rw [Function.update_self] at hg
    cases hτ : τ j with
    | opening =>
      rw [hτ] at hg
      cases hg
    | handling g' =>
      rw [hτ] at hg hallowed haimed
      cases hg
      have hb := h.bounded j g' hlive hτ hsame
      refine ⟨fun hp => ?_, fun he => ?_⟩
      · obtain ⟨hp', hn⟩ := Handling.waiting_from hallowed hp
        exact hn.trans (hb.1 hp')
      · rcases Handling.exclusive_from hallowed he with he' | ⟨hp', hn⟩
        · exact (hb.2 he').next h.tidy.sound haimed hallowed he'
        · intro n data hlength
          rw [hn, hb.1 hp'] at hlength
          cases hlength
  · simp only [Machine.advance, Function.update_of_ne hji] at hj hg
    have hb := h.bounded j g hj hg hsame
    refine ⟨hb.1, fun he n data hn hd => hb.2 he n data hn ?_⟩
    have haimed := h.tidy.aimed j hj
    rw [hg] at haimed
    subst hsame
    refine h.part_untouched ha hid hi haimed.root (fun a hw => hji ?_) hd
    have hwj : (τ j).writes = some (g.store.serial, g.id) := by
      rw [hg]
      exact if_pos he
    exact h.alone ha hj hlive hwj hw

theorem call (h : OneWriter L id size m τ) (ha : Annotated (conduct L) Q m τ) (hid : StateId id)
    (hi : m.threads i = some ⟨.call c k, before⟩) (hr : Apart m τ id c) :
    OneWriter L id size (m.advance i c k before (exec c m.world).1 (exec c m.world).2)
      (Function.update τ i ((conduct L).next (τ i) c (exec c m.world).1)) := by
  have hallowed := (ha.follows i _ hi).1
  have hlive : (m.threads i).isSome := by rw [hi]; rfl
  refine ⟨h.tidy.call hallowed hi, h.admitted.advance fun g hg hsame => ?_,
    h.past_advance hallowed hi _, h.sole_advance hallowed hi hr _,
    fun r hr data hd => h.part_advance ha hid hi hr hd, h.bounded_advance ha hid hi⟩
  cases hτ : τ i with
  | opening =>
    rw [hτ] at hg
    cases hg
  | handling g' =>
    rw [hτ] at hg
    cases hg
    exact h.admitted i hlive g' hτ hsame

theorem fault (h : OneWriter L id size m τ) (ha : Annotated (conduct L) Q m τ)
    (hi : m.threads i = some ⟨.call c k, before⟩) {r : β} (hf : Shared.fault c = some r) :
    OneWriter L id size (m.advance i c k before r m.world)
      (Function.update τ i ((conduct L).next (τ i) c r)) := by
  have hallowed := (ha.follows i _ hi).1
  have hlive : (m.threads i).isSome := by rw [hi]; rfl
  have hapart : Apart m τ id c := by
    intro a hq
    cases c with
    | lock => cases hf
    | _ => cases hq
  refine ⟨h.tidy.fault hallowed hi r, h.admitted.advance fun g hg hsame => ?_,
    h.past_advance hallowed hi r, h.sole_advance hallowed hi hapart r, h.part, fun j g hj hg hsame => ?_⟩
  · cases hτ : τ i with
    | opening =>
      rw [hτ] at hg
      cases hg
    | handling g' =>
      rw [hτ] at hg
      cases hg
      exact h.admitted i hlive g' hτ hsame
  · by_cases hji : j = i
    · subst hji
      rw [Function.update_self] at hg
      cases hτ : τ j with
      | opening =>
        rw [hτ] at hg
        cases hg
      | handling g' =>
        rw [hτ] at hg hallowed
        cases hg
        have hb := h.bounded j g' hlive hτ hsame
        have hlength : (g'.next c r).length = g'.length := Handling.length_fault hf
        refine ⟨fun hp => hlength.trans (hb.1 (Handling.waiting_from hallowed hp).1), fun he n data hn => ?_⟩
        rw [hlength] at hn
        rcases Handling.exclusive_from hallowed he with he' | ⟨hp', -⟩
        · exact hb.2 he' n data hn
        · rw [hb.1 hp'] at hn
          cases hn
    · simp only [Machine.advance, Function.update_of_ne hji] at hj hg
      exact h.bounded j g hj hg hsame

end Advance

end OneWriter

/-- Servers over the same roots: each has a store with locks of its own. -/
def servers (L : Layout) (admits : TransferOffer → Prop) (m : Server) : Action Call World Unit → Prop
  | .spawn _ p => ∃ s : TransferStore, (∀ r ∈ s.categoryRoots.allRoots s.inbox, r ∈ L.roots) ∧
      Serves admits s p
  | .outside w => Edited L m.world w
  | _ => True

/-- A handler begins to work on the transfer only while no handler of another server does. -/
def OneServerAtATime (id : String) (m : Server) : Action Call World Unit → Prop
  | .call i => ∀ t serial k, m.threads i = some t → t.program = .call (.lock (.transfer serial id)) k →
      ∀ j u other, m.threads j = some u → writing u.history = some (other, id) → other = serial
  | _ => True

theorem oneWriter_preserved {id : String} {size : Nat} (hid : StateId id) {admits : TransferOffer → Prop}
    (hsize : ∀ offer, admits offer → offer.transferId = id → offer.size = size) :
    Preserved (conduct L) (fun _ t => t.Out) (fun m a => servers L admits m a ∧ OneServerAtATime id m a)
      (OneWriter L id size) where
  spawn m τ i p ha h hr hi := by
    obtain ⟨s, hroots, hp⟩ := hr.1
    obtain ⟨t, hf, hb⟩ := hp.follows hroots
    exact ⟨t, hf, hb.free, h.start hb hsize⟩
  call m τ i c k past ha h hr hi hfree := by
    refine h.call ha hid hi fun a hq j b hj hw => ?_
    cases c with
    | lock ℓ =>
      obtain rfl := Option.some.inj hq
      obtain ⟨u, hu⟩ := Option.isSome_iff_exists.mp hj
      exact hr.2 _ a k hi rfl j u b hu ((h.past j u hu).trans hw)
    | _ => cases hq
  fault m τ i c k past r ha h hr hi hfree hf := h.fault ha hi hf
  finish m τ i a past ha h hr hi := h.stop i
  abort m τ i ha h hr hi := h.stop i
  crash m τ ha h hr := OneWriter.init h.tidy.sound h.part
  outside m τ w ha h hr := h.outside hr.1

/-- At most one handler is at work on the transfer, and its part is no longer than its offer. -/
structure SingleWriter (L : Layout) (id : String) (size : Nat) (m : Server) : Prop where
  writer : ∀ i j t u a b, m.threads i = some t → m.threads j = some u →
    writing t.history = some (a, id) → writing u.history = some (b, id) → i = j
  part : ∀ r ∈ L.roots, ∀ data, m.world.fs.get (statePath r id "part") = some (.file data) →
    FileData.size data ≤ size

/-- A transfer is offered with one size. -/
def Sized (id : String) (size : Nat) (offer : TransferOffer) : Prop :=
  offer.transferId = id → offer.size = size

end Writers

attribute [local instance] Sample.externals

def Call.takesTransfer {β : Type} : Call β → Bool
  | .lock (.transfer ..) => true
  | _ => false

def takesNoTransfer (m : Server) (_ : Action Call World Unit) : Bool :=
  match m.threads 0 with
  | some ⟨.call c _, _⟩ => !c.takesTransfer
  | _ => true

end InkHole
