import InkHole.Footprint

/-! How a handler conducts itself: the order in which it takes its locks, writes its
commit record, looks for its destination, renames onto it and announces it. Nothing a
handler does depends on the other threads keeping to the same order. -/

set_option linter.unusedSectionVars false

namespace InkHole

open Fallible

variable [Externals] {α β : Type}

inductive Phase where
  | waiting
  | working
  | committing
  | recorded
  | absent (destination : Path)
  | renamed (destination : Path)
  | skipped
  | committed (destination : Path)
  | passed
  | closed
  deriving DecidableEq, Repr

/-- Under the commit lock. -/
def Phase.critical : Phase → Bool
  | .committing => true
  | .recorded => true
  | .absent _ => true
  | .renamed _ => true
  | .skipped => true
  | _ => false

/-- Under the lock of the transfer. -/
def Phase.exclusive : Phase → Bool
  | .waiting => false
  | .closed => false
  | _ => true

/-- The destination that was renamed onto and is still to be announced. -/
def Phase.owed : Phase → Option Path
  | .renamed d => some d
  | .committed d => some d
  | _ => none

/-- A handler and the length its part is known to have at most. -/
structure Handling where
  store : TransferStore
  offer : TransferOffer
  phase : Phase
  length : Option Nat

namespace Handling

variable (h : Handling)

def root : Path := h.store.destinationRoot h.offer
def id : String := h.offer.transferId
def part : Path := statePath h.root h.id "part"
def folderPart : Path := statePath h.root h.id "folder.part"
def commit : Path := statePath h.root h.id "commit.json"

def afterRead (phase : Phase) : Except IoError Contents → Phase
  | .ok (.json (.commit _)) => if phase = .committing then .recorded else phase
  | _ => phase

def afterRename (phase : Phase) (toCommit : Bool) : Except IoError Unit → Phase
  | .ok () =>
    match phase with
    | .committing => if toCommit then .recorded else phase
    | .absent d => .renamed d
    | _ => phase
  | .error _ =>
    match phase with
    | .absent _ => .recorded
    | _ => phase

def afterSearch (phase : Phase) (p : Path) : Except IoError Bool → Phase
  | .ok found => if phase = .recorded then if found then .skipped else .absent p else phase
  | .error _ => phase

def afterOp (phase : Phase) (commit : Path) : FsOp Contents β → Except IoError β → Phase
  | .read p => fun r => if p = commit then afterRead phase r else phase
  | .rename _ dst => afterRename phase (dst = commit)
  | .tryExists p => afterSearch phase p
  | _ => fun _ => phase

def afterUnlock (phase : Phase) : Lock → Phase
  | .commit _ =>
    match phase with
    | .renamed d => .committed d
    | .skipped => .passed
    | _ => .working
  | .transfer .. => .closed

def after (phase : Phase) (commit : Path) : Call β → β → Phase
  | .fs op => afterOp phase commit op
  | .lock (.transfer ..) => fun _ => .working
  | .lock (.commit _) => fun _ => .committing
  | .unlock ℓ => fun _ => afterUnlock phase ℓ
  | .emit (.received ..) => fun _ => .working
  | _ => fun _ => phase

def lengthAfterOp (length : Option Nat) (part : Path) : FsOp Contents β → Except IoError β → Option Nat
  | .metadata p => fun
    | .ok metadata => if p = part then some metadata.len else length
    | .error _ => length
  | .openFile p o => fun
    | .ok () => if p = part ∧ o.truncate then some 0 else length
    | .error _ => length
  | .edit p f => fun
    | .ok () => if p = part then length.map (· + FileData.size (f FileData.empty)) else length
    | .error _ => length
  | _ => fun _ => length

def lengthAfter (length : Option Nat) (part : Path) : Call β → β → Option Nat
  | .fs op => lengthAfterOp length part op
  | _ => fun _ => length

def next (c : Call β) (r : β) : Handling :=
  { h with phase := after h.phase h.commit c r, length := lengthAfter h.length h.part c r }

/-- What is received is appended to the part, up to the size of the offer. -/
def Appends : FsOp Contents β → Prop
  | .edit p f => ∃ n chunk, p = h.part ∧ f = Contents.append chunk ∧ h.length = some n ∧
      n + chunk.length ≤ h.offer.size
  | _ => False

def Delivers (d : Path) : FsOp Contents β → Prop
  | .rename src dst => (src = h.part ∨ src = h.folderPart) ∧ dst = d
  | _ => False

def Searches : FsOp Contents β → Prop
  | .tryExists p => ∃ name, p = name :: h.root
  | _ => False

def allowsOp (L : Layout) (op : FsOp Contents β) : Prop :=
  match h.phase with
  | .working => L.TameOp h.id op ∨ h.Appends op
  | .committing => L.TameOp h.id op
  | .recorded => h.Searches op
  | .absent d => h.Delivers d op
  | .renamed _ => L.TameOp h.id op
  | .skipped => L.TameOp h.id op
  | _ => False

def allows (L : Layout) : Call β → Prop
  | .fs op => h.allowsOp L op
  | .newUuid => ∀ d, h.phase ≠ .absent d
  | .lock ℓ => (h.phase = .waiting ∧ ℓ = .transfer h.store.serial h.id ∧ StateId h.id) ∨
      (h.phase = .working ∧ ℓ = .commit h.store.serial)
  | .unlock ℓ => (h.phase.critical ∧ (∀ d, h.phase ≠ .absent d) ∧ ℓ = .commit h.store.serial) ∨
      (h.phase.exclusive ∧ ¬ h.phase.critical ∧ ℓ = .transfer h.store.serial h.id)
  | .emit (.received transferId path ..) =>
    transferId = h.id ∧ (h.phase = .committed path ∨ h.phase = .passed)
  | .emit _ => ∀ d, h.phase ≠ .absent d
  | .respond (.complete _) => h.phase = .working
  | .respond _ => ∀ d, h.phase ≠ .absent d

def holds : Lock → Prop
  | .transfer serial transferId =>
    h.phase.exclusive ∧ serial = h.store.serial ∧ transferId = h.id
  | .commit serial => h.phase.critical ∧ serial = h.store.serial

end Handling

/-- A thread opens a store or handles a stream. -/
inductive Role where
  | opening
  | handling (h : Handling)

def conduct (L : Layout) : Protocol Call Role Lock where
  allowed
    | .opening, c => L.Opens c
    | .handling h, c => h.allows L c
  next
    | .opening, _, _ => .opening
    | .handling h, c, r => .handling (h.next c r)
  holds
    | .opening, _ => False
    | .handling h, ℓ => h.holds ℓ

namespace Handling

/-- No call to the file system gives a lock or takes one. -/
theorem afterOp_locks (phase : Phase) (commit : Path) (op : FsOp Contents β)
    (r : Except IoError β) :
    (afterOp phase commit op r).exclusive = phase.exclusive ∧
      (afterOp phase commit op r).critical = phase.critical := by
  cases op with
  | read p =>
    simp only [afterOp]
    split
    · rw [afterRead.eq_def]
      split
      · split
        · next hc => simp [hc, Phase.exclusive, Phase.critical]
        · exact ⟨rfl, rfl⟩
      · exact ⟨rfl, rfl⟩
    · exact ⟨rfl, rfl⟩
  | rename src dst =>
    cases r with
    | ok _ =>
      cases phase with
      | committing =>
        simp only [afterOp, afterRename]
        split <;> exact ⟨rfl, rfl⟩
      | _ => exact ⟨rfl, rfl⟩
    | error _ => cases phase <;> exact ⟨rfl, rfl⟩
  | tryExists p =>
    cases r with
    | ok found =>
      cases phase with
      | recorded => cases found <;> exact ⟨rfl, rfl⟩
      | _ => exact ⟨rfl, rfl⟩
    | error _ => exact ⟨rfl, rfl⟩
  | _ => exact ⟨rfl, rfl⟩

/-- The phases that calls to the file system do not change. -/
def steady : Phase → Bool
  | .committing => false
  | .recorded => false
  | .absent _ => false
  | _ => true

theorem afterOp_steady {phase : Phase} (hp : steady phase = true) (commit : Path)
    (op : FsOp Contents β) (r : Except IoError β) : afterOp phase commit op r = phase := by
  cases op with
  | read p =>
    simp only [afterOp]
    split
    · rw [afterRead.eq_def]
      split
      · exact if_neg fun hc => by simp [hc, steady] at hp
      · rfl
    · rfl
  | rename src dst => cases r <;> cases phase <;> first | rfl | cases hp
  | tryExists p => cases r <;> cases phase <;> first | rfl | cases hp
  | _ => rfl

theorem afterUnlock_commit (phase : Phase) (serial : Nat) :
    (afterUnlock phase (.commit serial)).exclusive = true ∧
      (afterUnlock phase (.commit serial)).critical = false := by
  cases phase <;> exact ⟨rfl, rfl⟩

theorem exclusive_of_critical {phase : Phase} (h : phase.critical = true) : phase.exclusive = true := by
  cases phase <;> first | rfl | cases h

theorem holds_next {L : Layout} {h : Handling} {c : Call β} {r : β} {ℓ : Lock} (ha : h.allows L c)
    (hh : (h.next c r).holds ℓ) :
    acquires c = some ℓ ∨ (h.holds ℓ ∧ releases c ≠ some ℓ) := by
  cases c with
  | fs op =>
    have hl := afterOp_locks h.phase h.commit op r
    refine .inr ⟨?_, by simp [releases, Call.releases]⟩
    cases ℓ with
    | transfer serial transferId => exact ⟨hl.1 ▸ hh.1, hh.2⟩
    | commit serial => exact ⟨hl.2 ▸ hh.1, hh.2⟩
  | newUuid =>
    refine .inr ⟨?_, by simp [releases, Call.releases]⟩
    cases ℓ <;> exact hh
  | lock taken =>
    rcases ha with ⟨hp, rfl, -⟩ | ⟨hp, rfl⟩
    · cases ℓ with
      | transfer serial transferId =>
        obtain ⟨-, rfl, rfl⟩ := hh
        exact .inl rfl
      | commit serial => exact absurd hh.1 (by simp [next, after, Phase.critical])
    · cases ℓ with
      | transfer serial transferId =>
        exact .inr ⟨⟨by rw [hp]; rfl, hh.2⟩, by simp [releases, Call.releases]⟩
      | commit serial =>
        obtain ⟨-, rfl⟩ := hh
        exact .inl rfl
  | unlock given =>
    rcases ha with ⟨hp, -, rfl⟩ | ⟨-, -, rfl⟩
    · have hu := afterUnlock_commit h.phase h.store.serial
      cases ℓ with
      | transfer serial transferId =>
        exact .inr ⟨⟨exclusive_of_critical hp, hh.2⟩, by simp [releases, Call.releases]⟩
      | commit serial => exact absurd (hh.1.symm.trans hu.2) (by simp)
    · cases ℓ with
      | transfer serial transferId => exact absurd hh.1 (by simp [next, after, afterUnlock, Phase.exclusive])
      | commit serial => exact absurd hh.1 (by simp [next, after, afterUnlock, Phase.critical])
  | emit e =>
    refine .inr ⟨?_, by simp [releases, Call.releases]⟩
    cases e with
    | received transferId path =>
      cases ℓ with
      | transfer serial transferId =>
        refine ⟨?_, hh.2⟩
        rcases ha.2 with hp | hp
        · rw [hp]
          rfl
        · rw [hp]
          rfl
      | commit serial => exact absurd hh.1 (by simp [next, after, Phase.critical])
    | progress p => cases ℓ <;> exact hh
    | status error => cases ℓ <;> exact hh
  | respond response =>
    refine .inr ⟨?_, by simp [releases, Call.releases]⟩
    cases ℓ <;> exact hh

end Handling

theorem conduct_locking (L : Layout) : (conduct L).Locking := by
  intro β t c r ℓ ha hh
  cases t with
  | opening => exact hh.elim
  | handling h => exact Handling.holds_next ha hh

end InkHole
