import InkHole.Automata
import InkHole.Tables

/-! The lock of a transfer. The store has a weak reference to the lock of each transfer, so a lock is
there only for as long as somebody asks for it or has it. -/

namespace InkHole.TransferLocks

/-- A fair mutex: the caller it was given to, and those who wait. -/
structure Mutex where
  owner : Option Nat
  queue : List Nat
  deriving DecidableEq, Repr

namespace Mutex

def new : Mutex := ⟨none, []⟩

def lock (m : Mutex) (caller : Nat) : Mutex :=
  if m.owner = none then { m with owner := some caller } else { m with queue := m.queue ++ [caller] }

def unlock (m : Mutex) : Mutex := ⟨m.queue.head?, m.queue.tail⟩

/-- A wait is dropped, and the mutex passed on when it was given to the caller already. -/
def abandon (m : Mutex) (caller : Nat) : Mutex :=
  if m.owner = some caller then m.unlock else { m with queue := m.queue.erase caller }

theorem lock_owner {m : Mutex} {other : Nat} (h : m.owner = some other) (caller : Nat) :
    (m.lock caller).owner = some other := by
  rw [lock, if_neg (by rw [h]; exact Option.some_ne_none other)]
  exact h

theorem abandon_owner {m : Mutex} {other caller : Nat} (h : m.owner = some other) (hne : other ≠ caller) :
    (m.abandon caller).owner = some other := by
  rw [abandon, if_neg fun hc => hne (Option.some.inj (h.symm.trans hc))]
  exact h

end Mutex

/-- A mutex behind counted references. -/
structure Shared where
  strong : Nat
  mutex : Mutex
  deriving DecidableEq, Repr

/-- Where a call of `lock_transfer` stands, and then its guard. -/
inductive Phase where
  | opening
  | pruning (unvisited : List String)
  | missing
  | found (lock : Nat)
  | waiting (lock : Nat)
  | guarding (lock : Nat)
  /-- The lock was given back and the reference is still there. -/
  | leaving (lock : Nat)
  | left
  deriving DecidableEq, Repr

structure Call where
  transferId : String
  phase : Phase
  deriving DecidableEq, Repr

/-- The lock that a call has a reference to. -/
def Call.holds (call : Call) : Option Nat :=
  match call.phase with
  | .found lock => some lock
  | .waiting lock => some lock
  | .guarding lock => some lock
  | .leaving lock => some lock
  | _ => none

/-- What is behind a mutex. -/
inductive Resource where
  | map
  | lock (lock : Nat)
  deriving DecidableEq, Repr

structure StoreInner where
  transferLocks : Table String Nat
  /-- The mutex that the map is behind. -/
  map : Mutex
  /-- Every lock that was made. -/
  locks : List Shared
  calls : List Call

namespace StoreInner

def start : StoreInner := ⟨∅, .new, [], []⟩

def put (s : StoreInner) (caller : Nat) (call : Call) : StoreInner := { s with calls := s.calls.set caller call }

def modifyLock (s : StoreInner) (lock : Nat) (change : Shared → Shared) : StoreInner :=
  { s with locks := s.locks.modify lock change }

def strongCount (s : StoreInner) (lock : Nat) : Nat := (s.locks[lock]?.map Shared.strong).getD 0

/-- Who was given a mutex. -/
def owner (s : StoreInner) : Resource → Option Nat
  | .map => s.map.owner
  | .lock lock => s.locks[lock]?.bind fun shared => shared.mutex.owner

def upgrade (s : StoreInner) (transferId : String) : Option Nat :=
  (s.transferLocks.lookup transferId).filter fun lock => s.strongCount lock > 0

/-- A new lock, and a weak reference to it in the map. -/
def insert (s : StoreInner) (transferId : String) : StoreInner :=
  { s with
    locks := s.locks ++ [⟨1, .new⟩]
    transferLocks := s.transferLocks.insert transferId s.locks.length }

/-- An entry is taken out where nobody has its lock. -/
def retain (s : StoreInner) (entry : String) : StoreInner :=
  if (s.transferLocks.lookup entry).any fun lock => s.strongCount lock > 0 then s
  else { s with transferLocks := s.transferLocks.erase entry }

/-- The end of the block that has the map. -/
def unlockMap (s : StoreInner) : StoreInner := { s with map := s.map.unlock }

def lockTransfer (s : StoreInner) (transferId : String) : StoreInner :=
  { s with map := s.map.lock s.calls.length, calls := s.calls ++ [⟨transferId, .opening⟩] }

/-- What a call does next, and its guard when it is dropped. -/
def advance (s : StoreInner) (caller : Nat) (transferId : String) : Phase → Option StoreInner
  | .opening =>
    if s.owner .map = some caller then some (s.put caller ⟨transferId, .pruning s.transferLocks.keys⟩) else none
  | .pruning [] =>
    match s.upgrade transferId with
    | some lock =>
      some ((s.modifyLock lock fun shared => { shared with strong := shared.strong + 1 }).put caller
        ⟨transferId, .found lock⟩).unlockMap
    | none => some (s.put caller ⟨transferId, .missing⟩)
  | .pruning (_ :: _) => none
  | .missing => some ((s.insert transferId).put caller ⟨transferId, .found s.locks.length⟩).unlockMap
  | .found lock =>
    some ((s.modifyLock lock fun shared => { shared with mutex := shared.mutex.lock caller }).put caller
      ⟨transferId, .waiting lock⟩)
  | .waiting lock =>
    if s.owner (.lock lock) = some caller then
      some (s.put caller ⟨transferId, .guarding lock⟩)
    else none
  | .guarding lock =>
    some ((s.modifyLock lock fun shared => { shared with mutex := shared.mutex.unlock }).put caller
      ⟨transferId, .leaving lock⟩)
  | .leaving lock =>
    some ((s.modifyLock lock fun shared => { shared with strong := shared.strong - 1 }).put caller
      ⟨transferId, .left⟩)
  | .left => none

/-- One entry of the map is looked at. -/
def visit (s : StoreInner) (caller : Nat) (transferId entry : String) : Phase → Option StoreInner
  | .pruning unvisited =>
    if entry ∈ unvisited then
      some ((s.retain entry).put caller ⟨transferId, .pruning (unvisited.erase entry)⟩)
    else none
  | _ => none

/-- A call is dropped while it waits. -/
def abandon (s : StoreInner) (caller : Nat) (transferId : String) : Phase → Option StoreInner
  | .opening => some { s with map := s.map.abandon caller, calls := s.calls.set caller ⟨transferId, .left⟩ }
  | .waiting lock =>
    some ((s.modifyLock lock fun shared => { shared with mutex := shared.mutex.abandon caller }).put caller
      ⟨transferId, .leaving lock⟩)
  | _ => none

end StoreInner

inductive Event where
  | call (transferId : String)
  | next (caller : Nat)
  | visit (caller : Nat) (entry : String)
  | abandon (caller : Nat)
  deriving DecidableEq, Repr

def StoreInner.step (s : StoreInner) : Event → Option StoreInner
  | .call transferId => some (s.lockTransfer transferId)
  | .next caller => s.calls[caller]?.bind fun call => s.advance caller call.transferId call.phase
  | .visit caller entry => s.calls[caller]?.bind fun call => s.visit caller call.transferId entry call.phase
  | .abandon caller => s.calls[caller]?.bind fun call => s.abandon caller call.transferId call.phase

def store : Automaton StoreInner Event where
  start := .start
  step := StoreInner.step

/-! What a step changes. -/

/-- The mutex that a call has, for as long as it goes on. -/
def Call.has (call : Call) : Option Resource :=
  match call.phase with
  | .pruning _ => some .map
  | .missing => some .map
  | .guarding lock => some (.lock lock)
  | _ => none

namespace StoreInner

variable {s s' : StoreInner} {caller lock : Nat} {transferId : String}

/-- How many calls have a reference to a lock. -/
def holders (s : StoreInner) (lock : Nat) : Nat := s.calls.countP fun call => call.holds = some lock

/-- What a call comes to, and the state it leaves but for that. -/
inductive Moves (s : StoreInner) (caller : Nat) (transferId : String) : Phase → Phase → StoreInner → Prop
  | enter : s.owner .map = some caller → Moves s caller transferId .opening (.pruning s.transferLocks.keys) s
  | visit (unvisited : List String) (entry : String) :
    Moves s caller transferId (.pruning unvisited) (.pruning (unvisited.erase entry)) (s.retain entry)
  | upgrade (lock : Nat) : s.upgrade transferId = some lock →
    Moves s caller transferId (.pruning []) (.found lock)
      (s.modifyLock lock fun shared => { shared with strong := shared.strong + 1 }).unlockMap
  | miss : s.upgrade transferId = none → Moves s caller transferId (.pruning []) .missing s
  | insert : Moves s caller transferId .missing (.found s.locks.length) (s.insert transferId).unlockMap
  | wait (lock : Nat) : Moves s caller transferId (.found lock) (.waiting lock)
      (s.modifyLock lock fun shared => { shared with mutex := shared.mutex.lock caller })
  | acquire (lock : Nat) : s.owner (.lock lock) = some caller →
    Moves s caller transferId (.waiting lock) (.guarding lock) s
  | unlock (lock : Nat) : Moves s caller transferId (.guarding lock) (.leaving lock)
      (s.modifyLock lock fun shared => { shared with mutex := shared.mutex.unlock })
  | release (lock : Nat) : Moves s caller transferId (.leaving lock) .left
      (s.modifyLock lock fun shared => { shared with strong := shared.strong - 1 })
  | giveUp : Moves s caller transferId .opening .left { s with map := s.map.abandon caller }
  | abandon (lock : Nat) : Moves s caller transferId (.waiting lock) (.leaving lock)
      (s.modifyLock lock fun shared => { shared with mutex := shared.mutex.abandon caller })

theorem advance_moves {phase : Phase} (h : s.advance caller transferId phase = some s') :
    ∃ phase' changed, Moves s caller transferId phase phase' changed ∧ s' = changed.put caller ⟨transferId, phase'⟩ := by
  cases phase with
  | opening =>
    rw [advance] at h
    split at h
    · next howner => exact ⟨_, _, .enter howner, (Option.some.inj h).symm⟩
    · cases h
  | pruning unvisited =>
    cases unvisited with
    | nil =>
      rw [advance] at h
      split at h
      · next lock hlock => exact ⟨_, _, .upgrade lock hlock, (Option.some.inj h).symm⟩
      · next hmiss => exact ⟨_, _, .miss hmiss, (Option.some.inj h).symm⟩
    | cons entry unvisited => cases h
  | missing => exact ⟨_, _, .insert, (Option.some.inj h).symm⟩
  | found lock => exact ⟨_, _, .wait lock, (Option.some.inj h).symm⟩
  | waiting lock =>
    rw [advance] at h
    split at h
    · next howner => exact ⟨_, _, .acquire lock howner, (Option.some.inj h).symm⟩
    · cases h
  | guarding lock => exact ⟨_, _, .unlock lock, (Option.some.inj h).symm⟩
  | leaving lock => exact ⟨_, _, .release lock, (Option.some.inj h).symm⟩
  | left => cases h

theorem visit_moves {entry : String} {phase : Phase} (h : s.visit caller transferId entry phase = some s') :
    ∃ phase' changed, Moves s caller transferId phase phase' changed ∧ s' = changed.put caller ⟨transferId, phase'⟩ := by
  cases phase with
  | pruning unvisited =>
    rw [visit] at h
    split at h
    · exact ⟨_, _, .visit unvisited entry, (Option.some.inj h).symm⟩
    · cases h
  | _ => cases h

theorem abandon_moves {phase : Phase} (h : s.abandon caller transferId phase = some s') :
    ∃ phase' changed, Moves s caller transferId phase phase' changed ∧ s' = changed.put caller ⟨transferId, phase'⟩ := by
  cases phase with
  | opening => exact ⟨_, _, .giveUp, (Option.some.inj h).symm⟩
  | waiting lock => exact ⟨_, _, .abandon lock, (Option.some.inj h).symm⟩
  | _ => cases h

/-- A step is a new call, or a move of one. -/
theorem step_cases {e : Event} (h : s.step e = some s') : (∃ transferId, s' = s.lockTransfer transferId) ∨
    ∃ caller call phase changed, s.calls[caller]? = some call ∧
      Moves s caller call.transferId call.phase phase changed ∧ s' = changed.put caller ⟨call.transferId, phase⟩ := by
  cases e with
  | call transferId => exact .inl ⟨transferId, (Option.some.inj h).symm⟩
  | next caller =>
    obtain ⟨call, hcall, h⟩ := Option.bind_eq_some_iff.mp h
    obtain ⟨phase, changed, hmoves, rfl⟩ := advance_moves h
    exact .inr ⟨caller, call, phase, changed, hcall, hmoves, rfl⟩
  | visit caller entry =>
    obtain ⟨call, hcall, h⟩ := Option.bind_eq_some_iff.mp h
    obtain ⟨phase, changed, hmoves, rfl⟩ := visit_moves h
    exact .inr ⟨caller, call, phase, changed, hcall, hmoves, rfl⟩
  | abandon caller =>
    obtain ⟨call, hcall, h⟩ := Option.bind_eq_some_iff.mp h
    obtain ⟨phase, changed, hmoves, rfl⟩ := abandon_moves h
    exact .inr ⟨caller, call, phase, changed, hcall, hmoves, rfl⟩

theorem Moves.calls {phase phase' : Phase} {changed : StoreInner}
    (h : Moves s caller transferId phase phase' changed) : changed.calls = s.calls := by
  cases h with
  | visit =>
    rw [retain]
    split <;> rfl
  | _ => rfl

/-! Who has what. -/

/-- Whoever goes on with what is behind a mutex is the one it was given to. -/
def Owned (s : StoreInner) : Prop :=
  ∀ caller call r, s.calls[caller]? = some call → call.has = some r → s.owner r = some caller

theorem owner_modifyLock {other : Nat} {change : Shared → Shared} {r : Resource} (h : s.owner r = some other)
    (hchange : r = .lock lock → ∀ shared, shared.mutex.owner = some other →
      (change shared).mutex.owner = some other) : (s.modifyLock lock change).owner r = some other := by
  cases r with
  | map => exact h
  | lock j =>
    obtain ⟨shared, hshared, hother⟩ := Option.bind_eq_some_iff.mp h
    refine Option.bind_eq_some_iff.mpr ⟨if lock = j then change shared else shared, ?_, ?_⟩
    · rw [modifyLock, List.getElem?_modify, hshared]
      rfl
    · split
      · next hj =>
        rw [hj] at hchange
        exact hchange rfl shared hother
      · exact hother

theorem owner_retain (entry : String) (r : Resource) : (s.retain entry).owner r = s.owner r := by
  rw [retain]
  split <;> rfl

theorem owner_insert {other : Nat} {r : Resource} (h : s.owner r = some other) :
    (s.insert transferId).owner r = some other := by
  cases r with
  | map => exact h
  | lock j =>
    obtain ⟨shared, hshared, hother⟩ := Option.bind_eq_some_iff.mp h
    refine Option.bind_eq_some_iff.mpr ⟨shared, ?_, hother⟩
    exact (List.getElem?_append_left (List.getElem?_eq_some_iff.mp hshared).1).trans hshared

theorem owner_unlockMap {other : Nat} {r : Resource} (hmap : s.owner .map = some caller) (hne : other ≠ caller)
    (h : s.owner r = some other) : s.unlockMap.owner r = some other := by
  cases r with
  | map => exact absurd (Option.some.inj (h.symm.trans hmap)) hne
  | lock j => exact h

/-- A move takes nothing that another was given. -/
theorem Moves.owner {call : Call} {phase : Phase} {changed : StoreInner} {r : Resource} {other : Nat}
    (h : Moves s caller call.transferId call.phase phase changed) (ho : s.Owned)
    (hc : s.calls[caller]? = some call) (hne : other ≠ caller) (hr : s.owner r = some other) :
    changed.owner r = some other := by
  have hhas : ∀ r', call.has = some r' → s.owner r' = some caller := fun r' => ho caller call r' hc
  generalize hphase : call.phase = before at h
  cases h with
  | enter => exact hr
  | visit => rwa [owner_retain]
  | upgrade lock =>
    have hmap : s.owner .map = some caller := hhas .map (by rw [Call.has, hphase])
    exact owner_unlockMap (owner_modifyLock hmap fun _ _ h => h) hne (owner_modifyLock hr fun _ _ h => h)
  | miss => exact hr
  | insert =>
    have hmap : s.owner .map = some caller := hhas .map (by rw [Call.has, hphase])
    exact owner_unlockMap (owner_insert hmap) hne (owner_insert hr)
  | wait => exact owner_modifyLock hr fun _ _ h => Mutex.lock_owner h caller
  | acquire => exact hr
  | unlock lock =>
    have hlock : s.owner (.lock lock) = some caller := hhas (.lock lock) (by rw [Call.has, hphase])
    refine owner_modifyLock hr fun he => ?_
    rw [he] at hr
    exact absurd (Option.some.inj (hr.symm.trans hlock)) hne
  | release => exact owner_modifyLock hr fun _ _ h => h
  | giveUp =>
    cases r with
    | map => exact Mutex.abandon_owner hr hne
    | lock j => exact hr
  | abandon => exact owner_modifyLock hr fun _ _ h => Mutex.abandon_owner h hne

/-- What a move goes on with was given to its caller. -/
theorem Moves.has {call : Call} {phase : Phase} {changed : StoreInner} {r : Resource}
    (h : Moves s caller call.transferId call.phase phase changed) (ho : s.Owned)
    (hc : s.calls[caller]? = some call) (hr : Call.has ⟨transferId, phase⟩ = some r) :
    changed.owner r = some caller := by
  have hhas : ∀ r', call.has = some r' → s.owner r' = some caller := fun r' => ho caller call r' hc
  generalize hphase : call.phase = before at h
  cases h with
  | enter howner =>
    obtain rfl := Option.some.inj hr
    exact howner
  | visit =>
    obtain rfl := Option.some.inj hr
    rw [owner_retain]
    exact hhas .map (by rw [Call.has, hphase])
  | miss =>
    obtain rfl := Option.some.inj hr
    exact hhas .map (by rw [Call.has, hphase])
  | acquire lock howner =>
    obtain rfl := Option.some.inj hr
    exact howner
  | _ => cases hr

theorem getElem?_put {calls : List Call} {new a : Call} {c : Nat} (h : (calls.set caller new)[c]? = some a) :
    (c = caller ∧ a = new) ∨ (c ≠ caller ∧ calls[c]? = some a) := by
  rw [List.getElem?_set] at h
  split at h
  · next hc =>
    split at h
    · exact .inl ⟨hc.symm, (Option.some.inj h).symm⟩
    · cases h
  · next hc => exact .inr ⟨fun he => hc he.symm, h⟩

theorem getElem?_lockTransfer {a : Call} {c : Nat} (h : (s.lockTransfer transferId).calls[c]? = some a) :
    a = ⟨transferId, .opening⟩ ∨ s.calls[c]? = some a := by
  rw [lockTransfer, List.getElem?_append] at h
  split at h
  · exact .inr h
  · exact .inl (List.mem_singleton.mp (List.mem_of_getElem? h))

theorem owner_lockTransfer {r : Resource} {other : Nat} (h : s.owner r = some other) :
    (s.lockTransfer transferId).owner r = some other := by
  cases r with
  | map => exact Mutex.lock_owner h _
  | lock j => exact h

theorem Owned.step {e : Event} (ho : s.Owned) (h : s.step e = some s') : s'.Owned := by
  obtain ⟨transferId, rfl⟩ | ⟨caller, call, phase, changed, hc, hmoves, rfl⟩ := step_cases h
  · intro c a r ha hr
    rcases getElem?_lockTransfer ha with rfl | ha
    · cases hr
    · exact owner_lockTransfer (ho c a r ha hr)
  · intro c a r ha hr
    change (changed.calls.set caller _)[c]? = some a at ha
    rw [hmoves.calls] at ha
    change changed.owner r = some c
    rcases getElem?_put ha with ⟨rfl, rfl⟩ | ⟨hne, ha⟩
    · exact hmoves.has ho hc hr
    · exact hmoves.owner ho hc hne (ho c a r ha hr)

/-! The references. -/

structure Referenced (s : StoreInner) : Prop where
  counted : ∀ lock, s.strongCount lock = s.holders lock
  made : ∀ transferId lock, s.transferLocks.lookup transferId = some lock → lock < s.locks.length
  /-- A lock that somebody has a reference to is the one that the map has. -/
  entered : ∀ call ∈ s.calls, ∀ lock, call.holds = some lock → s.transferLocks.lookup call.transferId = some lock
  missed : ∀ (caller : Nat) (call : Call), s.calls[caller]? = some call → call.phase = .missing →
    ∀ other ∈ s.calls, other.transferId = call.transferId → other.holds = none

theorem strongCount_modifyLock {change : Shared → Shared} (j : Nat)
    (hchange : ∀ shared, (change shared).strong = shared.strong) :
    (s.modifyLock lock change).strongCount j = s.strongCount j := by
  rw [strongCount, strongCount, modifyLock, List.getElem?_modify]
  cases s.locks[j]? with
  | none => rfl
  | some shared =>
    by_cases hj : lock = j <;> simp [hj, hchange]

theorem holders_pos {call : Call} (hc : call ∈ s.calls) (h : call.holds = some lock) : 0 < s.holders lock :=
  List.countP_pos_iff.mpr ⟨call, hc, decide_eq_true h⟩

theorem holders_put {calls : List Call} {old : Call} (hc : calls[caller]? = some old) (new : Call) (lock : Nat) :
    (calls.set caller new).countP (fun call => call.holds = some lock) =
      calls.countP (fun call => call.holds = some lock) - (if old.holds = some lock then 1 else 0) +
        (if new.holds = some lock then 1 else 0) := by
  obtain ⟨hlt, rfl⟩ := List.getElem?_eq_some_iff.mp hc
  rw [List.countP_set hlt]
  simp only [decide_eq_true_eq]

theorem strongCount_insert (transferId : String) (j : Nat) :
    (s.insert transferId).strongCount j = if j = s.locks.length then 1 else s.strongCount j := by
  rw [strongCount, strongCount, insert]
  change ((s.locks ++ [⟨1, .new⟩])[j]?.map Shared.strong).getD 0 = _
  rw [List.getElem?_append]
  split
  · next hlt => rw [if_neg (by omega)]
  · next hge =>
    split
    · next hj => rw [hj, Nat.sub_self]; rfl
    · rw [List.getElem?_eq_none (l := s.locks) (by omega), List.getElem?_eq_none (by simp; omega)]

theorem strongCount_of_get {shared : Shared} (h : s.locks[lock]? = some shared) : s.strongCount lock = shared.strong := by
  rw [strongCount, h]
  rfl

theorem strongCount_change {shared : Shared} (h : s.locks[lock]? = some shared) (change : Shared → Shared) (j : Nat) :
    (s.modifyLock lock change).strongCount j = if lock = j then (change shared).strong else s.strongCount j := by
  rw [strongCount, modifyLock, List.getElem?_modify]
  split
  · next hj =>
    rw [← hj, h]
    simp
  · simp [strongCount]

/-- The count of a lock follows what the call holds. -/
theorem Moves.counted {call : Call} {phase : Phase} {changed : StoreInner}
    (h : Moves s caller call.transferId call.phase phase changed) (hk : s.Referenced)
    (hc : call ∈ s.calls) (j : Nat) : changed.strongCount j =
      s.strongCount j - (if call.holds = some j then 1 else 0) +
        (if Call.holds ⟨call.transferId, phase⟩ = some j then 1 else 0) := by
  have hpos : call.holds = some j → 0 < s.strongCount j := fun hj => by
    rw [hk.counted]
    exact holders_pos hc hj
  have hsame : s.strongCount j = s.strongCount j - (if call.holds = some j then 1 else 0) +
      (if call.holds = some j then 1 else 0) := by
    split
    · next hj => rw [Nat.sub_add_cancel (hpos hj)]
    · rfl
  have hheld : ∀ lock, call.holds = some lock → ∃ shared, s.locks[lock]? = some shared := fun lock hlock =>
    ⟨_, List.getElem?_eq_getElem (hk.made _ _ (hk.entered call hc lock hlock))⟩
  generalize hphase : call.phase = before at h
  have hholds : call.holds = Call.holds ⟨call.transferId, before⟩ := by
    rw [Call.holds, hphase, Call.holds]
  rw [hholds] at hpos hsame hheld ⊢
  cases h with
  | enter => rfl
  | visit unvisited entry =>
    have hretain : (s.retain entry).strongCount j = s.strongCount j := by
      rw [retain]
      split <;> rfl
    exact hretain
  | upgrade lock hlock =>
    obtain ⟨hlookup, -⟩ := Option.filter_eq_some_iff.mp hlock
    have hget := List.getElem?_eq_getElem (hk.made _ _ hlookup)
    refine (strongCount_change hget _ j).trans ?_
    by_cases hj : lock = j
    · subst hj
      simp [Call.holds, strongCount_of_get hget]
    · simp [Call.holds, hj]
  | miss => rfl
  | insert =>
    refine (strongCount_insert call.transferId j).trans ?_
    by_cases hj : j = s.locks.length
    · subst hj
      simp [Call.holds, strongCount]
    · simp [Call.holds, hj, Ne.symm hj]
  | wait =>
    refine (strongCount_modifyLock j ?_).trans hsame
    exact fun _ => rfl
  | acquire => exact hsame
  | unlock =>
    refine (strongCount_modifyLock j ?_).trans hsame
    exact fun _ => rfl
  | release lock =>
    obtain ⟨shared, hget⟩ := hheld lock rfl
    refine (strongCount_change hget _ j).trans ?_
    by_cases hj : lock = j
    · subst hj
      simp [Call.holds, strongCount_of_get hget]
    · simp [Call.holds, hj]
  | giveUp => rfl
  | abandon =>
    refine (strongCount_modifyLock j ?_).trans hsame
    exact fun _ => rfl

/-- A lock that somebody has a reference to stays in the map. -/
theorem Moves.lookup {call other : Call} {phase : Phase} {changed : StoreInner}
    (h : Moves s caller call.transferId call.phase phase changed) (hk : s.Referenced)
    (hc : s.calls[caller]? = some call) (ho : other ∈ s.calls) (hlock : other.holds = some lock) :
    changed.transferLocks.lookup other.transferId = some lock := by
  have hentered := hk.entered other ho lock hlock
  generalize hphase : call.phase = before at h
  cases h with
  | visit unvisited entry =>
    rw [retain]
    split
    · exact hentered
    · next hdead =>
      rw [AList.lookup_erase_ne]
      · exact hentered
      · rintro rfl
        rw [hentered, Option.any_some, decide_eq_true_eq, hk.counted] at hdead
        exact hdead (holders_pos ho hlock)
  | insert =>
    have hne : other.transferId ≠ call.transferId := by
      intro he
      have hnone := hk.missed caller call hc hphase other ho he
      rw [hnone] at hlock
      cases hlock
    exact (AList.lookup_insert_ne hne).trans hentered
  | _ => exact hentered

theorem Moves.made {phase phase' : Phase} {changed : StoreInner} {key : String}
    (h : Moves s caller transferId phase phase' changed) (hk : s.Referenced)
    (hlock : changed.transferLocks.lookup key = some lock) : lock < changed.locks.length := by
  cases h with
  | visit unvisited entry =>
    rw [retain] at hlock ⊢
    split at hlock
    · next hheld =>
      rw [if_pos hheld]
      exact hk.made key lock hlock
    · next hdead =>
      rw [if_neg hdead]
      exact hk.made key lock (Table.lookup_of_erase hlock)
  | insert =>
    change lock < (s.locks ++ [_]).length
    rw [List.length_append, List.length_singleton]
    rcases Table.lookup_insert_cases hlock with ⟨-, rfl⟩ | ⟨-, hlock⟩
    · exact Nat.lt_succ_self _
    · exact Nat.lt_succ_of_lt (hk.made key lock hlock)
  | enter => exact hk.made key lock hlock
  | miss => exact hk.made key lock hlock
  | acquire => exact hk.made key lock hlock
  | giveUp => exact hk.made key lock hlock
  | _ => exact lt_of_lt_of_eq (hk.made key lock hlock) (List.length_modify ..).symm

/-- What a call holds after a move is the lock in the map. -/
theorem Moves.entered {call : Call} {phase : Phase} {changed : StoreInner}
    (h : Moves s caller call.transferId call.phase phase changed) (hk : s.Referenced)
    (hc : s.calls[caller]? = some call) (hlock : Call.holds ⟨call.transferId, phase⟩ = some lock) :
    changed.transferLocks.lookup call.transferId = some lock := by
  have hkeep : call.holds = some lock → changed.transferLocks.lookup call.transferId = some lock :=
    fun hold => h.lookup hk hc (List.mem_of_getElem? hc) hold
  generalize hphase : call.phase = before at h
  have hholds : call.holds = Call.holds ⟨call.transferId, before⟩ := by
    rw [Call.holds, hphase, Call.holds]
  rw [hholds] at hkeep
  cases h with
  | upgrade j hj =>
    obtain rfl := Option.some.inj hlock
    exact (Option.filter_eq_some_iff.mp hj).1
  | insert =>
    obtain rfl := Option.some.inj hlock
    exact AList.lookup_insert _
  | wait => exact hkeep hlock
  | acquire => exact hkeep hlock
  | unlock => exact hkeep hlock
  | abandon => exact hkeep hlock
  | _ => cases hlock

theorem upgrade_none {call : Call} (hk : s.Referenced) (hc : call ∈ s.calls)
    (hmiss : s.upgrade call.transferId = none) : call.holds = none := by
  cases hlock : call.holds with
  | none => rfl
  | some lock =>
    rw [upgrade, hk.entered call hc lock hlock, Option.filter_some, hk.counted,
      if_pos (decide_eq_true (holders_pos hc hlock))] at hmiss
    cases hmiss

/-- A call that found no lock is the only one of its transfer that goes on. -/
theorem Moves.missed {call : Call} {phase : Phase} {changed : StoreInner}
    (h : Moves s caller call.transferId call.phase phase changed) (hk : s.Referenced) (ho : s.Owned)
    (hc : s.calls[caller]? = some call) {c : Nat} {a b : Call}
    (ha : (s.calls.set caller ⟨call.transferId, phase⟩)[c]? = some a) (hmissing : a.phase = .missing)
    (hb : b ∈ s.calls.set caller ⟨call.transferId, phase⟩) (hsame : b.transferId = a.transferId) : b.holds = none := by
  rcases getElem?_put ha with ⟨-, rfl⟩ | ⟨hne, ha⟩
  · -- The call has just found none.
    generalize hphase : call.phase = before at h
    change phase = .missing at hmissing
    subst hmissing
    cases h with
    | miss hmiss =>
      rcases List.mem_or_eq_of_mem_set hb with hb | rfl
      · rw [← show b.transferId = call.transferId from hsame] at hmiss
        exact upgrade_none hk hb hmiss
      · rfl
  · -- Another found none before, so this one does not have the map.
    have hmap : s.owner .map = some c := ho c a .map ha (by rw [Call.has, hmissing])
    have hthis : call.has ≠ some .map := fun hhas =>
      hne (Option.some.inj (hmap.symm.trans (ho caller call .map hc hhas)))
    have hold : ∀ other ∈ s.calls, other.transferId = a.transferId → other.holds = none :=
      hk.missed c a ha hmissing
    rcases List.mem_or_eq_of_mem_set hb with hb | rfl
    · exact hold b hb hsame
    · have hnone := hold call (List.mem_of_getElem? hc) hsame
      generalize hphase : call.phase = before at h
      rw [Call.has, hphase] at hthis
      rw [Call.holds, hphase] at hnone
      cases h with
      | enter => rfl
      | visit => rfl
      | miss => rfl
      | release => rfl
      | giveUp => rfl
      | upgrade => exact absurd rfl hthis
      | insert => exact absurd rfl hthis
      | _ => cases hnone

theorem Referenced.step {e : Event} (hk : s.Referenced) (ho : s.Owned) (h : s.step e = some s') : s'.Referenced := by
  obtain ⟨transferId, rfl⟩ | ⟨caller, call, phase, changed, hc, hmoves, rfl⟩ := step_cases h
  · have hmem : ∀ call ∈ (s.lockTransfer transferId).calls, call = ⟨transferId, .opening⟩ ∨ call ∈ s.calls := by
      intro call hcall
      obtain ⟨c, hget⟩ := List.mem_iff_getElem?.mp hcall
      exact (getElem?_lockTransfer hget).imp id List.mem_of_getElem?
    refine ⟨fun lock => ?_, hk.made, fun call hcall lock hlock => ?_, fun c call hcall hmissing other hother he => ?_⟩
    · refine (hk.counted lock).trans ?_
      simp [holders, lockTransfer, Call.holds]
    · rcases hmem call hcall with rfl | hcall
      · cases hlock
      · exact hk.entered call hcall lock hlock
    · rcases getElem?_lockTransfer hcall with rfl | hcall
      · cases hmissing
      · rcases hmem other hother with rfl | hother
        · rfl
        · exact hk.missed c call hcall hmissing other hother he
  · have hcall := List.mem_of_getElem? hc
    have hcalls : (changed.put caller ⟨call.transferId, phase⟩).calls = s.calls.set caller ⟨call.transferId, phase⟩ := by
      rw [put, hmoves.calls]
    refine ⟨fun lock => ?_, fun _ _ hlock => hmoves.made hk hlock, fun a ha lock hlock => ?_,
      fun c a ha hmissing b hb hsame => ?_⟩
    · refine (hmoves.counted hk hcall lock).trans ?_
      rw [hk.counted, holders, holders, hcalls, holders_put hc]
    · rw [hcalls] at ha
      rcases List.mem_or_eq_of_mem_set ha with ha | rfl
      · exact hmoves.lookup hk hc ha hlock
      · exact hmoves.entered hk hc hlock
    · rw [hcalls] at ha hb
      exact hmoves.missed hk ho hc ha hmissing hb hsame

end StoreInner

/-! Runs. -/

theorem kept_reached {s : StoreInner} (h : store.Reaches Automaton.free s) : s.Owned ∧ s.Referenced := by
  refine h.invariant (P := fun s => s.Owned ∧ s.Referenced) ⟨?_, ?_, ?_, ?_, ?_⟩
    fun s e s' ⟨ho, hk⟩ _ hs => ⟨ho.step hs, hk.step ho hs⟩
  all_goals simp [StoreInner.Owned, store, StoreInner.start, StoreInner.strongCount, StoreInner.holders]

/-- No two guards of one transfer are there at once, whatever calls are made, wait and are dropped. -/
theorem lockTransfer_excludes {s : StoreInner} (h : store.Reaches Automaton.free s) {first second : Nat}
    {a b : Call} {lock lock' : Nat} (ha : s.calls[first]? = some a) (hb : s.calls[second]? = some b)
    (hga : a.phase = .guarding lock) (hgb : b.phase = .guarding lock') (hsame : a.transferId = b.transferId) :
    first = second := by
  obtain ⟨ho, hk⟩ := kept_reached h
  have hla := hk.entered a (List.mem_of_getElem? ha) lock (by rw [Call.holds, hga])
  have hlb := hk.entered b (List.mem_of_getElem? hb) lock' (by rw [Call.holds, hgb])
  rw [hsame] at hla
  obtain rfl := Option.some.inj (hla.symm.trans hlb)
  have hfirst := ho first a (.lock lock) ha (by rw [Call.has, hga])
  have hsecond := ho second b (.lock lock) hb (by rw [Call.has, hgb])
  exact Option.some.inj (hfirst.symm.trans hsecond)

/-- A lock is made anew after the first was given up; a second call of the transfer waits for it, and a
call of another transfer does not. -/
theorem lockTransfer_excludes_anew : ∃ s : StoreInner,
    s.calls.map Call.phase = [.left, .guarding 1, .waiting 1, .guarding 2] ∧
    ∀ (second : Nat) (b : Call) (lock : Nat), s.calls[second]? = some b → b.phase = .guarding lock → b.transferId = "a" → 1 = second := by
  let whole : List Event := [.call "a"] ++ List.replicate 7 (.next 0)
  let anew : List Event := [.call "a", .next 1, .visit 1 "a"] ++ List.replicate 4 (.next 1)
  let waits : List Event := [.call "a", .next 2, .visit 2 "a", .next 2, .next 2]
  let other : List Event := [.call "b", .next 3, .visit 3 "a"] ++ List.replicate 4 (.next 3)
  have hrun : (store.runFrom Automaton.free store.start (whole ++ anew ++ waits ++ other)).map StoreInner.calls =
      some [⟨"a", .left⟩, ⟨"a", .guarding 1⟩, ⟨"a", .waiting 1⟩, ⟨"b", .guarding 2⟩] := by decide +kernel
  obtain ⟨s, hs, hcalls⟩ := Option.map_eq_some_iff.mp hrun
  have hfirst : s.calls[1]? = some ⟨"a", .guarding 1⟩ := by rw [hcalls]; rfl
  refine ⟨s, by rw [hcalls]; rfl, fun second b lock hb hg ha => ?_⟩
  exact lockTransfer_excludes ⟨_, hs⟩ hfirst hb rfl hg ha.symm

end InkHole.TransferLocks
