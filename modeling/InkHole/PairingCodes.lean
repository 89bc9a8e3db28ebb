import InkHole.Tables
import InkHole.Names

/-! The budget of a pairing code. The attempts on it are tasks of their own that read the clock, take
the lock of the code and run; no time passes while the lock is held. -/

namespace InkHole

open Table

def maxPairingAttempts : Nat := 5
def pairingLifetime : Nat := 10 * 60 * 1000

structure ActivePairing where
  code : String
  expiresAt : Nat
  inUse : Bool
  failedAttempts : Nat
  deriving DecidableEq

namespace ActivePairing

def new (code : String) (expiresAt : Nat) : ActivePairing := ⟨code, expiresAt, false, 0⟩

def isLive (active : ActivePairing) (now : Nat) : Bool := decide (now < active.expiresAt)

def begin (active : ActivePairing) (now : Nat) : Except CoreError (String × ActivePairing) :=
  if !active.isLive now then .error (.protocol "SSH pairing code is unavailable")
  else if active.inUse then .error (.protocol "SSH pairing is already in progress")
  else if maxPairingAttempts ≤ active.failedAttempts then
    .error (.protocol "SSH pairing code was invalidated after repeated failed attempts; create a new code")
  else .ok (active.code, { active with inUse := true })

/-- Whether the code is to be thrown away, and the code. -/
def finish (active : ActivePairing) (success : Bool) : Bool × ActivePairing :=
  if success then (true, active)
  else
    (decide (maxPairingAttempts ≤ active.failedAttempts + 1),
      { active with inUse := false, failedAttempts := active.failedAttempts + 1 })

theorem begin_ok {active : ActivePairing} {now : Nat} {r : String × ActivePairing}
    (h : active.begin now = .ok r) : now < active.expiresAt ∧ active.inUse = false ∧
      active.failedAttempts < maxPairingAttempts ∧ r = (active.code, { active with inUse := true }) := by
  unfold ActivePairing.begin at h
  split at h
  · cases h
  · next hlive =>
    split at h
    · cases h
    · next hidle =>
      split at h
      · cases h
      · next hbudget =>
        have hbefore : now < active.expiresAt := by simpa [isLive] using hlive
        exact ⟨hbefore, by simpa using hidle, by omega, (Except.ok.inj h).symm⟩

end ActivePairing

inductive PairingEntry where
  | created (code : String) (expiresAt : Nat)
  | began (code : String) (time : Nat)
  | finished (code : String) (success : Bool)
  deriving DecidableEq

namespace PairingEntry

def code : PairingEntry → String
  | .created code _ => code
  | .began code _ => code
  | .finished code _ => code

def createdCode : PairingEntry → Option String
  | .created code _ => some code
  | _ => none

def begins (code : String) : PairingEntry → Bool
  | .began used _ => used == code
  | _ => false

end PairingEntry

/-- The code of a session, the attempts that wait for its lock with the time they have read, the
attempts that run with the code they use, and what has happened, the newest first. -/
structure PairingState where
  now : Nat
  active : Option ActivePairing
  waiting : Table Nat Nat
  running : Table Nat String
  log : List PairingEntry

inductive PairingEvent where
  | passes (time : Nat)
  | create (code : String)
  | arrive (attempt : Nat)
  | begin (attempt : Nat)
  | finish (attempt : Nat) (success : Bool)
  | abort (attempt : Nat)
  | close

namespace PairingState

def initial : PairingState := ⟨0, none, ∅, ∅, []⟩

/-- `code` is the code that is generated when one is. -/
def createPairing (s : PairingState) (code : String) : Except CoreError PairingState :=
  if s.active.any fun active => active.inUse && active.isLive s.now then
    .error (.protocol "SSH pairing is already in progress")
  else
    .ok { s with
      active := some (.new code (s.now + pairingLifetime))
      log := .created code (s.now + pairingLifetime) :: s.log }

/-- The clock is read before the lock is taken. -/
def arrive (s : PairingState) (attempt : Nat) : PairingState :=
  if (s.waiting.lookup attempt).isSome || (s.running.lookup attempt).isSome then s
  else { s with waiting := s.waiting.insert attempt s.now }

def beginPairingAttempt (s : PairingState) (attempt now : Nat) : Except CoreError PairingState := do
  let active ← s.active.elim (.error (.protocol "SSH pairing code is unavailable")) .ok
  let (code, active) ← active.begin now
  return { s with
    active := some active
    running := s.running.insert attempt code
    log := .began code s.now :: s.log }

def finishPairingAttempt (s : PairingState) (code : String) (success : Bool) : Option ActivePairing :=
  match s.active with
  | some active =>
    if active.code = code then
      if (active.finish success).1 then none else some (active.finish success).2
    else some active
  | none => none

def step (s : PairingState) : PairingEvent → PairingState
  | .passes time => { s with now := s.now + time }
  | .create code => (s.createPairing code).toOption.getD s
  | .arrive attempt => s.arrive attempt
  | .begin attempt =>
    match s.waiting.lookup attempt with
    | some now =>
      let s := { s with waiting := s.waiting.erase attempt }
      (s.beginPairingAttempt attempt now).toOption.getD s
    | none => s
  | .finish attempt success =>
    match s.running.lookup attempt with
    | some code =>
      { s with
        active := s.finishPairingAttempt code success
        running := s.running.erase attempt
        log := .finished code success :: s.log }
    | none => s
  | .abort attempt =>
    { s with waiting := s.waiting.erase attempt, running := s.running.erase attempt }
  | .close => { s with active := none }

/-- After the events of a run, the newest first. -/
def after : List PairingEvent → PairingState
  | [] => initial
  | event :: earlier => (after earlier).step event

def createdCodes (s : PairingState) : List String := s.log.filterMap PairingEntry.createdCode

/-- The attempts on a code that have begun. -/
def attempts (s : PairingState) (code : String) : Nat := s.log.countP (PairingEntry.begins code)

/-- An attempt that has read the clock before the code expires takes the lock before that, too. -/
def Prompt (s : PairingState) : PairingEvent → Prop
  | .begin attempt => ∀ active now, s.active = some active → s.waiting.lookup attempt = some now →
      now < active.expiresAt → s.now < active.expiresAt
  | _ => True

def AllPrompt : List PairingEvent → Prop
  | [] => True
  | event :: earlier => (after earlier).Prompt event ∧ AllPrompt earlier

variable {s : PairingState} {attempt now : Nat}

/-- What an attempt does with the lock. -/
theorem begin_cases (hwaiting : s.waiting.lookup attempt = some now) :
    s.step (.begin attempt) = { s with waiting := s.waiting.erase attempt } ∨
    ∃ active, s.active = some active ∧ now < active.expiresAt ∧ active.inUse = false ∧
      active.failedAttempts < maxPairingAttempts ∧
      s.step (.begin attempt) =
        { s with
          active := some { active with inUse := true }
          waiting := s.waiting.erase attempt
          running := s.running.insert attempt active.code
          log := .began active.code s.now :: s.log } := by
  simp only [step, hwaiting]
  rcases hactive : s.active with _ | active
  · left
    simp only [beginPairingAttempt]
    rfl
  · rcases hbegin : active.begin now with e | r
    · left
      simp only [beginPairingAttempt, Option.elim, bind, Except.bind, hbegin]
      rfl
    · right
      obtain ⟨hlive, hidle, hbudget, rfl⟩ := ActivePairing.begin_ok hbegin
      refine ⟨active, rfl, hlive, hidle, hbudget, ?_⟩
      simp only [beginPairingAttempt, Option.elim, bind, Except.bind, hbegin]
      rfl

/-- A code is created when no attempt on a live one is running. -/
theorem create_cases (code : String) :
    s.step (.create code) = s ∨
    s.step (.create code) =
      { s with
        active := some (.new code (s.now + pairingLifetime))
        log := .created code (s.now + pairingLifetime) :: s.log } := by
  simp only [step, createPairing]
  split
  · exact .inl rfl
  · exact .inr rfl

/-- The end of an attempt leaves a code alone that it does not use. -/
theorem finish_other {active : ActivePairing} {code : String} {success : Bool}
    (hactive : s.active = some active) (hcode : active.code ≠ code) :
    s.finishPairingAttempt code success = some active := by
  simp only [finishPairingAttempt, hactive, if_neg hcode]

theorem finish_own {active rest : ActivePairing} {code : String} {success : Bool}
    (hactive : s.active = some active) (hrest : s.finishPairingAttempt code success = some rest) :
    (active.code ≠ code ∧ rest = active) ∨
    (active.code = code ∧ success = false ∧ active.failedAttempts + 1 < maxPairingAttempts ∧
      rest = { active with inUse := false, failedAttempts := active.failedAttempts + 1 }) := by
  by_cases hcode : active.code = code
  · simp only [finishPairingAttempt, hactive, if_pos hcode] at hrest
    rcases success with _ | _
    · simp only [ActivePairing.finish, Bool.false_eq_true, if_false] at hrest
      split at hrest
      · cases hrest
      · next hbudget =>
        have hroom : ¬maxPairingAttempts ≤ active.failedAttempts + 1 := by simpa using hbudget
        exact .inr ⟨hcode, rfl, by omega, (Option.some.inj hrest).symm⟩
    · cases hrest
  · rw [finish_other hactive hcode] at hrest
    exact .inl ⟨hcode, (Option.some.inj hrest).symm⟩

/-- A code is not used once an attempt on it has succeeded. -/
def Unspent (newer older : PairingEntry) : Prop :=
  ∀ code time, newer = .began code time → older ≠ .finished code true

/-- What the log says of the active code. -/
structure Accounted (s : PairingState) (active : ActivePairing) : Prop where
  created : .created active.code active.expiresAt ∈ s.log
  budget : active.failedAttempts < maxPairingAttempts
  count : s.attempts active.code = active.failedAttempts + if active.inUse then 1 else 0
  unspent : .finished active.code true ∉ s.log
  running : ∀ a, s.running.lookup a = some active.code → active.inUse = true

structure Budgeted (s : PairingState) : Prop where
  known : ∀ entry ∈ s.log, entry.code ∈ s.createdCodes
  runs : ∀ a code, s.running.lookup a = some code → code ∈ s.createdCodes
  attempts : ∀ code, s.attempts code ≤ maxPairingAttempts
  alone : ∀ a b code, s.running.lookup a = some code → s.running.lookup b = some code → a = b
  unspent : s.log.Pairwise Unspent
  expiry : ∀ code time, .began code time ∈ s.log → ∃ e, .created code e ∈ s.log ∧ time < e
  active : ∀ active, s.active = some active → s.Accounted active

theorem budgeted_initial : initial.Budgeted := by
  constructor <;> simp [initial, attempts]

theorem mem_createdCodes {code : String} {e : Nat} (h : .created code e ∈ s.log) :
    code ∈ s.createdCodes :=
  List.mem_filterMap.mpr ⟨_, h, rfl⟩

/-- Steps that neither use nor create a code. -/
theorem Budgeted.quiet {s' : PairingState} (h : s.Budgeted) (hlog : s'.log = s.log)
    (hrunning : ∀ a code, s'.running.lookup a = some code → s.running.lookup a = some code)
    (hactive : ∀ active, s'.active = some active → s.active = some active) : s'.Budgeted where
  known := by simpa only [createdCodes, hlog] using h.known
  runs a code ha := by
    have := h.runs a code (hrunning a code ha)
    simpa only [createdCodes, hlog] using this
  attempts := by simpa only [PairingState.attempts, hlog] using h.attempts
  alone a b code ha hb := h.alone a b code (hrunning a code ha) (hrunning b code hb)
  unspent := hlog ▸ h.unspent
  expiry := hlog ▸ h.expiry
  active active ha := by
    have hbefore := h.active active (hactive active ha)
    refine ⟨hlog ▸ hbefore.created, hbefore.budget, ?_, hlog ▸ hbefore.unspent,
      fun a hrun => hbefore.running a (hrunning a _ hrun)⟩
    simpa only [PairingState.attempts, hlog] using hbefore.count

theorem Budgeted.begins {s' : PairingState} {active : ActivePairing} (h : s.Budgeted)
    (hactive : s.active = some active) (hidle : active.inUse = false)
    (hprompt : s.now < active.expiresAt)
    (hs' : s' = { s with
      active := some { active with inUse := true }
      waiting := s.waiting.erase attempt
      running := s.running.insert attempt active.code
      log := .began active.code s.now :: s.log }) : s'.Budgeted := by
  have hbefore := h.active active hactive
  have hcount : s.attempts active.code = active.failedAttempts := by
    have := hbefore.count
    simpa [hidle] using this
  have hnone (a : Nat) : s.running.lookup a ≠ some active.code := by
    intro ha
    rw [hbefore.running a ha] at hidle
    cases hidle
  have hcode := mem_createdCodes hbefore.created
  have hcodes : s'.createdCodes = s.createdCodes := by subst hs'; rfl
  have hattempts (code : String) :
      s'.attempts code = s.attempts code + if active.code = code then 1 else 0 := by
    subst hs'
    simp only [PairingState.attempts, List.countP_cons, PairingEntry.begins, beq_iff_eq]
  have hlog : s'.log = .began active.code s.now :: s.log := by subst hs'; rfl
  have hrunning (a : Nat) (code : String) (ha : s'.running.lookup a = some code) :
      (a = attempt ∧ active.code = code) ∨ (a ≠ attempt ∧ s.running.lookup a = some code) := by
    subst hs'
    exact lookup_insert_cases ha
  refine ⟨?_, fun a code ha => ?_, fun code => ?_, fun a b code ha hb => ?_, ?_,
    fun code time htime => ?_, fun active' ha => ?_⟩
  · rw [hlog, hcodes]
    intro entry hentry
    rcases List.mem_cons.mp hentry with rfl | hentry
    · exact hcode
    · exact h.known entry hentry
  · rw [hcodes]
    rcases hrunning a code ha with ⟨-, rfl⟩ | ⟨-, ha⟩
    · exact hcode
    · exact h.runs a code ha
  · rw [hattempts]
    split
    · next heq =>
      subst heq
      have := hbefore.budget
      omega
    · exact h.attempts code
  · rcases hrunning a code ha with ⟨rfl, rfl⟩ | ⟨-, ha⟩
    · rcases hrunning b _ hb with ⟨rfl, -⟩ | ⟨-, hb⟩
      · rfl
      · exact absurd hb (hnone b)
    · rcases hrunning b code hb with ⟨rfl, rfl⟩ | ⟨-, hb⟩
      · exact absurd ha (hnone a)
      · exact h.alone a b code ha hb
  · rw [hlog]
    refine List.pairwise_cons.mpr ⟨fun older holder code time heq hspent => ?_, h.unspent⟩
    obtain ⟨rfl, -⟩ := PairingEntry.began.inj heq
    exact hbefore.unspent (hspent ▸ holder)
  · rw [hlog] at htime ⊢
    rcases List.mem_cons.mp htime with heq | htime
    · obtain ⟨rfl, rfl⟩ := PairingEntry.began.inj heq
      exact ⟨active.expiresAt, List.mem_cons_of_mem _ hbefore.created, hprompt⟩
    · obtain ⟨e, hcreated, hlt⟩ := h.expiry code time htime
      exact ⟨e, List.mem_cons_of_mem _ hcreated, hlt⟩
  · obtain rfl : { active with inUse := true } = active' := by
      subst hs'
      exact Option.some.inj ha
    refine ⟨?_, hbefore.budget, ?_, ?_, fun _ _ => rfl⟩
    · rw [hlog]; exact List.mem_cons_of_mem _ hbefore.created
    · rw [hattempts]; simp [hcount]
    · rw [hlog, List.mem_cons]
      rintro (heq | hmem)
      · cases heq
      · exact hbefore.unspent hmem

theorem Budgeted.creates {s' : PairingState} {code : String} {e : Nat} (h : s.Budgeted)
    (hfresh : code ∉ s.createdCodes)
    (hs' : s' = { s with active := some (.new code e), log := .created code e :: s.log }) :
    s'.Budgeted := by
  have hlog : s'.log = .created code e :: s.log := by subst hs'; rfl
  have hcodes : s'.createdCodes = code :: s.createdCodes := by subst hs'; rfl
  have hrunning : s'.running = s.running := by subst hs'; rfl
  have hattempts (other : String) : s'.attempts other = s.attempts other := by
    subst hs'
    simp [PairingState.attempts, PairingEntry.begins]
  refine ⟨?_, fun a other ha => ?_, fun other => ?_, ?_, ?_, fun other time htime => ?_, fun active ha => ?_⟩
  · rw [hlog, hcodes]
    intro entry hentry
    rcases List.mem_cons.mp hentry with rfl | hentry
    · exact List.mem_cons_self
    · exact List.mem_cons_of_mem _ (h.known entry hentry)
  · rw [hcodes]
    rw [hrunning] at ha
    exact List.mem_cons_of_mem _ (h.runs a other ha)
  · rw [hattempts]
    exact h.attempts other
  · rw [hrunning]
    exact h.alone
  · rw [hlog]
    exact List.pairwise_cons.mpr ⟨fun older _ other time heq => (nomatch heq), h.unspent⟩
  · rw [hlog] at htime ⊢
    rcases List.mem_cons.mp htime with heq | htime
    · cases heq
    · obtain ⟨e', hcreated, hlt⟩ := h.expiry other time htime
      exact ⟨e', List.mem_cons_of_mem _ hcreated, hlt⟩
  · obtain rfl : ActivePairing.new code e = active := by
      subst hs'
      exact Option.some.inj ha
    refine ⟨hlog ▸ List.mem_cons_self, Nat.zero_lt_succ 4, ?_, ?_, fun a ha => ?_⟩
    · rw [hattempts]
      -- nothing was ever done with a code that is new
      have hzero : s.attempts code = 0 := by
        rw [PairingState.attempts, List.countP_eq_zero]
        intro entry hentry hbegins
        cases entry with
        | began used time =>
          obtain rfl : used = code := by simpa [PairingEntry.begins] using hbegins
          exact hfresh (h.known _ hentry)
        | created => cases hbegins
        | finished => cases hbegins
      exact hzero
    · rw [hlog, List.mem_cons]
      rintro (heq | hmem)
      · cases heq
      · exact hfresh (h.known _ hmem)
    · rw [hrunning] at ha
      exact absurd (h.runs a code ha) hfresh

theorem Budgeted.finishes {s' : PairingState} {code : String} {success : Bool} (h : s.Budgeted)
    (hrun : s.running.lookup attempt = some code)
    (hs' : s' = { s with
      active := s.finishPairingAttempt code success
      running := s.running.erase attempt
      log := .finished code success :: s.log }) : s'.Budgeted := by
  have hlog : s'.log = .finished code success :: s.log := by subst hs'; rfl
  have hcodes : s'.createdCodes = s.createdCodes := by subst hs'; rfl
  have hrunning (a : Nat) (other : String) (ha : s'.running.lookup a = some other) :
      a ≠ attempt ∧ s.running.lookup a = some other := by
    subst hs'
    have hne : a ≠ attempt := by
      rintro rfl
      simp at ha
    exact ⟨hne, lookup_of_erase ha⟩
  have hattempts (other : String) : s'.attempts other = s.attempts other := by
    subst hs'
    simp [PairingState.attempts, PairingEntry.begins]
  refine ⟨?_, fun a other ha => ?_, fun other => ?_, fun a b other ha hb => ?_, ?_,
    fun other time htime => ?_, fun rest hrest => ?_⟩
  · rw [hlog, hcodes]
    intro entry hentry
    rcases List.mem_cons.mp hentry with rfl | hentry
    · exact h.runs attempt code hrun
    · exact h.known entry hentry
  · rw [hcodes]
    exact h.runs a other (hrunning a other ha).2
  · rw [hattempts]
    exact h.attempts other
  · exact h.alone a b other (hrunning a other ha).2 (hrunning b other hb).2
  · rw [hlog]
    exact List.pairwise_cons.mpr ⟨fun older _ other time heq => (nomatch heq), h.unspent⟩
  · rw [hlog] at htime ⊢
    rcases List.mem_cons.mp htime with heq | htime
    · cases heq
    · obtain ⟨e, hcreated, hlt⟩ := h.expiry other time htime
      exact ⟨e, List.mem_cons_of_mem _ hcreated, hlt⟩
  · have hfinish : s.finishPairingAttempt code success = some rest := by
      subst hs'
      exact hrest
    rcases hactive : s.active with _ | active
    · simp [finishPairingAttempt, hactive] at hfinish
    · have hbefore := h.active active hactive
      rcases finish_own hactive hfinish with ⟨hother, rfl⟩ | ⟨rfl, rfl, hbudget, rfl⟩
      · refine ⟨hlog ▸ List.mem_cons_of_mem _ hbefore.created, hbefore.budget, ?_, ?_,
          fun a ha => hbefore.running a (hrunning a _ ha).2⟩
        · rw [hattempts]
          exact hbefore.count
        · rw [hlog, List.mem_cons]
          rintro (heq | hmem)
          · exact hother (PairingEntry.finished.inj heq).1
          · exact hbefore.unspent hmem
      · have hused := hbefore.running attempt hrun
        refine ⟨hlog ▸ List.mem_cons_of_mem _ hbefore.created, hbudget, ?_, ?_, fun a ha => ?_⟩
        · have hcount := hbefore.count
          rw [hused] at hcount
          rw [hattempts]
          simpa using hcount
        · rw [hlog, List.mem_cons]
          rintro (heq | hmem)
          · cases heq
          · exact hbefore.unspent hmem
        · -- the only attempt on the code is the one that ends
          obtain ⟨hne, ha⟩ := hrunning a _ ha
          exact absurd (h.alone a attempt _ ha hrun) hne

theorem log_step (s : PairingState) (event : PairingEvent) : s.log.Sublist (s.step event).log := by
  cases event with
  | create code =>
    rcases create_cases (s := s) code with heq | heq
    · rw [heq]
    · rw [heq]; exact List.sublist_cons_self _ _
  | arrive attempt =>
    simp only [step, arrive]
    split <;> exact .refl _
  | begin attempt =>
    rcases hwaiting : s.waiting.lookup attempt with _ | now
    · simp only [step, hwaiting]
      exact .refl _
    · rcases begin_cases hwaiting with heq | ⟨active, _, _, _, _, heq⟩
      · rw [heq]
      · rw [heq]; exact List.sublist_cons_self _ _
  | finish attempt success =>
    simp only [step]
    split
    · exact List.sublist_cons_self _ _
    · exact .refl _
  | passes | abort | close => exact .refl _

theorem Budgeted.step {event : PairingEvent} (h : s.Budgeted) (hprompt : s.Prompt event)
    (hcodes : (s.step event).createdCodes.Nodup) : (s.step event).Budgeted := by
  cases event with
  | passes time => exact h.quiet rfl (fun _ _ ha => ha) (fun _ ha => ha)
  | create code =>
    rcases create_cases (s := s) code with heq | heq
    · rw [heq]
      exact h
    · have hfresh : code ∉ s.createdCodes := by
        rw [heq] at hcodes
        exact (List.nodup_cons.mp hcodes).1
      exact h.creates hfresh heq
  | arrive attempt =>
    simp only [PairingState.step, arrive]
    split
    · exact h
    · exact h.quiet rfl (fun _ _ ha => ha) (fun _ ha => ha)
  | begin attempt =>
    rcases hwaiting : s.waiting.lookup attempt with _ | now
    · simpa only [PairingState.step, hwaiting] using h
    · rcases begin_cases hwaiting with heq | ⟨active, hactive, hlive, hidle, -, heq⟩
      · rw [heq]
        exact h.quiet rfl (fun _ _ ha => ha) (fun _ ha => ha)
      · exact h.begins hactive hidle (hprompt active now hactive hwaiting hlive) heq
  | finish attempt success =>
    rcases hrun : s.running.lookup attempt with _ | code
    · simpa only [PairingState.step, hrun] using h
    · have heq : s.step (.finish attempt success) =
          { s with
            active := s.finishPairingAttempt code success
            running := s.running.erase attempt
            log := .finished code success :: s.log } := by
        simp only [PairingState.step, hrun]
      exact h.finishes hrun heq
  | abort attempt =>
    exact h.quiet rfl (fun _ _ ha => lookup_of_erase ha) (fun _ ha => ha)
  | close => exact h.quiet rfl (fun _ _ ha => ha) (fun _ ha => nomatch ha)

theorem budgeted_after (events : List PairingEvent) (hprompt : AllPrompt events)
    (hcodes : (after events).createdCodes.Nodup) : (after events).Budgeted := by
  induction events with
  | nil => exact budgeted_initial
  | cons event earlier ih =>
    have hearlier : (after earlier).createdCodes.Nodup :=
      hcodes.sublist ((log_step (after earlier) event).filterMap _)
    exact (ih hprompt.2 hearlier).step hprompt.1 hcodes

theorem created_unique (hcodes : s.createdCodes.Nodup) {code : String} {e e' : Nat}
    (h : .created code e ∈ s.log) (h' : .created code e' ∈ s.log) : e = e' := by
  have hpairs := List.pairwise_filterMap.mp hcodes
  by_contra hne
  have hdiffer : PairingEntry.created code e ≠ .created code e' := by simpa using hne
  have : Std.Symm fun a b : PairingEntry => ∀ c, a.createdCode = some c →
      ∀ d, b.createdCode = some d → c ≠ d :=
    ⟨fun a b hab d hd c hc heq => hab c hc d hd heq.symm⟩
  exact hpairs.forall h h' hdiffer code rfl code rfl rfl

/-- Whatever the order of the steps, a code is used by few attempts, by one at a time, and by none
after a success or its expiry, as long as the attempts get the lock in time. -/
theorem pairing_code_budget (events : List PairingEvent)
    (hcodes : (after events).createdCodes.Nodup) (hprompt : AllPrompt events) :
    (∀ code, (after events).attempts code ≤ maxPairingAttempts) ∧
    (∀ a b code, (after events).running.lookup a = some code →
      (after events).running.lookup b = some code → a = b) ∧
    (after events).log.Pairwise Unspent ∧
    (∀ code time e, .began code time ∈ (after events).log → .created code e ∈ (after events).log →
      time < e) ∧
    ∀ attempt success code active, (after events).running.lookup attempt = some code →
      (after events).active = some active → active.code ≠ code →
      ((after events).step (.finish attempt success)).active = some active := by
  have h := budgeted_after events hprompt hcodes
  refine ⟨h.attempts, h.alone, h.unspent, fun code time e hbegan hcreated => ?_,
    fun attempt success code active hrun hactive hother => ?_⟩
  · obtain ⟨e', hcreated', hlt⟩ := h.expiry code time hbegan
    exact created_unique hcodes hcreated' hcreated ▸ hlt
  · simp only [step, hrun]
    exact finish_other hactive hother

end PairingState

namespace Sample

def pairingCode : String := "41302-abandon-ability-able-about"

def secondPairingCode : String := "41302-zebra-zero-zone-zoo"

/-- The second attempt on a code ends when the code has expired and another one is active. -/
def pairingEvents : List PairingEvent :=
  [.finish 1 false, .create secondPairingCode, .passes 600000, .begin 1, .arrive 1, .finish 0 false,
    .begin 0, .arrive 0, .create pairingCode]

/-- The attempt has read the clock in time and gets the lock too late. -/
def lateAttempt : List PairingEvent :=
  [.begin 0, .passes 2, .arrive 0, .passes 599999, .create pairingCode]

end Sample

open PairingState Sample in
theorem pairing_code_budget_sample : (after pairingEvents).attempts pairingCode ≤ maxPairingAttempts := by
  have hprompt : AllPrompt pairingEvents := by
    refine ⟨trivial, trivial, trivial, ?_, trivial, trivial, ?_, trivial, trivial, trivial⟩
    · intro active now hactive _ _
      obtain rfl := Option.some.inj hactive
      decide
    · intro active now hactive _ _
      obtain rfl := Option.some.inj hactive
      decide
  exact (pairing_code_budget pairingEvents (by decide) hprompt).1 pairingCode

open PairingState Sample in
theorem pairing_begins_after_expiry :
    (after lateAttempt).createdCodes.Nodup ∧
    .created pairingCode 600000 ∈ (after lateAttempt).log ∧
    .began pairingCode 600001 ∈ (after lateAttempt).log := by
  decide

end InkHole
