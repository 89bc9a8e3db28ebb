import InkHole.Registrations
import Mathlib.Data.Set.Basic

/-! What an operation of a service owes: every session, relay and task that runs is in a table, or
some operation has still to hand it on or to end it. -/

namespace InkHole

open Machine

namespace JsonService

/-- What an operation still has to do with what it holds. A wormhole that it has made it registers
and starts, or drops; to one that it has started it gives the handle of its task, or aborts the
task; one that it closes it cancels, and then waits for its task. -/
inductive Duty where
  | lan (id : Nat)
  | relay (id : Nat)
  | made (id lan : Nat)
  | inserted (id : Nat)
  | giving (id : Nat)
  | aborting (id : Nat)
  | closing (id : Nat)
  | taking (id : Nat)
  | joining (id : Nat)

/-- The duties that a call with its reply brings. -/
def gains {β : Type} : Call β → β → Set Duty
  | .takeStale _, r => fun d => (∃ id ∈ r.1, d = .lan id) ∨ ∃ id ∈ r.2, d = .relay id
  | .takeLan _ id, r => fun d => (r.1 = true ∧ d = .lan id) ∨ ∃ relay ∈ r.2, d = .relay relay
  | .takeWormhole id, r => fun d => r = true ∧ d = .closing id
  | .takeRelay id, r => fun d => r = true ∧ d = .relay id
  | .drain _ _, r => fun d => ∃ x, r = some x ∧ ((∃ id ∈ x.sessions, d = .lan id) ∨
      (∃ id ∈ x.wormholes, d = .closing id) ∨ ∃ id ∈ x.sshRelays, d = .relay id)
  | .session _ id, r => fun d => r = true ∧ d = .lan id
  | .bindServer _, r => fun d => ∃ id, r = some id ∧ d = .lan id
  | .startRelay _, r => fun d => ∃ id, r = some id ∧ d = .relay id
  | .newWormhole lan, r => fun d => d = .made r lan
  | .insertWormhole id, r => fun d => r = true ∧ d = .inserted id
  | .spawnTask _ _ id, _ => fun d => d = .giving id
  | .setHandle id, r => fun d => r = false ∧ d = .aborting id
  | .cancelWormhole id, _ => fun d => d = .taking id
  | .takeHandle id, r => fun d => r = true ∧ d = .joining id
  | _, _ => fun _ => False

/-- The duties that a call with its reply settles. -/
def settles {β : Type} : Call β → β → Set Duty
  | .dropLan _ id, _ => fun d => d = .lan id
  | .insertRelay id _, r => fun d => r = true ∧ d = .relay id
  | .joinRelay id, _ => fun d => d = .relay id
  | .dropWormhole id, _ => fun d => d = .inserted id ∨ ∃ lan, d = .made id lan
  | .spawnTask _ lan id, _ => fun d => d = .lan lan ∨ d = .inserted id ∨ ∃ l, d = .made id l
  | .setHandle id, _ => fun d => d = .giving id
  | .abortTask id, _ => fun d => d = .aborting id
  | .cancelWormhole id, _ => fun d => d = .closing id
  | .takeHandle id, _ => fun d => d = .taking id
  | .joinTask id, _ => fun d => d = .joining id
  | _, _ => fun _ => False

/-- The calls that settle duties, each with what it settles. -/
inductive SettledBy : (Σ β : Type, Call β) → Duty → Prop where
  | dropLan (me id : Nat) : SettledBy ⟨_, .dropLan me id⟩ (.lan id)
  | insertRelay (id lan : Nat) : SettledBy ⟨_, .insertRelay id lan⟩ (.relay id)
  | joinRelay (id : Nat) : SettledBy ⟨_, .joinRelay id⟩ (.relay id)
  | dropInserted (id : Nat) : SettledBy ⟨_, .dropWormhole id⟩ (.inserted id)
  | dropMade (id lan : Nat) : SettledBy ⟨_, .dropWormhole id⟩ (.made id lan)
  | spawnLan (me lan id : Nat) : SettledBy ⟨_, .spawnTask me lan id⟩ (.lan lan)
  | spawnInserted (me lan id : Nat) : SettledBy ⟨_, .spawnTask me lan id⟩ (.inserted id)
  | spawnMade (me lan id l : Nat) : SettledBy ⟨_, .spawnTask me lan id⟩ (.made id l)
  | setHandle (id : Nat) : SettledBy ⟨_, .setHandle id⟩ (.giving id)
  | abortTask (id : Nat) : SettledBy ⟨_, .abortTask id⟩ (.aborting id)
  | cancelWormhole (id : Nat) : SettledBy ⟨_, .cancelWormhole id⟩ (.closing id)
  | takeHandle (id : Nat) : SettledBy ⟨_, .takeHandle id⟩ (.taking id)
  | joinTask (id : Nat) : SettledBy ⟨_, .joinTask id⟩ (.joining id)

theorem settledBy_of_mem {β : Type} {c : Call β} {r : β} {d : Duty} (h : d ∈ settles c r) :
    SettledBy ⟨β, c⟩ d := by
  cases c with
  | dropLan me id =>
    obtain rfl := h
    exact .dropLan me id
  | insertRelay id lan =>
    obtain ⟨_, rfl⟩ := h
    exact .insertRelay id lan
  | joinRelay id =>
    obtain rfl := h
    exact .joinRelay id
  | dropWormhole id =>
    obtain rfl | ⟨lan, rfl⟩ := h
    · exact .dropInserted id
    · exact .dropMade id lan
  | spawnTask me lan id =>
    obtain rfl | rfl | ⟨l, rfl⟩ := h
    · exact .spawnLan me lan id
    · exact .spawnInserted me lan id
    · exact .spawnMade me lan id l
  | setHandle id =>
    obtain rfl := h
    exact .setHandle id
  | abortTask id =>
    obtain rfl := h
    exact .abortTask id
  | cancelWormhole id =>
    obtain rfl := h
    exact .cancelWormhole id
  | takeHandle id =>
    obtain rfl := h
    exact .takeHandle id
  | joinTask id =>
    obtain rfl := h
    exact .joinTask id
  | _ => exact h.elim

/-- The calls that bring duties, each with what it brings. -/
inductive GainedBy : (Σ β : Type, Call β) → Duty → Prop where
  | staleLan (me id : Nat) : GainedBy ⟨_, .takeStale me⟩ (.lan id)
  | staleRelay (me id : Nat) : GainedBy ⟨_, .takeStale me⟩ (.relay id)
  | takenLan (me id : Nat) : GainedBy ⟨_, .takeLan me id⟩ (.lan id)
  | takenRelay (me id relay : Nat) : GainedBy ⟨_, .takeLan me id⟩ (.relay relay)
  | takeWormhole (id : Nat) : GainedBy ⟨_, .takeWormhole id⟩ (.closing id)
  | takeRelay (id : Nat) : GainedBy ⟨_, .takeRelay id⟩ (.relay id)
  | drainedLan (me : Nat) (closes : Bool) (id : Nat) : GainedBy ⟨_, .drain me closes⟩ (.lan id)
  | drainedWormhole (me : Nat) (closes : Bool) (id : Nat) : GainedBy ⟨_, .drain me closes⟩ (.closing id)
  | drainedRelay (me : Nat) (closes : Bool) (id : Nat) : GainedBy ⟨_, .drain me closes⟩ (.relay id)
  | session (me id : Nat) : GainedBy ⟨_, .session me id⟩ (.lan id)
  | bindServer (me id : Nat) : GainedBy ⟨_, .bindServer me⟩ (.lan id)
  | startRelay (lan id : Nat) : GainedBy ⟨_, .startRelay lan⟩ (.relay id)
  | newWormhole (lan id : Nat) : GainedBy ⟨_, .newWormhole lan⟩ (.made id lan)
  | insertWormhole (id : Nat) : GainedBy ⟨_, .insertWormhole id⟩ (.inserted id)
  | spawnTask (me lan id : Nat) : GainedBy ⟨_, .spawnTask me lan id⟩ (.giving id)
  | setHandle (id : Nat) : GainedBy ⟨_, .setHandle id⟩ (.aborting id)
  | cancelWormhole (id : Nat) : GainedBy ⟨_, .cancelWormhole id⟩ (.taking id)
  | takeHandle (id : Nat) : GainedBy ⟨_, .takeHandle id⟩ (.joining id)

theorem gainedBy_of_mem {β : Type} {c : Call β} {r : β} {d : Duty} (h : d ∈ gains c r) :
    GainedBy ⟨β, c⟩ d := by
  cases c with
  | takeStale me =>
    obtain ⟨id, _, rfl⟩ | ⟨id, _, rfl⟩ := h
    · exact .staleLan me id
    · exact .staleRelay me id
  | takeLan me id =>
    obtain ⟨_, rfl⟩ | ⟨relay, _, rfl⟩ := h
    · exact .takenLan me id
    · exact .takenRelay me id relay
  | takeWormhole id =>
    obtain ⟨_, rfl⟩ := h
    exact .takeWormhole id
  | takeRelay id =>
    obtain ⟨_, rfl⟩ := h
    exact .takeRelay id
  | drain me closes =>
    obtain ⟨x, _, ⟨id, _, rfl⟩ | ⟨id, _, rfl⟩ | ⟨id, _, rfl⟩⟩ := h
    · exact .drainedLan me closes id
    · exact .drainedWormhole me closes id
    · exact .drainedRelay me closes id
  | session me id =>
    obtain ⟨_, rfl⟩ := h
    exact .session me id
  | bindServer me =>
    obtain ⟨id, _, rfl⟩ := h
    exact .bindServer me id
  | startRelay lan =>
    obtain ⟨id, _, rfl⟩ := h
    exact .startRelay lan id
  | newWormhole lan =>
    obtain rfl := h
    exact .newWormhole lan r
  | insertWormhole id =>
    obtain ⟨_, rfl⟩ := h
    exact .insertWormhole id
  | spawnTask me lan id =>
    obtain rfl := h
    exact .spawnTask me lan id
  | setHandle id =>
    obtain ⟨_, rfl⟩ := h
    exact .setHandle id
  | cancelWormhole id =>
    obtain rfl := h
    exact .cancelWormhole id
  | takeHandle id =>
    obtain ⟨_, rfl⟩ := h
    exact .takeHandle id
  | _ => exact h.elim

def nextDuties {β : Type} (duties : Set Duty) (c : Call β) (r : β) : Set Duty :=
  fun d => (d ∈ duties ∧ d ∉ settles c r) ∨ d ∈ gains c r

/-- An operation: its number, whether it has found the service open, and its duties. -/
structure Holding where
  me : Nat
  entered : Bool
  duties : Set Duty

/-- A call with this reply lets an operation into the service. -/
def enters {β : Type} (c : Call β) (r : β) : Bool := !(Shared.effect c r : List Mark).isEmpty

/-- The calls an operation makes before it is let in. -/
def Call.knocks {β : Type} : Call β → Bool
  | .ensureOpen => true
  | .cancelService => true
  | .drain _ _ => true
  | _ => false

/-- What a call is told of the operation that makes it. -/
def Call.fits {β : Type} (t : Holding) : Call β → Prop
  | .takeStale me => me = t.me
  | .takeLan me _ => me = t.me
  | .drain me _ => me = t.me
  | .session me _ => me = t.me
  | .dropLan me _ => me = t.me
  | .bindServer me => me = t.me
  | .startDiscovery _ id => .lan id ∈ t.duties
  | .insertWormhole id => ∃ lan, .made id lan ∈ t.duties
  | .spawnTask me lan id => me = t.me ∧ .made id lan ∈ t.duties ∧ .inserted id ∈ t.duties
  | _ => True

def duteous : Protocol Call Holding Empty where
  allowed t c := (t.entered = true ∨ c.knocks = true) ∧ c.fits t
  next t c r := ⟨t.me, t.entered || enters c r, nextDuties t.duties c r⟩
  holds _ _ := False

theorem duteous_locking : duteous.Locking := fun _ _ _ _ _ h => h.elim

/-! ### Every operation does its duties -/

/-- An operation that is in, with no duties but these. -/
structure Owes (me : Nat) (duties : Set Duty) (t : Holding) : Prop where
  me_eq : t.me = me
  entered : t.entered = true
  duties : ∀ d ∈ t.duties, d ∈ duties

/-- One that was in with no duties but these, and whatever call it has made. -/
theorem Owes.next {me : Nat} {ds ds' : Set Duty} {t : Holding} (h : Owes me ds t) {β : Type} (c : Call β)
    (r : β) (hd : ∀ d, (d ∈ ds ∧ d ∉ settles c r) ∨ d ∈ gains c r → d ∈ ds') :
    Owes me ds' (duteous.next t c r) where
  me_eq := h.me_eq
  entered := by simp only [duteous, h.entered, Bool.true_or]
  duties d hm := hd d (hm.imp_left fun hm => ⟨h.duties d hm.1, hm.2⟩)

theorem follows_request {β : Type} {t : Holding} {c : Call β} {Q : β → Holding → Prop}
    (ha : duteous.allowed t c) (hq : ∀ r, Q r (duteous.next t c r)) :
    duteous.Follows Q t (request c) := ⟨ha, hq⟩

theorem follows_then {β γ : Type} {t : Holding} {c : Call β} {k : β → Program Call γ}
    {Q : γ → Holding → Prop} (ha : duteous.allowed t c)
    (hq : ∀ r, duteous.Follows Q (duteous.next t c r) (k r)) : duteous.Follows Q t (request c >>= k) :=
  ⟨ha, hq⟩

theorem follows_seq {α β : Type} {t : Holding} {p : Program Call α} {f : α → Program Call β}
    {R : α → Holding → Prop} {Q : β → Holding → Prop} (hp : duteous.Follows R t p)
    (hf : ∀ a t', R a t' → duteous.Follows Q t' (f a)) : duteous.Follows Q t (p >>= f) :=
  Protocol.follows_bind.mpr (hp.mono hf)

theorem Owes.allowed {me : Nat} {ds : Set Duty} {t : Holding} (h : Owes me ds t) {β : Type} {c : Call β}
    (hf : c.fits t) : duteous.allowed t c := ⟨.inl h.entered, hf⟩

/-- A call that brings no duty and settles none. -/
theorem Owes.idle {me : Nat} {ds : Set Duty} {t : Holding} (h : Owes me ds t) {β : Type} (c : Call β)
    (r : β) (hg : ∀ d, d ∉ gains c r) : Owes me ds (duteous.next t c r) :=
  h.next c r fun d hd => hd.elim (fun hd => hd.1) fun hd => absurd hd (hg d)

theorem Owes.mono {me : Nat} {ds ds' : Set Duty} {t : Holding} (h : Owes me ds t) (hd : ∀ d ∈ ds, d ∈ ds') :
    Owes me ds' t := ⟨h.me_eq, h.entered, fun d hm => hd d (h.duties d hm)⟩

/-- One duty for each of the ids. -/
def eachOf (duty : Nat → Duty) (ids : List Nat) : Set Duty := {d | ∃ id ∈ ids, d = duty id}

theorem eachOf_nil {ds : Set Duty} {duty : Nat → Duty} {d : Duty} (hd : d ∈ ds ∪ eachOf duty []) :
    d ∈ ds := by
  rcases hd with hd | ⟨id, hid, _⟩
  · exact hd
  · exact absurd hid List.not_mem_nil

theorem eachOf_cons {ds : Set Duty} {duty : Nat → Duty} {id : Nat} {ids : List Nat} {d : Duty}
    (hd : d ∈ ds ∪ eachOf duty (id :: ids)) : d ∈ (ds ∪ eachOf duty ids) ∪ {duty id} := by
  rcases hd with hd | ⟨other, ho, rfl⟩
  · exact .inl (.inl hd)
  · rcases List.mem_cons.mp ho with rfl | ho
    · exact .inr rfl
    · exact .inl (.inr ⟨other, ho, rfl⟩)

section Closing

variable {me : Nat} {ds : Set Duty} {t : Holding} {ids : List Nat} {id : Nat}

theorem follows_attempt (h : Owes me ds t) :
    duteous.Follows (fun _ => Owes me ds) t (request .attempt) :=
  follows_request (h.allowed trivial) fun r => h.idle _ r fun _ hd => hd

theorem follows_closeSshRelay (h : Owes me (ds ∪ {.relay id}) t) :
    duteous.Follows (fun _ => Owes me ds) t (closeSshRelay id) := by
  refine follows_then (h.allowed trivial) fun r => ?_
  have hidle := h.idle (.cancelRelay id) r fun _ hd => hd
  refine follows_request (hidle.allowed trivial) fun r => hidle.next _ r ?_
  rintro d (⟨hd | hd, hs⟩ | hd)
  · exact hd
  · exact absurd hd hs
  · exact hd.elim

theorem follows_closeSshRelays (h : Owes me (ds ∪ eachOf .relay ids) t) :
    duteous.Follows (fun _ => Owes me ds) t (closeSshRelays ids) := by
  induction ids generalizing t with
  | nil => exact h.mono fun _ => eachOf_nil
  | cons id ids ih =>
    exact follows_seq (follows_closeSshRelay (h.mono fun _ => eachOf_cons)) fun _ _ ht => ih ht

theorem follows_closeWormhole (h : Owes me (ds ∪ {.closing id}) t) :
    duteous.Follows (fun _ => Owes me ds) t (closeWormhole id) := by
  refine follows_then (h.allowed trivial) fun r => ?_
  have htaking : Owes me (ds ∪ {.taking id}) (duteous.next t (.cancelWormhole id) r) := by
    refine h.next _ r ?_
    rintro d (⟨hd | hd, hs⟩ | hd)
    · exact .inl hd
    · exact absurd hd hs
    · exact .inr hd
  refine follows_then (htaking.allowed trivial) fun r => ?_
  cases r with
  | true =>
    have hjoining : Owes me (ds ∪ {.joining id})
        (duteous.next (duteous.next t (.cancelWormhole id) r) (.takeHandle id) true) := by
      refine htaking.next _ _ ?_
      rintro d (⟨hd | hd, hs⟩ | ⟨_, hd⟩)
      · exact .inl hd
      · exact absurd hd hs
      · exact .inr hd
    refine follows_request (hjoining.allowed trivial) fun r => hjoining.next _ r ?_
    rintro d (⟨hd | hd, hs⟩ | hd)
    · exact hd
    · exact absurd hd hs
    · exact hd.elim
  | false =>
    refine htaking.next _ _ ?_
    rintro d (⟨hd | hd, hs⟩ | ⟨hr, _⟩)
    · exact hd
    · exact absurd hd hs
    · cases hr

theorem follows_closeWormholes (h : Owes me (ds ∪ eachOf .closing ids) t) :
    duteous.Follows (fun _ => Owes me ds) t (closeWormholes ids) := by
  induction ids generalizing t with
  | nil => exact h.mono fun _ => eachOf_nil
  | cons id ids ih =>
    refine follows_seq (follows_closeWormhole (h.mono fun _ => eachOf_cons)) fun closed _ ht => ?_
    exact follows_seq (ih ht) fun others _ ht => ht

/-- Closing a session settles nothing: the operation holds it until it drops it. -/
theorem follows_closeLan (h : Owes me ds t) : duteous.Follows (fun _ => Owes me ds) t (closeLan id) := by
  refine follows_then (h.allowed trivial) fun r => ?_
  have hsends := h.idle (.closeSends id) r fun _ hd => hd
  cases r with
  | true => exact hsends
  | false =>
    refine follows_then (hsends.allowed trivial) fun found => ?_
    have hdiscovery := hsends.idle (.closeDiscovery id) found fun _ hd => hd
    have hrest : ∀ discovery : Except ServiceError Unit, ∀ t, Owes me ds t →
        duteous.Follows (fun _ => Owes me ds) t (do
          request (.closeServer id)
          let server ← request .attempt
          let sends ← request .attempt
          pure (firstError discovery (firstError server sends))) := by
      intro discovery t ht
      refine follows_then (ht.allowed trivial) fun r => ?_
      have hserver := ht.idle (.closeServer id) r fun _ hd => hd
      refine follows_seq (follows_attempt hserver) fun _ _ ht => ?_
      exact follows_seq (follows_attempt ht) fun _ _ ht => ht
    cases found with
    | true => exact follows_seq (follows_attempt hdiscovery) hrest
    | false => exact hrest (.ok ()) _ hdiscovery

theorem follows_dropLan (h : Owes me (ds ∪ {.lan id}) t) :
    duteous.Follows (fun _ => Owes me ds) t (request (.dropLan me id)) := by
  refine follows_request (h.allowed h.me_eq.symm) fun r => h.next _ r ?_
  rintro d (⟨hd | hd, hs⟩ | hd)
  · exact hd
  · exact absurd hd hs
  · exact hd.elim

theorem follows_closeSessions (h : Owes me (ds ∪ eachOf .lan ids) t) :
    duteous.Follows (fun _ => Owes me ds) t (closeSessions me ids) := by
  induction ids generalizing t with
  | nil => exact h.mono fun _ => eachOf_nil
  | cons id ids ih =>
    refine follows_seq (follows_closeLan (h.mono fun _ => eachOf_cons)) fun closed _ ht => ?_
    refine follows_seq (follows_dropLan ht) fun _ _ ht => ?_
    exact follows_seq (ih ht) fun others _ ht => ht

theorem follows_dropLans (h : Owes me (ds ∪ eachOf .lan ids) t) :
    duteous.Follows (fun _ => Owes me ds) t (dropLans me ids) := by
  induction ids generalizing t with
  | nil => exact h.mono fun _ => eachOf_nil
  | cons id ids ih =>
    exact follows_seq (follows_dropLan (h.mono fun _ => eachOf_cons)) fun _ _ ht => ih ht

end Closing

section Operations

variable {me : Nat} {ds : Set Duty} {t : Holding}

theorem follows_bindServer (listenPort : Nat) (h : Owes me ds t) :
    duteous.Follows (fun r t' => Owes me ds t' ∧ r = none ∨
      ∃ id, r = some id ∧ Owes me (ds ∪ {.lan id}) t' ∧ .lan id ∈ t'.duties) t (bindServer me listenPort) := by
  have hnone : ∀ t, Owes me ds t → Owes me ds (duteous.next t (.bindServer me) none) := by
    intro t ht
    exact ht.idle _ _ fun d hd => by obtain ⟨id, hid, _⟩ := hd; cases hid
  have hsome : ∀ t id, Owes me ds t → Owes me (ds ∪ {.lan id}) (duteous.next t (.bindServer me) (some id)) ∧
      .lan id ∈ (duteous.next t (.bindServer me) (some id)).duties := by
    intro t id ht
    refine ⟨ht.next _ _ ?_, .inr ⟨id, rfl, rfl⟩⟩
    rintro d (hd | ⟨_, hid, rfl⟩)
    · exact .inl hd.1
    · obtain rfl := Option.some.inj hid
      exact .inr rfl
  refine follows_then (h.allowed h.me_eq.symm) fun r => ?_
  cases r with
  | some id => exact .inr ⟨id, rfl, hsome t id h⟩
  | none =>
    have hn := hnone t h
    by_cases hport : listenPort = 0
    · simp only [hport, if_true]
      exact .inl ⟨hn, rfl⟩
    · simp only [hport, if_false]
      refine follows_request (hn.allowed hn.me_eq.symm) fun r => ?_
      cases r with
      | none => exact .inl ⟨hnone _ hn, rfl⟩
      | some id => exact .inr ⟨id, rfl, hsome _ id hn⟩

theorem follows_registerLan {id : Nat} (h : Owes me (ds ∪ {.lan id}) t) :
    duteous.Follows (fun _ => Owes me ds) t (registerLan me id) := by
  refine follows_then (h.allowed trivial) fun inserted => ?_
  have hins := h.idle (.insertSession me id) inserted fun _ hd => hd
  cases inserted with
  | true => exact follows_seq (follows_dropLan hins) fun _ _ ht => ht
  | false =>
    refine follows_seq (follows_closeLan hins) fun closed t ht => ?_
    exact follows_seq (follows_dropLan ht) fun _ _ ht => ht

theorem follows_startLan (params : LanStartParams) (h : Owes me ds t) :
    duteous.Follows (fun _ => Owes me ds) t (startLan me params) := by
  refine follows_then (h.allowed h.me_eq.symm) fun stale => ?_
  have hstale : Owes me ((ds ∪ eachOf .lan stale.1) ∪ eachOf .relay stale.2)
      (duteous.next t (.takeStale me) stale) := by
    refine h.next _ _ ?_
    rintro d (hd | hd | hd)
    · exact .inl (.inl hd.1)
    · exact .inl (.inr hd)
    · exact .inr hd
  refine follows_seq (follows_closeSshRelays hstale) fun _ t ht => ?_
  refine follows_seq (follows_closeSessions ht) fun _ t ht => ?_
  by_cases hp : (!params.complete) = true
  · rw [if_pos hp]
    exact ht
  rw [if_neg hp]
  refine follows_seq (follows_attempt ht) fun identity t ht => ?_
  cases identity with
  | error e => exact ht
  | ok _ =>
    refine follows_seq (follows_bindServer params.listenPort ht) fun bound t hbound => ?_
    obtain ⟨ht, rfl⟩ | ⟨id, rfl, ht, hid⟩ := hbound
    · exact ht
    by_cases hdisc : params.discovers = true
    · simp only [hdisc, if_true]
      refine follows_then (ht.allowed hid) fun r => ?_
      exact follows_registerLan (ht.idle (.startDiscovery me id) r fun _ hd => hd)
    · simp only [hdisc]
      exact follows_registerLan ht

theorem follows_stopLan (sessionId : SessionId) (h : Owes me ds t) :
    duteous.Follows (fun _ => Owes me ds) t (stopLan me sessionId) := by
  cases sessionId with
  | lan id =>
    refine follows_then (h.allowed h.me_eq.symm) fun taken => ?_
    obtain ⟨found, relays⟩ := taken
    cases found with
    | true =>
      have htaken : Owes me ((ds ∪ {.lan id}) ∪ eachOf .relay relays)
          (duteous.next t (.takeLan me id) (true, relays)) := by
        refine h.next _ _ ?_
        rintro d (hd | ⟨_, rfl⟩ | hd)
        · exact .inl (.inl hd.1)
        · exact .inl (.inr rfl)
        · exact .inr hd
      refine follows_seq (follows_closeSshRelays htaken) fun _ t ht => ?_
      refine follows_seq (follows_closeLan ht) fun closed t ht => ?_
      exact follows_seq (follows_dropLan ht) fun _ _ ht => ht
    | false =>
      have htaken : Owes me (ds ∪ eachOf .relay relays) (duteous.next t (.takeLan me id) (false, relays)) := by
        refine h.next _ _ ?_
        rintro d (hd | ⟨hf, _⟩ | hd)
        · exact .inl hd.1
        · cases hf
        · exact .inr hd
      exact follows_seq (follows_closeSshRelays htaken) fun _ t ht => ht
  | empty => exact h
  | wormhole id => exact h
  | relay id => exact h

/-- An operation that is done with the session it was handed, and has handed nothing else on. -/
theorem follows_withLan (sessionId : SessionId) {use : Nat → Program Call (Except ServiceError Reply)}
    (h : Owes me ds t)
    (huse : ∀ id t, Owes me (ds ∪ {.lan id}) t →
      duteous.Follows (fun _ => Owes me (ds ∪ {.lan id})) t (use id)) :
    duteous.Follows (fun _ => Owes me ds) t (withLan me sessionId use) := by
  cases sessionId with
  | lan id =>
    refine follows_then (h.allowed h.me_eq.symm) fun found => ?_
    cases found with
    | true =>
      have hheld : Owes me (ds ∪ {.lan id}) (duteous.next t (.session me id) true) := by
        refine h.next _ _ ?_
        rintro d (hd | ⟨_, hd⟩)
        · exact .inl hd.1
        · exact .inr hd
      refine follows_seq (huse id _ hheld) fun r t ht => ?_
      exact follows_seq (follows_dropLan ht) fun _ _ ht => ht
    | false =>
      refine h.idle _ _ ?_
      rintro d ⟨hf, _⟩
      cases hf
  | empty => exact h
  | wormhole id => exact h
  | relay id => exact h

theorem follows_useLan (sessionId : SessionId) (h : Owes me ds t) :
    duteous.Follows (fun _ => Owes me ds) t (useLan me sessionId) :=
  follows_withLan sessionId h fun _ _ ht => follows_seq (follows_attempt ht) fun _ _ ht => ht

theorem follows_sshListen (sessionId : SessionId) (h : Owes me ds t) :
    duteous.Follows (fun _ => Owes me ds) t (sshListen me sessionId) := by
  refine follows_withLan sessionId h fun lan t ht => ?_
  refine follows_then (ht.allowed trivial) fun active => ?_
  have hidle := ht.idle (.relaysForLan lan) active fun _ hd => hd
  by_cases ha : (!active.isEmpty) = true
  · rw [if_pos ha]
    exact hidle
  rw [if_neg ha]
  refine follows_then (hidle.allowed trivial) fun started => ?_
  cases started with
  | none =>
    refine hidle.idle _ _ ?_
    rintro d ⟨_, hs, _⟩
    cases hs
  | some relay =>
    have hstarted : Owes me ((ds ∪ {.lan lan}) ∪ {.relay relay})
        (duteous.next (duteous.next t (.relaysForLan lan) active) (.startRelay lan) (some relay)) := by
      refine hidle.next _ _ ?_
      rintro d (hd | ⟨_, hs, rfl⟩)
      · exact .inl hd.1
      · obtain rfl := Option.some.inj hs
        exact .inr rfl
    refine follows_then (hstarted.allowed trivial) fun inserted => ?_
    cases inserted with
    | true =>
      refine hstarted.next _ _ ?_
      rintro d (⟨hd | hd, hs⟩ | hd)
      · exact hd
      · exact absurd ⟨rfl, hd⟩ hs
      · exact hd.elim
    | false =>
      have hrefused := hstarted.idle (.insertRelay relay lan) false fun _ hd => hd
      exact follows_seq (follows_closeSshRelay hrefused) fun _ _ ht => ht

theorem follows_openWormhole (lan : Nat) (h : Owes me (ds ∪ {.lan lan}) t) :
    duteous.Follows (fun _ => Owes me (ds ∪ {.lan lan})) t (openWormhole me lan) := by
  refine follows_then (h.allowed trivial) fun id => ?_
  have hmade : Owes me ((ds ∪ {.lan lan}) ∪ {.made id lan}) (duteous.next t (.newWormhole lan) id) := by
    refine h.next _ _ ?_
    rintro d (hd | hd)
    · exact .inl hd.1
    · exact .inr hd
  have hmem : .made id lan ∈ (duteous.next t (.newWormhole lan) id).duties := .inr rfl
  refine follows_then (hmade.allowed ⟨lan, hmem⟩) fun inserted => ?_
  cases inserted with
  | true =>
    have hins : Owes me (((ds ∪ {.lan lan}) ∪ {.made id lan}) ∪ {.inserted id})
        (duteous.next (duteous.next t (.newWormhole lan) id) (.insertWormhole id) true) := by
      refine hmade.next _ _ ?_
      rintro d (hd | ⟨_, hd⟩)
      · exact .inl hd.1
      · exact .inr hd
    have hstill : .made id lan ∈
        (duteous.next (duteous.next t (.newWormhole lan) id) (.insertWormhole id) true).duties :=
      .inl ⟨hmem, fun hs => hs⟩
    refine follows_then (hins.allowed ⟨hins.me_eq.symm, hstill, .inr ⟨rfl, rfl⟩⟩) fun r => ?_
    have hgiving : Owes me (ds ∪ {.giving id}) (duteous.next
        (duteous.next (duteous.next t (.newWormhole lan) id) (.insertWormhole id) true)
        (.spawnTask me lan id) r) := by
      refine hins.next _ _ ?_
      rintro d (⟨((hd | hd) | hd) | hd, hs⟩ | hd)
      · exact .inl hd
      · exact absurd (.inl hd) hs
      · exact absurd (.inr (.inr ⟨lan, hd⟩)) hs
      · exact absurd (.inr (.inl hd)) hs
      · exact .inr hd
    refine follows_then (hgiving.allowed trivial) fun given => ?_
    cases given with
    | true =>
      refine hgiving.next _ _ ?_
      rintro d (⟨hd | hd, hs⟩ | ⟨hf, _⟩)
      · exact .inl hd
      · exact absurd hd hs
      · cases hf
    | false =>
      have haborting : Owes me (ds ∪ {.aborting id}) (duteous.next (duteous.next
          (duteous.next (duteous.next t (.newWormhole lan) id) (.insertWormhole id) true)
          (.spawnTask me lan id) r) (.setHandle id) false) := by
        refine hgiving.next _ _ ?_
        rintro d (⟨hd | hd, hs⟩ | ⟨_, hd⟩)
        · exact .inl hd
        · exact absurd hd hs
        · exact .inr hd
      refine follows_then (haborting.allowed trivial) fun r => haborting.next _ _ ?_
      rintro d (⟨hd | hd, hs⟩ | hd)
      · exact .inl hd
      · exact absurd hd hs
      · exact hd.elim
  | false =>
    have hidle : Owes me ((ds ∪ {.lan lan}) ∪ {.made id lan})
        (duteous.next (duteous.next t (.newWormhole lan) id) (.insertWormhole id) false) := by
      refine hmade.idle _ _ ?_
      rintro d ⟨hf, _⟩
      cases hf
    refine follows_then (hidle.allowed trivial) fun r => hidle.next _ _ ?_
    rintro d (⟨hd | hd, hs⟩ | hd)
    · exact hd
    · exact absurd (.inr ⟨lan, hd⟩) hs
    · exact hd.elim

theorem follows_wormholeCreate (sessionId : SessionId) (h : Owes me ds t) :
    duteous.Follows (fun _ => Owes me ds) t (wormholeCreate me sessionId) := by
  refine follows_withLan sessionId h fun lan t ht => ?_
  refine follows_seq (follows_attempt ht) fun sender t ht => ?_
  cases sender with
  | error e => exact ht
  | ok _ => exact follows_openWormhole lan ht

theorem follows_wormholeJoin (sessionId : SessionId) (codeEmpty : Bool) (h : Owes me ds t) :
    duteous.Follows (fun _ => Owes me ds) t (wormholeJoin me sessionId codeEmpty) := by
  refine follows_withLan sessionId h fun lan t ht => ?_
  cases codeEmpty with
  | true => exact ht
  | false => exact follows_openWormhole lan ht

theorem follows_cancelTransportSession (sessionId : SessionId) (h : Owes me ds t) :
    duteous.Follows (fun _ => Owes me ds) t (cancelTransportSession sessionId) := by
  cases sessionId with
  | wormhole id =>
    refine follows_then (h.allowed trivial) fun found => ?_
    have htaken : Owes me (ds ∪ {.closing id}) (duteous.next t (.takeWormhole id) found) := by
      refine h.next _ _ ?_
      rintro d (hd | ⟨_, hd⟩)
      · exact .inl hd.1
      · exact .inr hd
    cases found with
    | true => exact follows_seq (follows_closeWormhole htaken) fun _ _ ht => ht
    | false =>
      refine h.idle _ _ ?_
      rintro d ⟨hf, _⟩
      cases hf
  | relay id =>
    refine follows_then (h.allowed trivial) fun found => ?_
    have htaken : Owes me (ds ∪ {.relay id}) (duteous.next t (.takeRelay id) found) := by
      refine h.next _ _ ?_
      rintro d (hd | ⟨_, hd⟩)
      · exact .inl hd.1
      · exact .inr hd
    cases found with
    | true => exact follows_seq (follows_closeSshRelay htaken) fun _ _ ht => ht
    | false =>
      refine h.idle _ _ ?_
      rintro d ⟨hf, _⟩
      cases hf
  | empty => exact h
  | lan id => exact h

/-- What is taken out of the tables in one section is closed, or dropped, before the end. -/
theorem owes_drain {closes : Bool} {drained : Drained} (hme : t.me = me) (hd : ∀ d ∈ t.duties, d ∈ ds) :
    Owes me (((ds ∪ eachOf .lan drained.sessions) ∪ eachOf .closing drained.wormholes) ∪
      eachOf .relay drained.sshRelays) (duteous.next t (.drain me closes) (some drained)) where
  me_eq := hme
  entered := by simp [duteous, enters, Shared.effect]
  duties d hm := by
    obtain ⟨hm, _⟩ | ⟨x, hx, hm⟩ := hm
    · exact .inl (.inl (.inl (hd d hm)))
    · obtain rfl := Option.some.inj hx
      rcases hm with hm | hm | hm
      · exact .inl (.inl (.inr hm))
      · exact .inl (.inr hm)
      · exact .inr hm

end Operations

/-- An operation at its start. -/
def idleHolding (me : Nat) : Holding := ⟨me, false, ∅⟩

/-- No duty is left. -/
def Settled (t : Holding) : Prop := t.duties = ∅

theorem Owes.settled {me : Nat} {t : Holding} (h : Owes me ∅ t) : Settled t :=
  Set.eq_empty_of_forall_notMem h.duties

theorem settled_next {β : Type} {t : Holding} {c : Call β} {r : β} (h : Settled t) (hg : ∀ d, d ∉ gains c r) :
    Settled (duteous.next t c r) := by
  refine Set.eq_empty_of_forall_notMem fun d hd => ?_
  obtain ⟨hd, _⟩ | hd := hd
  · rw [h] at hd
    exact hd
  · exact hg d hd

theorem follows_reset (me : Nat) :
    duteous.Follows (fun _ => Settled) (idleHolding me) (JsonService.reset me) := by
  refine follows_then ⟨.inr rfl, rfl⟩ fun r => ?_
  cases r with
  | none =>
    refine settled_next rfl ?_
    rintro d ⟨x, hx, _⟩
    cases hx
  | some drained =>
    refine follows_seq (follows_closeSshRelays (owes_drain rfl fun _ hd => hd)) fun _ t ht => ?_
    refine follows_seq (follows_closeWormholes ht) fun closed t ht => ?_
    cases closed with
    | error e => exact follows_seq (follows_dropLans ht) fun _ _ ht => ht.settled
    | ok _ => exact follows_seq (follows_closeSessions ht) fun _ _ ht => ht.settled

theorem follows_close (me : Nat) :
    duteous.Follows (fun _ => Settled) (idleHolding me) (JsonService.close me) := by
  refine follows_then ⟨.inr rfl, trivial⟩ fun r => ?_
  have hcancelled : Settled (duteous.next (idleHolding me) .cancelService r) := settled_next rfl fun _ hd => hd
  refine follows_then ⟨.inr rfl, rfl⟩ fun r => ?_
  cases r with
  | none =>
    refine settled_next hcancelled ?_
    rintro d ⟨x, hx, _⟩
    cases hx
  | some drained =>
    have hd : Owes me (((∅ ∪ eachOf .lan drained.sessions) ∪ eachOf .closing drained.wormholes) ∪
        eachOf .relay drained.sshRelays) (duteous.next
          (duteous.next (idleHolding me) .cancelService r) (.drain me true) (some drained)) :=
      owes_drain rfl hcancelled.subset
    refine follows_seq (follows_closeSshRelays hd) fun _ t ht => ?_
    refine follows_seq (follows_closeWormholes ht) fun wormholes t ht => ?_
    exact follows_seq (follows_closeSessions ht) fun _ _ ht => ht.settled

theorem follows_handle {me : Nat} {p : Program Call (Except ServiceError Reply)}
    (hp : ∀ t, Owes me ∅ t → duteous.Follows (fun _ => Owes me ∅) t p) :
    duteous.Follows (fun _ => Settled) (idleHolding me) (handle p) := by
  refine follows_then ⟨.inr rfl, trivial⟩ fun r => ?_
  have hidle : Settled (duteous.next (idleHolding me) .ensureOpen r) := settled_next rfl fun _ hd => hd
  cases r with
  | true => exact (hp _ ⟨rfl, rfl, hidle.subset⟩).mono fun _ _ ht => ht.settled
  | false => exact hidle

theorem follows_operation (op : Operation) (me : Nat) :
    duteous.Follows (fun _ => Settled) (idleHolding me) (op.program me) := by
  cases op with
  | lanStart params => exact follows_handle fun _ ht => follows_startLan params ht
  | lanStop sessionId => exact follows_handle fun _ ht => follows_stopLan sessionId ht
  | lanUse sessionId => exact follows_handle fun _ ht => follows_useLan sessionId ht
  | sshListen sessionId => exact follows_handle fun _ ht => follows_sshListen sessionId ht
  | wormholeCreate sessionId => exact follows_handle fun _ ht => follows_wormholeCreate sessionId ht
  | wormholeJoin sessionId codeEmpty =>
    exact follows_handle fun _ ht => follows_wormholeJoin sessionId codeEmpty ht
  | sessionCancel sessionId => exact follows_handle fun _ ht => follows_cancelTransportSession sessionId ht
  | reset => exact follows_reset me
  | close => exact follows_close me

end JsonService

end InkHole
