import InkHole.HomePage

/-! The gate of the core opens again: whenever nothing comes in and the calls of the page have
returned, no pause of an earlier transfer is in force. -/

namespace InkHole

namespace HomePage

/-- What the page and the core hold of the transfers that come in. -/
structure ReceiveSide where
  receivingIds : List Nat
  isReceivePaused : Bool
  calls : List ReceiveCall
  answers : List ReceiveCall
  gate : Bool
  incoming : List Nat

def receiveSide (s : HomePage) : ReceiveSide :=
  ⟨s.receivingIds, s.isReceivePaused, s.calls, s.answers, s.gate, s.incoming⟩

theorem sendGroups_receiveSide (s : HomePage) (groups : List (String × List File)) :
    (s.sendGroups groups).receiveSide = s.receiveSide := by
  induction groups with
  | nil => rfl
  | cons group later ih =>
    obtain ⟨peer, files⟩ := group
    cases files with
    | nil => exact ih
    | cons file rest =>
      rw [sendGroups]
      split
      · rfl
      · exact ih

theorem sendNext_receiveSide (s : HomePage) (batch : Batch) :
    (s.sendNext batch).receiveSide = s.receiveSide := by
  unfold sendNext
  split
  · exact sendGroups_receiveSide s batch.later
  · split
    · exact sendGroups_receiveSide s batch.later
    · rfl

theorem sendReturns_receiveSide (s : HomePage) (batch : Batch) (result : SendResult) :
    (s.sendReturns batch result).receiveSide = s.receiveSide := by
  cases result with
  | failed => exact sendNext_receiveSide _ batch
  | unnamed => exact sendNext_receiveSide _ batch
  | started =>
    unfold sendReturns
    dsimp only
    split
    · exact sendNext_receiveSide _ batch
    · exact sendNext_receiveSide _ batch

theorem cancelReturns_receiveSide (s : HomePage) (pausing : Pausing) :
    (s.cancelReturns pausing).receiveSide = s.receiveSide := by
  unfold cancelReturns
  split <;> rfl

/-- Whether the gate is closed once the core has run the calls that are on their way. -/
def closing (s : HomePage) : Bool :=
  match s.calls.getLast? with
  | some call => decide (call = .pause)
  | none => s.gate

/-- Whether a press of the button pauses what comes in. -/
def pausesReceive (s : HomePage) : Bool := !s.isReceivePaused && !s.receivingIds.isEmpty

/-- The steps that leave the gate open behind the last transfer. Nothing is paused for transfers
that have ended; and the last transfer ends where no pause is in force or on its way, or it ends
well where the page holds the pause and waits for no other transfer. -/
def opens (s : HomePage) : Event → Bool
  | .press => !s.pausesReceive || !s.incoming.isEmpty
  | .received transfer =>
    !(s.incoming.filter (· ≠ transfer)).isEmpty || !s.closing ||
      (s.isReceivePaused && (s.receivingIds.filter (· ≠ transfer)).isEmpty)
  | .failed transfer => !(s.incoming.filter (· ≠ transfer)).isEmpty || !s.closing
  | _ => true

/-- What the gate owes to those who send: it is open when nothing comes in and all calls have
returned. -/
def Released (s : HomePage) : Prop :=
  s.incoming = [] → s.calls = [] → s.answers = [] → s.gate = false

theorem closing_congr {s s' : HomePage} (h : s'.receiveSide = s.receiveSide) :
    s'.closing = s.closing ∧ s'.incoming = s.incoming := by
  simp only [receiveSide, ReceiveSide.mk.injEq] at h
  obtain ⟨-, -, hc, -, hg, hi⟩ := h
  exact ⟨by simp only [closing, hc, hg], hi⟩

theorem closing_append (s : HomePage) (call : ReceiveCall) :
    { s with calls := s.calls ++ [call] }.closing = decide (call = .pause) := by
  simp [closing]

theorem runCall_closing {s s' : HomePage} (h : s.runCall = some s') :
    s'.closing = s.closing ∧ s'.incoming = s.incoming := by
  unfold runCall at h
  split at h
  · cases h
  · next call rest hc =>
    obtain rfl := Option.some.inj h
    refine ⟨?_, rfl⟩
    cases rest with
    | nil => simp [closing, hc]
    | cons next rest =>
      have hlast : (call :: next :: rest).getLast? = (next :: rest).getLast? :=
        List.getLast?_cons_cons
      simp only [closing, hc, hlast, List.getLast?_cons]

theorem callReturns_closing {s s' : HomePage} (h : s.callReturns = some s') :
    s'.closing = s.closing ∧ s'.incoming = s.incoming := by
  unfold callReturns at h
  split at h
  · cases h
  · obtain rfl := Option.some.inj h
    exact ⟨rfl, rfl⟩
  · obtain rfl := Option.some.inj h
    exact ⟨rfl, rfl⟩

theorem releaseReceivePause_closing (s : HomePage) :
    s.releaseReceivePause.closing = (s.closing && !s.isReceivePaused) ∧
      s.releaseReceivePause.incoming = s.incoming := by
  unfold releaseReceivePause
  split
  · next hp => simp [closing, hp]
  · next hp =>
    have : s.isReceivePaused = false := by simpa using hp
    simp [this]

theorem resume_receiveSide (s : HomePage) : s.resume.receiveSide = s.receiveSide :=
  sendGroups_receiveSide _ _

theorem pause_receiveSide (s : HomePage) : s.pause.receiveSide = s.receiveSide := by
  unfold pause
  split <;> rfl

/-- The gate will be open when nothing comes in. -/
def Opening (s : HomePage) : Prop := s.incoming = [] → s.closing = false

theorem Opening.congr {s s' : HomePage} (h : s'.closing = s.closing ∧ s'.incoming = s.incoming) :
    s'.Opening ↔ s.Opening := by
  simp only [Opening, h.1, h.2]

theorem opening_press {s : HomePage} (h : s.Opening) :
    s.togglePause.Opening ↔ s.opens .press = true := by
  unfold togglePause
  split
  · next hp =>
    obtain ⟨hc, hi⟩ := releaseReceivePause_closing s
    have hopen : s.releaseReceivePause.closing = false := by simp [hc, hp]
    exact iff_of_true (fun _ => hopen) (by simp [opens, pausesReceive, hp])
  · next hp =>
    have hp' : s.isReceivePaused = false := by simpa using hp
    split
    · next hr =>
      have hc := closing_append s .pause
      have hopens : s.opens .press = true ↔ s.incoming ≠ [] := by
        simp [opens, pausesReceive, hp', hr]
      rw [hopens]
      constructor
      · intro hk hi
        have := hk hi
        simp [hc] at this
      · exact fun hne hi => absurd hi hne
    · next hr =>
      have hr' : s.receivingIds = [] := by simpa using hr
      have hopens : s.opens .press = true := by simp [opens, pausesReceive, hr']
      split
      · exact iff_of_true ((Opening.congr (closing_congr (resume_receiveSide s))).mpr h) hopens
      · exact iff_of_true ((Opening.congr (closing_congr (pause_receiveSide s))).mpr h) hopens

theorem opening_received (s : HomePage) (transfer : Nat) :
    (s.onReceived transfer).Opening ↔ s.opens (.received transfer) = true := by
  unfold onReceived
  dsimp only
  split
  · next hr =>
    obtain ⟨hc, hi⟩ := releaseReceivePause_closing { s with
      incoming := s.incoming.filter (· ≠ transfer)
      receivingIds := s.receivingIds.filter (· ≠ transfer) }
    rw [Opening, hc, hi]
    change (s.incoming.filter (· ≠ transfer) = [] → (s.closing && !s.isReceivePaused) = false) ↔
      (!(s.incoming.filter (· ≠ transfer)).isEmpty || !s.closing ||
        (s.isReceivePaused && (s.receivingIds.filter (· ≠ transfer)).isEmpty)) = true
    rw [show s.receivingIds.filter (· ≠ transfer) = [] from hr]
    cases s.incoming.filter (· ≠ transfer) <;> cases s.closing <;> cases s.isReceivePaused <;> simp
  · next hr =>
    change (s.incoming.filter (· ≠ transfer) = [] → s.closing = false) ↔
      (!(s.incoming.filter (· ≠ transfer)).isEmpty || !s.closing ||
        (s.isReceivePaused && (s.receivingIds.filter (· ≠ transfer)).isEmpty)) = true
    have hr' : (s.receivingIds.filter (· ≠ transfer)).isEmpty = false := by
      rw [List.isEmpty_eq_false_iff]
      exact hr
    rw [hr']
    cases s.incoming.filter (· ≠ transfer) <;> cases s.closing <;> simp

theorem opening_failed (s : HomePage) (transfer : Nat) :
    (s.onFailed transfer).Opening ↔ s.opens (.failed transfer) = true := by
  change (s.incoming.filter (· ≠ transfer) = [] → s.closing = false) ↔
    (!(s.incoming.filter (· ≠ transfer)).isEmpty || !s.closing) = true
  cases s.incoming.filter (· ≠ transfer) <;> cases s.closing <;> simp

/-- A step keeps the gate opening exactly when it is one that leaves it open. -/
theorem opening_step {s s' : HomePage} {e : Event} (h : s.Opening) (hs : s.step e = some s') :
    s'.Opening ↔ s.opens e = true := by
  cases e with
  | press =>
    obtain rfl := Option.some.inj hs
    exact opening_press h
  | peers ids =>
    obtain rfl := Option.some.inj hs
    exact iff_of_true h rfl
  | sendReturns batch result =>
    obtain ⟨_, rfl⟩ := Option.ite_some_none_eq_some.mp hs
    have hside := sendReturns_receiveSide { s with batches := s.batches.erase batch } batch result
    exact iff_of_true ((Opening.congr (closing_congr hside)).mpr h) rfl
  | cancelReturns pausing =>
    obtain ⟨_, rfl⟩ := Option.ite_some_none_eq_some.mp hs
    have hside := cancelReturns_receiveSide { s with pausings := s.pausings.erase pausing } pausing
    exact iff_of_true ((Opening.congr (closing_congr hside)).mpr h) rfl
  | sent send ok =>
    obtain ⟨_, rfl⟩ := Option.ite_some_none_eq_some.mp hs
    exact iff_of_true h rfl
  | progress transfer =>
    obtain rfl := Option.some.inj hs
    have hne : s.incoming.insert transfer ≠ [] := by
      intro hi
      have : transfer ∈ s.incoming.insert transfer := List.mem_insert_self
      simp [hi] at this
    exact iff_of_true (fun hi => absurd hi hne) rfl
  | received transfer =>
    obtain ⟨_, rfl⟩ := Option.ite_some_none_eq_some.mp hs
    exact opening_received s transfer
  | failed transfer =>
    obtain ⟨_, rfl⟩ := Option.ite_some_none_eq_some.mp hs
    exact opening_failed s transfer
  | runCall => exact iff_of_true ((Opening.congr (runCall_closing hs)).mpr h) rfl
  | callReturns => exact iff_of_true ((Opening.congr (callReturns_closing hs)).mpr h) rfl

theorem page_opening (peer : String) (paths : List String) : (page peer paths).start.Opening := by
  have hside : ((opened peer (numbered paths)).sendToPeer peer (numbered paths)).receiveSide =
      (opened peer (numbered paths)).receiveSide := by
    cases numbered paths <;> rfl
  exact (Opening.congr (closing_congr hside)).mpr fun _ => rfl

theorem Opening.released {s : HomePage} (h : s.Opening) : s.Released := by
  intro hi hc _
  simpa [closing, hc] using h hi

/-- In every run whose steps leave the gate open behind the last transfer, the gate is open whenever
nothing comes in and all calls have returned. -/
theorem gate_released (peer : String) (paths : List String) (s : HomePage)
    (h : (page peer paths).Reaches opens s) : s.Released := by
  have hopening : s.Opening := h.invariant (page_opening peer paths)
    fun s e s' hk he hs => (opening_step hk hs).mpr he
  exact hopening.released

/-- A transfer is paused, and ends well after it: the page opens the gate. -/
def pausedRun : List Event :=
  [.progress 1, .press, .runCall, .callReturns, .received 1, .runCall, .callReturns]

theorem gate_released_pausedRun : ∃ s : HomePage, s.incoming = [] ∧ s.calls = [] ∧ s.answers = [] ∧
    s.Released := by
  have hrun : (((page "peer" []).runFrom opens (page "peer" []).start pausedRun).map fun s =>
      (s.incoming, s.calls, s.answers)) = some ([], [], []) := rfl
  obtain ⟨s, hs, he⟩ := Option.map_eq_some_iff.mp hrun
  simp only [Prod.mk.injEq] at he
  obtain ⟨hi, hc, ha⟩ := he
  exact ⟨s, hi, hc, ha, gate_released "peer" [] s ⟨pausedRun, hs⟩⟩

/-- The last transfer ends while the call of a pause is on its way: the page does not hold a pause
yet, and holds one afterwards that nothing ends. -/
def lateRun : List Event := [.progress 1, .press, .received 1, .runCall, .callReturns]

theorem gate_stays_closed : ¬ ∀ peer paths s, (page peer paths).Reaches Automaton.free s →
    s.Released := by
  intro h
  have hrun : (((page "peer" []).runFrom Automaton.free (page "peer" []).start lateRun).map fun s =>
      (s.incoming, s.calls, s.answers, s.gate)) = some ([], [], [], true) := rfl
  obtain ⟨s, hs, he⟩ := Option.map_eq_some_iff.mp hrun
  simp only [Prod.mk.injEq] at he
  obtain ⟨hi, hc, ha, hg⟩ := he
  have hopen := h "peer" [] s ⟨lateRun, hs⟩ hi hc ha
  simp [hg] at hopen

/-- The calls of the page return, without another event. -/
theorem calls_return (peer : String) (paths : List String) (n : Nat) (s : HomePage)
    (hn : 2 * s.calls.length + s.answers.length = n) : ∃ es t,
      (page peer paths).runFrom Automaton.free s es = some t ∧ t.calls = [] ∧ t.answers = [] ∧
        t.closing = s.closing ∧ t.incoming = s.incoming := by
  induction n using Nat.strongRecOn generalizing s with
  | ind n ih =>
    have hgo {e : Event} {s₁ : HomePage} (hs : s.step e = some s₁)
        (hlt : 2 * s₁.calls.length + s₁.answers.length < n)
        (hsame : s₁.closing = s.closing ∧ s₁.incoming = s.incoming) : ∃ es t,
          (page peer paths).runFrom Automaton.free s es = some t ∧ t.calls = [] ∧ t.answers = [] ∧
            t.closing = s.closing ∧ t.incoming = s.incoming := by
      obtain ⟨es, t, hr, hc, ha, hcl, hi⟩ := ih _ hlt s₁ rfl
      refine ⟨e :: es, t, ?_, hc, ha, hcl.trans hsame.1, hi.trans hsame.2⟩
      have hstep : (page peer paths).step s e = some s₁ := hs
      simp [Automaton.runFrom, Automaton.free, hstep, hr]
    cases hc : s.calls with
    | cons call rest =>
      have hs : s.runCall = some { s with
          calls := rest, answers := s.answers ++ [call], gate := decide (call = .pause) } := by
        simp only [runCall, hc]
      apply hgo (e := .runCall) hs
      · simp only [hc, List.length_cons, List.length_append, List.length_nil] at hn ⊢
        omega
      · exact runCall_closing hs
    | nil =>
      cases ha : s.answers with
      | nil => exact ⟨[], s, rfl, hc, ha, rfl, rfl⟩
      | cons call rest =>
        obtain ⟨s₁, hs, hl⟩ : ∃ s₁, s.callReturns = some s₁ ∧ s₁.calls = s.calls ∧
            s₁.answers = rest := by
          cases call <;> simp [callReturns, ha]
        apply hgo (e := .callReturns) hs
        · simp only [hl, hc, ha, List.length_cons, List.length_nil] at hn ⊢
          omega
        · exact callReturns_closing hs

/-- A step that does not leave the gate open closes it for good: once the calls have returned, the
gate is closed with nothing coming in. -/
theorem gate_jams (peer : String) (paths : List String) {s s' : HomePage} {e : Event}
    (h : s.Opening) (hs : s.step e = some s') (he : s.opens e = false) : ∃ es t,
      (page peer paths).runFrom Automaton.free s' es = some t ∧ ¬t.Released := by
  have hno : ¬s'.Opening := by
    rw [opening_step h hs, he]
    exact Bool.false_ne_true
  obtain ⟨es, t, hr, hc, ha, hcl, hi⟩ := calls_return peer paths _ s' rfl
  refine ⟨es, t, hr, fun hrel => hno fun hi' => ?_⟩
  have hg := hrel (hi.trans hi') hc ha
  rw [← hcl]
  simp [closing, hc, hg]

end HomePage

end InkHole
