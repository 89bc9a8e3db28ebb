import InkHole.Automata
import InkHole.Data

/-! The reading half of an SSH channel. A task passes on the data that the channel gives, and a read
takes as much of a message as its buffer has room for. -/

namespace InkHole.SshChannel

def readBufferMessages : Nat := 64

inductive ChannelMsg where
  | data (data : Bytes)
  | eof
  | close
  | other
  deriving DecidableEq, Repr

/-- Where the task stands that passes messages on. -/
inductive Pump where
  | waiting
  | sending (message : ChannelMsg)
  | ended
  deriving DecidableEq, Repr

structure State where
  /-- What the channel still gives before it gives nothing more. -/
  incoming : List ChannelMsg
  pump : Pump
  receiver : List ChannelMsg
  buffered : Option (ChannelMsg × Nat)
  /-- The reads that were answered, each with the room it had. -/
  reads : List (Nat × Bytes)
  deriving DecidableEq, Repr

namespace State

/-- One round of the loop of a read: what is put into its buffer, and what is kept of the message.
A message that has nothing for it is passed over. -/
def slice (remaining : Nat) : ChannelMsg × Nat → Option (Bytes × Option (ChannelMsg × Nat))
  | (.data data, offset) =>
    if offset = data.length then none
    else
      let readable := min remaining (data.length - offset)
      some ((data.drop offset).take readable,
        if offset + readable ≠ data.length then some (.data data, offset + readable) else none)
  | _ => none

/-- The loop over the messages that were passed on. Where there are no more, the read is answered with
nothing if none will come, and else it waits. -/
def pollReceiver (remaining : Nat) (ended : Bool) :
    List ChannelMsg → Option Bytes × Option (ChannelMsg × Nat) × List ChannelMsg
  | [] => (if ended then some [] else none, none, [])
  | message :: receiver =>
    match slice remaining (message, 0) with
    | some (bytes, buffered) => (some bytes, buffered, receiver)
    | none => pollReceiver remaining ended receiver

def pollRead (s : State) (remaining : Nat) : Option Bytes × State :=
  if remaining = 0 then (some [], s)
  else
    match s.buffered.bind (slice remaining) with
    | some (bytes, buffered) => (some bytes, { s with buffered })
    | none =>
      let (answer, buffered, receiver) := pollReceiver remaining (s.pump = .ended) s.receiver
      (answer, { s with buffered, receiver })

def pumpChannelReader (s : State) : Option State :=
  match s.pump with
  | .ended => none
  | .sending message =>
    if s.receiver.length < readBufferMessages then
      some { s with receiver := s.receiver ++ [message], pump := .waiting }
    else none
  | .waiting =>
    match s.incoming with
    | [] => some { s with pump := .ended }
    | .data data :: incoming => some { s with incoming, pump := .sending (.data data) }
    | .eof :: incoming => some { s with incoming, pump := .ended }
    | .close :: incoming => some { s with incoming, pump := .ended }
    | .other :: incoming => some { s with incoming }

end State

inductive Event where
  | pump
  | read (remaining : Nat)
  deriving DecidableEq, Repr

/-- A read that waits leaves no trace but in the state. -/
def State.step (s : State) : Event → Option State
  | .pump => s.pumpChannelReader
  | .read remaining =>
    let (answer, s') := s.pollRead remaining
    some { s' with reads := s'.reads ++ (answer.map fun bytes => (remaining, bytes)).toList }

def channel (messages : List ChannelMsg) : Automaton State Event where
  start := ⟨messages, .waiting, [], none, []⟩
  step := State.step

/-! What is still to be read. -/

/-- The data before the end. -/
def payload : List ChannelMsg → Bytes
  | [] => []
  | .data data :: messages => data ++ payload messages
  | .eof :: _ => []
  | .close :: _ => []
  | .other :: messages => payload messages

def ChannelMsg.contents : ChannelMsg → Bytes
  | .data bytes => bytes
  | _ => []

def left : Option (ChannelMsg × Nat) → Bytes
  | some (message, offset) => message.contents.drop offset
  | none => []

namespace State

variable {s s' : State}

def unpumped (s : State) : Bytes :=
  match s.pump with
  | .waiting => payload s.incoming
  | .sending message => message.contents ++ payload s.incoming
  | .ended => []

/-- What has been passed on or will be, and has not been read. -/
def rest (s : State) : Bytes := left s.buffered ++ s.receiver.flatMap ChannelMsg.contents ++ s.unpumped

def delivered (s : State) : Bytes := s.reads.flatMap Prod.snd

/-- A message that is kept has bytes left. -/
def Kept (s : State) : Prop := ∀ message offset, s.buffered = some (message, offset) → offset < message.contents.length

/-! Rounds of the loop. -/

theorem slice_none {remaining offset : Nat} {message : ChannelMsg} (h : slice remaining (message, offset) = none) :
    left (some (message, offset)) = [] := by
  cases message with
  | data data =>
    rw [slice] at h
    split at h
    · next he =>
      change data.drop offset = []
      rw [he, List.drop_length]
    · cases h
  | _ => exact List.drop_nil

theorem slice_some {remaining offset : Nat} {message : ChannelMsg} {bytes : Bytes}
    {buffered : Option (ChannelMsg × Nat)} (hr : remaining ≠ 0) (ho : offset ≤ message.contents.length)
    (h : slice remaining (message, offset) = some (bytes, buffered)) :
    bytes ≠ [] ∧ bytes.length ≤ remaining ∧ left (some (message, offset)) = bytes ++ left buffered ∧
      ∀ m o, buffered = some (m, o) → o < m.contents.length := by
  cases message with
  | data data =>
    rw [slice] at h
    split at h
    · cases h
    · next hne =>
      obtain ⟨rfl, rfl⟩ := Prod.mk.inj (Option.some.inj h)
      change offset ≤ data.length at ho
      have hlength : (data.drop offset).length = data.length - offset := List.length_drop
      refine ⟨?_, ?_, ?_, ?_⟩
      · rw [← List.length_pos_iff, List.length_take, hlength]
        omega
      · rw [List.length_take]
        omega
      · change data.drop offset = _
        split
        · change _ = _ ++ data.drop _
          rw [← List.drop_drop, List.take_append_drop]
        · next hend =>
          rw [not_not] at hend
          rw [List.take_of_length_le (by omega)]
          exact (List.append_nil _).symm
      · intro m o hk
        split at hk
        · next hend =>
          obtain ⟨rfl, rfl⟩ := Prod.mk.inj (Option.some.inj hk)
          change _ < data.length
          omega
        · cases hk
  | _ => cases h

/-- What a read makes of the messages that were passed on. -/
theorem pollReceiver_spec {remaining : Nat} (hr : remaining ≠ 0) (ended : Bool) (receiver : List ChannelMsg) :
    (pollReceiver remaining ended receiver = (if ended then some [] else none, none, []) ∧
      receiver.flatMap ChannelMsg.contents = []) ∨
    ∃ bytes buffered after, pollReceiver remaining ended receiver = (some bytes, buffered, after) ∧
      bytes ≠ [] ∧ bytes.length ≤ remaining ∧
      receiver.flatMap ChannelMsg.contents = bytes ++ (left buffered ++ after.flatMap ChannelMsg.contents) ∧
      ∀ m o, buffered = some (m, o) → o < m.contents.length := by
  induction receiver with
  | nil => exact .inl ⟨rfl, rfl⟩
  | cons message receiver ih =>
    rw [pollReceiver, List.flatMap_cons]
    cases hs : slice remaining (message, 0) with
    | none =>
      have hempty : message.contents = [] := slice_none hs
      rw [hempty, List.nil_append]
      exact ih
    | some answer =>
      obtain ⟨bytes, buffered⟩ := answer
      obtain ⟨hne, hle, hleft, hkept⟩ := slice_some hr (Nat.zero_le _) hs
      have hcontents : message.contents = bytes ++ left buffered := hleft
      exact .inr ⟨bytes, buffered, receiver, rfl, hne, hle, by rw [hcontents, List.append_assoc], hkept⟩

/-- A read with room is answered with bytes that come next, or finds nothing: then it is answered with
nothing after the end, and waits before. -/
theorem pollRead_spec {remaining : Nat} (hr : remaining ≠ 0) (hk : s.Kept) :
    (∃ bytes s', s.pollRead remaining = (some bytes, s') ∧ bytes ≠ [] ∧ bytes.length ≤ remaining ∧
      s.rest = bytes ++ s'.rest ∧ s'.Kept ∧ s'.reads = s.reads ∧ s'.pump = s.pump) ∨
    (left s.buffered ++ s.receiver.flatMap ChannelMsg.contents = [] ∧
      s.pollRead remaining = (if s.pump = .ended then some [] else none, { s with buffered := none, receiver := [] })) := by
  have hoff : ∀ message offset, s.buffered = some (message, offset) → offset ≤ message.contents.length :=
    fun message offset h => (hk message offset h).le
  rw [pollRead, if_neg hr]
  cases hb : s.buffered.bind (slice remaining) with
  | some answer =>
    obtain ⟨bytes, buffered⟩ := answer
    obtain ⟨⟨message, offset⟩, hbuffered, hs⟩ := Option.bind_eq_some_iff.mp hb
    obtain ⟨hne, hle, hleft, hkept⟩ := slice_some hr (hoff message offset hbuffered) hs
    refine .inl ⟨bytes, { s with buffered }, rfl, hne, hle, ?_, hkept, rfl, rfl⟩
    rw [rest, hbuffered, hleft]
    simp only [rest, unpumped, List.append_assoc]
  | none =>
    have hleft : left s.buffered = [] := by
      cases hbuffered : s.buffered with
      | none => rfl
      | some kept =>
        rw [hbuffered] at hb
        exact slice_none hb
    rcases pollReceiver_spec hr (s.pump = .ended) s.receiver with ⟨hpoll, hempty⟩ |
      ⟨bytes, buffered, after, hpoll, hne, hle, hcontents, hkept⟩
    · refine .inr ⟨by rw [hleft, hempty]; rfl, ?_⟩
      simp only [hpoll, decide_eq_true_eq]
    · refine .inl ⟨bytes, { s with buffered, receiver := after }, by simp only [hpoll], hne, hle, ?_, hkept, rfl, rfl⟩
      rw [rest, hleft, hcontents]
      simp only [rest, unpumped, List.nil_append, List.append_assoc]

/-- The task passes on what it was given, in order. -/
theorem pumpChannelReader_spec (h : s.pumpChannelReader = some s') :
    s'.rest = s.rest ∧ s'.buffered = s.buffered ∧ s'.reads = s.reads := by
  unfold pumpChannelReader at h
  split at h
  · cases h
  · next message hp =>
    split at h
    · obtain rfl := Option.some.inj h
      exact ⟨by simp [rest, unpumped, hp], rfl, rfl⟩
    · cases h
  · next hp =>
    split at h
    · next hi =>
      obtain rfl := Option.some.inj h
      exact ⟨by simp [rest, unpumped, hp, hi, payload], rfl, rfl⟩
    · next hi =>
      obtain rfl := Option.some.inj h
      exact ⟨by simp [rest, unpumped, hp, hi, payload, ChannelMsg.contents], rfl, rfl⟩
    · next hi =>
      obtain rfl := Option.some.inj h
      exact ⟨by simp [rest, unpumped, hp, hi, payload], rfl, rfl⟩
    · next hi =>
      obtain rfl := Option.some.inj h
      exact ⟨by simp [rest, unpumped, hp, hi, payload], rfl, rfl⟩
    · next hi =>
      obtain rfl := Option.some.inj h
      exact ⟨by simp [rest, unpumped, hp, hi, payload], rfl, rfl⟩

end State

/-! Runs. -/

/-- What has been read and what is still to be read are the data before the end. -/
structure Delivers (messages : List ChannelMsg) (s : State) : Prop where
  whole : s.delivered ++ s.rest = payload messages
  room : ∀ r ∈ s.reads, r.2.length ≤ r.1
  ending : ∀ front n back, s.reads = front ++ (n, []) :: back → n ≠ 0 → front.flatMap Prod.snd = payload messages
  kept : s.Kept

theorem Delivers.start (messages : List ChannelMsg) : Delivers messages (channel messages).start where
  whole := by simp [channel, State.delivered, State.rest, State.unpumped, left]
  room := by simp [channel]
  ending := by simp [channel]
  kept := by simp [channel, State.Kept]

/-- A read that is answered. -/
theorem Delivers.answer {messages : List ChannelMsg} {s s' : State} {n : Nat} {bytes : Bytes} (h : Delivers messages s)
    (hrest : s.rest = bytes ++ s'.rest) (hreads : s'.reads = s.reads ++ [(n, bytes)]) (hle : bytes.length ≤ n)
    (hend : n ≠ 0 → bytes = [] → s.rest = []) (hk : s'.Kept) : Delivers messages s' where
  whole := by
    rw [← h.whole, hrest, State.delivered, hreads, List.flatMap_append, List.append_assoc]
    simp [State.delivered]
  room r hr := by
    rw [hreads] at hr
    rcases List.mem_append.mp hr with hr | hr
    · exact h.room r hr
    · rw [List.mem_singleton.mp hr]
      exact hle
  ending front m back hsplit hm := by
    rw [hreads] at hsplit
    rcases List.eq_nil_or_concat back with rfl | ⟨back', last, rfl⟩
    · obtain ⟨hfront, hlast⟩ := List.append_inj' hsplit rfl
      obtain ⟨rfl, rfl⟩ := Prod.mk.inj (List.singleton_inj.mp hlast)
      have hwhole := h.whole
      rw [hend hm rfl, List.append_nil] at hwhole
      rw [← hfront]
      exact hwhole
    · rw [List.concat_eq_append, ← List.cons_append, ← List.append_assoc] at hsplit
      obtain ⟨hfront, -⟩ := List.append_inj' hsplit rfl
      exact h.ending front m back' hfront hm
  kept := hk

theorem Delivers.step {messages : List ChannelMsg} {s s' : State} {e : Event} (h : Delivers messages s)
    (hs : s.step e = some s') : Delivers messages s' := by
  cases e with
  | pump =>
    obtain ⟨hrest, hbuffered, hreads⟩ := State.pumpChannelReader_spec hs
    refine ⟨?_, ?_, ?_, ?_⟩
    · rw [State.delivered, hreads, hrest]
      exact h.whole
    · rw [hreads]
      exact h.room
    · rw [hreads]
      exact h.ending
    · rw [State.Kept, hbuffered]
      exact h.kept
  | read remaining =>
    by_cases hr : remaining = 0
    · subst hr
      obtain rfl := Option.some.inj hs
      exact h.answer (n := 0) (show s.rest = [] ++ s.rest from rfl) rfl le_rfl (fun hne => absurd rfl hne) h.kept
    · rcases State.pollRead_spec hr h.kept with
        ⟨bytes, s₁, hpoll, hne, hle, hrest, hkept, hreads, -⟩ | ⟨hempty, hpoll⟩
      · simp only [State.step, hpoll] at hs
        obtain rfl := Option.some.inj hs
        refine h.answer hrest ?_ hle (fun _ he => absurd he hne) hkept
        simp [hreads]
      · have hkept : State.Kept { s with buffered := none, receiver := [] } := fun _ _ hk => by cases hk
        have hrest : s.rest = s.unpumped := by rw [State.rest, hempty, List.nil_append]
        simp only [State.step, hpoll] at hs
        by_cases hp : s.pump = .ended
        · rw [if_pos hp] at hs
          obtain rfl := Option.some.inj hs
          have hnothing : s.unpumped = [] := by rw [State.unpumped, hp]
          exact h.answer (show s.rest = [] ++ s.unpumped from hrest) rfl (Nat.zero_le _)
            (fun _ _ => hrest.trans hnothing) hkept
        · rw [if_neg hp] at hs
          obtain rfl := Option.some.inj hs
          refine ⟨?_, ?_, ?_, hkept⟩
          · rw [← h.whole, hrest]
            simp [State.delivered, State.rest, left, State.unpumped]
          · simpa using h.room
          · simpa using h.ending

theorem delivers_reached {messages : List ChannelMsg} {s : State}
    (h : (channel messages).Reaches Automaton.free s) : Delivers messages s :=
  h.invariant (Delivers.start messages) fun _ _ _ h _ hs => h.step hs

/-- Once the task has come to the end, a read with room is answered: with a byte at least while there
is one, and then with nothing. -/
theorem Delivers.read_ended {messages : List ChannelMsg} {s : State} (h : Delivers messages s) (hp : s.pump = .ended)
    {n : Nat} (hn : n ≠ 0) : ∃ bytes s', s.pollRead n = (some bytes, s') ∧ (bytes = [] ↔ s.rest = []) ∧
      s.rest = bytes ++ s'.rest ∧ s'.pump = .ended := by
  rcases State.pollRead_spec hn h.kept with ⟨bytes, s', hpoll, hne, -, hrest, -, -, hpump⟩ | ⟨hempty, hpoll⟩
  · refine ⟨bytes, s', hpoll, iff_of_false hne fun he => ?_, hrest, hpump.trans hp⟩
    rw [hrest, List.append_eq_nil_iff] at he
    exact hne he.1
  · have hrest : s.rest = [] := by rw [State.rest, hempty, State.unpumped, hp, List.nil_append]
    refine ⟨[], { s with buffered := none, receiver := [] }, by rw [hpoll, if_pos hp], iff_of_true rfl hrest, ?_, hp⟩
    rw [hrest]
    simp [State.rest, State.unpumped, left, hp]

/-- As many reads as there are bytes left take them all. -/
theorem Delivers.drain {messages : List ChannelMsg} {s : State} {sizes : List Nat} (h : Delivers messages s)
    (hp : s.pump = .ended) (hn : ∀ n ∈ sizes, n ≠ 0) (hl : s.rest.length ≤ sizes.length) :
    ∃ s', (channel messages).runFrom Automaton.free s (sizes.map Event.read) = some s' ∧
      s'.delivered = payload messages := by
  induction sizes generalizing s with
  | nil =>
    have hrest : s.rest = [] := List.length_eq_zero_iff.mp (Nat.le_zero.mp hl)
    refine ⟨s, rfl, ?_⟩
    rw [← h.whole, hrest, List.append_nil]
  | cons n sizes ih =>
    obtain ⟨hfirst, hsizes⟩ := List.forall_mem_cons.mp hn
    obtain ⟨bytes, s₁, hpoll, hnil, hrest, hpump⟩ := h.read_ended hp hfirst
    have hs : (channel messages).step s (.read n) = some { s₁ with reads := s₁.reads ++ [(n, bytes)] } := by
      simp [channel, State.step, hpoll]
    have hless : s₁.rest.length ≤ sizes.length := by
      have hlength := congrArg List.length hrest
      rw [List.length_append] at hlength
      rw [List.length_cons] at hl
      by_cases hb : bytes = []
      · rw [hnil.mp hb] at hlength
        rw [List.length_nil] at hlength
        omega
      · have hpos := List.length_pos_iff.mpr hb
        omega
    obtain ⟨s', hrun, hs'⟩ := ih (h.step (e := .read n) hs) hpump hsizes hless
    exact ⟨s', (Automaton.runFrom_cons rfl hs).trans hrun, hs'⟩

/-- In every run, what was read and what is still to come are the data before the end, no read is given
more than it has room for, and one that is answered with nothing has all of them before it. A read
waits only where the task has passed on nothing that was not read; once the task has come to the
end, reads with room take all that is left. -/
theorem reader_delivers (messages : List ChannelMsg) {s : State}
    (h : (channel messages).Reaches Automaton.free s) :
    s.delivered ++ s.rest = payload messages ∧ (∀ r ∈ s.reads, r.2.length ≤ r.1) ∧
    (∀ front n back, s.reads = front ++ (n, []) :: back → n ≠ 0 → front.flatMap Prod.snd = payload messages) ∧
    (∀ n, (s.pollRead n).1 = none →
      s.pump ≠ .ended ∧ left s.buffered ++ s.receiver.flatMap ChannelMsg.contents = []) ∧
    ∀ sizes : List Nat, s.pump = .ended → (∀ n ∈ sizes, n ≠ 0) → s.rest.length ≤ sizes.length →
      ∃ s', (channel messages).runFrom Automaton.free s (sizes.map Event.read) = some s' ∧
        s'.delivered = payload messages := by
  have hd := delivers_reached h
  refine ⟨hd.whole, hd.room, hd.ending, fun n hpoll => ?_, fun sizes hp hn hl => hd.drain hp hn hl⟩
  by_cases hn : n = 0
  · rw [State.pollRead, if_pos hn] at hpoll
    cases hpoll
  · rcases State.pollRead_spec hn hd.kept with ⟨bytes, s', hspec, -⟩ | ⟨hempty, hspec⟩
    · rw [hspec] at hpoll
      cases hpoll
    · refine ⟨fun hp => ?_, hempty⟩
      rw [hspec, if_pos hp] at hpoll
      cases hpoll

/-- A message in three reads, an empty one and one of another kind behind it. -/
theorem reader_delivers_split : ∃ s : State, s.reads = [(2, [1, 2]), (2, [3, 4]), (2, [5]), (2, [6]), (2, [])] ∧
    s.delivered ++ s.rest = payload [.data [1, 2, 3, 4, 5], .data [], .other, .data [6], .eof, .data [7]] := by
  let messages : List ChannelMsg := [.data [1, 2, 3, 4, 5], .data [], .other, .data [6], .eof, .data [7]]
  let run : List Event := List.replicate 8 .pump ++ List.replicate 5 (.read 2)
  have hrun : ((channel messages).runFrom Automaton.free (channel messages).start run).map State.reads =
      some [(2, [1, 2]), (2, [3, 4]), (2, [5]), (2, [6]), (2, [])] := by decide +kernel
  obtain ⟨s, hs, hreads⟩ := Option.map_eq_some_iff.mp hrun
  exact ⟨s, hreads, (reader_delivers messages ⟨run, hs⟩).1⟩

end InkHole.SshChannel
