import InkHole.Transit

/-! The two sides of a transit together: which connections join them, what is written on each of these
in the handshake, and when both sides take the same one. -/

namespace InkHole

namespace Transit

/-- The messages of a handshake, in their order. -/
inductive Message where
  | senderHeader
  | receiverHeader
  | go
  deriving DecidableEq, Repr

/-- Both sides, and the connections between them. A relay that pairs two sockets makes one connection
of them. Nobody else can write a header, which needs the key. -/
structure Exchange where
  acceptor : Acceptor
  connector : Connector
  /-- The connections of the sender so far. -/
  connections : List Nat
  /-- A connection of the sender with the attempt of the receiver that is its other end. -/
  ends : List (Nat × Nat)
  written : List (Nat × Message)

inductive ExchangeEvent where
  | reaches (candidate : Candidate) (stream attempt : Nat)
  | pairs (attempt : Nat)
  | senderHeader (candidate : Candidate) (stream : Nat)
  | receiverHeader (stream attempt : Nat)
  | go (stream : Nat) (event : Candidate × SourceEvent)
  | ready (stream attempt : Nat)
  /-- Anything else that happens to one side alone. -/
  | acceptor (event : Candidate × SourceEvent)
  | connector (event : ConnectEvent)

/-- The handshake of the source on this connection still runs. -/
def Source.shakes : Source → Nat → Bool
  | .listening handshakes, stream => handshakes.running.contains stream
  | .paired own, stream => own == stream
  | _, _ => false

/-- The event is the end of the handshake on this connection. -/
def Source.authenticates : Source → Nat → SourceEvent → Bool
  | .listening _, stream, .handshake other (.connected ()) => other == stream
  | .paired own, stream, .relayAuthenticated => own == stream
  | _, _, _ => false

namespace Exchange

def unjoined (s : Exchange) (stream attempt : Nat) : Bool :=
  s.ends.all fun joint => joint.1 != stream && joint.2 != attempt

def attempting (s : Exchange) (attempt : Nat) : Bool :=
  s.connector.result.isNone && s.connector.attempts.running.contains attempt

/-- Without the other side no handshake ends well. -/
def alone (s : Exchange) : SourceEvent → Bool
  | .accepted stream => !s.connections.contains stream
  | .handshake _ (.connected ()) => false
  | .relayAuthenticated => false
  | _ => true

def connections' (s : Exchange) : SourceEvent → List Nat
  | .accepted stream => s.connections ++ [stream]
  | _ => s.connections

def aloneConnect : ConnectEvent → Bool
  | .complete _ (.connected ()) => false
  | _ => true

def step (s : Exchange) : ExchangeEvent → Option Exchange
  | .reaches candidate stream attempt =>
    if s.attempting attempt && !s.connections.contains stream && s.unjoined stream attempt then
      (s.acceptor.step (candidate, .accepted stream)).map fun next =>
        { s with acceptor := next, connections := s.connections ++ [stream], ends := s.ends ++ [(stream, attempt)] }
    else none
  | .pairs attempt =>
    match s.acceptor.relay with
    | .reserved stream =>
      if s.attempting attempt && s.unjoined stream attempt then
        (s.acceptor.step (.relay, .acknowledged)).map fun next =>
          { s with acceptor := next, ends := s.ends ++ [(stream, attempt)] }
      else none
    | _ => none
  | .senderHeader candidate stream =>
    if s.acceptor.result.isNone && (s.acceptor.source candidate).shakes stream then
      some { s with written := s.written ++ [(stream, .senderHeader)] }
    else none
  | .receiverHeader stream attempt =>
    if s.attempting attempt && s.ends.contains (stream, attempt) && s.written.contains (stream, .senderHeader) then
      some { s with written := s.written ++ [(stream, .receiverHeader)] }
    else none
  | .go stream event =>
    if s.written.contains (stream, .receiverHeader) && (s.acceptor.source event.1).authenticates stream event.2 then
      (s.acceptor.step event).map fun next =>
        { s with acceptor := next, written := s.written ++ [(stream, .go)] }
    else none
  | .ready stream attempt =>
    if s.ends.contains (stream, attempt) && s.written.contains (stream, .go) then
      (s.connector.step (.complete attempt (.connected ()))).map fun next => { s with connector := next }
    else none
  | .acceptor event =>
    if s.alone event.2 then
      (s.acceptor.step event).map fun next =>
        { s with acceptor := next, connections := s.connections' event.2 }
    else none
  | .connector event =>
    if aloneConnect event then (s.connector.step event).map fun next => { s with connector := next } else none

/-- No second connection is told to go. -/
def soleGo (s : Exchange) : ExchangeEvent → Bool
  | .go stream _ => s.written.all fun message => message.2 != .go || message.1 == stream
  | _ => true

def Told (s : Exchange) (stream : Nat) : Prop := (stream, Message.go) ∈ s.written

/-- At most one connection is told to go, and it is the one that both sides take. -/
structure Agrees (s : Exchange) : Prop where
  oneTold : ∀ stream other, s.Told stream → s.Told other → stream = other
  taken : ∀ stream, s.acceptor.result = some (.ok stream) → s.Told stream
  same : ∀ stream attempt, s.acceptor.result = some (.ok stream) → s.connector.result = some (.ok attempt) →
    (stream, attempt) ∈ s.ends
  /-- A connection has one other end. -/
  twoEnds : (s.ends.map Prod.fst).Nodup ∧ (s.ends.map Prod.snd).Nodup

end Exchange

/-- The runs of both sides that nobody cancels. -/
def exchange (hasV6 : Bool) (relay : Option Nat) (offer : TransitOffer) : Automaton Exchange ExchangeEvent where
  start :=
    { acceptor := Acceptor.waiting hasV6 relay
      connector := Connector.dialling offer
      connections := relay.toList
      ends := []
      written := [] }
  step := Exchange.step

/-- Whatever the source gives was told to go. -/
def Source.Kept (told : Nat → Prop) : Source → Prop
  | .listening handshakes => ∀ entry ∈ handshakes.finished, entry.2.error = none → told entry.1
  | .ended (.ok stream) => told stream
  | _ => True

theorem Source.Kept.mono {told more : Nat → Prop} {source : Source} (h : source.Kept told)
    (hmore : ∀ stream, told stream → more stream) : source.Kept more := by
  cases source with
  | listening handshakes => exact fun entry he hok => hmore _ (h entry he hok)
  | ended result =>
    cases result with
    | ok stream => exact hmore stream h
    | error e => trivial
  | _ => trivial

theorem Source.authenticates_unique {source : Source} {stream other : Nat} {event : SourceEvent}
    (h : source.authenticates stream event = true) (ho : source.authenticates other event = true) :
    stream = other := by
  unfold Source.authenticates at h ho
  split at h
  · rw [beq_iff_eq] at h
    simpa [← h] using ho
  · rw [beq_iff_eq] at h
    simpa [← h] using ho
  · cases h

theorem Source.join_kept {told : Nat → Prop} {handshakes : JoinSet} {next : Source}
    (h : Source.Kept told (.listening handshakes)) (hj : Source.join handshakes = some next) :
    next.Kept told := by
  rw [Source.join] at hj
  split at hj
  · cases hj
  · next hfinished =>
    obtain rfl := Option.some.inj hj
    exact h _ (by rw [hfinished]; exact List.mem_cons_self) rfl
  · next hfinished =>
    obtain rfl := Option.some.inj hj
    exact fun entry he => h entry (by rw [hfinished]; exact List.mem_cons_of_mem _ he)
  · next hfinished =>
    obtain rfl := Option.some.inj hj
    exact fun entry he => h entry (by rw [hfinished]; exact List.mem_cons_of_mem _ he)

theorem Source.step_kept {told : Nat → Prop} {source next : Source} {event : SourceEvent}
    (h : source.Kept told) (hs : source.step event = some next)
    (htold : ∀ stream, source.authenticates stream event = true → told stream) : next.Kept told := by
  cases source with
  | absent => cases event <;> cases hs
  | ended result => cases event <;> cases hs
  | listening handshakes =>
    cases event with
    | accepted stream =>
      obtain rfl := Option.some.inj hs
      exact h
    | acceptFailed error =>
      obtain rfl := Option.some.inj hs
      trivial
    | handshake stream finish =>
      rw [Source.step] at hs
      split at hs
      · obtain rfl := Option.some.inj hs
        intro entry he hok
        rcases List.mem_append.mp he with hold | hnew
        · exact h entry hold hok
        · obtain rfl := List.mem_singleton.mp hnew
          cases finish with
          | connected _ => exact htold stream (beq_iff_eq.mpr rfl)
          | refused error => cases hok
          | panicked error => cases hok
      · cases hs
    | join => exact Source.join_kept h hs
    | acknowledged => cases hs
    | relayFailed error => cases hs
    | relayAuthenticated => cases hs
  | reserved stream =>
    cases event with
    | acknowledged =>
      obtain rfl := Option.some.inj hs
      trivial
    | relayFailed error =>
      obtain rfl := Option.some.inj hs
      trivial
    | _ => cases hs
  | paired stream =>
    cases event with
    | relayAuthenticated =>
      obtain rfl := Option.some.inj hs
      exact htold stream (beq_iff_eq.mpr rfl)
    | relayFailed error =>
      obtain rfl := Option.some.inj hs
      trivial
    | _ => cases hs

structure Acceptor.Kept (told : Nat → Prop) (s : Acceptor) : Prop where
  sources : ∀ candidate, (s.source candidate).Kept told
  taken : ∀ stream, s.result = some (.ok stream) → told stream

theorem Acceptor.Kept.mono {told more : Nat → Prop} {s : Acceptor} (h : s.Kept told)
    (hmore : ∀ stream, told stream → more stream) : s.Kept more :=
  ⟨fun candidate => (h.sources candidate).mono hmore, fun stream hs => hmore stream (h.taken stream hs)⟩

theorem Acceptor.Kept.step {told : Nat → Prop} {s s' : Acceptor} {event : Candidate × SourceEvent}
    (h : s.Kept told) (hs : s.step event = some s')
    (htold : ∀ stream, (s.source event.1).authenticates stream event.2 = true → told stream) :
    s'.Kept told := by
  obtain ⟨next, hnext, rfl⟩ := Acceptor.step_eq hs
  have hkept := Source.step_kept (h.sources event.1) hnext htold
  constructor
  · intro candidate
    change ((s.put event.1 next).source candidate).Kept told
    rw [Acceptor.source_put]
    split
    · exact hkept
    · exact h.sources candidate
  · intro stream hresult
    have hended : next = .ended (.ok stream) := by
      cases next with
      | ended result => exact congrArg Source.ended (Option.some.inj hresult)
      | _ => cases hresult
    rw [hended] at hkept
    exact hkept

structure Connector.Kept (ready : Nat → Prop) (s : Connector) : Prop where
  finished : ∀ entry ∈ s.attempts.finished, entry.2.error = none → ready entry.1
  taken : ∀ attempt, s.result = some (.ok attempt) → ready attempt

theorem Connector.Kept.mono {ready more : Nat → Prop} {s : Connector} (h : s.Kept ready)
    (hmore : ∀ attempt, ready attempt → more attempt) : s.Kept more :=
  ⟨fun entry he hok => hmore _ (h.finished entry he hok), fun attempt hs => hmore _ (h.taken attempt hs)⟩

theorem Connector.Kept.rest {ready : Nat → Prop} {s : Connector} {first : Nat × Finish Unit}
    {rest : List (Nat × Finish Unit)} (h : s.Kept ready) (hs : s.attempts.finished = first :: rest) :
    ∀ entry ∈ rest, entry.2.error = none → ready entry.1 :=
  fun entry he => h.finished entry (by rw [hs]; exact List.mem_cons_of_mem _ he)

theorem Connector.Kept.join {ready : Nat → Prop} {s s' : Connector} (h : s.Kept ready)
    (hs : s.join = some s') : s'.Kept ready := by
  rw [Connector.join] at hs
  split at hs
  · split at hs
    · obtain rfl := Option.some.inj hs
      exact ⟨h.finished, fun attempt hno => by cases hno⟩
    · cases hs
  · next hfinished =>
    obtain rfl := Option.some.inj hs
    refine ⟨h.rest hfinished, fun attempt hok => ?_⟩
    obtain rfl := Except.ok.inj (Option.some.inj hok)
    exact h.finished _ (by rw [hfinished]; exact List.mem_cons_self) rfl
  · next hfinished =>
    obtain rfl := Option.some.inj hs
    exact ⟨h.rest hfinished, h.taken⟩
  · next hfinished =>
    obtain rfl := Option.some.inj hs
    exact ⟨h.rest hfinished, h.taken⟩

theorem Connector.Kept.step {ready : Nat → Prop} {s s' : Connector} {event : ConnectEvent} (h : s.Kept ready)
    (hs : s.step event = some s')
    (hready : ∀ attempt, event = .complete attempt (.connected ()) → ready attempt) : s'.Kept ready := by
  cases event with
  | complete attempt finish =>
    rw [Connector.step] at hs
    split at hs
    · obtain rfl := Option.some.inj hs
      refine ⟨fun entry he hok => ?_, h.taken⟩
      rcases List.mem_append.mp he with hold | hnew
      · exact h.finished entry hold hok
      · obtain rfl := List.mem_singleton.mp hnew
        cases finish with
        | connected _ => exact hready attempt rfl
        | refused error => cases hok
        | panicked error => cases hok
    · cases hs
  | join =>
    rw [Connector.step] at hs
    split at hs
    · exact h.join hs
    · cases hs

namespace Exchange

/-- The attempt was told to go by its other end. -/
def Ready (s : Exchange) (attempt : Nat) : Prop := ∃ stream, (stream, attempt) ∈ s.ends ∧ s.Told stream

structure Held (s : Exchange) : Prop where
  acceptor : s.acceptor.Kept s.Told
  connector : s.connector.Kept s.Ready
  oneTold : ∀ stream other, s.Told stream → s.Told other → stream = other
  twoEnds : (s.ends.map Prod.fst).Nodup ∧ (s.ends.map Prod.snd).Nodup

theorem Held.agrees {s : Exchange} (h : Held s) : Agrees s := by
  refine ⟨h.oneTold, h.acceptor.taken, fun stream attempt hs ha => ?_, h.twoEnds⟩
  obtain ⟨other, hends, htold⟩ := h.connector.taken attempt ha
  rwa [h.oneTold stream other (h.acceptor.taken stream hs) htold]

theorem nodup_joined {ends : List (Nat × Nat)} {stream attempt : Nat}
    (h : (ends.map Prod.fst).Nodup ∧ (ends.map Prod.snd).Nodup)
    (hfree : (ends.all fun joint => joint.1 != stream && joint.2 != attempt) = true) :
    ((ends ++ [(stream, attempt)]).map Prod.fst).Nodup ∧ ((ends ++ [(stream, attempt)]).map Prod.snd).Nodup := by
  have hno : ∀ joint ∈ ends, joint.1 ≠ stream ∧ joint.2 ≠ attempt := by simpa using hfree
  rw [List.map_append, List.map_append]
  constructor
  · refine List.nodup_append_comm.mpr (List.nodup_cons.mpr ⟨fun hin => ?_, h.1⟩)
    obtain ⟨joint, hj, hsame⟩ := List.mem_map.mp hin
    exact (hno joint hj).1 hsame
  · refine List.nodup_append_comm.mpr (List.nodup_cons.mpr ⟨fun hin => ?_, h.2⟩)
    obtain ⟨joint, hj, hsame⟩ := List.mem_map.mp hin
    exact (hno joint hj).2 hsame

/-- More is joined and written, but no connection is told to go. -/
theorem Held.untold {s s' : Exchange} (h : Held s) (hacceptor : s'.acceptor.Kept s.Told)
    (hconnector : s'.connector.Kept s.Ready) (hwritten : ∀ stream, s'.Told stream ↔ s.Told stream)
    (hends : ∀ joint ∈ s.ends, joint ∈ s'.ends)
    (htwo : (s'.ends.map Prod.fst).Nodup ∧ (s'.ends.map Prod.snd).Nodup) : Held s' := by
  refine ⟨hacceptor.mono fun stream => (hwritten stream).mpr, hconnector.mono ?_, ?_, htwo⟩
  · rintro attempt ⟨stream, hin, htold⟩
    exact ⟨stream, hends _ hin, (hwritten stream).mpr htold⟩
  · intro stream other hs ho
    exact h.oneTold stream other ((hwritten stream).mp hs) ((hwritten other).mp ho)

/-- A step of the sender that ends no handshake well. -/
theorem not_authenticates {source : Source} {event : SourceEvent} {stream : Nat}
    (h : source.authenticates stream event = true) :
    (∃ other, event = .handshake other (.connected ())) ∨ event = .relayAuthenticated := by
  unfold Source.authenticates at h
  split at h
  · exact .inl ⟨_, rfl⟩
  · exact .inr rfl
  · cases h

theorem Held.reaches {s s' : Exchange} {candidate : Candidate} {stream attempt : Nat} (h : Held s)
    (he : s.step (.reaches candidate stream attempt) = some s') : Held s' := by
  rw [Exchange.step] at he
  split at he
  · next hguard =>
    obtain ⟨next, hnext, rfl⟩ := Option.map_eq_some_iff.mp he
    rw [Bool.and_eq_true, Bool.and_eq_true] at hguard
    refine h.untold (h.acceptor.step hnext fun other hauth => ?_) h.connector (fun _ => Iff.rfl)
      (fun joint hj => List.mem_append_left _ hj) (nodup_joined h.twoEnds hguard.2)
    rcases not_authenticates hauth with ⟨_, hno⟩ | hno <;> cases hno
  · cases he

theorem Held.pairs {s s' : Exchange} {attempt : Nat} (h : Held s)
    (he : s.step (.pairs attempt) = some s') : Held s' := by
  rw [Exchange.step] at he
  split at he
  · split at he
    · next hguard =>
      obtain ⟨next, hnext, rfl⟩ := Option.map_eq_some_iff.mp he
      rw [Bool.and_eq_true] at hguard
      refine h.untold (h.acceptor.step hnext fun other hauth => ?_) h.connector (fun _ => Iff.rfl)
        (fun joint hj => List.mem_append_left _ hj) (nodup_joined h.twoEnds hguard.2)
      rcases not_authenticates hauth with ⟨_, hno⟩ | hno <;> cases hno
    · cases he
  · cases he

/-- A header is written. -/
theorem Held.header {s : Exchange} {stream : Nat} {message : Message} (h : Held s) (hm : message ≠ .go) :
    Held { s with written := s.written ++ [(stream, message)] } := by
  refine h.untold h.acceptor h.connector (fun other => ?_) (fun _ hj => hj) h.twoEnds
  constructor
  · intro hin
    rcases List.mem_append.mp hin with hold | hnew
    · exact hold
    · rw [List.mem_singleton, Prod.mk.injEq] at hnew
      exact absurd hnew.2.symm hm
  · exact fun hin => List.mem_append_left _ hin

theorem Held.go {s s' : Exchange} {stream : Nat} {event : Candidate × SourceEvent} (h : Held s)
    (hsole : s.soleGo (.go stream event) = true) (he : s.step (.go stream event) = some s') : Held s' := by
  rw [Exchange.step] at he
  split at he
  · next hguard =>
    obtain ⟨next, hnext, rfl⟩ := Option.map_eq_some_iff.mp he
    rw [Bool.and_eq_true] at hguard
    have hmore : ∀ other, s.Told other → (other, Message.go) ∈ s.written ++ [(stream, .go)] :=
      fun other htold => List.mem_append_left _ htold
    have hnew : (stream, Message.go) ∈ s.written ++ [(stream, .go)] :=
      List.mem_append_right _ (List.mem_singleton_self _)
    have hold : ∀ other, (other, Message.go) ∈ s.written ++ [(stream, .go)] → other = stream := by
      intro other hin
      rcases List.mem_append.mp hin with hin | hin
      · have hall := List.all_eq_true.mp hsole _ hin
        simpa using hall
      · exact congrArg Prod.fst (List.mem_singleton.mp hin)
    refine ⟨(h.acceptor.mono hmore).step hnext ?_, h.connector.mono ?_, ?_, h.twoEnds⟩
    · intro other hauth
      obtain rfl := Source.authenticates_unique hguard.2 hauth
      exact hnew
    · rintro attempt ⟨other, hin, htold⟩
      exact ⟨other, hin, hmore other htold⟩
    · intro one other hone hother
      rw [hold one hone, hold other hother]
  · cases he

theorem Held.ready {s s' : Exchange} {stream attempt : Nat} (h : Held s)
    (he : s.step (.ready stream attempt) = some s') : Held s' := by
  rw [Exchange.step] at he
  split at he
  · next hguard =>
    obtain ⟨next, hnext, rfl⟩ := Option.map_eq_some_iff.mp he
    rw [Bool.and_eq_true, List.contains_iff_mem, List.contains_iff_mem] at hguard
    refine h.untold h.acceptor (h.connector.step hnext ?_) (fun _ => Iff.rfl) (fun _ hj => hj) h.twoEnds
    intro other hcomplete
    obtain rfl : attempt = other := by injection hcomplete
    exact ⟨stream, hguard.1, hguard.2⟩
  · cases he

theorem Held.step {s s' : Exchange} {event : ExchangeEvent} (h : Held s) (hsole : s.soleGo event = true)
    (he : s.step event = some s') : Held s' := by
  cases event with
  | reaches candidate stream attempt => exact h.reaches he
  | pairs attempt => exact h.pairs he
  | senderHeader candidate stream =>
    rw [Exchange.step] at he
    split at he
    · obtain rfl := Option.some.inj he
      exact h.header (by decide)
    · cases he
  | receiverHeader stream attempt =>
    rw [Exchange.step] at he
    split at he
    · obtain rfl := Option.some.inj he
      exact h.header (by decide)
    · cases he
  | go stream event => exact h.go hsole he
  | ready stream attempt => exact h.ready he
  | acceptor event =>
    rw [Exchange.step] at he
    split at he
    · next halone =>
      obtain ⟨next, hnext, rfl⟩ := Option.map_eq_some_iff.mp he
      refine h.untold (h.acceptor.step hnext fun other hauth => ?_) h.connector (fun _ => Iff.rfl)
        (fun _ hj => hj) h.twoEnds
      rcases not_authenticates hauth with ⟨_, hno⟩ | hno
      · rw [hno] at halone
        cases halone
      · rw [hno] at halone
        cases halone
    · cases he
  | connector event =>
    rw [Exchange.step] at he
    split at he
    · next halone =>
      obtain ⟨next, hnext, rfl⟩ := Option.map_eq_some_iff.mp he
      refine h.untold h.acceptor (h.connector.step hnext ?_) (fun _ => Iff.rfl) (fun _ hj => hj) h.twoEnds
      rintro attempt rfl
      cases halone
    · cases he

end Exchange

theorem held_start (hasV6 : Bool) (relay : Option Nat) (offer : TransitOffer) :
    Exchange.Held (exchange hasV6 relay offer).start := by
  refine ⟨⟨fun candidate => ?_, fun stream hno => by cases hno⟩, ⟨?_, ?_⟩, ?_, List.nodup_nil, List.nodup_nil⟩
  · cases candidate with
    | direct => exact fun entry he => by cases he
    | directV6 =>
      cases hasV6 with
      | false => trivial
      | true => exact fun entry he => by cases he
    | relay =>
      cases relay with
      | none => trivial
      | some stream => trivial
  · intro entry he
    have hempty : (Connector.dialling offer).attempts.finished = [] := by
      rw [Connector.dialling]
      split <;> rfl
    rw [show (exchange hasV6 relay offer).start.connector.attempts.finished = [] from hempty] at he
    cases he
  · intro attempt hok
    change (Connector.dialling offer).result = _ at hok
    rw [Connector.dialling] at hok
    split at hok <;> cases hok
  · intro stream other hno
    cases hno

theorem exchange_start (hasV6 : Bool) (relay : Option Nat) :
    (exchange hasV6 relay localOffer).start =
      ⟨Acceptor.waiting hasV6 relay, ⟨⟨[0, 1], []⟩, [], [], none⟩, relay.toList, [], []⟩ := by
  rw [← dialling_localOffer]
  rfl

end Transit

end InkHole
