import InkHole.Phases
import InkHole.WormholeOffers

/-! The sessions of a short code. The sender offers and waits for an answer; the receiver shows the offer
to its user, and answers with what the user decides. -/

set_option linter.unusedSectionVars false

namespace InkHole

open Stateful Json Transit

inductive ReceiverDecision where
  | accept
  | reject
  deriving DecidableEq, Repr

/-- What a device does beside talking to the other one. -/
inductive SessionEvent where
  /-- The user is shown an offer. -/
  | offered (summary : TransferSummary)
  | decided (decision : ReceiverDecision)
  /-- A server for one transfer has been bound. -/
  | bound (fingerprint secret : String)
  | answered (answer : ReceiverAnswer)
  | ready
  deriving DecidableEq, Repr

/-- A device in its session: the wormhole, the values it was given to send, and what else was done. -/
structure Session [Floats] where
  wormhole : Wormhole
  values : List Value
  events : List SessionEvent

abbrev SessionM [Floats] := Stateful Session CoreError

/-- A step may be given up: before it has been done, or when only its end was still awaited. -/
structure Interruption where
  done : Bool
  error : CoreError

section Steps

variable [Floats] [SecretBox] [KeyDerivation] [Hashing] [PasswordExchange] [WormholeJson Value] {α : Type}

def transitPurpose : Bytes := utf8 wormholeAppId ++ utf8 "/transit-key"

def Wormhole.transitKey (w : Wormhole) : Bytes := deriveKey w.sharedKey transitPurpose

def interruptible (interruption : Option Interruption) (x : SessionM α) : SessionM α :=
  match interruption with
  | none => x
  | some ⟨false, error⟩ => throw error
  | some ⟨true, error⟩ => do
    let _ ← x
    throw error

def note (event : SessionEvent) : SessionM Unit := modify fun s => { s with events := s.events ++ [event] }

def establish (party : Party Value) : SessionM Unit := do
  modify fun s => { s with wormhole := party.establish.2 }
  liftM party.establish.1

def sendMessage (value : Value) : SessionM Unit := do
  let s ← get
  set { s with wormhole := (s.wormhole.send value).2, values := s.values ++ [value] }
  liftM (s.wormhole.send value).1

def readAs (read : Value → Option α) (received : Value × Sealed) : Except CoreError α :=
  match read received.1 with
  | some a => .ok a
  | none => .error .json

def receiveMessage (read : Value → Option α) : SessionM α := do
  let s ← get
  set { s with wormhole := (s.wormhole.receive (T := Value)).2 }
  liftM ((s.wormhole.receive (T := Value)).1 >>= readAs read)

/-- The session has not begun. -/
def Party.unestablished (party : Party Value) : Session :=
  ⟨⟨party.client, [], 0, 0, party.nonces, []⟩, [], []⟩

structure SenderSession where
  party : Party Value
  summary : TransferSummary
  valid : summary.validate = .ok ()
  fits : summary.Fits

structure SenderConnection where
  certificateFingerprint : String
  sharedSecret : String
  transitKey : Bytes
  deriving DecidableEq, Repr

/-- What `connect` meets outside of the rendezvous server: the offer that the transit is prepared with, and
what comes of waiting for the other side and starting the tunnel. -/
structure SenderWorld where
  transit : Except CoreError TransitOffer
  fits : ∀ offer, transit = .ok offer → ∀ hint ∈ offer.hints, hint.Fits
  connected : Except CoreError Unit
  establishing : Option Interruption
  offering : Option Interruption
  answering : Option Interruption

def checkAnswer (answer : ReceiverAnswer) : Except CoreError Unit := do
  ensure answer.accepted
    (.protocol (if answer.error.isEmpty then "receiver rejected the transfer" else answer.error))
  ensure (validSecret answer.quicSecret && validFingerprint answer.quicFingerprint)
    (.protocol "receiver returned invalid temporary QUIC credentials")

def SenderSession.connect (sender : SenderSession) (world : SenderWorld) : SessionM SenderConnection := do
  interruptible world.establishing (establish sender.party)
  let s ← get
  let transit ← liftM world.transit
  interruptible world.offering (sendMessage (SenderOffer.toJson ⟨sender.summary, transit⟩))
  let answer ← interruptible world.answering (receiveMessage ReceiverAnswer.ofJson)
  note (.answered answer)
  liftM (checkAnswer answer)
  liftM world.connected
  return ⟨answer.quicFingerprint, answer.quicSecret, s.wormhole.transitKey⟩

/-- A server that was bound: whether it listens to the device itself, and its certificate. -/
structure BoundServer where
  loopback : Bool
  certificateFingerprint : String

/-- What the task of a receiver meets outside of the rendezvous server. The user decides when the summary
of the offer is known. -/
structure ReceiverWorld where
  joining : Option Interruption
  reading : Option Interruption
  decision : TransferSummary → Except CoreError ReceiverDecision
  temporarySecret : String
  server : Except CoreError BoundServer
  answering : Option Interruption
  connected : Except CoreError Unit

namespace ReceivedOffer

def join (party : Party Value) (world : ReceiverWorld) : SessionM SenderOffer := do
  interruptible world.joining (establish party)
  let offer ← interruptible world.reading (receiveMessage SenderOffer.ofJson)
  liftM offer.summary.validate
  return offer

def accept (world : ReceiverWorld) (server : BoundServer) (secret : String) : SessionM Unit := do
  liftM (ensure (server.loopback && validFingerprint server.certificateFingerprint && validSecret secret)
    (.invalidRequest "temporary QUIC endpoint is invalid"))
  interruptible world.answering
    (sendMessage (ReceiverAnswer.toJson ⟨true, "", server.certificateFingerprint, secret⟩))
  liftM world.connected

def reject (world : ReceiverWorld) (reason : String) : SessionM Unit :=
  interruptible world.answering
    (sendMessage (ReceiverAnswer.toJson ⟨false, String.ofList ((trim reason).toList.take 255), "", ""⟩))

end ReceivedOffer

def rejectionReason : String := "transfer rejected"

def runWormholeReceiver (party : Party Value) (world : ReceiverWorld) : SessionM Unit := do
  let offer ← ReceivedOffer.join party world
  note (.offered offer.summary)
  let selected ← liftM (world.decision offer.summary)
  note (.decided selected)
  match selected with
  | .reject => ReceivedOffer.reject world rejectionReason
  | .accept =>
    let server ← liftM world.server
    note (.bound server.certificateFingerprint world.temporarySecret)
    ReceivedOffer.accept world server world.temporarySecret
    note .ready

def SenderSession.run (sender : SenderSession) (world : SenderWorld) : Except CoreError SenderConnection × Session :=
  (sender.connect world).from_ sender.party.unestablished

def receiverRun (party : Party Value) (world : ReceiverWorld) : Except CoreError Unit × Session :=
  (runWormholeReceiver party world).from_ party.unestablished

/-! Where a session stands after each step. -/

/-- The session of a party that was given these values to send, was asked for so many messages, and has done
these things beside. -/
structure Session.At (party : Party Value) (key : Bytes) (values : List Value) (asked : Nat)
    (events : List SessionEvent) (s : Session) : Prop where
  sound : s.wormhole.Sound party.sideId party.socket key values asked
  values : s.values = values
  events : s.events = events

/-- What was read from a message of another side, in the phase of a number. -/
def Heard (party : Party Value) (key : Bytes) (phase : Nat) (read : Value → Option α) (a : α) : Prop :=
  ∃ value opened, OpenedPhase key party.sideId party.socket (toString phase) opened ∧
    WormholeJson.decode opened.plaintext = some value ∧ read value = some a

variable {party : Party Value} {key : Bytes} {values : List Value} {asked : Nat} {events : List SessionEvent}

theorem ends_interruptible {interruption : Option Interruption} {x : SessionM α} {P : Session → Prop}
    {R : Except CoreError α → Session → Prop} (hx : Ends P x R) (hbefore : ∀ e s, P s → R (.error e) s)
    (hafter : ∀ a e s, R (.ok a) s → R (.error e) s) : Ends P (interruptible interruption x) R := by
  rcases interruption with _ | ⟨_ | _, error⟩
  · exact hx
  · exact ends_throw (hbefore error)
  · exact ends_bind hx (fun a => ends_throw (hafter a error)) fun _ _ h => h

theorem ends_note (event : SessionEvent) : Ends (Session.At party key values asked events) (note event)
    fun _ => Session.At party key values asked (events ++ [event]) :=
  ends_modify fun _ h => ⟨h.sound, h.values, congrArg (· ++ [event]) h.events⟩

theorem Party.unestablished_at (party : Party Value) : party.unestablished.At party [] [] 0 [] :=
  ⟨⟨⟨rfl, fun m hm => (by cases hm), List.Subset.refl _⟩, rfl, fun s hs => (by cases hs), rfl, rfl⟩, rfl, rfl⟩

theorem ends_establish (party : Party Value) : Ends (Session.At party key [] 0 []) (establish party)
    fun _ s => ∃ key, s.At party key [] 0 [] := by
  refine ends_bind (ends_modify (S := fun _ s => ∃ key, s.At party key [] 0 []) fun s hs => ?_)
    (fun _ => ends_lift fun _ h => h) fun _ _ h => h
  exact ⟨_, party.establish_sound, hs.values, hs.events⟩

/-- A session is established, or given up before. -/
theorem ends_established (party : Party Value) (interruption : Option Interruption) :
    Ends (Session.At party [] [] 0 []) (interruptible interruption (establish party))
      fun _ s => ∃ key, s.At party key [] 0 [] :=
  ends_interruptible (ends_establish party) (fun _ _ h => ⟨[], h⟩) fun _ _ _ h => h

theorem ends_sendMessage (value : Value) : Ends (Session.At party key values asked events) (sendMessage value)
    fun _ => Session.At party key (values ++ [value]) asked events := by
  intro s hs
  exact ⟨hs.sound.send value, congrArg (· ++ [value]) hs.values, hs.events⟩

theorem ends_receiveMessage (read : Value → Option α) :
    Ends (Session.At party key values asked events) (receiveMessage read) fun r s =>
      s.At party key values (asked + 1) events ∧ ∀ a, r = .ok a → Heard party key asked read a := by
  intro s hs
  obtain ⟨hsound, hopened⟩ := hs.sound.receive
  refine ⟨⟨hsound, hs.values, hs.events⟩, fun a ha => ?_⟩
  obtain ⟨⟨value, opened⟩, hreceived, hread⟩ := bind_eq_ok.mp ha
  rw [readAs] at hread
  split at hread
  · next b hb =>
    obtain rfl := Except.ok.inj hread
    exact ⟨value, opened, (hopened value opened hreceived).1, (hopened value opened hreceived).2, hb⟩
  · cases hread

/-- What a sender has come to. -/
inductive SenderSession.Ended (sender : SenderSession) (world : SenderWorld) (key : Bytes) :
    Except CoreError SenderConnection → Session → Prop
  | silent {e s} (h : s.At sender.party key [] 0 []) : Ended sender world key (.error e) s
  | offered {transit asked e s} (ht : world.transit = .ok transit)
      (h : s.At sender.party key [SenderOffer.toJson ⟨sender.summary, transit⟩] asked []) :
      Ended sender world key (.error e) s
  | answered {transit answer r s} (ht : world.transit = .ok transit)
      (h : s.At sender.party key [SenderOffer.toJson ⟨sender.summary, transit⟩] 1 [.answered answer])
      (heard : Heard sender.party key 0 ReceiverAnswer.ofJson answer)
      (hr : ∀ c, r = .ok c → checkAnswer answer = .ok () ∧
        c = ⟨answer.quicFingerprint, answer.quicSecret, deriveKey key transitPurpose⟩) :
      Ended sender world key r s

theorem Session.At.transitKey {s : Session} (h : s.At party key values asked events) :
    s.wormhole.transitKey = deriveKey key transitPurpose :=
  congrArg (deriveKey · transitPurpose) h.sound.key

/-- What a message is read as, when the step may be given up. -/
theorem ends_reading (read : Value → Option α) (interruption : Option Interruption) :
    Ends (Session.At party key values asked events) (interruptible interruption (receiveMessage read))
      fun r s => (∃ asked, s.At party key values asked events) ∧ ∀ a, r = .ok a →
        s.At party key values (asked + 1) events ∧ Heard party key asked read a := by
  refine ends_interruptible ?_ (fun e s h => ⟨⟨asked, h⟩, fun a ha => by cases ha⟩) fun a e s h =>
    ⟨h.1, fun a ha => by cases ha⟩
  exact (ends_receiveMessage read).mono (fun _ h => h) fun r s h => ⟨⟨_, h.1⟩, fun a ha => ⟨h.1, h.2 a ha⟩⟩

/-- A step that is given up may still have sent its message. -/
theorem ends_sending (value : Value) (interruption : Option Interruption) :
    Ends (Session.At party key values asked events) (interruptible interruption (sendMessage value))
      fun r s => (s.At party key values asked events ∨ s.At party key (values ++ [value]) asked events) ∧
        (r = .ok () → s.At party key (values ++ [value]) asked events) := by
  refine ends_interruptible ?_ (fun e s h => ⟨.inl h, fun hr => by cases hr⟩) fun a e s h =>
    ⟨h.1, fun hr => by cases hr⟩
  exact (ends_sendMessage value).mono (fun _ h => h) fun r s h => ⟨.inr h, fun _ => h⟩

theorem SenderSession.ends_connect (sender : SenderSession) (world : SenderWorld) :
    Ends (Session.At sender.party [] [] 0 []) (sender.connect world)
      fun r s => ∃ key, sender.Ended world key r s := by
  refine ends_bind (ends_established _ _) (fun _ => ?_) fun e s ⟨key, h⟩ => ⟨key, .silent h⟩
  -- The key is fixed from here on, and every error ends the session where it stands.
  refine ends_exists fun key => Ends.mono (S := sender.Ended world key) ?_ (fun _ h => h) fun _ _ h => ⟨key, h⟩
  refine ends_bind ends_get (fun start => ?_) fun e s h => by cases h.1
  have htransit : Ends (fun s => Except.ok (ε := CoreError) start = .ok s ∧ s.At sender.party key [] 0 [])
      (liftM world.transit) fun r s => r = world.transit ∧
        start.wormhole.transitKey = deriveKey key transitPurpose ∧ s.At sender.party key [] 0 [] := by
    refine ends_lift fun s hs => ⟨rfl, ?_, hs.2⟩
    rw [Except.ok.inj hs.1]
    exact hs.2.transitKey
  refine ends_bind htransit (fun transit => ends_of fun ht => ends_of fun hkey => ?_) fun e s h => .silent h.2.2
  refine ends_bind (ends_sending _ _) (fun _ => ends_from (fun s h => h.2 rfl) ?_) fun e s h => ?_
  · refine ends_bind (ends_reading _ _) (fun answer => ends_from (fun s h => h.2 answer rfl) ?_) fun e s ⟨h, _⟩ => ?_
    · have hnoted : Ends (fun s => s.At sender.party key [SenderOffer.toJson ⟨sender.summary, transit⟩] 1 [] ∧
          Heard sender.party key 0 ReceiverAnswer.ofJson answer) (note (.answered answer)) fun _ s =>
          Heard sender.party key 0 ReceiverAnswer.ofJson answer ∧
            s.At sender.party key [SenderOffer.toJson ⟨sender.summary, transit⟩] 1 [.answered answer] :=
        fun s h => ⟨h.2, ends_note _ s h.1⟩
      refine ends_bind hnoted (fun _ => ends_of fun heard => ?_) fun e s h =>
        .answered ht.symm h.2 h.1 fun c hc => by cases hc
      refine ends_bind (ends_lifted _) (fun _ => ends_of fun hchecked => ?_) fun e s h =>
        .answered ht.symm h.2 heard fun c hc => by cases hc
      refine ends_bind (ends_lifted _) (fun _ => ends_of fun _ => ?_) fun e s h =>
        .answered ht.symm h.2 heard fun c hc => by cases hc
      refine ends_pure fun s h => .answered ht.symm h heard fun c hc => ⟨hchecked.symm, ?_⟩
      rw [← hkey]
      exact (Except.ok.inj hc).symm
    · obtain ⟨asked, h⟩ := h
      exact .offered ht.symm h
  · rcases h.1 with h | h
    · exact .silent h
    · exact .offered ht.symm h

def acceptance (server : BoundServer) (secret : String) : ReceiverAnswer :=
  ⟨true, "", server.certificateFingerprint, secret⟩

def rejection : ReceiverAnswer := ⟨false, rejectionReason, "", ""⟩

/-- What has become of an offer: the answers that were sent, and what was done with it. -/
inductive Decided (world : ReceiverWorld) (summary : TransferSummary) : List Value → List SessionEvent → Prop
  | undecided : Decided world summary [] []
  | rejected {sent} (h : world.decision summary = .ok .reject)
      (hv : sent = [] ∨ sent = [rejection.toJson]) : Decided world summary sent [.decided .reject]
  | accepted (h : world.decision summary = .ok .accept) : Decided world summary [] [.decided .accept]
  | served {server sent ready} (h : world.decision summary = .ok .accept) (hs : world.server = .ok server)
      (hv : sent = [] ∨ sent = [(acceptance server world.temporarySecret).toJson])
      (he : ready = [] ∨ ready = [.ready]) :
      Decided world summary sent
        (.decided .accept :: .bound server.certificateFingerprint world.temporarySecret :: ready)

/-- What a receiver has come to. -/
inductive ReceiverEnded (party : Party Value) (world : ReceiverWorld) (key : Bytes) (s : Session) : Prop
  | silent {n} (h : s.At party key [] n [])
  | offered {offer sent done} (heard : Heard party key 0 SenderOffer.ofJson offer)
      (valid : offer.summary.validate = .ok ()) (decided : Decided world offer.summary sent done)
      (h : s.At party key sent 1 (.offered offer.summary :: done))

theorem ends_join (party : Party Value) (world : ReceiverWorld) :
    Ends (Session.At party [] [] 0 []) (ReceivedOffer.join party world) fun r s => ∃ key,
      (∃ asked, s.At party key [] asked []) ∧ ∀ offer, r = .ok offer → s.At party key [] 1 [] ∧
        Heard party key 0 SenderOffer.ofJson offer ∧ offer.summary.validate = .ok () := by
  refine ends_bind (ends_established _ _) (fun _ => ?_) fun e s ⟨key, h⟩ => ⟨key, ⟨0, h⟩, fun _ hr => by cases hr⟩
  refine ends_exists fun key => Ends.mono ?_ (fun _ h => h) fun _ _ h => ⟨key, h⟩
  refine ends_bind (ends_reading _ _) (fun offer => ends_from (fun s h => h.2 offer rfl) ?_) fun e s h =>
    ⟨h.1, fun _ hr => by cases hr⟩
  refine ends_bind (ends_lifted _) (fun _ => ends_of fun hvalid => ?_) fun e s h =>
    ⟨⟨1, h.2.1⟩, fun _ hr => by cases hr⟩
  refine ends_pure fun s h => ⟨⟨1, h.1⟩, fun o ho => ?_⟩
  obtain rfl := Except.ok.inj ho
  exact ⟨h.1, h.2, hvalid.symm⟩

theorem ends_accept (world : ReceiverWorld) (server : BoundServer) :
    Ends (Session.At party key values asked events) (ReceivedOffer.accept world server world.temporarySecret)
      fun r s => (s.At party key values asked events ∨
          s.At party key (values ++ [(acceptance server world.temporarySecret).toJson]) asked events) ∧
        (r = .ok () → s.At party key (values ++ [(acceptance server world.temporarySecret).toJson]) asked events) := by
  refine ends_bind (ends_lifted _) (fun _ => ends_of fun _ => ?_) fun e s h => ⟨.inl h.2, fun hr => by cases hr⟩
  refine ends_bind (ends_sending _ _) (fun _ => ends_from (fun s h => h.2 rfl) ?_) fun e s h =>
    ⟨h.1, fun hr => by cases hr⟩
  exact (ends_lifted _).mono (fun _ h => h) fun r s h => ⟨.inr h.2, fun _ => h.2⟩

theorem ends_runWormholeReceiver (party : Party Value) (world : ReceiverWorld) :
    Ends (Session.At party [] [] 0 []) (runWormholeReceiver party world)
      fun _ s => ∃ key, ReceiverEnded party world key s := by
  refine ends_bind (ends_join _ _) (fun offer => ?_) fun e s ⟨key, ⟨asked, h⟩, _⟩ => ⟨key, .silent h⟩
  refine ends_exists fun key => Ends.mono (S := fun _ => ReceiverEnded party world key) ?_ (fun _ h => h)
    fun _ _ h => ⟨key, h⟩
  refine ends_from (fun s h => And.intro (h.2 offer rfl).2 (h.2 offer rfl).1) (ends_of fun ⟨heard, valid⟩ => ?_)
  have hended : ∀ {values events} {s : Session}, Decided world offer.summary values events →
      s.At party key values 1 (.offered offer.summary :: events) → ReceiverEnded party world key s :=
    fun decided h => .offered heard valid decided h
  refine ends_bind (ends_note _) (fun _ => ?_) fun e s h => hended .undecided h
  refine ends_bind (ends_lifted _) (fun selected => ends_of fun hselected => ?_) fun e s h => hended .undecided h.2
  have hdecision := hselected.symm
  cases selected with
  | reject =>
    refine ends_bind (ends_note _) (fun _ => ?_) fun e s h => hended (.rejected hdecision (.inl rfl)) h
    refine (ends_sending _ _).mono (fun _ h => h) fun r s h => ?_
    rcases h.1 with h | h
    · exact hended (.rejected hdecision (.inl rfl)) h
    · exact hended (.rejected hdecision (.inr rfl)) h
  | accept =>
    refine ends_bind (ends_note _) (fun _ => ?_) fun e s h => hended (.accepted hdecision) h
    refine ends_bind (ends_lifted _) (fun server => ends_of fun hserver => ?_) fun e s h =>
      hended (.accepted hdecision) h.2
    have hserved : ∀ {values ready} {s : Session},
        (values = [] ∨ values = [(acceptance server world.temporarySecret).toJson]) → (ready = [] ∨ ready = [.ready]) →
        s.At party key values 1 (.offered offer.summary :: .decided .accept ::
          .bound server.certificateFingerprint world.temporarySecret :: ready) → ReceiverEnded party world key s :=
      fun hv he h => hended (.served hdecision hserver.symm hv he) h
    refine ends_bind (ends_note _) (fun _ => ?_) fun e s h => hserved (.inl rfl) (.inl rfl) h
    have haccept : Ends (Session.At party key [] 1 [.offered offer.summary, .decided .accept,
        .bound server.certificateFingerprint world.temporarySecret])
      (ReceivedOffer.accept world server world.temporarySecret) _ := ends_accept world server
    refine ends_bind haccept (fun _ => ends_from (fun s h => h.2 rfl) ?_) fun e s h => ?_
    · exact (ends_note .ready).mono (fun _ h => h) fun _ s h => hserved (.inr rfl) (.inr rfl) h
    · rcases h.1 with h | h
      · exact hserved (.inl rfl) (.inl rfl) h
      · exact hserved (.inr rfl) (.inl rfl) h

/-! What one party hears, the other one has sent. -/

def Session.phases (s : Session) : List String := "version" :: (List.range s.values.length).map toString

/-- The encryption is ideal for what comes to a party: what opens was sealed by one of the two, and the key of
a phase is that of a message only if they are derived from the same. -/
structure Ideal (a b : Party Value) (s t : Session) : Prop where
  authentic : ∀ m ∈ a.messages, ∀ nonce ciphertext, hexDecode m.body = some (nonce ++ ciphertext) →
    nonce.length = 24 → Unforged (s.wormhole.sealed ++ t.wormhole.sealed)
      (derivePhaseKey s.wormhole.sharedKey m.side m.phase) nonce ciphertext
  own : ∀ m ∈ a.messages, ∀ phase ∈ s.phases,
    derivePhaseKey s.wormhole.sharedKey a.sideId phase = derivePhaseKey s.wormhole.sharedKey m.side m.phase →
      a.sideId = m.side
  other : ∀ m ∈ a.messages, ∀ phase ∈ t.phases,
    derivePhaseKey t.wormhole.sharedKey b.sideId phase = derivePhaseKey s.wormhole.sharedKey m.side m.phase →
      t.wormhole.sharedKey = s.wormhole.sharedKey ∧ phase = m.phase

theorem Session.At.sealed_phase {s : Session} (h : s.At party key values asked events) {x : Sealed}
    (hx : x ∈ s.wormhole.sealed) :
    x.Valid ∧ ∃ phase ∈ s.phases, x.key = derivePhaseKey s.wormhole.sharedKey party.sideId phase ∧
      (phase = "version" ∨ ∃ (i : Nat) (value : Value), values[i]? = some value ∧ phase = toString i ∧
        WormholeJson.encode value = some x.plaintext) := by
  obtain ⟨hvalid, phase, hkey, hphase⟩ := h.sound.sealed x hx
  refine ⟨hvalid, phase, ?_, by rw [h.sound.key]; exact hkey, hphase⟩
  rw [Session.phases, h.values]
  rcases hphase with rfl | ⟨i, value, hi, rfl, -⟩
  · exact List.mem_cons_self
  · have hlt := (List.getElem?_eq_some_iff.mp hi).1
    exact List.mem_cons_of_mem _ (List.mem_map_of_mem (List.mem_range.mpr hlt))

variable {a b : Party Value} {s t : Session} {key' : Bytes} {values' : List Value} {asked' : Nat}
  {events' : List SessionEvent}

/-- What a party reads in a phase is the value of that number of the other party, whose key is its own. -/
theorem heard_from (hs : s.At a key values asked events) (ht : t.At b key' values' asked' events')
    (hideal : Ideal a b s t) {phase : Nat} {read : Value → Option α} {x : α} (h : Heard a key phase read x) :
    key' = key ∧ ∃ value, values'[phase]? = some value ∧ read value = some x := by
  obtain ⟨value, opened, ⟨m, hforeign, hphase, hkey, hbody, hnonce, hopen⟩, hdecode, hread⟩ := h
  have hm : m ∈ a.messages := Party.mem_messages hforeign
  rw [← hs.sound.key] at hkey
  have hsealed : opened ∈ t.wormhole.sealed := by
    have hunforged := hideal.authentic m hm opened.nonce opened.ciphertext hbody hnonce
    rw [← hkey] at hunforged
    have hmem := hunforged.opened (fun x hx => (List.mem_append.mp hx).elim (fun hx => (hs.sealed_phase hx).1)
      fun hx => (ht.sealed_phase hx).1) hopen
    refine (List.mem_append.mp hmem).resolve_left fun hown => ?_
    obtain ⟨-, phase, hphases, hsame, -⟩ := hs.sealed_phase hown
    exact hforeign.1 (hideal.own m hm phase hphases (hsame.symm.trans hkey)).symm
  obtain ⟨-, name, hphases, hsame, hvalue⟩ := ht.sealed_phase hsealed
  obtain ⟨hkeys, hname⟩ := hideal.other m hm name hphases (hsame.symm.trans hkey)
  refine ⟨by rw [← hs.sound.key, ← ht.sound.key, hkeys], ?_⟩
  rcases hvalue with rfl | ⟨i, sent, hi, rfl, hencode⟩
  · exact absurd (hname.trans hphase).symm (toString_ne_version phase)
  · obtain rfl := toString_injective (hname.trans hphase)
    have hsent := WormholeJson.decode_encode hencode
    rw [hdecode] at hsent
    obtain rfl := Option.some.inj hsent
    exact ⟨value, hi, hread⟩

namespace SenderSession.Ended

variable {sender : SenderSession} {world : SenderWorld} {r : Except CoreError SenderConnection}

theorem at_some (h : sender.Ended world key r s) : ∃ values asked events, s.At sender.party key values asked events := by
  cases h with
  | silent h => exact ⟨_, _, _, h⟩
  | offered ht h => exact ⟨_, _, _, h⟩
  | answered ht h heard hr => exact ⟨_, _, _, h⟩

/-- The only value that a sender can have sent is its offer. -/
theorem offer (h : sender.Ended world key r s) {value : Value} (hv : s.values[0]? = some value) :
    ∃ transit, world.transit = .ok transit ∧ SenderOffer.ofJson value = some ⟨sender.summary, transit⟩ := by
  have hread : ∀ {transit : TransitOffer}, world.transit = .ok transit →
      some (SenderOffer.toJson ⟨sender.summary, transit⟩) = some value →
        SenderOffer.ofJson value = some ⟨sender.summary, transit⟩ := by
    intro transit ht hvalue
    rw [← Option.some.inj hvalue]
    exact SenderOffer.ofJson_toJson ⟨sender.fits, world.fits _ ht⟩
  cases h with
  | silent h =>
    rw [h.values] at hv
    cases hv
  | offered ht h =>
    rw [h.values] at hv
    exact ⟨_, ht, hread ht hv⟩
  | answered ht h heard hr =>
    rw [h.values] at hv
    exact ⟨_, ht, hread ht hv⟩

theorem told (h : sender.Ended world key r s) {answer : ReceiverAnswer} (hmem : .answered answer ∈ s.events) :
    ∃ values, s.At sender.party key values 1 [.answered answer] ∧
      Heard sender.party key 0 ReceiverAnswer.ofJson answer := by
  cases h with
  | silent h =>
    rw [h.events] at hmem
    cases hmem
  | offered ht h =>
    rw [h.events] at hmem
    cases hmem
  | answered ht h heard hr =>
    rw [h.events] at hmem
    obtain rfl := SessionEvent.answered.inj (List.mem_singleton.mp hmem)
    exact ⟨_, h, heard⟩

theorem connected {connection : SenderConnection} (h : sender.Ended world key (.ok connection) s) :
    ∃ values answer, s.At sender.party key values 1 [.answered answer] ∧
      Heard sender.party key 0 ReceiverAnswer.ofJson answer ∧ checkAnswer answer = .ok () ∧
      connection = ⟨answer.quicFingerprint, answer.quicSecret, deriveKey key transitPurpose⟩ := by
  cases h with
  | answered ht h heard hr => exact ⟨_, _, h, heard, hr connection rfl⟩

end SenderSession.Ended

namespace Decided

variable {world : ReceiverWorld} {summary : TransferSummary} {sent : List Value} {done : List SessionEvent}

theorem not_offered (h : Decided world summary sent done) (other : TransferSummary) : .offered other ∉ done := by
  cases h with
  | undecided => simp
  | rejected h hsent => simp
  | accepted h => simp
  | served h hs hsent he => rcases he with rfl | rfl <;> simp

theorem of_bound (h : Decided world summary sent done) {fingerprint secret : String}
    (hmem : .bound fingerprint secret ∈ done) : world.decision summary = .ok .accept := by
  cases h with
  | undecided => cases hmem
  | rejected h hsent => simp at hmem
  | accepted h => exact h
  | served h hs hsent he => exact h

/-- What a receiver has answered is what its user has decided. -/
theorem answer (h : Decided world summary sent done) {value : Value} {answer : ReceiverAnswer}
    (hv : sent[0]? = some value) (hread : ReceiverAnswer.ofJson value = some answer) :
    world.decision summary = .ok .reject ∧ answer = rejection ∧ done = [.decided .reject] ∨
      ∃ server ready, world.decision summary = .ok .accept ∧ world.server = .ok server ∧
        answer = acceptance server world.temporarySecret ∧
        done = .decided .accept :: .bound server.certificateFingerprint world.temporarySecret :: ready := by
  have hwritten : ∀ {written : ReceiverAnswer}, some written.toJson = some value → written = answer := by
    intro written hw
    rw [← Option.some.inj hw, ReceiverAnswer.ofJson_toJson] at hread
    exact Option.some.inj hread
  cases h with
  | undecided => cases hv
  | rejected h hsent =>
    rcases hsent with rfl | rfl
    · cases hv
    · exact .inl ⟨h, (hwritten hv).symm, rfl⟩
  | accepted h => cases hv
  | served h hs hsent he =>
    rcases hsent with rfl | rfl
    · cases hv
    · exact .inr ⟨_, _, h, hs, (hwritten hv).symm, rfl⟩

end Decided

/-- A sender and a receiver of one short code. -/
structure ShortCode where
  sender : SenderSession
  senderWorld : SenderWorld
  receiver : Party Value
  receiverWorld : ReceiverWorld

namespace ShortCode

variable (p : ShortCode)

def sent : Except CoreError SenderConnection × Session := p.sender.run p.senderWorld

def received : Except CoreError Unit × Session := receiverRun p.receiver p.receiverWorld

/-- The encryption is ideal for both. -/
structure Sound : Prop where
  sender : Ideal p.sender.party p.receiver p.sent.2 p.received.2
  receiver : Ideal p.receiver p.sender.party p.received.2 p.sent.2

theorem sender_ended : ∃ key, p.sender.Ended p.senderWorld key p.sent.1 p.sent.2 :=
  p.sender.ends_connect p.senderWorld _ p.sender.party.unestablished_at

theorem receiver_ended : ∃ key, ReceiverEnded p.receiver p.receiverWorld key p.received.2 :=
  ends_runWormholeReceiver p.receiver p.receiverWorld _ p.receiver.unestablished_at

variable {p}

/-- An offer that the receiver has read is that of the sender. -/
theorem offer_known (hp : p.Sound) {offer : SenderOffer} (hs : p.received.2.At p.receiver key values asked events)
    (heard : Heard p.receiver key 0 SenderOffer.ofJson offer) : offer.summary = p.sender.summary := by
  obtain ⟨key', hended⟩ := p.sender_ended
  obtain ⟨values', asked', events', ht⟩ := hended.at_some
  obtain ⟨-, value, hvalue, hread⟩ := heard_from hs ht hp.receiver heard
  obtain ⟨transit, -, hown⟩ := hended.offer (ht.values.symm ▸ hvalue)
  rw [hown] at hread
  rw [← Option.some.inj hread]

/-- What a receiver has answered is what its user has decided. -/
theorem answer_known {world : ReceiverWorld} {summary : TransferSummary} {sent : List Value}
    {done : List SessionEvent} {value : Value} {answer : ReceiverAnswer} (h : Decided world summary sent done)
    (hv : sent[0]? = some value) (hread : ReceiverAnswer.ofJson value = some answer) :
    world.decision summary = .ok .reject ∧ answer = rejection ∧ done = [.decided .reject] ∨
      ∃ server ready, world.decision summary = .ok .accept ∧ world.server = .ok server ∧
        answer = acceptance server world.temporarySecret ∧
        done = .decided .accept :: .bound server.certificateFingerprint world.temporarySecret :: ready := by
  have hwritten : ∀ {written : ReceiverAnswer}, some written.toJson = some value → written = answer := by
    intro written hw
    rw [← Option.some.inj hw, ReceiverAnswer.ofJson_toJson] at hread
    exact Option.some.inj hread
  cases h with
  | undecided => cases hv
  | rejected h hsent =>
    rcases hsent with rfl | rfl
    · cases hv
    · exact .inl ⟨h, (hwritten hv).symm, rfl⟩
  | accepted h => cases hv
  | served h hs hsent he =>
    rcases hsent with rfl | rfl
    · cases hv
    · exact .inr ⟨_, _, h, hs, (hwritten hv).symm, rfl⟩

/-- The receiver knows of no offer, or it has decided about that of the sender. -/
theorem received_cases (hp : p.Sound) : ∃ key sent asked done,
    p.received.2.At p.receiver key sent asked p.received.2.events ∧
      (sent = [] ∧ p.received.2.events = [] ∨ p.received.2.events = .offered p.sender.summary :: done ∧
        Decided p.receiverWorld p.sender.summary sent done) := by
  obtain ⟨key, hended⟩ := p.receiver_ended
  cases hended with
  | silent h => exact ⟨key, _, _, [], h.events.symm ▸ h, .inl ⟨rfl, h.events⟩⟩
  | @offered offer sent done heard valid decided h =>
    rw [p.offer_known hp h heard] at decided h
    exact ⟨key, sent, 1, done, h.events.symm ▸ h, .inr ⟨h.events, decided⟩⟩

end ShortCode

/-- Whatever the server of the rendezvous does, the receiver shows its user no offer but that of the sender and
binds a server only when the user has accepted it; an answer that reaches the sender is what the user has
decided; and the sender connects only to the server of a receiver that has accepted, by the same transit key. -/
theorem ShortCode.answer_decided (p : ShortCode) (hp : p.Sound) :
    (∀ summary, .offered summary ∈ p.received.2.events → summary = p.sender.summary) ∧
      (∀ fingerprint secret, .bound fingerprint secret ∈ p.received.2.events →
        p.receiverWorld.decision p.sender.summary = .ok .accept) ∧
      (∀ answer, .answered answer ∈ p.sent.2.events →
        p.receiverWorld.decision p.sender.summary = .ok .reject ∧ answer = rejection ∧
            p.received.2.events = [.offered p.sender.summary, .decided .reject] ∨
          ∃ server ready, p.receiverWorld.decision p.sender.summary = .ok .accept ∧
            p.receiverWorld.server = .ok server ∧ answer = acceptance server p.receiverWorld.temporarySecret ∧
            p.received.2.events = .offered p.sender.summary :: .decided .accept ::
              .bound server.certificateFingerprint p.receiverWorld.temporarySecret :: ready) ∧
      ∀ connection, p.sent.1 = .ok connection →
        p.receiverWorld.decision p.sender.summary = .ok .accept ∧ ∃ ready,
          p.received.2.events = .offered p.sender.summary :: .decided .accept ::
            .bound connection.certificateFingerprint connection.sharedSecret :: ready ∧
          connection.transitKey = p.received.2.wormhole.transitKey := by
  obtain ⟨key, sent, asked, done, hreceived, hcases⟩ := p.received_cases hp
  -- An answer that the sender has read is the one value of a receiver that has decided.
  have hanswer : ∀ {key' : Bytes} {answer : ReceiverAnswer} {values : List Value} {asked : Nat}
      {events : List SessionEvent}, p.sent.2.At p.sender.party key' values asked events →
      Heard p.sender.party key' 0 ReceiverAnswer.ofJson answer → key = key' ∧
        p.received.2.events = .offered p.sender.summary :: done ∧
          (p.receiverWorld.decision p.sender.summary = .ok .reject ∧ answer = rejection ∧
              done = [.decided .reject] ∨
            ∃ server ready, p.receiverWorld.decision p.sender.summary = .ok .accept ∧
              p.receiverWorld.server = .ok server ∧ answer = acceptance server p.receiverWorld.temporarySecret ∧
              done = .decided .accept ::
                .bound server.certificateFingerprint p.receiverWorld.temporarySecret :: ready) := by
    intro key' answer values asked events hs heard
    obtain ⟨hkey, value, hvalue, hread⟩ := heard_from hs hreceived hp.sender heard
    rcases hcases with ⟨rfl, -⟩ | ⟨hevents, hdecided⟩
    · cases hvalue
    · exact ⟨hkey, hevents, hdecided.answer hvalue hread⟩
  obtain ⟨key', hended⟩ := p.sender_ended
  refine ⟨fun summary hmem => ?_, fun fingerprint secret hmem => ?_, fun answer hmem => ?_, fun connection hc => ?_⟩
  · rcases hcases with ⟨-, hevents⟩ | ⟨hevents, hdecided⟩
    · rw [hevents] at hmem
      cases hmem
    · rw [hevents] at hmem
      rcases List.mem_cons.mp hmem with heq | hmem
      · exact SessionEvent.offered.inj heq
      · exact absurd hmem (hdecided.not_offered summary)
  · rcases hcases with ⟨-, hevents⟩ | ⟨hevents, hdecided⟩
    · rw [hevents] at hmem
      cases hmem
    · rw [hevents] at hmem
      exact hdecided.of_bound ((List.mem_cons.mp hmem).resolve_left fun h => by cases h)
  · obtain ⟨values, hs, heard⟩ := hended.told hmem
    obtain ⟨-, hevents, hdecision⟩ := hanswer hs heard
    rcases hdecision with ⟨hreject, ha, rfl⟩ | ⟨server, ready, haccept, hserver, ha, rfl⟩
    · exact .inl ⟨hreject, ha, hevents⟩
    · exact .inr ⟨server, ready, haccept, hserver, ha, hevents⟩
  · rw [hc] at hended
    obtain ⟨values, answer, hs, heard, hchecked, rfl⟩ := hended.connected
    obtain ⟨rfl, hevents, hdecision⟩ := hanswer hs heard
    rcases hdecision with ⟨-, rfl, -⟩ | ⟨server, ready, haccept, -, rfl, rfl⟩
    · cases hchecked
    · exact ⟨haccept, ready, hevents, hreceived.transitKey.symm⟩

end Steps

namespace Sample

attribute [local instance] floats wormholeExchange wormholeHashing

def sessionSummary : TransferSummary := ⟨"Sender", "aaaaaaaaaaaaaaaaaaaaaaaaaaaaaaaa", 1, 1, 0, 5, ["a"]⟩

def sessionTransit : TransitOffer := ⟨[⟨.relayV1, "r", 4001, 3⟩]⟩

def sessionServer : BoundServer := ⟨true, "9f86d081884c7d659a2feaa0c55ad015a3bf4f1b2b0b822cd15d6c15b0f00a08"⟩

def sessionSecret : String := "2c26b46b68ffc68ff99b453c1d30413413422d706483bfa0f98a5e886266e7ae"

/-- What each of the two sends. -/
def sessionValue : WormholeRole → Value
  | .sender => SenderOffer.toJson ⟨sessionSummary, sessionTransit⟩
  | .receiver => (acceptance sessionServer sessionSecret).toJson

def sessionMessage : WormholeRole → Sealed
  | .sender =>
    ⟨phaseKey "aaaaaaaaaaaaaaaaaaaa" "0", List.replicate 24 2, (sessionValue .sender).encoded,
      [189, 45, 202, 28, 75, 106, 193, 28, 203, 219, 60, 225, 53, 16, 57, 36, 115, 241, 14, 202, 14, 180, 131,
       93, 74, 228, 58, 35, 9, 64, 35, 133, 221, 177, 217, 194, 72, 3, 91, 127, 117, 54, 28, 146, 190, 135, 12,
       22, 50, 161, 121, 165, 118, 48, 44, 192, 115, 144, 105, 119, 97, 42, 65, 190, 191, 154, 79, 59, 110, 150,
       95, 32, 175, 214, 135, 108, 160, 135, 52, 252, 64, 243, 134, 8, 253, 40, 58, 42, 127, 196, 106, 51, 62,
       81, 5, 5, 129, 127, 60, 218, 110, 122, 211, 12, 50, 227, 148, 137, 210, 41, 204, 74, 198, 108, 135, 33,
       224, 88, 224, 193, 165, 210, 134, 9, 6, 211, 165, 11, 4, 160, 8, 106, 98, 244, 98, 253, 242, 66, 253,
       151, 183, 221, 16, 156, 75, 32, 236, 2, 59, 150, 209, 233, 250, 11, 158, 7, 175, 110, 157, 154, 186, 115,
       52, 35, 20, 117, 194, 199, 103, 103, 126, 93, 102, 41, 218, 119, 111, 83, 230, 62, 223, 2, 116, 134, 221,
       229, 82, 228, 179, 25, 243, 48, 128, 97, 109, 74, 203, 132, 213, 144, 237, 210, 122, 122, 202, 216, 145,
       141, 251, 224, 204, 8, 159, 48, 83, 70, 50, 65, 145, 139, 164, 100, 62, 1, 102, 18, 239, 120, 251, 75,
       219, 105, 179, 201, 239, 90, 84, 82, 195, 215, 200, 67, 65, 138, 61, 90, 244, 192, 247, 137, 108, 139,
       101, 172, 135, 252, 239, 179, 223]⟩
  | .receiver =>
    ⟨phaseKey "bbbbbbbbbbbbbbbbbbbb" "0", List.replicate 24 4, (sessionValue .receiver).encoded,
      [176, 101, 158, 251, 14, 71, 24, 78, 144, 30, 255, 126, 181, 182, 204, 25, 236, 213, 37, 28, 115, 76, 171,
       203, 136, 173, 182, 220, 246, 248, 96, 116, 75, 10, 39, 177, 251, 72, 65, 70, 47, 171, 232, 58, 179, 85,
       136, 158, 74, 34, 48, 157, 96, 176, 82, 227, 64, 179, 2, 102, 233, 126, 149, 242, 83, 143, 65, 203, 241,
       179, 243, 11, 219, 191, 84, 138, 27, 217, 21, 227, 1, 243, 153, 12, 188, 130, 153, 67, 143, 234, 193, 36,
       9, 185, 9, 132, 136, 131, 202, 160, 175, 116, 180, 68, 170, 220, 42, 59, 82, 154, 243, 128, 46, 145, 134,
       108, 20, 64, 76, 131, 112, 4, 113, 196, 39, 244, 116, 180, 209, 92, 197, 62, 251, 18, 208, 225, 6, 212,
       238, 141, 192, 7, 74, 138, 76, 121, 187, 180, 253, 91, 193, 206, 110, 130, 219, 107, 77, 205, 73, 16, 4,
       209, 155, 239, 142, 111, 77, 91, 74, 103, 123, 195, 6, 115, 114, 42, 121, 0, 38, 46, 135, 52, 213, 129,
       191, 87, 13, 119, 100, 123, 53, 179, 216, 116, 169, 121, 5, 245, 227, 101]⟩

def sessionSealed (role : WormholeRole) : List Sealed := (wormholeSealed role).take 1 ++ [sessionMessage role]

def sessionTable : List Sealed := sessionSealed .sender ++ sessionSealed .receiver

theorem sessionTable_table : Sealed.Table sessionTable := ⟨by decide +kernel, by decide +kernel⟩

abbrev sessionBox : SecretBox := SecretBox.ofTable sessionTable sessionTable_table

def sessionTransitKey : Bytes :=
  [63, 238, 213, 32, 142, 34, 12, 208, 214, 222, 122, 103, 79, 3, 62, 213, 179, 90, 171, 162, 247, 80, 224, 186,
   27, 14, 77, 86, 161, 150, 157, 120]

abbrev sessionDerivation : KeyDerivation where
  hkdf input purpose :=
    if input = wormholeKey ∧ purpose = transitPurpose then sessionTransitKey else phaseDerivation.hkdf input purpose

abbrev sessionJson : WormholeJson Value where
  encode value :=
    if value.encoded = (sessionValue .sender).encoded then some (sessionValue .sender).encoded
    else if value.encoded = (sessionValue .receiver).encoded then some (sessionValue .receiver).encoded
    else none
  decode bytes :=
    if bytes = (sessionValue .sender).encoded then some (sessionValue .sender)
    else if bytes = (sessionValue .receiver).encoded then some (sessionValue .receiver)
    else none
  decode_encode {value bytes} h := by
    split at h
    · next hs =>
      obtain rfl := Option.some.inj h
      rw [if_pos rfl, encoded_injective hs]
    · next hs =>
      split at h
      · next hr =>
        obtain rfl := Option.some.inj h
        rw [← hr, if_neg hs, if_pos rfl, encoded_injective hr]
      · cases h
  encodePake := pakeText
  decodePake := boolJson.decodePake
  encodeVersion := boolJson.encodeVersion
  decodeVersion := boolJson.decodeVersion

attribute [local instance] sessionDerivation sessionBox sessionJson

def sessionMail (role : WormholeRole) : List (Except CoreError ServerValue) :=
  (sessionSealed role).zipWith (fun s phase => mail ⟨wormholeSide role, phase, hexEncode (s.nonce ++ s.ciphertext)⟩)
    ["version", "0"]

/-- The server echoes a message of the party, and says everything twice. -/
def sessionSocket (role : WormholeRole) : List (Except CoreError ServerValue) :=
  [mail (pakeMessage role), ack "01", mail (pakeMessage role.opposite), ack "02",
    .ok (.reply "released" none), ack "03"] ++ sessionMail role.opposite ++ [ack "04"] ++ sessionMail role.opposite

def sessionParty (role : WormholeRole) (secret : Nat) (nonces : List Bytes) : Party Value where
  sideId := wormholeSide role
  code := "41-abandon-ability-able"
  role := role
  secret := secret
  nonces := nonces
  nameplate := some "41"
  commands := [("01", none), ("02", none), ("03", none), ("04", none)]
  socket := sessionSocket role
  waits := 0
  calls := []

def shortCode : ShortCode where
  sender := ⟨sessionParty .sender 5 [List.replicate 24 1, List.replicate 24 2], sessionSummary, by decide +kernel,
    ⟨by decide, by decide, by decide, by decide⟩⟩
  senderWorld := ⟨.ok sessionTransit, by
    intro offer h hint hmem
    obtain rfl := Except.ok.inj h
    obtain rfl := List.mem_singleton.mp hmem
    exact ⟨by decide, by decide⟩, .ok (), none, none, none⟩
  receiver := sessionParty .receiver 7 [List.replicate 24 3, List.replicate 24 4]
  receiverWorld := ⟨none, none, fun _ => .ok .accept, sessionSecret, .ok sessionServer, none, .ok ()⟩

end Sample

attribute [local instance] Sample.floats Sample.wormholeExchange Sample.wormholeHashing Sample.sessionDerivation
  Sample.sessionBox Sample.sessionJson

def Sample.connection : SenderConnection :=
  ⟨Sample.sessionServer.certificateFingerprint, Sample.sessionSecret, Sample.sessionTransitKey⟩

namespace Sample

theorem sent_sample : shortCode.sent.1 = .ok connection ∧ shortCode.sent.2.wormhole.sharedKey = wormholeKey ∧
    shortCode.sent.2.wormhole.sealed = sessionSealed .sender ∧ shortCode.sent.2.phases = ["version", "0"] := by
  decide +kernel

theorem received_sample : shortCode.received.2.wormhole.sharedKey = wormholeKey ∧
    shortCode.received.2.wormhole.sealed = sessionSealed .receiver ∧
      shortCode.received.2.phases = ["version", "0"] := by
  decide +kernel

def Distinct (role : WormholeRole) (own : Bool) : Prop :=
  ∀ m ∈ (sessionParty role 0 []).messages, ∀ phase ∈ ["version", "0"],
    derivePhaseKey wormholeKey (wormholeSide (if own then role else role.opposite)) phase =
        derivePhaseKey wormholeKey m.side m.phase →
      if own then wormholeSide role = m.side else wormholeKey = wormholeKey ∧ phase = m.phase

theorem distinct (role : WormholeRole) (own : Bool) : Distinct role own := by
  unfold Distinct
  cases role <;> cases own <;> decide +kernel

theorem shortCode_sound : shortCode.Sound := by
  obtain ⟨-, hsentKey, hsent, hsentPhases⟩ := sent_sample
  obtain ⟨hreceivedKey, hreceived, hreceivedPhases⟩ := received_sample
  have hreverse : sessionTable ⊆ sessionSealed .receiver ++ sessionSealed .sender :=
    fun s hs => List.mem_append.mpr (List.mem_append.mp hs).symm
  constructor
  · constructor
    · rw [hsent, hreceived]
      exact fun _ _ _ _ _ _ => unforged_ofTable sessionTable_table (List.Subset.refl _) _ _ _
    · rw [hsentPhases, hsentKey]
      exact distinct .sender true
    · rw [hreceivedPhases, hreceivedKey, hsentKey]
      exact distinct .sender false
  · constructor
    · rw [hsent, hreceived]
      exact fun _ _ _ _ _ _ => unforged_ofTable sessionTable_table hreverse _ _ _
    · rw [hreceivedPhases, hreceivedKey]
      exact distinct .receiver true
    · rw [hsentPhases, hreceivedKey, hsentKey]
      exact distinct .receiver false

end Sample

/-- A receiver that accepts, and a server that says everything twice. -/
theorem answer_decided_sample : Sample.shortCode.sent.1 = .ok Sample.connection ∧ ∃ ready,
    Sample.shortCode.received.2.events = .offered Sample.shortCode.sender.summary :: .decided .accept ::
        .bound Sample.connection.certificateFingerprint Sample.connection.sharedSecret :: ready ∧
      Sample.connection.transitKey = Sample.shortCode.received.2.wormhole.transitKey := by
  have hsent := Sample.sent_sample.1
  have hdecided := ShortCode.answer_decided Sample.shortCode Sample.shortCode_sound
  exact ⟨hsent, (hdecided.2.2.2 Sample.connection hsent).2⟩

end InkHole
