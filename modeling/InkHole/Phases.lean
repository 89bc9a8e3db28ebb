import InkHole.Authentication
import InkHole.Rendezvous
import InkHole.Secrets

/-! The phases of a wormhole arrive in their order or not at all, whatever the mailbox does to
them. -/

set_option linter.unusedSectionVars false

namespace InkHole

open Stateful RendezvousClient

def wormholeAppId : String := "com.rexvane.inkhole/transport-v2"
def wormholeProtocolVersion : Nat := 2
def u32Max : Nat := 2 ^ 32 - 1

inductive WormholeRole where
  | sender
  | receiver
  deriving DecidableEq, Repr

def WormholeRole.opposite : WormholeRole → WormholeRole
  | sender => receiver
  | receiver => sender

structure VersionInfo where
  protocol : Nat
  role : WormholeRole
  deriving DecidableEq, Repr

/-- The JSON text of the messages. What was written is read back. -/
class WormholeJson (T : Type) where
  encode : T → Option Bytes
  decode : Bytes → Option T
  decode_encode : ∀ {value bytes}, encode value = some bytes → decode bytes = some value
  encodePake : List Char → Bytes
  /-- The string of the field `pake_v1`, if there is one. -/
  decodePake : Bytes → Option (Option (List Char))
  encodeVersion : VersionInfo → Bytes
  decodeVersion : Bytes → Option VersionInfo

/-- A session, also while it is being established. Its nonces are drawn in turn; `sealed` keeps what
it has encrypted. -/
structure Wormhole where
  rendezvous : RendezvousClient
  sharedKey : Bytes
  sendPhase : Nat
  receivePhase : Nat
  nonces : List Bytes
  sealed : List Sealed

section Sessions

variable {T : Type} [SecretBox] [KeyDerivation] [Hashing]

def derivePhaseKey (sharedKey : Bytes) (side phase : String) : Bytes :=
  deriveKey sharedKey (utf8 "wormhole:phase:" ++ Hashing.sha256 (utf8 side) ++ Hashing.sha256 (utf8 phase))

/-- A message is opened under the key of the side that it names. -/
def openMessage (sharedKey : Bytes) (expectedPhase : String) (m : MailboxMessage) : Except CoreError Sealed := do
  ensure (m.phase == expectedPhase)
    (.protocol s!"expected wormhole phase {expectedPhase}, received {m.phase}")
  match hexDecode m.body with
  | none => throw (.protocol "encrypted wormhole message is not hexadecimal")
  | some envelope =>
    ensure (decide (24 + 16 ≤ envelope.length)) (.protocol "encrypted wormhole message is truncated")
    let key := derivePhaseKey sharedKey m.side m.phase
    match SecretBox.decrypt key (envelope.take 24) (envelope.drop 24) with
    | none => throw (.crypto "decrypt wormhole control message failed")
    | some plaintext => return ⟨key, envelope.take 24, plaintext, envelope.drop 24⟩

namespace Wormhole

variable (w : Wormhole)

def onClient {α : Type} (x : ClientM α) : Except CoreError α × Wormhole :=
  ((x.from_ w.rendezvous).1, { w with rendezvous := (x.from_ w.rendezvous).2 })

def sendPhaseMessage (phase : String) : Option Bytes → Except CoreError Unit × Wormhole
  | none => (.error .json, w)
  | some plaintext =>
    let key := derivePhaseKey w.sharedKey w.rendezvous.sideId phase
    let nonce := w.nonces.headD (List.replicate 24 0)
    match SecretBox.encrypt key nonce plaintext with
    | none => (.error (.crypto "encrypt wormhole control message failed"), { w with nonces := w.nonces.tail })
    | some ciphertext =>
      let message : Sealed := ⟨key, nonce, plaintext, ciphertext⟩
      let w := { w with nonces := w.nonces.tail, sealed := w.sealed ++ [message] }
      w.onClient (addMessage phase (hexEncode (nonce ++ ciphertext)))

def receivePhaseMessage (expectedPhase : String) : Except CoreError Sealed × Wormhole :=
  let next := w.onClient nextPeerMessage
  (next.1 >>= openMessage w.sharedKey expectedPhase, next.2)

variable [WormholeJson T]

def send (value : T) : Except CoreError Unit × Wormhole :=
  if w.sendPhase = u32Max then (.error (.protocol "outgoing phase counter exhausted"), w)
  else
    let phase := toString w.sendPhase
    let w := { w with sendPhase := w.sendPhase + 1 }
    w.sendPhaseMessage phase (WormholeJson.encode value)

/-- The value, with the ciphertext it was read from. -/
def readValue (opened : Sealed) : Except CoreError (T × Sealed) :=
  match WormholeJson.decode opened.plaintext with
  | none => .error .json
  | some value => .ok (value, opened)

def receive : Except CoreError (T × Sealed) × Wormhole :=
  if w.receivePhase = u32Max then (.error (.protocol "incoming phase counter exhausted"), w)
  else
    let phase := toString w.receivePhase
    let w := { w with receivePhase := w.receivePhase + 1 }
    let message := w.receivePhaseMessage phase
    (message.1 >>= readValue, message.2)

end Wormhole

/-! A party: it establishes a session and makes its calls. -/

inductive PhaseCall (T : Type) where
  | send (value : T)
  | receive

inductive PhaseResult (T : Type) where
  | sent (result : Except CoreError Unit)
  | received (result : Except CoreError (T × Sealed))

def PhaseCall.value : PhaseCall T → Option T
  | .send value => some value
  | .receive => none

def PhaseResult.message : PhaseResult T → Option (Except CoreError (T × Sealed))
  | .sent _ => none
  | .received result => some result

variable (T) [WormholeJson T] [PasswordExchange]

/-- What a party brings to its session: what it draws, what the server sends to it, and the calls
that it makes. The creator of a code reads some values while it waits. -/
structure Party where
  sideId : String
  code : String
  role : WormholeRole
  secret : PasswordExchange.Secret
  nonces : List Bytes
  nameplate : Option String
  commands : List (String × Option CoreError)
  socket : List (Except CoreError ServerValue)
  waits : Nat
  calls : List (PhaseCall T)

variable {T}

def ServerValue.mail : Except CoreError ServerValue → Option MailboxMessage
  | .ok (.message fields) => fields
  | _ => none

def pump : Nat → ClientM Unit
  | 0 => pure ()
  | n + 1 => do
    let value ← readSocketValue
    dispatch value
    pump n

/-- The key that the message of the peer gives. -/
def pakeKey (code : String) (secret : PasswordExchange.Secret) (m : MailboxMessage) : Except CoreError Bytes := do
  ensure (m.phase == "pake") (.protocol s!"expected PAKE phase, received {m.phase}")
  match hexDecode m.body with
  | none => throw (.protocol "peer PAKE envelope is not hexadecimal")
  | some pakeJson =>
    match WormholeJson.decodePake T pakeJson with
    | none => throw .json
    | some none => throw (.protocol "peer PAKE envelope is invalid")
    | some (some peerOutbound) =>
      match hexDecode peerOutbound with
      | none => throw (.protocol "peer PAKE value is not hexadecimal")
      | some peerOutbound =>
        match PasswordExchange.finish (utf8 code) (utf8 wormholeAppId) secret peerOutbound with
        | none => throw (.crypto "SPAKE2 failed")
        | some key =>
          ensure (key.length == 32) (.crypto "SPAKE2 returned an invalid key length")
          return key

def checkVersion (role : WormholeRole) (opened : Sealed) : Except CoreError Unit :=
  match WormholeJson.decodeVersion T opened.plaintext with
  | none => .error .json
  | some version => ensure (version.protocol == wormholeProtocolVersion && version.role == role.opposite)
    (.protocol "peer does not support InkHole short-code V2")

namespace Party

variable (p : Party T)

/-- The messages of the mailbox that the server sends to the party. -/
def messages : List MailboxMessage := p.socket.filterMap ServerValue.mail

def client : RendezvousClient := ⟨p.sideId, p.nameplate, [], [], p.socket, p.commands⟩

/-- The two PAKE messages. -/
def exchange : ClientM MailboxMessage := do
  pump p.waits
  let outbound := PasswordExchange.outbound (utf8 p.code) (utf8 wormholeAppId) p.secret
  addMessage "pake" (hexEncode (WormholeJson.encodePake T (hexEncode outbound)))
  nextPeerMessage

def establish : Except CoreError Unit × Wormhole :=
  let start := (⟨p.client, [], 0, 0, p.nonces, []⟩ : Wormhole).onClient p.exchange
  match start.1 >>= pakeKey (T := T) p.code p.secret with
  | .error e => (.error e, start.2)
  | .ok sharedKey =>
    let version := WormholeJson.encodeVersion T ⟨wormholeProtocolVersion, p.role⟩
    let sent := { start.2 with sharedKey := sharedKey }.sendPhaseMessage "version" (some version)
    match sent.1 with
    | .error e => (.error e, sent.2)
    | .ok () =>
      let received := sent.2.receivePhaseMessage "version"
      (received.1 >>= checkVersion (T := T) p.role, received.2)

end Party

def runCalls : List (PhaseCall T) → Wormhole → List (PhaseResult T) × Wormhole
  | [], w => ([], w)
  | .send value :: calls, w =>
    let sent := w.send value
    let rest := runCalls calls sent.2
    (.sent sent.1 :: rest.1, rest.2)
  | .receive :: calls, w =>
    let received := w.receive
    let rest := runCalls calls received.2
    (.received received.1 :: rest.1, rest.2)

namespace Party

variable (p : Party T)

def run : List (PhaseResult T) × Wormhole :=
  match p.establish.1 with
  | .error _ => ([], p.establish.2)
  | .ok () => runCalls p.calls p.establish.2

def sharedKey : Bytes := p.run.2.sharedKey

/-- What the party has encrypted. -/
def sealed : List Sealed := p.run.2.sealed

/-- The values of its calls of `send`. -/
def values : List T := p.calls.filterMap PhaseCall.value

/-- The results of its calls of `receive`. -/
def received : List (Except CoreError (T × Sealed)) := p.run.1.filterMap PhaseResult.message

end Party

/-! What a session has encrypted, and what it accepts. -/

/-- A ciphertext of a session: of its version, or of one of the values it was given to send, in the
phase that has the number of the value. -/
def SealedPhase (sharedKey : Bytes) (side : String) (values : List T) (s : Sealed) : Prop :=
  s.Valid ∧ ∃ phase, s.key = derivePhaseKey sharedKey side phase ∧
    (phase = "version" ∨ ∃ (i : Nat) (value : T), values[i]? = some value ∧ phase = toString i ∧
      WormholeJson.encode value = some s.plaintext)

theorem SealedPhase.mono {sharedKey : Bytes} {side : String} {values : List T} {s : Sealed}
    (h : SealedPhase sharedKey side values s) (more : List T) :
    SealedPhase sharedKey side (values ++ more) s := by
  obtain ⟨hvalid, phase, hkey, hphase⟩ := h
  refine ⟨hvalid, phase, hkey, hphase.imp_right ?_⟩
  rintro ⟨i, value, hi, hname, hplain⟩
  have hlt := (List.getElem?_eq_some_iff.mp hi).1
  exact ⟨i, value, by rwa [List.getElem?_append_left hlt], hname, hplain⟩

/-- A message of another side that has been opened, in a phase. -/
def OpenedPhase (sharedKey : Bytes) (side : String) (socket : List (Except CoreError ServerValue))
    (phase : String) (s : Sealed) : Prop :=
  ∃ m, Foreign side socket m ∧ m.phase = phase ∧ s.key = derivePhaseKey sharedKey m.side m.phase ∧
    hexDecode m.body = some (s.nonce ++ s.ciphertext) ∧ s.nonce.length = 24 ∧
    SecretBox.decrypt s.key s.nonce s.ciphertext = some s.plaintext

variable {side : String} {socket : List (Except CoreError ServerValue)} {sharedKey : Bytes}

theorem openMessage_ok {phase : String} {m : MailboxMessage} {s : Sealed} (hm : Foreign side socket m)
    (h : openMessage sharedKey phase m = .ok s) : OpenedPhase sharedKey side socket phase s := by
  rw [openMessage] at h
  obtain ⟨hphase, h⟩ := ensure_bind.mp h
  cases hbody : hexDecode m.body with
  | none =>
    rw [hbody] at h
    cases h
  | some envelope =>
    rw [hbody] at h
    obtain ⟨hlength, h⟩ := ensure_bind.mp h
    simp only at h
    split at h
    · cases h
    · next plaintext hopen =>
      obtain rfl := Except.ok.inj h
      have hlong := of_decide_eq_true hlength
      have hbytes : envelope = envelope.take 24 ++ envelope.drop 24 := (List.take_append_drop 24 envelope).symm
      refine ⟨m, hm, by simpa using hphase, rfl, hbytes ▸ hbody, ?_, hopen⟩
      rw [List.length_take]
      omega

namespace Wormhole

variable {w : Wormhole}

/-- A session between two of its steps, with the values that it was given to send and the number of
messages that it was asked for. -/
structure Sound (side : String) (socket : List (Except CoreError ServerValue)) (sharedKey : Bytes)
    (values : List T) (asked : Nat) (w : Wormhole) : Prop where
  rendezvous : Faithful side socket w.rendezvous
  key : w.sharedKey = sharedKey
  sealed : ∀ s ∈ w.sealed, SealedPhase sharedKey side values s
  sendPhase : w.sendPhase = min values.length u32Max
  receivePhase : w.receivePhase = min asked u32Max

variable {values : List T} {asked : Nat}

theorem Sound.onClient {α : Type} {Q : α → Prop} {x : ClientM α} (hx : Keeps (Faithful side socket) Q x)
    (h : w.Sound side socket sharedKey values asked) :
    (w.onClient x).2.Sound side socket sharedKey values asked ∧ ∀ a, (w.onClient x).1 = .ok a → Q a := by
  have hkept := hx w.rendezvous h.rendezvous
  exact ⟨⟨hkept.1, h.key, h.sealed, h.sendPhase, h.receivePhase⟩, hkept.2⟩

/-- A step of sending: its phase is that of the version, or it sends one of the values under the
value's number. -/
theorem Sound.sendPhaseMessage (h : w.Sound side socket sharedKey values asked) (phase : String)
    (plaintext : Option Bytes)
    (hphase : ∀ bytes, plaintext = some bytes → phase = "version" ∨ ∃ (i : Nat) (value : T),
      values[i]? = some value ∧ phase = toString i ∧ WormholeJson.encode value = some bytes) :
    (w.sendPhaseMessage phase plaintext).2.Sound side socket sharedKey values asked := by
  cases plaintext with
  | none => exact h
  | some bytes =>
    rw [Wormhole.sendPhaseMessage]
    simp only
    cases hc : SecretBox.encrypt (derivePhaseKey w.sharedKey w.rendezvous.sideId phase)
        (w.nonces.headD (List.replicate 24 0)) bytes with
    | none => exact ⟨h.rendezvous, h.key, h.sealed, h.sendPhase, h.receivePhase⟩
    | some ciphertext =>
      refine (Sound.onClient (keeps_addMessage _ _) ?_).1
      refine ⟨h.rendezvous, h.key, fun s hs => ?_, h.sendPhase, h.receivePhase⟩
      rcases List.mem_append.mp hs with hs | hs
      · exact h.sealed s hs
      · obtain rfl := List.mem_singleton.mp hs
        exact ⟨hc, phase, by rw [h.key, h.rendezvous.own], hphase bytes rfl⟩

theorem Sound.receivePhaseMessage (h : w.Sound side socket sharedKey values asked) (phase : String) :
    (w.receivePhaseMessage phase).2.Sound side socket sharedKey values asked ∧
      ∀ s, (w.receivePhaseMessage phase).1 = .ok s → OpenedPhase sharedKey side socket phase s := by
  have hnext := h.onClient keeps_nextPeerMessage
  refine ⟨hnext.1, fun s hs => ?_⟩
  obtain ⟨m, hm, hopen⟩ := bind_eq_ok.mp hs
  rw [h.key] at hopen
  exact openMessage_ok (hnext.2 m hm) hopen

theorem Sound.send (h : w.Sound side socket sharedKey values asked) (value : T) :
    (w.send value).2.Sound side socket sharedKey (values ++ [value]) asked := by
  have hlength : (values ++ [value]).length = values.length + 1 := List.length_append
  rw [Wormhole.send]
  by_cases hmax : w.sendPhase = u32Max
  · rw [if_pos hmax]
    refine ⟨h.rendezvous, h.key, fun s hs => (h.sealed s hs).mono _, ?_, h.receivePhase⟩
    have hphase := h.sendPhase
    simp only
    omega
  · rw [if_neg hmax]
    have hphase : w.sendPhase = values.length := by
      have hphase := h.sendPhase
      omega
    have hnext : ({ w with sendPhase := w.sendPhase + 1 } : Wormhole).Sound side socket sharedKey
        (values ++ [value]) asked := by
      refine ⟨h.rendezvous, h.key, fun s hs => (h.sealed s hs).mono _, ?_, h.receivePhase⟩
      have hbound := h.sendPhase
      simp only
      omega
    refine hnext.sendPhaseMessage (toString w.sendPhase) _ fun bytes hbytes =>
      .inr ⟨values.length, value, ?_, ?_, hbytes⟩
    · exact List.getElem?_concat_length
    · rw [hphase]

theorem Sound.receive (h : w.Sound side socket sharedKey values asked) :
    (w.receive (T := T)).2.Sound side socket sharedKey values (asked + 1) ∧
      ∀ value s, (w.receive (T := T)).1 = .ok (value, s) →
        OpenedPhase sharedKey side socket (toString asked) s ∧ WormholeJson.decode s.plaintext = some value := by
  rw [Wormhole.receive]
  by_cases hmax : w.receivePhase = u32Max
  · rw [if_pos hmax]
    refine ⟨⟨h.rendezvous, h.key, h.sealed, h.sendPhase, ?_⟩, fun value s hs => by cases hs⟩
    have hphase := h.receivePhase
    simp only
    omega
  · rw [if_neg hmax]
    have hphase : w.receivePhase = asked := by
      have hphase := h.receivePhase
      omega
    have hnext : ({ w with receivePhase := w.receivePhase + 1 } : Wormhole).Sound side socket sharedKey values
        (asked + 1) := by
      refine ⟨h.rendezvous, h.key, h.sealed, h.sendPhase, ?_⟩
      have hbound := h.receivePhase
      simp only
      omega
    obtain ⟨hsound, hopened⟩ := hnext.receivePhaseMessage (toString w.receivePhase)
    refine ⟨hsound, fun value s hs => ?_⟩
    obtain ⟨opened, hopen, hread⟩ := bind_eq_ok.mp hs
    rw [readValue] at hread
    cases hd : WormholeJson.decode (T := T) opened.plaintext with
    | none =>
      rw [hd] at hread
      cases hread
    | some decoded =>
      rw [hd] at hread
      obtain ⟨rfl, rfl⟩ := Prod.mk.inj (Except.ok.inj hread)
      exact ⟨hphase ▸ hopened opened hopen, hd⟩

end Wormhole

open Wormhole in
/-- The calls of a session, from any step of it on. -/
theorem runCalls_sound (calls : List (PhaseCall T)) {w : Wormhole} {values : List T} {asked : Nat}
    (h : w.Sound side socket sharedKey values asked) :
    (∃ asked', (runCalls calls w).2.Sound side socket sharedKey
        (values ++ calls.filterMap PhaseCall.value) asked') ∧
      ∀ k value s, ((runCalls calls w).1.filterMap PhaseResult.message)[k]? = some (.ok (value, s)) →
        OpenedPhase sharedKey side socket (toString (asked + k)) s ∧
          WormholeJson.decode s.plaintext = some value := by
  induction calls generalizing w values asked with
  | nil =>
    refine ⟨⟨asked, ?_⟩, fun k value s hk => by cases hk⟩
    rw [List.filterMap_nil, List.append_nil]
    exact h
  | cons call calls ih =>
    cases call with
    | send value =>
      obtain ⟨⟨asked', hsound⟩, hreceived⟩ := ih (h.send value)
      rw [List.append_assoc] at hsound
      exact ⟨⟨asked', hsound⟩, hreceived⟩
    | receive =>
      obtain ⟨hnext, hopened⟩ := h.receive
      obtain ⟨hsound, hreceived⟩ := ih hnext
      refine ⟨hsound, fun k value s hk => ?_⟩
      cases k with
      | zero => exact hopened value s (Option.some.inj hk)
      | succ k =>
        have hlater := hreceived k value s hk
        rwa [Nat.add_assoc, Nat.add_comm 1 k] at hlater

theorem keeps_pump (n : Nat) : Keeps (Faithful side socket) (fun _ => True) (pump n) := by
  induction n with
  | zero => exact keeps_pure trivial
  | succ n ih =>
    exact keeps_bind keeps_readSocketValue fun value hvalue =>
      keeps_bind (keeps_dispatch hvalue) fun _ _ => ih

namespace Party

variable {p : Party T}

theorem keeps_exchange : Keeps (Faithful side socket) (Foreign side socket) p.exchange :=
  keeps_bind (keeps_pump _) fun _ _ => keeps_bind (keeps_addMessage _ _) fun _ _ => keeps_nextPeerMessage

theorem establish_sound (p : Party T) :
    p.establish.2.Sound p.sideId p.socket p.establish.2.sharedKey ([] : List T) 0 := by
  have hclient : Faithful p.sideId p.socket p.client :=
    ⟨rfl, fun m hm => (by cases hm), List.Subset.refl _⟩
  have hstart : (⟨p.client, [], 0, 0, p.nonces, []⟩ : Wormhole).Sound p.sideId p.socket [] ([] : List T) 0 :=
    ⟨hclient, rfl, fun s hs => (by cases hs), rfl, rfl⟩
  have hexchanged := (hstart.onClient p.keeps_exchange).1
  rw [establish]
  simp only
  cases hkey : ((⟨p.client, [], 0, 0, p.nonces, []⟩ : Wormhole).onClient p.exchange).1 >>=
      pakeKey (T := T) p.code p.secret with
  | error e => exact hexchanged
  | ok sharedKey =>
    have hkeyed : ({ ((⟨p.client, [], 0, 0, p.nonces, []⟩ : Wormhole).onClient p.exchange).2 with
        sharedKey := sharedKey } : Wormhole).Sound p.sideId p.socket sharedKey ([] : List T) 0 :=
      ⟨hexchanged.rendezvous, rfl, fun s hs => (by cases hs), rfl, rfl⟩
    have hsent := hkeyed.sendPhaseMessage "version"
      (some (WormholeJson.encodeVersion T ⟨wormholeProtocolVersion, p.role⟩)) fun _ _ => .inl rfl
    simp only
    split
    · exact hsent.key.symm ▸ hsent
    · have hreceived := (hsent.receivePhaseMessage "version").1
      exact hreceived.key.symm ▸ hreceived

/-- What a party has encrypted, and what it has accepted in its calls. -/
theorem run_sound (p : Party T) :
    (∀ s ∈ p.sealed, SealedPhase p.sharedKey p.sideId p.values s) ∧
      ∀ (k : Nat) (value : T) (s : Sealed), p.received[k]? = some (.ok (value, s)) →
        OpenedPhase p.sharedKey p.sideId p.socket (toString k) s ∧
          WormholeJson.decode s.plaintext = some value := by
  have hestablished := p.establish_sound
  rw [sealed, sharedKey]
  simp only [received]
  rw [run]
  cases hresult : p.establish.1 with
  | error e =>
    refine ⟨fun s hs => (hestablished.sealed s hs).mono p.values, fun k value s hk => ?_⟩
    cases hk
  | ok u =>
    obtain ⟨⟨asked', hsound⟩, hreceived⟩ := runCalls_sound p.calls hestablished
    simp only [Nat.zero_add] at hreceived
    rw [List.nil_append] at hsound
    simp only
    rw [hsound.key]
    exact ⟨hsound.sealed, hreceived⟩

/-- The phases that a party may encrypt. -/
def phases (p : Party T) : List String := "version" :: (List.range p.values.length).map toString

/-- The messages that come to the party hold no forgeries: what opens has been encrypted by one of
the two. -/
def Authentic (a b : Party T) : Prop :=
  ∀ m ∈ a.messages, ∀ nonce ciphertext, hexDecode m.body = some (nonce ++ ciphertext) →
    nonce.length = 24 → Unforged (a.sealed ++ b.sealed) (derivePhaseKey a.sharedKey m.side m.phase) nonce ciphertext

/-- The key of a phase of `p` is that of a message to `a` only if they are derived from the same. -/
def KeysApart (a p : Party T) : Prop :=
  ∀ m ∈ a.messages, ∀ phase ∈ p.phases,
    derivePhaseKey p.sharedKey p.sideId phase = derivePhaseKey a.sharedKey m.side m.phase →
      p.sharedKey = a.sharedKey ∧ p.sideId = m.side ∧ phase = m.phase

theorem mem_messages {m : MailboxMessage} (h : Foreign side p.socket m) : m ∈ p.messages :=
  List.mem_filterMap.mpr ⟨_, h.2, rfl⟩

theorem sealed_phase {p : Party T} {s : Sealed} (h : s ∈ p.sealed) :
    s.Valid ∧ ∃ phase ∈ p.phases, s.key = derivePhaseKey p.sharedKey p.sideId phase ∧
      (phase = "version" ∨ ∃ (i : Nat) (value : T), p.values[i]? = some value ∧ phase = toString i ∧
        WormholeJson.encode value = some s.plaintext) := by
  obtain ⟨hvalid, phase, hkey, hphase⟩ := p.run_sound.1 s h
  refine ⟨hvalid, phase, ?_, hkey, hphase⟩
  rcases hphase with rfl | ⟨i, value, hi, rfl, -⟩
  · exact List.mem_cons_self
  · have hlt := (List.getElem?_eq_some_iff.mp hi).1
    exact List.mem_cons_of_mem _ (List.mem_map_of_mem (List.mem_range.mpr hlt))

end Party

theorem toString_injective {i j : Nat} (h : toString i = toString j) : i = j := by
  have hdigits := congrArg String.toList h
  simp only [toString, Nat.repr, String.toList_ofList] at hdigits
  exact Json.toDigits_injective hdigits

theorem toString_ne_version (i : Nat) : toString i ≠ "version" := by
  intro h
  have hdigits := congrArg String.toList h
  simp only [toString, Nat.repr, String.toList_ofList] at hdigits
  have hv : 'v' ∈ Nat.toDigits 10 i := by rw [hdigits]; decide
  exact absurd (Json.digit_of_toDigits hv) (by decide)

/-- Whatever the mailbox delivers to a party, its `k`-th call of `receive` returns the `k`-th value that
the other party was given to send or fails, and the message is none of its own. -/
theorem phases_in_order (a b : Party T) (hideal : a.Authentic b) (hown : a.KeysApart a)
    (hother : a.KeysApart b) :
    ∀ (k : Nat) (value : T) (opened : Sealed), a.received[k]? = some (.ok (value, opened)) →
      b.values[k]? = some value ∧ opened ∈ b.sealed ∧ opened ∉ a.sealed := by
  intro k value opened hk
  obtain ⟨⟨m, hforeign, hphase, hkey, hbody, hnonce, hopen⟩, hdecode⟩ := a.run_sound.2 k value opened hk
  have hm := Party.mem_messages hforeign
  have hnot : opened ∉ a.sealed := by
    intro h
    obtain ⟨-, phase, hmem, hsealed, -⟩ := Party.sealed_phase h
    exact hforeign.1 (hown m hm phase hmem (hsealed.symm.trans hkey)).2.1.symm
  have hsealed : opened ∈ b.sealed := by
    have hunforged := hideal m hm opened.nonce opened.ciphertext hbody hnonce
    rw [← hkey] at hunforged
    have hmem := hunforged.opened (fun s hs => (List.mem_append.mp hs).elim
      (fun hs => (Party.sealed_phase hs).1) fun hs => (Party.sealed_phase hs).1) hopen
    exact (List.mem_append.mp hmem).resolve_left hnot
  obtain ⟨-, phase, hmem, hkeyed, hvalue⟩ := Party.sealed_phase hsealed
  have hsame := (hother m hm phase hmem (hkeyed.symm.trans hkey)).2.2.trans hphase
  rcases hvalue with rfl | ⟨i, sent, hi, rfl, hencode⟩
  · exact absurd hsame.symm (toString_ne_version k)
  · obtain rfl := toString_injective hsame
    have hread := WormholeJson.decode_encode hencode
    rw [hdecode] at hread
    obtain rfl := Option.some.inj hread
    exact ⟨hi, hsealed, hnot⟩

end Sessions

namespace Sample

def wormholeSide : WormholeRole → String
  | .sender => "aaaaaaaaaaaaaaaaaaaa"
  | .receiver => "bbbbbbbbbbbbbbbbbbbb"

/-- The PAKE messages of the two parties. -/
def wormholePake : WormholeRole → Bytes
  | .sender =>
    [83, 235, 143, 250, 162, 127, 125, 204, 235, 25, 19, 69, 125, 24, 250, 205, 18, 86, 200, 12,
     8, 209, 138, 50, 112, 132, 77, 149, 198, 70, 22, 58, 8]
  | .receiver =>
    [83, 115, 80, 204, 130, 93, 117, 75, 94, 155, 37, 128, 108, 33, 95, 198, 56, 118, 133, 33,
     31, 180, 26, 9, 158, 224, 56, 43, 102, 9, 171, 37, 170]

def wormholeKey : Bytes :=
  [136, 190, 247, 211, 124, 21, 137, 164, 0, 144, 21, 125, 24, 59, 14, 131, 212, 198, 57, 52,
   152, 181, 27, 115, 28, 62, 245, 222, 35, 201, 145, 65]

/-- The secrets are the exponents that the two parties have drawn. -/
abbrev wormholeExchange : PasswordExchange where
  Secret := Nat
  outbound _ _ secret := if secret = 5 then wormholePake .sender else if secret = 7 then wormholePake .receiver else []
  finish _ _ secret peer :=
    if secret = 5 ∧ peer = wormholePake .receiver ∨ secret = 7 ∧ peer = wormholePake .sender then some wormholeKey
    else none

def wormholeHashes : List (String × Bytes) :=
  [("aaaaaaaaaaaaaaaaaaaa",
      [66, 73, 45, 160, 98, 52, 173, 10, 199, 111, 93, 93, 235, 219, 109, 26, 224, 39, 207, 251,
       231, 70, 161, 193, 59, 137, 187, 139, 192, 19, 145, 55]),
    ("bbbbbbbbbbbbbbbbbbbb",
      [239, 190, 66, 98, 15, 249, 159, 89, 41, 166, 49, 109, 231, 103, 64, 163, 165, 90, 166, 65,
       246, 230, 149, 56, 200, 57, 149, 21, 105, 51, 215, 208]),
    ("pake",
      [104, 116, 115, 120, 135, 70, 254, 80, 102, 250, 212, 62, 15, 114, 122, 126, 20, 229, 210,
       220, 192, 119, 129, 37, 22, 167, 245, 5, 177, 144, 61, 191]),
    ("version",
      [92, 164, 243, 133, 12, 204, 51, 26, 175, 138, 37, 125, 96, 134, 229, 38, 163, 180, 42, 99,
       225, 140, 177, 29, 2, 8, 71, 152, 91, 49, 209, 136]),
    ("0",
      [95, 236, 235, 102, 255, 200, 111, 56, 217, 82, 120, 108, 109, 105, 108, 121, 194, 219,
       194, 57, 221, 78, 145, 180, 103, 41, 215, 58, 39, 251, 87, 233])]

abbrev wormholeHashing : Hashing where
  sha256 input := ((wormholeHashes.find? fun row => input = utf8 row.1).map Prod.snd).getD []

def phaseKeys : List (String × String × Bytes) :=
  [("aaaaaaaaaaaaaaaaaaaa", "pake",
      [11, 191, 204, 148, 238, 210, 150, 237, 87, 223, 44, 193, 232, 149, 124, 105, 208, 92, 8,
       9, 4, 181, 84, 197, 22, 59, 63, 195, 18, 44, 146, 42]),
    ("aaaaaaaaaaaaaaaaaaaa", "version",
      [101, 93, 28, 209, 43, 22, 193, 84, 254, 242, 26, 59, 128, 249, 31, 193, 58, 228, 37, 14,
       42, 156, 165, 5, 143, 162, 38, 237, 116, 224, 220, 217]),
    ("aaaaaaaaaaaaaaaaaaaa", "0",
      [67, 164, 175, 120, 86, 85, 160, 134, 42, 81, 58, 228, 18, 238, 57, 171, 111, 221, 162, 98,
       133, 241, 145, 126, 246, 240, 45, 42, 32, 249, 0, 34]),
    ("bbbbbbbbbbbbbbbbbbbb", "pake",
      [255, 140, 123, 105, 207, 24, 157, 127, 30, 40, 183, 227, 152, 33, 1, 136, 24, 2, 190, 222,
       154, 191, 90, 229, 4, 252, 138, 55, 96, 171, 207, 168]),
    ("bbbbbbbbbbbbbbbbbbbb", "version",
      [3, 170, 207, 62, 195, 3, 61, 48, 7, 30, 69, 241, 203, 102, 55, 101, 78, 108, 198, 116,
       255, 54, 231, 130, 39, 209, 77, 10, 247, 116, 132, 238]),
    ("bbbbbbbbbbbbbbbbbbbb", "0",
      [119, 123, 56, 190, 228, 18, 44, 138, 164, 136, 149, 158, 97, 132, 25, 121, 150, 44, 218,
       165, 202, 190, 132, 217, 103, 252, 127, 144, 188, 36, 174, 30])]

def phasePurpose (side phase : String) : Bytes :=
  utf8 "wormhole:phase:" ++ wormholeHashing.sha256 (utf8 side) ++ wormholeHashing.sha256 (utf8 phase)

abbrev phaseDerivation : KeyDerivation where
  hkdf input purpose :=
    ((phaseKeys.find? fun row => input = wormholeKey ∧ purpose = phasePurpose row.1 row.2.1).map
      fun row => row.2.2).getD []

def phaseKey (side phase : String) : Bytes :=
  ((phaseKeys.find? fun row => side = row.1 ∧ phase = row.2.1).map fun row => row.2.2).getD []

def versionText : WormholeRole → Bytes
  | .sender => utf8 "\x7b\"inkhole_v2\":\x7b\"protocol\":2,\"role\":\"sender\"\x7d\x7d"
  | .receiver => utf8 "\x7b\"inkhole_v2\":\x7b\"protocol\":2,\"role\":\"receiver\"\x7d\x7d"

def boolText : Bool → Bytes
  | true => utf8 "true"
  | false => utf8 "false"

/-- The ciphertext of the value that the sender sends. -/
def trueSealed : Sealed :=
  ⟨phaseKey "aaaaaaaaaaaaaaaaaaaa" "0", List.replicate 24 2, boolText true,
    [53, 146, 250, 117, 72, 230, 179, 250, 254, 81, 3, 16, 191, 188, 89, 235, 124, 161, 8, 218]⟩

def wormholeSealed : WormholeRole → List Sealed
  | .sender =>
    [⟨phaseKey "aaaaaaaaaaaaaaaaaaaa" "version", List.replicate 24 1, versionText .sender,
      [226, 155, 54, 220, 63, 79, 213, 18, 240, 222, 230, 233, 234, 194, 215, 142, 47, 149, 78,
       198, 239, 68, 4, 237, 91, 186, 99, 161, 33, 199, 140, 8, 148, 161, 221, 236, 228, 207, 153,
       64, 103, 204, 250, 209, 38, 228, 228, 53, 72, 155, 105, 113, 18, 186, 245, 253, 80, 73,
       186, 124, 233]⟩,
    trueSealed]
  | .receiver =>
    [⟨phaseKey "bbbbbbbbbbbbbbbbbbbb" "version", List.replicate 24 3, versionText .receiver,
      [101, 47, 70, 124, 169, 236, 104, 57, 132, 138, 66, 66, 206, 55, 172, 137, 105, 112, 200,
       223, 41, 16, 151, 144, 188, 40, 41, 184, 85, 8, 97, 229, 45, 36, 226, 48, 213, 213, 188,
       94, 214, 224, 250, 52, 171, 255, 39, 20, 132, 83, 227, 58, 168, 133, 4, 209, 84, 157, 40,
       207, 68, 41, 83]⟩,
    ⟨phaseKey "bbbbbbbbbbbbbbbbbbbb" "0", List.replicate 24 4, boolText false,
      [84, 133, 79, 79, 43, 247, 14, 234, 2, 228, 234, 51, 107, 25, 58, 86, 241, 150, 40, 12,
       117]⟩]

def wormholeTable : List Sealed := wormholeSealed .sender ++ wormholeSealed .receiver

theorem wormholeTable_table : Sealed.Table wormholeTable := ⟨by decide +kernel, by decide +kernel⟩

abbrev wormholeBox : SecretBox := SecretBox.ofTable wormholeTable wormholeTable_table

def pakeText (outbound : List Char) : Bytes :=
  utf8 "\x7b\"pake_v1\":\"" ++ outbound.map (fun c => UInt8.ofNat c.toNat) ++ utf8 "\"\x7d"

abbrev boolJson : WormholeJson Bool where
  encode value := some (boolText value)
  decode bytes := if bytes = boolText true then some true else if bytes = boolText false then some false else none
  decode_encode {value bytes} h := by
    obtain rfl := Option.some.inj h
    cases value <;> decide +kernel
  encodePake := pakeText
  decodePake bytes :=
    some (some (((bytes.drop 12).take (bytes.length - 14)).map fun b => Char.ofNat b.toNat))
  encodeVersion version := versionText version.role
  decodeVersion bytes :=
    if bytes = versionText .sender then some ⟨2, .sender⟩
    else if bytes = versionText .receiver then some ⟨2, .receiver⟩ else none

def pakeMessage (role : WormholeRole) : MailboxMessage :=
  ⟨wormholeSide role, "pake", hexEncode (pakeText (hexEncode (wormholePake role)))⟩

def phaseMessages (role : WormholeRole) : List MailboxMessage :=
  (wormholeSealed role).zipWith (fun s phase => ⟨wormholeSide role, phase, hexEncode (s.nonce ++ s.ciphertext)⟩)
    ["version", "0"]

def ack (id : String) : Except CoreError ServerValue := .ok (.reply "ack" (some id))

def mail (m : MailboxMessage) : Except CoreError ServerValue := .ok (.message (some m))

/-- The server echoes a message of the party, and delivers those of the other one twice. -/
def wormholeSocket (role : WormholeRole) : List (Except CoreError ServerValue) :=
  [mail (pakeMessage role), ack "01", mail (pakeMessage role.opposite), ack "02",
    .ok (.reply "released" none), ack "03"] ++ (phaseMessages role.opposite).map mail ++
    [ack "04"] ++ (phaseMessages role.opposite).map mail

attribute [local instance] wormholeExchange wormholeHashing phaseDerivation wormholeBox boolJson

def wormholeSender : Party Bool where
  sideId := wormholeSide .sender
  code := "41-abandon-ability-able"
  role := .sender
  secret := (5 : Nat)
  nonces := [List.replicate 24 1, List.replicate 24 2]
  nameplate := some "41"
  commands := [("01", none), ("02", none), ("03", none), ("04", none)]
  socket := wormholeSocket .sender
  waits := 0
  calls := [.send true, .receive]

def wormholeReceiver : Party Bool where
  sideId := wormholeSide .receiver
  code := "41-abandon-ability-able"
  role := .receiver
  secret := (7 : Nat)
  nonces := [List.replicate 24 3, List.replicate 24 4]
  nameplate := some "41"
  commands := [("01", none), ("02", none), ("03", none), ("04", none)]
  socket := wormholeSocket .receiver
  waits := 0
  calls := [.receive, .send false, .receive]

end Sample

attribute [local instance] Sample.wormholeExchange Sample.wormholeHashing Sample.phaseDerivation Sample.wormholeBox
  Sample.boolJson

/-- The receiver gets the value that was sent to it, though the server says everything twice. -/
theorem phases_in_order_sample :
    Sample.wormholeReceiver.received[0]? = some (.ok (true, Sample.trueSealed)) ∧
      Sample.wormholeSender.values[0]? = some true ∧ Sample.trueSealed ∉ Sample.wormholeReceiver.sealed := by
  have hreceived : Sample.wormholeReceiver.received[0]? = some (.ok (true, Sample.trueSealed)) := by
    decide +kernel
  have hsealed : Sample.wormholeTable ⊆ Sample.wormholeReceiver.sealed ++ Sample.wormholeSender.sealed := by
    decide +kernel
  have hideal : Sample.wormholeReceiver.Authentic Sample.wormholeSender := fun _ _ _ _ _ _ =>
    unforged_ofTable Sample.wormholeTable_table hsealed _ _ _
  have hown : Sample.wormholeReceiver.KeysApart Sample.wormholeReceiver := by
    unfold Party.KeysApart
    decide +kernel
  have hother : Sample.wormholeReceiver.KeysApart Sample.wormholeSender := by
    unfold Party.KeysApart
    decide +kernel
  have horder := phases_in_order Sample.wormholeReceiver Sample.wormholeSender hideal hown hother 0 true
    Sample.trueSealed hreceived
  exact ⟨hreceived, horder.1, horder.2.2⟩

end InkHole
