import InkHole.Authentication
import InkHole.Pairings
import InkHole.RelayFrames
import InkHole.Secrets

/-! The exchange of a pairing: two devices that share a code tell each other who they are. -/

set_option linter.unusedSectionVars false

namespace InkHole

def pairingAppId : String := "com.rexvane.inkhole/ssh-pair-v2"
def pairCodeWords : Nat := 4
def pairNonceBytes : Nat := 24

inductive PairRole where
  | creator
  | joiner
  deriving DecidableEq, Repr

def PairRole.opposite : PairRole → PairRole
  | creator => joiner
  | joiner => creator

structure CipherFrame where
  nonce : List Char
  ciphertext : List Char
  deriving DecidableEq, Repr

structure PairPayload where
  role : PairRole
  identity : PairingIdentity
  deriving DecidableEq, Repr

/-- The JSON text of the frames. What was written of a payload is read back. -/
class PairJson where
  encodePake : List Char → Option Bytes
  decodePake : Bytes → Option (List Char)
  encodeCipher : CipherFrame → Option Bytes
  decodeCipher : Bytes → Option CipherFrame
  encodePayload : PairPayload → Option Bytes
  decodePayload : Bytes → Option PairPayload
  decode_encode : ∀ {payload bytes}, encodePayload payload = some bytes → decodePayload bytes = some payload

/-- The words that codes are made of (the English list of BIP 39). -/
class WordList where
  words : List String

/-- A number in digits, with a plus sign in front at most. -/
def parseU16 (cs : List Char) : Option Nat :=
  let digits := if cs.head? = some '+' then cs.tail else cs
  let value := digits.foldl (fun n c => n * 10 + (c.toNat - 48)) 0
  if digits ≠ [] ∧ digits.all Char.isDigit ∧ value < 2 ^ 16 then some value else none

def normalizePairCode [WordList] (raw : String) : Except CoreError String := do
  let code := toAsciiLowercase (trim raw)
  let parts := code.toList.splitOn '-'
  let suffix := parts.tail
  ensure (parts.length == pairCodeWords + 1 && (parseU16 (parts.headD [])).any (· != 0) &&
      suffix.all (fun word => !word.isEmpty && word.all Char.isLower &&
        WordList.words.contains (String.ofList word)) &&
      2 ≤ suffix.dedup.length)
    (.invalidRequest "SSH pairing code is invalid")
  return code

section Exchange

variable [PasswordExchange] [KeyDerivation]

/-- A side of the password exchange: the code, what the side has drawn, and the message it was given. -/
structure PakeSide where
  code : String
  secret : PasswordExchange.Secret
  peer : Bytes

instance [DecidableEq PasswordExchange.Secret] : DecidableEq PakeSide := fun a b =>
  decidable_of_iff (a.code = b.code ∧ a.secret = b.secret ∧ a.peer = b.peer) (by cases a; cases b; simp)

namespace PakeSide

variable (a : PakeSide)

def outbound : Bytes := PasswordExchange.outbound (utf8 a.code) (utf8 pairingAppId) a.secret

def controlKey : Except CoreError Bytes :=
  match PasswordExchange.finish (utf8 a.code) (utf8 pairingAppId) a.secret a.peer with
  | none => .error (.crypto "SSH pairing SPAKE2 failed")
  | some shared => .ok (deriveKey shared (utf8 "inkhole/ssh-pair-v2/control"))

end PakeSide

inductive PairPoint where
  | writePake
  | readPake
  | writePayload
  | readPayload
  deriving DecidableEq, Repr

/-- What a device brings to an exchange: what it is called with, what it draws, what interrupts it,
and what it receives. -/
structure PairSession where
  code : String
  creator : Bool
  identity : PairingIdentity
  secret : PasswordExchange.Secret
  nonce : Bytes
  cancelled : PairPoint → Bool
  failure : PairPoint → Option IoError
  stream : Incoming

/-- Where a session stands when it has encrypted its identity. -/
structure PairHandshake where
  side : PakeSide
  key : Bytes
  outbound : Sealed
  rest : Incoming

instance [DecidableEq PasswordExchange.Secret] : DecidableEq PairHandshake := fun a b =>
  decidable_of_iff (a.side = b.side ∧ a.key = b.key ∧ a.outbound = b.outbound ∧ a.rest = b.rest)
    (by cases a; cases b; simp)

variable [Externals] [SecretBox] [PairJson] [WordList]

def encryptPairPayload (key nonce : Bytes) (payload : PairPayload) : Except CoreError Sealed :=
  match PairJson.encodePayload payload with
  | none => .error .json
  | some plaintext =>
    match SecretBox.encrypt key nonce plaintext with
    | none => .error (.crypto "encrypt SSH pairing identity failed")
    | some ciphertext => .ok ⟨key, nonce, plaintext, ciphertext⟩

def Sealed.frame (s : Sealed) : CipherFrame := ⟨hexEncode s.nonce, hexEncode s.ciphertext⟩

/-- The nonce and the ciphertext. -/
def CipherFrame.parts (frame : CipherFrame) : Except CoreError (Bytes × Bytes) :=
  match hexDecode frame.nonce with
  | none => .error (.protocol "SSH pairing nonce is invalid")
  | some nonce => do
    ensure (nonce.length == pairNonceBytes) (.protocol "SSH pairing nonce is invalid")
    match hexDecode frame.ciphertext with
    | none => throw (.protocol "SSH pairing ciphertext is invalid")
    | some ciphertext => return (nonce, ciphertext)

def decryptPairPayload (key : Bytes) (frame : CipherFrame) : Except CoreError PairPayload := do
  let (nonce, ciphertext) ← frame.parts
  match SecretBox.decrypt key nonce ciphertext with
  | none => throw (.crypto "decrypt SSH pairing identity failed")
  | some plaintext =>
    match PairJson.decodePayload plaintext with
    | none => throw .json
    | some payload => return payload

namespace PairSession

variable (s : PairSession)

def role : PairRole := if s.creator then .creator else .joiner

def cancellableWrite (point : PairPoint) (payload : Option Bytes) : Except CoreError Bytes :=
  cancellable (s.cancelled point) (writeFrame (s.failure point) payload)

def cancellableRead {T : Type} (point : PairPoint) (decode : Bytes → Option T) (stream : Incoming) :
    Except CoreError (T × Incoming) :=
  cancellable (s.cancelled point) (readFrame decode stream)

def establishPairingKey (code : String) : Except CoreError (PakeSide × Bytes × Incoming) := do
  let outbound := PasswordExchange.outbound (utf8 code) (utf8 pairingAppId) s.secret
  let _ ← s.cancellableWrite .writePake (PairJson.encodePake (hexEncode outbound))
  let (frame, rest) ← s.cancellableRead .readPake PairJson.decodePake s.stream
  match hexDecode frame with
  | none => throw (.protocol "SSH pairing PAKE value is invalid")
  | some peer =>
    let side : PakeSide := ⟨code, s.secret, peer⟩
    let key ← side.controlKey
    return (side, key, rest)

def handshake : Except CoreError PairHandshake := do
  s.identity.validate
  let code ← normalizePairCode s.code
  let (side, key, rest) ← s.establishPairingKey code
  let outbound ← encryptPairPayload key s.nonce ⟨s.role, s.identity⟩
  return ⟨side, key, outbound, rest⟩

/-- The frames are exchanged: the one that has come, with the handshake. -/
def inbound : Except CoreError (PairHandshake × CipherFrame) := do
  let own ← s.handshake
  let _ ← s.cancellableWrite .writePayload (PairJson.encodeCipher own.outbound.frame)
  let (frame, _) ← s.cancellableRead .readPayload PairJson.decodeCipher own.rest
  return (own, frame)

def exchangePairing : Except CoreError PairingIdentity := do
  let (own, frame) ← s.inbound
  let peer ← decryptPairPayload own.key frame
  ensure (peer.role == s.role.opposite) (.protocol "SSH pairing role reflection detected")
  peer.identity.validate
  return peer.identity

end PairSession

/-! What the calls have done when they succeed. -/

theorem encryptPairPayload_ok {key nonce : Bytes} {payload : PairPayload} {sent : Sealed}
    (h : encryptPairPayload key nonce payload = .ok sent) :
    sent.key = key ∧ sent.Valid ∧ PairJson.encodePayload payload = some sent.plaintext := by
  rw [encryptPairPayload] at h
  cases hp : PairJson.encodePayload payload with
  | none =>
    rw [hp] at h
    cases h
  | some plaintext =>
    rw [hp] at h
    simp only at h
    cases hc : SecretBox.encrypt key nonce plaintext with
    | none =>
      rw [hc] at h
      cases h
    | some ciphertext =>
      rw [hc] at h
      obtain rfl := Except.ok.inj h
      exact ⟨rfl, hc, rfl⟩

theorem decryptPairPayload_ok {key : Bytes} {frame : CipherFrame} {payload : PairPayload}
    (h : decryptPairPayload key frame = .ok payload) :
    ∃ opened : Sealed, opened.key = key ∧ frame.parts = .ok (opened.nonce, opened.ciphertext) ∧
      SecretBox.decrypt key opened.nonce opened.ciphertext = some opened.plaintext ∧
      PairJson.decodePayload opened.plaintext = some payload := by
  obtain ⟨⟨nonce, ciphertext⟩, hparts, h⟩ := bind_eq_ok.mp h
  simp only at h
  cases hd : SecretBox.decrypt key nonce ciphertext with
  | none =>
    rw [hd] at h
    cases h
  | some plaintext =>
    rw [hd] at h
    simp only at h
    cases hp : PairJson.decodePayload plaintext with
    | none =>
      rw [hp] at h
      cases h
    | some value =>
      rw [hp] at h
      obtain rfl := Except.ok.inj h
      exact ⟨⟨key, nonce, plaintext, ciphertext⟩, rfl, hparts, hd, hp⟩

namespace PairSession

variable {s : PairSession} {own : PairHandshake}

theorem establishPairingKey_ok {code : String} {side : PakeSide} {key : Bytes} {rest : Incoming}
    (h : s.establishPairingKey code = .ok (side, key, rest)) :
    side.code = code ∧ side.controlKey = .ok key := by
  obtain ⟨_, -, h⟩ := bind_eq_ok.mp h
  obtain ⟨⟨frame, rest'⟩, -, h⟩ := bind_eq_ok.mp h
  simp only at h
  cases hf : hexDecode frame with
  | none =>
    rw [hf] at h
    cases h
  | some peer =>
    rw [hf] at h
    obtain ⟨key', hkey, h⟩ := bind_eq_ok.mp h
    obtain ⟨rfl, hrest⟩ := Prod.mk.inj (Except.ok.inj h)
    obtain ⟨rfl, rfl⟩ := Prod.mk.inj hrest
    exact ⟨rfl, hkey⟩

/-- A session that has encrypted its identity: under the key of its side of the exchange, with its role. -/
theorem handshake_ok (h : s.handshake = .ok own) :
    normalizePairCode s.code = .ok own.side.code ∧ own.side.controlKey = .ok own.key ∧
      own.outbound.key = own.key ∧ own.outbound.Valid ∧
      PairJson.encodePayload ⟨s.role, s.identity⟩ = some own.outbound.plaintext := by
  obtain ⟨_, -, h⟩ := bind_eq_ok.mp h
  obtain ⟨code, hcode, h⟩ := bind_eq_ok.mp h
  obtain ⟨⟨side, key, rest⟩, hkey, h⟩ := bind_eq_ok.mp h
  obtain ⟨sent, hsent, h⟩ := bind_eq_ok.mp h
  obtain rfl := Except.ok.inj h
  obtain ⟨rfl, hside⟩ := establishPairingKey_ok hkey
  exact ⟨hcode, hside, encryptPairPayload_ok hsent⟩

theorem inbound_ok {frame : CipherFrame} (h : s.inbound = .ok (own, frame)) : s.handshake = .ok own := by
  obtain ⟨own', hown, h⟩ := bind_eq_ok.mp h
  obtain ⟨_, -, h⟩ := bind_eq_ok.mp h
  obtain ⟨_, -, h⟩ := bind_eq_ok.mp h
  obtain ⟨rfl, -⟩ := Prod.mk.inj (Except.ok.inj h)
  exact hown

/-- Its own frame opens to what the exchange has sent itself. -/
theorem decrypt_outbound {frame : CipherFrame} (h : s.handshake = .ok own)
    (hframe : frame.parts = .ok (own.outbound.nonce, own.outbound.ciphertext)) :
    decryptPairPayload own.key frame = .ok ⟨s.role, s.identity⟩ := by
  obtain ⟨-, -, hkey, hvalid, hencode⟩ := handshake_ok h
  have hopen := SecretBox.decrypt_encrypt hvalid
  rw [hkey] at hopen
  rw [decryptPairPayload, hframe]
  simp only [bind, Except.bind, hopen, PairJson.decode_encode hencode]
  rfl

theorem exchangePairing_ok {identity : PairingIdentity} (h : s.exchangePairing = .ok identity) :
    ∃ own frame, s.inbound = .ok (own, frame) ∧
      decryptPairPayload own.key frame = .ok ⟨s.role.opposite, identity⟩ := by
  obtain ⟨⟨own, frame⟩, hinbound, h⟩ := bind_eq_ok.mp h
  obtain ⟨⟨role, identity'⟩, hpayload, h⟩ := bind_eq_ok.mp h
  obtain ⟨hrole, h⟩ := ensure_bind.mp h
  obtain ⟨_, -, h⟩ := bind_eq_ok.mp h
  obtain rfl := Except.ok.inj h
  obtain rfl : role = s.role.opposite := by simpa using hrole
  exact ⟨own, frame, hinbound, hpayload⟩

end PairSession

/-! A run: any number of exchanges, and an attacker that delivers to them what it likes. -/

/-- The exchanges of the devices, the sides that the attacker plays itself, and what it has encrypted. -/
structure PairRun where
  sessions : List PairSession
  attacker : List PakeSide
  forged : List Sealed

namespace PairRun

variable (run : PairRun)

def handshakes : List PairHandshake := run.sessions.filterMap fun s => s.handshake.toOption

def sides : List PakeSide := run.handshakes.map PairHandshake.side ++ run.attacker

def sealed : List Sealed := run.handshakes.map PairHandshake.outbound ++ run.forged

/-- The cryptography is ideal. -/
structure Symbolic : Prop where
  /-- Two sides have the same key only with the same code and the same two messages. -/
  binding : ∀ a ∈ run.sides, ∀ b ∈ run.sides, ∀ key, a.controlKey = .ok key → b.controlKey = .ok key →
    a.code = b.code ∧ (a.outbound = b.outbound ∧ a.peer = b.peer ∨ a.outbound = b.peer ∧ a.peer = b.outbound)
  /-- Each exchange draws a secret of its own. -/
  fresh : ∀ s ∈ run.sessions, ∀ t ∈ run.sessions, ∀ own other, s.handshake = .ok own → t.handshake = .ok other →
    own.side.outbound = other.side.outbound → s = t
  /-- The attacker encrypts with a key that it has agreed on itself, or with one that nobody else has. -/
  forged : ∀ f ∈ run.forged, f.Valid ∧
    ((∃ a ∈ run.attacker, a.controlKey = .ok f.key) ∨ ∀ own ∈ run.handshakes, own.key ≠ f.key)
  /-- A frame that comes to an exchange opens only if it has been encrypted with the key. -/
  ideal : ∀ s ∈ run.sessions, ∀ own frame, s.inbound = .ok (own, frame) → ∀ nonce ciphertext,
    frame.parts = .ok (nonce, ciphertext) → Unforged run.sealed own.key nonce ciphertext

variable {run}

theorem mem_handshakes {own : PairHandshake} :
    own ∈ run.handshakes ↔ ∃ s ∈ run.sessions, s.handshake = .ok own := by
  rw [handshakes, List.mem_filterMap]
  constructor
  · rintro ⟨s, hs, h⟩
    cases hown : s.handshake with
    | error e =>
      rw [hown] at h
      cases h
    | ok other =>
      rw [hown] at h
      obtain rfl := Option.some.inj h
      exact ⟨s, hs, hown⟩
  · rintro ⟨s, hs, h⟩
    exact ⟨s, hs, by rw [h]; rfl⟩

theorem Symbolic.valid (h : run.Symbolic) : ∀ u ∈ run.sealed, u.Valid := by
  intro u hu
  rcases List.mem_append.mp hu with hu | hu
  · obtain ⟨own, hown, rfl⟩ := List.mem_map.mp hu
    obtain ⟨s, -, hs⟩ := mem_handshakes.mp hown
    exact (PairSession.handshake_ok hs).2.2.2.1
  · exact (h.forged u hu).1

/-- What is sealed under the key of an exchange, by one of the exchanges of its code or by an attacker
who has the code. -/
theorem Symbolic.sealed (h : run.Symbolic) {own : PairHandshake} (hown : own ∈ run.handshakes)
    (hkey : own.side.controlKey = .ok own.key) {u : Sealed} (hu : u ∈ run.sealed) (hsame : u.key = own.key) :
    (∃ t ∈ run.sessions, ∃ other, t.handshake = .ok other ∧ other.outbound = u) ∨
      ∃ a ∈ run.attacker, a.code = own.side.code := by
  rcases List.mem_append.mp hu with hu | hu
  · obtain ⟨other, hother, rfl⟩ := List.mem_map.mp hu
    obtain ⟨t, ht, hhandshake⟩ := mem_handshakes.mp hother
    exact .inl ⟨t, ht, other, hhandshake, rfl⟩
  · rcases (h.forged u hu).2 with ⟨a, ha, hagreed⟩ | hnobody
    · refine .inr ⟨a, ha, ?_⟩
      have hside : own.side ∈ run.sides := List.mem_append_left _ (List.mem_map_of_mem hown)
      exact (h.binding a (List.mem_append_right _ ha) own.side hside own.key (hsame ▸ hagreed) hkey).1
    · exact absurd hsame.symm (hnobody own hown)

theorem opposite_ne (role : PairRole) : role.opposite ≠ role := by cases role <;> decide

/-- An exchange that succeeds has another one on the other side. -/
theorem Symbolic.agreed (h : run.Symbolic) {s : PairSession} (hs : s ∈ run.sessions)
    (hwithout : ∀ a ∈ run.attacker, normalizePairCode s.code ≠ .ok a.code) {identity : PairingIdentity}
    (hresult : s.exchangePairing = .ok identity) :
    ∃ own frame, s.inbound = .ok (own, frame) ∧ ∃ t ∈ run.sessions, ∃ other, t.handshake = .ok other ∧
      t.role = s.role.opposite ∧ normalizePairCode t.code = normalizePairCode s.code ∧
      own.side.peer = other.side.outbound ∧ other.side.peer = own.side.outbound ∧
      frame.parts = .ok (other.outbound.nonce, other.outbound.ciphertext) ∧ identity = t.identity := by
  obtain ⟨own, frame, hinbound, hpayload⟩ := PairSession.exchangePairing_ok hresult
  have hhandshake := PairSession.inbound_ok hinbound
  obtain ⟨hcode, hkey, -, -, -⟩ := PairSession.handshake_ok hhandshake
  have hown : own ∈ run.handshakes := mem_handshakes.mpr ⟨s, hs, hhandshake⟩
  obtain ⟨opened, hopenkey, hparts, hopen, hdecode⟩ := decryptPairPayload_ok hpayload
  have hmem : opened ∈ run.sealed := by
    have hunforged := h.ideal s hs own frame hinbound opened.nonce opened.ciphertext hparts
    rw [← hopenkey] at hunforged hopen
    exact hunforged.opened h.valid hopen
  rcases h.sealed hown hkey hmem hopenkey with ⟨t, ht, other, hother, rfl⟩ | ⟨a, ha, hsame⟩
  · obtain ⟨htcode, htkey, hsealed, -, hencode⟩ := PairSession.handshake_ok hother
    have hread := PairJson.decode_encode hencode
    rw [hdecode] at hread
    obtain ⟨hrole, rfl⟩ := PairPayload.mk.inj (Option.some.inj hread)
    have hother' : other ∈ run.handshakes := mem_handshakes.mpr ⟨t, ht, hother⟩
    rw [← hsealed, hopenkey] at htkey
    obtain ⟨hcodes, hmessages⟩ := h.binding own.side (List.mem_append_left _ (List.mem_map_of_mem hown))
      other.side (List.mem_append_left _ (List.mem_map_of_mem hother')) own.key hkey htkey
    have hcross : own.side.outbound = other.side.peer ∧ own.side.peer = other.side.outbound := by
      refine hmessages.resolve_left fun hboth => ?_
      obtain rfl := h.fresh s hs t ht own other hhandshake hother hboth.1
      exact opposite_ne s.role hrole
    refine ⟨own, frame, hinbound, t, ht, other, hother, hrole.symm, ?_, hcross.2, hcross.1.symm, hparts, rfl⟩
    rw [hcode, htcode, hcodes]
  · exact absurd (hcode.trans (congrArg Except.ok hsame.symm)) (hwithout a ha)

end PairRun

/-- An exchange that succeeds has received the two frames of another one, in the opposite role and with
the same code, and returns the identity that this one has sent. -/
theorem pairing_agreement (run : PairRun) (hsymbolic : run.Symbolic) {s : PairSession} (hs : s ∈ run.sessions)
    (hwithout : ∀ a ∈ run.attacker, normalizePairCode s.code ≠ .ok a.code) :
    (∀ identity, s.exchangePairing = .ok identity →
      ∃ own frame, s.inbound = .ok (own, frame) ∧ ∃ t ∈ run.sessions, ∃ other, t.handshake = .ok other ∧
        t.role = s.role.opposite ∧ normalizePairCode t.code = normalizePairCode s.code ∧
        own.side.peer = other.side.outbound ∧ other.side.peer = own.side.outbound ∧
        frame.parts = .ok (other.outbound.nonce, other.outbound.ciphertext) ∧ identity = t.identity) ∧
      ∀ own frame, s.inbound = .ok (own, frame) →
        own.side.peer = own.side.outbound ∨
          frame.parts = .ok (own.outbound.nonce, own.outbound.ciphertext) →
        ∃ e, s.exchangePairing = .error e := by
  refine ⟨fun identity hresult => hsymbolic.agreed hs hwithout hresult, fun own frame hinbound hreflected => ?_⟩
  cases hresult : s.exchangePairing with
  | error e => exact ⟨e, rfl⟩
  | ok identity =>
    have hhandshake := PairSession.inbound_ok hinbound
    obtain ⟨own', frame', hinbound', t, ht, other, hother, hrole, -, hpeer, -, -, -⟩ :=
      hsymbolic.agreed hs hwithout hresult
    obtain ⟨rfl, rfl⟩ := Prod.mk.inj (Except.ok.inj (hinbound.symm.trans hinbound'))
    rcases hreflected with hpake | hcipher
    · obtain rfl := hsymbolic.fresh s hs t ht own other hhandshake hother (hpake.symm.trans hpeer)
      exact absurd hrole.symm (PairRun.opposite_ne s.role)
    · obtain ⟨own', frame', hinbound', hpayload⟩ := PairSession.exchangePairing_ok hresult
      obtain ⟨rfl, rfl⟩ := Prod.mk.inj (Except.ok.inj (hinbound.symm.trans hinbound'))
      rw [PairSession.decrypt_outbound hhandshake hcipher] at hpayload
      exact absurd (PairPayload.mk.inj (Except.ok.inj hpayload)).1.symm (PairRun.opposite_ne s.role)

end Exchange

namespace Sample

def pairKey : PairRole → String
  | .creator => "iojj3XQJ8ZX9UtstPLpdcspnCb8dlBIb83SIAbQPb1w="
  | .joiner => "gTl3Dqh9F19Wo1Rmw0x+zMuNipG07jeiXfYPW4/Js5Q="

def pairKeyBytes : PairRole → Bytes
  | .creator =>
    [138, 136, 227, 221, 116, 9, 241, 149, 253, 82, 219, 45, 60, 186, 93, 114, 202, 103, 9, 191,
     29, 148, 18, 27, 243, 116, 136, 1, 180, 15, 111, 92]
  | .joiner =>
    [129, 57, 119, 14, 168, 125, 23, 95, 86, 163, 84, 102, 195, 76, 126, 204, 203, 141, 138, 145,
     180, 238, 55, 162, 93, 246, 15, 91, 143, 201, 179, 148]

/-- The public keys of the two devices. -/
@[reducible] def pairExternals : Externals where
  blake3Hex _ := ""
  offerJson _ := []
  manifestJson _ := []
  recordJson _ := []
  parseUuid _ := false
  base64Decode text :=
    if text = pairKey .creator then some (pairKeyBytes .creator)
    else if text = pairKey .joiner then some (pairKeyBytes .joiner) else none
  validVerifyingKey key := key = pairKeyBytes .creator ∨ key = pairKeyBytes .joiner
  verify _ _ _ := false
  nfc cs := cs
  toLowercase c := [c.toLower]
  parseUuid_chars _ h := nomatch h

abbrev pairWords : WordList := ⟨["abandon", "ability", "able", "about", "zoo"]⟩

def pairPake : PairRole → Bytes
  | .creator =>
    [83, 177, 151, 117, 129, 187, 115, 115, 147, 69, 112, 75, 131, 208, 133, 143, 63, 239, 214,
     250, 83, 243, 133, 98, 3, 218, 70, 48, 207, 89, 167, 159, 212]
  | .joiner =>
    [83, 50, 225, 227, 128, 124, 31, 119, 71, 145, 32, 108, 178, 38, 21, 117, 129, 28, 4, 79,
     218, 221, 212, 196, 236, 156, 202, 154, 169, 178, 11, 90, 77]

def guessedPake : Bytes :=
  [83, 236, 10, 177, 44, 175, 204, 241, 40, 56, 4, 212, 175, 93, 158, 100, 62, 254, 102, 86, 156,
   112, 76, 252, 12, 5, 51, 123, 5, 233, 93, 93, 147]

def pairShared : Bytes :=
  [233, 26, 111, 147, 185, 149, 64, 53, 206, 45, 249, 52, 210, 199, 140, 105, 121, 20, 151, 199,
   120, 231, 225, 133, 86, 107, 128, 166, 64, 187, 212, 230]

def guessedShared : Bytes :=
  [35, 208, 247, 207, 30, 80, 53, 115, 38, 30, 213, 56, 85, 21, 103, 100, 82, 192, 50, 62, 156,
   173, 199, 224, 213, 24, 237, 155, 113, 72, 66, 250]

def pairControl : Bytes :=
  [114, 174, 182, 254, 202, 131, 130, 179, 179, 42, 181, 15, 156, 211, 117, 250, 208, 106, 83,
   82, 6, 158, 174, 85, 87, 133, 14, 221, 158, 138, 67, 78]

def guessedControl : Bytes :=
  [153, 8, 31, 14, 142, 5, 23, 158, 248, 173, 193, 99, 97, 38, 232, 47, 101, 3, 214, 184, 163,
   103, 186, 192, 87, 12, 175, 77, 221, 249, 103, 240]

/-- The secrets are the exponents that have been drawn; the last one with another code. -/
abbrev pairPasswords : PasswordExchange where
  Secret := Nat
  outbound _ _ secret :=
    if secret = 5 then pairPake .creator else if secret = 7 then pairPake .joiner else guessedPake
  finish _ _ secret peer :=
    if secret = 5 ∧ peer = pairPake .joiner ∨ secret = 7 ∧ peer = pairPake .creator then some pairShared
    else if secret = 9 ∧ peer = pairPake .joiner then some guessedShared else none

abbrev pairDerivation : KeyDerivation where
  hkdf input _ := if input = pairShared then pairControl else if input = guessedShared then guessedControl else []

def pairIdentity : PairRole → PairingIdentity
  | .creator => ⟨"Creator", "aaaaaaaaaaaaaaaaaaaaaaaaaaaaaaaa", 32001, pairKey .creator⟩
  | .joiner => ⟨"Joiner", "bbbbbbbbbbbbbbbbbbbbbbbbbbbbbbbb", 32002, pairKey .joiner⟩

/-- The JSON text of the payloads. -/
def pairText : PairRole → Bytes
  | .creator =>
    [123, 34, 114, 111, 108, 101, 34, 58, 34, 99, 114, 101, 97, 116, 111, 114, 34, 44, 34, 105,
     100, 101, 110, 116, 105, 116, 121, 34, 58, 123, 34, 110, 97, 109, 101, 34, 58, 34, 67, 114,
     101, 97, 116, 111, 114, 34, 44, 34, 105, 110, 115, 116, 97, 110, 99, 101, 95, 105, 100, 34,
     58, 34, 97, 97, 97, 97, 97, 97, 97, 97, 97, 97, 97, 97, 97, 97, 97, 97, 97, 97, 97, 97, 97,
     97, 97, 97, 97, 97, 97, 97, 97, 97, 97, 97, 34, 44, 34, 114, 101, 109, 111, 116, 101, 95,
     112, 111, 114, 116, 34, 58, 51, 50, 48, 48, 49, 44, 34, 112, 117, 98, 108, 105, 99, 95, 107,
     101, 121, 34, 58, 34, 105, 111, 106, 106, 51, 88, 81, 74, 56, 90, 88, 57, 85, 116, 115, 116,
     80, 76, 112, 100, 99, 115, 112, 110, 67, 98, 56, 100, 108, 66, 73, 98, 56, 51, 83, 73, 65,
     98, 81, 80, 98, 49, 119, 61, 34, 125, 125]
  | .joiner =>
    [123, 34, 114, 111, 108, 101, 34, 58, 34, 106, 111, 105, 110, 101, 114, 34, 44, 34, 105, 100,
     101, 110, 116, 105, 116, 121, 34, 58, 123, 34, 110, 97, 109, 101, 34, 58, 34, 74, 111, 105,
     110, 101, 114, 34, 44, 34, 105, 110, 115, 116, 97, 110, 99, 101, 95, 105, 100, 34, 58, 34,
     98, 98, 98, 98, 98, 98, 98, 98, 98, 98, 98, 98, 98, 98, 98, 98, 98, 98, 98, 98, 98, 98, 98,
     98, 98, 98, 98, 98, 98, 98, 98, 98, 34, 44, 34, 114, 101, 109, 111, 116, 101, 95, 112, 111,
     114, 116, 34, 58, 51, 50, 48, 48, 50, 44, 34, 112, 117, 98, 108, 105, 99, 95, 107, 101, 121,
     34, 58, 34, 103, 84, 108, 51, 68, 113, 104, 57, 70, 49, 57, 87, 111, 49, 82, 109, 119, 48,
     120, 43, 122, 77, 117, 78, 105, 112, 71, 48, 55, 106, 101, 105, 88, 102, 89, 80, 87, 52, 47,
     74, 115, 53, 81, 61, 34, 125, 125]

def pairSealed : PairRole → Sealed
  | .creator => ⟨pairControl, List.replicate 24 1, pairText .creator,
      [12, 240, 133, 55, 110, 194, 124, 169, 195, 79, 248, 118, 147, 9, 83, 223, 182, 34, 52,
       179, 96, 111, 227, 168, 200, 47, 148, 170, 151, 161, 96, 3, 111, 27, 187, 188, 64, 218,
       106, 128, 148, 4, 254, 104, 105, 144, 109, 56, 124, 71, 103, 77, 11, 231, 65, 182, 15, 192,
       142, 43, 87, 207, 180, 34, 144, 5, 141, 107, 136, 243, 230, 185, 220, 109, 92, 31, 250, 61,
       64, 47, 143, 85, 51, 29, 42, 186, 122, 135, 183, 42, 230, 94, 163, 197, 59, 125, 187, 207,
       217, 66, 209, 112, 197, 17, 190, 35, 10, 98, 113, 128, 53, 163, 8, 86, 65, 26, 170, 39, 80,
       172, 85, 243, 14, 35, 56, 255, 165, 81, 190, 175, 147, 245, 211, 21, 104, 180, 219, 100,
       50, 0, 154, 143, 10, 92, 3, 176, 182, 49, 139, 36, 50, 64, 114, 117, 111, 44, 17, 215, 177,
       81, 188, 219, 127, 157, 38, 104, 150, 230, 184, 240, 122, 192, 160, 247, 82, 219, 137, 244,
       126, 165, 167, 69, 167, 31, 245, 133, 124, 6, 244, 106, 185, 166, 188]⟩
  | .joiner => ⟨pairControl, List.replicate 24 2, pairText .joiner,
      [63, 138, 74, 231, 84, 237, 54, 32, 186, 29, 177, 110, 137, 190, 249, 81, 87, 44, 158, 32,
       139, 238, 106, 108, 156, 116, 133, 145, 231, 68, 222, 209, 21, 195, 123, 245, 231, 11, 76,
       7, 22, 48, 137, 138, 49, 42, 166, 107, 226, 192, 66, 232, 181, 84, 254, 8, 127, 217, 27,
       254, 158, 235, 200, 245, 183, 252, 111, 121, 206, 41, 22, 252, 124, 176, 199, 241, 45, 58,
       231, 148, 165, 172, 126, 88, 125, 56, 253, 238, 106, 225, 145, 195, 170, 7, 190, 180, 197,
       132, 170, 213, 217, 134, 221, 34, 141, 184, 120, 242, 155, 21, 2, 7, 186, 69, 66, 173, 77,
       36, 146, 143, 186, 185, 197, 178, 195, 114, 77, 60, 208, 53, 70, 14, 234, 216, 243, 22,
       253, 250, 218, 219, 199, 30, 255, 97, 15, 101, 46, 194, 68, 162, 74, 51, 232, 243, 65, 187,
       131, 192, 97, 25, 37, 251, 67, 57, 252, 214, 4, 33, 175, 12, 126, 238, 6, 94, 183, 58, 175,
       224, 5, 216, 104, 22, 175, 237, 120, 90, 232, 112, 105, 92, 40]⟩

def guessedSealed : Sealed :=
  ⟨guessedControl, List.replicate 24 3, [123, 125],
    [190, 44, 125, 196, 41, 30, 66, 154, 43, 138, 46, 225, 215, 243, 112, 20, 213, 135]⟩

def pairTable : List Sealed := [pairSealed .joiner, pairSealed .creator, guessedSealed]

theorem pairTable_table : Sealed.Table pairTable := ⟨by decide +kernel, by decide +kernel⟩

abbrev pairBox : SecretBox := SecretBox.ofTable pairTable pairTable_table

def asciiBytes (cs : List Char) : Bytes := cs.map fun c => UInt8.ofNat c.toNat

def asciiChars (bytes : Bytes) : List Char := bytes.map fun b => Char.ofNat b.toNat

abbrev pairJson : PairJson where
  encodePake outbound := some (utf8 "\x7b\"pake\":\"" ++ asciiBytes outbound ++ utf8 "\"\x7d")
  decodePake bytes := some (asciiChars ((bytes.drop 9).take (bytes.length - 11)))
  encodeCipher frame := some (utf8 "\x7b\"nonce\":\"" ++ asciiBytes frame.nonce ++ utf8 "\",\"ciphertext\":\"" ++
    asciiBytes frame.ciphertext ++ utf8 "\"\x7d")
  decodeCipher bytes :=
    some ⟨asciiChars ((bytes.drop 10).take 48), asciiChars ((bytes.drop 74).take (bytes.length - 76))⟩
  encodePayload payload :=
    if payload = ⟨.creator, pairIdentity .creator⟩ then some (pairText .creator)
    else if payload = ⟨.joiner, pairIdentity .joiner⟩ then some (pairText .joiner) else none
  decodePayload bytes :=
    if bytes = pairText .creator then some ⟨.creator, pairIdentity .creator⟩
    else if bytes = pairText .joiner then some ⟨.joiner, pairIdentity .joiner⟩ else none
  decode_encode {payload bytes} h := by
    have hne : pairText .joiner ≠ pairText .creator := by decide +kernel
    split at h
    · next hp =>
      obtain rfl := Option.some.inj h
      rw [if_pos rfl, hp]
    · split at h
      · next hp =>
        obtain rfl := Option.some.inj h
        rw [if_neg hne, if_pos rfl, hp]
      · cases h

attribute [local instance] pairExternals pairWords pairPasswords pairDerivation pairBox pairJson

/-- The two frames of a device. -/
def pairFrames (role : PairRole) : Bytes :=
  ((PairJson.encodePake (hexEncode (pairPake role))).toList ++
    (PairJson.encodeCipher (pairSealed role).frame).toList).flatMap (Codes.framed 4)

def pairSecret : PairRole → Nat
  | .creator => 5
  | .joiner => 7

def pairSession (role : PairRole) : PairSession where
  code := "32001-abandon-ability-able-about"
  creator := role = .creator
  identity := pairIdentity role
  secret := pairSecret role
  nonce := (pairSealed role).nonce
  cancelled _ := false
  failure _ := none
  stream := ⟨pairFrames role.opposite, [], .finished⟩

/-- The attacker has met the joiner with a code of its own. -/
def pairRun : PairRun where
  sessions := [pairSession .joiner, pairSession .creator]
  attacker := [⟨"32001-abandon-ability-able-zoo", (9 : Nat), pairPake .joiner⟩]
  forged := [guessedSealed]

instance : DecidableEq pairPasswords.Secret := inferInstanceAs (DecidableEq Nat)

def pairHandshake (role : PairRole) : PairHandshake where
  side := ⟨"32001-abandon-ability-able-about", pairSecret role, pairPake role.opposite⟩
  key := pairControl
  outbound := pairSealed role
  rest := ⟨(PairJson.encodeCipher (pairSealed role.opposite).frame).toList.flatMap (Codes.framed 4), [], .finished⟩

theorem handshake_pairSession (role : PairRole) : (pairSession role).handshake = .ok (pairHandshake role) := by
  cases role <;> decide +kernel

theorem handshakes_pairRun : pairRun.handshakes = [pairHandshake .joiner, pairHandshake .creator] := by
  simp [PairRun.handshakes, pairRun, handshake_pairSession, Except.toOption]

theorem mem_pairRun {s : PairSession} (h : s ∈ pairRun.sessions) : ∃ role, s = pairSession role := by
  rcases List.mem_cons.mp h with rfl | h
  · exact ⟨.joiner, rfl⟩
  · exact ⟨.creator, List.mem_singleton.mp h⟩

theorem symbolic_pairRun : pairRun.Symbolic where
  binding := by
    have hall : ∀ a ∈ pairRun.sides, ∀ b ∈ pairRun.sides, a.controlKey = b.controlKey →
        a.code = b.code ∧
          (a.outbound = b.outbound ∧ a.peer = b.peer ∨ a.outbound = b.peer ∧ a.peer = b.outbound) := by
      rw [PairRun.sides, handshakes_pairRun]
      decide +kernel
    exact fun a ha b hb key hkey hkey' => hall a ha b hb (hkey.trans hkey'.symm)
  fresh := by
    intro s hs t ht own other hown hother hsame
    obtain ⟨r, rfl⟩ := mem_pairRun hs
    obtain ⟨q, rfl⟩ := mem_pairRun ht
    have hne : (pairHandshake r).side.outbound = (pairHandshake q).side.outbound → r = q := by
      cases r <;> cases q <;> decide +kernel
    rw [handshake_pairSession] at hown hother
    rw [← Except.ok.inj hown, ← Except.ok.inj hother] at hsame
    rw [hne hsame]
  forged := by
    intro f hf
    obtain rfl := List.mem_singleton.mp hf
    have hvalid : SecretBox.encrypt guessedSealed.key guessedSealed.nonce guessedSealed.plaintext =
        some guessedSealed.ciphertext := by decide +kernel
    exact ⟨hvalid, .inl ⟨_, List.mem_singleton_self _, by decide +kernel⟩⟩
  ideal := by
    have hsealed : pairTable ⊆ pairRun.sealed := by
      rw [PairRun.sealed, handshakes_pairRun]
      decide +kernel
    exact fun _ _ _ _ _ _ _ _ => unforged_ofTable pairTable_table hsealed _ _ _

end Sample

attribute [local instance] Sample.pairExternals Sample.pairWords Sample.pairPasswords Sample.pairDerivation
  Sample.pairBox Sample.pairJson

/-- The joiner returns the identity that the creator has sent. -/
theorem pairing_agreement_sample :
    (Sample.pairSession .joiner).exchangePairing = .ok (Sample.pairIdentity .creator) ∧
      ∃ t ∈ Sample.pairRun.sessions, t.role = .creator ∧ t.identity = Sample.pairIdentity .creator := by
  have hresult : (Sample.pairSession .joiner).exchangePairing = .ok (Sample.pairIdentity .creator) := by
    decide +kernel
  have hwithout : ∀ a ∈ Sample.pairRun.attacker,
      normalizePairCode (Sample.pairSession .joiner).code ≠ .ok a.code := by decide +kernel
  obtain ⟨_, _, -, t, ht, _, -, hrole, -, -, -, -, hidentity⟩ :=
    (pairing_agreement Sample.pairRun Sample.symbolic_pairRun List.mem_cons_self hwithout).1 _ hresult
  exact ⟨hresult, t, ht, hrole, hidentity.symm⟩

end InkHole
