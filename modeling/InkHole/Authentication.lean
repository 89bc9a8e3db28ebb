import InkHole.Json
import InkHole.Protocol

/-! Control requests are authenticated with a secret that both devices hold. -/

set_option linter.unusedSectionVars false

namespace InkHole

open Json

def hexEncode (bytes : Bytes) : List Char :=
  bytes.flatMap fun b => [hexDigit (b.toNat / 16), hexDigit (b.toNat % 16)]

def hexValue (c : Char) : Option Nat :=
  if '0' ≤ c ∧ c ≤ '9' then some (c.toNat - 48)
  else if 'a' ≤ c ∧ c ≤ 'f' then some (c.toNat - 87)
  else if 'A' ≤ c ∧ c ≤ 'F' then some (c.toNat - 55)
  else none

def hexDecode : List Char → Option Bytes
  | [] => some []
  | high :: low :: rest => do
    let h ← hexValue high
    let l ← hexValue low
    let bytes ← hexDecode rest
    return UInt8.ofNat (h * 16 + l) :: bytes
  | [_] => none

def validHexNonce (value : String) (bytes : Nat) : Bool :=
  value.utf8ByteSize == bytes * 2 && value.toList.all lowerHex

def constantTimeEq (left right : Bytes) : Bool :=
  (List.zip left right).foldl (fun difference b => difference ||| (b.1 ^^^ b.2)) (0 : UInt8) == 0

theorem hexValue_hexDigit : ∀ n < 16, hexValue (hexDigit n) = some n := by decide

theorem hexDecode_hexEncode (bytes : Bytes) : hexDecode (hexEncode bytes) = some bytes := by
  induction bytes with
  | nil => rfl
  | cons b bytes ih =>
    have hb := b.toNat_lt
    have hhigh := hexValue_hexDigit (b.toNat / 16) (by omega)
    have hlow := hexValue_hexDigit (b.toNat % 16) (by omega)
    have hsum : b.toNat / 16 * 16 + b.toNat % 16 = b.toNat := by omega
    simp only [hexEncode] at ih
    simp only [hexEncode, List.flatMap_cons, List.cons_append, List.nil_append, hexDecode, hhigh,
      hlow, ih, hsum, bind, Option.bind, pure, UInt8.ofNat_toNat]

theorem length_hexEncode (bytes : Bytes) : (hexEncode bytes).length = bytes.length * 2 := by
  induction bytes with
  | nil => rfl
  | cons b bytes ih =>
    rw [hexEncode] at ih ⊢
    rw [List.flatMap_cons, List.length_append, ih, List.length_cons]
    simp only [List.length_cons, List.length_nil]
    omega

theorem mem_hexEncode {bytes : Bytes} {c : Char} (h : c ∈ hexEncode bytes) : ∃ n < 16, c = hexDigit n := by
  obtain ⟨b, -, hc⟩ := List.mem_flatMap.mp h
  have hb := b.toNat_lt
  rcases List.mem_cons.mp hc with rfl | hc
  · exact ⟨b.toNat / 16, by omega, rfl⟩
  · exact ⟨b.toNat % 16, by omega, List.mem_singleton.mp hc⟩

/-- The nonces that are drawn are valid. -/
theorem validHexNonce_hexEncode (bytes : Bytes) :
    validHexNonce (String.ofList (hexEncode bytes)) bytes.length = true := by
  have hdigit : ∀ n < 16, (hexDigit n).val ≤ 127 ∧ lowerHex (hexDigit n) = true := by decide
  have hchars : ∀ c ∈ hexEncode bytes, c.val ≤ 127 ∧ lowerHex c = true := by
    intro c hc
    obtain ⟨n, hn, rfl⟩ := mem_hexEncode hc
    exact hdigit n hn
  have hsize := utf8ByteSize_ascii fun c hc => (hchars c hc).1
  rw [validHexNonce, hsize, length_hexEncode, String.toList_ofList, beq_self_eq_true, Bool.true_and,
    List.all_eq_true]
  exact fun c hc => (hchars c hc).2

theorem foldl_difference (pairs : List (UInt8 × UInt8)) (difference : UInt8) :
    pairs.foldl (fun difference b => difference ||| (b.1 ^^^ b.2)) difference = 0 ↔
      difference = 0 ∧ ∀ b ∈ pairs, b.1 = b.2 := by
  induction pairs generalizing difference with
  | nil => simp
  | cons b pairs ih =>
    rw [List.foldl_cons, ih, UInt8.or_eq_zero_iff, UInt8.xor_eq_zero_iff]
    simp [and_assoc]

theorem constantTimeEq_iff {left right : Bytes} (hlength : left.length = right.length) :
    constantTimeEq left right = true ↔ left = right := by
  rw [constantTimeEq, beq_iff_eq, foldl_difference]
  simp only [true_and]
  induction left generalizing right with
  | nil =>
    have hright : right = [] := List.length_eq_zero_iff.mp hlength.symm
    simp [hright]
  | cons a left ih =>
    cases right with
    | nil => cases hlength
    | cons b right =>
      have htail := ih (Nat.succ.inj hlength)
      simp only [List.zip_cons_cons, List.mem_cons, forall_eq_or_imp, htail, List.cons.injEq]

section Requests

variable [Floats]

def authHelloType : String := "auth_hello"
def authChallengeType : String := "auth_challenge"
def authenticatedRequestType : String := "authenticated_request"
def authKeyContext : String := "com.rexvane.inkhole.quic.shared-secret.v2"
def authRequestDomain : Bytes := "inkhole/quic/authenticated-request/v2\x00".toUTF8.data.toList
def authNonceBytes : Nat := 32

def authenticationFailed : CoreError := .protocol "shared secret authentication failed"

structure AuthenticationHello where
  frameType : String
  protocol : Nat
  nonce : String

/-- What a random nonce is drawn from. -/
abbrev Nonce := { bytes : Bytes // bytes.length = authNonceBytes }

namespace AuthenticationHello

def new (nonce : Nonce) : AuthenticationHello :=
  ⟨authHelloType, quicProtocolVersion, String.ofList (hexEncode nonce.1)⟩

def validate (hello : AuthenticationHello) : Except CoreError Unit :=
  ensure (hello.frameType == authHelloType && hello.protocol == quicProtocolVersion &&
    validHexNonce hello.nonce authNonceBytes) authenticationFailed

end AuthenticationHello

structure AuthenticationChallenge where
  frameType : String
  protocol : Nat
  clientNonce : String
  nonce : String

namespace AuthenticationChallenge

def new (hello : AuthenticationHello) (nonce : Nonce) : Except CoreError AuthenticationChallenge := do
  hello.validate
  return ⟨authChallengeType, quicProtocolVersion, hello.nonce, String.ofList (hexEncode nonce.1)⟩

def validateFor (challenge : AuthenticationChallenge) (hello : AuthenticationHello) :
    Except CoreError Unit := do
  hello.validate
  ensure (challenge.frameType == authChallengeType) authenticationFailed
  ensure (challenge.protocol == quicProtocolVersion)
    (.protocol s!"unsupported QUIC authentication protocol version {challenge.protocol}")
  ensure (challenge.clientNonce == hello.nonce && validHexNonce challenge.clientNonce authNonceBytes &&
    validHexNonce challenge.nonce authNonceBytes) authenticationFailed

def validate (challenge : AuthenticationChallenge) : Except CoreError Unit :=
  ensure (challenge.frameType == authChallengeType && challenge.protocol == quicProtocolVersion &&
    validHexNonce challenge.clientNonce authNonceBytes &&
    validHexNonce challenge.nonce authNonceBytes) authenticationFailed

end AuthenticationChallenge

/-- The nonce of a challenge or of a hello, as it is sent. -/
theorem validHexNonce_nonce (nonce : Nonce) :
    validHexNonce (String.ofList (hexEncode nonce.1)) authNonceBytes = true := by
  have hvalid := validHexNonce_hexEncode nonce.1
  rwa [nonce.2] at hvalid

/-- A device takes its own hello, and the challenge that answers it. -/
theorem challenge_new (client server : Nonce) :
    let hello := AuthenticationHello.new client
    let challenge : AuthenticationChallenge :=
      ⟨authChallengeType, quicProtocolVersion, hello.nonce, String.ofList (hexEncode server.1)⟩
    AuthenticationChallenge.new hello server = .ok challenge ∧ challenge.validateFor hello = .ok () ∧
      challenge.validate = .ok () := by
  have hclient := validHexNonce_nonce client
  have hserver := validHexNonce_nonce server
  have hhello : (AuthenticationHello.new client).validate = .ok () := by
    simp [AuthenticationHello.validate, AuthenticationHello.new, ensure, hclient]
  refine ⟨bind_eq_ok.mpr ⟨(), hhello, rfl⟩, bind_eq_ok.mpr ⟨(), hhello, ?_⟩, ?_⟩
  · simp [ensure, AuthenticationHello.new, hclient, hserver, bind, Except.bind]
  · simp [AuthenticationChallenge.validate, ensure, AuthenticationHello.new, hclient, hserver]

structure AuthenticatableRequest where
  protocol : Nat
  clientNonce : String
  challenge : String
  payload : Value

def AuthenticatableRequest.toValue (signable : AuthenticatableRequest) : Value :=
  .object [("protocol", .number (.posInt signable.protocol)),
    ("client_nonce", .string signable.clientNonce), ("challenge", .string signable.challenge),
    ("payload", signable.payload)]

/-- What is hashed under the key. -/
def AuthenticatableRequest.message (signable : AuthenticatableRequest) : Bytes :=
  authRequestDomain ++ signable.toValue.encoded

theorem toValue_injective : Function.Injective AuthenticatableRequest.toValue := by
  intro a b h
  obtain ⟨protocol, clientNonce, challenge, payload⟩ := a
  obtain ⟨protocol', clientNonce', challenge', payload'⟩ := b
  simpa [AuthenticatableRequest.toValue] using h

/-- The message shows the protocol, both nonces and the payload. -/
theorem message_injective : Function.Injective AuthenticatableRequest.message := by
  intro a b h
  exact toValue_injective (encoded_injective (List.append_cancel_left h))

/-- The hash functions behind the message authentication code. -/
class KeyedHash where
  deriveKey : String → Bytes → Bytes
  keyed : Bytes → Bytes → Bytes
  keyed_length : ∀ key message, (keyed key message).length = 32

variable [KeyedHash]

def authenticationKey (sharedSecret : String) : Bytes :=
  KeyedHash.deriveKey authKeyContext sharedSecret.toUTF8.data.toList

def authenticationMac (signable : AuthenticatableRequest) (sharedSecret : String) : Bytes :=
  KeyedHash.keyed (authenticationKey sharedSecret) signable.message

structure AuthenticatedRequest where
  frameType : String
  protocol : Nat
  clientNonce : String
  challenge : String
  payload : Value
  mac : String

namespace AuthenticatedRequest

def signable (request : AuthenticatedRequest) : AuthenticatableRequest :=
  ⟨request.protocol, request.clientNonce, request.challenge, request.payload⟩

def new (challenge : AuthenticationChallenge) (payload : Value) (sharedSecret : String) :
    Except CoreError AuthenticatedRequest := do
  challenge.validate
  let mac := authenticationMac
    ⟨challenge.protocol, challenge.clientNonce, challenge.nonce, payload⟩ sharedSecret
  return ⟨authenticatedRequestType, challenge.protocol, challenge.clientNonce, challenge.nonce,
    payload, String.ofList (hexEncode mac)⟩

def authenticate (request : AuthenticatedRequest) (expected : AuthenticationChallenge)
    (sharedSecret : String) : Except CoreError Value := do
  expected.validate
  ensure (request.frameType == authenticatedRequestType && request.protocol == expected.protocol &&
    request.clientNonce == expected.clientNonce && request.challenge == expected.nonce)
    authenticationFailed
  match hexDecode request.mac.toList with
  | none => .error authenticationFailed
  | some received =>
    ensure (received.length == 32) authenticationFailed
    ensure (constantTimeEq received (authenticationMac request.signable sharedSecret))
      authenticationFailed
    return request.payload

end AuthenticatedRequest

theorem authenticate_ok_iff {request : AuthenticatedRequest} {expected : AuthenticationChallenge}
    {sharedSecret : String} {payload : Value} :
    request.authenticate expected sharedSecret = .ok payload ↔
      expected.validate = .ok () ∧ request.frameType = authenticatedRequestType ∧
      request.protocol = expected.protocol ∧ request.clientNonce = expected.clientNonce ∧
      request.challenge = expected.nonce ∧
      hexDecode request.mac.toList = some (authenticationMac request.signable sharedSecret) ∧
      request.payload = payload := by
  have hmac : (authenticationMac request.signable sharedSecret).length = 32 :=
    KeyedHash.keyed_length _ _
  unfold AuthenticatedRequest.authenticate
  constructor
  · intro h
    obtain ⟨_, hvalid, h⟩ := bind_eq_ok.mp h
    obtain ⟨hfields, h⟩ := ensure_bind.mp h
    simp only [Bool.and_eq_true, beq_iff_eq] at hfields
    obtain ⟨⟨⟨htype, hprotocol⟩, hclient⟩, hchallenge⟩ := hfields
    split at h
    case h_1 => cases h
    case h_2 received hdecode =>
      obtain ⟨hlength, h⟩ := ensure_bind.mp h
      obtain ⟨hequal, h⟩ := ensure_bind.mp h
      have hreceived := (constantTimeEq_iff ((beq_iff_eq.mp hlength).trans hmac.symm)).mp hequal
      exact ⟨hvalid, htype, hprotocol, hclient, hchallenge, hreceived ▸ hdecode, Except.ok.inj h⟩
  · rintro ⟨hvalid, htype, hprotocol, hclient, hchallenge, hdecode, rfl⟩
    have hequal := (constantTimeEq_iff (Eq.refl
      (authenticationMac request.signable sharedSecret).length)).mpr rfl
    refine bind_eq_ok.mpr ⟨_, hvalid, ensure_bind.mpr ⟨?_, ?_⟩⟩
    · simp [htype, hprotocol, hclient, hchallenge]
    · rw [hdecode]
      exact ensure_bind.mpr ⟨beq_iff_eq.mpr hmac, ensure_bind.mpr ⟨hequal, rfl⟩⟩

/-- A request that was built for a challenge is accepted under it. -/
theorem authenticate_new {challenge : AuthenticationChallenge} {payload : Value}
    {sharedSecret : String} {request : AuthenticatedRequest}
    (h : AuthenticatedRequest.new challenge payload sharedSecret = .ok request) :
    request.authenticate challenge sharedSecret = .ok payload := by
  obtain ⟨_, hvalid, hrequest⟩ := bind_eq_ok.mp h
  obtain rfl := Except.ok.inj hrequest
  refine authenticate_ok_iff.mpr ⟨hvalid, rfl, rfl, rfl, rfl, ?_, rfl⟩
  rw [String.toList_ofList, hexDecode_hexEncode]
  rfl

/-- What the devices that hold the secret built, what the server is waiting for on its connections
and what it accepted so far. -/
structure AuthRun where
  built : List (AuthenticationChallenge × Value)
  connections : List (Option AuthenticationChallenge)
  accepted : List (AuthenticationChallenge × Value)

/-- Whatever the server reads comes from the network. -/
inductive AuthStep where
  | build (hello : AuthenticationHello) (challenge : AuthenticationChallenge) (payload : Value)
  | hello (hello : AuthenticationHello) (nonce : Nonce)
  | request (connection : Nat) (request : AuthenticatedRequest)

namespace AuthRun

def start : AuthRun := ⟨[], [], []⟩

def build (run : AuthRun) (hello : AuthenticationHello) (challenge : AuthenticationChallenge)
    (payload : Value) : AuthRun :=
  match challenge.validateFor hello with
  | .ok () => { run with built := run.built ++ [(challenge, payload)] }
  | .error _ => run

/-- A connection is over with its request, accepted or not. -/
def receive (sharedSecret : String) (run : AuthRun) (connection : Nat)
    (request : AuthenticatedRequest) : AuthRun :=
  match run.connections[connection]? with
  | some (some challenge) =>
    match request.authenticate challenge sharedSecret with
    | .ok payload =>
      { run with
        connections := run.connections.set connection none
        accepted := run.accepted ++ [(challenge, payload)] }
    | .error _ => { run with connections := run.connections.set connection none }
  | _ => run

theorem build_valid {run : AuthRun} {hello : AuthenticationHello} {challenge : AuthenticationChallenge}
    (h : challenge.validateFor hello = .ok ()) (payload : Value) :
    run.build hello challenge payload = { run with built := run.built ++ [(challenge, payload)] } := by
  rw [build, h]

theorem receive_accepted {sharedSecret : String} {run : AuthRun} {connection : Nat} {request : AuthenticatedRequest}
    {challenge : AuthenticationChallenge} {payload : Value}
    (hwaits : run.connections[connection]? = some (some challenge))
    (hok : request.authenticate challenge sharedSecret = .ok payload) :
    (run.receive sharedSecret connection request).accepted = run.accepted ++ [(challenge, payload)] := by
  rw [receive, hwaits]
  simp only [hok]

/-- No challenge answers a hello that is refused. -/
def step (sharedSecret : String) (run : AuthRun) : AuthStep → AuthRun
  | .build hello challenge payload => run.build hello challenge payload
  | .hello hello nonce =>
    { run with connections :=
      run.connections ++ [(AuthenticationChallenge.new hello nonce).toOption] }
  | .request connection request => run.receive sharedSecret connection request

def after (sharedSecret : String) (steps : List AuthStep) : AuthRun :=
  steps.foldl (step sharedSecret) start

def Built (run : AuthRun) (signable : AuthenticatableRequest) : Prop :=
  ∃ made ∈ run.built, signable =
    ⟨made.1.protocol, made.1.clientNonce, made.1.nonce, made.2⟩

/-- The keyed hash is ideal in a step: a code that comes from the network and is right for a
message was computed by a device that holds the secret, for this message. -/
def Unforged (sharedSecret : String) (run : AuthRun) : AuthStep → Prop
  | .request _ request =>
    hexDecode request.mac.toList = some (authenticationMac request.signable sharedSecret) →
      ∃ signable, run.Built signable ∧ signable.message = request.signable.message
  | _ => True

/-- The keyed hash is ideal in all steps of a run. -/
def AllUnforged (sharedSecret : String) : AuthRun → List AuthStep → Prop
  | _, [] => True
  | run, s :: steps =>
    run.Unforged sharedSecret s ∧ AllUnforged sharedSecret (run.step sharedSecret s) steps

/-- What the server accepted was built for the challenge it was accepted under. -/
def Agreed (run : AuthRun) : Prop :=
  ∀ done ∈ run.accepted, ∃ made ∈ run.built,
    made.1.clientNonce = done.1.clientNonce ∧ made.1.nonce = done.1.nonce ∧ made.2 = done.2

theorem step_agreed {sharedSecret : String} {run : AuthRun} {s : AuthStep}
    (hunforged : run.Unforged sharedSecret s) (h : run.Agreed) :
    (run.step sharedSecret s).Agreed := by
  cases s with
  | build hello challenge payload =>
    rw [step, build]
    split
    · intro done hdone
      obtain ⟨made, hmade, heq⟩ := h done hdone
      exact ⟨made, List.mem_append_left _ hmade, heq⟩
    · exact h
  | hello hello nonce => exact h
  | request connection request =>
    rw [step, receive]
    split
    case h_1 challenge hwaits =>
      split
      case h_1 payload hok =>
        obtain ⟨_, _, _, hclient, hchallenge, hmac, hpayload⟩ := authenticate_ok_iff.mp hok
        obtain ⟨signable, ⟨made, hmade, rfl⟩, hmessage⟩ := hunforged hmac
        have hsignable := message_injective hmessage
        intro done hdone
        rcases List.mem_append.mp hdone with hbefore | hnow
        · exact h done hbefore
        · obtain rfl := List.mem_singleton.mp hnow
          simp only [AuthenticatedRequest.signable, AuthenticatableRequest.mk.injEq] at hsignable
          obtain ⟨_, hnonce, hservers, hvalue⟩ := hsignable
          exact ⟨made, hmade, hnonce.trans hclient, hservers.trans hchallenge, hvalue.trans hpayload⟩
      case h_2 => exact h
    case h_2 => exact h

theorem foldl_agreed {sharedSecret : String} (steps : List AuthStep) {run : AuthRun}
    (hunforged : run.AllUnforged sharedSecret steps) (h : run.Agreed) :
    (steps.foldl (step sharedSecret) run).Agreed := by
  induction steps generalizing run with
  | nil => exact h
  | cons s steps ih => exact ih hunforged.2 (step_agreed hunforged.1 h)

end AuthRun

theorem authenticate_other_challenge {request : AuthenticatedRequest}
    {challenge other : AuthenticationChallenge} {sharedSecret : String} {payload : Value}
    (h : request.authenticate challenge sharedSecret = .ok payload)
    (hother : other.clientNonce ≠ challenge.clientNonce ∨ other.nonce ≠ challenge.nonce) :
    ∃ e, request.authenticate other sharedSecret = .error e := by
  obtain ⟨_, _, _, hclient, hchallenge, _, _⟩ := authenticate_ok_iff.mp h
  rcases hresult : request.authenticate other sharedSecret with e | accepted
  · exact ⟨e, rfl⟩
  · obtain ⟨_, _, _, hclient', hchallenge', _, _⟩ := authenticate_ok_iff.mp hresult
    rcases hother with hne | hne
    · exact absurd (hclient'.symm.trans hclient) hne
    · exact absurd (hchallenge'.symm.trans hchallenge) hne

/-- The server accepts only what a device with the secret built for the challenge, whatever the
network does with the requests. -/
theorem request_agreement (sharedSecret : String) :
    (∀ steps, AuthRun.start.AllUnforged sharedSecret steps →
      ∀ challenge payload, (challenge, payload) ∈ (AuthRun.after sharedSecret steps).accepted →
        ∃ made ∈ (AuthRun.after sharedSecret steps).built,
          made.1.clientNonce = challenge.clientNonce ∧ made.1.nonce = challenge.nonce ∧
            made.2 = payload) ∧
    Function.Injective AuthenticatableRequest.message ∧
    ∀ (request : AuthenticatedRequest) (challenge other : AuthenticationChallenge) (payload : Value),
      request.authenticate challenge sharedSecret = .ok payload →
      other.clientNonce ≠ challenge.clientNonce ∨ other.nonce ≠ challenge.nonce →
      ∃ e, request.authenticate other sharedSecret = .error e := by
  have hstart : AuthRun.start.Agreed := fun done hdone => nomatch hdone
  refine ⟨fun steps hunforged challenge payload haccepted => ?_, message_injective,
    fun request challenge other payload => authenticate_other_challenge⟩
  exact AuthRun.foldl_agreed steps hunforged hstart (challenge, payload) haccepted

end Requests

namespace Sample

/-- The sample requests hold no floating point numbers. -/
abbrev floats : Floats := ⟨Empty, Empty.elim, fun x => x.elim, fun x => x.elim, fun x => x.elim⟩

attribute [local instance] floats

def authNonce : Nonce := ⟨List.replicate 32 0, rfl⟩

def authHello : AuthenticationHello := .new authNonce

def authSignable : AuthenticatableRequest :=
  ⟨quicProtocolVersion, authHello.nonce, authHello.nonce, .string "probe"⟩

def authKey : Bytes :=
  [41, 122, 114, 167, 123, 230, 48, 118, 56, 25, 32, 88, 29, 14, 100, 163, 156, 100, 224, 249, 199,
    107, 157, 235, 155, 228, 135, 26, 179, 222, 70, 100]

def authMac : Bytes :=
  [105, 66, 15, 113, 196, 180, 67, 54, 127, 28, 208, 168, 91, 4, 108, 116, 170, 225, 178, 20, 61,
    177, 157, 233, 176, 21, 177, 88, 50, 3, 53, 162]

/-- The hash of the sample request, and zeros for all others. -/
def authKeyed (key message : Bytes) : Bytes :=
  if key = authKey ∧ message = authSignable.message then authMac else List.replicate 32 0

theorem authKeyed_length (key message : Bytes) : (authKeyed key message).length = 32 := by
  unfold authKeyed
  split <;> rfl

abbrev keyedHash : KeyedHash :=
  ⟨fun context secret => if context = authKeyContext ∧ secret = "secret".toUTF8.data.toList
    then authKey else [], authKeyed, authKeyed_length⟩

attribute [local instance] keyedHash

def authChallenge : AuthenticationChallenge :=
  ⟨authChallengeType, quicProtocolVersion, authHello.nonce, authHello.nonce⟩

def authRequest : AuthenticatedRequest :=
  ⟨authenticatedRequestType, quicProtocolVersion, authHello.nonce, authHello.nonce, .string "probe",
    String.ofList (hexEncode authMac)⟩

def authSteps : List AuthStep :=
  [.hello authHello authNonce, .build authHello authChallenge (.string "probe"), .request 0 authRequest]

theorem authenticationMac_signable : authenticationMac authSignable "secret" = authMac := by
  have hkey : authenticationKey "secret" = authKey := rfl
  have hkeyed : authKeyed authKey authSignable.message = authMac := by simp only [authKeyed, and_self, if_true]
  rw [authenticationMac, hkey]
  exact hkeyed

theorem challenge_authNonce :
    AuthenticationChallenge.new authHello authNonce = .ok authChallenge ∧
      authChallenge.validateFor authHello = .ok () ∧ authChallenge.validate = .ok () :=
  challenge_new authNonce authNonce

theorem request_new :
    AuthenticatedRequest.new authChallenge (.string "probe") "secret" = .ok authRequest := by
  have hmac : authenticationMac
      ⟨authChallenge.protocol, authChallenge.clientNonce, authChallenge.nonce, .string "probe"⟩ "secret" = authMac :=
    authenticationMac_signable
  rw [AuthenticatedRequest.new, challenge_authNonce.2.2, hmac]
  rfl

theorem step_hello : AuthRun.start.step "secret" (.hello authHello authNonce) = ⟨[], [some authChallenge], []⟩ := by
  simp only [AuthRun.step, AuthRun.start, challenge_authNonce.1, Except.toOption, List.nil_append]

theorem step_build : (⟨[], [some authChallenge], []⟩ : AuthRun).step "secret"
    (.build authHello authChallenge (.string "probe")) =
      ⟨[(authChallenge, .string "probe")], [some authChallenge], []⟩ := by
  rw [AuthRun.step, AuthRun.build_valid challenge_authNonce.2.1, List.nil_append]

theorem accepted_authSteps :
    (AuthRun.after "secret" authSteps).accepted = [(authChallenge, Value.string "probe")] := by
  rw [AuthRun.after, authSteps, List.foldl_cons, step_hello, List.foldl_cons, step_build, List.foldl_cons,
    List.foldl_nil, AuthRun.step, AuthRun.receive_accepted rfl (authenticate_new request_new), List.nil_append]

theorem allUnforged_authSteps : AuthRun.start.AllUnforged "secret" authSteps := by
  simp only [authSteps, AuthRun.AllUnforged, step_hello, step_build]
  refine ⟨trivial, trivial, fun _ => ?_, trivial⟩
  exact ⟨authRequest.signable, ⟨(authChallenge, .string "probe"), List.mem_singleton_self _, rfl⟩, rfl⟩

end Sample

attribute [local instance] Sample.floats Sample.keyedHash

open Sample in
theorem request_agreement_sample :
    (authChallenge, Value.string "probe") ∈ (AuthRun.after "secret" authSteps).accepted ∧
    ∃ made ∈ (AuthRun.after "secret" authSteps).built,
      made.1.clientNonce = authChallenge.clientNonce ∧ made.1.nonce = authChallenge.nonce ∧
        made.2 = .string "probe" := by
  have haccepted : (authChallenge, Value.string "probe") ∈ (AuthRun.after "secret" authSteps).accepted := by
    rw [accepted_authSteps]
    exact List.mem_singleton_self _
  exact ⟨haccepted, (request_agreement "secret").1 authSteps allUnforged_authSteps authChallenge _ haccepted⟩

end InkHole
