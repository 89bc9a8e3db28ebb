import InkHole.DataChannel

/-! What the relay of a data channel can do with the answer that it forwards. -/

set_option linter.unusedSectionVars false

namespace InkHole

open Json

section Relay

variable [Externals] [Signing] [DataJson] [KeyDerivation]

/-- The bytes of the answer, as they go through the relay. -/
def DataReceiver.sentAnswer (r : DataReceiver) : Except CoreError Bytes := do
  let given ← r.signedAnswer
  cancellable (r.cancelled .answer) (writeFrame r.failure (DataJson.encodeAnswer (r.answer given)))

/-- What the relay has: the answer that it forwards, and the public keys of the two devices. -/
structure RelayView where
  answer : Bytes
  clientPublic : String
  serverPublic : String

def DataReceiver.relayView (r : DataReceiver) (given : SignedAnswer) (bytes : Bytes) : RelayView :=
  ⟨bytes, given.peer.publicKey, r.device.publicKeyBase64⟩

namespace RelayView

variable (v : RelayView)

def read : Except CoreError DataAnswer := do
  let (answer, _) ← readFrame DataJson.decodeAnswer ⟨v.answer, [], .finished⟩
  return answer

def secret : Except CoreError String := do
  let answer ← v.read
  return answer.quicSecret

def tunnelKey : Except CoreError Bytes := do
  let answer ← v.read
  let clientNonce ← decodeNonce answer.clientNonce
  let serverNonce ← decodeNonce answer.serverNonce
  return deriveTunnelKey clientNonce serverNonce v.clientPublic v.serverPublic

end RelayView

theorem DataReceiver.sentAnswer_ok {r : DataReceiver} {bytes : Bytes} (h : r.sentAnswer = .ok bytes) :
    ∃ given text, r.signedAnswer = .ok given ∧ DataJson.encodeAnswer (r.answer given) = some text ∧ text ≠ [] ∧
      text.length ≤ maxRelayFrame ∧ bytes = Codes.framed 4 text := by
  obtain ⟨given, hgiven, h⟩ := bind_eq_ok.mp h
  obtain ⟨text, htext, hne, hlength, hbytes⟩ := writeFrame_ok (cancellable_ok h)
  exact ⟨given, text, hgiven, htext, hne, hlength, hbytes⟩

theorem RelayView.read_framed {v : RelayView} {answer : DataAnswer} {text : Bytes}
    (htext : DataJson.encodeAnswer answer = some text) (hne : text ≠ []) (hlength : text.length ≤ maxRelayFrame)
    (hv : v.answer = Codes.framed 4 text) : v.read = .ok answer := by
  obtain ⟨reads, hread⟩ := readFrame_framed hne hlength (DataJson.decode_answer htext) [] [] .finished
  rw [List.append_nil] at hread
  rw [RelayView.read, hv, hread]
  rfl

theorem decodeNonce_hexEncode {nonce : Bytes} (h : nonce.length = relayNonceBytes) :
    decodeNonce (hexEncode nonce) = .ok nonce := by
  rw [decodeNonce, hexDecode_hexEncode]
  exact ensure_bind.mpr ⟨beq_iff_eq.mpr h, rfl⟩

/-- The answer tells the relay the secret, and all that the key of the tunnel is derived from. -/
theorem relay_reads {r : DataReceiver} {given : SignedAnswer} {bytes : Bytes} (hsent : r.sentAnswer = .ok bytes)
    (hgiven : r.signedAnswer = .ok given) :
    (r.relayView given bytes).secret = .ok r.secret ∧
      (r.relayView given bytes).tunnelKey = .ok (r.tunnelKey given) := by
  obtain ⟨given', text, hgiven', htext, hne, hlength, rfl⟩ := r.sentAnswer_ok hsent
  obtain rfl := Except.ok.inj (hgiven.symm.trans hgiven')
  obtain ⟨_, _, -, -, -, -, -, hclient, -, -, -⟩ := r.signedAnswer_ok hgiven
  have hread : (r.relayView given (Codes.framed 4 text)).read = .ok (r.answer given) :=
    RelayView.read_framed htext hne hlength rfl
  have hclientNonce : decodeNonce (r.answer given).clientNonce = .ok given.hello.nonce := decodeNonce_hexEncode hclient
  have hserverNonce : decodeNonce (r.answer given).serverNonce = .ok r.nonce := decodeNonce_hexEncode r.nonce_length
  constructor
  · rw [RelayView.secret, hread]
    rfl
  · rw [RelayView.tunnelKey, hread]
    refine bind_eq_ok.mpr ⟨_, rfl, ?_⟩
    exact bind_eq_ok.mpr ⟨_, hclientNonce, bind_eq_ok.mpr ⟨_, hserverNonce, rfl⟩⟩

variable [Floats] [KeyedHash]

namespace RelayView

variable (v : RelayView)

/-- A request for a challenge, made with the secret that the relay has read. -/
def request (challenge : AuthenticationChallenge) (payload : Value) : Except CoreError AuthenticatedRequest := do
  let secret ← v.secret
  AuthenticatedRequest.new challenge payload secret

/-- The relay does not learn the secret. -/
def SecretKept (secret : String) : Prop := v.secret ≠ .ok secret

/-- Whatever requests the relay makes, the server accepts only what a device has built. -/
def PeerOnly (secret : String) : Prop :=
  ∀ steps : List AuthStep,
    (∀ connection request, .request connection request ∈ steps →
      ∃ challenge payload, v.request challenge payload = .ok request) →
    (AuthRun.after secret steps).Agreed

variable {v}

/-- With the secret the relay opens a connection of its own, and the server accepts what it asks for. -/
theorem accepted_request {secret : String} (hsecret : v.secret = .ok secret) (client server : Nonce)
    (payload : Value) :
    ∃ challenge request, v.request challenge payload = .ok request ∧
      (AuthRun.after secret [.hello (.new client) server, .request 0 request]).accepted = [(challenge, payload)] ∧
      (AuthRun.after secret [.hello (.new client) server, .request 0 request]).built = [] := by
  obtain ⟨hnew, -, hvalid⟩ := challenge_new client server
  generalize hc : (⟨authChallengeType, quicProtocolVersion, (AuthenticationHello.new client).nonce,
    String.ofList (hexEncode server.1)⟩ : AuthenticationChallenge) = challenge at hnew hvalid
  obtain ⟨request, hrequest⟩ : ∃ request, AuthenticatedRequest.new challenge payload secret = .ok request :=
    ⟨_, bind_eq_ok.mpr ⟨(), hvalid, rfl⟩⟩
  have hopened : AuthRun.start.step secret (.hello (.new client) server) = ⟨[], [some challenge], []⟩ := by
    simp only [AuthRun.step, AuthRun.start, hnew, Except.toOption, List.nil_append]
  have hok := authenticate_new hrequest
  refine ⟨challenge, request, bind_eq_ok.mpr ⟨secret, hsecret, hrequest⟩, ?_, ?_⟩
  · rw [AuthRun.after, List.foldl_cons, hopened, List.foldl_cons, List.foldl_nil, AuthRun.step,
      AuthRun.receive_accepted rfl hok, List.nil_append]
  · rw [AuthRun.after, List.foldl_cons, hopened, List.foldl_cons, List.foldl_nil, AuthRun.step, AuthRun.receive]
    simp only [List.getElem?_cons_zero, hok]

theorem not_peerOnly {secret : String} (hsecret : v.secret = .ok secret) (nonce : Nonce) : ¬ v.PeerOnly secret := by
  intro hpeer
  obtain ⟨challenge, request, hrequest, haccepted, hbuilt⟩ := accepted_request hsecret nonce nonce .null
  have hagreed := hpeer [.hello (.new nonce) nonce, .request 0 request] (by
    intro connection other hmem
    rcases List.mem_cons.mp hmem with hother | hmem
    · cases hother
    · obtain ⟨rfl, rfl⟩ := AuthStep.request.inj (List.mem_singleton.mp hmem)
      exact ⟨challenge, .null, hrequest⟩)
  obtain ⟨made, hmade, -⟩ := hagreed (challenge, .null) (by rw [haccepted]; exact List.mem_singleton_self _)
  rw [hbuilt] at hmade
  cases hmade

end RelayView

/-- Of every session whose answer goes through it the relay has the secret and the key of the tunnel, and
it makes requests that the server of the session accepts though no device has built them. -/
theorem relay_impersonates (r : DataReceiver) (given : SignedAnswer) (bytes : Bytes)
    (hgiven : r.signedAnswer = .ok given) (hsent : r.sentAnswer = .ok bytes) :
    ¬ (r.relayView given bytes).SecretKept r.secret ∧
      (r.relayView given bytes).tunnelKey = .ok (r.tunnelKey given) ∧
      ¬ (r.relayView given bytes).PeerOnly r.secret := by
  obtain ⟨hsecret, htunnel⟩ := relay_reads hsent hgiven
  exact ⟨fun hkept => hkept hsecret, htunnel, RelayView.not_peerOnly hsecret ⟨List.replicate 32 0, rfl⟩⟩

end Relay

namespace Sample

def relayHashKey : Bytes :=
  [207, 153, 76, 118, 114, 246, 29, 190, 233, 22, 50, 82, 218, 205, 202, 169, 119, 179, 130, 42,
   32, 217, 79, 107, 170, 140, 9, 87, 83, 189, 88, 200]

def relayMac : Bytes :=
  [98, 198, 5, 250, 252, 152, 213, 101, 95, 217, 31, 62, 23, 159, 78, 211, 42, 20, 120, 51, 131,
   197, 177, 92, 94, 175, 196, 207, 26, 77, 133, 1]

attribute [local instance] floats

/-- The hash of the request that asks for a probe, under the secret of the sample session. -/
def relayKeyed (key message : Bytes) : Bytes :=
  if key = relayHashKey ∧ message = authSignable.message then relayMac else List.replicate 32 0

theorem relayKeyed_length (key message : Bytes) : (relayKeyed key message).length = 32 := by
  unfold relayKeyed
  split <;> rfl

abbrev relayKeyedHash : KeyedHash :=
  ⟨fun context secret => if context = authKeyContext ∧ secret = List.replicate 32 100 then relayHashKey else [],
    relayKeyed, relayKeyed_length⟩

end Sample

attribute [local instance] Sample.floats Sample.relayKeyedHash Sample.dataSigning Sample.dataDerivation
  Sample.dataExternals Sample.dataJson

namespace Sample

def relayedAnswer : Bytes := Codes.framed 4 (dataText .joiner)

def relayRequest : AuthenticatedRequest :=
  ⟨authenticatedRequestType, quicProtocolVersion, authHello.nonce, authHello.nonce, .string "probe",
    String.ofList (hexEncode relayMac)⟩

theorem relayMac_signable : authenticationMac authSignable dataSecret = relayMac := by
  have hsecret : dataSecret.toUTF8.data.toList = List.replicate 32 100 := by decide +kernel
  have hkey : authenticationKey dataSecret = relayHashKey := by
    rw [authenticationKey, hsecret]
    exact if_pos ⟨rfl, rfl⟩
  have hkeyed : relayKeyed relayHashKey authSignable.message = relayMac := by
    simp only [relayKeyed, and_self, if_true]
  rw [authenticationMac, hkey]
  exact hkeyed

theorem new_relayRequest :
    AuthenticatedRequest.new authChallenge (.string "probe") dataSecret = .ok relayRequest := by
  have hmac : authenticationMac
      ⟨authChallenge.protocol, authChallenge.clientNonce, authChallenge.nonce, .string "probe"⟩ dataSecret = relayMac :=
    relayMac_signable
  rw [AuthenticatedRequest.new, challenge_authNonce.2.2, hmac]
  rfl

theorem sentAnswer_dataReceiver : dataReceiver.sentAnswer = .ok relayedAnswer := by decide +kernel

end Sample

theorem relay_impersonates_sample :
    ¬ (Sample.dataReceiver.relayView Sample.dataSigned Sample.relayedAnswer).SecretKept Sample.dataSecret ∧
      ¬ (Sample.dataReceiver.relayView Sample.dataSigned Sample.relayedAnswer).PeerOnly Sample.dataSecret := by
  have hrelay := relay_impersonates Sample.dataReceiver Sample.dataSigned Sample.relayedAnswer
    Sample.signedAnswer_dataReceiver Sample.sentAnswer_dataReceiver
  exact ⟨hrelay.1, hrelay.2.2⟩

/-- From the bytes of the answer alone, a relay makes a request that the server accepts. -/
theorem relay_reads_secret :
    (Sample.dataReceiver.relayView Sample.dataSigned Sample.relayedAnswer).secret = .ok Sample.dataSecret ∧
      (Sample.dataReceiver.relayView Sample.dataSigned Sample.relayedAnswer).request Sample.authChallenge
        (.string "probe") = .ok Sample.relayRequest ∧
      Sample.relayRequest.authenticate Sample.authChallenge Sample.dataSecret = .ok (.string "probe") ∧
      ¬ (Sample.dataReceiver.relayView Sample.dataSigned Sample.relayedAnswer).PeerOnly Sample.dataSecret := by
  have hsecret : (Sample.dataReceiver.relayView Sample.dataSigned Sample.relayedAnswer).secret =
      .ok Sample.dataSecret := by decide +kernel
  refine ⟨hsecret, ?_, authenticate_new Sample.new_relayRequest, RelayView.not_peerOnly hsecret Sample.authNonce⟩
  exact bind_eq_ok.mpr ⟨_, hsecret, Sample.new_relayRequest⟩

end InkHole
