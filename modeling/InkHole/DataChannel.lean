import InkHole.PairExchange

/-! The opening of a data channel: paired devices sign what they tell each other, and derive the key of
the tunnel from it. -/

set_option linter.unusedSectionVars false

namespace InkHole

open Codes

def relayNonceBytes : Nat := 32

def probeSignatureDomain : Bytes := utf8 "inkhole/quic/peer-probe/v2\x00"

/-- The signature of a device (Ed25519), and the public key to it, as base64 texts. -/
class Signing where
  Key : Type
  publicKey : Key → String
  sign : Key → Bytes → String

structure DeviceIdentity [Signing] where
  instanceId : String
  signingKey : Signing.Key
  valid : validInstanceId instanceId = true

namespace DeviceIdentity

variable [Signing] (d : DeviceIdentity)

def publicKeyBase64 : String := Signing.publicKey d.signingKey

def signBase64 (message : Bytes) : String := Signing.sign d.signingKey message

end DeviceIdentity

structure DataHello where
  senderInstanceId : String
  receiverInstanceId : String
  nonce : List Char
  signature : String
  deriving DecidableEq, Repr

structure VerifiedDataHello where
  senderInstanceId : String
  nonce : Bytes
  deriving DecidableEq, Repr

structure DataAnswer where
  senderInstanceId : String
  receiverInstanceId : String
  clientNonce : List Char
  serverNonce : List Char
  quicFingerprint : String
  quicSecret : String
  signature : String
  deriving DecidableEq, Repr

structure SenderAuthentication where
  quicFingerprint : String
  quicSecret : String
  tunnelKey : Bytes
  deriving DecidableEq, Repr

/-- The JSON text of the frames. What was written of an answer is read back, and a string that is read from a
text is no longer than the text. -/
class DataJson where
  encodeHello : DataHello → Option Bytes
  decodeHello : Bytes → Option DataHello
  encodeAnswer : DataAnswer → Option Bytes
  decodeAnswer : Bytes → Option DataAnswer
  decode_answer : ∀ {answer bytes}, encodeAnswer answer = some bytes → decodeAnswer bytes = some answer
  length_sender : ∀ {bytes hello}, decodeHello bytes = some hello →
    (utf8 hello.senderInstanceId).length ≤ bytes.length

/-! What is signed. -/

def authenticationMessage (domain : String) (fields : List Bytes) : Bytes :=
  utf8 domain ++ fields.flatMap (framed 4)

def clientAuthMessage (sender receiver : String) (nonce : Bytes) : Bytes :=
  authenticationMessage "inkhole/ssh-relay-v2/client" [utf8 sender, utf8 receiver, nonce]

def serverAuthMessage (sender receiver : String) (clientNonce serverNonce : Bytes)
    (fingerprint secret : String) : Bytes :=
  authenticationMessage "inkhole/ssh-relay-v2/server"
    [utf8 sender, utf8 receiver, clientNonce, serverNonce, utf8 fingerprint, utf8 secret]

def decodeNonce (value : List Char) : Except CoreError Bytes :=
  match hexDecode value with
  | none => .error (.protocol "SSH relay nonce is invalid")
  | some nonce => do
    ensure (nonce.length == relayNonceBytes) (.protocol "SSH relay nonce is invalid")
    return nonce

def validFingerprint (value : String) : Bool := value.utf8ByteSize == 64 && value.toList.all lowerHex

def validSecret (value : String) : Bool := 32 ≤ value.utf8ByteSize && value.utf8ByteSize ≤ 128

def deriveTunnelKey [KeyDerivation] (clientNonce serverNonce : Bytes) (clientPublic serverPublic : String) :
    Bytes :=
  deriveKey (authenticationMessage "inkhole/ssh-relay-v2/tunnel"
    [clientNonce, serverNonce, utf8 clientPublic, utf8 serverPublic]) (utf8 "record-key")

theorem length_utf8 (s : String) : (utf8 s).length = s.utf8ByteSize := by
  simp [utf8]

theorem utf8_injective : Function.Injective utf8 := by
  intro s t h
  exact String.toByteArray_inj.mp (ByteArray.ext (Array.toList_inj.mp h))

/-- Messages of two domains that differ in their first bytes. -/
theorem domain_ne {domain other : Bytes} (n : Nat) (hn : n ≤ domain.length) (hm : n ≤ other.length)
    (h : domain.take n ≠ other.take n) (x y : Bytes) : domain ++ x ≠ other ++ y := by
  intro heq
  have hfront := congrArg (List.take n) heq
  rw [List.take_append_of_le_length hn, List.take_append_of_le_length hm] at hfront
  exact h hfront

/-- Fields that fit in their lengths are told apart. -/
theorem authenticationMessage_inj {domain : String} {fields others : List Bytes}
    (hfields : ∀ f ∈ fields, f.length < 2 ^ 32) (hothers : ∀ f ∈ others, f.length < 2 ^ 32)
    (hlength : fields.length = others.length)
    (h : authenticationMessage domain fields = authenticationMessage domain others) : fields = others := by
  have hframes := List.append_cancel_left h
  rw [← List.append_nil (fields.flatMap _), ← List.append_nil (others.flatMap _)] at hframes
  exact (flatMap_framed_inj hfields hothers hlength hframes).1

section Channel

variable [Externals] [Signing] [DataJson] [KeyDerivation]

def verifySignature (publicKey : String) (message : Bytes) (encoded : String) : Except CoreError Unit :=
  match Externals.base64Decode encoded with
  | none => .error (.protocol "SSH relay signature is invalid")
  | some signature => do
    ensure (signature.length == 64) (.protocol "SSH relay signature is invalid")
    let key ← verifyingKey publicKey
    ensure (Externals.verify key message signature) (.protocol "SSH relay signature verification failed")

inductive DataPoint where
  | hello
  | answer
  deriving DecidableEq, Repr

/-! The device that opens the channel. -/

structure DataSender where
  device : DeviceIdentity
  peer : PairingIdentity
  nonce : Bytes
  nonce_length : nonce.length = relayNonceBytes
  cancelled : DataPoint → Bool
  failure : Option IoError
  stream : Incoming

/-- What the signature of an answer is checked on, and the nonce of the peer in it. -/
def answerMessage (device : DeviceIdentity) (peer : PairingIdentity) (clientNonce : Bytes)
    (answer : DataAnswer) : Except CoreError (Bytes × Bytes) := do
  let invalid : CoreError := .protocol "invalid SSH relay data answer"
  ensure (answer.senderInstanceId == device.instanceId && answer.receiverInstanceId == peer.instanceId) invalid
  let answered ← decodeNonce answer.clientNonce
  ensure (answered == clientNonce && validFingerprint answer.quicFingerprint && validSecret answer.quicSecret)
    invalid
  let serverNonce ← decodeNonce answer.serverNonce
  return (serverNonce, serverAuthMessage device.instanceId peer.instanceId clientNonce serverNonce
    answer.quicFingerprint answer.quicSecret)

namespace DataSender

variable (c : DataSender)

def message : Bytes := clientAuthMessage c.device.instanceId c.peer.instanceId c.nonce

def hello : DataHello :=
  ⟨c.device.instanceId, c.peer.instanceId, hexEncode c.nonce, c.device.signBase64 c.message⟩

def sendDataHello : Except CoreError Bytes := do
  c.peer.validate
  let _ ← cancellable (c.cancelled .hello) (writeFrame c.failure (DataJson.encodeHello c.hello))
  return c.nonce

/-- The answer that comes to the hello. -/
def receivedAnswer : Except CoreError DataAnswer := do
  let _ ← c.sendDataHello
  let (answer, _) ← cancellable (c.cancelled .answer) (readFrame DataJson.decodeAnswer c.stream)
  return answer

def receiveDataAnswer : Except CoreError SenderAuthentication := do
  let answer ← c.receivedAnswer
  let (serverNonce, message) ← answerMessage c.device c.peer c.nonce answer
  verifySignature c.peer.publicKey message answer.signature
  let tunnelKey := deriveTunnelKey c.nonce serverNonce c.device.publicKeyBase64 c.peer.publicKey
  return ⟨answer.quicFingerprint, answer.quicSecret, tunnelKey⟩

end DataSender

/-! The device that answers. -/

structure DataReceiver where
  device : DeviceIdentity
  peers : SshPeers
  nonce : Bytes
  nonce_length : nonce.length = relayNonceBytes
  /-- The fingerprint of the server that is bound for the peer. -/
  server : Except CoreError String
  secret : String
  cancelled : DataPoint → Bool
  failure : Option IoError
  stream : Incoming

def verifyDataHello (hello : DataHello) (device : DeviceIdentity) (peer : PairingIdentity) :
    Except CoreError VerifiedDataHello := do
  ensure (hello.senderInstanceId == peer.instanceId && hello.receiverInstanceId == device.instanceId)
    (.protocol "SSH relay data channel targets the wrong peer")
  let nonce ← decodeNonce hello.nonce
  verifySignature peer.publicKey (clientAuthMessage hello.senderInstanceId hello.receiverInstanceId nonce)
    hello.signature
  return ⟨hello.senderInstanceId, nonce⟩

/-- What a device signs in its answer, beside its own nonce and secret. -/
structure SignedAnswer where
  peer : PairingIdentity
  hello : VerifiedDataHello
  fingerprint : String
  deriving DecidableEq, Repr

namespace DataReceiver

variable (r : DataReceiver)

def receiveDataHello : Except CoreError DataHello := do
  let (hello, _) ← cancellable (r.cancelled .hello) (readFrame DataJson.decodeHello r.stream)
  return hello

/-- The hello is checked against the pairing with the device that it names. -/
def verified : Except CoreError (PairingIdentity × VerifiedDataHello) := do
  let hello ← r.receiveDataHello
  match r.peers.lookup hello.senderInstanceId with
  | none => throw (.protocol "SSH relay data peer is not paired")
  | some peer =>
    let verified ← verifyDataHello hello r.device peer.identity
    return (peer.identity, verified)

def signedAnswer : Except CoreError SignedAnswer := do
  let (peer, hello) ← r.verified
  let fingerprint ← r.server
  ensure (hello.senderInstanceId == peer.instanceId && validFingerprint fingerprint && validSecret r.secret)
    (.protocol "invalid SSH relay QUIC credentials")
  return ⟨peer, hello, fingerprint⟩

def message (given : SignedAnswer) : Bytes :=
  serverAuthMessage given.peer.instanceId r.device.instanceId given.hello.nonce r.nonce given.fingerprint r.secret

def answer (given : SignedAnswer) : DataAnswer :=
  ⟨given.peer.instanceId, r.device.instanceId, hexEncode given.hello.nonce, hexEncode r.nonce,
    given.fingerprint, r.secret, r.device.signBase64 (r.message given)⟩

def tunnelKey (given : SignedAnswer) : Bytes :=
  deriveTunnelKey given.hello.nonce r.nonce given.peer.publicKey r.device.publicKeyBase64

def sendDataAnswer : Except CoreError Bytes := do
  let given ← r.signedAnswer
  let _ ← cancellable (r.cancelled .answer) (writeFrame r.failure (DataJson.encodeAnswer (r.answer given)))
  return r.tunnelKey given

end DataReceiver

/-! What the calls have checked when they succeed. -/

theorem decodeNonce_length {value : List Char} {nonce : Bytes} (h : decodeNonce value = .ok nonce) :
    nonce.length = relayNonceBytes := by
  rw [decodeNonce] at h
  cases hd : hexDecode value with
  | none =>
    rw [hd] at h
    cases h
  | some bytes =>
    rw [hd] at h
    obtain ⟨hlength, h⟩ := ensure_bind.mp h
    obtain rfl := Except.ok.inj h
    simpa using hlength

theorem answerMessage_ok {device : DeviceIdentity} {peer : PairingIdentity} {clientNonce serverNonce message : Bytes}
    {answer : DataAnswer} (h : answerMessage device peer clientNonce answer = .ok (serverNonce, message)) :
    serverNonce.length = relayNonceBytes ∧ validFingerprint answer.quicFingerprint = true ∧
      validSecret answer.quicSecret = true ∧
      message = serverAuthMessage device.instanceId peer.instanceId clientNonce serverNonce
        answer.quicFingerprint answer.quicSecret := by
  obtain ⟨-, h⟩ := ensure_bind.mp h
  obtain ⟨answered, -, h⟩ := bind_eq_ok.mp h
  obtain ⟨hvalid, h⟩ := ensure_bind.mp h
  obtain ⟨nonce, hnonce, h⟩ := bind_eq_ok.mp h
  obtain ⟨rfl, rfl⟩ := Prod.mk.inj (Except.ok.inj h)
  simp only [Bool.and_eq_true] at hvalid
  exact ⟨decodeNonce_length hnonce, hvalid.1.2, hvalid.2, rfl⟩

theorem DataReceiver.signedAnswer_ok {r : DataReceiver} {given : SignedAnswer} (h : r.signedAnswer = .ok given) :
    ∃ hello peer, r.receiveDataHello = .ok hello ∧ r.peers.lookup peer.instanceId = some peer ∧
      given.peer = peer.identity ∧ hello.senderInstanceId = peer.instanceId ∧
      hello.receiverInstanceId = r.device.instanceId ∧ given.hello.nonce.length = relayNonceBytes ∧
      verifySignature given.peer.publicKey
        (clientAuthMessage given.peer.instanceId r.device.instanceId given.hello.nonce) hello.signature = .ok () ∧
      validFingerprint given.fingerprint = true ∧ validSecret r.secret = true := by
  obtain ⟨⟨identity, verified⟩, hverified, h⟩ := bind_eq_ok.mp h
  obtain ⟨fingerprint, -, h⟩ := bind_eq_ok.mp h
  obtain ⟨hvalid, h⟩ := ensure_bind.mp h
  obtain rfl := Except.ok.inj h
  obtain ⟨hello, hhello, hverified⟩ := bind_eq_ok.mp hverified
  cases hl : r.peers.lookup hello.senderInstanceId with
  | none =>
    rw [hl] at hverified
    cases hverified
  | some peer =>
    rw [hl] at hverified
    obtain ⟨verified', hverify, hpair⟩ := bind_eq_ok.mp hverified
    obtain ⟨rfl, rfl⟩ := Prod.mk.inj (Except.ok.inj hpair)
    obtain ⟨hids, hverify⟩ := ensure_bind.mp hverify
    obtain ⟨nonce, hnonce, hverify⟩ := bind_eq_ok.mp hverify
    obtain ⟨_, hsignature, hverify⟩ := bind_eq_ok.mp hverify
    obtain rfl := Except.ok.inj hverify
    simp only [Bool.and_eq_true, beq_iff_eq] at hids hvalid
    rw [hids.1, hids.2] at hsignature
    rw [hids.1] at hl
    exact ⟨hello, peer, hhello, hl, rfl, hids.1, hids.2, decodeNonce_length hnonce, hsignature, hvalid.1.2,
      hvalid.2⟩

theorem length_instanceId {id : String} (h : validInstanceId id = true) : (utf8 id).length = 32 := by
  rw [validInstanceId, Bool.and_eq_true, beq_iff_eq] at h
  rw [length_utf8, h.1]

theorem length_fingerprint {fingerprint : String} (h : validFingerprint fingerprint = true) :
    (utf8 fingerprint).length = 64 := by
  rw [validFingerprint, Bool.and_eq_true, beq_iff_eq] at h
  rw [length_utf8, h.1]

theorem length_secret {secret : String} (h : validSecret secret = true) : (utf8 secret).length ≤ 128 := by
  rw [validSecret, Bool.and_eq_true, decide_eq_true_eq, decide_eq_true_eq] at h
  rw [length_utf8]
  exact h.2

/-- The fields of an answer fit in their lengths. -/
theorem fits_answer {sender receiver fingerprint secret : String} {clientNonce serverNonce : Bytes}
    (hsender : (utf8 sender).length ≤ maxRelayFrame) (hreceiver : validInstanceId receiver = true)
    (hclient : clientNonce.length = relayNonceBytes) (hserver : serverNonce.length = relayNonceBytes)
    (hfingerprint : validFingerprint fingerprint = true) (hsecret : validSecret secret = true) :
    ∀ f ∈ [utf8 sender, utf8 receiver, clientNonce, serverNonce, utf8 fingerprint, utf8 secret],
      f.length < 2 ^ 32 := by
  have hr := length_instanceId hreceiver
  have hf := length_fingerprint hfingerprint
  have hs := length_secret hsecret
  rw [maxRelayFrame] at hsender
  rw [relayNonceBytes] at hclient hserver
  simp only [List.forall_mem_cons, List.not_mem_nil, false_implies, implies_true, and_true]
  omega

theorem DataReceiver.length_sender {r : DataReceiver} {hello : DataHello} (h : r.receiveDataHello = .ok hello) :
    (utf8 hello.senderInstanceId).length ≤ maxRelayFrame := by
  obtain ⟨⟨hello', rest⟩, hread, h⟩ := bind_eq_ok.mp h
  obtain rfl := Except.ok.inj h
  obtain ⟨payload, hdecode, hlength, -⟩ := readFrame_ok (cancellable_ok hread)
  exact (DataJson.length_sender hdecode).trans hlength

theorem DataSender.peer_valid {c : DataSender} {answer : DataAnswer} (h : c.receivedAnswer = .ok answer) :
    validInstanceId c.peer.instanceId = true := by
  obtain ⟨nonce, hsend, -⟩ := bind_eq_ok.mp h
  obtain ⟨_, hvalid, -⟩ := bind_eq_ok.mp hsend
  obtain ⟨hfields, -⟩ := ensure_bind.mp hvalid
  simp only [Bool.and_eq_true] at hfields
  exact hfields.1.2

theorem serverAuthMessage_ne_client (a b : String) (n m : Bytes) (f s a' b' : String) (n' : Bytes) :
    serverAuthMessage a b n m f s ≠ clientAuthMessage a' b' n' :=
  domain_ne 22 (by decide +kernel) (by decide +kernel) (by decide +kernel) _ _

theorem serverAuthMessage_ne_offer (a b : String) (n m : Bytes) (f s : String) (rest : Bytes) :
    serverAuthMessage a b n m f s ≠ offerSignatureDomain ++ rest :=
  domain_ne 9 (by decide +kernel) (by decide +kernel) (by decide +kernel) _ _

theorem serverAuthMessage_ne_probe (a b : String) (n m : Bytes) (f s : String) (rest : Bytes) :
    serverAuthMessage a b n m f s ≠ probeSignatureDomain ++ rest :=
  domain_ne 9 (by decide +kernel) (by decide +kernel) (by decide +kernel) _ _

/-! A run: any number of channels, opened and answered by any devices, and what these sign elsewhere. -/

structure DataRun where
  senders : List DataSender
  receivers : List DataReceiver
  /-- The offers and the answers to probes that have been signed, each with the public key. -/
  others : List (String × Bytes)
  others_domain : ∀ o ∈ others, ∃ rest, o.2 = offerSignatureDomain ++ rest ∨ o.2 = probeSignatureDomain ++ rest

namespace DataRun

variable (run : DataRun)

/-- The messages that have been signed with the key to a public key. -/
inductive Signed (publicKey : String) : Bytes → Prop where
  | hello {c : DataSender} (hc : c ∈ run.senders) (hkey : c.device.publicKeyBase64 = publicKey)
    (hvalid : c.peer.validate = .ok ()) : Signed publicKey c.message
  | answer {r : DataReceiver} {given : SignedAnswer} (hr : r ∈ run.receivers)
    (hkey : r.device.publicKeyBase64 = publicKey) (hgiven : r.signedAnswer = .ok given) :
    Signed publicKey (r.message given)
  | other {message : Bytes} (hmessage : (publicKey, message) ∈ run.others) : Signed publicKey message

/-- No signature that comes in an answer is a forgery: it has been made with the key. -/
def Unforgeable (publicKey : String) : Prop :=
  ∀ c ∈ run.senders, ∀ answer, c.receivedAnswer = .ok answer → ∀ message,
    verifySignature publicKey message answer.signature = .ok () → run.Signed publicKey message

def FreshNonces : Prop := ∀ c ∈ run.senders, ∀ c' ∈ run.senders, c.nonce = c'.nonce → c = c'

/-- The peer is paired with the device: it has the public key of the device under the id of the device. -/
def Paired (c : DataSender) : Prop :=
  ∀ r ∈ run.receivers, r.device.publicKeyBase64 = c.peer.publicKey → ∀ peer,
    r.peers.lookup c.device.instanceId = some peer → peer.noisePublic = c.device.publicKeyBase64

end DataRun

/-- The two devices stand for the same exchange, and for no other one. -/
structure DataAgreement (run : DataRun) (c : DataSender) (serverNonce : Bytes) (auth : SenderAuthentication)
    (r : DataReceiver) (given : SignedAnswer) : Prop where
  sender : given.peer.instanceId = c.device.instanceId
  receiver : r.device.instanceId = c.peer.instanceId
  clientNonce : given.hello.nonce = c.nonce
  serverNonce : r.nonce = serverNonce
  fingerprint : given.fingerprint = auth.quicFingerprint
  secret : r.secret = auth.quicSecret
  only : ∀ c' ∈ run.senders, given.hello.nonce = c'.nonce → c' = c

theorem DataSender.receiveDataAnswer_ok {c : DataSender} {auth : SenderAuthentication}
    (h : c.receiveDataAnswer = .ok auth) :
    ∃ answer serverNonce message, c.receivedAnswer = .ok answer ∧
      answerMessage c.device c.peer c.nonce answer = .ok (serverNonce, message) ∧
      verifySignature c.peer.publicKey message answer.signature = .ok () ∧
      auth = ⟨answer.quicFingerprint, answer.quicSecret,
        deriveTunnelKey c.nonce serverNonce c.device.publicKeyBase64 c.peer.publicKey⟩ := by
  obtain ⟨answer, hanswer, h⟩ := bind_eq_ok.mp h
  obtain ⟨⟨serverNonce, message⟩, hmessage, h⟩ := bind_eq_ok.mp h
  obtain ⟨_, hverify, h⟩ := bind_eq_ok.mp h
  exact ⟨answer, serverNonce, message, hanswer, hmessage, hverify, (Except.ok.inj h).symm⟩

/-- A device that has signed what was accepted stands for the same exchange. -/
theorem DataRun.agreement_of_message {run : DataRun} (hfresh : run.FreshNonces) {c : DataSender}
    (hc : c ∈ run.senders) {answer : DataAnswer} {serverNonce message : Bytes} (tunnelKey : Bytes)
    (hanswer : c.receivedAnswer = .ok answer)
    (hmessage : answerMessage c.device c.peer c.nonce answer = .ok (serverNonce, message))
    {r : DataReceiver} {given : SignedAnswer} (hgiven : r.signedAnswer = .ok given)
    (hsame : r.message given = message) :
    DataAgreement run c serverNonce ⟨answer.quicFingerprint, answer.quicSecret, tunnelKey⟩ r given := by
  obtain ⟨hserver, hfingerprint, hsecret, rfl⟩ := answerMessage_ok hmessage
  obtain ⟨hello, peer, hhello, -, hpeer, hid, -, hclient, -, hgivenprint, hgivensecret⟩ := r.signedAnswer_ok hgiven
  have hown : (utf8 c.device.instanceId).length ≤ maxRelayFrame := by
    rw [length_instanceId c.device.valid, maxRelayFrame]
    omega
  have hother : (utf8 given.peer.instanceId).length ≤ maxRelayFrame := by
    have hbound := r.length_sender hhello
    rw [hid] at hbound
    rw [hpeer]
    exact hbound
  have hfields := authenticationMessage_inj
    (fits_answer hother r.device.valid hclient r.nonce_length hgivenprint hgivensecret)
    (fits_answer hown (c.peer_valid hanswer) c.nonce_length hserver hfingerprint hsecret) rfl hsame
  simp only [List.cons.injEq, and_true] at hfields
  obtain ⟨hsender, hreceiver, hnonce, hservernonce, hprint, hsec⟩ := hfields
  refine ⟨utf8_injective hsender, utf8_injective hreceiver, hnonce, hservernonce, utf8_injective hprint,
    utf8_injective hsec, fun c' hc' hnonce' => ?_⟩
  exact hfresh c' hc' c hc (hnonce'.symm.trans hnonce)

/-- What was accepted has been signed by the paired device, in an answer to this hello, and the two have
the same tunnel key; whoever else has signed it stands for the same exchange. -/
theorem data_channel_agreement (run : DataRun) {c : DataSender} (hc : c ∈ run.senders)
    (hunforgeable : run.Unforgeable c.peer.publicKey) (hfresh : run.FreshNonces) (hpaired : run.Paired c) :
    ∀ auth, c.receiveDataAnswer = .ok auth → ∃ answer serverNonce message, c.receivedAnswer = .ok answer ∧
      answerMessage c.device c.peer c.nonce answer = .ok (serverNonce, message) ∧
      (∃ r ∈ run.receivers, ∃ given hello, r.signedAnswer = .ok given ∧ r.message given = message ∧
        r.device.publicKeyBase64 = c.peer.publicKey ∧ r.receiveDataHello = .ok hello ∧
        verifySignature c.device.publicKeyBase64 c.message hello.signature = .ok () ∧
        r.tunnelKey given = auth.tunnelKey) ∧
      (∀ r ∈ run.receivers, ∀ given, r.signedAnswer = .ok given → r.message given = message →
        DataAgreement run c serverNonce auth r given) ∧
      ∀ c' ∈ run.senders, c'.message ≠ message := by
  intro auth hauth
  obtain ⟨answer, serverNonce, message, hanswer, hmessage, hverify, rfl⟩ := c.receiveDataAnswer_ok hauth
  have hform := (answerMessage_ok hmessage).2.2.2
  refine ⟨answer, serverNonce, message, hanswer, hmessage, ?_, ?_, ?_⟩
  · cases hunforgeable c hc answer hanswer message hverify with
    | @hello c' hc' hkey hvalid =>
      exact absurd hform.symm (serverAuthMessage_ne_client _ _ _ _ _ _ _ _ _)
    | @answer r given hr hkey hgiven =>
      have hagree := run.agreement_of_message hfresh hc [] hanswer hmessage hgiven rfl
      obtain ⟨hello, peer, hhello, hlookup, hpeer, -, -, -, hsignature, -, -⟩ := r.signedAnswer_ok hgiven
      have hid : peer.instanceId = c.device.instanceId := by
        have hsender := hagree.sender
        rwa [hpeer] at hsender
      have hkeys : given.peer.publicKey = c.device.publicKeyBase64 := by
        rw [hpeer]
        exact hpaired r hr hkey peer (hid ▸ hlookup)
      rw [hkeys, hagree.sender, hagree.receiver, hagree.clientNonce] at hsignature
      refine ⟨r, hr, given, hello, hgiven, rfl, hkey, hhello, hsignature, ?_⟩
      rw [DataReceiver.tunnelKey, hagree.clientNonce, hagree.serverNonce, hkeys, hkey]
    | other hmem =>
      obtain ⟨rest, hoffer | hprobe⟩ := run.others_domain _ hmem
      · exact absurd (hform.symm.trans hoffer) (serverAuthMessage_ne_offer _ _ _ _ _ _ _)
      · exact absurd (hform.symm.trans hprobe) (serverAuthMessage_ne_probe _ _ _ _ _ _ _)
  · exact fun r _ given hgiven hsame => run.agreement_of_message hfresh hc _ hanswer hmessage hgiven hsame
  · exact fun c' _ hsame => serverAuthMessage_ne_client _ _ _ _ _ _ _ _ _ (hform.symm.trans hsame.symm)

end Channel

namespace Sample

/-- The signatures of the hello and of the answer. -/
def dataSignature : PairRole → String
  | .creator => "SGaCue3CsOSC/9mnmExC9FgzklL0vxliv3+Qwc21IjLMqETcoPImdndrNmaSYf8CjC9dM4mmCVwsUi70KyyIAw=="
  | .joiner => "FXMiWs+tA0P7ubU8KOEE/JFXxt50IQHN6Uzp/tnAjrinpyttjd4ILey9lx3G9lkPyhXWCDvWS0cD1NTtS8CyDQ=="

def dataSignatureBytes : PairRole → Bytes
  | .creator =>
    [72, 102, 130, 185, 237, 194, 176, 228, 130, 255, 217, 167, 152, 76, 66, 244, 88, 51, 146,
     82, 244, 191, 25, 98, 191, 127, 144, 193, 205, 181, 34, 50, 204, 168, 68, 220, 160, 242, 38,
     118, 119, 107, 54, 102, 146, 97, 255, 2, 140, 47, 93, 51, 137, 166, 9, 92, 44, 82, 46, 244,
     43, 44, 136, 3]
  | .joiner =>
    [21, 115, 34, 90, 207, 173, 3, 67, 251, 185, 181, 60, 40, 225, 4, 252, 145, 87, 198, 222,
     116, 33, 1, 205, 233, 76, 233, 254, 217, 192, 142, 184, 167, 167, 43, 109, 141, 222, 8, 45,
     236, 189, 151, 29, 198, 246, 89, 15, 202, 21, 214, 8, 59, 214, 75, 71, 3, 212, 212, 237, 75,
     192, 178, 13]

def dataNonce : PairRole → Bytes
  | .creator => List.replicate 32 4
  | .joiner => List.replicate 32 5

def dataFingerprint : String := "cccccccccccccccccccccccccccccccccccccccccccccccccccccccccccccccc"

def dataSecret : String := "dddddddddddddddddddddddddddddddd"

abbrev dataSigning : Signing where
  Key := PairRole
  publicKey := pairKey
  sign role _ := dataSignature role

abbrev dataDerivation : KeyDerivation where
  hkdf _ _ :=
    [102, 13, 207, 175, 217, 22, 121, 82, 141, 210, 234, 226, 53, 183, 57, 84, 35, 24, 32, 193,
     209, 220, 103, 184, 193, 220, 117, 113, 160, 107, 214, 61]

/-- What the two devices sign. -/
def dataMessage : PairRole → Bytes
  | .creator => clientAuthMessage "aaaaaaaaaaaaaaaaaaaaaaaaaaaaaaaa" "bbbbbbbbbbbbbbbbbbbbbbbbbbbbbbbb" (dataNonce .creator)
  | .joiner => serverAuthMessage "aaaaaaaaaaaaaaaaaaaaaaaaaaaaaaaa" "bbbbbbbbbbbbbbbbbbbbbbbbbbbbbbbb" (dataNonce .creator) (dataNonce .joiner)
      dataFingerprint dataSecret

@[reducible] def dataExternals : Externals :=
  { pairExternals with
    base64Decode := fun text =>
      if text = dataSignature .creator then some (dataSignatureBytes .creator)
      else if text = dataSignature .joiner then some (dataSignatureBytes .joiner)
      else pairExternals.base64Decode text
    verify := fun key message signature =>
      decide (∃ role ∈ [PairRole.creator, PairRole.joiner],
        key = pairKeyBytes role ∧ message = dataMessage role ∧ signature = dataSignatureBytes role) }

def dataHello : DataHello :=
  ⟨"aaaaaaaaaaaaaaaaaaaaaaaaaaaaaaaa", "bbbbbbbbbbbbbbbbbbbbbbbbbbbbbbbb", hexEncode (dataNonce .creator), dataSignature .creator⟩

def dataAnswer : DataAnswer :=
  ⟨"aaaaaaaaaaaaaaaaaaaaaaaaaaaaaaaa", "bbbbbbbbbbbbbbbbbbbbbbbbbbbbbbbb", hexEncode (dataNonce .creator),
    hexEncode (dataNonce .joiner), dataFingerprint, dataSecret, dataSignature .joiner⟩

/-- The JSON text of the two frames. -/
def dataText : PairRole → Bytes
  | .creator =>
    [123, 34, 115, 101, 110, 100, 101, 114, 95, 105, 110, 115, 116, 97, 110, 99, 101, 95, 105,
     100, 34, 58, 34, 97, 97, 97, 97, 97, 97, 97, 97, 97, 97, 97, 97, 97, 97, 97, 97, 97, 97, 97,
     97, 97, 97, 97, 97, 97, 97, 97, 97, 97, 97, 97, 97, 34, 44, 34, 114, 101, 99, 101, 105, 118,
     101, 114, 95, 105, 110, 115, 116, 97, 110, 99, 101, 95, 105, 100, 34, 58, 34, 98, 98, 98, 98,
     98, 98, 98, 98, 98, 98, 98, 98, 98, 98, 98, 98, 98, 98, 98, 98, 98, 98, 98, 98, 98, 98, 98,
     98, 98, 98, 98, 98, 34, 44, 34, 110, 111, 110, 99, 101, 34, 58, 34, 48, 52, 48, 52, 48, 52,
     48, 52, 48, 52, 48, 52, 48, 52, 48, 52, 48, 52, 48, 52, 48, 52, 48, 52, 48, 52, 48, 52, 48,
     52, 48, 52, 48, 52, 48, 52, 48, 52, 48, 52, 48, 52, 48, 52, 48, 52, 48, 52, 48, 52, 48, 52,
     48, 52, 48, 52, 48, 52, 48, 52, 48, 52, 48, 52, 34, 44, 34, 115, 105, 103, 110, 97, 116, 117,
     114, 101, 34, 58, 34, 83, 71, 97, 67, 117, 101, 51, 67, 115, 79, 83, 67, 47, 57, 109, 110,
     109, 69, 120, 67, 57, 70, 103, 122, 107, 108, 76, 48, 118, 120, 108, 105, 118, 51, 43, 81,
     119, 99, 50, 49, 73, 106, 76, 77, 113, 69, 84, 99, 111, 80, 73, 109, 100, 110, 100, 114, 78,
     109, 97, 83, 89, 102, 56, 67, 106, 67, 57, 100, 77, 52, 109, 109, 67, 86, 119, 115, 85, 105,
     55, 48, 75, 121, 121, 73, 65, 119, 61, 61, 34, 125]
  | .joiner =>
    [123, 34, 115, 101, 110, 100, 101, 114, 95, 105, 110, 115, 116, 97, 110, 99, 101, 95, 105,
     100, 34, 58, 34, 97, 97, 97, 97, 97, 97, 97, 97, 97, 97, 97, 97, 97, 97, 97, 97, 97, 97, 97,
     97, 97, 97, 97, 97, 97, 97, 97, 97, 97, 97, 97, 97, 34, 44, 34, 114, 101, 99, 101, 105, 118,
     101, 114, 95, 105, 110, 115, 116, 97, 110, 99, 101, 95, 105, 100, 34, 58, 34, 98, 98, 98, 98,
     98, 98, 98, 98, 98, 98, 98, 98, 98, 98, 98, 98, 98, 98, 98, 98, 98, 98, 98, 98, 98, 98, 98,
     98, 98, 98, 98, 98, 34, 44, 34, 99, 108, 105, 101, 110, 116, 95, 110, 111, 110, 99, 101, 34,
     58, 34, 48, 52, 48, 52, 48, 52, 48, 52, 48, 52, 48, 52, 48, 52, 48, 52, 48, 52, 48, 52, 48,
     52, 48, 52, 48, 52, 48, 52, 48, 52, 48, 52, 48, 52, 48, 52, 48, 52, 48, 52, 48, 52, 48, 52,
     48, 52, 48, 52, 48, 52, 48, 52, 48, 52, 48, 52, 48, 52, 48, 52, 48, 52, 48, 52, 34, 44, 34,
     115, 101, 114, 118, 101, 114, 95, 110, 111, 110, 99, 101, 34, 58, 34, 48, 53, 48, 53, 48, 53,
     48, 53, 48, 53, 48, 53, 48, 53, 48, 53, 48, 53, 48, 53, 48, 53, 48, 53, 48, 53, 48, 53, 48,
     53, 48, 53, 48, 53, 48, 53, 48, 53, 48, 53, 48, 53, 48, 53, 48, 53, 48, 53, 48, 53, 48, 53,
     48, 53, 48, 53, 48, 53, 48, 53, 48, 53, 48, 53, 34, 44, 34, 113, 117, 105, 99, 95, 102, 105,
     110, 103, 101, 114, 112, 114, 105, 110, 116, 34, 58, 34, 99, 99, 99, 99, 99, 99, 99, 99, 99,
     99, 99, 99, 99, 99, 99, 99, 99, 99, 99, 99, 99, 99, 99, 99, 99, 99, 99, 99, 99, 99, 99, 99,
     99, 99, 99, 99, 99, 99, 99, 99, 99, 99, 99, 99, 99, 99, 99, 99, 99, 99, 99, 99, 99, 99, 99,
     99, 99, 99, 99, 99, 99, 99, 99, 99, 34, 44, 34, 113, 117, 105, 99, 95, 115, 101, 99, 114,
     101, 116, 34, 58, 34, 100, 100, 100, 100, 100, 100, 100, 100, 100, 100, 100, 100, 100, 100,
     100, 100, 100, 100, 100, 100, 100, 100, 100, 100, 100, 100, 100, 100, 100, 100, 100, 100, 34,
     44, 34, 115, 105, 103, 110, 97, 116, 117, 114, 101, 34, 58, 34, 70, 88, 77, 105, 87, 115, 43,
     116, 65, 48, 80, 55, 117, 98, 85, 56, 75, 79, 69, 69, 47, 74, 70, 88, 120, 116, 53, 48, 73,
     81, 72, 78, 54, 85, 122, 112, 47, 116, 110, 65, 106, 114, 105, 110, 112, 121, 116, 116, 106,
     100, 52, 73, 76, 101, 121, 57, 108, 120, 51, 71, 57, 108, 107, 80, 121, 104, 88, 87, 67, 68,
     118, 87, 83, 48, 99, 68, 49, 78, 84, 116, 83, 56, 67, 121, 68, 81, 61, 61, 34, 125]

abbrev dataJson : DataJson where
  encodeHello hello := if hello = dataHello then some (dataText .creator) else none
  decodeHello bytes := if bytes = dataText .creator then some dataHello else none
  encodeAnswer answer := if answer = dataAnswer then some (dataText .joiner) else none
  decodeAnswer bytes := if bytes = dataText .joiner then some dataAnswer else none
  decode_answer {answer bytes} h := by
    split at h
    · next hanswer =>
      obtain rfl := Option.some.inj h
      rw [if_pos rfl, hanswer]
    · cases h
  length_sender {bytes hello} h := by
    split at h
    · next hbytes =>
      obtain rfl := Option.some.inj h
      rw [hbytes]
      decide +kernel
    · cases h

attribute [local instance] dataSigning dataDerivation dataExternals dataJson

def dataDevice : PairRole → DeviceIdentity
  | .creator => ⟨"aaaaaaaaaaaaaaaaaaaaaaaaaaaaaaaa", .creator, by decide +kernel⟩
  | .joiner => ⟨"bbbbbbbbbbbbbbbbbbbbbbbbbbbbbbbb", .joiner, by decide +kernel⟩

def dataSender : DataSender where
  device := dataDevice .creator
  peer := pairIdentity .joiner
  nonce := dataNonce .creator
  nonce_length := by decide
  cancelled _ := false
  failure := none
  stream := ⟨framed 4 (dataText .joiner), [], .finished⟩

def dataPeer : SshPeer := ⟨"aaaaaaaaaaaaaaaaaaaaaaaaaaaaaaaa", "Creator", "aaaaaaaaaaaaaaaaaaaaaaaaaaaaaaaa", 32001, pairKey .creator, true⟩

def dataReceiver : DataReceiver where
  device := dataDevice .joiner
  peers := (∅ : SshPeers).insert "aaaaaaaaaaaaaaaaaaaaaaaaaaaaaaaa" dataPeer
  nonce := dataNonce .joiner
  nonce_length := by decide
  server := .ok dataFingerprint
  secret := dataSecret
  cancelled _ := false
  failure := none
  stream := ⟨framed 4 (dataText .creator), [], .finished⟩

/-- The receiver has also signed an offer. -/
def dataRun : DataRun where
  senders := [dataSender]
  receivers := [dataReceiver]
  others := [(pairKey .joiner, offerSignatureDomain ++ [123, 125])]
  others_domain o ho := ⟨[123, 125], .inl (by rw [List.mem_singleton.mp ho])⟩

def dataAuthentication : SenderAuthentication := ⟨dataFingerprint, dataSecret, dataDerivation.hkdf [] []⟩

theorem dataMessage_of_verify {message : Bytes}
    (h : verifySignature (pairKey .joiner) message (dataSignature .joiner) = .ok ()) :
    message = dataMessage .joiner := by
  have hdecoded : Externals.base64Decode (dataSignature .joiner) = some (dataSignatureBytes .joiner) := by
    decide +kernel
  have hkey : verifyingKey (pairKey .joiner) = .ok (pairKeyBytes .joiner) := by decide +kernel
  rw [verifySignature, hdecoded] at h
  obtain ⟨-, h⟩ := ensure_bind.mp h
  obtain ⟨key, hkey', h⟩ := bind_eq_ok.mp h
  obtain rfl := Except.ok.inj (hkey.symm.trans hkey')
  have hverified : Externals.verify (pairKeyBytes .joiner) message (dataSignatureBytes .joiner) = true := by
    by_contra hfalse
    rw [ensure, if_neg hfalse] at h
    cases h
  obtain ⟨role, -, hbytes, hmessage, -⟩ := of_decide_eq_true hverified
  cases role with
  | creator => exact absurd hbytes (by decide +kernel)
  | joiner => exact hmessage

def dataSigned : SignedAnswer := ⟨pairIdentity .creator, ⟨"aaaaaaaaaaaaaaaaaaaaaaaaaaaaaaaa", dataNonce .creator⟩, dataFingerprint⟩

theorem signedAnswer_dataReceiver : dataReceiver.signedAnswer = .ok dataSigned := by decide +kernel

theorem unforgeable_dataRun : dataRun.Unforgeable dataSender.peer.publicKey := by
  intro c hc answer hanswer message hverify
  obtain rfl := List.mem_singleton.mp hc
  have hreceived : dataSender.receivedAnswer = .ok dataAnswer := by decide +kernel
  rw [← Except.ok.inj (hreceived.symm.trans hanswer)] at hverify
  have hmessage : dataReceiver.message dataSigned = dataMessage .joiner := by decide +kernel
  rw [dataMessage_of_verify hverify, ← hmessage]
  exact .answer (List.mem_singleton_self dataReceiver) rfl signedAnswer_dataReceiver

theorem freshNonces_dataRun : dataRun.FreshNonces := by
  intro c hc c' hc' _
  rw [List.mem_singleton.mp hc, List.mem_singleton.mp hc']

theorem paired_dataRun : dataRun.Paired dataSender := by
  intro r hr _ peer hpeer
  obtain rfl := List.mem_singleton.mp hr
  have hown : dataReceiver.peers.lookup dataSender.device.instanceId = some dataPeer := by decide +kernel
  obtain rfl := Option.some.inj (hown.symm.trans hpeer)
  rfl

end Sample

attribute [local instance] Sample.dataSigning Sample.dataDerivation Sample.dataExternals Sample.dataJson

/-- The sender has the key of the tunnel that the receiver has. -/
theorem data_channel_agreement_sample :
    Sample.dataSender.receiveDataAnswer = .ok Sample.dataAuthentication ∧
      ∃ r ∈ Sample.dataRun.receivers, ∃ given, r.signedAnswer = .ok given ∧
        r.tunnelKey given = Sample.dataAuthentication.tunnelKey := by
  have hresult : Sample.dataSender.receiveDataAnswer = .ok Sample.dataAuthentication := by decide +kernel
  obtain ⟨_, _, _, -, -, ⟨r, hr, given, _, hgiven, -, -, -, -, hkey⟩, -, -⟩ :=
    data_channel_agreement Sample.dataRun (List.mem_singleton_self _) Sample.unforgeable_dataRun
      Sample.freshNonces_dataRun Sample.paired_dataRun _ hresult
  exact ⟨hresult, r, hr, given, hgiven, hkey⟩

end InkHole
