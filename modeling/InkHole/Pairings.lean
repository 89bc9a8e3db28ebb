import InkHole.Discovery

/-! The devices a relay session is paired with, each under the instance id it has told. -/

set_option linter.unusedSectionVars false

namespace InkHole

variable [Externals]

structure PairingIdentity where
  name : String
  instanceId : String
  remotePort : Nat
  publicKey : String
  deriving DecidableEq, Repr

def verifyingKey (encoded : String) : Except CoreError Bytes :=
  match Externals.base64Decode encoded with
  | some b =>
    if b.length = 32 ∧ Externals.validVerifyingKey b then .ok b
    else .error (.protocol "SSH relay peer public key is invalid")
  | none => .error (.protocol "SSH relay peer public key is invalid")

def PairingIdentity.validate (identity : PairingIdentity) : Except CoreError Unit := do
  ensure (!identity.name.toList.all isWhitespace && identity.name.utf8ByteSize ≤ 255 &&
      validInstanceId identity.instanceId && identity.remotePort != 0)
    (.protocol "invalid SSH relay peer identity")
  let _ ← verifyingKey identity.publicKey

structure SshPeer where
  id : String
  name : String
  instanceId : String
  remotePort : Nat
  noisePublic : String
  endToEnd : Bool
  deriving DecidableEq, Repr

namespace SshPeer

def fromIdentity (identity : PairingIdentity) : Except CoreError SshPeer := do
  identity.validate
  return ⟨identity.instanceId, identity.name, identity.instanceId, identity.remotePort, identity.publicKey, true⟩

def identity (peer : SshPeer) : PairingIdentity :=
  ⟨peer.name, peer.instanceId, peer.remotePort, peer.noisePublic⟩

def normalize (peer : SshPeer) (localInstanceId : String) : Except CoreError SshPeer := do
  let instanceId := toAsciiLowercase (trim peer.instanceId)
  let id := if (trim peer.id).isEmpty then instanceId else trim peer.id
  let peer : SshPeer := ⟨id, trim peer.name, instanceId, peer.remotePort, trim peer.noisePublic, true⟩
  peer.identity.validate
  ensure (peer.instanceId != localInstanceId) (.invalidRequest "SSH relay peer cannot be the local device")
  return peer

end SshPeer

abbrev SshPeers := Table String SshPeer

/-- A relay session, with the id of the device it runs on. -/
structure SshRelaySession where
  localInstanceId : String
  peers : SshPeers

namespace SshRelaySession

def seedPeer (localInstanceId : String) (seeded : SshPeers) (peer : SshPeer) : Except CoreError SshPeers := do
  let peer ← peer.normalize localInstanceId
  return seeded.insert peer.instanceId peer

/-- The pairings a session is started with. -/
def seed (localInstanceId : String) (peers : List SshPeer) : Except CoreError SshRelaySession := do
  let peers ← peers.foldlM (seedPeer localInstanceId) ∅
  return ⟨localInstanceId, peers⟩

/-- A pairing takes the place of the one with its id. -/
def addPeer (relay : SshRelaySession) (peer : SshPeer) : SshRelaySession :=
  { relay with peers := relay.peers.insert peer.instanceId peer }

/-- The peer that a pairing exchange has brought, in the form it is kept in. -/
def pairedPeer (relay : SshRelaySession) (identity : PairingIdentity) : Except CoreError SshPeer := do
  let peer ← SshPeer.fromIdentity identity
  peer.normalize relay.localInstanceId

def peerList (relay : SshRelaySession) : List SshPeer :=
  relay.peers.values.insertionSort fun left right =>
    left.name < right.name ∨ left.name = right.name ∧ left.instanceId ≤ right.instanceId

end SshRelaySession

/-- Each pairing stands under the id of its device. -/
def SshPeers.Keyed (peers : SshPeers) : Prop := ∀ id peer, peers.lookup id = some peer → peer.instanceId = id

theorem SshPeers.Keyed.insert {peers : SshPeers} (h : peers.Keyed) (peer : SshPeer) :
    SshPeers.Keyed (AList.insert peer.instanceId peer peers) := by
  intro id p hp
  rcases Table.lookup_insert_cases hp with ⟨rfl, rfl⟩ | ⟨-, hp⟩
  · rfl
  · exact h id p hp

theorem keyed_foldlM {localInstanceId : String} {peers : List SshPeer} {seeded t : SshPeers} (h : seeded.Keyed)
    (ht : peers.foldlM (SshRelaySession.seedPeer localInstanceId) seeded = .ok t) : t.Keyed := by
  induction peers generalizing seeded with
  | nil =>
    obtain rfl := Except.ok.inj ht
    exact h
  | cons peer peers ih =>
    rw [List.foldlM_cons, bind_eq_ok] at ht
    obtain ⟨seeded', hs, ht⟩ := ht
    obtain ⟨p, -, hp⟩ := bind_eq_ok.mp hs
    obtain rfl := Except.ok.inj hp
    exact ih (h.insert p) ht

theorem keyed_seed {localInstanceId : String} {peers : List SshPeer} {relay : SshRelaySession}
    (h : SshRelaySession.seed localInstanceId peers = .ok relay) : relay.peers.Keyed := by
  obtain ⟨t, ht, h⟩ := bind_eq_ok.mp h
  obtain rfl := Except.ok.inj h
  exact keyed_foldlM (fun id p hp => by simp at hp) ht

end InkHole
