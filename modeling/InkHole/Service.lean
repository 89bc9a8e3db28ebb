import InkHole.Routes

/-! What happens to a service beside its sends: sessions and relays come and go, devices
are discovered and paired. And the list of peers it shows. -/

namespace InkHole

variable [Externals] [Texts]

inductive LanEvent where
  | discovery (sessionId : String) (event : DiscoveryEvent)
  | startLan (sessionId instanceId : String) (discovers : Bool)
  | stopLan (sessionId : String)
  | listen (relaySessionId sessionId : String) (peers : List SshPeer)
  | pair (relay : RelayHandle) (identity : PairingIdentity)
  | cancelSession (relaySessionId : String)
  | reset
  | network (network : Network)

namespace LanSession

def close (session : LanSession) : LanSession := { session with closed := true }

def discover (timings : UdpDiscoveryTimings) (event : DiscoveryEvent) (session : LanSession) : LanSession :=
  { session with discovery := session.discovery.map fun d => d.handle timings event }

end LanSession

def Relay.unregister (relay : Relay) : Relay := { relay with registered := false }

namespace LanService

def empty (network : Network) : LanService := ⟨∅, ∅, network⟩

def drain (s : LanService) : LanService :=
  { s with
    sessions := Table.mapValues s.sessions fun _ => LanSession.close
    relays := Table.mapValues s.relays fun _ => Relay.unregister }

def startLan (s : LanService) (sessionId instanceId : String) (discovers : Bool) : LanService :=
  -- the id of a new session is fresh
  if validInstanceId instanceId ∧ s.sessions.lookup sessionId = none then
    { s.drain with
      sessions := s.drain.sessions.insert sessionId
        ⟨instanceId, if discovers then some Discovery.empty else none, false⟩ }
  else s.drain

def stopLan (s : LanService) (sessionId : String) : LanService :=
  { s with
    sessions := Table.mapValues s.sessions fun id session => if id = sessionId then session.close else session
    relays := Table.mapValues s.relays fun handle relay =>
      if handle.lanSessionId = sessionId then relay.unregister else relay }

/-- A session has one relay at most. -/
def listen (s : LanService) (relaySessionId sessionId : String) (peers : List SshPeer) : LanService :=
  match s.sessions.lookup sessionId with
  | some ⟨instanceId, _, false⟩ =>
    match SshRelaySession.seed instanceId peers with
    | .ok session =>
      if s.relaysForLan sessionId = [] ∧ s.relays.lookup ⟨relaySessionId, sessionId⟩ = none then
        { s with relays := s.relays.insert ⟨relaySessionId, sessionId⟩ ⟨session, true⟩ }
      else s
    | .error _ => s
  | _ => s

def pair (s : LanService) (handle : RelayHandle) (identity : PairingIdentity) : LanService :=
  match s.relays.lookup handle with
  | some relay =>
    match relay.session.pairedPeer identity with
    | .ok peer => { s with relays := s.relays.insert handle { relay with session := relay.session.addPeer peer } }
    | .error _ => s
  | none => s

def apply (s : LanService) : LanEvent → LanService
  | .discovery sessionId event =>
    { s with sessions := Table.mapValues s.sessions fun id session =>
        if id = sessionId then session.discover {} event else session }
  | .startLan sessionId instanceId discovers => s.startLan sessionId instanceId discovers
  | .stopLan sessionId => s.stopLan sessionId
  | .listen relaySessionId sessionId peers => s.listen relaySessionId sessionId peers
  | .pair relay identity => s.pair relay identity
  | .cancelSession relaySessionId =>
    { s with relays := Table.mapValues s.relays fun handle relay =>
        if handle.relaySessionId = relaySessionId then relay.unregister else relay }
  | .reset => s.drain
  | .network network => { s with network := network }

end LanService

/-- A device that only a relay leads to. -/
def relayedPeer (peer : SshPeer) : DiscoveredPeer where
  instanceId := peer.instanceId
  name := peer.name
  host := ""
  hosts := []
  port := peer.remotePort
  capabilities := ["blake3", "folder-v1", "quic-v2", "ssh-relay-v2"]
  fingerprint := ""
  publicKey := peer.noisePublic
  serviceName := "ssh"

def DiscoveredPeer.withRelay (direct : DiscoveredPeer) : DiscoveredPeer :=
  { direct with
    serviceName := "lan+ssh"
    capabilities := if direct.capabilities.contains "ssh-relay-v2" then direct.capabilities
      else (direct.capabilities ++ ["ssh-relay-v2"]).insertionSort (· ≤ ·) }

/-- Peers are taken for one device when their ids are equal. -/
def mergePeer (peer : SshPeer) : List DiscoveredPeer → List DiscoveredPeer
  | [] => [relayedPeer peer]
  | direct :: peers =>
    if direct.instanceId == peer.instanceId then direct.withRelay :: peers else direct :: mergePeer peer peers

def LanService.relayPeers (s : LanService) (relay : RelayHandle) : List SshPeer :=
  match s.relays.lookup relay with
  | some r => r.session.peerList
  | none => []

def combinedPeers (s : LanService) (sessionId : String) : List DiscoveredPeer :=
  (((s.relaysForLan sessionId).flatMap s.relayPeers).foldl (fun peers peer => mergePeer peer peers)
    (s.snapshot sessionId)).insertionSort fun left right =>
      left.name < right.name ∨ left.name = right.name ∧ left.instanceId ≤ right.instanceId

end InkHole
