import InkHole.Fallible
import InkHole.Pairings

/-! The service of one device: its sessions on the local network, its relay sessions, and
a send, which looks its routes up in both and takes them one after the other. -/

namespace InkHole

variable [Externals] [Texts]

/-- A session is closed once it is out of the service; a send that has it may still use it. -/
structure LanSession where
  instanceId : String
  discovery : Option Discovery
  closed : Bool

/-- What never changes about a relay session. -/
structure RelayHandle where
  relaySessionId : String
  lanSessionId : String
  deriving DecidableEq, Repr

structure Relay where
  session : SshRelaySession
  registered : Bool

structure PeerEndpoint where
  address : SocketAddr
  certificateFingerprint : String
  deriving DecidableEq, Repr

/-- How the world outside answers. -/
structure Network where
  metadata : String → Except CoreError Unit
  resolve : String → Nat → Except CoreError SocketAddr
  deliver : PeerEndpoint → Except CoreError Unit
  connect : SshPeer → Except CoreError PeerEndpoint
  close : Except CoreError Unit

structure LanService where
  sessions : Table String LanSession
  relays : Table RelayHandle Relay
  network : Network

structure LanSendParams where
  sessionId : String
  path : String
  instanceId : String
  host : String
  port : Nat
  fingerprint : String
  deriving DecidableEq, Repr

/-- The id a send is addressed to. -/
def LanSendParams.target (params : LanSendParams) : String := toAsciiLowercase (trim params.instanceId)

def LanSendParams.certificate (params : LanSendParams) : String := toAsciiLowercase (trim params.fingerprint)

structure SendRoutes where
  direct : List PeerEndpoint
  relay : Option RelayHandle
  instanceId : String
  deriving DecidableEq, Repr

/-- How a route names the device at its end. -/
inductive Device where
  | certificate (fingerprint : String)
  | key (publicKey : String)
  deriving DecidableEq, Repr

inductive SendCall : Type → Type 1 where
  | session (params : LanSendParams) : SendCall (Except CoreError Unit)
  | metadata (path : String) : SendCall (Except CoreError Unit)
  | discovered (sessionId instanceId : String) : SendCall Bool
  | peer (sessionId instanceId : String) : SendCall (Option DiscoveredPeer)
  | resolveAddress (host : String) (port : Nat) (fingerprint : String) : SendCall (Except CoreError SocketAddr)
  | relaysForLan (sessionId : String) : SendCall (List RelayHandle)
  | pairing (relay : RelayHandle) (instanceId : String) : SendCall (Option SshPeer)
  | closed (sessionId : String) : SendCall Bool
  | sendFile (endpoint : PeerEndpoint) : SendCall (Except CoreError Unit)
  | connect (peer : SshPeer) : SendCall (Except CoreError PeerEndpoint)
  | sendThrough (endpoint : PeerEndpoint) : SendCall (Except CoreError Unit)
  | closeTunnel : SendCall (Except CoreError Unit)

/-- What a send has been told to do, the routes it has learned and the devices it has turned to. -/
inductive SendEffect where
  | began (params : LanSendParams)
  | routed (device : Device)
  | listed (relay : RelayHandle)
  | contacted (device : Device)
  deriving DecidableEq, Repr

namespace LanService

def snapshot (s : LanService) (sessionId : String) : List DiscoveredPeer :=
  match s.sessions.lookup sessionId with
  | some ⟨_, some d, _⟩ => d.snapshot
  | _ => []

def peer (s : LanService) (sessionId instanceId : String) : Option DiscoveredPeer :=
  (s.snapshot sessionId).find? (·.instanceId == instanceId)

def session (s : LanService) (sessionId : String) : Except CoreError Unit :=
  if sessionId.isEmpty then .error (.invalidRequest "session_id is required")
  else
    match s.sessions.lookup sessionId with
    | some ⟨_, _, false⟩ => .ok ()
    | _ => .error (.invalidRequest "unknown lan session")

def registered (s : LanService) (relay : RelayHandle) : Bool := (s.relays.lookup relay).any (·.registered)

def relaysForLan (s : LanService) (sessionId : String) : List RelayHandle :=
  (s.relays.entries.map Sigma.fst).filter fun relay => relay.lanSessionId == sessionId && s.registered relay

def pairing (s : LanService) (relay : RelayHandle) (instanceId : String) : Option SshPeer :=
  (s.relays.lookup relay).bind fun r => r.session.peers.lookup instanceId

end LanService

namespace SendCall

def reply {β : Type} (s : LanService) : SendCall β → β
  | .session params => s.session params.sessionId
  | .metadata path => s.network.metadata path
  | .discovered sessionId instanceId => (s.peer sessionId instanceId).isSome
  | .peer sessionId instanceId => s.peer sessionId instanceId
  | .resolveAddress host port _ => s.network.resolve host port
  | .relaysForLan sessionId => s.relaysForLan sessionId
  | .pairing relay instanceId => s.pairing relay instanceId
  | .closed sessionId => (s.sessions.lookup sessionId).all (·.closed)
  | .sendFile endpoint => s.network.deliver endpoint
  | .connect p => s.network.connect p
  | .sendThrough endpoint => s.network.deliver endpoint
  | .closeTunnel => s.network.close

def effect {β : Type} : SendCall β → β → List SendEffect
  | .session params => fun _ => [.began params]
  | .peer _ _ => fun
    | some p => [.routed (.certificate p.fingerprint)]
    | none => []
  | .resolveAddress _ _ fingerprint => fun
    | .ok _ => [.routed (.certificate fingerprint)]
    | .error _ => []
  | .relaysForLan _ => fun relays => relays.map .listed
  | .pairing _ _ => fun
    | some p => [.routed (.key p.noisePublic)]
    | none => []
  | .sendFile endpoint => fun _ => [.contacted (.certificate endpoint.certificateFingerprint)]
  | .connect p => fun _ => [.contacted (.key p.noisePublic)]
  | _ => fun _ => []

instance : Shared SendCall LanService Empty SendEffect where
  exec c s := (c.reply s, s)
  acquires _ := none
  releases _ := none
  fault _ := none
  effect := effect

end SendCall

abbrev SendM := Fallible SendCall CoreError

namespace SendM

/-- A call whose error becomes the error of the caller. -/
def invoke {β : Type} (c : SendCall (Except CoreError β)) : SendM β := ExceptT.mk (.call c .ret)

def ask {β : Type} (c : SendCall β) : SendM β := ExceptT.mk (.call c fun r => .ret (.ok r))

def throwIf (bad : Prop) [Decidable bad] (e : CoreError) : SendM Unit := if bad then throw e else pure ()

end SendM

open SendM

/-- Each host is looked up, and an address that has come before is left out. -/
def resolveHosts (port : Nat) (fingerprint : String) :
    List String → List PeerEndpoint → Option CoreError → SendM (List PeerEndpoint)
  | [], endpoints, firstError =>
    if endpoints.isEmpty then throw (firstError.getD (.invalidRequest "target device is not available"))
    else pure endpoints
  | host :: hosts, endpoints, firstError => do
    match ← ask (.resolveAddress host port fingerprint) with
    | .ok address =>
      if endpoints.any (·.address == address) then resolveHosts port fingerprint hosts endpoints firstError
      else resolveHosts port fingerprint hosts (endpoints ++ [⟨address, fingerprint⟩]) firstError
    | .error e => resolveHosts port fingerprint hosts endpoints (some (firstError.getD e))

def resolveTargets (params : LanSendParams) : SendM (List PeerEndpoint) := do
  match ← (if params.target.isEmpty then pure none else ask (.peer params.sessionId params.target)) with
  | some p => resolveHosts p.port p.fingerprint (if p.hosts.isEmpty then [p.host] else p.hosts) [] none
  | none =>
    throwIf ((trim params.host).isEmpty ∨ params.port = 0) (.invalidRequest "target device is not available")
    throwIf (trim params.fingerprint).isEmpty (.invalidRequest "target certificate fingerprint is required")
    let address ← invoke (.resolveAddress params.host params.port params.certificate)
    return [⟨address, params.certificate⟩]

/-- The first relay session that is paired with the device. -/
def firstPaired (instanceId : String) : List RelayHandle → SendM (Option RelayHandle)
  | [] => pure none
  | relay :: relays => do
    if (← ask (.pairing relay instanceId)).isSome then return some relay
    firstPaired instanceId relays

def relayForPeer (sessionId instanceId : String) : SendM (Option RelayHandle) := do
  let relays ← ask (.relaysForLan sessionId)
  firstPaired instanceId relays

def resolveSendRoutes (params : LanSendParams) : SendM SendRoutes := do
  let discovered ←
    (if params.target.isEmpty then pure false else ask (.discovered params.sessionId params.target))
  let direct ← (if discovered ∨ ¬ (trim params.host).isEmpty then resolveTargets params else pure [])
  let relay ← (if params.target.isEmpty then pure none else relayForPeer params.sessionId params.target)
  throwIf (direct.isEmpty ∧ relay.isNone) (.invalidRequest "target device is not available")
  return ⟨direct, relay, params.target⟩

def relayFallbackAllowed : CoreError → Bool
  | .cancelled | .invalidRequest _ | .invalidTransfer _ | .digestMismatch _ => false
  | _ => true

/-- The last error when every endpoint has failed, and nothing when one has not. -/
def sendDirect : List PeerEndpoint → Option CoreError → SendM (Option (Option CoreError))
  | [], directError => pure (some directError)
  | endpoint :: endpoints, _ => do
    match ← ask (.sendFile endpoint) with
    | .ok _ => pure none
    | .error e => if relayFallbackAllowed e then sendDirect endpoints (some e) else throw e

def connectSender (relay : RelayHandle) (instanceId : String) : SendM PeerEndpoint := do
  match ← ask (.pairing relay instanceId) with
  | some peer => invoke (.connect peer)
  | none => throw (.invalidRequest "unknown SSH relay peer")

def relayError (directError : Option CoreError) (e : CoreError) : CoreError :=
  match directError with
  | some direct => .protocol s!"LAN route failed ({Texts.display direct}); SSH relay failed ({Texts.display e})"
  | none => e

def sendWithRoutes (routes : SendRoutes) : SendM Unit := do
  match ← sendDirect routes.direct none with
  | none => pure ()
  | some directError =>
    match routes.relay with
    | none => throw (directError.getD (.invalidRequest "target device is not available"))
    | some relay =>
      let endpoint ← tryCatch (connectSender relay routes.instanceId) fun e => throw (relayError directError e)
      let sent ← ask (.sendThrough endpoint)
      let closed ← ask .closeTunnel
      liftM sent
      liftM closed

/-- A send, from the request to the end of the task that it starts. -/
def lanSend (params : LanSendParams) : SendM Unit := do
  invoke (.session params)
  throwIf (trim params.path).isEmpty (.invalidRequest "path is required")
  invoke (.metadata params.path)
  let routes ← resolveSendRoutes params
  throwIf (← ask (.closed params.sessionId)) (.invalidRequest "lan session is closed")
  sendWithRoutes routes

end InkHole
