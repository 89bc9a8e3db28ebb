import InkHole.Lifetimes

/-! The operations of a service as it runs them, one section after the other. -/

namespace InkHole

namespace JsonService

/-- What decides the way of `lan.start`: whether a name, an inbox and a valid id are given, the
port, and whether any kind of discovery is wanted. -/
structure LanStartParams where
  complete : Bool
  listenPort : Nat
  discovers : Bool
  deriving DecidableEq, Repr

inductive Reply where
  | started (sessionId : Nat)
  | stopped (stopped : Bool)
  | listening (sessionId : Nat)
  | wormhole (sessionId : Nat)
  | cancelled (cancelled : Bool)
  | used
  | done
  deriving DecidableEq, Repr

def refuse (message : String) : Except ServiceError Reply := .error (.refused (.invalidRequest message))

def serviceClosed : Except ServiceError Reply := refuse "service is closed"
def unknownLanSession : Except ServiceError Reply := refuse "unknown lan session"
def sessionIdRequired : Except ServiceError Reply := refuse "session_id is required"

/-- The first error of two results. -/
def firstError (first second : Except ServiceError Unit) : Except ServiceError Unit :=
  match first with
  | .error e => .error e
  | .ok _ => second

def request {β : Type} (c : Call β) : Program Call β := .request c

/-- Closing a relay never fails. -/
def closeSshRelay (id : Nat) : Program Call Unit := do
  request (.cancelRelay id)
  request (.joinRelay id)

def closeSshRelays : List Nat → Program Call Unit
  | [] => pure ()
  | id :: ids => do
    closeSshRelay id
    closeSshRelays ids

def closeWormhole (id : Nat) : Program Call (Except ServiceError Unit) := do
  request (.cancelWormhole id)
  if ← request (.takeHandle id) then
    request (.joinTask id)
  else
    pure (.ok ())

/-- An error does not keep the others from being closed. -/
def closeWormholes : List Nat → Program Call (Except ServiceError Unit)
  | [] => pure (.ok ())
  | id :: ids => do
    let closed ← closeWormhole id
    let others ← closeWormholes ids
    pure (firstError closed others)

/-- The second to close a session leaves the rest to the first. -/
def closeLan (id : Nat) : Program Call (Except ServiceError Unit) := do
  if ← request (.closeSends id) then
    pure (.ok ())
  else
    let discovery ← if ← request (.closeDiscovery id) then request .attempt else pure (.ok ())
    request (.closeServer id)
    let server ← request .attempt
    let sends ← request .attempt
    pure (firstError discovery (firstError server sends))

def closeSessions (me : Nat) : List Nat → Program Call (Except ServiceError Unit)
  | [] => pure (.ok ())
  | id :: ids => do
    let closed ← closeLan id
    request (.dropLan me id)
    let others ← closeSessions me ids
    pure (firstError closed others)

def dropLans (me : Nat) : List Nat → Program Call Unit
  | [] => pure ()
  | id :: ids => do
    request (.dropLan me id)
    dropLans me ids

/-- A fixed port that is taken is no reason not to listen on another one. -/
def bindServer (me listenPort : Nat) : Program Call (Option Nat) := do
  match ← request (.bindServer me) with
  | some id => pure (some id)
  | none => if listenPort = 0 then pure none else request (.bindServer me)

/-- The end of `lan.start`: a service that has closed meanwhile gets no session. -/
def registerLan (me id : Nat) : Program Call (Except ServiceError Reply) := do
  if ← request (.insertSession me id) then
    request (.dropLan me id)
    pure (.ok (.started id))
  else
    let closed ← closeLan id
    request (.dropLan me id)
    pure (closed.bind fun _ => serviceClosed)

def startLan (me : Nat) (params : LanStartParams) : Program Call (Except ServiceError Reply) := do
  let (sessions, relays) ← request (.takeStale me)
  closeSshRelays relays
  let _ ← closeSessions me sessions
  if !params.complete then
    pure (refuse "peer_name, inbox and a valid instance_id are required")
  else
    match ← request .attempt with
    | .error e => pure (.error e)
    | .ok _ =>
      match ← bindServer me params.listenPort with
      | none => pure (.error .outside)
      | some id =>
        if params.discovers then
          let _ ← request (.startDiscovery me id)
        registerLan me id

def stopLan (me : Nat) : SessionId → Program Call (Except ServiceError Reply)
  | .empty => pure sessionIdRequired
  | .lan id => do
    let (found, relays) ← request (.takeLan me id)
    closeSshRelays relays
    if found then
      let closed ← closeLan id
      request (.dropLan me id)
      pure (closed.map fun _ => .stopped true)
    else
      pure (.ok (.stopped false))
  | _ => pure (.ok (.stopped false))

/-- What an operation does with the session of an id; it lets go of the session at the end, if it
has not handed it on. -/
def withLan (me : Nat) (sessionId : SessionId) (use : Nat → Program Call (Except ServiceError Reply)) :
    Program Call (Except ServiceError Reply) :=
  match sessionId with
  | .empty => pure sessionIdRequired
  | .lan id => do
    if ← request (.session me id) then
      let r ← use id
      request (.dropLan me id)
      pure r
    else
      pure unknownLanSession
  | _ => pure unknownLanSession

/-- The operations that need the session and nothing else of the tables. -/
def useLan (me : Nat) (sessionId : SessionId) : Program Call (Except ServiceError Reply) :=
  withLan me sessionId fun _ => do
    let used ← request .attempt
    pure (used.map fun _ => .used)

def sshListen (me : Nat) (sessionId : SessionId) : Program Call (Except ServiceError Reply) :=
  withLan me sessionId fun lan => do
    let active ← request (.relaysForLan lan)
    if !active.isEmpty then
      pure (refuse "SSH relay is already active for this LAN session")
    else
      match ← request (.startRelay lan) with
      | none => pure (.error .outside)
      | some relay =>
        if ← request (.insertRelay relay lan) then
          pure (.ok (.listening relay))
        else
          closeSshRelay relay
          pure (refuse "SSH relay could not be registered")

/-- A wormhole is registered first, then its task is started, then it gets the handle of the task. -/
def openWormhole (me lan : Nat) : Program Call (Except ServiceError Reply) := do
  let id ← request (.newWormhole lan)
  if ← request (.insertWormhole id) then
    request (.spawnTask me lan id)
    if ← request (.setHandle id) then
      pure (.ok (.wormhole id))
    else
      request (.abortTask id)
      pure (.ok (.wormhole id))
  else
    request (.dropWormhole id)
    pure serviceClosed

/-- The paths of a sender are read, and the rendezvous is asked for a code. -/
def wormholeCreate (me : Nat) (sessionId : SessionId) : Program Call (Except ServiceError Reply) :=
  withLan me sessionId fun lan => do
    match ← request .attempt with
    | .error e => pure (.error e)
    | .ok _ => openWormhole me lan

def wormholeJoin (me : Nat) (sessionId : SessionId) (codeEmpty : Bool) :
    Program Call (Except ServiceError Reply) :=
  withLan me sessionId fun lan =>
    if codeEmpty then pure (refuse "short code is required") else openWormhole me lan

/-- The two tables are told apart by the text before an id. -/
def cancelTransportSession : SessionId → Program Call (Except ServiceError Reply)
  | .empty => pure sessionIdRequired
  | .wormhole id => do
    if ← request (.takeWormhole id) then
      let closed ← closeWormhole id
      pure (closed.map fun _ => .cancelled true)
    else
      pure (.ok (.cancelled false))
  | .relay id => do
    if ← request (.takeRelay id) then
      closeSshRelay id
      pure (.ok (.cancelled true))
    else
      pure (.ok (.cancelled false))
  | .lan _ => pure (.ok (.cancelled false))

/-- The sessions are dropped as they are when a wormhole does not close. -/
def reset (me : Nat) : Program Call (Except ServiceError Reply) := do
  match ← request (.drain me false) with
  | none => pure serviceClosed
  | some drained =>
    closeSshRelays drained.sshRelays
    match ← closeWormholes drained.wormholes with
    | .error e =>
      dropLans me drained.sessions
      pure (.error e)
    | .ok _ =>
      let closed ← closeSessions me drained.sessions
      pure (closed.map fun _ => .done)

def close (me : Nat) : Program Call (Except ServiceError Reply) := do
  request .cancelService
  match ← request (.drain me true) with
  | none => pure (.ok .done)
  | some drained =>
    closeSshRelays drained.sshRelays
    let wormholes ← closeWormholes drained.wormholes
    let lans ← closeSessions me drained.sessions
    pure ((firstError wormholes lans).map fun _ => .done)

inductive Operation where
  | lanStart (params : LanStartParams)
  | lanStop (sessionId : SessionId)
  | lanUse (sessionId : SessionId)
  | sshListen (sessionId : SessionId)
  | wormholeCreate (sessionId : SessionId)
  | wormholeJoin (sessionId : SessionId) (codeEmpty : Bool)
  | sessionCancel (sessionId : SessionId)
  | reset
  | close

def handle (p : Program Call (Except ServiceError Reply)) : Program Call (Except ServiceError Reply) := do
  if ← request .ensureOpen then p else pure serviceClosed

def Operation.program (me : Nat) : Operation → Program Call (Except ServiceError Reply)
  | .lanStart params => handle (JsonService.startLan me params)
  | .lanStop sessionId => handle (JsonService.stopLan me sessionId)
  | .lanUse sessionId => handle (JsonService.useLan me sessionId)
  | .sshListen sessionId => handle (JsonService.sshListen me sessionId)
  | .wormholeCreate sessionId => handle (JsonService.wormholeCreate me sessionId)
  | .wormholeJoin sessionId codeEmpty => handle (JsonService.wormholeJoin me sessionId codeEmpty)
  | .sessionCancel sessionId => handle (cancelTransportSession sessionId)
  | .reset => JsonService.reset me
  | .close => JsonService.close me

abbrev Host := Machine Call Service Empty Mark (Except ServiceError Reply)

/-- What a host does: it starts operations, each under a number that is free, and they go on call
by call in any order. -/
def Serves (m : Host) : Action Call Service (Except ServiceError Reply) → Prop
  | .spawn i p => ∃ op : Operation, p = op.program i
  | .outside s => Tick m.world s
  | .abort _ => False
  | .crash => False
  | _ => True

/-- The steps of a host without those of the tasks. -/
inductive Move where
  | starts (i : Nat) (op : Operation)
  | goes (i : Nat)
  | fails (i : Nat)
  | returns (i : Nat)

def Move.action : Move → Action Call Service (Except ServiceError Reply)
  | .starts i op => .spawn i (op.program i)
  | .goes i => .call i
  | .fails i => .fault i
  | .returns i => .finish i

theorem serves_move (m : Host) (move : Move) : Serves m move.action := by
  cases move with
  | starts i op => exact ⟨op, rfl⟩
  | _ => trivial

end JsonService

end InkHole
