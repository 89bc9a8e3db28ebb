import InkHole.Names
import InkHole.Threads

/-! What a service registers, and what runs because of it: the sessions of the local network, the
relays over SSH and the tasks of the wormholes, from the call that makes them to the one that
ends them. Every call below is one section under the lock of the state, or one wait for something
outside. -/

namespace InkHole

namespace JsonService

/-- An error that the service makes, or one of a socket, a task or a remote host. -/
inductive ServiceError where
  | refused (error : CoreError)
  | outside
  deriving DecidableEq, Repr

/-- The id a caller names. Ids are made with a text before them that tells their kind. -/
inductive SessionId where
  | empty
  | lan (id : Nat)
  | wormhole (id : Nat)
  | relay (id : Nat)
  deriving DecidableEq, Repr

structure LanSession where
  cancelled : Bool
  sendsClosed : Bool
  /-- Whether its discovery is running, when it has one. -/
  discovery : Option Bool
  /-- Whether its server is running. -/
  server : Bool
  deriving DecidableEq, Repr

structure SshRelaySession where
  lanSessionId : Nat
  cancelled : Bool
  /-- Its supervisor, and the connection that it keeps. -/
  running : Bool
  deriving DecidableEq, Repr

/-- A task after its work has its result to report: it takes its session out of the table, and
the handle of its own out of the session. -/
inductive TaskPhase where
  | working
  | finishing
  | marking
  | ended
  | panicked
  deriving DecidableEq, Repr

structure WormholeSession where
  lanSessionId : Nat
  cancelled : Bool
  /-- Whether the session holds the handle of its task. -/
  handle : Bool
  task : Option TaskPhase
  deriving DecidableEq, Repr

/-- A relay stands beside the session it belongs to. -/
structure ServiceState where
  closed : Bool
  sessions : List Nat
  wormholes : List Nat
  sshRelays : List (Nat × Nat)
  deriving DecidableEq, Repr

/-- Who holds a session beside the table: an operation, or the task of a wormhole. -/
inductive Owner where
  | operation (thread : Nat)
  | task (wormhole : Nat)
  deriving DecidableEq, Repr

structure Service where
  state : ServiceState
  /-- The token that every other token descends from. -/
  cancelled : Bool
  /-- Above every id handed out so far. -/
  drawn : Nat
  lans : Nat → Option LanSession
  relays : Nat → Option SshRelaySession
  wormholes : Nat → Option WormholeSession
  owners : List (Owner × Nat)

namespace LanSession

def new : LanSession := ⟨false, false, none, true⟩

def running (session : LanSession) : Bool := session.server || session.discovery == some true

/-- When nobody holds a session any more, its server and its discovery are closed with it. -/
def dropped (session : LanSession) : LanSession :=
  { session with cancelled := true, discovery := session.discovery.map fun _ => false, server := false }

end LanSession

def WormholeSession.working (session : WormholeSession) : Bool := session.task == some .working

/-- A task that has panicked stays so, whoever waits for it. -/
def TaskPhase.joined : TaskPhase → TaskPhase
  | panicked => panicked
  | _ => ended

namespace Service

def new : Service :=
  ⟨⟨false, [], [], []⟩, false, 0, fun _ => none, fun _ => none, fun _ => none, []⟩

def modifyLan (s : Service) (id : Nat) (f : LanSession → LanSession) : Service :=
  { s with lans := Function.update s.lans id ((s.lans id).map f) }

def modifyRelay (s : Service) (id : Nat) (f : SshRelaySession → SshRelaySession) : Service :=
  { s with relays := Function.update s.relays id ((s.relays id).map f) }

def modifyWormhole (s : Service) (id : Nat) (f : WormholeSession → WormholeSession) : Service :=
  { s with wormholes := Function.update s.wormholes id ((s.wormholes id).map f) }

def owned (s : Service) (id : Nat) : Bool :=
  s.state.sessions.contains id || s.owners.any fun entry => entry.2 == id

def acquire (s : Service) (owner : Owner) (ids : List Nat) : Service :=
  { s with owners := ids.map (owner, ·) ++ s.owners }

/-- The last one to let go of a session drops it. -/
def release (s : Service) (owner : Owner) (id : Nat) : Service :=
  let left := { s with owners := s.owners.filter (· ≠ (owner, id)) }
  if left.owned id then left else left.modifyLan id LanSession.dropped

/-- Where the work of a task ends, whichever way, its session is let go of. -/
def endWork (s : Service) (id : Nat) (phase : TaskPhase → TaskPhase) : Service :=
  match s.wormholes id with
  | some session => (s.modifyWormhole id fun w => { w with task := w.task.map phase }).release
      (.task id) session.lanSessionId
  | none => s

/-- A token is cancelled with the ones it descends from. -/
def lanCancelled (s : Service) (id : Nat) : Bool :=
  s.cancelled || (s.lans id).any LanSession.cancelled

def wormholeCancelled (s : Service) (id : Nat) : Bool :=
  match s.wormholes id with
  | some session => session.cancelled || s.lanCancelled session.lanSessionId
  | none => true

def relayCancelled (s : Service) (id : Nat) : Bool :=
  match s.relays id with
  | some session => session.cancelled || s.lanCancelled session.lanSessionId
  | none => true

end Service

/-- What a section takes out of the tables. -/
structure Drained where
  sessions : List Nat
  wormholes : List Nat
  sshRelays : List Nat

/-- `me` is the operation that a session is handed to. -/
inductive Call : Type → Type 1 where
  | ensureOpen : Call Bool
  | cancelService : Call Unit
  | takeStale (me : Nat) : Call (List Nat × List Nat)
  | takeLan (me id : Nat) : Call (Bool × List Nat)
  | takeWormhole (id : Nat) : Call Bool
  | takeRelay (id : Nat) : Call Bool
  | drain (me : Nat) (closes : Bool) : Call (Option Drained)
  | session (me id : Nat) : Call Bool
  | relaysForLan (id : Nat) : Call (List Nat)
  | dropLan (me id : Nat) : Call Unit
  /-- A step whose failure lies outside. -/
  | attempt : Call (Except ServiceError Unit)
  | bindServer (me : Nat) : Call (Option Nat)
  | startDiscovery (me id : Nat) : Call Bool
  | insertSession (me id : Nat) : Call Bool
  | closeSends (id : Nat) : Call Bool
  | closeDiscovery (id : Nat) : Call Bool
  | closeServer (id : Nat) : Call Unit
  | startRelay (lan : Nat) : Call (Option Nat)
  | insertRelay (id lan : Nat) : Call Bool
  | cancelRelay (id : Nat) : Call Unit
  | joinRelay (id : Nat) : Call Unit
  | newWormhole (lan : Nat) : Call Nat
  | insertWormhole (id : Nat) : Call Bool
  | dropWormhole (id : Nat) : Call Unit
  | spawnTask (me lan id : Nat) : Call Unit
  | setHandle (id : Nat) : Call Bool
  | abortTask (id : Nat) : Call Unit
  | cancelWormhole (id : Nat) : Call Unit
  | takeHandle (id : Nat) : Call Bool
  | joinTask (id : Nat) : Call (Except ServiceError Unit)

namespace Service

def takeStale (s : Service) (me : Nat) : (List Nat × List Nat) × Service :=
  ((s.state.sessions, s.state.sshRelays.map Prod.fst),
    ({ s with state := { s.state with sessions := [], sshRelays := [] } }).acquire (.operation me)
      s.state.sessions)

def takeLan (s : Service) (me id : Nat) : (Bool × List Nat) × Service :=
  let found := s.state.sessions.contains id
  let relays := (s.state.sshRelays.filter fun relay => relay.2 == id).map Prod.fst
  ((found, relays),
    ({ s with state := { s.state with
        sessions := s.state.sessions.filter (· ≠ id)
        sshRelays := s.state.sshRelays.filter fun relay => !(relay.2 == id) } }).acquire (.operation me)
      (if found then [id] else []))

def takeWormhole (s : Service) (id : Nat) : Bool × Service :=
  (s.state.wormholes.contains id,
    { s with state := { s.state with wormholes := s.state.wormholes.filter (· ≠ id) } })

def takeRelay (s : Service) (id : Nat) : Bool × Service :=
  (s.state.sshRelays.any fun relay => relay.1 == id,
    { s with state := { s.state with sshRelays := s.state.sshRelays.filter fun relay => !(relay.1 == id) } })

def drain (s : Service) (me : Nat) (closes : Bool) : Option Drained × Service :=
  if s.state.closed then (none, s)
  else (some ⟨s.state.sessions, s.state.wormholes, s.state.sshRelays.map Prod.fst⟩,
    ({ s with state := ⟨closes, [], [], []⟩ }).acquire (.operation me) s.state.sessions)

def session (s : Service) (me id : Nat) : Bool × Service :=
  if s.state.sessions.contains id then (true, s.acquire (.operation me) [id]) else (false, s)

def bindServer (s : Service) (me : Nat) : Nat × Service :=
  (s.drawn,
    ({ s with drawn := s.drawn + 1, lans := Function.update s.lans s.drawn (some .new) }).acquire
      (.operation me) [s.drawn])

def insertSession (s : Service) (id : Nat) : Bool × Service :=
  if s.state.closed then (false, s)
  else (true, { s with state := { s.state with sessions := s.state.sessions.insert id } })

def startRelay (s : Service) (lan : Nat) : Nat × Service :=
  (s.drawn,
    { s with drawn := s.drawn + 1, relays := Function.update s.relays s.drawn (some ⟨lan, false, true⟩) })

/-- A session has one relay at most. -/
def insertRelay (s : Service) (id lan : Nat) : Bool × Service :=
  if s.state.closed || s.state.sshRelays.any fun relay => relay.2 == lan then (false, s)
  else (true, { s with state := { s.state with sshRelays := s.state.sshRelays.insert (id, lan) } })

def newWormhole (s : Service) (lan : Nat) : Nat × Service :=
  (s.drawn,
    { s with
      drawn := s.drawn + 1
      wormholes := Function.update s.wormholes s.drawn (some ⟨lan, false, false, none⟩) })

def insertWormhole (s : Service) (id : Nat) : Bool × Service :=
  if s.state.closed then (false, s)
  else (true, { s with state := { s.state with wormholes := s.state.wormholes.insert id } })

/-- The task takes over the session that the operation held. -/
def spawnTask (s : Service) (me lan id : Nat) : Service :=
  let started := s.modifyWormhole id fun w => { w with task := some .working }
  { started with owners := (.task id, lan) :: started.owners.filter (· ≠ (.operation me, lan)) }

def setHandle (s : Service) (id : Nat) : Bool × Service :=
  if s.wormholeCancelled id then (false, s)
  else (true, s.modifyWormhole id fun w => { w with handle := true })

def takeHandle (s : Service) (id : Nat) : Bool × Service :=
  ((s.wormholes id).any WormholeSession.handle, s.modifyWormhole id fun w => { w with handle := false })

/-- Waiting for a task, or aborting it, ends it. -/
def joinTask (s : Service) (id : Nat) : Service := s.endWork id TaskPhase.joined

def joined (s : Service) (id : Nat) : Except ServiceError Unit :=
  if (s.wormholes id).any (·.task == some .panicked) then .error .outside else .ok ()

section Frames

variable (s : Service)

@[simp] theorem drain_lans (me : Nat) (closes : Bool) : (s.drain me closes).2.lans = s.lans := by
  simp only [drain]
  split
  · rfl
  · rfl

@[simp] theorem drain_relays (me : Nat) (closes : Bool) : (s.drain me closes).2.relays = s.relays := by
  simp only [drain]
  split
  · rfl
  · rfl

@[simp] theorem drain_wormholes (me : Nat) (closes : Bool) : (s.drain me closes).2.wormholes = s.wormholes := by
  simp only [drain]
  split
  · rfl
  · rfl

@[simp] theorem drain_drawn (me : Nat) (closes : Bool) : (s.drain me closes).2.drawn = s.drawn := by
  simp only [drain]
  split
  · rfl
  · rfl

@[simp] theorem session_lans (me id : Nat) : (s.session me id).2.lans = s.lans := by
  simp only [session]
  split
  · rfl
  · rfl

@[simp] theorem session_relays (me id : Nat) : (s.session me id).2.relays = s.relays := by
  simp only [session]
  split
  · rfl
  · rfl

@[simp] theorem session_wormholes (me id : Nat) : (s.session me id).2.wormholes = s.wormholes := by
  simp only [session]
  split
  · rfl
  · rfl

@[simp] theorem session_drawn (me id : Nat) : (s.session me id).2.drawn = s.drawn := by
  simp only [session]
  split
  · rfl
  · rfl

@[simp] theorem session_state (me id : Nat) : (s.session me id).2.state = s.state := by
  simp only [session]
  split
  · rfl
  · rfl

@[simp] theorem insertSession_lans (id : Nat) : (s.insertSession id).2.lans = s.lans := by
  simp only [insertSession]
  split
  · rfl
  · rfl

@[simp] theorem insertSession_relays (id : Nat) : (s.insertSession id).2.relays = s.relays := by
  simp only [insertSession]
  split
  · rfl
  · rfl

@[simp] theorem insertSession_wormholes (id : Nat) : (s.insertSession id).2.wormholes = s.wormholes := by
  simp only [insertSession]
  split
  · rfl
  · rfl

@[simp] theorem insertSession_drawn (id : Nat) : (s.insertSession id).2.drawn = s.drawn := by
  simp only [insertSession]
  split
  · rfl
  · rfl

@[simp] theorem insertSession_owners (id : Nat) : (s.insertSession id).2.owners = s.owners := by
  simp only [insertSession]
  split
  · rfl
  · rfl

@[simp] theorem insertRelay_lans (id lan : Nat) : (s.insertRelay id lan).2.lans = s.lans := by
  simp only [insertRelay]
  split
  · rfl
  · rfl

@[simp] theorem insertRelay_relays (id lan : Nat) : (s.insertRelay id lan).2.relays = s.relays := by
  simp only [insertRelay]
  split
  · rfl
  · rfl

@[simp] theorem insertRelay_wormholes (id lan : Nat) : (s.insertRelay id lan).2.wormholes = s.wormholes := by
  simp only [insertRelay]
  split
  · rfl
  · rfl

@[simp] theorem insertRelay_drawn (id lan : Nat) : (s.insertRelay id lan).2.drawn = s.drawn := by
  simp only [insertRelay]
  split
  · rfl
  · rfl

@[simp] theorem insertRelay_owners (id lan : Nat) : (s.insertRelay id lan).2.owners = s.owners := by
  simp only [insertRelay]
  split
  · rfl
  · rfl

@[simp] theorem insertWormhole_lans (id : Nat) : (s.insertWormhole id).2.lans = s.lans := by
  simp only [insertWormhole]
  split
  · rfl
  · rfl

@[simp] theorem insertWormhole_relays (id : Nat) : (s.insertWormhole id).2.relays = s.relays := by
  simp only [insertWormhole]
  split
  · rfl
  · rfl

@[simp] theorem insertWormhole_wormholes (id : Nat) : (s.insertWormhole id).2.wormholes = s.wormholes := by
  simp only [insertWormhole]
  split
  · rfl
  · rfl

@[simp] theorem insertWormhole_drawn (id : Nat) : (s.insertWormhole id).2.drawn = s.drawn := by
  simp only [insertWormhole]
  split
  · rfl
  · rfl

@[simp] theorem insertWormhole_owners (id : Nat) : (s.insertWormhole id).2.owners = s.owners := by
  simp only [insertWormhole]
  split
  · rfl
  · rfl

@[simp] theorem setHandle_lans (id : Nat) : (s.setHandle id).2.lans = s.lans := by
  simp only [setHandle]
  split
  · rfl
  · rfl

@[simp] theorem setHandle_relays (id : Nat) : (s.setHandle id).2.relays = s.relays := by
  simp only [setHandle]
  split
  · rfl
  · rfl

@[simp] theorem setHandle_drawn (id : Nat) : (s.setHandle id).2.drawn = s.drawn := by
  simp only [setHandle]
  split
  · rfl
  · rfl

@[simp] theorem setHandle_owners (id : Nat) : (s.setHandle id).2.owners = s.owners := by
  simp only [setHandle]
  split
  · rfl
  · rfl

@[simp] theorem setHandle_state (id : Nat) : (s.setHandle id).2.state = s.state := by
  simp only [setHandle]
  split
  · rfl
  · rfl

variable (owner : Owner) (id : Nat)

@[simp] theorem acquire_state (ids : List Nat) : (s.acquire owner ids).state = s.state := rfl

@[simp] theorem release_state : (s.release owner id).state = s.state := by
  simp only [release]
  split
  · rfl
  · rfl

@[simp] theorem release_relays : (s.release owner id).relays = s.relays := by
  simp only [release]
  split
  · rfl
  · rfl

@[simp] theorem release_wormholes : (s.release owner id).wormholes = s.wormholes := by
  simp only [release]
  split
  · rfl
  · rfl

@[simp] theorem release_drawn : (s.release owner id).drawn = s.drawn := by
  simp only [release]
  split
  · rfl
  · rfl

theorem release_owners : (s.release owner id).owners = s.owners.filter (· ≠ (owner, id)) := by
  simp only [release]
  split
  · rfl
  · rfl

variable (phase : TaskPhase → TaskPhase)

@[simp] theorem endWork_state : (s.endWork id phase).state = s.state := by
  simp only [endWork]
  split
  · rw [release_state]
    rfl
  · rfl

@[simp] theorem endWork_relays : (s.endWork id phase).relays = s.relays := by
  simp only [endWork]
  split
  · rw [release_relays]
    rfl
  · rfl

@[simp] theorem endWork_drawn : (s.endWork id phase).drawn = s.drawn := by
  simp only [endWork]
  split
  · rw [release_drawn]
    rfl
  · rfl

theorem endWork_wormholes : (s.endWork id phase).wormholes =
    (s.modifyWormhole id fun w => { w with task := w.task.map phase }).wormholes := by
  simp only [endWork]
  split
  · rw [release_wormholes]
  · next h =>
    funext other
    by_cases ho : other = id
    · subst ho
      simp [modifyWormhole, h]
    · simp [modifyWormhole, Function.update_of_ne ho]

end Frames

end Service

def exec {β : Type} : Call β → Service → β × Service
  | .ensureOpen, s => (!s.state.closed, s)
  | .cancelService, s => ((), { s with cancelled := true })
  | .takeStale me, s => s.takeStale me
  | .takeLan me id, s => s.takeLan me id
  | .takeWormhole id, s => s.takeWormhole id
  | .takeRelay id, s => s.takeRelay id
  | .drain me closes, s => s.drain me closes
  | .session me id, s => s.session me id
  | .relaysForLan id, s => ((s.state.sshRelays.filter fun relay => relay.2 == id).map Prod.fst, s)
  | .dropLan me id, s => ((), s.release (.operation me) id)
  | .attempt, s => (.ok (), s)
  | .bindServer me, s => ((s.bindServer me).1, (s.bindServer me).2)
  | .startDiscovery _ id, s => (true, s.modifyLan id fun l => { l with discovery := some true })
  | .insertSession _ id, s => s.insertSession id
  | .closeSends id, s => ((s.lans id).any LanSession.sendsClosed,
      s.modifyLan id fun l => { l with cancelled := true, sendsClosed := true })
  | .closeDiscovery id, s => ((s.lans id).any (·.discovery.isSome),
      s.modifyLan id fun l => { l with discovery := l.discovery.map fun _ => false })
  | .closeServer id, s => ((), s.modifyLan id fun l => { l with server := false })
  | .startRelay lan, s => ((s.startRelay lan).1, (s.startRelay lan).2)
  | .insertRelay id lan, s => s.insertRelay id lan
  | .cancelRelay id, s => ((), s.modifyRelay id fun r => { r with cancelled := true })
  | .joinRelay id, s => ((), s.modifyRelay id fun r => { r with running := false })
  | .newWormhole lan, s => s.newWormhole lan
  | .insertWormhole id, s => s.insertWormhole id
  | .dropWormhole id, s => ((), s.modifyWormhole id fun w => { w with cancelled := true })
  | .spawnTask me lan id, s => ((), s.spawnTask me lan id)
  | .setHandle id, s => s.setHandle id
  | .abortTask id, s => ((), s.joinTask id)
  | .cancelWormhole id, s => ((), s.modifyWormhole id fun w => { w with cancelled := true })
  | .takeHandle id, s => s.takeHandle id
  | .joinTask id, s => (s.joined id, s.joinTask id)

/-- What an operation remembers: that it has found the service open. -/
inductive Mark where
  | entered
  deriving DecidableEq, Repr

instance : Shared Call Service Empty Mark where
  exec := exec
  acquires _ := none
  releases _ := none
  fault
    | .attempt => some (.error .outside)
    | .bindServer _ => some none
    | .startDiscovery _ _ => some false
    | .startRelay _ => some none
    | _ => none
  effect
    | .ensureOpen, r => if r then [.entered] else []
    | .drain _ _, r => if r.isSome then [.entered] else []
    | _, _ => []

/-- What happens in a service beside its operations: the task of a wormhole ends its work or
panics, and a task that has ended its work leaves the table. -/
inductive Tick (s : Service) : Service → Prop where
  | finishes (id : Nat) (session : WormholeSession) : s.wormholes id = some session →
    session.task = some .working → Tick s (s.endWork id fun _ => .finishing)
  | panics (id : Nat) (session : WormholeSession) : s.wormholes id = some session →
    session.task = some .working → Tick s (s.endWork id fun _ => .panicked)
  | leaves (id : Nat) (session : WormholeSession) : s.wormholes id = some session →
    session.task = some .finishing →
    Tick s ((s.takeWormhole id).2.modifyWormhole id fun w =>
      { w with task := some (if s.state.wormholes.contains id then .marking else .ended) })
  | marks (id : Nat) (session : WormholeSession) : s.wormholes id = some session →
    session.task = some .marking →
    Tick s (s.modifyWormhole id fun w => { w with handle := false, task := some .ended })
  /-- A supervisor leaves its loop when it finds its token cancelled. -/
  | stops (id : Nat) : s.relayCancelled id = true →
    Tick s (s.modifyRelay id fun r => { r with running := false })

end JsonService

end InkHole
