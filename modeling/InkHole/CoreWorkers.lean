import InkHole.Automata
import Mathlib.Logic.Function.Basic

/-! The owner of the native service in the mobile application: the main isolate starts a worker
isolate, which creates the service, and asks it to shut down; the two talk through ports. -/

namespace InkHole

namespace InkHoleCore

/-- The handle that `inkhole_service_create` gives out. -/
structure InkholeService where
  closed : Bool
  /-- Whether `inkhole_service_destroy` has taken the allocation back. -/
  released : Bool
  deriving DecidableEq, Repr

inductive Status where
  | ok
  | internalError
  | panic
  | wrongThread
  deriving DecidableEq, Repr

/-- How the close of the service under `CLOSE_TIMEOUT` ends. -/
inductive Closing where
  | done
  | failed
  | timedOut
  | panicked
  deriving DecidableEq, Repr

/-- `runtimeThread` says whether the calling thread belongs to a runtime. -/
def closeService (runtimeThread : Bool) (closing : Closing) (service : InkholeService) :
    Status × InkholeService :=
  if runtimeThread then (.wrongThread, service)
  else if service.closed then (.ok, service)
  else
    let closed := { service with closed := true }
    match closing with
    | .done => (.ok, closed)
    | .failed => (.internalError, closed)
    | .timedOut => (.internalError, closed)
    | .panicked => (.panic, closed)

/-- The allocation goes back also when the close inside it fails or panics. -/
def serviceDestroy (runtimeThread : Bool) (closing : Closing) (service : InkholeService) :
    Status × InkholeService :=
  if runtimeThread then (.wrongThread, service)
  else
    let (status, closed) := closeService runtimeThread closing service
    (status, { closed with released := true })

/-- The body of the shutdown branch of `_nativeWorker`: an exception of close is swallowed
behind destroy. -/
def shutdownService (runtimeThread : Bool) (closing destroying : Closing)
    (service : InkholeService) : InkholeService :=
  match closeService runtimeThread closing service with
  | (.ok, closed) => (serviceDestroy runtimeThread destroying closed).2
  | (_, closed) => closed

/-- What the main isolate sends to a worker. -/
inductive Command where
  | call (id : Nat)
  | shutdown (id : Nat)
  deriving DecidableEq, Repr

/-- What a worker sends to the main isolate. -/
inductive Message where
  | ready
  | event
  | response (id : Nat)
  | error (id : Nat)
  | shutdown (id : Nat)
  | fatal
  deriving DecidableEq, Repr

inductive Phase where
  | booting
  | serving
  | gone
  deriving DecidableEq, Repr

/-- A worker isolate, with what waits in its port and what it has sent. -/
structure Worker where
  phase : Phase
  service : Option InkholeService
  pollFailed : Bool
  /-- Whether the main isolate has killed it; it may still run for a while. -/
  killed : Bool
  commands : List Command
  messages : List Message
  /-- Whether the port that the main isolate has for it is open. -/
  listened : Bool
  deriving DecidableEq, Repr

def Worker.unborn : Worker := ⟨.gone, none, false, false, [], [], false⟩

def Worker.spawned : Worker := ⟨.booting, none, false, false, [], [], true⟩

/-- A run of `_spawn`. -/
structure Attempt where
  worker : Nat
  /-- Whether `Isolate.spawn` has returned. -/
  spawned : Bool
  /-- How the completer `ready` was completed. -/
  ready : Option Bool
  deriving DecidableEq, Repr

/-- A call of `close` that waits for its completer. -/
structure PendingClose where
  id : Nat
  worker : Nat
  outcome : Option Bool
  deriving DecidableEq, Repr

end InkHoleCore

open InkHoleCore

/-- The fields of the main isolate, the calls of it that wait, and the workers. -/
structure InkHoleCore where
  isolate : Option Nat
  receive : Option Nat
  commands : Option Nat
  starting : Option Attempt
  shutdownTimedOut : Bool
  disposed : Bool
  nextRequest : Nat
  pending : List Nat
  /-- How many calls wait for the start they have asked for. -/
  calls : Nat
  closes : List PendingClose
  workers : Nat → Worker
  spawned : Nat
  /-- Whether a close has returned without `shutdownTimedOut`, and neither start nor call was
  called since. -/
  quiet : Bool

namespace InkHoleCore

def fresh : InkHoleCore where
  isolate := none
  receive := none
  commands := none
  starting := none
  shutdownTimedOut := false
  disposed := false
  nextRequest := 1
  pending := []
  calls := 0
  closes := []
  workers := fun _ => Worker.unborn
  spawned := 0
  quiet := false

def modify (s : InkHoleCore) (w : Nat) (f : Worker → Worker) : InkHoleCore :=
  { s with workers := Function.update s.workers w (f (s.workers w)) }

/-- `isolate?.kill()`. -/
def killIsolate (s : InkHoleCore) : InkHoleCore :=
  match s.isolate with
  | some w => s.modify w fun worker => { worker with killed := true }
  | none => s

/-- `receive?.close()`. -/
def closeReceive (s : InkHoleCore) : InkHoleCore :=
  match s.receive with
  | some w => s.modify w fun worker => { worker with listened := false }
  | none => s

def spawn (s : InkHoleCore) : InkHoleCore :=
  { s with
    receive := some s.spawned
    starting := some ⟨s.spawned, false, none⟩
    workers := Function.update s.workers s.spawned Worker.spawned
    spawned := s.spawned + 1 }

/-- `start` begins an attempt when there is neither a port nor an attempt. -/
def spawns (s : InkHoleCore) : Bool := !s.disposed && s.commands.isNone && s.starting.isNone

def start (s : InkHoleCore) : InkHoleCore := if s.spawns then s.spawn else s

/-- The handler around an attempt that has failed. -/
def spawnFailed (s : InkHoleCore) (attempt : Attempt) : InkHoleCore :=
  { (s.modify attempt.worker fun worker => { worker with listened := false }).killIsolate with
    isolate := none
    receive := none
    commands := none
    starting := none }

def PendingClose.settle (id : Nat) (ok : Bool) (c : PendingClose) : PendingClose :=
  if c.id = id ∧ c.outcome = none then { c with outcome := some ok } else c

def complete (s : InkHoleCore) (id : Nat) (ok : Bool) : InkHoleCore :=
  if id ∈ s.pending then
    { s with
      pending := s.pending.filter (· ≠ id)
      closes := s.closes.map (PendingClose.settle id ok) }
  else s

def PendingClose.fail (pending : List Nat) (c : PendingClose) : PendingClose :=
  if c.id ∈ pending ∧ c.outcome = none then { c with outcome := some false } else c

/-- All pending requests end with an error. -/
def failPending (s : InkHoleCore) : InkHoleCore :=
  { s with pending := [], closes := s.closes.map (PendingClose.fail s.pending) }

def readyWith (s : InkHoleCore) (ok : Bool) : InkHoleCore :=
  { s with
    starting := s.starting.map fun attempt =>
      if attempt.ready = none then { attempt with ready := some ok } else attempt }

def handleMessage (s : InkHoleCore) (w : Nat) : Message → InkHoleCore
  | .ready => { s with commands := some w }.readyWith true
  | .event => s
  | .response id => s.complete id true
  | .shutdown id => s.complete id true
  | .error id => s.complete id false
  | .fatal =>
    { ((s.readyWith false).failPending.closeReceive.killIsolate) with
      isolate := none
      receive := none
      commands := none }

/-- A call whose start has returned goes on; without a port it fails at once. -/
def send (s : InkHoleCore) : InkHoleCore :=
  let id := s.nextRequest
  match s.commands with
  | some w =>
    { s.modify w fun worker => { worker with commands := worker.commands ++ [.call id] } with
      calls := s.calls - 1
      nextRequest := id + 1
      pending := id :: s.pending }
  | none => { s with calls := s.calls - 1, nextRequest := id + 1 }

/-- What a close leaves behind when it returns. -/
def closeReturns (s : InkHoleCore) : InkHoleCore := { s with quiet := s.quiet || !s.shutdownTimedOut }

/-- `close` up to the wait for its completer. -/
def close (s : InkHoleCore) : InkHoleCore :=
  let id := s.nextRequest
  match s.commands with
  | none => s.closeReturns
  | some w =>
    { s.modify w fun worker => { worker with commands := worker.commands ++ [.shutdown id] } with
      nextRequest := id + 1
      pending := id :: s.pending
      shutdownTimedOut := false
      closes := ⟨id, w, none⟩ :: s.closes }

/-- The rest of `close` after the wait: the worker is killed, and everything pending fails. -/
def tearDown (s : InkHoleCore) : InkHoleCore :=
  { s.closeReceive.killIsolate.failPending with
    isolate := none
    receive := none
    commands := none }.closeReturns

def dropClose (s : InkHoleCore) (id : Nat) : InkHoleCore :=
  { s with closes := s.closes.filter (·.id ≠ id) }

/-- What the completer of a close that waits holds. -/
def closeOutcome (s : InkHoleCore) (id : Nat) : Option (Option Bool) :=
  (s.closes.find? (·.id = id)).map (·.outcome)

inductive Event where
  /-- The program calls `start`. -/
  | start
  /-- The program calls `call`, which begins with a start. -/
  | call
  /-- A call goes on after its start, or ends with the error of its start. -/
  | send
  | refuse
  /-- The program calls `close`; its wait ends by the clock, or by its completer. -/
  | close
  | timesOut (id : Nat)
  | closeEnds (id : Nat)
  /-- The end of `dispose(release: true)`. -/
  | release
  /-- `Isolate.spawn` returns or throws, and the attempt goes on behind `ready.future`. -/
  | spawned
  | spawnFails
  | attemptEnds
  /-- The main isolate takes the oldest message of a worker. -/
  | deliver (w : Nat)
  /-- A worker creates its service, or fails to. -/
  | boot (w : Nat) (ok : Bool)
  /-- A worker polls an event, or fails to. -/
  | poll (w : Nat) (ok : Bool)
  /-- A worker takes a call or a shutdown from its port. -/
  | answer (w : Nat) (ok : Bool)
  | shutdown (w : Nat) (runtimeThread : Bool) (closing destroying : Closing)
  /-- A worker that was killed stops. -/
  | dies (w : Nat)

def Worker.post (worker : Worker) (message : Message) : Worker :=
  { worker with messages := worker.messages ++ [message] }

def Worker.boot (worker : Worker) (ok : Bool) : Worker :=
  if ok then { worker.post .ready with phase := .serving, service := some ⟨false, false⟩ }
  else { worker.post .fatal with phase := .gone }

def Worker.poll (worker : Worker) (ok : Bool) : Worker :=
  if ok then worker.post .event else { worker.post .fatal with pollFailed := true }

def Worker.shutdown (worker : Worker) (id : Nat) (runtimeThread : Bool)
    (closing destroying : Closing) : Worker :=
  { worker.post (.shutdown id) with
    phase := .gone
    service := worker.service.map (shutdownService runtimeThread closing destroying) }

def onSpawned (s : InkHoleCore) : Option InkHoleCore :=
  match s.starting with
  | some ⟨w, false, ready⟩ => some { s with isolate := some w, starting := some ⟨w, true, ready⟩ }
  | _ => none

def onSpawnFails (s : InkHoleCore) : Option InkHoleCore :=
  match s.starting with
  | some ⟨w, false, ready⟩ =>
    if (s.workers w).phase = .booting then
      some ((s.modify w fun worker => { worker with phase := .gone }).spawnFailed ⟨w, false, ready⟩)
    else none
  | _ => none

def onAttemptEnds (s : InkHoleCore) : Option InkHoleCore :=
  match s.starting with
  | some ⟨_, true, some true⟩ => some { s with starting := none }
  | some ⟨w, true, some false⟩ => some (s.spawnFailed ⟨w, true, some false⟩)
  | _ => none

def onDeliver (s : InkHoleCore) (w : Nat) : Option InkHoleCore :=
  match (s.workers w).listened, (s.workers w).messages with
  | true, message :: rest =>
    some ((s.modify w fun worker => { worker with messages := rest }).handleMessage w message)
  | _, _ => none

def onAnswer (s : InkHoleCore) (w : Nat) (ok : Bool) : Option InkHoleCore :=
  match (s.workers w).phase, (s.workers w).commands with
  | .serving, .call id :: rest =>
    some (s.modify w fun worker =>
      { worker with commands := rest }.post (if ok then .response id else .error id))
  | _, _ => none

def onShutdown (s : InkHoleCore) (w : Nat) (runtimeThread : Bool) (closing destroying : Closing) :
    Option InkHoleCore :=
  match (s.workers w).phase, (s.workers w).commands with
  | .serving, .shutdown id :: rest =>
    some (s.modify w fun worker =>
      { worker with commands := rest }.shutdown id runtimeThread closing destroying)
  | _, _ => none

def step (s : InkHoleCore) : Event → Option InkHoleCore
  | .start => some { s.start with quiet := false }
  | .call =>
    some { s.start with quiet := false, calls := if s.disposed then s.calls else s.calls + 1 }
  | .send => if 0 < s.calls then some s.send else none
  | .refuse => if 0 < s.calls then some { s with calls := s.calls - 1 } else none
  | .close => some s.close
  | .timesOut id =>
    if s.closeOutcome id = some none then
      some ({ s with shutdownTimedOut := true }.tearDown.dropClose id)
    else none
  | .closeEnds id =>
    match s.closeOutcome id with
    | some (some true) => some (s.tearDown.dropClose id)
    | some (some false) => some (s.dropClose id)
    | _ => none
  | .release => some { s with disposed := true }
  | .spawned => s.onSpawned
  | .spawnFails => s.onSpawnFails
  | .attemptEnds => s.onAttemptEnds
  | .deliver w => s.onDeliver w
  | .boot w ok =>
    if (s.workers w).phase = .booting then some (s.modify w fun worker => worker.boot ok) else none
  | .poll w ok =>
    if (s.workers w).phase = .serving ∧ (s.workers w).pollFailed = false then
      some (s.modify w fun worker => worker.poll ok)
    else none
  | .answer w ok => s.onAnswer w ok
  | .shutdown w runtimeThread closing destroying => s.onShutdown w runtimeThread closing destroying
  | .dies w =>
    if (s.workers w).killed = true ∧ (s.workers w).phase ≠ .gone then
      some (s.modify w fun worker => { worker with phase := .gone })
    else none

/-- The application: what its program, its isolates and the clock may do. -/
def application : Automaton InkHoleCore Event := ⟨fresh, step⟩

/-- The service that a worker has created is given back. -/
def Worker.Destroyed (worker : Worker) : Prop := ∀ service ∈ worker.service, service.released = true

end InkHoleCore

end InkHole
