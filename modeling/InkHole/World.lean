import InkHole.Fallible
import InkHole.Protocol

/-! The calls a receiving server makes: to the file system, to its locks, to the event
sink and to the stream of the sender. -/

namespace InkHole

variable [Externals]

structure TransferProgress where
  transferId : String
  filename : String
  done : Nat
  total : Nat
  deriving DecidableEq, Repr

inductive TransferEvent where
  | progress (p : TransferProgress)
  | received (transferId : String) (path : Path) (filename : String) (size : Nat) (blake3 : String)
      (senderInstanceId : String) (senderName : String)
  | status (error : CoreError)
  deriving DecidableEq, Repr

/-- The locks of one store: the commit lock, and one lock for each transfer id. -/
inductive Lock where
  | commit (store : Nat)
  | transfer (store : Nat) (transferId : String)
  deriving DecidableEq, Repr

inductive Effect where
  | entered (lock : Lock)
  | left (lock : Lock)
  | renamed (src dst : Path)
  | emitted (event : TransferEvent)
  | responded (response : TransferResponse)
  deriving DecidableEq, Repr

/-- `drawn` exceeds the length of every random name handed out so far. -/
structure World where
  fs : FileTree Contents
  drawn : Nat
  log : List Effect

inductive Call : Type → Type 1 where
  | fs {β : Type} (op : FsOp Contents β) : Call (Except IoError β)
  | newUuid : Call String
  | lock (lock : Lock) : Call Unit
  | unlock (lock : Lock) : Call Unit
  | emit (event : TransferEvent) : Call Unit
  | respond (response : TransferResponse) : Call (Except IoError Unit)

/-- A random UUID is a name that no entry has and that was not drawn before: it is taken
longer than all of them. -/
def World.uuidLength (w : World) : Nat :=
  max w.drawn ((w.fs.entries.map fun e => (e.1.headD "").length).foldr max 0 + 1)

def World.uuid (w : World) : String := String.ofList (List.replicate w.uuidLength 'f')

namespace Call

/-- What a call leaves in the log when it succeeds. -/
def effect {β : Type} : Call β → β → List Effect
  | .fs (.rename src dst) => fun
    | .ok () => [.renamed src dst]
    | .error _ => []
  | .lock ℓ => fun _ => [.entered ℓ]
  | .unlock ℓ => fun _ => [.left ℓ]
  | .emit e => fun _ => [.emitted e]
  | .respond response => fun
    | .ok () => [.responded response]
    | .error _ => []
  | _ => fun _ => []

def reply {β : Type} (w : World) : Call β → β
  | .fs op => (op.exec w.fs).1
  | .newUuid => w.uuid
  | .lock _ => ()
  | .unlock _ => ()
  | .emit _ => ()
  | .respond _ => .ok ()

def changed {β : Type} (w : World) : Call β → FileTree Contents
  | .fs op => (op.exec w.fs).2
  | _ => w.fs

def drawn {β : Type} (w : World) : Call β → Nat
  | .newUuid => w.uuidLength + 1
  | _ => w.drawn

def acquires {β : Type} : Call β → Option Lock
  | .lock ℓ => some ℓ
  | _ => none

def releases {β : Type} : Call β → Option Lock
  | .unlock ℓ => some ℓ
  | _ => none

/-- The reply to a call that fails for a reason outside the model. -/
def fault {β : Type} : Call β → Option β
  | .fs _ => some (.error .other)
  | .respond _ => some (.error .other)
  | _ => none

instance : Shared Call World Lock Effect where
  exec c w := (c.reply w, ⟨c.changed w, c.drawn w, w.log ++ c.effect (c.reply w)⟩)
  acquires := acquires
  releases := releases
  fault := fault
  effect := effect

end Call

abbrev CoreM := Fallible Call CoreError

namespace CoreM

variable {α β : Type}

def attempt (op : FsOp Contents β) : CoreM (Except IoError β) :=
  ExceptT.mk (.call (.fs op) fun r => .ret (.ok r))

/-- A call whose error becomes the error of the caller. -/
def fs (op : FsOp Contents β) : CoreM β :=
  ExceptT.mk (.call (.fs op) fun r => .ret (r.mapError CoreError.io))

def newUuid : CoreM String := ExceptT.mk (.call .newUuid fun r => .ret (.ok r))

def lock (ℓ : Lock) : CoreM Unit := ExceptT.mk (.call (.lock ℓ) fun r => .ret (.ok r))

def emit (e : TransferEvent) : CoreM Unit := ExceptT.mk (.call (.emit e) fun r => .ret (.ok r))

def respond (r : TransferResponse) : CoreM Unit :=
  ExceptT.mk (.call (.respond r) fun r => .ret (r.mapError CoreError.io))

def throwIf (bad : Prop) [Decidable bad] (e : CoreError) : CoreM Unit :=
  if bad then throw e else pure ()

/-- The error of a response to a request that is refused anyway is dropped. -/
def reject (e : CoreError) : CoreM α := do
  ExceptT.mk (.call (.respond (.rejected e)) fun _ => .ret (.ok ()))
  throw e

/-- An error is told to the sender before it is returned. -/
def rejecting (x : CoreM α) : CoreM α :=
  ExceptT.mk (x.run >>= fun
    | .ok a => .ret (.ok a)
    | .error e => (reject e).run)

/-- Whether it fails or not does not matter. -/
def ignoring (x : CoreM α) : CoreM Unit := ExceptT.mk (x.run >>= fun _ => .ret (.ok ()))

/-- A guard is dropped however its block is left. -/
def withLock (ℓ : Lock) (body : CoreM α) : CoreM α :=
  ExceptT.mk (.call (.lock ℓ) fun _ => body.run >>= fun r => .call (.unlock ℓ) fun _ => .ret r)

end CoreM

end InkHole
