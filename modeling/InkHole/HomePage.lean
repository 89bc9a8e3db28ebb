import InkHole.Automata
import Mathlib.Logic.Function.Basic

/-! The page from which files are sent and paused: its lists of transfers, the calls to the core
that it waits for, and the events that the core sends it. The session of the page is up and the
page is mounted throughout. -/

namespace InkHole

namespace HomePage

/-- A path of the batch, with its place in it: the code knows the path alone. -/
structure File where
  index : Nat
  path : String
  deriving DecidableEq, Repr

/-- `_TrackedSend`, and which object it is. -/
structure TrackedSend where
  object : Nat
  file : File
  peer : String
  sendId : Option Nat
  deriving DecidableEq, Repr

/-- A run of `_sendToPeer` that waits for its `lan.send`, with the paths behind it, and the groups
that a resume sends when it returns. -/
structure Batch where
  epoch : Nat
  peer : String
  tracked : Nat
  file : File
  rest : List File
  later : List (String × List File)
  deriving DecidableEq, Repr

/-- A pause that waits for the cancel of the first of `rest`. -/
structure Pausing where
  lanJobs : List TrackedSend
  rest : List TrackedSend
  deriving DecidableEq, Repr

inductive ReceiveCall where
  | pause
  | resume
  deriving DecidableEq, Repr

/-- A send of the core that has not ended. -/
structure Sending where
  sendId : Nat
  tracked : Nat
  file : File
  deriving DecidableEq, Repr

/-- How a call of `lan.send` ends. -/
inductive SendResult where
  | started
  | unnamed
  | failed
  deriving DecidableEq, Repr

end HomePage

open HomePage

structure HomePage where
  receivingIds : List Nat
  isReceivePaused : Bool
  sendIds : List Nat
  trackedSends : List TrackedSend
  pausedSends : List TrackedSend
  isTransferPaused : Bool
  pauseInProgress : Bool
  transferEpoch : Nat
  peers : List String
  /-- The functions of the page that wait for a call. -/
  batches : List Batch
  pausings : List Pausing
  objects : Nat
  /-- The calls of `lan.receive.pause` and `lan.receive.resume` that the core has not run, and those
  that have not returned. -/
  calls : List ReceiveCall
  answers : List ReceiveCall
  /-- The core: whether its gate is closed, what it receives and what it sends. -/
  gate : Bool
  incoming : List Nat
  sending : List Sending
  nextSend : Nat
  /-- What has happened: the files of the batch, which of them have been sent, which of those that
  had not been sent at a resume it has not sent again, which have been sent twice, and the newest
  send of each. -/
  files : List File
  completed : List Nat
  owed : List Nat
  twice : List Nat
  newest : Nat → Nat

namespace HomePage

def incomplete (s : HomePage) : List Nat := (s.files.map File.index).filter (· ∉ s.completed)

/-- A step of the loop of `_sendToPeer` up to its wait. -/
def callSend (s : HomePage) (epoch : Nat) (peer : String) (file : File) (rest : List File)
    (later : List (String × List File)) : HomePage :=
  { s with
    trackedSends := s.trackedSends ++ [⟨s.objects, file, peer, none⟩]
    batches := ⟨epoch, peer, s.objects, file, rest, later⟩ :: s.batches
    objects := s.objects + 1
    owed := s.owed.filter (· ≠ file.index)
    twice := if file.index ∈ s.completed then file.index :: s.twice else s.twice
    newest := Function.update s.newest file.index s.objects }

def sendToPeer (s : HomePage) (peer : String) : List File → HomePage
  | [] => s
  | file :: rest => s.callSend s.transferEpoch peer file rest []

/-- The loop of a resume over the peers: what an offline peer was to get is dropped. -/
def sendGroups (s : HomePage) : List (String × List File) → HomePage
  | [] => s
  | (_, []) :: later => s.sendGroups later
  | (peer, file :: rest) :: later =>
    if peer ∈ s.peers then s.callSend s.transferEpoch peer file rest later else s.sendGroups later

/-- The loop of `_sendToPeer` after a call: it ends when the epoch has moved on. -/
def sendNext (s : HomePage) (batch : Batch) : HomePage :=
  match batch.rest with
  | [] => s.sendGroups batch.later
  | file :: rest =>
    if batch.epoch ≠ s.transferEpoch then s.sendGroups batch.later
    else s.callSend batch.epoch batch.peer file rest batch.later

def removeTracked (s : HomePage) (object : Nat) : HomePage :=
  { s with trackedSends := s.trackedSends.filter (·.object ≠ object) }

def TrackedSend.name (object sendId : Nat) (job : TrackedSend) : TrackedSend :=
  if job.object = object then { job with sendId := some sendId } else job

/-- `lan.send` returns. A send that started while the epoch moved on is cancelled. -/
def sendReturns (s : HomePage) (batch : Batch) : SendResult → HomePage
  | .failed => (s.removeTracked batch.tracked).sendNext batch
  | .unnamed => s.sendNext batch
  | .started =>
    let started := { s with
      sending := ⟨s.nextSend, batch.tracked, batch.file⟩ :: s.sending
      nextSend := s.nextSend + 1 }
    if batch.epoch ≠ s.transferEpoch then (started.removeTracked batch.tracked).sendNext batch
    else { started with
      trackedSends := s.trackedSends.map (TrackedSend.name batch.tracked s.nextSend)
      sendIds := s.nextSend :: s.sendIds
      isTransferPaused := false }.sendNext batch

def releaseReceivePause (s : HomePage) : HomePage :=
  if s.isReceivePaused then { s with isReceivePaused := false, calls := s.calls ++ [.resume] } else s

/-- `putIfAbsent` of the peer, and `add` of the path. -/
def addPath (peer : String) (file : File) : List (String × List File) → List (String × List File)
  | [] => [(peer, [file])]
  | (p, files) :: groups =>
    if p = peer then (p, files ++ [file]) :: groups else (p, files) :: addPath peer file groups

def pathsByPeer (jobs : List TrackedSend) : List (String × List File) :=
  jobs.foldl (fun groups job => addPath job.peer job.file groups) []

def resume (s : HomePage) : HomePage :=
  { s with
    isTransferPaused := false
    pauseInProgress := false
    pausedSends := []
    owed := s.owed ++ s.incomplete }.sendGroups (pathsByPeer s.pausedSends)

def lanJobs (s : HomePage) : List TrackedSend :=
  s.trackedSends.filter fun job => job.sendId.any (· ∈ s.sendIds)

def pause (s : HomePage) : HomePage :=
  if s.lanJobs = [] then s
  else { s with
    pauseInProgress := true
    transferEpoch := s.transferEpoch + 1
    pausings := ⟨s.lanJobs, s.lanJobs⟩ :: s.pausings }

def togglePause (s : HomePage) : HomePage :=
  if s.isReceivePaused then s.releaseReceivePause
  else if s.receivingIds ≠ [] then { s with calls := s.calls ++ [.pause] }
  else if s.isTransferPaused then s.resume
  else s.pause

/-- The end of a pause whose cancels have all returned. -/
def paused (s : HomePage) (lanJobs : List TrackedSend) : HomePage :=
  { s with
    pausedSends := lanJobs
    isTransferPaused := true
    pauseInProgress := false
    sendIds := s.sendIds.filter fun id => some id ∉ lanJobs.map TrackedSend.sendId
    trackedSends := s.trackedSends.filter fun job => job.object ∉ lanJobs.map TrackedSend.object }

def cancelReturns (s : HomePage) (pausing : Pausing) : HomePage :=
  match pausing.rest with
  | [] => s.paused pausing.lanJobs
  | [_] => s.paused pausing.lanJobs
  | _ :: rest => { s with pausings := ⟨pausing.lanJobs, rest⟩ :: s.pausings }

/-- `lan.sent`: the send is forgotten, whether it went well or not. -/
def onSent (s : HomePage) (send : Sending) (ok : Bool) : HomePage :=
  { s with
    sending := s.sending.erase send
    sendIds := s.sendIds.filter (· ≠ send.sendId)
    trackedSends := s.trackedSends.filter (·.sendId ≠ some send.sendId)
    completed := if ok then send.file.index :: s.completed else s.completed
    twice := if ok ∧ s.newest send.file.index ≠ send.tracked then send.file.index :: s.twice
      else s.twice }

/-- `lan.progress` of a transfer that comes in. -/
def onProgress (s : HomePage) (transfer : Nat) : HomePage :=
  { s with
    incoming := s.incoming.insert transfer
    receivingIds := s.receivingIds.insert transfer }

def onReceived (s : HomePage) (transfer : Nat) : HomePage :=
  let removed := { s with
    incoming := s.incoming.filter (· ≠ transfer)
    receivingIds := s.receivingIds.filter (· ≠ transfer) }
  if removed.receivingIds = [] then removed.releaseReceivePause else removed

/-- The core reports a transfer that failed by `lan.status`, which names no transfer. -/
def onFailed (s : HomePage) (transfer : Nat) : HomePage :=
  { s with incoming := s.incoming.filter (· ≠ transfer) }

/-- The core sets its gate. -/
def runCall (s : HomePage) : Option HomePage :=
  match s.calls with
  | [] => none
  | call :: rest =>
    some { s with calls := rest, answers := s.answers ++ [call], gate := decide (call = .pause) }

/-- A press of pause goes on once its call has returned. -/
def callReturns (s : HomePage) : Option HomePage :=
  match s.answers with
  | [] => none
  | .pause :: rest => some { s with answers := rest, isReceivePaused := true }
  | .resume :: rest => some { s with answers := rest }

inductive Event where
  | press
  | peers (ids : List String)
  | sendReturns (batch : Batch) (result : SendResult)
  | cancelReturns (pausing : Pausing)
  | sent (send : Sending) (ok : Bool)
  | progress (transfer : Nat)
  | received (transfer : Nat)
  | failed (transfer : Nat)
  | runCall
  | callReturns
  deriving DecidableEq, Repr

def step (s : HomePage) : Event → Option HomePage
  | .press => some s.togglePause
  | .peers ids => some { s with peers := ids }
  | .sendReturns batch result =>
    if batch ∈ s.batches then
      some ({ s with batches := s.batches.erase batch }.sendReturns batch result)
    else none
  | .cancelReturns pausing =>
    if pausing ∈ s.pausings then
      some ({ s with pausings := s.pausings.erase pausing }.cancelReturns pausing)
    else none
  | .sent send ok => if send ∈ s.sending then some (s.onSent send ok) else none
  | .progress transfer => some (s.onProgress transfer)
  | .received transfer => if transfer ∈ s.incoming then some (s.onReceived transfer) else none
  | .failed transfer => if transfer ∈ s.incoming then some (s.onFailed transfer) else none
  | .runCall => s.runCall
  | .callReturns => s.callReturns

def opened (peer : String) (files : List File) : HomePage where
  receivingIds := []
  isReceivePaused := false
  sendIds := []
  trackedSends := []
  pausedSends := []
  isTransferPaused := false
  pauseInProgress := false
  transferEpoch := 0
  peers := [peer]
  batches := []
  pausings := []
  objects := 0
  calls := []
  answers := []
  gate := false
  incoming := []
  sending := []
  nextSend := 0
  files := files
  completed := []
  owed := []
  twice := []
  newest := fun _ => 0

def numbered (paths : List String) : List File := paths.zipIdx.map fun p => ⟨p.2, p.1⟩

/-- The page on which a batch of files has been sent to a peer. -/
def page (peer : String) (paths : List String) : Automaton HomePage Event where
  start := (opened peer (numbered paths)).sendToPeer peer (numbered paths)
  step := step

end HomePage

end InkHole
