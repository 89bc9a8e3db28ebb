import InkHole.Json
import InkHole.Protocol
import InkHole.Stateful

/-! The client of the rendezvous server: what it takes from the server, and which messages of the
mailbox it hands on. -/

namespace InkHole

open Stateful

/-- A message of the mailbox. Its body is kept as the characters that it has. -/
structure MailboxMessage where
  side : String
  phase : String
  body : List Char
  deriving DecidableEq, Repr

/-- What the server sends, as far as the client tells it apart. A message of the mailbox may lack
some of its fields; a reply is a value of any other type. -/
inductive ServerValue where
  | message (fields : Option MailboxMessage)
  | error (text : Option String)
  | reply (type : String) (id : Option String)
  | untyped
  deriving DecidableEq, Repr

def ServerValue.id : ServerValue → Option String
  | .reply _ id => id
  | _ => none

def maxRendezvousMessage : Nat := 64 * 1024
def maxPendingMessages : Nat := 64

/-- A client, with what its socket still delivers. For each command that it writes there is an id
that is drawn for it, and the error of a write that fails. -/
structure RendezvousClient where
  sideId : String
  nameplate : Option String
  pending : List ServerValue
  mailbox : List MailboxMessage
  socket : List (Except CoreError ServerValue)
  commands : List (String × Option CoreError)

abbrev ClientM := Stateful RendezvousClient CoreError

namespace RendezvousClient

def readSocketValue : ClientM ServerValue := do
  let c ← get
  match c.socket with
  | [] => throw (.protocol "rendezvous connection ended")
  | value :: rest => do
    set { c with socket := rest }
    liftM value

def serverError : Option String → CoreError
  | none => .protocol "rendezvous server error: unknown rendezvous error"
  | some text =>
    if text.toList.tails.any "crowded".toList.isPrefixOf then
      .protocol "该短码的会话已被占用或已失效;请让发送端重新生成短码后再接收"
    else .protocol s!"rendezvous server error: {text}"

/-- A message of the client's own side is passed over. -/
def dispatch (value : ServerValue) : ClientM Unit := do
  let c ← get
  match value with
  | .message none => throw .json
  | .message (some message) =>
    if message.side ≠ c.sideId then
      if maxPendingMessages ≤ c.mailbox.length then throw (.protocol "too many pending mailbox messages")
      else set { c with mailbox := c.mailbox ++ [message] }
    else pure ()
  | .error text => throw (serverError text)
  | .reply type id =>
    if maxPendingMessages ≤ c.pending.length then throw (.protocol "too many pending rendezvous messages")
    else set { c with pending := c.pending ++ [ServerValue.reply type id] }
  | .untyped => throw (.protocol "rendezvous message has no type")

def hasType (expected : String) : ServerValue → Bool
  | .reply type _ => type == expected
  | _ => false

/-- Each round takes a value from the socket, so that one round more than it delivers values is
enough fuel. -/
def readTypeWith (expected : String) : Nat → ClientM ServerValue
  | 0 => throw (.protocol "rendezvous connection ended")
  | fuel + 1 => do
    let c ← get
    match c.pending.find? (hasType expected) with
    | some value => do
      set { c with pending := c.pending.eraseIdx (c.pending.findIdx (hasType expected)) }
      return value
    | none =>
      let value ← readSocketValue
      if hasType expected value then return value
      else
        dispatch value
        readTypeWith expected fuel

def readType (expected : String) : ClientM ServerValue := do
  let c ← get
  readTypeWith expected (c.socket.length + 1)

def textSize (text : List Char) : Nat := (text.map Char.utf8Size).sum

def commandText (fields : List (String × List Char)) : List Char :=
  '{' :: [','].intercalate (fields.map fun field =>
    Json.stringText field.1 ++ ':' :: '"' :: Json.stringBody field.2) ++ ['}']

def sendCommand (command : String) (fields : List (String × List Char)) : ClientM Unit := do
  let c ← get
  let drawn := c.commands.headD ("", none)
  set { c with commands := c.commands.tail }
  if maxRendezvousMessage < textSize (commandText (fields ++ [("id", drawn.1.toList), ("type", command.toList)])) then
    throw (.invalidRequest "rendezvous command is too large")
  else
    match drawn.2 with
    | some e => throw e
    | none =>
      let acknowledgement ← readType "ack"
      if acknowledgement.id ≠ some drawn.1 then throw (.protocol "rendezvous acknowledgement ID mismatch")
      else pure ()

def addMessage (phase : String) (body : List Char) : ClientM Unit :=
  if phase = "" ∨ 64 < phase.utf8ByteSize ∨ maxRendezvousMessage < textSize body then
    throw (.invalidRequest "rendezvous mailbox message is invalid")
  else sendCommand "add" [("phase", phase.toList), ("body", body)]

def releaseNameplate : ClientM Unit := do
  let c ← get
  match c.nameplate with
  | none => pure ()
  | some nameplate => do
    set { c with nameplate := none }
    sendCommand "release" [("nameplate", nameplate.toList)]
    let _ ← readType "released"

def nextPeerMessageWith : Nat → ClientM MailboxMessage
  | 0 => throw (.protocol "rendezvous connection ended")
  | fuel + 1 => do
    let c ← get
    match c.mailbox with
    | message :: rest => do
      set { c with mailbox := rest }
      if c.nameplate.isSome then releaseNameplate
      return message
    | [] =>
      let value ← readSocketValue
      dispatch value
      nextPeerMessageWith fuel

def nextPeerMessage : ClientM MailboxMessage := do
  let c ← get
  nextPeerMessageWith (c.socket.length + 1)

/-! The messages that are handed on are of another side, and come from the server. -/

/-- A message of another side that the server has sent. -/
def Foreign (side : String) (socket : List (Except CoreError ServerValue)) (m : MailboxMessage) : Prop :=
  m.side ≠ side ∧ .ok (.message (some m)) ∈ socket

structure Faithful (side : String) (socket : List (Except CoreError ServerValue)) (c : RendezvousClient) :
    Prop where
  own : c.sideId = side
  mailbox : ∀ m ∈ c.mailbox, Foreign side socket m
  socket : c.socket ⊆ socket

variable {side : String} {socket : List (Except CoreError ServerValue)}

/-- A value that may come from the socket. -/
def From (socket : List (Except CoreError ServerValue)) (value : ServerValue) : Prop := .ok value ∈ socket

theorem keeps_readSocketValue : Keeps (Faithful side socket) (From socket) readSocketValue := by
  refine keeps_bind keeps_get fun c hc => ?_
  split
  · exact keeps_throw _
  · next value rest hsocket =>
    have hsub := hc.socket
    rw [hsocket] at hsub
    obtain ⟨hvalue, hrest⟩ := List.cons_subset.mp hsub
    refine keeps_bind (keeps_set ⟨hc.own, hc.mailbox, hrest⟩) fun _ _ => keeps_lift fun a ha => ?_
    rwa [ha] at hvalue

theorem keeps_dispatch {value : ServerValue} (hv : From socket value) :
    Keeps (Faithful side socket) (fun _ => True) (dispatch value) := by
  refine keeps_bind keeps_get fun c hc => ?_
  cases value with
  | message fields =>
    cases fields with
    | none => exact keeps_throw _
    | some message =>
      simp only
      split
      · next hside =>
        split
        · exact keeps_throw _
        · refine keeps_set ⟨hc.own, fun m hm => ?_, hc.socket⟩
          rcases List.mem_append.mp hm with hm | hm
          · exact hc.mailbox m hm
          · obtain rfl := List.mem_singleton.mp hm
            exact ⟨hc.own ▸ hside, hv⟩
      · exact keeps_pure trivial
  | error text => exact keeps_throw _
  | reply type id =>
    simp only
    split
    · exact keeps_throw _
    · exact keeps_set ⟨hc.own, hc.mailbox, hc.socket⟩
  | untyped => exact keeps_throw _

theorem keeps_readTypeWith (expected : String) (fuel : Nat) :
    Keeps (Faithful side socket) (fun _ => True) (readTypeWith expected fuel) := by
  induction fuel with
  | zero => exact keeps_throw _
  | succ fuel ih =>
    refine keeps_bind keeps_get fun c hc => ?_
    split
    · exact keeps_bind (keeps_set ⟨hc.own, hc.mailbox, hc.socket⟩) fun _ _ => keeps_pure trivial
    · refine keeps_bind keeps_readSocketValue fun value hvalue => ?_
      split
      · exact keeps_pure trivial
      · exact keeps_bind (keeps_dispatch hvalue) fun _ _ => ih

theorem keeps_readType (expected : String) :
    Keeps (Faithful side socket) (fun _ => True) (readType expected) :=
  keeps_bind keeps_get fun _ _ => keeps_readTypeWith expected _

theorem keeps_sendCommand (command : String) (fields : List (String × List Char)) :
    Keeps (Faithful side socket) (fun _ => True) (sendCommand command fields) := by
  refine keeps_bind keeps_get fun c hc => keeps_bind (keeps_set ⟨hc.own, hc.mailbox, hc.socket⟩) fun _ _ => ?_
  split
  · exact keeps_throw _
  · split
    · exact keeps_throw _
    · refine keeps_bind (keeps_readType "ack") fun acknowledgement _ => ?_
      split
      · exact keeps_throw _
      · exact keeps_pure trivial

theorem keeps_addMessage (phase : String) (body : List Char) :
    Keeps (Faithful side socket) (fun _ => True) (addMessage phase body) := by
  rw [addMessage]
  split
  · exact keeps_throw _
  · exact keeps_sendCommand _ _

theorem keeps_releaseNameplate : Keeps (Faithful side socket) (fun _ => True) releaseNameplate := by
  refine keeps_bind keeps_get fun c hc => ?_
  split
  · exact keeps_pure trivial
  · refine keeps_bind (keeps_set ⟨hc.own, hc.mailbox, hc.socket⟩) fun _ _ => ?_
    refine keeps_bind (keeps_sendCommand _ _) fun _ _ => ?_
    exact keeps_bind (keeps_readType _) fun _ _ => keeps_pure trivial

theorem keeps_nextPeerMessageWith (fuel : Nat) :
    Keeps (Faithful side socket) (Foreign side socket) (nextPeerMessageWith fuel) := by
  induction fuel with
  | zero => exact keeps_throw _
  | succ fuel ih =>
    refine keeps_bind keeps_get fun c hc => ?_
    split
    · next message rest hmailbox =>
      have hmessages := hc.mailbox
      rw [hmailbox] at hmessages
      obtain ⟨hmessage, hrest⟩ := List.forall_mem_cons.mp hmessages
      refine keeps_bind (keeps_set ⟨hc.own, hrest, hc.socket⟩) fun _ _ => ?_
      split
      · exact keeps_bind keeps_releaseNameplate fun _ _ => keeps_pure hmessage
      · exact keeps_pure hmessage
    · exact keeps_bind keeps_readSocketValue fun value hvalue =>
        keeps_bind (keeps_dispatch hvalue) fun _ _ => ih

/-- Only messages of another side are handed on. -/
theorem keeps_nextPeerMessage : Keeps (Faithful side socket) (Foreign side socket) nextPeerMessage :=
  keeps_bind keeps_get fun _ _ => keeps_nextPeerMessageWith _

end RendezvousClient

end InkHole
