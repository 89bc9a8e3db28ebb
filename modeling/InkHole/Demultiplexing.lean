import InkHole.Authentication
import InkHole.Rendezvous

/-! Several calls read from the socket of the rendezvous client, and each keeps for the others what it
does not wait for. Between them no message of the peer is lost. -/

set_option linter.unusedSectionVars false

namespace Json

variable [Floats]

def Value.get : Value → String → Option Value
  | .object fields, field => fields.lookup field
  | _, _ => none

def Value.asStr : Value → Option String
  | .string s => some s
  | _ => none

end Json

namespace InkHole

open Stateful RendezvousClient

section Frames

variable [Json.Floats]

def messageType (value : Json.Value) : Option String := (value.get "type").bind Json.Value.asStr

def mailboxMessage (value : Json.Value) : Option MailboxMessage := do
  let side ← (value.get "side").bind Json.Value.asStr
  let phase ← (value.get "phase").bind Json.Value.asStr
  let body ← (value.get "body").bind Json.Value.asStr
  return ⟨side, phase, body.toList⟩

def ServerValue.ofJson (value : Json.Value) : ServerValue :=
  match messageType value with
  | none => .untyped
  | some type =>
    if type = "message" then .message (mailboxMessage value)
    else if type = "error" then .error ((value.get "error").bind Json.Value.asStr)
    else .reply type ((value.get "id").bind Json.Value.asStr)

/-- What the websocket delivers. A ping comes with the error of its answer, if that fails. -/
inductive SocketFrame where
  | text (data : Bytes)
  | binary (data : Bytes)
  | ping (answer : Option String)
  | pong
  | close
  | frame
  | failed (error : String)

/-- What a frame is read as, or nothing where the reading goes on with the next one. -/
def SocketFrame.reading (fromSlice : Bytes → Option Json.Value) :
    SocketFrame → Option (Except CoreError ServerValue)
  | .text data | .binary data =>
    if maxRendezvousMessage < data.length then some (.error (.protocol "rendezvous message is too large"))
    else some (((fromSlice data).map ServerValue.ofJson).elim (.error .json) .ok)
  | .ping none | .pong | .frame => none
  | .ping (some error) => some (.error (.protocol s!"reply to rendezvous ping: {error}"))
  | .close => some (.error (.protocol "rendezvous server closed the connection"))
  | .failed error => some (.error (.protocol s!"read rendezvous message: {error}"))

def readSocketFrames (fromSlice : Bytes → Option Json.Value) :
    List SocketFrame → Except CoreError ServerValue × List SocketFrame
  | [] => (.error (.protocol "rendezvous connection ended"), [])
  | received :: frames =>
    match received.reading fromSlice with
    | none => readSocketFrames fromSlice frames
    | some value => (value, frames)

def readings (fromSlice : Bytes → Option Json.Value) (frames : List SocketFrame) :
    List (Except CoreError ServerValue) := frames.filterMap (SocketFrame.reading fromSlice)

/-- The values of the socket are what the frames are read as, one after the other. -/
theorem readSocketValue_frames (fromSlice : Bytes → Option Json.Value) (c : RendezvousClient)
    (frames : List SocketFrame) :
    readSocketValue.from_ { c with socket := readings fromSlice frames } =
      ((readSocketFrames fromSlice frames).1,
        { c with socket := readings fromSlice (readSocketFrames fromSlice frames).2 }) := by
  induction frames with
  | nil => rfl
  | cons received frames ih =>
    cases h : received.reading fromSlice with
    | none =>
      rw [readings, List.filterMap_cons_none h, readSocketFrames, h]
      exact ih
    | some value =>
      rw [readings, List.filterMap_cons_some h, readSocketFrames, h]
      rfl

end Frames

namespace RendezvousClient

section Calls

variable [Json.Floats]

def writeCommand (command : String) (fields : List (String × Json.Value)) : ClientM String := do
  let c ← get
  let drawn := c.commands.headD ("", none)
  set { c with commands := c.commands.tail }
  if maxRendezvousMessage <
      textSize (Json.Value.object (fields ++ [("id", .string drawn.1), ("type", .string command)])).text then
    throw (.invalidRequest "rendezvous command is too large")
  else
    match drawn.2 with
    | some e => throw e
    | none => return drawn.1

def writeCommands : List (String × List (String × Json.Value)) → ClientM (List String)
  | [] => return []
  | command :: commands => do
    let id ← writeCommand command.1 command.2
    let ids ← writeCommands commands
    return id :: ids

def readAcknowledgements : List String → ClientM Unit
  | [] => pure ()
  | id :: ids => do
    let acknowledgement ← readType "ack"
    if acknowledgement.id ≠ some id then throw (.protocol "rendezvous acknowledgement ID mismatch")
    else readAcknowledgements ids

/-- All commands are written before the first acknowledgement is read. -/
def sendCommands (commands : List (String × List (String × Json.Value))) : ClientM Unit := do
  let ids ← writeCommands commands
  readAcknowledgements ids

theorem fieldsText_strings (fields : List (String × List Char)) :
    Json.fieldsText (fields.map fun field => (field.1, .string (String.ofList field.2))) =
      (fields.flatMap fun field =>
        ',' :: (Json.stringText field.1 ++ ':' :: '"' :: Json.stringBody field.2)) ++ ['\x7d'] := by
  induction fields with
  | nil => rfl
  | cons field fields ih =>
    rw [List.map_cons, Json.fieldsText, ih, Json.Value.text, List.flatMap_cons]
    simp [Json.stringText]

/-- A command whose fields are strings is written as the object that they make. -/
theorem commandText_object (fields : List (String × List Char)) :
    commandText fields =
      (Json.Value.object (fields.map fun field => (field.1, .string (String.ofList field.2)))).text := by
  cases fields with
  | nil => rfl
  | cons field fields =>
    rw [commandText, List.map_cons, Codes.intercalate_cons, List.map_cons, Json.Value.text, fieldsText_strings,
      Json.Value.text, List.flatMap_map]
    simp [Json.stringText]

/-- A single command is a batch of one. -/
theorem sendCommand_eq (command : String) (fields : List (String × List Char)) (c : RendezvousClient) :
    (sendCommand command fields).from_ c =
      (sendCommands [(command, fields.map fun field => (field.1, .string (String.ofList field.2)))]).from_ c := by
  have htext (id : String) : commandText (fields ++ [("id", id.toList), ("type", command.toList)]) =
      (Json.Value.object (fields.map (fun field => (field.1, .string (String.ofList field.2))) ++
        [("id", .string id), ("type", .string command)])).text := by
    rw [commandText_object, List.map_append]
    simp only [List.map_cons, List.map_nil, String.ofList_toList]
  rw [sendCommands, from_bind, writeCommands, from_bind]
  by_cases hsize : maxRendezvousMessage < textSize (Json.Value.object
      (fields.map (fun field => (field.1, .string (String.ofList field.2))) ++
        [("id", .string (c.commands.headD ("", none)).1), ("type", .string command)])).text
  · rw [sendCommand, writeCommand, from_get_bind, from_get_bind]
    simp only [htext, if_pos hsize]
    rfl
  · cases hdrawn : (c.commands.headD ("", none)).2 with
    | some e =>
      rw [sendCommand, writeCommand, from_get_bind, from_get_bind]
      simp only [htext, if_neg hsize, hdrawn]
      rfl
    | none =>
      rw [sendCommand, writeCommand, from_get_bind, from_get_bind]
      simp only [htext, if_neg hsize, hdrawn]
      rfl

def pump : Nat → ClientM Unit
  | 0 => pure ()
  | turns + 1 => do
    let value ← readSocketValue
    dispatch value
    pump turns

def bindCommand (side appId version : String) : String × List (String × Json.Value) :=
  ("bind", [("side", .string side), ("appid", .string appId),
    ("client_version", .array [.string "inkhole-rust", .string version])])

/-- The strings in the fields of a reply. -/
abbrev ReplyFields := ServerValue → String → Option String

def requiredString (fieldOf : ReplyFields) (value : ServerValue) (field : String) : Except CoreError String :=
  match fieldOf value field with
  | none => .error (.protocol s!"rendezvous response has no {field}")
  | some text =>
    if text = "" then .error (.protocol s!"rendezvous response has no {field}") else .ok text

/-- The mailbox that was opened is returned; the client keeps it for `close`. -/
def finishOpen (fieldOf : ReplyFields) (nameplate : String) : ClientM String := do
  let claimed ← readType "claimed"
  let mailbox ← liftM (requiredString fieldOf claimed "mailbox")
  sendCommands [("open", [("mailbox", .string mailbox)])]
  let c ← get
  set { c with nameplate := some nameplate }
  return mailbox

def createMailbox (fieldOf : ReplyFields) (appId version : String) : ClientM (String × String) := do
  let c ← get
  sendCommands [bindCommand c.sideId appId version, ("allocate", [])]
  let allocated ← readType "allocated"
  let nameplate ← liftM (requiredString fieldOf allocated "nameplate")
  sendCommands [("claim", [("nameplate", .string nameplate)])]
  let mailbox ← finishOpen fieldOf nameplate
  return (nameplate, mailbox)

def attachMailbox (fieldOf : ReplyFields) (appId version nameplate : String) : ClientM String :=
  if nameplate = "" ∨ ¬ nameplate.toList.all Char.isDigit then
    throw (.invalidRequest "short code has an invalid nameplate")
  else do
    let c ← get
    sendCommands [bindCommand c.sideId appId version, ("claim", [("nameplate", .string nameplate)])]
    finishOpen fieldOf nameplate

/-- `closed` is what closing the socket comes to. -/
def close (mailbox mood : String) (closed : Except CoreError Unit) : ClientM Unit :=
  if mailbox = "" then liftM closed
  else do
    sendCommands [("close", [("mailbox", .string mailbox),
      ("mood", .string (if mood = "" then "happy" else mood))])]
    let _ ← readType "closed"
    liftM closed

/-- A type that only replies have. -/
abbrev ReplyType := { expected : String // expected ≠ "message" ∧ expected ≠ "error" }

/-- What is asked of the client. A pump takes as many turns as it can before it is stopped. -/
inductive Call where
  | sendCommands (commands : List (String × List (String × Json.Value)))
  | readType (expected : ReplyType)
  | pump (turns : Nat)
  | nextPeerMessage
  | createMailbox (appId version : String)
  | attachMailbox (appId version nameplate : String)
  | addMessage (phase : String) (body : List Char)
  | releaseNameplate
  | close (mailbox mood : String) (closed : Except CoreError Unit)

/-- A call and the messages that it returns. -/
def Call.run (fieldOf : ReplyFields) : Call → ClientM (List MailboxMessage)
  | .sendCommands commands => do
    RendezvousClient.sendCommands commands
    return []
  | .readType expected => do
    let _ ← RendezvousClient.readType expected.val
    return []
  | .pump turns => do
    RendezvousClient.pump turns
    return []
  | .nextPeerMessage => do
    let message ← RendezvousClient.nextPeerMessage
    return [message]
  | .createMailbox appId version => do
    let _ ← RendezvousClient.createMailbox fieldOf appId version
    return []
  | .attachMailbox appId version nameplate => do
    let _ ← RendezvousClient.attachMailbox fieldOf appId version nameplate
    return []
  | .addMessage phase body => do
    RendezvousClient.addMessage phase body
    return []
  | .releaseNameplate => do
    RendezvousClient.releaseNameplate
    return []
  | .close mailbox mood closed => do
    RendezvousClient.close mailbox mood closed
    return []

def runCalls (fieldOf : ReplyFields) : List Call → ClientM (List MailboxMessage)
  | [] => return []
  | call :: calls => do
    let messages ← call.run fieldOf
    let later ← runCalls fieldOf calls
    return messages ++ later

end Calls

def connected (sideId : String) (commands : List (String × Option CoreError))
    (socket : List (Except CoreError ServerValue)) : RendezvousClient :=
  ⟨sideId, none, [], [], socket, commands⟩

/-! What of the peer was read is accounted for: it was returned, or it waits in the mailbox. -/

def peerMessage (side : String) : ServerValue → Option MailboxMessage
  | .message (some message) => if message.side ≠ side then some message else none
  | _ => none

def peerReading (side : String) : Except CoreError ServerValue → Option MailboxMessage
  | .ok value => peerMessage side value
  | .error _ => none

def peerMessages (side : String) (values : List (Except CoreError ServerValue)) : List MailboxMessage :=
  values.filterMap (peerReading side)

theorem peerMessages_side {side : String} {values : List (Except CoreError ServerValue)} {m : MailboxMessage}
    (h : m ∈ peerMessages side values) : m.side ≠ side := by
  obtain ⟨value, _, hm⟩ := List.mem_filterMap.mp h
  cases value with
  | error e => cases hm
  | ok value =>
    cases value with
    | message fields =>
      cases fields with
      | none => cases hm
      | some message =>
        obtain ⟨hside, rfl⟩ := Option.ite_some_none_eq_some.mp hm
        exact hside
    | error text => cases hm
    | reply type id => cases hm
    | untyped => cases hm

/-- `values` is the stream, `given` was returned before, and `inHand` was read but is not yet kept. -/
structure Accounts (side : String) (values : List (Except CoreError ServerValue))
    (given inHand : List MailboxMessage) (c : RendezvousClient) : Prop where
  own : c.sideId = side
  bounded : c.mailbox.length ≤ maxPendingMessages
  account : ∃ read, values = read ++ c.socket ∧ given ++ c.mailbox ++ inHand = peerMessages side read

variable {side : String} {values : List (Except CoreError ServerValue)} {given inHand : List MailboxMessage}

/-- A change that the account does not see. -/
theorem Accounts.congr {c d : RendezvousClient} (h : Accounts side values given inHand c)
    (hs : d.sideId = c.sideId) (hm : d.mailbox = c.mailbox) (hv : d.socket = c.socket) :
    Accounts side values given inHand d := by
  refine ⟨hs.trans h.own, ?_, ?_⟩
  · rw [hm]
    exact h.bounded
  · rw [hm, hv]
    exact h.account

theorem accounts_connected (side : String) (commands : List (String × Option CoreError))
    (values : List (Except CoreError ServerValue)) :
    Accounts side values [] [] (connected side commands values) :=
  ⟨rfl, Nat.zero_le _, [], rfl, rfl⟩

/-- A computation that returns no message and loses none. -/
def Conserves {α : Type} (x : ClientM α) : Prop :=
  ∀ side values given, Yields (Accounts side values given []) x fun _ => Accounts side values given []

theorem conserves_pure {α : Type} (a : α) : Conserves (pure a) :=
  fun _ _ _ => yields_pure fun _ h => h

theorem conserves_throw {α : Type} (e : CoreError) : Conserves (throw e : ClientM α) :=
  fun _ _ _ => yields_throw e

theorem conserves_lift {α : Type} (x : Except CoreError α) : Conserves (liftM x : ClientM α) :=
  fun _ _ _ => yields_lift fun _ _ _ h => h

theorem conserves_bind {α β : Type} {x : ClientM α} {f : α → ClientM β} (hx : Conserves x)
    (hf : ∀ a, Conserves (f a)) : Conserves (x >>= f) :=
  fun side values given => yields_bind (hx side values given) fun a => hf a side values given

/-- The state is read and changed where the account does not look. -/
theorem conserves_update {β : Type} {f : RendezvousClient → RendezvousClient}
    {g : RendezvousClient → ClientM β} (hs : ∀ c, (f c).sideId = c.sideId)
    (hm : ∀ c, (f c).mailbox = c.mailbox) (hv : ∀ c, (f c).socket = c.socket)
    (hg : ∀ c, Conserves (g c)) :
    Conserves (do
      let c ← get
      set (f c)
      g c) := by
  intro side values given
  refine yields_bind yields_get fun c => ?_
  refine yields_bind (yields_set (R := Accounts side values given []) ?_) fun _ => hg c side values given
  rintro s ⟨rfl, h⟩
  exact h.congr (hs c) (hm c) (hv c)

theorem readSocketValue_yields :
    Yields (Accounts side values given []) readSocketValue fun value =>
      Accounts side values given (peerMessage side value).toList := by
  refine yields_bind yields_get fun c => ?_
  cases hsocket : c.socket with
  | nil => exact yields_throw _
  | cons value rest =>
    refine yields_bind (yields_set (R := fun d => d = { c with socket := rest } ∧
      Accounts side values given [] c) ?_) fun _ => yields_lift fun a ha s hs => ?_
    · rintro s ⟨rfl, h⟩
      exact ⟨rfl, h⟩
    · obtain ⟨rfl, h⟩ := hs
      obtain ⟨read, hvalues, haccount⟩ := h.account
      refine ⟨h.own, h.bounded, read ++ [value], ?_, ?_⟩
      · rw [hvalues, hsocket, List.append_assoc]
        rfl
      · rw [List.append_nil] at haccount
        rw [haccount, peerMessages, peerMessages, List.filterMap_append, ha]
        cases hp : peerMessage side a with
        | none => simp [peerReading, hp]
        | some m => simp [peerReading, hp]

theorem dispatch_yields (value : ServerValue) :
    Yields (Accounts side values given (peerMessage side value).toList) (dispatch value) fun _ =>
      Accounts side values given [] := by
  refine yields_bind yields_get fun c => ?_
  cases value with
  | message fields =>
    cases fields with
    | none => exact yields_throw _
    | some message =>
      by_cases hside : message.side ≠ c.sideId
      · by_cases hfull : maxPendingMessages ≤ c.mailbox.length
        · simp only [if_pos hside, if_pos hfull]
          exact yields_throw _
        · simp only [if_pos hside, if_neg hfull]
          refine yields_set ?_
          rintro s ⟨rfl, h⟩
          obtain ⟨read, hvalues, haccount⟩ := h.account
          refine ⟨h.own, ?_, read, hvalues, ?_⟩
          · rw [List.length_append, List.length_singleton]
            omega
          · rw [h.own] at hside
            rw [← haccount, peerMessage, if_pos hside, List.append_nil, List.append_assoc]
            rfl
      · simp only [if_neg hside]
        refine yields_pure ?_
        rintro s ⟨rfl, h⟩
        rw [h.own] at hside
        rwa [peerMessage, if_neg hside] at h
  | error text => exact yields_throw _
  | reply type id =>
    by_cases hfull : maxPendingMessages ≤ c.pending.length
    · simp only [if_pos hfull]
      exact yields_throw _
    · simp only [if_neg hfull]
      refine yields_set ?_
      rintro s ⟨rfl, h⟩
      exact h.congr rfl rfl rfl
  | untyped => exact yields_throw _

theorem peerMessage_of_hasType {expected : String} {value : ServerValue} (h : hasType expected value = true) :
    peerMessage side value = none := by
  cases value with
  | reply type id => rfl
  | message fields => cases h
  | error text => cases h
  | untyped => cases h

theorem readTypeWith_conserves (expected : String) (fuel : Nat) : Conserves (readTypeWith expected fuel) := by
  intro side values given
  induction fuel with
  | zero => exact yields_throw _
  | succ fuel ih =>
    refine yields_bind yields_get fun c => ?_
    cases c.pending.find? (hasType expected) with
    | some value =>
      refine yields_bind (yields_set (R := Accounts side values given []) ?_) fun _ =>
        yields_pure fun _ h => h
      rintro s ⟨rfl, h⟩
      exact h.congr rfl rfl rfl
    | none =>
      have hread : Yields (fun s => c = s ∧ Accounts side values given [] s) readSocketValue
          fun value => Accounts side values given (peerMessage side value).toList :=
        readSocketValue_yields.mono (fun _ h => h.2) fun _ _ h => h
      refine yields_bind hread fun value => ?_
      by_cases htype : hasType expected value = true
      · simp only [if_pos htype]
        refine yields_pure fun s h => ?_
        rwa [peerMessage_of_hasType htype] at h
      · simp only [if_neg htype]
        exact yields_bind (dispatch_yields value) fun _ => ih

theorem readType_conserves (expected : String) : Conserves (readType expected) := by
  intro side values given
  refine yields_bind yields_get fun c => ?_
  exact (readTypeWith_conserves expected _ side values given).mono (fun _ h => h.2) fun _ _ h => h

theorem pump_conserves (turns : Nat) : Conserves (pump turns) := by
  intro side values given
  induction turns with
  | zero => exact yields_pure fun _ h => h
  | succ turns ih =>
    refine yields_bind readSocketValue_yields fun value => ?_
    exact yields_bind (dispatch_yields value) fun _ => ih

theorem sendCommand_conserves (command : String) (fields : List (String × List Char)) :
    Conserves (sendCommand command fields) := by
  refine conserves_update (fun _ => rfl) (fun _ => rfl) (fun _ => rfl) fun c => ?_
  split
  · exact conserves_throw _
  · split
    · exact conserves_throw _
    · refine conserves_bind (readType_conserves "ack") fun acknowledgement => ?_
      split
      · exact conserves_throw _
      · exact conserves_pure ()

theorem addMessage_conserves (phase : String) (body : List Char) : Conserves (addMessage phase body) := by
  rw [addMessage]
  split
  · exact conserves_throw _
  · exact sendCommand_conserves _ _

theorem releaseNameplate_conserves : Conserves releaseNameplate := by
  intro side values given
  refine yields_bind yields_get fun c => ?_
  cases c.nameplate with
  | none => exact yields_pure fun _ h => h.2
  | some nameplate =>
    refine yields_bind (yields_set (R := Accounts side values given []) ?_) fun _ => ?_
    · rintro s ⟨rfl, h⟩
      exact h.congr rfl rfl rfl
    · refine yields_bind (sendCommand_conserves _ _ side values given) fun _ => ?_
      exact yields_bind (readType_conserves _ side values given) fun _ => yields_pure fun _ h => h

/-- The message is taken from the mailbox before the nameplate is released. What arrives meanwhile
comes after it. -/
theorem nextPeerMessageWith_yields (fuel : Nat) :
    Yields (Accounts side values given []) (nextPeerMessageWith fuel) fun message =>
      Accounts side values (given ++ [message]) [] := by
  induction fuel with
  | zero => exact yields_throw _
  | succ fuel ih =>
    refine yields_bind yields_get fun c => ?_
    cases hmailbox : c.mailbox with
    | cons message rest =>
      refine yields_bind (yields_set (R := Accounts side values (given ++ [message]) []) ?_) fun _ => ?_
      · rintro s ⟨rfl, h⟩
        obtain ⟨read, hvalues, haccount⟩ := h.account
        have hbounded := h.bounded
        rw [hmailbox] at haccount hbounded
        refine ⟨h.own, ?_, read, hvalues, ?_⟩
        · rw [List.length_cons] at hbounded
          change rest.length ≤ maxPendingMessages
          omega
        · rw [← haccount]
          simp
      · by_cases hnameplate : c.nameplate.isSome = true
        · simp only [if_pos hnameplate]
          exact yields_bind (releaseNameplate_conserves side values (given ++ [message])) fun _ =>
            yields_pure fun _ h => h
        · simp only [if_neg hnameplate]
          exact yields_pure fun _ h => h
    | nil =>
      have hread : Yields (fun s => c = s ∧ Accounts side values given [] s) readSocketValue
          fun value => Accounts side values given (peerMessage side value).toList :=
        readSocketValue_yields.mono (fun _ h => h.2) fun _ _ h => h
      exact yields_bind hread fun value => yields_bind (dispatch_yields value) fun _ => ih

theorem nextPeerMessage_yields :
    Yields (Accounts side values given []) nextPeerMessage fun message =>
      Accounts side values (given ++ [message]) [] := by
  refine yields_bind yields_get fun c => ?_
  exact (nextPeerMessageWith_yields _).mono (fun _ h => h.2) fun _ _ h => h

section Calls

variable [Json.Floats]

theorem writeCommand_conserves (command : String) (fields : List (String × Json.Value)) :
    Conserves (writeCommand command fields) := by
  refine conserves_update (fun _ => rfl) (fun _ => rfl) (fun _ => rfl) fun c => ?_
  split
  · exact conserves_throw _
  · split
    · exact conserves_throw _
    · exact conserves_pure _

theorem writeCommands_conserves (commands : List (String × List (String × Json.Value))) :
    Conserves (writeCommands commands) := by
  induction commands with
  | nil => exact conserves_pure _
  | cons command commands ih =>
    refine conserves_bind (writeCommand_conserves _ _) fun id => ?_
    exact conserves_bind ih fun ids => conserves_pure _

theorem readAcknowledgements_conserves (ids : List String) : Conserves (readAcknowledgements ids) := by
  induction ids with
  | nil => exact conserves_pure _
  | cons id ids ih =>
    refine conserves_bind (readType_conserves "ack") fun acknowledgement => ?_
    split
    · exact conserves_throw _
    · exact ih

theorem sendCommands_conserves (commands : List (String × List (String × Json.Value))) :
    Conserves (sendCommands commands) :=
  conserves_bind (writeCommands_conserves commands) readAcknowledgements_conserves

theorem finishOpen_conserves (fieldOf : ReplyFields) (nameplate : String) :
    Conserves (finishOpen fieldOf nameplate) := by
  refine conserves_bind (readType_conserves _) fun claimed => ?_
  refine conserves_bind (conserves_lift _) fun mailbox => ?_
  refine conserves_bind (sendCommands_conserves _) fun _ => ?_
  exact conserves_update (fun _ => rfl) (fun _ => rfl) (fun _ => rfl) fun _ => conserves_pure mailbox

theorem conserves_get {β : Type} {f : RendezvousClient → ClientM β} (h : ∀ c, Conserves (f c)) :
    Conserves (get >>= f) := by
  intro side values given
  exact yields_bind yields_get fun c => (h c side values given).mono (fun _ hc => hc.2) fun _ _ hc => hc

theorem createMailbox_conserves (fieldOf : ReplyFields) (appId version : String) :
    Conserves (createMailbox fieldOf appId version) := by
  refine conserves_get fun c => ?_
  refine conserves_bind (sendCommands_conserves _) fun _ => ?_
  refine conserves_bind (readType_conserves _) fun allocated => ?_
  refine conserves_bind (conserves_lift _) fun nameplate => ?_
  refine conserves_bind (sendCommands_conserves _) fun _ => ?_
  exact conserves_bind (finishOpen_conserves _ _) fun mailbox => conserves_pure _

theorem attachMailbox_conserves (fieldOf : ReplyFields) (appId version nameplate : String) :
    Conserves (attachMailbox fieldOf appId version nameplate) := by
  rw [attachMailbox]
  split
  · exact conserves_throw _
  · refine conserves_get fun c => ?_
    exact conserves_bind (sendCommands_conserves _) fun _ => finishOpen_conserves _ _

theorem close_conserves (mailbox mood : String) (closed : Except CoreError Unit) :
    Conserves (close mailbox mood closed) := by
  rw [close]
  split
  · exact conserves_lift _
  · refine conserves_bind (sendCommands_conserves _) fun _ => ?_
    exact conserves_bind (readType_conserves _) fun _ => conserves_lift _

/-- A call accounts for the messages that it returns. -/
theorem call_yields (fieldOf : ReplyFields) (call : Call) :
    Yields (Accounts side values given []) (call.run fieldOf) fun messages =>
      Accounts side values (given ++ messages) [] := by
  have hquiet {α : Type} {x : ClientM α} (h : Conserves x) :
      Yields (Accounts side values given []) (x >>= fun _ => pure []) fun messages =>
        Accounts side values (given ++ messages) [] := by
    refine yields_bind (h side values given) fun _ => yields_pure fun _ hc => ?_
    rwa [List.append_nil]
  cases call with
  | sendCommands commands => exact hquiet (sendCommands_conserves commands)
  | readType expected => exact hquiet (readType_conserves expected.val)
  | pump turns => exact hquiet (pump_conserves turns)
  | nextPeerMessage => exact yields_bind nextPeerMessage_yields fun message => yields_pure fun _ h => h
  | createMailbox appId version => exact hquiet (createMailbox_conserves fieldOf appId version)
  | attachMailbox appId version nameplate => exact hquiet (attachMailbox_conserves fieldOf appId version nameplate)
  | addMessage phase body => exact hquiet (addMessage_conserves phase body)
  | releaseNameplate => exact hquiet releaseNameplate_conserves
  | close mailbox mood closed => exact hquiet (close_conserves mailbox mood closed)

theorem runCalls_yields (fieldOf : ReplyFields) (calls : List Call) (given : List MailboxMessage) :
    Yields (Accounts side values given []) (runCalls fieldOf calls) fun messages =>
      Accounts side values (given ++ messages) [] := by
  induction calls generalizing given with
  | nil =>
    refine yields_pure fun _ h => ?_
    rwa [List.append_nil]
  | cons call calls ih =>
    refine yields_bind (call_yields fieldOf call) fun messages => ?_
    refine yields_bind (ih (given ++ messages)) fun later => yields_pure fun _ h => ?_
    rwa [← List.append_assoc]

/-- What of the peer has been read was returned or is still in the mailbox, in the order in which it
arrived. Where a buffer is full, the next value for it is an error. -/
theorem calls_demultiplex (fieldOf : ReplyFields) (fromSlice : Bytes → Option Json.Value) (sideId : String)
    (commands : List (String × Option CoreError)) (frames : List SocketFrame) (calls : List Call)
    {returned : List MailboxMessage} {c : RendezvousClient}
    (h : (runCalls fieldOf calls).from_ (connected sideId commands (readings fromSlice frames)) =
      (.ok returned, c)) :
    (∃ read, readings fromSlice frames = read ++ c.socket ∧
      returned ++ c.mailbox = peerMessages sideId read) ∧
      returned <+: peerMessages sideId (readings fromSlice frames) ∧
      (∀ m ∈ returned, m.side ≠ sideId) ∧ c.mailbox.length ≤ maxPendingMessages ∧
      (∀ m, m.side ≠ sideId → c.mailbox.length = maxPendingMessages →
        (dispatch (.message (some m))).from_ c =
          (.error (.protocol "too many pending mailbox messages"), c)) ∧
      ∀ type id, maxPendingMessages ≤ c.pending.length →
        (dispatch (.reply type id)).from_ c =
          (.error (.protocol "too many pending rendezvous messages"), c) := by
  have hend := runCalls_yields fieldOf calls [] _ _ _
    (accounts_connected sideId commands (readings fromSlice frames)) h
  obtain ⟨read, hvalues, haccount⟩ := hend.account
  rw [List.nil_append, List.append_nil] at haccount
  have hreturned : returned <+: peerMessages sideId (readings fromSlice frames) := by
    rw [hvalues, peerMessages, List.filterMap_append, ← peerMessages, ← haccount, List.append_assoc]
    exact List.prefix_append _ _
  refine ⟨⟨read, hvalues, haccount⟩, hreturned, fun m hm => ?_, hend.bounded, fun m hside hfull => ?_, ?_⟩
  · exact peerMessages_side (hreturned.subset hm)
  · rw [← hend.own] at hside
    rw [dispatch, from_get_bind]
    simp only [if_pos hside, if_pos hfull.ge]
    rfl
  · intro type id hfull
    rw [dispatch, from_get_bind]
    simp only [if_pos hfull]
    rfl

end Calls

/-! The fuel of the loops is never used up before the socket is. -/

theorem dispatch_socket {value : ServerValue} {c d : RendezvousClient} {r : Except CoreError Unit}
    (h : (dispatch value).from_ c = (r, d)) : d.socket = c.socket := by
  have hkeeps : Keeps (fun s => s.socket = c.socket) (fun _ => True) (dispatch value) := by
    refine keeps_bind keeps_get fun s hs => ?_
    cases value with
    | message fields =>
      cases fields with
      | none => exact keeps_throw _
      | some message =>
        simp only
        split
        · split
          · exact keeps_throw _
          · exact keeps_set hs
        · exact keeps_pure trivial
    | error text => exact keeps_throw _
    | reply type id =>
      simp only
      split
      · exact keeps_throw _
      · exact keeps_set hs
    | untyped => exact keeps_throw _
  have hsocket := (hkeeps c rfl).1
  rwa [h] at hsocket

/-- A round of a loop that reads and dispatches does not depend on fuel that it does not use. -/
theorem readSocketValue_bind_congr {α : Type} {f g : ServerValue → ClientM α} {c : RendezvousClient}
    (h : ∀ value d, d.socket.length < c.socket.length → (f value).from_ d = (g value).from_ d) :
    (readSocketValue >>= f).from_ c = (readSocketValue >>= g).from_ c := by
  rw [from_bind, from_bind, readSocketValue, from_get_bind]
  cases hsocket : c.socket with
  | nil => rfl
  | cons value rest =>
    cases value with
    | error e => rfl
    | ok value =>
      refine h value { c with socket := rest } ?_
      rw [hsocket]
      exact Nat.lt_succ_self _

theorem dispatch_bind_congr {α : Type} {value : ServerValue} {x y : ClientM α} {c : RendezvousClient}
    (h : ∀ d, d.socket = c.socket → x.from_ d = y.from_ d) :
    (dispatch value >>= fun _ => x).from_ c = (dispatch value >>= fun _ => y).from_ c := by
  rw [from_bind, from_bind]
  cases hr : (dispatch value).from_ c with
  | mk r d =>
    cases r with
    | error e => rfl
    | ok _ => exact h d (dispatch_socket hr)

theorem readTypeWith_fuel (expected : String) {fuel : Nat} (more : Nat) {c : RendezvousClient}
    (h : c.socket.length < fuel) :
    (readTypeWith expected (fuel + more)).from_ c = (readTypeWith expected fuel).from_ c := by
  induction fuel generalizing c with
  | zero => omega
  | succ fuel ih =>
    have hround : fuel + 1 + more = (fuel + more) + 1 := by omega
    rw [hround, readTypeWith, readTypeWith, from_get_bind, from_get_bind]
    cases c.pending.find? (hasType expected) with
    | some value => rfl
    | none =>
      refine readSocketValue_bind_congr fun value d hd => ?_
      split
      · rfl
      · refine dispatch_bind_congr fun d' hd' => ih ?_
        rw [hd']
        omega

theorem nextPeerMessageWith_fuel {fuel : Nat} (more : Nat) {c : RendezvousClient}
    (h : c.socket.length < fuel) :
    (nextPeerMessageWith (fuel + more)).from_ c = (nextPeerMessageWith fuel).from_ c := by
  induction fuel generalizing c with
  | zero => omega
  | succ fuel ih =>
    have hround : fuel + 1 + more = (fuel + more) + 1 := by omega
    rw [hround, nextPeerMessageWith, nextPeerMessageWith, from_get_bind, from_get_bind]
    cases c.mailbox with
    | cons message rest => rfl
    | nil =>
      refine readSocketValue_bind_congr fun value d hd => ?_
      refine dispatch_bind_congr fun d' hd' => ih ?_
      rw [hd']
      omega

end RendezvousClient

namespace Sample

attribute [local instance] floats

def mailboxJson (side phase : String) : Json.Value :=
  .object [("type", .string "message"), ("side", .string side), ("phase", .string phase), ("body", .string "")]

def acknowledgementJson (id : String) : Json.Value := .object [("type", .string "ack"), ("id", .string id)]

def mailboxSlice (data : Bytes) : Option Json.Value :=
  match data with
  | [0] => some (mailboxJson "peer" "pake")
  | [1] => some (mailboxJson "peer" "version")
  | [2] => some (mailboxJson "own" "pake")
  | [3] => some (acknowledgementJson "0003")
  | [4] => some (acknowledgementJson "0004")
  | _ => none

/-- A message of the peer arrives before the acknowledgements of two commands, another one while the
client is only kept alive. -/
def mailboxFrames : List SocketFrame :=
  [.text [0], .ping none, .text [3], .text [2], .text [4], .binary [1]]

def mailboxCalls : List RendezvousClient.Call :=
  [.sendCommands [("bind", []), ("allocate", [])], .pump 1, .nextPeerMessage]

theorem run_mailboxCalls : (RendezvousClient.runCalls (fun _ _ => none) mailboxCalls).from_
    (RendezvousClient.connected "own" [("0003", none), ("0004", none)] (readings mailboxSlice mailboxFrames)) =
      (.ok [⟨"peer", "pake", []⟩], ⟨"own", none, [], [⟨"peer", "version", []⟩], [], []⟩) := rfl

theorem calls_demultiplex_sample : ∃ read, readings mailboxSlice mailboxFrames = read ++ [] ∧
    [⟨"peer", "pake", []⟩] ++ [⟨"peer", "version", []⟩] = RendezvousClient.peerMessages "own" read :=
  (RendezvousClient.calls_demultiplex (fun _ _ => none) mailboxSlice "own" [("0003", none), ("0004", none)]
    mailboxFrames mailboxCalls run_mailboxCalls).1

end Sample

end InkHole
