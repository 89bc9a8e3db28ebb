import InkHole.Store

/-! The handlers of a receiving server, one for each stream a sender opens, and what
they read from it. -/

set_option linter.unusedSectionVars false

namespace InkHole

open InkHole.CoreM

def transferBufferSize : Nat := 256 * 1024

inductive Ending where
  | finished
  | failed (error : CoreError)
  deriving DecidableEq, Repr

/-- What comes after the last byte, to a reader who waits for more. -/
def Ending.error : Ending → CoreError
  | .finished => .io .unexpectedEof
  | .failed e => e

/-- The bytes a stream still delivers, how many of them each read is given at most, and
what comes after them. -/
structure Incoming where
  bytes : Bytes
  reads : List Nat
  ending : Ending
  deriving DecidableEq, Repr

/-- A read waits for one byte at least and is given no more than it asks for. -/
def Incoming.read (s : Incoming) (wanted : Nat) : Except CoreError (Option (Bytes × Incoming)) :=
  if s.bytes.isEmpty then
    match s.ending with
    | .finished => .ok none
    | .failed e => .error e
  else
    let n := min wanted (max 1 (s.reads.headD wanted))
    .ok (some (s.bytes.take n, ⟨s.bytes.drop n, s.reads.tail, s.ending⟩))

theorem Incoming.read_some {s rest : Incoming} {wanted : Nat} {chunk : Bytes}
    (h : s.read wanted = .ok (some (chunk, rest))) :
    ∃ n, n = min wanted (max 1 (s.reads.headD wanted)) ∧ s.bytes ≠ [] ∧
      chunk = s.bytes.take n ∧ rest = ⟨s.bytes.drop n, s.reads.tail, s.ending⟩ := by
  rw [read] at h
  split at h
  · split at h <;> simp at h
  · next hb =>
    simp only [Except.ok.injEq, Option.some.injEq, Prod.mk.injEq] at h
    exact ⟨_, rfl, fun he => hb (by simp [he]), h.1.symm, h.2.symm⟩

theorem Incoming.read_length {s rest : Incoming} {wanted : Nat} {chunk : Bytes}
    (h : s.read wanted = .ok (some (chunk, rest))) : chunk.length ≤ wanted := by
  obtain ⟨n, hn, -, rfl, -⟩ := read_some h
  rw [List.length_take]
  omega

namespace Incoming

/-- Bytes are read until there are as many as wanted. Each read brings one at least, so that their
number is enough fuel. -/
def readExactWith : Nat → Incoming → Nat → Except CoreError (Bytes × Incoming)
  | 0, s, _ => .ok ([], s)
  | fuel + 1, s, wanted =>
    if wanted = 0 then .ok ([], s)
    else do
      match ← s.read wanted with
      | none => throw (.io .unexpectedEof)
      | some (chunk, rest) =>
        let (more, rest) ← readExactWith fuel rest (wanted - chunk.length)
        return (chunk ++ more, rest)

def readExact (s : Incoming) (wanted : Nat) : Except CoreError (Bytes × Incoming) :=
  readExactWith wanted s wanted

theorem readExactWith_ok {fuel wanted : Nat} {s rest : Incoming} {bytes : Bytes} (hfuel : wanted ≤ fuel)
    (h : readExactWith fuel s wanted = .ok (bytes, rest)) :
    s.bytes = bytes ++ rest.bytes ∧ bytes.length = wanted ∧ rest.ending = s.ending := by
  induction fuel generalizing s wanted bytes rest with
  | zero =>
    obtain ⟨rfl, rfl⟩ := Prod.mk.inj (Except.ok.inj h)
    exact ⟨rfl, by rw [List.length_nil]; omega, rfl⟩
  | succ fuel ih =>
    rw [readExactWith] at h
    by_cases hw : wanted = 0
    · rw [if_pos hw] at h
      obtain ⟨rfl, rfl⟩ := Prod.mk.inj (Except.ok.inj h)
      exact ⟨rfl, hw.symm, rfl⟩
    · rw [if_neg hw] at h
      obtain ⟨piece, hread, h⟩ := bind_eq_ok.mp h
      cases piece with
      | none => cases h
      | some piece =>
        obtain ⟨chunk, next⟩ := piece
        obtain ⟨⟨more, last⟩, hmore, h⟩ := bind_eq_ok.mp h
        obtain ⟨rfl, rfl⟩ := Prod.mk.inj (Except.ok.inj h)
        have hlen := read_length hread
        obtain ⟨n, hn, hne, rfl, rfl⟩ := read_some hread
        have hpos := List.length_pos_iff.mpr hne
        rw [List.length_take] at hlen hmore
        obtain ⟨hbytes, hlength, hending⟩ := ih (by omega) hmore
        refine ⟨?_, ?_, hending⟩
        · rw [List.append_assoc, ← hbytes, List.take_append_drop]
        · rw [List.length_append, List.length_take, hlength]
          omega

/-- Where there are enough bytes they are read, in whatever pieces they come. -/
theorem readExactWith_append {fuel wanted : Nat} {front back : Bytes} {reads : List Nat} {ending : Ending}
    (hfuel : wanted ≤ fuel) (hlength : front.length = wanted) :
    ∃ reads', readExactWith fuel ⟨front ++ back, reads, ending⟩ wanted = .ok (front, ⟨back, reads', ending⟩) := by
  induction fuel generalizing front wanted reads with
  | zero =>
    obtain rfl : front = [] := List.length_eq_zero_iff.mp (by omega)
    exact ⟨reads, rfl⟩
  | succ fuel ih =>
    by_cases hw : wanted = 0
    · obtain rfl : front = [] := List.length_eq_zero_iff.mp (by omega)
      exact ⟨reads, by rw [readExactWith, if_pos hw, List.nil_append]⟩
    · have hne : (front ++ back).isEmpty = false := by
        cases front with
        | nil => exact absurd hlength.symm hw
        | cons b front => rfl
      generalize hn : min wanted (max 1 (reads.headD wanted)) = n
      have hle : n ≤ front.length := by omega
      have hdrop : (front.drop n).length = wanted - (front.take n).length := by
        rw [List.length_drop, List.length_take]
        omega
      have htake : (front.take n).length = n := by rw [List.length_take]; omega
      obtain ⟨reads', hrest⟩ : ∃ reads', readExactWith fuel ⟨front.drop n ++ back, reads.tail, ending⟩
          (wanted - (front.take n).length) = .ok (front.drop n, ⟨back, reads', ending⟩) :=
        ih (by omega) hdrop
      refine ⟨reads', ?_⟩
      rw [readExactWith, if_neg hw]
      refine bind_eq_ok.mpr ⟨some (front.take n, ⟨front.drop n ++ back, reads.tail, ending⟩), ?_, ?_⟩
      · simp only [read, hne, hn, Bool.false_eq_true, if_false]
        rw [List.take_append_of_le_length hle, List.drop_append_of_le_length hle]
      · refine bind_eq_ok.mpr ⟨_, hrest, ?_⟩
        simp only [List.take_append_drop]
        rfl

theorem readExact_ok {wanted : Nat} {s rest : Incoming} {bytes : Bytes}
    (h : s.readExact wanted = .ok (bytes, rest)) :
    s.bytes = bytes ++ rest.bytes ∧ bytes.length = wanted ∧ rest.ending = s.ending :=
  readExactWith_ok le_rfl h

theorem readExact_append (front back : Bytes) (reads : List Nat) (ending : Ending) :
    ∃ reads', (⟨front ++ back, reads, ending⟩ : Incoming).readExact front.length =
      .ok (front, ⟨back, reads', ending⟩) :=
  readExactWith_append le_rfl rfl

end Incoming

variable [Externals]

/-- What a sender does after each response. -/
abbrev Peer := TransferResponse → Incoming

def progressEvent (offer : TransferOffer) (done : Nat) : TransferEvent :=
  .progress ⟨offer.transferId, safeFilename offer.filename, done, offer.size⟩

def receivedEvent (offer : TransferOffer) (completed : CompletedTransfer) : TransferEvent :=
  .received offer.transferId completed.destination (safeFilename offer.filename) offer.size offer.blake3
    offer.sender.instanceId offer.sender.name

/-- How a file is written to and what is said of it meanwhile. -/
structure Receiving where
  path : Path
  size : Nat
  write : Nat → Bytes → Contents → Contents
  report : Nat → TransferEvent
  lost : Nat → CoreError

/-- Each read brings a byte, so that `size - received` steps are enough fuel. -/
def receiveInto (r : Receiving) : Nat → Nat → Incoming → CoreM Incoming
  | 0, _, incoming => return incoming
  | fuel + 1, received, incoming => do
    if r.size ≤ received then return incoming
    else
      match ← (incoming.read (min (r.size - received) transferBufferSize) : Except CoreError _) with
      | none =>
        fs (.sync r.path)
        throw (r.lost received)
      | some (chunk, rest) =>
        fs (.edit r.path (r.write received chunk))
        emit (r.report (received + chunk.length))
        receiveInto r fuel (received + chunk.length) rest

namespace TransferStore

variable (s : TransferStore)

def receivingFile (offer : TransferOffer) (path : Path) : Receiving where
  path := path
  size := offer.size
  write _ chunk := Contents.append chunk
  report := progressEvent offer
  lost received := .protocol s!"sender disconnected after {received} of {offer.size} bytes"

/-- `already` counts the bytes of the files before this one. -/
def receivingEntry (offer : TransferOffer) (entry : FolderEntry) (path : Path) (already : Nat) :
    Receiving where
  path := path
  size := entry.size
  write := Contents.writeAt
  report received := progressEvent offer (already + received)
  lost received :=
    .protocol s!"sender disconnected after {already + received} of {offer.size} folder bytes"

def handleFileStream (offer : TransferOffer) (peer : Peer) : CoreM Unit := do
  match ← rejecting (s.prepare offer) with
  | .complete completed => respond (.complete completed.receipt)
  | .resume prepared =>
    respond (.resume prepared.offset)
    fs (.openFile prepared.partPath {})
    emit (progressEvent offer prepared.offset)
    let rest ← receiveInto (receivingFile offer prepared.partPath) (offer.size - prepared.offset)
      prepared.offset (peer (.resume prepared.offset))
    let extra ← (rest.read 1 : Except CoreError _)
    throwIf extra.isSome (.protocol "sender wrote more bytes than declared")
    fs (.sync prepared.partPath)
    let completed ← s.finalize offer
    emit (receivedEvent offer completed)
    respond (.complete completed.receipt)

def receiveFiles (offer : TransferOffer) (prepared : PreparedFolderTransfer) :
    List FolderEntry → Nat → Nat → Incoming → CoreM Incoming
  | [], _, _, incoming => return incoming
  | entry :: entries, offset, already, incoming => do
    let path ← rejecting (openFolderFile prepared entry offset)
    let rest ← receiveInto (receivingEntry offer entry path already) (entry.size - offset) offset incoming
    fs (.sync path)
    rejecting (verifyFolderFile prepared entry)
    receiveFiles offer prepared entries 0 (already + entry.size) rest

def handleFolderStream (offer : TransferOffer) (manifest : FolderManifest) (peer : Peer) :
    CoreM Unit := do
  match ← rejecting (s.prepareFolder offer manifest) with
  | .complete completed => respond (.complete completed.receipt)
  | .resume prepared =>
    rejecting (throwIf (manifest.files.length < prepared.fileIndex)
      (.invalidTransfer "invalid folder checkpoint file index"))
    throwIf (2 ^ 32 ≤ prepared.fileIndex) (.invalidTransfer "too many folder files")
    let response := .folderResume prepared.fileIndex prepared.offset prepared.completed
    respond response
    let some received := checkedAdd prepared.completed prepared.offset
      | throw (.invalidTransfer "folder progress overflow")
    emit (progressEvent offer received)
    let rest ← receiveFiles offer prepared (manifest.files.drop prepared.fileIndex) prepared.offset
      prepared.completed (peer response)
    let extra ← (rest.read 1 : Except CoreError _)
    rejecting (throwIf extra.isSome (.protocol "sender wrote more folder bytes than declared"))
    let completed ← rejecting (s.finalizeFolder offer manifest prepared)
    emit (receivedEvent offer completed)
    respond (.complete completed.receipt)

/-- A stream after its authentication. The manifest is what is read after the offer of a
folder. -/
def handleStream (offer : TransferOffer) (manifest : Except CoreError FolderManifest) (peer : Peer) :
    CoreM Unit := do
  rejecting offer.validate
  match offer.kind with
  | .folderV1 =>
    let manifest ← rejecting manifest
    rejecting (manifest.validateOffer offer)
    s.lockTransfer offer.transferId (s.handleFolderStream offer manifest peer)
  | .file => s.lockTransfer offer.transferId (s.handleFileStream offer peer)

/-- The task of one stream: an error is shown to the user. -/
def serveStream (offer : TransferOffer) (manifest : Except CoreError FolderManifest) (peer : Peer) :
    Program Call Unit :=
  (s.handleStream offer manifest peer).run >>= fun
    | .ok () => .ret ()
    | .error e => .call (.emit (.status e)) .ret

end TransferStore

end InkHole
