import InkHole.Agreement
import InkHole.Resumption

/-! The sender of a file or a folder, from its request on: what it makes of the answers of the receiver, and
what it sends between them. -/

set_option linter.unusedSectionVars false

namespace InkHole

open InkHole.CoreM Fallible TransferStore

section Outbound

variable [Externals]

inductive OutboundPayload where
  | file (source : Path)
  | folder (source : FolderSource)

/-- The answers that are heard are read one after the other. The stream is lost after the last one. -/
def nextAnswer (lost : CoreError) : List TransferResponse → Except CoreError (TransferResponse × List TransferResponse)
  | [] => .error lost
  | response :: answers => .ok (response, answers)

/-- The file is read from where the receiver has it up to. -/
def emitFile (reads : List Nat) (offer : TransferOffer) (source : Path) (offset : Nat) : CoreM Bytes := do
  let contents ← fs (.read source)
  let file : Incoming := ⟨contents.toBytes.drop offset, reads, .finished⟩
  let (bytes, rest) ← (sendInto offer.size (.invalidTransfer "source file changed while it was being sent")
    (offer.size - offset) offset file : Except CoreError _)
  let extra ← (rest.read 1 : Except CoreError _)
  throwIf extra.isSome (.invalidTransfer "source file grew while sending")
  return bytes

/-- The last answer to a file. -/
def confirmFile (display : CoreError → String) (offer : TransferOffer) : TransferResponse → Except CoreError TransferReceipt
  | .complete receipt => do
    validateReceipt offer receipt
    return receipt
  | .rejected reason => .error (.protocol s!"receiver rejected transfer: {display reason}")
  | .resume _ => .error (.protocol "receiver returned a duplicate resume response")
  | .folderResume .. => .error (.protocol "receiver returned a folder resume response for a file")

/-- What is written to the stream, and the receipt. -/
def sendFileStream (reads : List Nat) (display : CoreError → String) (lost : CoreError) (offer : TransferOffer)
    (source : Path) (answers : List TransferResponse) : CoreM (Bytes × TransferReceipt) := do
  let (response, answers) ← nextAnswer lost answers
  match response with
  | .resume offset =>
    throwIf (offer.size < offset) (.protocol "receiver returned an invalid resume offset")
    let bytes ← emitFile reads offer source offset
    let (confirmation, _) ← nextAnswer lost answers
    let receipt ← confirmFile display offer confirmation
    return (bytes, receipt)
  | .complete receipt =>
    validateReceipt offer receipt
    return ([], receipt)
  | .rejected reason => throw (.protocol s!"receiver rejected transfer: {display reason}")
  | .folderResume .. => throw (.protocol "receiver returned a folder resume response for a file")

/-- `sendFolderStream` on the answers that are heard. -/
def FolderSource.sendHeard (source : FolderSource) (reads : Path → List Nat) (display : CoreError → String)
    (lost : CoreError) (offer : TransferOffer) (answers : List TransferResponse) : CoreM (Bytes × TransferReceipt) := do
  let (response, answers) ← nextAnswer lost answers
  throwIf (source.manifest.files.length ≠ source.files.length)
    (.invalidTransfer "folder source no longer matches its manifest")
  match response with
  | .folderResume fileIndex offset completed =>
    let bytes ← source.emit reads fileIndex offset completed
    let (confirmation, _) ← nextAnswer lost answers
    let receipt ← FolderSource.confirm display offer confirmation
    return (bytes, receipt)
  | .complete receipt =>
    validateReceipt offer receipt
    return ([], receipt)
  | .rejected reason => throw (.protocol s!"receiver rejected transfer: {display reason}")
  | .resume _ => throw (.protocol "receiver returned a file resume response for a folder")

/-- `send_file` from its first answer on. -/
def OutboundPayload.send (payload : OutboundPayload) (reads : Path → List Nat) (display : CoreError → String)
    (lost : CoreError) (offer : TransferOffer) (answers : List TransferResponse) : CoreM (Bytes × TransferReceipt) :=
  match payload with
  | .file source => sendFileStream (reads source) display lost offer source answers
  | .folder source => source.sendHeard reads display lost offer answers

/-- Where both answers are heard, the folder is sent as it is sent with them. -/
theorem FolderSource.sendHeard_eq (source : FolderSource) (reads : Path → List Nat) (display : CoreError → String)
    (lost : CoreError) (offer : TransferOffer) (response confirmation : TransferResponse) (answers : List TransferResponse) :
    source.sendHeard reads display lost offer (response :: confirmation :: answers) =
      source.sendFolderStream reads display offer response fun _ => confirmation := by
  cases response <;> rfl

/-! A receipt was heard. -/

variable {reads : Path → List Nat} {display : CoreError → String} {lost : CoreError} {offer : TransferOffer}
  {answers : List TransferResponse}

theorem validateReceipt_ok {receipt : TransferReceipt} (h : validateReceipt offer receipt = .ok ()) :
    receipt = offer.receipt := by
  rw [validateReceipt] at h
  split at h
  · cases h
  · next hsame =>
    simp only [not_or, not_not] at hsame
    cases receipt
    obtain ⟨rfl, rfl, rfl⟩ := hsame
    rfl

theorem validateReceipt_receipt (offer : TransferOffer) : validateReceipt offer offer.receipt = .ok () := by
  rw [validateReceipt, if_neg]
  simp [TransferOffer.receipt]

theorem nextAnswer_ok {heard : TransferResponse × List TransferResponse} (h : nextAnswer lost answers = .ok heard) :
    answers = heard.1 :: heard.2 := by
  cases answers with
  | nil => cases h
  | cons response rest => exact Except.ok.inj h ▸ rfl

theorem confirmFile_ok {response : TransferResponse} {receipt : TransferReceipt}
    (h : confirmFile display offer response = .ok receipt) : response = .complete receipt ∧ receipt = offer.receipt := by
  cases response with
  | complete receipt' =>
    obtain ⟨_, hvalid, hreceipt⟩ := bind_eq_ok.mp h
    obtain rfl := Except.ok.inj hreceipt
    exact ⟨rfl, validateReceipt_ok hvalid⟩
  | _ => cases h

theorem FolderSource.confirm_ok {response : TransferResponse} {receipt : TransferReceipt}
    (h : FolderSource.confirm display offer response = .ok receipt) :
    response = .complete receipt ∧ receipt = offer.receipt := by
  cases response with
  | complete receipt' =>
    obtain ⟨_, hvalid, hreceipt⟩ := bind_eq_ok.mp h
    obtain rfl := Except.ok.inj hreceipt
    exact ⟨rfl, validateReceipt_ok hvalid⟩
  | _ => cases h

/-- A sender that returns a receipt has heard it, and it is the one of its offer. -/
def Confirmed (offer : TransferOffer) (answers : List TransferResponse) (sent : Bytes × TransferReceipt) : Prop :=
  .complete sent.2 ∈ answers ∧ sent.2 = offer.receipt

theorem uses_sendFileStream (reads : List Nat) (source : Path) :
    Uses (fun _ => True) (Confirmed offer answers) (sendFileStream reads display lost offer source answers) := by
  rw [sendFileStream]
  refine uses_bind (uses_lift fun heard h => nextAnswer_ok h) ?_
  rintro ⟨response, rest⟩ hheard
  cases response with
  | resume offset =>
    refine uses_bind (uses_any _) fun _ _ => ?_
    refine uses_bind (uses_any _) fun bytes _ => ?_
    refine uses_bind (uses_lift fun heard h => nextAnswer_ok h) ?_
    rintro ⟨confirmation, rest'⟩ hrest
    refine uses_bind (uses_lift fun _ h => confirmFile_ok h) ?_
    rintro receipt ⟨rfl, hreceipt⟩
    refine uses_pure ⟨?_, hreceipt⟩
    rw [hheard]
    exact List.mem_cons_of_mem _ (hrest ▸ List.mem_cons_self)
  | complete receipt =>
    refine uses_bind (uses_lift fun _ h => validateReceipt_ok h) fun _ hreceipt => uses_pure ⟨?_, hreceipt⟩
    rw [hheard]
    exact List.mem_cons_self
  | rejected | folderResume => exact uses_throw _

theorem FolderSource.uses_sendHeard (source : FolderSource) :
    Uses (fun _ => True) (Confirmed offer answers) (source.sendHeard reads display lost offer answers) := by
  rw [sendHeard]
  refine uses_bind (uses_lift fun heard h => nextAnswer_ok h) ?_
  rintro ⟨response, rest⟩ hheard
  refine uses_bind (uses_any _) fun _ _ => ?_
  cases response with
  | folderResume fileIndex offset completed =>
    refine uses_bind (uses_any _) fun bytes _ => ?_
    refine uses_bind (uses_lift fun heard h => nextAnswer_ok h) ?_
    rintro ⟨confirmation, rest'⟩ hrest
    refine uses_bind (uses_lift fun _ h => confirm_ok h) ?_
    rintro receipt ⟨rfl, hreceipt⟩
    refine uses_pure ⟨?_, hreceipt⟩
    rw [hheard]
    exact List.mem_cons_of_mem _ (hrest ▸ List.mem_cons_self)
  | complete receipt =>
    refine uses_bind (uses_lift fun _ h => validateReceipt_ok h) fun _ hreceipt => uses_pure ⟨?_, hreceipt⟩
    rw [hheard]
    exact List.mem_cons_self
  | rejected | resume => exact uses_throw _

theorem OutboundPayload.uses_send (payload : OutboundPayload) :
    Uses (fun _ => True) (Confirmed offer answers) (payload.send reads display lost offer answers) := by
  cases payload with
  | file source => exact uses_sendFileStream _ source
  | folder source => exact source.uses_sendHeard

/-! A sender whose item is where it was offered from. -/

variable {manifest : FolderManifest} {content : Option FolderEntry → Bytes} {u : World} {peer : Peer} {offset : Nat}

/-- The peer sends what the payload gives, wherever it gives what is asked for. -/
structure OutboundPayload.Sends (payload : OutboundPayload) (reads : Path → List Nat) (offer : TransferOffer) (u : World)
    (peer : Peer) : Prop where
  file : ∀ source, payload = .file source → ∀ offset ≤ offer.size, ∀ bytes,
    eval (emitFile (reads source) offer source offset) u = .ok bytes →
      (peer (.resume offset)).bytes = bytes ∧ (peer (.resume offset)).ending = .finished
  folder : ∀ source, payload = .folder source → ∀ fileIndex offset completed bytes,
    eval (source.emit reads fileIndex offset completed) u = .ok bytes →
      (peer (.folderResume fileIndex offset completed)).bytes = bytes ∧
        (peer (.folderResume fileIndex offset completed)).ending = .finished

/-- The sources are there as they were offered. -/
inductive OutboundPayload.Holds (offer : TransferOffer) (manifest : FolderManifest) (content : Option FolderEntry → Bytes)
    (u : World) : OutboundPayload → Prop where
  | file (source : Path) (c : Contents) (hk : offer.kind = .file) (hread : u.fs.readFile source = .ok c)
      (hcontent : c.toBytes = content none) : OutboundPayload.Holds offer manifest content u (.file source)
  | folder (source : FolderSource) (hk : offer.kind = .folderV1) (hmanifest : source.manifest = manifest)
      (hfiles : source.files.length = manifest.files.length)
      (hoffers : ∀ pair ∈ manifest.files.zip source.files, ∃ c, Offers u pair.1 pair.2 c ∧
        c.toBytes = content (some pair.1)) : OutboundPayload.Holds offer manifest content u (.folder source)

theorem eval_emitFile {c : Contents} {source : Path} {reads : List Nat} (hread : u.fs.readFile source = .ok c)
    (hsize : c.toBytes.length = offer.size) :
    eval (emitFile reads offer source offset) u = .ok (c.toBytes.drop offset) := by
  have hexec : ((FsOp.read source : FsOp Contents Contents).exec u.fs).1 = .ok c := hread
  have hlength : (c.toBytes.drop offset).length = offer.size - offset := by rw [List.length_drop, hsize]
  obtain ⟨rest, hsent⟩ := sendInto_eq (.invalidTransfer "source file changed while it was being sent")
    ⟨c.toBytes.drop offset, reads, .finished⟩ (show offer.size ≤ offset + (offer.size - offset) by omega) rfl
  rw [emitFile, eval_fs_bind (.read source) trivial, hexec]
  change eval (liftM (sendInto _ _ _ _ _) >>= _) u = _
  rw [eval_lift_bind, hsent, if_neg (by simp [hlength]), List.take_of_length_le hlength.le,
    List.drop_eq_nil_of_le hlength.le]
  rfl

/-- The rest of the files, as they are sent one after the other. -/
theorem exists_remaining {pairs : List (FolderEntry × Path)}
    (hoffers : ∀ pair ∈ pairs, ∃ c, Offers u pair.1 pair.2 c ∧ c.toBytes = content (some pair.1))
    (hle : offset ≤ (pairs.map fun pair => pair.1.size).headD 0) :
    ∃ contents, List.Forall₂ (fun pair c => Offers u pair.1 pair.2 c) pairs contents ∧
      remaining offset contents = (joined content (pairs.map Prod.fst)).drop offset := by
  induction pairs generalizing offset with
  | nil => exact ⟨[], .nil, by simp [remaining, joined]⟩
  | cons pair pairs ih =>
    obtain ⟨c, hc, hcontent⟩ := hoffers pair List.mem_cons_self
    obtain ⟨contents, hall, hrest⟩ := ih (fun p hp => hoffers p (List.mem_cons_of_mem _ hp)) (Nat.zero_le _)
    have hoffset : offset ≤ c.toBytes.length := hc.length ▸ hle
    refine ⟨c :: contents, .cons hc hall, ?_⟩
    have hjoined : joined content (pair.1 :: pairs.map Prod.fst) = content (some pair.1) ++ joined content (pairs.map Prod.fst) :=
      List.flatMap_cons
    rw [remaining, hrest, List.drop_zero, List.map_cons, hjoined, ← hcontent, List.drop_append_of_le_length hoffset]

theorem FolderSource.eval_emit {source : FolderSource} (hmanifest : source.manifest = manifest)
    (hfiles : source.files.length = manifest.files.length)
    (hoffers : ∀ pair ∈ manifest.files.zip source.files, ∃ c, Offers u pair.1 pair.2 c ∧
      c.toBytes = content (some pair.1)) (hsum : (manifest.files.map FolderEntry.size).sum ≤ u64Max)
    {prepared : PreparedFolderTransfer} (h : prepared.Placed manifest) :
    eval (source.emit reads prepared.fileIndex prepared.offset prepared.completed) u =
      .ok ((joined content (prepared.rest manifest)).drop prepared.offset) := by
  have hfst : ((manifest.files.zip source.files).drop prepared.fileIndex).map Prod.fst = prepared.rest manifest := by
    rw [List.map_drop, List.map_fst_zip hfiles.ge]
    rfl
  have hwithin : prepared.offset ≤ (((manifest.files.zip source.files).drop prepared.fileIndex).map
      fun pair => pair.1.size).headD 0 := by
    have hsizes := congrArg (List.map FolderEntry.size) hfst
    rw [List.map_map] at hsizes
    exact (congrArg (List.headD · 0) hsizes).symm ▸ h.within
  obtain ⟨contents, hall, hremaining⟩ := exists_remaining
    (fun pair hp => hoffers pair (List.mem_of_mem_drop hp)) hwithin
  rw [hfst] at hremaining
  rw [FolderSource.emit, hmanifest]
  change eval (liftM (checkFolderResume _ _ _ _) >>= _) u = _
  rw [eval_lift_bind, h.accepted hsum, ← hremaining]
  exact (eval_sendEntries hwithin).mpr ⟨contents, hall, rfl⟩

theorem reads_emitFile (reads : List Nat) (source : Path) : Uses Call.Reads (fun _ => True) (emitFile reads offer source offset) := by
  rw [emitFile]
  refine uses_bind (reads_fs trivial) fun contents _ => ?_
  refine uses_bind (uses_lift fun _ _ => trivial) fun sent _ => ?_
  refine uses_bind (uses_lift fun _ _ => trivial) fun extra _ => ?_
  exact uses_bind (uses_throwIf _ _) fun _ _ => uses_pure trivial

theorem FolderSource.reads_emit (source : FolderSource) (fileIndex offset completed : Nat) :
    Uses Call.Reads (fun _ => True) (source.emit reads fileIndex offset completed) :=
  uses_bind (uses_lift fun _ _ => trivial) fun _ _ => reads_sendEntries _ _ _

/-- A receiver that has the item already sends its receipt at once. -/
theorem OutboundPayload.Holds.send_complete {payload : OutboundPayload} (h : payload.Holds offer manifest content u) :
    eval (payload.send reads display lost offer [.complete offer.receipt]) u = .ok ([], offer.receipt) := by
  have hreceipt := validateReceipt_receipt offer
  cases h with
  | file source c hk hread hcontent =>
    change eval (liftM (validateReceipt offer offer.receipt) >>= _) u = _
    rw [eval_lift_bind, hreceipt]
    rfl
  | folder source hk hmanifest hfiles hoffers =>
    change eval (throwIf _ _ >>= _) u = _
    rw [eval_throwIf_bind, if_neg (by rw [hmanifest, hfiles]; simp)]
    change eval (liftM (validateReceipt offer offer.receipt) >>= _) u = _
    rw [eval_lift_bind, hreceipt]
    rfl

/-- A receiver that asks for the rest of the item gets it, and the sender its receipt. -/
theorem OutboundPayload.Holds.send_file {payload : OutboundPayload} (h : payload.Holds offer manifest content u)
    (hk : offer.kind = .file) (hsize : (content none).length = offer.size) (hle : offset ≤ offer.size) :
    ∃ bytes, eval (payload.send reads display lost offer [.resume offset, .complete offer.receipt]) u =
      .ok (bytes, offer.receipt) := by
  cases h with
  | folder source hf => cases hk.symm.trans hf
  | file source c _ hread hcontent =>
    refine ⟨c.toBytes.drop offset, ?_⟩
    change eval (throwIf _ _ >>= _) u = _
    rw [eval_throwIf_bind, if_neg (Nat.not_lt.mpr hle), eval_bind (reads_emitFile _ _),
      eval_emitFile hread (by rw [hcontent, hsize])]
    change eval (liftM (confirmFile display offer (.complete offer.receipt)) >>= _) u = _
    rw [eval_lift_bind, confirmFile, validateReceipt_receipt offer]
    rfl

theorem OutboundPayload.Holds.send_folder {payload : OutboundPayload} (h : payload.Holds offer manifest content u)
    (hk : offer.kind = .folderV1) (hsum : (manifest.files.map FolderEntry.size).sum ≤ u64Max)
    {fileIndex completed : Nat} (hposition : Position manifest.files fileIndex offset completed) :
    ∃ bytes, eval (payload.send reads display lost offer
      [.folderResume fileIndex offset completed, .complete offer.receipt]) u = .ok (bytes, offer.receipt) := by
  cases h with
  | file source c hf => cases hf.symm.trans hk
  | folder source _ hmanifest hfiles hoffers =>
    refine ⟨(joined content (manifest.files.drop fileIndex)).drop offset, ?_⟩
    have hplaced : PreparedFolderTransfer.Placed ⟨[], fileIndex, offset, completed⟩ manifest := hposition
    have hemit : eval (source.emit reads fileIndex offset completed) u =
        .ok ((joined content (manifest.files.drop fileIndex)).drop offset) :=
      FolderSource.eval_emit hmanifest hfiles hoffers hsum hplaced
    change eval (throwIf _ _ >>= _) u = _
    rw [eval_throwIf_bind, if_neg (by rw [hmanifest, hfiles]; simp)]
    change eval (source.emit reads fileIndex offset completed >>= _) u = _
    rw [eval_bind (source.reads_emit _ _ _), hemit]
    change eval (liftM (FolderSource.confirm display offer (.complete offer.receipt)) >>= _) u = _
    rw [eval_lift_bind, FolderSource.confirm, validateReceipt_receipt offer]
    rfl

end Outbound

end InkHole
