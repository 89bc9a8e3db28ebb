import InkHole.Convergence
import InkHole.Dialogue
import InkHole.Outbound

/-! A sender and the server that its stream goes to: what the sender takes for delivered is delivered, and a
sender that is not cut off gets its receipt. -/

set_option linter.unusedSectionVars false

namespace InkHole

open InkHole.CoreM Fallible TransferStore

section Exchanges

variable [Externals] {L : Layout} {s : TransferStore} {offer : TransferOffer} {manifest : FolderManifest}
  {content : Option FolderEntry → Bytes} {received : Except CoreError FolderManifest} {peer : Peer}
  {made new : List Path} {w w₀ u : World} {payload : OutboundPayload} {reads : Path → List Nat}
  {display : CoreError → String} {lost : CoreError}

/-- What has been answered between two worlds of a server. -/
def answers (w w' : World) : List TransferResponse := w'.answered.drop w.answered.length

theorem answers_of_answered {w' : World} {said : List TransferResponse} (h : w'.answered = w.answered ++ said) :
    answers w w' = said := by
  rw [answers, h, List.drop_left]

/-! The task of a stream says and changes what its handler does. -/

theorem serveStream_runFor (s : TransferStore) (offer : TransferOffer) (received : Except CoreError FolderManifest)
    (peer : Peer) (n : Nat) (w : World) :
    ((s.serveStream offer received peer).runFor n w).fs = ((s.handleStream offer received peer).run.runFor n w).fs ∧
      ((s.serveStream offer received peer).runFor n w).answered =
        ((s.handleStream offer received peer).run.runFor n w).answered := by
  rw [serveStream]
  generalize (s.handleStream offer received peer).run = p
  induction n generalizing p w with
  | zero => exact ⟨rfl, rfl⟩
  | succ n ih =>
    cases p with
    | call c k => exact ih _ _
    | ret r =>
      cases r with
      | ok a => exact ⟨rfl, rfl⟩
      | error e =>
        have hemit : (Program.runFor (n + 1) (.call (.emit (.status e)) .ret : Program Call Unit) w) =
            (exec (Call.emit (.status e)) w).2 := by cases n <;> rfl
        rw [Program.ret_bind, hemit]
        refine ⟨rfl, ?_⟩
        exact List.filterMap_append.trans (List.append_nil _)

theorem serveStream_run {a : Unit} {v : World} (h : (s.handleStream offer received peer).run.run w = (.ok a, v)) :
    s.served offer received peer w = v := by
  rw [served, serveStream]
  generalize (s.handleStream offer received peer).run = p at h ⊢
  induction p generalizing w with
  | ret r =>
    obtain ⟨rfl, rfl⟩ := Prod.mk.inj h
    rfl
  | call c k ih => exact ih (exec c w).1 h

/-- Where a stream is cut off after it said that the item is complete, the item is delivered. -/
theorem Resting.told (hr : s.destinationRoot offer ∈ L.roots) (hagrees : Agrees offer manifest received)
    (h : Resting L s offer manifest (.any offer) w made) {n : Nat} {receipt : TransferReceipt}
    (htold : .complete receipt ∈ answers w ((s.serveStream offer received peer).runFor n w))
    (hnew : Appear L w ((s.serveStream offer received peer).runFor n w) new) :
    ∃ d, made ++ new = [d :: s.destinationRoot offer] ∧
      Delivered s offer manifest d ((s.serveStream offer received peer).runFor n w) := by
  have hdialogue := follows_run.mp (follows_handleStream_dialogue s offer received peer)
  have hstart : w.answered = w.answered ++ [] := (List.append_nil _).symm
  obtain ⟨hfs, hanswered⟩ := serveStream_runFor s offer received peer n w
  obtain ⟨said, hsaid⟩ := hdialogue.spokenFor hstart n
  rw [answers_of_answered (hanswered.trans hsaid)] at htold
  obtain ⟨hend, said', hlast, hmem⟩ := hdialogue.told hstart (by simp) hsaid htold
  -- the handler returns, for else it would not have said so
  cases hrun : (s.handleStream offer received peer).run.run w with
  | mk result v =>
    rw [hrun] at hend hlast
    have hsame : ((s.serveStream offer received peer).runFor n w).fs = v.fs := hfs.trans hend.symm
    cases result with
    | error e => exact absurd hmem (hlast receipt)
    | ok a =>
      cases h with
      | underway hstage =>
        have hdone := (along_run.mp (along_handleStream_underway hr measured_any (feeds_any peer) hagrees hstage)).run
        rw [hrun] at hdone
        obtain ⟨⟨d, hcome⟩, -⟩ := hdone
        have hcome' := hcome.same hr (ofDestination_heldAs hr) hsame
        exact ⟨d, hcome'.appear hr hnew, hcome'.landing.landed.there⟩
      | landed d hlanding _ =>
        have hdone := ((along_run.mp (along_handleStream_landed peer hr hagrees hlanding)).strengthen hlanding).run
        rw [hrun] at hdone
        have hlanding' := hdone.2.same hr hsame
        refine ⟨d, ?_, hlanding'.landed.there⟩
        rw [hlanding'.frames.appear_none hnew]
        rfl

/-- A sender that returns a receipt has its item delivered, whatever has become of the transfer before, and
wherever the stream is cut off. -/
theorem sent_is_delivered (hr : s.destinationRoot offer ∈ L.roots) (hs : L.Sound w₀.fs)
    (hfresh : ∀ q, L.Owned offer.transferId q → w₀.fs.get q = none)
    (h : Attempts (fun _ => True) L s offer manifest w₀ made w) (hagrees : Agrees offer manifest received) {n : Nat}
    (hnew : Appear L w ((s.serveStream offer received peer).runFor n w) new) {heard : List TransferResponse}
    (hheard : heard <+: answers w ((s.serveStream offer received peer).runFor n w)) {bytes : Bytes}
    {receipt : TransferReceipt} (hsend : eval (payload.send reads display lost offer heard) u = .ok (bytes, receipt)) :
    receipt = offer.receipt ∧ ∃ d, made ++ new = [d :: s.destinationRoot offer] ∧
      Delivered s offer manifest d ((s.serveStream offer received peer).runFor n w) := by
  obtain ⟨hmem, hreceipt⟩ := eval_uses payload.uses_send hsend
  have hresting := h.resting hr measured_any (fun peer _ => feeds_any peer) (resting_fresh hr hs hfresh)
  exact ⟨hreceipt, hresting.told hr hagrees (hheard.subset hmem) hnew⟩

/-! A sender that is not cut off. -/

/-- What is sent of an item that is there as it was offered is the item. -/
theorem OutboundPayload.Holds.thorough (h : payload.Holds offer manifest content u) (hfit : Fitting offer manifest content)
    (hsum : offer.kind = .folderV1 → (manifest.files.map FolderEntry.size).sum ≤ u64Max) (hpeer : payload.Sends reads offer u peer) :
    Thorough offer manifest content peer := by
  cases h with
  | file source c hk hread hcontent =>
    refine ⟨fun _ offset hle => ?_, fun hf => (by cases hk.symm.trans hf)⟩
    have hsize : c.toBytes.length = offer.size := by rw [hcontent, hfit.file hk]
    exact hcontent ▸ hpeer.file source rfl offset hle _ (eval_emitFile hread hsize)
  | folder source hk hmanifest hfiles hoffers =>
    exact ⟨fun hf => (by cases hk.symm.trans hf), fun _ prepared hplaced => hpeer.folder source rfl _ _ _ _
      (FolderSource.eval_emit hmanifest hfiles hoffers (hsum hk) hplaced)⟩

theorem accepted_sum (haccepts : Accepts offer received) (hagrees : Agrees offer manifest received)
    (hk : offer.kind = .folderV1) : (manifest.files.map FolderEntry.size).sum ≤ u64Max := by
  obtain ⟨size, hvalid⟩ := FolderManifest.validate_of_offer (accepted_manifest haccepts hagrees hk)
  have hsum := sum_files_le (FolderManifest.validate_ok hvalid).1
  rwa [Nat.zero_add] at hsum

/-- Such a sender takes its receipt from whatever a stream in full is answered. -/
theorem OutboundPayload.Holds.confirmed (h : payload.Holds offer manifest content u) (hfit : Fitting offer manifest content)
    (haccepts : Accepts offer received) (hagrees : Agrees offer manifest received) {before : List TransferResponse}
    (hasked : Asked offer received before) :
    ∃ bytes, eval (payload.send reads display lost offer (before ++ [.complete offer.receipt])) u =
      .ok (bytes, offer.receipt) := by
  rcases hasked with rfl | ⟨r, hr, rfl⟩
  · exact ⟨[], h.send_complete⟩
  · cases r with
    | resume offset =>
      obtain ⟨hk, hle⟩ := hr
      exact h.send_file hk (hfit.file hk) hle
    | folderResume fileIndex offset completed =>
      obtain ⟨hk, m, hm, hposition⟩ := hr
      obtain ⟨m', hm', hvm⟩ := haccepts.2 hk
      obtain rfl := Except.ok.inj (hm.symm.trans hm')
      obtain rfl := hagrees m hm hvm
      exact h.send_folder hk (accepted_sum haccepts hagrees hk) hposition
    | complete | rejected => exact hr.elim

end Exchanges

attribute [local instance] Sample.externals

namespace Sample

/-- The letter where it is sent from. -/
def letter : OutboundPayload := .file ["x"]

theorem read_letter : drawer.fs.readFile ["x"] = .ok (.bytes [65]) := by decide +kernel

theorem holds_letter : letter.Holds first ⟨1, []⟩ script drawer := .file ["x"] (.bytes [65]) rfl read_letter rfl

theorem sends_letter : letter.Sends (fun _ => []) first drawer (sender ⟨1, []⟩ script 9) := by
  refine ⟨fun source hs offset _ bytes hbytes => ?_, fun source hs => by cases hs⟩
  obtain rfl := OutboundPayload.file.inj hs
  have hemit : eval (emitFile [] first ["x"] offset) drawer = .ok (([65] : Bytes).drop offset) :=
    eval_emitFile read_letter rfl
  obtain rfl := Except.ok.inj (hemit.symm.trans hbytes)
  refine ⟨List.take_of_length_le ?_, rfl⟩
  rw [List.length_drop]
  exact (Nat.sub_le _ _).trans (by decide)

end Sample

open Sample in
/-- The sender of the letter hears that it is complete. -/
theorem sent_is_delivered_first : ∃ d, Delivered (store 0) first ⟨1, []⟩ d
    (((store 0).serveStream first (.error .json) (sender ⟨1, []⟩ script 9)).runFor 60 world) := by
  obtain ⟨new, hnew⟩ := exists_appear layout world
    (((store 0).serveStream first (.error .json) (sender ⟨1, []⟩ script 9)).runFor 60 world)
  have hheard : [.resume 0, .complete first.receipt] <+: answers world
      (((store 0).serveStream first (.error .json) (sender ⟨1, []⟩ script 9)).runFor 60 world) := by decide +kernel
  have hsend : eval (letter.send (fun _ => []) (fun _ => "") .json first [.resume 0, .complete first.receipt]) drawer =
      .ok ([65], first.receipt) := by decide +kernel
  obtain ⟨-, d, -, hd⟩ := sent_is_delivered inbox_root sound (nothing_owned _) .start (agrees_file ⟨1, []⟩) hnew hheard hsend
  exact ⟨d, hd⟩

end InkHole
