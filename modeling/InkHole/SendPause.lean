import InkHole.HomePage
import Mathlib.Data.List.Nodup

/-! What a pause holds back, a resume sends again: no file of the batch is lost, and none that has
arrived is sent twice. -/

namespace InkHole

namespace HomePage

variable {peer : String} {s : HomePage} {hand : List Nat}

/-- The files of a pause are those that have not arrived, each once. -/
def Covers (peer : String) (s : HomePage) (jobs : List TrackedSend) : Prop :=
  (∀ job ∈ jobs, job.peer = peer) ∧ (jobs.map fun job => job.file.index).Nodup ∧
    ∀ i, i ∈ (jobs.map fun job => job.file.index) ↔ i ∈ s.incomplete

/-- The sends of the page while the files with the indices `hand` are still to be registered. -/
structure Settled (peer : String) (s : HomePage) (hand : List Nat) : Prop where
  twice : s.twice = []
  nodup : hand.Nodup
  left : ∀ i ∈ hand, i ∈ s.incomplete
  owed : ∀ i ∈ s.owed, i ∈ hand
  registered : ∀ job ∈ s.lanJobs, job.file.index ∈ s.incomplete ∧ job.file.index ∉ hand ∧
    s.newest job.file.index = job.object
  peers : ∀ job ∈ s.trackedSends, job.peer = peer
  objects : (s.trackedSends.map TrackedSend.object).Nodup
  fresh : ∀ job ∈ s.trackedSends, job.object < s.objects
  ids : ∀ job ∈ s.trackedSends, ∀ id ∈ job.sendId, id < s.nextSend
  sending : ∀ send ∈ s.sending, send.sendId < s.nextSend
  known : ∀ send ∈ s.sending, send.sendId ∈ s.sendIds → ∃ job ∈ s.trackedSends,
    job.sendId = some send.sendId ∧ job.file = send.file ∧ job.object = send.tracked
  pausing : ∀ p ∈ s.pausings, hand = [] ∧ Covers peer s p.lanJobs ∧ ∀ job ∈ s.lanJobs, job ∈ p.lanJobs
  paused : s.isTransferPaused = true → hand = [] ∧ Covers peer s s.pausedSends ∧ s.lanJobs = []

/-- The page while its one loop waits for a call. -/
structure Sends (peer : String) (s : HomePage) (b : Batch) : Prop where
  batches : s.batches = [b]
  later : b.later = []
  epoch : b.epoch = s.transferEpoch
  dest : b.peer = peer
  issued : b.file.index ∉ s.owed
  newest : s.newest b.file.index = b.tracked
  tracked : ∃ job ∈ s.trackedSends, job.object = b.tracked ∧ job.file = b.file ∧ job.sendId = none
  settled : Settled peer s (b.file.index :: b.rest.map File.index)

def Steady (peer : String) (s : HomePage) : Prop :=
  (s.batches = [] ∧ Settled peer s []) ∨ ∃ b, Sends peer s b

theorem mem_lanJobs {job : TrackedSend} : job ∈ s.lanJobs ↔
    job ∈ s.trackedSends ∧ ∃ id ∈ s.sendIds, job.sendId = some id := by
  cases hid : job.sendId <;> simp [lanJobs, hid]

theorem mem_incomplete {i : Nat} : i ∈ s.incomplete ↔
    i ∈ s.files.map File.index ∧ i ∉ s.completed := by
  simp only [incomplete, List.mem_filter, decide_eq_true_eq]

/-- What the page and the core hold of the files that are sent. -/
structure SendSide where
  sendIds : List Nat
  trackedSends : List TrackedSend
  pausedSends : List TrackedSend
  isTransferPaused : Bool
  pausings : List Pausing
  objects : Nat
  sending : List Sending
  nextSend : Nat
  files : List File
  completed : List Nat
  owed : List Nat
  twice : List Nat
  newest : Nat → Nat

def sendSide (s : HomePage) : SendSide where
  sendIds := s.sendIds
  trackedSends := s.trackedSends
  pausedSends := s.pausedSends
  isTransferPaused := s.isTransferPaused
  pausings := s.pausings
  objects := s.objects
  sending := s.sending
  nextSend := s.nextSend
  files := s.files
  completed := s.completed
  owed := s.owed
  twice := s.twice
  newest := s.newest

theorem Settled.congr {s' : HomePage} (h : Settled peer s hand) (hs : s'.sendSide = s.sendSide) :
    Settled peer s' hand := by
  cases s
  cases s'
  simp only [sendSide, SendSide.mk.injEq] at hs
  obtain ⟨rfl, rfl, rfl, rfl, rfl, rfl, rfl, rfl, rfl, rfl, rfl, rfl, rfl⟩ := hs
  exact ⟨h.twice, h.nodup, h.left, h.owed, h.registered, h.peers, h.objects, h.fresh, h.ids,
    h.sending, h.known, h.pausing, h.paused⟩

theorem addPath_single (file : File) (files : List File) :
    addPath peer file [(peer, files)] = [(peer, files ++ [file])] := by
  simp [addPath]

/-- Jobs for one peer are one group. -/
theorem pathsByPeer_single {jobs : List TrackedSend} (h : ∀ job ∈ jobs, job.peer = peer)
    (hne : jobs ≠ []) : pathsByPeer jobs = [(peer, jobs.map TrackedSend.file)] := by
  have hfold (files : List File) {jobs : List TrackedSend} (h : ∀ job ∈ jobs, job.peer = peer) :
      jobs.foldl (fun groups job => addPath job.peer job.file groups) [(peer, files)] =
        [(peer, files ++ jobs.map TrackedSend.file)] := by
    induction jobs generalizing files with
    | nil => simp
    | cons job jobs ih =>
      rw [List.foldl_cons, h job List.mem_cons_self, addPath_single,
        ih (files ++ [job.file]) fun job' hj => h job' (List.mem_cons_of_mem _ hj)]
      simp
  cases jobs with
  | nil => exact absurd rfl hne
  | cons job jobs =>
    rw [pathsByPeer, List.foldl_cons, h job List.mem_cons_self]
    exact hfold [job.file] fun job' hj => h job' (List.mem_cons_of_mem _ hj)

theorem name_cases (object sendId : Nat) (job : TrackedSend) :
    (job.object ≠ object ∧ TrackedSend.name object sendId job = job) ∨
      (job.object = object ∧
        TrackedSend.name object sendId job = { job with sendId := some sendId }) := by
  unfold TrackedSend.name
  split
  · next h => exact .inr ⟨h, rfl⟩
  · next h => exact .inl ⟨h, rfl⟩

theorem name_object (object sendId : Nat) (job : TrackedSend) :
    (TrackedSend.name object sendId job).object = job.object := by
  unfold TrackedSend.name
  split <;> rfl

theorem name_peer (object sendId : Nat) (job : TrackedSend) :
    (TrackedSend.name object sendId job).peer = job.peer := by
  unfold TrackedSend.name
  split <;> rfl

namespace Settled

/-- Two jobs of one file are one job: the newest send of the file. -/
theorem unique (h : Settled peer s hand) {job job' : TrackedSend} (hj : job ∈ s.lanJobs)
    (hj' : job' ∈ s.lanJobs) (hi : job.file.index = job'.file.index) : job = job' := by
  have ho : job.object = job'.object := by
    rw [← (h.registered job hj).2.2, ← (h.registered job' hj').2.2, hi]
  exact List.inj_on_of_nodup_map h.objects (mem_lanJobs.mp hj).1 (mem_lanJobs.mp hj').1 ho

theorem nodup_lanJobs (h : Settled peer s hand) :
    (s.lanJobs.map fun job => job.file.index).Nodup := by
  apply List.Nodup.map_on
  · exact fun job hj job' hj' hi => h.unique hj hj' hi
  · exact (h.objects.of_map _).filter _

/-- Sends that end, and jobs that are forgotten with them, change nothing else. -/
theorem shrink (h : Settled peer s hand) {tracked : List TrackedSend} {ids : List Nat}
    {sending : List Sending} (ht : tracked.Sublist s.trackedSends)
    (hi : ∀ id ∈ ids, id ∈ s.sendIds) (hg : ∀ send ∈ sending, send ∈ s.sending)
    (hk : ∀ send ∈ sending, send.sendId ∈ ids → ∀ job ∈ s.trackedSends,
      job.sendId = some send.sendId → job ∈ tracked) :
    Settled peer { s with trackedSends := tracked, sendIds := ids, sending := sending } hand := by
  have hsub (job : TrackedSend)
      (hj : job ∈ { s with trackedSends := tracked, sendIds := ids, sending := sending }.lanJobs) :
      job ∈ s.lanJobs := by
    obtain ⟨hjt, id, hid, hjid⟩ := mem_lanJobs.mp hj
    exact mem_lanJobs.mpr ⟨ht.subset hjt, id, hi id hid, hjid⟩
  constructor
  · exact h.twice
  · exact h.nodup
  · exact h.left
  · exact h.owed
  · exact fun job hj => h.registered job (hsub job hj)
  · exact fun job hj => h.peers job (ht.subset hj)
  · exact h.objects.sublist (ht.map _)
  · exact fun job hj => h.fresh job (ht.subset hj)
  · exact fun job hj => h.ids job (ht.subset hj)
  · exact fun send hs => h.sending send (hg send hs)
  · intro send hs hid
    obtain ⟨job, hj, hjid, hrest⟩ := h.known send (hg send hs) (hi _ hid)
    exact ⟨job, hk send hs hid job hj hjid, hjid, hrest⟩
  · intro p hp
    obtain ⟨hnil, hc, hl⟩ := h.pausing p hp
    exact ⟨hnil, hc, fun job hj => hl job (hsub job hj)⟩
  · intro hp
    obtain ⟨hnil, hc, hl⟩ := h.paused hp
    refine ⟨hnil, hc, ?_⟩
    by_contra hne
    obtain ⟨job, hj⟩ := List.exists_mem_of_ne_nil _ hne
    have := hsub job hj
    simp [hl] at this

/-- The lists of the page after a send has ended. -/
theorem forget (h : Settled peer s hand) (send : Sending) : Settled peer { s with
    trackedSends := s.trackedSends.filter (·.sendId ≠ some send.sendId)
    sendIds := s.sendIds.filter (· ≠ send.sendId)
    sending := s.sending.erase send } hand := by
  apply h.shrink
  · exact List.filter_sublist
  · exact fun id hid => (List.mem_filter.mp hid).1
  · exact fun _ => List.mem_of_mem_erase
  · intro send' _ hid job hj hjid
    have hne : send'.sendId ≠ send.sendId := by simpa using (List.mem_filter.mp hid).2
    exact List.mem_filter.mpr ⟨hj, by simpa [hjid] using hne⟩

/-- A send that the page knows, and that no pause cancels, has arrived. -/
theorem arrive (h : Settled peer s hand) {send : Sending} (hs : send ∈ s.sending)
    (hid : send.sendId ∈ s.sendIds)
    (hp : ∀ p ∈ s.pausings, ∀ job ∈ p.lanJobs, job.sendId ≠ some send.sendId) :
    Settled peer (s.onSent send true) hand := by
  obtain ⟨job, hj, hjid, hfile, hobject⟩ := h.known send hs hid
  have hjob : job ∈ s.lanJobs := mem_lanJobs.mpr ⟨hj, send.sendId, hid, hjid⟩
  have hnone : s.pausings = [] := by
    by_contra hne
    obtain ⟨p, hmem⟩ := List.exists_mem_of_ne_nil _ hne
    have hjp := (h.pausing p hmem).2.2 job hjob
    exact hp p hmem job hjp hjid
  have hactive : s.isTransferPaused = false := by
    by_contra hne
    have := (h.paused (by simpa using hne)).2.2
    simp [this] at hjob
  obtain ⟨hinc, hhand, hnewest⟩ := h.registered job hjob
  rw [hfile] at hinc hhand hnewest
  have h' := h.forget send
  have hinc' (i : Nat) : i ∈ (s.onSent send true).incomplete ↔
      i ∈ s.incomplete ∧ i ≠ send.file.index := by
    simp only [mem_incomplete, onSent, if_true, List.mem_cons, not_or]
    tauto
  have htwice : (s.onSent send true).twice = [] := by
    simp [onSent, hnewest, hobject, h.twice]
  constructor
  · exact htwice
  · exact h.nodup
  · intro i hi
    exact (hinc' i).mpr ⟨h.left i hi, fun he => hhand (he ▸ hi)⟩
  · exact h.owed
  · intro job' hj'
    obtain ⟨hi, hh, hn⟩ := h'.registered job' hj'
    refine ⟨(hinc' _).mpr ⟨hi, fun he => ?_⟩, hh, hn⟩
    -- a second job of the file would be the job that has just been forgotten
    obtain ⟨ht, id, hid', hjid'⟩ := mem_lanJobs.mp hj'
    obtain ⟨ht, hne⟩ := List.mem_filter.mp ht
    have hjob' : job' ∈ s.lanJobs :=
      mem_lanJobs.mpr ⟨ht, id, (List.mem_filter.mp hid').1, hjid'⟩
    have heq := h.unique hjob' hjob (he.trans (congrArg File.index hfile.symm))
    simp [heq, hjid] at hne
  · exact h'.peers
  · exact h'.objects
  · exact h'.fresh
  · exact h'.ids
  · exact h'.sending
  · exact h'.known
  · intro p hmem
    rw [show (s.onSent send true).pausings = s.pausings from rfl, hnone] at hmem
    cases hmem
  · intro hpaused
    rw [show (s.onSent send true).isTransferPaused = s.isTransferPaused from rfl, hactive] at hpaused
    cases hpaused

/-- The loop goes on with the next file. -/
theorem callSend {file : File} {rest : List File}
    (h : Settled peer s (file.index :: rest.map File.index)) (hb : s.batches = []) :
    Sends peer (s.callSend s.transferEpoch peer file rest [])
      ⟨s.transferEpoch, peer, s.objects, file, rest, []⟩ := by
  have hinc := (mem_incomplete.mp (h.left file.index List.mem_cons_self)).2
  have hjobs (job : TrackedSend)
      (hj : job ∈ (s.callSend s.transferEpoch peer file rest []).lanJobs) : job ∈ s.lanJobs := by
    obtain ⟨hjt, id, hid, hjid⟩ := mem_lanJobs.mp hj
    rcases List.mem_append.mp hjt with hjt | hnew
    · exact mem_lanJobs.mpr ⟨hjt, id, hid, hjid⟩
    · rw [List.mem_singleton.mp hnew] at hjid
      cases hjid
  constructor
  · simp [HomePage.callSend, hb]
  · rfl
  · rfl
  · rfl
  · simp [HomePage.callSend]
  · simp [HomePage.callSend]
  · exact ⟨_, List.mem_append_right _ (List.mem_singleton_self _), rfl, rfl, rfl⟩
  · constructor
    · simp [HomePage.callSend, hinc, h.twice]
    · exact h.nodup
    · exact h.left
    · exact fun i hi => h.owed i (List.mem_filter.mp hi).1
    · intro job hj
      obtain ⟨hi, hh, hn⟩ := h.registered job (hjobs job hj)
      refine ⟨hi, hh, ?_⟩
      have hne : job.file.index ≠ file.index := fun he => hh (he ▸ List.mem_cons_self)
      simpa [HomePage.callSend, hne] using hn
    · intro job hj
      rcases List.mem_append.mp hj with hj | hj
      · exact h.peers job hj
      · rw [List.mem_singleton.mp hj]
    · simp only [HomePage.callSend, List.map_append, List.map_cons, List.map_nil]
      refine List.nodup_append.mpr ⟨h.objects, List.nodup_singleton _, ?_⟩
      intro o ho o' ho' he
      obtain ⟨job, hj, rfl⟩ := List.mem_map.mp ho
      have hlt := h.fresh job hj
      have := List.mem_singleton.mp ho'
      omega
    · intro job hj
      rcases List.mem_append.mp hj with hj | hj
      · exact Nat.lt_succ_of_lt (h.fresh job hj)
      · rw [List.mem_singleton.mp hj]
        exact Nat.lt_succ_self _
    · intro job hj id hid
      rcases List.mem_append.mp hj with hj | hj
      · exact h.ids job hj id hid
      · rw [List.mem_singleton.mp hj] at hid
        cases hid
    · exact h.sending
    · intro send hs hid
      obtain ⟨job, hj, hrest⟩ := h.known send hs hid
      exact ⟨job, List.mem_append_left _ hj, hrest⟩
    · intro p hp
      cases (h.pausing p hp).1
    · intro hp
      cases (h.paused hp).1

theorem removeTracked (h : Settled peer s hand) {object : Nat}
    (hn : ∀ job ∈ s.trackedSends, job.object = object → job.sendId = none) :
    Settled peer (s.removeTracked object) hand := by
  apply h.shrink
  · exact List.filter_sublist
  · exact fun _ hid => hid
  · exact fun _ hs => hs
  · intro send _ _ job hj hjid
    refine List.mem_filter.mpr ⟨hj, ?_⟩
    have hne : job.object ≠ object := by
      intro he
      simp [hn job hj he] at hjid
    simpa using hne

/-- Fewer files may be left. -/
theorem drop (h : Settled peer s hand) {hand' : List Nat} (hl : hand'.Sublist hand)
    (ho : ∀ i ∈ s.owed, i ∈ hand') : Settled peer s hand' := by
  have hnil (hn : hand = []) : hand' = [] := by
    rw [hn] at hl
    exact List.sublist_nil.mp hl
  constructor
  · exact h.twice
  · exact h.nodup.sublist hl
  · exact fun i hi => h.left i (hl.subset hi)
  · exact ho
  · intro job hj
    obtain ⟨hi, hh, hn⟩ := h.registered job hj
    exact ⟨hi, fun hm => hh (hl.subset hm), hn⟩
  · exact h.peers
  · exact h.objects
  · exact h.fresh
  · exact h.ids
  · exact h.sending
  · exact h.known
  · intro p hp
    obtain ⟨hn, hrest⟩ := h.pausing p hp
    exact ⟨hnil hn, hrest⟩
  · intro hp
    obtain ⟨hn, hrest⟩ := h.paused hp
    exact ⟨hnil hn, hrest⟩

/-- A send of the batch gets its id. -/
theorem register {file : File} (h : Settled peer s (file.index :: hand)) (ho : file.index ∉ s.owed)
    {job : TrackedSend} (hj : job ∈ s.trackedSends) (hfile : job.file = file)
    (hnone : job.sendId = none) (hn : s.newest file.index = job.object) :
    Settled peer { s with
      sending := ⟨s.nextSend, job.object, file⟩ :: s.sending
      nextSend := s.nextSend + 1
      trackedSends := s.trackedSends.map (TrackedSend.name job.object s.nextSend)
      sendIds := s.nextSend :: s.sendIds
      isTransferPaused := false } hand := by
  have hone {k : TrackedSend} (hk : k ∈ s.trackedSends) (he : k.object = job.object) : k = job :=
    List.inj_on_of_nodup_map h.objects hk hj he
  have hcases {job' : TrackedSend} (hj' : job' ∈ { s with
      sending := ⟨s.nextSend, job.object, file⟩ :: s.sending
      nextSend := s.nextSend + 1
      trackedSends := s.trackedSends.map (TrackedSend.name job.object s.nextSend)
      sendIds := s.nextSend :: s.sendIds
      isTransferPaused := false }.lanJobs) :
      job' ∈ s.lanJobs ∨ (job'.object = job.object ∧ job'.file = file) := by
    obtain ⟨ht, id, hid, hjid⟩ := mem_lanJobs.mp hj'
    obtain ⟨k, hk, rfl⟩ := List.mem_map.mp ht
    rcases name_cases job.object s.nextSend k with ⟨he, hname⟩ | ⟨he, hname⟩
    · rw [hname] at hjid ⊢
      have hlt := h.ids k hk id hjid
      have hne : id ≠ s.nextSend := by omega
      have hold := (List.mem_cons.mp hid).resolve_left hne
      exact .inl (mem_lanJobs.mpr ⟨hk, id, hold, hjid⟩)
    · have hkj := hone hk he
      rw [hname, hkj]
      exact .inr ⟨rfl, hfile⟩
  have hnd := List.nodup_cons.mp h.nodup
  constructor
  · exact h.twice
  · exact hnd.2
  · exact fun i hi => h.left i (List.mem_cons_of_mem _ hi)
  · intro i hi
    have hne : i ≠ file.index := fun he => ho (he ▸ hi)
    exact (List.mem_cons.mp (h.owed i hi)).resolve_left hne
  · intro job' hj'
    rcases hcases hj' with hold | ⟨hob, hf⟩
    · obtain ⟨hi, hh, hnew⟩ := h.registered job' hold
      exact ⟨hi, fun hm => hh (List.mem_cons_of_mem _ hm), hnew⟩
    · rw [hf, hob]
      exact ⟨h.left _ List.mem_cons_self, hnd.1, hn⟩
  · intro job' hj'
    obtain ⟨k, hk, rfl⟩ := List.mem_map.mp hj'
    rw [name_peer]
    exact h.peers k hk
  · have hmap : (s.trackedSends.map (TrackedSend.name job.object s.nextSend)).map
        TrackedSend.object = s.trackedSends.map TrackedSend.object := by
      rw [List.map_map]
      exact List.map_congr_left fun k _ => name_object job.object s.nextSend k
    rw [hmap]
    exact h.objects
  · intro job' hj'
    obtain ⟨k, hk, rfl⟩ := List.mem_map.mp hj'
    rw [name_object]
    exact h.fresh k hk
  · intro job' hj' id hid
    obtain ⟨k, hk, rfl⟩ := List.mem_map.mp hj'
    rcases name_cases job.object s.nextSend k with ⟨_, hname⟩ | ⟨_, hname⟩
    · rw [hname] at hid
      exact Nat.lt_succ_of_lt (h.ids k hk id hid)
    · rw [hname] at hid
      obtain rfl := Option.some.inj hid
      exact Nat.lt_succ_self _
  · intro send hs
    rcases List.mem_cons.mp hs with rfl | hs
    · exact Nat.lt_succ_self _
    · exact Nat.lt_succ_of_lt (h.sending send hs)
  · intro send hs hid
    rcases List.mem_cons.mp hs with rfl | hs
    · refine ⟨_, List.mem_map_of_mem hj, ?_⟩
      simp [TrackedSend.name, hfile]
    · have hlt := h.sending send hs
      have hne : send.sendId ≠ s.nextSend := by omega
      obtain ⟨k, hk, hkid, hrest⟩ := h.known send hs ((List.mem_cons.mp hid).resolve_left hne)
      have hko : k.object ≠ job.object := by
        intro he
        rw [hone hk he, hnone] at hkid
        cases hkid
      refine ⟨k, List.mem_map.mpr ⟨k, hk, ?_⟩, hkid, hrest⟩
      simp [TrackedSend.name, hko]
  · intro p hp
    cases (h.pausing p hp).1
  · intro hp
    cases hp

/-- A pause holds what the page knows to be on its way. -/
theorem pause (h : Settled peer s []) (hall : ∀ i ∈ s.incomplete,
    i ∈ s.lanJobs.map fun job => job.file.index) : Settled peer s.pause [] := by
  unfold HomePage.pause
  split
  · exact h
  · refine ⟨h.twice, h.nodup, h.left, h.owed, h.registered, h.peers, h.objects, h.fresh, h.ids,
      h.sending, h.known, ?_, h.paused⟩
    intro p hp
    rcases List.mem_cons.mp hp with rfl | hp
    · refine ⟨rfl, ⟨fun job hj => h.peers job (mem_lanJobs.mp hj).1, h.nodup_lanJobs, fun i => ?_⟩,
        fun job hj => hj⟩
      constructor
      · intro hi
        obtain ⟨job, hj, rfl⟩ := List.mem_map.mp hi
        exact (h.registered job hj).1
      · exact hall i
    · exact h.pausing p hp

theorem cancelReturns (h : Settled peer s hand) {p : Pausing} (hp : p ∈ s.pausings) :
    Settled peer ({ s with pausings := s.pausings.erase p }.cancelReturns p) [] := by
  obtain ⟨rfl, hc, hl⟩ := h.pausing p hp
  have hold (q : Pausing) (hq : q ∈ s.pausings.erase p) := h.pausing q (List.mem_of_mem_erase hq)
  have hpaused : Settled peer ({ s with pausings := s.pausings.erase p }.paused p.lanJobs) [] := by
    have h' : Settled peer { s with
        trackedSends := s.trackedSends.filter fun job =>
          job.object ∉ p.lanJobs.map TrackedSend.object
        sendIds := s.sendIds.filter fun id => some id ∉ p.lanJobs.map TrackedSend.sendId
        sending := s.sending } [] := by
      apply h.shrink
      · exact List.filter_sublist
      · exact fun id hid => (List.mem_filter.mp hid).1
      · exact fun _ hs => hs
      · intro send _ hid job hj hjid
        obtain ⟨hid, hne⟩ := List.mem_filter.mp hid
        have hjp := hl job (mem_lanJobs.mpr ⟨hj, send.sendId, hid, hjid⟩)
        exact absurd (List.mem_map.mpr ⟨job, hjp, hjid⟩) (by simpa using hne)
    refine ⟨h'.twice, h'.nodup, h'.left, h'.owed, h'.registered, h'.peers, h'.objects, h'.fresh,
      h'.ids, h'.sending, h'.known, ?_, ?_⟩
    · exact fun q hq => h'.pausing q (List.mem_of_mem_erase hq)
    · refine fun _ => ⟨rfl, hc, ?_⟩
      by_contra hne
      obtain ⟨job, hj⟩ := List.exists_mem_of_ne_nil _ hne
      obtain ⟨hjt, id, hid, hjid⟩ := mem_lanJobs.mp hj
      obtain ⟨hjt, hno⟩ := List.mem_filter.mp hjt
      have hjp := hl job (mem_lanJobs.mpr ⟨hjt, id, (List.mem_filter.mp hid).1, hjid⟩)
      exact absurd (List.mem_map_of_mem hjp) (by simpa using hno)
  unfold HomePage.cancelReturns
  split
  · exact hpaused
  · exact hpaused
  · next rest hrest =>
    refine ⟨h.twice, h.nodup, h.left, h.owed, h.registered, h.peers, h.objects, h.fresh, h.ids,
      h.sending, h.known, ?_, h.paused⟩
    intro q hq
    rcases List.mem_cons.mp hq with rfl | hq
    · exact ⟨rfl, hc, hl⟩
    · exact hold q hq

/-- A resume takes everything that has not arrived in hand. -/
theorem resume (h : Settled peer s hand) (hp : s.isTransferPaused = true) (hn : s.pausings = []) :
    Settled peer { s with
      isTransferPaused := false
      pauseInProgress := false
      pausedSends := []
      owed := s.owed ++ s.incomplete } (s.pausedSends.map fun job => job.file.index) := by
  obtain ⟨rfl, ⟨-, hnd, hall⟩, hl⟩ := h.paused hp
  refine ⟨h.twice, hnd, fun i hi => (hall i).mp hi, ?_, ?_, h.peers, h.objects, h.fresh, h.ids,
    h.sending, h.known, ?_, ?_⟩
  · intro i hi
    rcases List.mem_append.mp hi with hi | hi
    · cases h.owed i hi
    · exact (hall i).mpr hi
  · intro job hj
    have hj' : job ∈ s.lanJobs := hj
    simp [hl] at hj'
  · intro p hmem
    have hmem' : p ∈ s.pausings := hmem
    simp [hn] at hmem'
  · intro hf
    cases hf

end Settled

namespace Sends

variable {b : Batch}

/-- The loop after its call: it sends the next file, or the page is at rest. -/
theorem next (h : Sends peer s b) {s' : HomePage} (hb : s'.batches = [])
    (he : s'.transferEpoch = s.transferEpoch) (hs : Settled peer s' (b.rest.map File.index)) :
    Steady peer (s'.sendNext b) := by
  unfold sendNext
  rw [h.later, h.epoch, h.dest, he]
  cases hrest : b.rest with
  | nil =>
    rw [hrest] at hs
    exact .inl ⟨hb, hs⟩
  | cons file rest =>
    rw [hrest] at hs
    simp only [ne_eq, not_true_eq_false, if_false]
    rw [← he]
    exact .inr ⟨_, hs.callSend hb⟩

/-- The call of the batch returns. -/
theorem sendReturns (h : Sends peer s b) (result : SendResult) :
    Steady peer ({ s with batches := s.batches.erase b }.sendReturns b result) := by
  have hb : s.batches.erase b = [] := by
    simp [h.batches]
  have hs : Settled peer { s with batches := s.batches.erase b }
      (b.file.index :: b.rest.map File.index) := h.settled.congr rfl
  have ho (i : Nat) (hi : i ∈ s.owed) : i ∈ b.rest.map File.index := by
    have hne : i ≠ b.file.index := fun he => h.issued (he ▸ hi)
    exact (List.mem_cons.mp (h.settled.owed i hi)).resolve_left hne
  obtain ⟨job, hj, hob, hf, hnone⟩ := h.tracked
  cases result with
  | failed =>
    have hr : Settled peer ({ s with batches := s.batches.erase b }.removeTracked b.tracked)
        (b.file.index :: b.rest.map File.index) := by
      apply hs.removeTracked
      intro k hk he
      rw [List.inj_on_of_nodup_map h.settled.objects hk hj (he.trans hob.symm)]
      exact hnone
    exact h.next hb rfl (hr.drop (List.sublist_cons_self _ _) ho)
  | unnamed => exact h.next hb rfl (hs.drop (List.sublist_cons_self _ _) ho)
  | started =>
    have hn : s.newest b.file.index = job.object := h.newest.trans hob.symm
    have hr := hs.register h.issued hj hf hnone hn
    unfold HomePage.sendReturns
    simp only [h.epoch, ne_eq, not_true_eq_false, if_false]
    rw [← hob]
    exact h.next hb rfl hr

theorem congr (h : Sends peer s b) {s' : HomePage} (hb : s'.batches = s.batches)
    (he : s'.transferEpoch = s.transferEpoch) (ho : s'.owed = s.owed) (hn : s'.newest = s.newest)
    (ht : ∀ job ∈ s.trackedSends, job.sendId = none → job ∈ s'.trackedSends)
    (hs : ∀ hand, Settled peer s hand → Settled peer s' hand) : Sends peer s' b := by
  constructor
  · exact hb.trans h.batches
  · exact h.later
  · exact h.epoch.trans he.symm
  · exact h.dest
  · exact ho ▸ h.issued
  · exact hn ▸ h.newest
  · obtain ⟨job, hj, hob, hf, hnone⟩ := h.tracked
    exact ⟨job, ht job hj hnone, hob, hf, hnone⟩
  · exact hs _ h.settled

end Sends

/-- Whether a press resumes the sends that are paused, or pauses those on their way. -/
def resumes (s : HomePage) : Bool :=
  !s.isReceivePaused && s.receivingIds.isEmpty && s.isTransferPaused

def pausesSends (s : HomePage) : Bool :=
  !s.isReceivePaused && s.receivingIds.isEmpty && !s.isTransferPaused && !s.lanJobs.isEmpty

/-- A resume finds the peer online. -/
def peerOnline (s : HomePage) : Event → Bool
  | .press => !s.resumes || s.pausedSends.all fun job => decide (job.peer ∈ s.peers)
  | _ => true

/-- The steps that lose no file. A pause finds every file that has not arrived registered, a resume
finds no pause at work, and no send arrives that a pause has cancelled. -/
def keeps (s : HomePage) : Event → Bool
  | .press => s.peerOnline .press && (!s.resumes || s.pausings.isEmpty) && (!s.pausesSends ||
      s.incomplete.all fun i => decide (i ∈ s.lanJobs.map fun job => job.file.index))
  | .sent send ok => !ok || (decide (send.sendId ∈ s.sendIds) &&
      s.pausings.all fun p => p.lanJobs.all fun job => decide (job.sendId ≠ some send.sendId))
  | _ => true

/-- Whatever had not arrived at a resume is sent again when the loop of the resume is over, and
nothing is sent twice that has arrived. -/
def Kept (s : HomePage) : Prop := (s.batches = [] → s.owed = []) ∧ s.twice = []

namespace Steady

theorem kept (h : Steady peer s) : s.Kept := by
  rcases h with ⟨_, h⟩ | ⟨b, h⟩
  · refine ⟨fun _ => ?_, h.twice⟩
    rw [List.eq_nil_iff_forall_not_mem]
    intro i hi
    cases h.owed i hi
  · refine ⟨fun hb => ?_, h.settled.twice⟩
    rw [h.batches] at hb
    cases hb

theorem congr (h : Steady peer s) {s' : HomePage} (hs : s'.sendSide = s.sendSide)
    (hb : s'.batches = s.batches) (he : s'.transferEpoch = s.transferEpoch) : Steady peer s' := by
  rcases h with ⟨hnil, h⟩ | ⟨b, h⟩
  · exact .inl ⟨hb.trans hnil, h.congr hs⟩
  · refine .inr ⟨b, h.congr hb he (congrArg SendSide.owed hs) (congrArg SendSide.newest hs) ?_
      fun hand hset => hset.congr hs⟩
    intro job hj _
    rw [show s'.trackedSends = s.trackedSends from congrArg SendSide.trackedSends hs]
    exact hj

/-- A page that has paused, or that is pausing, has no loop at work. -/
theorem held (h : Steady peer s) (hs : s.pausings ≠ [] ∨ s.isTransferPaused = true) :
    s.batches = [] ∧ Settled peer s [] := by
  rcases h with h | ⟨b, h⟩
  · exact h
  · rcases hs with hs | hs
    · obtain ⟨p, hp⟩ := List.exists_mem_of_ne_nil _ hs
      cases (h.settled.pausing p hp).1
    · cases (h.settled.paused hs).1

theorem resume (h : Steady peer s) (hp : s.isTransferPaused = true) (hn : s.pausings = [])
    (ho : ∀ job ∈ s.pausedSends, job.peer ∈ s.peers) : Steady peer s.resume := by
  obtain ⟨hb, hs⟩ := h.held (.inr hp)
  have hr := hs.resume hp hn
  have hpeers := (hs.paused hp).2.1.1
  unfold HomePage.resume
  cases hj : s.pausedSends with
  | nil =>
    rw [hj] at hr
    exact .inl ⟨hb, hr⟩
  | cons job jobs =>
    rw [pathsByPeer_single (hj ▸ hpeers) (by simp)]
    have hpeer : peer ∈ s.peers := by
      rw [← hpeers job (by simp [hj])]
      exact ho job (by simp [hj])
    simp only [List.map_cons, sendGroups, if_pos hpeer]
    rw [hj] at hr
    have hr' : Settled peer { s with
        isTransferPaused := false
        pauseInProgress := false
        pausedSends := []
        owed := s.owed ++ s.incomplete } (job.file.index ::
          (jobs.map TrackedSend.file).map File.index) := by
      rw [List.map_map]
      exact hr
    exact .inr ⟨_, hr'.callSend hb⟩

theorem pause (h : Steady peer s) (hall : s.lanJobs ≠ [] → ∀ i ∈ s.incomplete,
    i ∈ s.lanJobs.map fun job => job.file.index) : Steady peer s.pause := by
  by_cases hl : s.lanJobs = []
  · rw [HomePage.pause, if_pos hl]
    exact h
  · have hset : s.batches = [] ∧ Settled peer s [] := by
      rcases h with h | ⟨b, h⟩
      · exact h
      · have hi := hall hl b.file.index (h.settled.left _ List.mem_cons_self)
        obtain ⟨job, hj, he⟩ := List.mem_map.mp hi
        have hno := (h.settled.registered job hj).2.1
        rw [he] at hno
        exact absurd List.mem_cons_self hno
    have hbatches : s.pause.batches = s.batches := by
      unfold HomePage.pause
      split <;> rfl
    exact .inl ⟨hbatches.trans hset.1, hset.2.pause (hall hl)⟩

theorem release (h : Steady peer s) : Steady peer s.releaseReceivePause := by
  unfold releaseReceivePause
  split
  · exact h.congr rfl rfl rfl
  · exact h

/-- A batch is sent to a peer. -/
theorem sendToPeer {files : List File} (h : Settled peer s (files.map File.index))
    (hb : s.batches = []) : Steady peer (s.sendToPeer peer files) := by
  cases files with
  | nil => exact .inl ⟨hb, h⟩
  | cons file rest => exact .inr ⟨_, h.callSend hb⟩

theorem press (h : Steady peer s) (hk : s.keeps .press = true) : Steady peer s.togglePause := by
  simp only [keeps, peerOnline, Bool.and_eq_true] at hk
  obtain ⟨⟨honline, hpausings⟩, hregistered⟩ := hk
  unfold togglePause
  split
  · exact h.release
  · next hr =>
    split
    · exact h.congr rfl rfl rfl
    · next hids =>
      have hids' : s.receivingIds = [] := by simpa using hids
      split
      · next hp =>
        have hres : s.resumes = true := by simp [resumes, hr, hids', hp]
        simp only [hres, Bool.not_true, Bool.false_or, List.isEmpty_iff, List.all_eq_true,
          decide_eq_true_eq] at honline hpausings
        exact h.resume hp hpausings honline
      · next hp =>
        apply h.pause
        intro hl
        have hpauses : s.pausesSends = true := by simp [pausesSends, hr, hids', hp, hl]
        simpa [hpauses] using hregistered

theorem sent (h : Steady peer s) {send : Sending} {ok : Bool} (hs : send ∈ s.sending)
    (hk : s.keeps (.sent send ok) = true) : Steady peer (s.onSent send ok) := by
  have hset (hand : List Nat) (hset : Settled peer s hand) : Settled peer (s.onSent send ok) hand := by
    cases ok with
    | false =>
      have hf := hset.forget send
      exact hf.congr rfl
    | true =>
      simp only [keeps, Bool.not_true, Bool.false_or, Bool.and_eq_true, decide_eq_true_eq,
        List.all_eq_true] at hk
      exact hset.arrive hs hk.1 hk.2
  rcases h with ⟨hb, h⟩ | ⟨b, h⟩
  · exact .inl ⟨hb, hset [] h⟩
  · refine .inr ⟨b, h.congr rfl rfl rfl rfl ?_ hset⟩
    intro job hj hnone
    exact List.mem_filter.mpr ⟨hj, by simp [hnone]⟩

theorem step (h : Steady peer s) {s' : HomePage} {e : Event} (hk : s.keeps e = true)
    (hs : s.step e = some s') : Steady peer s' := by
  cases e with
  | press =>
    obtain rfl := Option.some.inj hs
    exact h.press hk
  | peers ids =>
    obtain rfl := Option.some.inj hs
    exact h.congr rfl rfl rfl
  | sendReturns batch result =>
    obtain ⟨hmem, rfl⟩ := Option.ite_some_none_eq_some.mp hs
    rcases h with ⟨hb, _⟩ | ⟨b, h⟩
    · simp [hb] at hmem
    · obtain rfl : batch = b := by simpa [h.batches] using hmem
      exact h.sendReturns result
  | cancelReturns pausing =>
    obtain ⟨hmem, rfl⟩ := Option.ite_some_none_eq_some.mp hs
    obtain ⟨hb, hset⟩ := h.held (.inl (List.ne_nil_of_mem hmem))
    refine .inl ⟨?_, hset.cancelReturns hmem⟩
    unfold HomePage.cancelReturns
    split <;> exact hb
  | sent send ok =>
    obtain ⟨hmem, rfl⟩ := Option.ite_some_none_eq_some.mp hs
    exact h.sent hmem hk
  | progress transfer =>
    obtain rfl := Option.some.inj hs
    exact h.congr rfl rfl rfl
  | received transfer =>
    obtain ⟨_, rfl⟩ := Option.ite_some_none_eq_some.mp hs
    have hr : Steady peer { s with
        incoming := s.incoming.filter (· ≠ transfer)
        receivingIds := s.receivingIds.filter (· ≠ transfer) } := h.congr rfl rfl rfl
    unfold onReceived
    dsimp only
    split
    · exact hr.release
    · exact hr
  | failed transfer =>
    obtain ⟨_, rfl⟩ := Option.ite_some_none_eq_some.mp hs
    exact h.congr rfl rfl rfl
  | runCall =>
    have hrun : s.runCall = some s' := hs
    unfold HomePage.runCall at hrun
    split at hrun
    · cases hrun
    · obtain rfl := Option.some.inj hrun
      exact h.congr rfl rfl rfl
  | callReturns =>
    have hrun : s.callReturns = some s' := hs
    unfold HomePage.callReturns at hrun
    split at hrun
    · cases hrun
    · obtain rfl := Option.some.inj hrun
      exact h.congr rfl rfl rfl
    · obtain rfl := Option.some.inj hrun
      exact h.congr rfl rfl rfl

end Steady

theorem numbered_index (paths : List String) :
    (numbered paths).map File.index = List.range' 0 paths.length := by
  rw [numbered, List.map_map]
  exact List.zipIdx_map_snd 0 paths

theorem steady_start (peer : String) (paths : List String) :
    Steady peer (page peer paths).start := by
  have hset : Settled peer (opened peer (numbered paths)) ((numbered paths).map File.index) := by
    constructor
    · rfl
    · rw [numbered_index]
      exact List.nodup_range'
    · exact fun i hi => mem_incomplete.mpr ⟨hi, by simp [opened]⟩
    · intro i hi
      cases hi
    · intro job hj
      cases (mem_lanJobs.mp hj).1
    · intro job hj
      cases hj
    · exact List.nodup_nil
    · intro job hj
      cases hj
    · intro job hj
      cases hj
    · intro send hs
      cases hs
    · intro send hs
      cases hs
    · intro p hp
      cases hp
    · intro hp
      cases hp
  exact Steady.sendToPeer hset rfl

/-- In every run whose steps lose no file, what had not arrived at a resume is sent again by it, and
what has arrived is not sent twice. -/
theorem resume_keeps (peer : String) (paths : List String) (s : HomePage)
    (h : (page peer paths).Reaches keeps s) : s.Kept := by
  have hsteady : Steady peer s := h.invariant (steady_start peer paths)
    fun s e s' hk he hs => hk.step he hs
  exact hsteady.kept

/-- Two files are on their way when the user pauses; both are cancelled, sent again and arrive. -/
def resumedRun : List Event :=
  let a : File := ⟨0, "a"⟩
  let b : File := ⟨1, "b"⟩
  let jobs : List TrackedSend := [⟨0, a, "peer", some 0⟩, ⟨1, b, "peer", some 1⟩]
  [.sendReturns ⟨0, "peer", 0, a, [b], []⟩ .started, .sendReturns ⟨0, "peer", 1, b, [], []⟩ .started,
    .press, .cancelReturns ⟨jobs, jobs⟩, .sent ⟨0, 0, a⟩ false, .cancelReturns ⟨jobs, jobs.tail⟩,
    .sent ⟨1, 1, b⟩ false, .press, .sendReturns ⟨1, "peer", 2, a, [b], []⟩ .started,
    .sendReturns ⟨1, "peer", 3, b, [], []⟩ .started, .sent ⟨2, 2, a⟩ true, .sent ⟨3, 3, b⟩ true]

theorem resume_keeps_resumedRun : ∃ s : HomePage, s.batches = [] ∧ s.completed = [1, 0] ∧ s.Kept := by
  have hrun : (((page "peer" ["a", "b"]).runFrom keeps (page "peer" ["a", "b"]).start
      resumedRun).map fun s => (s.batches, s.completed)) = some ([], [1, 0]) := rfl
  obtain ⟨s, hs, he⟩ := Option.map_eq_some_iff.mp hrun
  obtain ⟨hb, hc⟩ := Prod.mk.inj he
  exact ⟨s, hb, hc, resume_keeps "peer" ["a", "b"] s ⟨resumedRun, hs⟩⟩

/-- The user pauses while the call for the second file is on its way: the loop cancels that send when
it returns, and no list holds the file. -/
def interruptedRun : List Event :=
  let a : File := ⟨0, "a"⟩
  let b : File := ⟨1, "b"⟩
  let job : TrackedSend := ⟨0, a, "peer", some 0⟩
  [.sendReturns ⟨0, "peer", 0, a, [b], []⟩ .started, .press,
    .sendReturns ⟨0, "peer", 1, b, [], []⟩ .started, .cancelReturns ⟨[job], [job]⟩, .press,
    .sendReturns ⟨1, "peer", 2, a, [], []⟩ .started]

theorem resume_loses : ¬ ∀ peer paths s, (page peer paths).Reaches peerOnline s → s.Kept := by
  intro h
  have hrun : (((page "peer" ["a", "b"]).runFrom peerOnline (page "peer" ["a", "b"]).start
      interruptedRun).map fun s => (s.batches, s.owed)) = some ([], [1]) := rfl
  obtain ⟨s, hs, he⟩ := Option.map_eq_some_iff.mp hrun
  obtain ⟨hb, ho⟩ := Prod.mk.inj he
  have hkept := (h "peer" ["a", "b"] s ⟨interruptedRun, hs⟩).1 hb
  simp [ho] at hkept

end HomePage

end InkHole
