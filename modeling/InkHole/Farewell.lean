import InkHole.Registry

/-! Probes take their time: goodbyes arrive while some are in flight. What the goodbyes of a run,
which anyone on the network may have sent, can do to the records. -/

namespace InkHole

open PeerRecord Table

def maxPendingProbes : Nat := 16

/-- A probe in flight; `started` counts the events before its start. -/
structure Probe where
  candidate : Candidate
  started : Nat

structure ProbeTracker where
  pending : Table CandidateKey Probe
  lastAttempt : Table CandidateKey Nat

structure ProbingTimings where
  discovery : UdpDiscoveryTimings
  minProbeInterval : Nat

namespace ProbeTracker

def attemptedLately (tracker : ProbeTracker) (timings : ProbingTimings) (now : Nat) (key : CandidateKey) :
    Bool :=
  match tracker.lastAttempt.lookup key with
  | some last => decide (now - last < timings.minProbeInterval)
  | none => false

def scheduleProbe (timings : ProbingTimings) (clock now : Nat) (tracker : ProbeTracker)
    (candidate : Candidate) : ProbeTracker :=
  if maxPendingProbes ≤ tracker.pending.entries.length ∨ (tracker.pending.lookup candidate.key).isSome then
    tracker
  else if tracker.attemptedLately timings now candidate.key then tracker
  else
    { pending := tracker.pending.insert candidate.key ⟨candidate, clock⟩
      lastAttempt := tracker.lastAttempt.insert candidate.key now }

def forget (tracker : ProbeTracker) (key : CandidateKey) : ProbeTracker :=
  { tracker with lastAttempt := tracker.lastAttempt.erase key }

/-- A probe that must not wait. -/
def scheduleNow (timings : ProbingTimings) (clock now : Nat) (tracker : ProbeTracker)
    (candidate : Candidate) : ProbeTracker :=
  (tracker.forget candidate.key).scheduleProbe timings clock now candidate

def release (tracker : ProbeTracker) (key : CandidateKey) : ProbeTracker :=
  { tracker with pending := tracker.pending.erase key }

end ProbeTracker

/-- What the discovery task waits for. -/
inductive ProbingEvent where
  /-- An announcement, a resolved service, or the time to look after a record. -/
  | candidate (now : Nat) (candidate : Candidate)
  /-- A refresh, or a service that is gone. -/
  | refresh (now : Nat) (candidate : Candidate)
  | goodbye (now : Nat) (announcement : UdpAnnouncement) (senderIp : String)
  | joined (now : Nat) (key : CandidateKey) (result : Except CoreError VerifiedPeer)
  | aborted (key : CandidateKey)
  | prune (now : Nat)
  | died

structure Probing where
  discovery : Discovery
  tracker : ProbeTracker

section Task

variable [Texts]

namespace Probing

def empty : Probing := ⟨.empty, ⟨∅, ∅⟩⟩

/-- What an event is for the table of devices. -/
def registryEvent (s : Probing) : ProbingEvent → Option DiscoveryEvent
  | .candidate _ _ => none
  | .refresh _ _ => none
  | .goodbye _ announcement senderIp => some (.goodbye announcement senderIp)
  | .joined now key result =>
    (s.tracker.pending.lookup key).map fun probe => .probed now ⟨probe.candidate, result⟩
  | .aborted _ => none
  | .prune now => some (.prune now)
  | .died => some .died

def track (timings : ProbingTimings) (clock : Nat) (s : Probing) : ProbingEvent → ProbeTracker
  | .candidate now candidate => s.tracker.scheduleProbe timings clock now candidate
  | .refresh now candidate => s.tracker.scheduleNow timings clock now candidate
  | .goodbye now announcement senderIp =>
    (demoteGoodbye s.discovery.records announcement senderIp).1.foldl
      (ProbeTracker.scheduleNow timings clock now) s.tracker
  | .joined _ key _ => s.tracker.release key
  | .aborted key => s.tracker.release key
  | .prune now =>
    { s.tracker with
      lastAttempt := Table.retain s.tracker.lastAttempt fun attempted =>
        decide (now - attempted < timings.discovery.staleAfter * 2) }
  | .died => ⟨∅, ∅⟩

def handle (timings : ProbingTimings) (clock : Nat) (s : Probing) (event : ProbingEvent) : Probing where
  discovery :=
    match s.registryEvent event with
    | some registered => s.discovery.handle timings.discovery registered
    | none => s.discovery
  tracker := s.track timings clock event

/-- After the events of a run, the newest first. -/
def after (timings : ProbingTimings) : List ProbingEvent → Probing
  | [] => empty
  | event :: earlier => (after timings earlier).handle timings earlier.length event

def record (s : Probing) (id : String) : Option PeerRecord := s.discovery.records.lookup id

end Probing

/-- The candidate that a probe of a record at one of its hosts is for. -/
def recordKey (id : String) (record : PeerRecord) (host : String) : CandidateKey :=
  ⟨id, ⟨host, record.peer.port⟩, record.peer.fingerprint⟩

def matchesGoodbye (id : String) (record : PeerRecord) (announcement : UdpAnnouncement)
    (senderIp : String) : Bool :=
  announcement.instanceId == id && record.known announcement.fingerprint ⟨senderIp, announcement.port⟩

variable (timings : ProbingTimings)

/-- When the goodbyes came that the device has not answered since. -/
def goodbyesInForce (id : String) : List ProbingEvent → List Nat
  | [] => []
  | event :: earlier =>
    match (Probing.after timings earlier).record id with
    | none => []
    | some record =>
      match event with
      | .goodbye _ announcement senderIp =>
        if matchesGoodbye id record announcement senderIp then
          earlier.length :: goodbyesInForce id earlier
        else goodbyesInForce id earlier
      | .joined _ key result =>
        match (Probing.after timings earlier).tracker.pending.lookup key with
        | some probe =>
          if record.recognized id ⟨probe.candidate, result⟩ then [] else goodbyesInForce id earlier
        | none => goodbyesInForce id earlier
      | _ => goodbyesInForce id earlier

/-- Whether an event ends a probe that has failed and was started no earlier than `t`. -/
def ProbeFailed (t : Nat) (key : CandidateKey) (s : Probing) : ProbingEvent → Prop
  | .joined _ joined (.error e) => joined = key ∧ e ≠ .cancelled ∧
      ∃ probe, s.tracker.pending.lookup key = some probe ∧ t ≤ probe.started
  | _ => False

/-- Whether a probe that was started no earlier than `t` has failed. -/
def FailedSince (t : Nat) (key : CandidateKey) : List ProbingEvent → Prop
  | [] => False
  | event :: earlier =>
    ProbeFailed t key (Probing.after timings earlier) event ∨ FailedSince t key earlier

/-- A goodbye finds no probe of the record in flight, and no failure counted at any host of it,
unless this is its only host. -/
def CleanGoodbye (s : Probing) : ProbingEvent → Prop
  | .goodbye _ announcement senderIp => ∀ record, s.record announcement.instanceId = some record →
      matchesGoodbye announcement.instanceId record announcement senderIp = true →
      (∀ host ∈ record.peer.hosts,
        s.tracker.pending.lookup (recordKey announcement.instanceId record host) = none) ∧
      ((∀ host ∈ record.peer.hosts,
        (record.failures.lookup ⟨host, record.peer.port⟩).getD 0 = 0) ∨
        ∃ host, record.peer.hosts = [host])
  | _ => True

def CleanGoodbyes : List ProbingEvent → Prop
  | [] => True
  | event :: earlier => CleanGoodbye (Probing.after timings earlier) event ∧ CleanGoodbyes earlier

end Task

namespace ProbeTracker

variable {timings : ProbingTimings} {clock now : Nat} {tracker : ProbeTracker} {key : CandidateKey}
  {probe : Probe}

theorem pending_scheduleProbe {candidate : Candidate}
    (h : (tracker.scheduleProbe timings clock now candidate).pending.lookup key = some probe) :
    tracker.pending.lookup key = some probe ∨ (probe.started = clock ∧ probe.candidate.key = key) := by
  unfold scheduleProbe at h
  split at h
  · exact .inl h
  · split at h
    · exact .inl h
    · rcases lookup_insert_cases h with ⟨rfl, rfl⟩ | ⟨-, h⟩
      · exact .inr ⟨rfl, rfl⟩
      · exact .inl h

theorem pending_scheduleNow {candidate : Candidate}
    (h : (tracker.scheduleNow timings clock now candidate).pending.lookup key = some probe) :
    tracker.pending.lookup key = some probe ∨ (probe.started = clock ∧ probe.candidate.key = key) := by
  have hscheduled := pending_scheduleProbe h
  exact hscheduled

theorem pending_foldl (candidates : List Candidate)
    (h : (candidates.foldl (scheduleNow timings clock now) tracker).pending.lookup key = some probe) :
    tracker.pending.lookup key = some probe ∨ (probe.started = clock ∧ probe.candidate.key = key) := by
  induction candidates generalizing tracker with
  | nil => exact .inl h
  | cons candidate candidates ih =>
    rcases ih h with h | h
    · exact pending_scheduleNow h
    · exact .inr h

end ProbeTracker

namespace Probing

variable {timings : ProbingTimings} {clock : Nat} {s : Probing} {event : ProbingEvent}
  {key : CandidateKey} {probe : Probe}

/-- A probe in flight was so before, or the event has started it. -/
theorem pending_track (h : (s.track timings clock event).pending.lookup key = some probe) :
    s.tracker.pending.lookup key = some probe ∨ (probe.started = clock ∧ probe.candidate.key = key) := by
  cases event with
  | candidate now candidate => exact ProbeTracker.pending_scheduleProbe h
  | refresh now candidate => exact ProbeTracker.pending_scheduleNow h
  | goodbye now announcement senderIp => exact ProbeTracker.pending_foldl _ h
  | joined now joined result => exact .inl (lookup_of_erase h)
  | aborted key => exact .inl (lookup_of_erase h)
  | prune now => exact .inl h
  | died => simp [track] at h

theorem pending_joined {now : Nat} {result : Except CoreError VerifiedPeer} :
    (s.track timings clock (.joined now key result)).pending.lookup key = none :=
  AList.lookup_erase _ _

variable [Texts]

/-- A probe in flight is listed under its candidate. -/
theorem candidate_key (history : List ProbingEvent)
    (h : (after timings history).tracker.pending.lookup key = some probe) : probe.candidate.key = key := by
  induction history with
  | nil => simp [after, empty] at h
  | cons event earlier ih =>
    rcases pending_track h with h | ⟨-, h⟩
    · exact ih h
    · exact h

/-- What an event makes of the record under an id. -/
theorem record_handle {id : String} {record : PeerRecord} (hl : s.record id = some record) :
    (s.handle timings clock event).record id =
      match s.registryEvent event with
      | some registered => record.next timings.discovery id registered
      | none => some record := by
  simp only [Probing.record, handle] at hl ⊢
  split
  · exact Discovery.lookup_handle_some hl _
  · exact hl

theorem record_joined {id : String} {record : PeerRecord} (hl : s.record id = some record) {now : Nat}
    {result : Except CoreError VerifiedPeer} (hprobe : s.tracker.pending.lookup key = some probe) :
    (s.handle timings clock (.joined now key result)).record id =
      record.next timings.discovery id (.probed now ⟨probe.candidate, result⟩) := by
  rw [record_handle hl, registryEvent, hprobe]
  rfl

theorem record_stray {id : String} {record : PeerRecord} (hl : s.record id = some record) {now : Nat}
    {result : Except CoreError VerifiedPeer} (hprobe : s.tracker.pending.lookup key = none) :
    (s.handle timings clock (.joined now key result)).record id = some record := by
  rw [record_handle hl, registryEvent, hprobe]
  rfl

end Probing

theorem key_eq_recordKey {id : String} {record : PeerRecord} {key : CandidateKey} (hid : key.instanceId = id)
    (hknown : record.known key.fingerprint key.address = true) :
    key = recordKey id record key.address.ip ∧ key.address.ip ∈ record.peer.hosts := by
  simp only [known, Bool.and_eq_true, beq_iff_eq] at hknown
  obtain ⟨⟨hfingerprint, hport⟩, hhost⟩ := hknown
  refine ⟨?_, by simpa using hhost⟩
  rw [recordKey, hfingerprint, hport, ← hid]

section Standing

variable [Texts] {timings : ProbingTimings} {id : String} {record record' : PeerRecord}
  {event : ProbingEvent} {earlier : List ProbingEvent} {t : Nat}

/-- What is known of a goodbye that the device has not answered: no older probe of the record is in
flight, and failures are counted for younger ones alone. -/
structure Standing (timings : ProbingTimings) (id : String) (history : List ProbingEvent) (t : Nat)
    (record : PeerRecord) : Prop where
  pending : ∀ host ∈ record.peer.hosts, ∀ probe,
    (Probing.after timings history).tracker.pending.lookup (recordKey id record host) = some probe →
    t ≤ probe.started
  failures : ∀ host ∈ record.peer.hosts,
    (record.failures.lookup ⟨host, record.peer.port⟩).getD 0 = 0 ∨
      FailedSince timings t (recordKey id record host) history ∨ record.peer.hosts = [host]

theorem goodbyesInForce_lt (history : List ProbingEvent) (h : t ∈ goodbyesInForce timings id history) :
    t < history.length := by
  induction history with
  | nil => cases h
  | cons event earlier ih =>
    rw [List.length_cons]
    have hearlier (h : t ∈ goodbyesInForce timings id earlier) : t < earlier.length + 1 := by
      have := ih h
      omega
    unfold goodbyesInForce at h
    split at h
    · cases h
    · split at h
      · split at h
        · rcases List.mem_cons.mp h with rfl | h
          · omega
          · exact hearlier h
        · exact hearlier h
      · split at h
        · split at h
          · cases h
          · exact hearlier h
        · exact hearlier h
      · exact hearlier h

/-- An event that leaves the peer and the counters of a record as they are. -/
theorem Standing.kept (h : Standing timings id earlier t record) (ht : t ≤ earlier.length)
    (hpeer : record'.peer = record.peer) (hfailures : record'.failures = record.failures) :
    Standing timings id (event :: earlier) t record' := by
  have hkey (host : String) : recordKey id record' host = recordKey id record host := by
    simp only [recordKey, hpeer]
  refine ⟨fun host hhost probe hprobe => ?_, fun host hhost => ?_⟩
  · rw [hpeer] at hhost
    rw [hkey] at hprobe
    rcases Probing.pending_track hprobe with hold | ⟨hstarted, -⟩
    · exact h.pending host hhost probe hold
    · omega
  · rw [hpeer] at hhost
    rw [hkey, hpeer, hfailures]
    rcases h.failures host hhost with hzero | hsince | hsingle
    · exact .inl hzero
    · exact .inr (.inl (.inr hsince))
    · exact .inr (.inr hsingle)

/-- The goodbye itself starts the probes that are in flight after it. -/
theorem standing_goodbye {now : Nat} {announcement : UdpAnnouncement} {senderIp : String}
    (hclean : CleanGoodbye (Probing.after timings earlier) (.goodbye now announcement senderIp))
    (hl : (Probing.after timings earlier).record id = some record)
    (hmatch : matchesGoodbye id record announcement senderIp = true)
    (hpeer : record'.peer = record.peer) (hfailures : record'.failures = record.failures) :
    Standing timings id (.goodbye now announcement senderIp :: earlier) earlier.length record' := by
  obtain rfl : announcement.instanceId = id := by
    simp only [matchesGoodbye, Bool.and_eq_true, beq_iff_eq] at hmatch
    exact hmatch.1
  obtain ⟨hidle, hcounts⟩ := hclean record hl hmatch
  have hkey (host : String) : recordKey announcement.instanceId record' host =
      recordKey announcement.instanceId record host := by
    simp only [recordKey, hpeer]
  refine ⟨fun host hhost probe hprobe => ?_, fun host hhost => ?_⟩
  · rw [hpeer] at hhost
    rw [hkey] at hprobe
    rcases Probing.pending_track hprobe with hold | ⟨hstarted, -⟩
    · rw [hidle host hhost] at hold
      cases hold
    · exact hstarted.ge
  · rw [hpeer] at hhost
    rw [hpeer, hfailures]
    rcases hcounts with hzero | ⟨only, honly⟩
    · exact .inl (hzero host hhost)
    · refine .inr (.inr ?_)
      rw [honly] at hhost ⊢
      rw [List.mem_singleton.mp hhost]

/-- A failed probe is counted at its host, and it is younger than the goodbye. -/
theorem Standing.failed (h : Standing timings id earlier t record) (ht : t ≤ earlier.length)
    {now : Nat} {key : CandidateKey} {e : CoreError} (he : e ≠ .cancelled) {probe : Probe}
    (hprobe : (Probing.after timings earlier).tracker.pending.lookup key = some probe)
    (hid : key.instanceId = id) (hknown : record.known key.fingerprint key.address = true) :
    FailedSince timings t key (.joined now key (.error e) :: earlier) ∧
      Standing timings id (.joined now key (.error e) :: earlier) t (record.failed key.address) := by
  obtain ⟨hkey, hhost⟩ := key_eq_recordKey hid hknown
  have hstarted : t ≤ probe.started := h.pending key.address.ip hhost probe (hkey ▸ hprobe)
  have hsince : FailedSince timings t key (.joined now key (.error e) :: earlier) :=
    .inl ⟨rfl, he, probe, hprobe, hstarted⟩
  refine ⟨hsince, fun host hhost probe hprobe => ?_, fun host hhost => ?_⟩
  · rcases Probing.pending_track hprobe with hold | ⟨hnew, -⟩
    · exact h.pending host hhost probe hold
    · omega
  · by_cases haddress : (⟨host, record.peer.port⟩ : SocketAddr) = key.address
    · have hsame : recordKey id record host = key := by
        rw [hkey, ← haddress]
      exact .inr (.inl (hsame ▸ hsince))
    · have hkept : (record.failed key.address).failures.lookup ⟨host, record.peer.port⟩ =
          record.failures.lookup ⟨host, record.peer.port⟩ := AList.lookup_insert_ne haddress
      have hport : (record.failed key.address).peer.port = record.peer.port := rfl
      rw [hport, hkept]
      rcases h.failures host hhost with hzero | hfailed | hsingle
      · exact .inl hzero
      · exact .inr (.inl (.inr hfailed))
      · exact .inr (.inr hsingle)

theorem standing_joined {now : Nat} {key : CandidateKey} {result : Except CoreError VerifiedPeer}
    (hl : (Probing.after timings earlier).record id = some record)
    (h : t ∈ goodbyesInForce timings id earlier → Standing timings id earlier t record)
    (hr : (Probing.after timings (.joined now key result :: earlier)).record id = some record')
    (ht : t ∈ goodbyesInForce timings id (.joined now key result :: earlier)) :
    Standing timings id (.joined now key result :: earlier) t record' := by
  rcases hprobe : (Probing.after timings earlier).tracker.pending.lookup key with _ | probe
  · obtain rfl := Option.some.inj ((Probing.record_stray hl hprobe).symm.trans hr)
    simp only [goodbyesInForce, hl, hprobe] at ht
    exact (h ht).kept (goodbyesInForce_lt earlier ht).le rfl rfl
  · have hnext := (Probing.record_joined hl hprobe).symm.trans hr
    simp only [goodbyesInForce, hl, hprobe] at ht
    split at ht
    · cases ht
    · next hother =>
      have hlt := (goodbyesInForce_lt earlier ht).le
      rcases result with e | v
      · by_cases he : e = .cancelled
        · subst he
          obtain rfl := Option.some.inj hnext
          exact (h ht).kept hlt rfl rfl
        · rw [next_failed he, missed] at hnext
          obtain rfl : probe.candidate.key = key := Probing.candidate_key earlier hprobe
          split at hnext
          · next hmine =>
            rw [Bool.and_eq_true, beq_iff_eq] at hmine
            split at hnext
            · cases hnext
            · obtain rfl := Option.some.inj hnext
              exact ((h ht).failed hlt he hprobe hmine.1 hmine.2).2
          · obtain rfl := Option.some.inj hnext
            exact (h ht).kept hlt rfl rfl
      · have hno : ¬record.recognizes id v = true := hother
        simp only [PeerRecord.next, if_neg hno] at hnext
        obtain rfl := Option.some.inj hnext
        exact (h ht).kept hlt rfl rfl

theorem standing_after (history : List ProbingEvent) (hclean : CleanGoodbyes timings history)
    (hl : (Probing.after timings history).record id = some record)
    (ht : t ∈ goodbyesInForce timings id history) : Standing timings id history t record := by
  induction history generalizing record with
  | nil => cases ht
  | cons event earlier ih =>
    obtain ⟨hevent, hclean⟩ := hclean
    rcases hbefore : (Probing.after timings earlier).record id with _ | old
    · simp [goodbyesInForce, hbefore] at ht
    · have hold := ih hclean hbefore
      have hhandle := (Probing.record_handle hbefore).symm.trans hl
      cases event with
      | goodbye now announcement senderIp =>
        obtain rfl := Option.some.inj hhandle
        simp only [goodbyesInForce, hbefore] at ht
        by_cases hmatch : matchesGoodbye id old announcement senderIp = true
        · rw [if_pos hmatch] at ht
          have hfarewelled : (if announcement.instanceId == id &&
              old.known announcement.fingerprint ⟨senderIp, announcement.port⟩ then
              { old with farewelled := true } else old) = { old with farewelled := true } := if_pos hmatch
          rw [hfarewelled]
          rcases List.mem_cons.mp ht with rfl | ht
          · exact standing_goodbye hevent hbefore hmatch rfl rfl
          · exact (hold ht).kept (goodbyesInForce_lt earlier ht).le rfl rfl
        · rw [if_neg hmatch] at ht
          have hkept : (if announcement.instanceId == id &&
              old.known announcement.fingerprint ⟨senderIp, announcement.port⟩ then
              { old with farewelled := true } else old) = old := if_neg hmatch
          rw [hkept]
          exact (hold ht).kept (goodbyesInForce_lt earlier ht).le rfl rfl
      | joined now key result => exact standing_joined hbefore hold hl ht
      | prune now =>
        simp only [goodbyesInForce, hbefore] at ht
        simp only [Probing.registryEvent, PeerRecord.next] at hhandle
        split at hhandle
        · obtain rfl := Option.some.inj hhandle
          exact (hold ht).kept (goodbyesInForce_lt earlier ht).le rfl rfl
        · cases hhandle
      | died => cases hhandle
      | candidate now candidate | refresh now candidate | aborted key =>
        obtain rfl := Option.some.inj hhandle
        simp only [goodbyesInForce, hbefore] at ht
        exact (hold ht).kept (goodbyesInForce_lt earlier ht).le rfl rfl

/-- Only a goodbye in force marks a record. -/
theorem inForce_of_farewelled (history : List ProbingEvent)
    (hl : (Probing.after timings history).record id = some record) (hbye : record.farewelled = true) :
    goodbyesInForce timings id history ≠ [] := by
  induction history generalizing record with
  | nil => simp [Probing.after, Probing.empty, Probing.record, Discovery.empty] at hl
  | cons event earlier ih =>
    rcases hbefore : (Probing.after timings earlier).record id with _ | old
    · exfalso
      have hfresh : Discovery.Fresh id record := by
        have hnew := hl
        simp only [Probing.after, Probing.record, Probing.handle] at hnew
        split at hnew
        · exact Discovery.lookup_handle_none hbefore hnew
        · exact absurd (hbefore.symm.trans hnew) (by simp)
      rw [hfresh.farewelled] at hbye
      cases hbye
    · have hhandle := (Probing.record_handle hbefore).symm.trans hl
      cases event with
      | goodbye now announcement senderIp =>
        obtain rfl := Option.some.inj hhandle
        simp only [goodbyesInForce, hbefore]
        split
        · simp
        · next hmatch =>
          have hkept : (if announcement.instanceId == id &&
              old.known announcement.fingerprint ⟨senderIp, announcement.port⟩ then
              { old with farewelled := true } else old) = old := if_neg hmatch
          rw [hkept] at hbye
          exact ih hbefore hbye
      | joined now key result =>
        rcases hprobe : (Probing.after timings earlier).tracker.pending.lookup key with _ | probe
        · obtain rfl := Option.some.inj ((Probing.record_stray hbefore hprobe).symm.trans hl)
          simp only [goodbyesInForce, hbefore, hprobe]
          exact ih hbefore hbye
        · have hnext := (Probing.record_joined hbefore hprobe).symm.trans hl
          simp only [goodbyesInForce, hbefore, hprobe]
          rcases result with e | v
          · have hold : old.farewelled = true := by
              by_cases he : e = .cancelled
              · subst he
                obtain rfl := Option.some.inj hnext
                exact hbye
              · rw [next_failed he, missed] at hnext
                split at hnext
                · split at hnext
                  · cases hnext
                  · obtain rfl := Option.some.inj hnext
                    exact hbye
                · obtain rfl := Option.some.inj hnext
                  exact hbye
            exact ih hbefore hold
          · simp only [PeerRecord.next] at hnext
            split at hnext
            · obtain rfl := Option.some.inj hnext
              cases hbye
            · next hother =>
              obtain rfl := Option.some.inj hnext
              have hno : ¬old.recognized id ⟨probe.candidate, .ok v⟩ = true := hother
              rw [if_neg hno]
              exact ih hbefore hbye
      | prune now =>
        simp only [goodbyesInForce, hbefore]
        simp only [Probing.registryEvent, PeerRecord.next] at hhandle
        split at hhandle
        · obtain rfl := Option.some.inj hhandle
          exact ih hbefore hbye
        · cases hhandle
      | died => cases hhandle
      | candidate now candidate | refresh now candidate | aborted key =>
        obtain rfl := Option.some.inj hhandle
        simp only [goodbyesInForce, hbefore]
        exact ih hbefore hbye

/-- A marked record is dropped only when its hosts have all failed since the goodbye. -/
theorem failedSince_of_dropped {history : List ProbingEvent} {now : Nat} {key : CandidateKey}
    {e : CoreError} (hclean : CleanGoodbyes timings history)
    (hl : (Probing.after timings history).record id = some record) (hbye : record.farewelled = true)
    (hdropped : (Probing.after timings (.joined now key (.error e) :: history)).record id = none)
    (ht : t ∈ goodbyesInForce timings id history) (host : String) (hhost : host ∈ record.peer.hosts) :
    FailedSince timings t (recordKey id record host) (.joined now key (.error e) :: history) := by
  have hlt := (goodbyesInForce_lt history ht).le
  rcases hprobe : (Probing.after timings history).tracker.pending.lookup key with _ | probe
  · have hkept := (Probing.record_stray hl hprobe).symm.trans hdropped
    cases hkept
  · have hnext := (Probing.record_joined hl hprobe).symm.trans hdropped
    by_cases he : e = .cancelled
    · subst he
      cases hnext
    · rw [next_failed he, missed] at hnext
      obtain rfl : probe.candidate.key = key := Probing.candidate_key history hprobe
      split at hnext
      case isFalse => cases hnext
      case isTrue hmine =>
        rw [Bool.and_eq_true, beq_iff_eq] at hmine
        have hstanding : FailedSince timings t probe.candidate.key
              (.joined now probe.candidate.key (.error e) :: history) ∧
            Standing timings id (.joined now probe.candidate.key (.error e) :: history) t
              (record.failed probe.candidate.key.address) :=
          (standing_after history hclean hl ht).failed hlt he hprobe hmine.1 hmine.2
        obtain ⟨hsince, hfailed⟩ := hstanding
        obtain ⟨hkey, hmember⟩ := key_eq_recordKey hmine.1 hmine.2
        split at hnext
        case isFalse => cases hnext
        case isTrue hremove =>
          have hmarked : (record.failed probe.candidate.key.address).farewelled = true := hbye
          rw [shouldRemove, if_pos hmarked] at hremove
          have hcounted := of_decide_eq_true (List.all_eq_true.mp hremove host hhost)
          rcases hfailed.failures host hhost with hzero | hfound | hsingle
          · exact absurd hcounted (by rw [hzero]; omega)
          · exact hfound
          · have honly : record.peer.hosts = [host] := hsingle
            rw [honly] at hmember
            obtain rfl := List.mem_singleton.mp hmember
            exact hkey ▸ hsince

end Standing

/-- When all goodbyes come clean, a goodbye drops a record only if all its hosts have failed to
answer probes started after it. -/
theorem goodbye_evicts_silent [Texts] (timings : ProbingTimings) (history : List ProbingEvent)
    (hclean : CleanGoodbyes timings history) (id : String) (record : PeerRecord)
    (hl : (Probing.after timings history).record id = some record) (hbye : record.farewelled = true)
    (now : Nat) (key : CandidateKey) (e : CoreError)
    (hdropped : (Probing.after timings (.joined now key (.error e) :: history)).record id = none) :
    goodbyesInForce timings id history ≠ [] ∧
    ∀ t ∈ goodbyesInForce timings id history, ∀ host ∈ record.peer.hosts,
      FailedSince timings t (recordKey id record host) (.joined now key (.error e) :: history) :=
  ⟨inForce_of_farewelled history hl hbye,
    fun _ ht host hhost => failedSince_of_dropped hclean hl hbye hdropped ht host hhost⟩

namespace Sample

def probing : ProbingTimings := ⟨⟨12000, 3⟩, 1000⟩

def silentDevice : String := "0123456789abcdef0123456789abcdef"

def byeFrom (now : Nat) (ip : String) : ProbingEvent := .goodbye now ⟨silentDevice, 41302, "00"⟩ ip

def probeAt (now : Nat) (address : SocketAddr) : ProbingEvent := .candidate now (candidateAt address)

def answerAt (now : Nat) (address : SocketAddr) : ProbingEvent :=
  .joined now (candidateAt address).key (.ok (verifiedAt address))

def silentAt (now : Nat) (address : SocketAddr) : ProbingEvent :=
  .joined now (candidateAt address).key (.error (.protocol "peer probe timed out"))

/-- One of two hosts misses a probe, and then somebody says goodbye. -/
def forgedGoodbye : List ProbingEvent :=
  [byeFrom 3000 "192.168.1.20", silentAt 2000 firstAddress, probeAt 2000 firstAddress,
    answerAt 0 secondAddress, probeAt 0 secondAddress, answerAt 0 firstAddress, probeAt 0 firstAddress]

def realGoodbye : List ProbingEvent :=
  [byeFrom 3000 "192.168.1.20", answerAt 0 firstAddress, probeAt 0 firstAddress]

end Sample

attribute [local instance] Sample.asciiTexts

open Sample in
theorem goodbye_evicts_silent_sample :
    FailedSince probing 2 (candidateAt firstAddress).key (silentAt 3001 firstAddress :: realGoodbye) := by
  have hclean : CleanGoodbyes probing realGoodbye := by
    refine ⟨fun record hl hmatch => ?_, trivial, trivial, trivial⟩
    obtain rfl := Option.some.inj hl
    exact ⟨fun host hhost => by obtain rfl := List.mem_singleton.mp hhost; rfl, .inr ⟨_, rfl⟩⟩
  have hevicted := (goodbye_evicts_silent probing realGoodbye hclean silentDevice _ rfl rfl 3001
    (candidateAt firstAddress).key (.protocol "peer probe timed out") rfl).2
  exact hevicted 2 (List.mem_singleton_self _) "192.168.1.20" (List.mem_singleton_self _)

open Sample in
/-- The probe that the goodbye has started at the first host is still in flight when the record is
dropped. -/
theorem goodbye_evicts_answering :
    ∃ record, (Probing.after probing forgedGoodbye).record silentDevice = some record ∧
      record.farewelled = true ∧
      (Probing.after probing (silentAt 3001 secondAddress :: forgedGoodbye)).record silentDevice = none ∧
      6 ∈ goodbyesInForce probing silentDevice forgedGoodbye ∧ "192.168.1.20" ∈ record.peer.hosts ∧
      ¬FailedSince probing 6 (recordKey silentDevice record "192.168.1.20")
        (silentAt 3001 secondAddress :: forgedGoodbye) := by
  refine ⟨_, rfl, rfl, rfl, List.mem_singleton_self _, List.mem_cons_self, ?_⟩
  rintro (⟨hkey, -⟩ | hgoodbye | ⟨-, -, probe, hprobe, hstarted⟩ | h | h | h | h | h | h)
  · exact absurd hkey (by decide)
  · exact hgoodbye
  · obtain rfl := Option.some.inj hprobe
    exact absurd hstarted (by decide)
  all_goals exact h

end InkHole
