import InkHole.Discovery
import Mathlib.Data.String.Basic

/-! The table of devices over whole runs: what a record shows, and when a failed probe may drop it.
The events of a run are listed with the newest first. -/

namespace InkHole

open PeerRecord Table

namespace PeerRecord

/-- Whether a probe has found the device of a record. -/
def recognizes (id : String) (record : PeerRecord) (v : VerifiedPeer) : Bool :=
  v.instanceId == id && record.peer.fingerprint == v.certificateFingerprint &&
    record.peer.publicKey == v.publicKey

/-- What a failed probe leaves of a record. -/
def missed (timings : UdpDiscoveryTimings) (id : String) (record : PeerRecord) (key : CandidateKey) :
    Option PeerRecord :=
  if key.instanceId == id && record.known key.fingerprint key.address then
    if (record.failed key.address).shouldRemove timings.maxFailures then none
    else some (record.failed key.address)
  else some record

/-- What an event makes of the record that stands under an id. -/
def next (timings : UdpDiscoveryTimings) (id : String) (record : PeerRecord) :
    DiscoveryEvent → Option PeerRecord
  | .probed now outcome =>
    match outcome.result with
    | .ok v => some (if record.recognizes id v then record.verified v now else record)
    | .error .cancelled => some record
    | .error _ => record.missed timings id outcome.candidate.key
  | .goodbye announcement senderIp =>
    some (if announcement.instanceId == id &&
        record.known announcement.fingerprint ⟨senderIp, announcement.port⟩ then
      { record with farewelled := true } else record)
  | .prune now => if now - record.lastVerified < timings.staleAfter then some record else none
  | .died => none

theorem next_failed {timings : UdpDiscoveryTimings} {id : String} {record : PeerRecord} {now : Nat}
    {candidate : Candidate} {e : CoreError} (he : e ≠ .cancelled) :
    record.next timings id (.probed now ⟨candidate, .error e⟩) = record.missed timings id candidate.key := by
  cases e <;> first | rfl | exact absurd rfl he

end PeerRecord

section Lookup

variable {records : PeerRecords} {id : String} {record : PeerRecord}

theorem lookup_insert_if {key : String} {value : PeerRecord} :
    (records.insert key value).lookup id = if id = key then some value else records.lookup id := by
  split
  · next h => subst h; exact AList.lookup_insert _
  · next h => exact AList.lookup_insert_ne h

theorem lookup_erase_if {key : String} :
    (records.erase key).lookup id = if id = key then none else records.lookup id := by
  split
  · next h => subst h; exact AList.lookup_erase _ _
  · next h => exact AList.lookup_erase_ne h

theorem recognizes_iff {v : VerifiedPeer} : record.recognizes id v = true ↔
    v.instanceId = id ∧ record.peer.fingerprint = v.certificateFingerprint ∧
      record.peer.publicKey = v.publicKey := by
  simp [recognizes, and_assoc]

theorem lookup_verified (hl : records.lookup id = some record) (now maxFailures : Nat)
    (candidate : Candidate) (v : VerifiedPeer) :
    (applyProbeOutcome now records ⟨candidate, .ok v⟩ maxFailures).2.lookup id =
      some (if record.recognizes id v then record.verified v now else record) := by
  simp only [applyProbeOutcome]
  by_cases hid : v.instanceId = id
  · subst hid
    simp only [hl]
    by_cases hsame : record.recognizes v.instanceId v = true
    · have hdevice := recognizes_iff.mp hsame
      rw [if_pos hsame, if_neg (by simp [hdevice])]
      exact AList.lookup_insert _
    · rw [if_neg hsame, if_pos]
      · exact hl
      · by_contra hno
        exact hsame (recognizes_iff.mpr ⟨rfl, by simpa using hno⟩)
  · have hno : ¬record.recognizes id v = true := fun h => hid (recognizes_iff.mp h).1
    have hkept (value : PeerRecord) : (records.insert v.instanceId value).lookup id = some record := by
      rw [lookup_insert_if, if_neg (Ne.symm hid), hl]
    rw [if_neg hno]
    split
    · split
      · exact hl
      · exact hkept _
    · split
      · exact hl
      · exact hkept _

theorem applyProbeOutcome_failed {now maxFailures : Nat} {candidate : Candidate} {e : CoreError}
    (he : e ≠ .cancelled) (old : PeerRecord) (hold : records.lookup candidate.key.instanceId = some old) :
    (applyProbeOutcome now records ⟨candidate, .error e⟩ maxFailures).2 =
      if old.known candidate.key.fingerprint candidate.key.address then
        if (old.failed candidate.key.address).shouldRemove maxFailures then
          records.erase candidate.key.instanceId
        else records.insert candidate.key.instanceId (old.failed candidate.key.address)
      else records := by
  have happly : applyProbeOutcome now records ⟨candidate, .error e⟩ maxFailures =
      if old.known candidate.key.fingerprint candidate.key.address then
        if (old.failed candidate.key.address).shouldRemove maxFailures then
          (true, records.erase candidate.key.instanceId)
        else (false, records.insert candidate.key.instanceId (old.failed candidate.key.address))
      else (false, records) := by
    cases e <;> first | exact absurd rfl he | simp only [applyProbeOutcome, hold]
  rw [happly]
  split
  · split <;> rfl
  · rfl

theorem lookup_missed (hl : records.lookup id = some record) (timings : UdpDiscoveryTimings)
    (now : Nat) (candidate : Candidate) {e : CoreError} (he : e ≠ .cancelled) :
    (applyProbeOutcome now records ⟨candidate, .error e⟩ timings.maxFailures).2.lookup id =
      record.missed timings id candidate.key := by
  by_cases hid : candidate.key.instanceId = id
  · subst hid
    rw [applyProbeOutcome_failed he record hl, missed, beq_self_eq_true, Bool.true_and]
    split
    · split
      · exact AList.lookup_erase _ _
      · exact AList.lookup_insert _
    · exact hl
  · have hkept : record.missed timings id candidate.key = some record := by simp [missed, hid]
    rw [hkept]
    cases hold : records.lookup candidate.key.instanceId with
    | none =>
      cases e <;> first | exact absurd rfl he | simpa only [applyProbeOutcome, hold] using hl
    | some old =>
      rw [applyProbeOutcome_failed he old hold]
      split
      · split
        · rw [lookup_erase_if, if_neg (Ne.symm hid), hl]
        · rw [lookup_insert_if, if_neg (Ne.symm hid), hl]
      · exact hl

theorem lookup_probed (hl : records.lookup id = some record) (timings : UdpDiscoveryTimings)
    (now : Nat) (outcome : ProbeOutcome) :
    (applyProbeOutcome now records outcome timings.maxFailures).2.lookup id =
      record.next timings id (.probed now outcome) := by
  obtain ⟨candidate, e | v⟩ := outcome
  · by_cases he : e = .cancelled
    · subst he
      exact hl
    · rw [next_failed he]
      exact lookup_missed hl timings now candidate he
  · exact lookup_verified hl now timings.maxFailures candidate v

theorem lookup_goodbye (hl : records.lookup id = some record) (timings : UdpDiscoveryTimings)
    (announcement : UdpAnnouncement) (senderIp : String) :
    (demoteGoodbye records announcement senderIp).2.lookup id =
      record.next timings id (.goodbye announcement senderIp) := by
  simp only [demoteGoodbye, PeerRecord.next]
  by_cases hid : announcement.instanceId = id
  · subst hid
    simp only [hl, beq_self_eq_true, Bool.true_and]
    split
    · exact AList.lookup_insert _
    · exact hl
  · rw [if_neg (by simp [hid])]
    split
    · split
      · rw [lookup_insert_if, if_neg (Ne.symm hid), hl]
      · exact hl
    · exact hl

theorem length_probed (h : records.entries.length ≤ maxDiscoveredPeers) (now maxFailures : Nat)
    (outcome : ProbeOutcome) :
    (applyProbeOutcome now records outcome maxFailures).2.entries.length ≤ maxDiscoveredPeers := by
  obtain ⟨candidate, e | v⟩ := outcome
  · by_cases he : e = .cancelled
    · subst he
      exact h
    · cases hold : records.lookup candidate.key.instanceId with
      | none => cases e <;> first | exact absurd rfl he | simpa only [applyProbeOutcome, hold] using h
      | some old =>
        rw [applyProbeOutcome_failed he old hold]
        split
        · split
          · exact Nat.le_trans (Table.length_erase_le _ _) h
          · exact (Table.length_insert_of_some hold).trans_le h
        · exact h
  · simp only [applyProbeOutcome]
    split
    · next old hold =>
      split
      · exact h
      · exact (Table.length_insert_of_some hold).trans_le h
    · split
      · exact h
      · next hroom => exact Nat.le_trans (Table.length_insert_le _ _ _) (by omega)

end Lookup

namespace Discovery

variable [Texts] {timings : UdpDiscoveryTimings} {d : Discovery} {id : String} {record : PeerRecord}

theorem records_probed (now : Nat) (outcome : ProbeOutcome) :
    (d.handle timings (.probed now outcome)).records =
      (applyProbeOutcome now d.records outcome timings.maxFailures).2 := by
  simp only [handle]
  split <;> rfl

theorem records_prune (now : Nat) :
    (d.handle timings (.prune now)).records =
      Table.retain d.records fun record => decide (now - record.lastVerified < timings.staleAfter) := by
  simp only [handle]
  split <;> rfl

theorem records_died : (d.handle timings .died).records = ∅ := by
  simp only [handle]
  split
  · next hempty =>
    have hentries : d.records.entries = [] := List.isEmpty_iff.mp hempty
    exact AList.ext hentries
  · rfl

theorem length_handle (h : d.records.entries.length ≤ maxDiscoveredPeers) (event : DiscoveryEvent) :
    (d.handle timings event).records.entries.length ≤ maxDiscoveredPeers := by
  cases event with
  | probed now outcome =>
    rw [records_probed]
    exact length_probed h now timings.maxFailures outcome
  | goodbye announcement senderIp =>
    simp only [handle, demoteGoodbye]
    split
    · next old hold =>
      split
      · exact (Table.length_insert_of_some hold).trans_le h
      · exact h
    · exact h
  | prune now =>
    rw [records_prune]
    exact Nat.le_trans (List.length_filter_le _ _) h
  | died => rw [records_died]; exact Nat.zero_le _

/-- A record is alone in what becomes of it. -/
theorem lookup_handle_some (hl : d.records.lookup id = some record) (event : DiscoveryEvent) :
    (d.handle timings event).records.lookup id = record.next timings id event := by
  cases event with
  | probed now outcome =>
    rw [records_probed]
    exact lookup_probed hl timings now outcome
  | goodbye announcement senderIp => exact lookup_goodbye hl timings announcement senderIp
  | prune now =>
    rw [records_prune, Table.lookup_retain hl]
    simp only [PeerRecord.next, decide_eq_true_eq]
  | died => rw [records_died]; rfl

/-- A record that has just come says nothing about failures. -/
structure Fresh (id : String) (record : PeerRecord) : Prop where
  instanceId : record.peer.instanceId = id
  hosts : record.peer.hosts = [record.peer.host]
  failures : record.failures = ∅
  farewelled : record.farewelled = false

theorem lookup_handle_none (hl : d.records.lookup id = none) {event : DiscoveryEvent}
    (hr : (d.handle timings event).records.lookup id = some record) : Fresh id record := by
  cases event with
  | probed now outcome =>
    rw [records_probed] at hr
    rcases lookup_applyProbeOutcome hr with ⟨old, hold, _⟩ | ⟨v, hv, hi, _⟩
    · rw [hl] at hold
      cases hold
    · obtain ⟨candidate, result⟩ := outcome
      obtain rfl : result = .ok v := hv
      obtain rfl := hi.id_eq
      simp only [applyProbeOutcome, hl] at hr
      split at hr
      · rw [hl] at hr
        cases hr
      · rw [AList.lookup_insert] at hr
        obtain rfl := Option.some.inj hr
        exact ⟨rfl, rfl, rfl, rfl⟩
  | goodbye announcement senderIp =>
    obtain ⟨old, hold, -⟩ := lookup_demoteGoodbye hr
    rw [hl] at hold
    cases hold
  | prune now =>
    rw [records_prune] at hr
    rw [Table.lookup_of_retain hr] at hl
    cases hl
  | died => rw [records_died] at hr; simp at hr

/-- The table after the events of a run. -/
def after (timings : UdpDiscoveryTimings) : List DiscoveryEvent → Discovery
  | [] => empty
  | event :: earlier => (after timings earlier).handle timings event

end Discovery

namespace PeerRecord

/-- Whether a probe has reached the device of a record at an address. -/
def answered (id : String) (record : PeerRecord) (address : SocketAddr) (outcome : ProbeOutcome) : Bool :=
  match outcome.result with
  | .ok v => record.recognizes id v && v.address == address
  | .error _ => false

/-- Whether a probe of a record has failed at an address. -/
def unanswered (id : String) (record : PeerRecord) (address : SocketAddr) (outcome : ProbeOutcome) : Bool :=
  match outcome.result with
  | .ok _ => false
  | .error .cancelled => false
  | .error _ => outcome.candidate.key == ⟨id, address, record.peer.fingerprint⟩

def recognized (id : String) (record : PeerRecord) (outcome : ProbeOutcome) : Bool :=
  match outcome.result with
  | .ok v => record.recognizes id v
  | .error _ => false

end PeerRecord

section Records

variable {timings : UdpDiscoveryTimings} {id : String} {record record' : PeerRecord}

theorem hosts_verified (h : record.peer.hosts.Pairwise (· < ·)) (v : VerifiedPeer) (now : Nat) :
    v.address.ip ∈ (record.verified v now).peer.hosts ∧
      (record.verified v now).peer.hosts.Pairwise (· < ·) := by
  simp only [verified]
  split
  · next hcontains => exact ⟨by simpa using hcontains, h⟩
  · next hnew =>
    have hnotin : v.address.ip ∉ record.peer.hosts := by simpa using hnew
    have hnodup : (record.peer.hosts ++ [v.address.ip]).Nodup := by
      have hbefore : record.peer.hosts.Nodup := h.imp ne_of_lt
      rw [List.nodup_append]
      refine ⟨hbefore, List.nodup_singleton _, fun a ha b hb hab => hnotin ?_⟩
      rw [← List.mem_singleton.mp hb, ← hab]
      exact ha
    have hsorted := List.pairwise_insertionSort (· ≤ ·) (record.peer.hosts ++ [v.address.ip])
    have hdistinct := (List.perm_insertionSort (· ≤ ·) _).nodup_iff.mpr hnodup
    exact ⟨by simp, (hsorted.and hdistinct).imp fun h => lt_of_le_of_ne h.1 h.2⟩

theorem unanswered_known {candidate : Candidate} {e : CoreError} (he : e ≠ .cancelled)
    (hid : candidate.key.instanceId = id)
    (hknown : record.known candidate.key.fingerprint candidate.key.address = true) :
    record.unanswered id candidate.key.address ⟨candidate, .error e⟩ = true := by
  have hfingerprint : record.peer.fingerprint = candidate.key.fingerprint := by
    simp only [known, Bool.and_eq_true, beq_iff_eq] at hknown
    exact hknown.1.1
  have hkey : candidate.key = ⟨id, candidate.key.address, record.peer.fingerprint⟩ := by
    rw [← hid, hfingerprint]
  cases e <;> first | exact absurd rfl he | exact beq_iff_eq.mpr hkey

theorem sameDevice_next {event : DiscoveryEvent} (h : record.next timings id event = some record') :
    SameDevice record record' := by
  cases event with
  | probed now outcome =>
    obtain ⟨candidate, e | v⟩ := outcome
    · by_cases he : e = .cancelled
      · subst he
        obtain rfl := Option.some.inj h
        exact .refl record
      · rw [next_failed he, missed] at h
        split at h
        · split at h
          · cases h
          · obtain rfl := Option.some.inj h
            exact sameDevice_failed record _
        · obtain rfl := Option.some.inj h
          exact .refl record
    · obtain rfl := Option.some.inj h
      split
      · exact sameDevice_verified record v now
      · exact .refl record
  | goodbye announcement senderIp =>
    obtain rfl := Option.some.inj h
    split
    · exact ⟨rfl, rfl, rfl⟩
    · exact .refl record
  | prune now =>
    simp only [PeerRecord.next] at h
    split at h
    · obtain rfl := Option.some.inj h
      exact .refl record
    · cases h
  | died => cases h

end Records

section Runs

variable [Texts] (timings : UdpDiscoveryTimings) (id : String)

/-- How many probes of the device have failed at an address since one has last reached it there,
and since the record has come. -/
def failuresSince (address : SocketAddr) : List DiscoveryEvent → Nat
  | [] => 0
  | event :: earlier =>
    match (Discovery.after timings earlier).records.lookup id with
    | none => 0
    | some record =>
      match event with
      | .probed _ outcome =>
        if record.answered id address outcome then 0
        else if record.unanswered id address outcome then failuresSince address earlier + 1
        else failuresSince address earlier
      | _ => failuresSince address earlier

/-- Whether the device has said goodbye since a probe has last reached it. -/
def saidGoodbye : List DiscoveryEvent → Bool
  | [] => false
  | event :: earlier =>
    match (Discovery.after timings earlier).records.lookup id with
    | none => false
    | some record =>
      match event with
      | .probed _ outcome => !record.recognized id outcome && saidGoodbye earlier
      | .goodbye announcement senderIp =>
        (announcement.instanceId == id &&
          record.known announcement.fingerprint ⟨senderIp, announcement.port⟩) || saidGoodbye earlier
      | _ => saidGoodbye earlier

/-- What a record says of the run so far. -/
structure Accounts (events : List DiscoveryEvent) (record : PeerRecord) : Prop where
  instanceId : record.peer.instanceId = id
  host : record.peer.host ∈ record.peer.hosts
  hosts : record.peer.hosts.Pairwise (· < ·)
  failures (address : SocketAddr) :
    (record.failures.lookup address).getD 0 ≤ failuresSince timings id address events
  farewelled : record.farewelled = saidGoodbye timings id events

variable {timings id} {earlier : List DiscoveryEvent} {record record' : PeerRecord}

theorem accounts_fresh {event : DiscoveryEvent}
    (hl : (Discovery.after timings earlier).records.lookup id = none) (h : Discovery.Fresh id record) :
    Accounts timings id (event :: earlier) record := by
  refine ⟨h.instanceId, ?_, ?_, fun address => ?_, ?_⟩
  · rw [h.hosts]; exact List.mem_singleton_self _
  · rw [h.hosts]; exact List.pairwise_singleton _ _
  · rw [h.failures]; simp
  · rw [h.farewelled]; simp only [saidGoodbye, hl]

theorem failures_le_failuresSince {outcome : ProbeOutcome} {now : Nat} {address : SocketAddr}
    (hl : (Discovery.after timings earlier).records.lookup id = some record)
    (hanswered : record.answered id address outcome = false) :
    failuresSince timings id address earlier ≤
      failuresSince timings id address (.probed now outcome :: earlier) := by
  simp only [failuresSince, hl, hanswered, Bool.false_eq_true, if_false]
  split <;> omega

theorem accounts_verified {now : Nat} {candidate : Candidate} {v : VerifiedPeer}
    (hl : (Discovery.after timings earlier).records.lookup id = some record)
    (h : Accounts timings id earlier record) (hsame : record.recognizes id v = true) :
    Accounts timings id (.probed now ⟨candidate, .ok v⟩ :: earlier) (record.verified v now) := by
  obtain ⟨hip, hsorted⟩ := hosts_verified h.hosts v now
  refine ⟨h.instanceId, hip, hsorted, fun address => ?_, ?_⟩
  · by_cases haddress : address = v.address
    · subst haddress
      simp [verified]
    · have hkept : (record.verified v now).failures.lookup address = record.failures.lookup address :=
        AList.lookup_erase_ne haddress
      rw [hkept]
      have hanswered : record.answered id address ⟨candidate, .ok v⟩ = false := by
        simp [answered, Ne.symm haddress]
      exact Nat.le_trans (h.failures address) (failures_le_failuresSince hl hanswered)
  · simp [saidGoodbye, hl, recognized, hsame, verified]

theorem accounts_kept {event : DiscoveryEvent}
    (h : Accounts timings id earlier record)
    (hfailures : ∀ address, failuresSince timings id address earlier ≤
      failuresSince timings id address (event :: earlier))
    (hgoodbye : saidGoodbye timings id (event :: earlier) = saidGoodbye timings id earlier) :
    Accounts timings id (event :: earlier) record :=
  ⟨h.instanceId, h.host, h.hosts, fun address => Nat.le_trans (h.failures address) (hfailures address),
    h.farewelled.trans hgoodbye.symm⟩

theorem accounts_failed {now : Nat} {candidate : Candidate} {e : CoreError} (he : e ≠ .cancelled)
    (hl : (Discovery.after timings earlier).records.lookup id = some record)
    (h : Accounts timings id earlier record) (hid : candidate.key.instanceId = id)
    (hknown : record.known candidate.key.fingerprint candidate.key.address = true) :
    Accounts timings id (.probed now ⟨candidate, .error e⟩ :: earlier)
      (record.failed candidate.key.address) := by
  refine ⟨h.instanceId, h.host, h.hosts, fun address => ?_, ?_⟩
  · by_cases haddress : address = candidate.key.address
    · subst haddress
      have hcount : failuresSince timings id candidate.key.address
          (.probed now ⟨candidate, .error e⟩ :: earlier) =
            failuresSince timings id candidate.key.address earlier + 1 := by
        have hanswered : record.answered id candidate.key.address ⟨candidate, .error e⟩ = false := rfl
        simp only [failuresSince, hl, hanswered, unanswered_known he hid hknown, Bool.false_eq_true,
          if_false, if_true]
      have hold := h.failures candidate.key.address
      simp only [failed, AList.lookup_insert, Option.getD_some]
      omega
    · have hkept : (record.failed candidate.key.address).failures.lookup address =
          record.failures.lookup address := AList.lookup_insert_ne haddress
      rw [hkept]
      exact Nat.le_trans (h.failures address) (failures_le_failuresSince hl rfl)
  · simpa [saidGoodbye, hl, recognized, failed] using h.farewelled

theorem accounts_next {event : DiscoveryEvent}
    (hl : (Discovery.after timings earlier).records.lookup id = some record)
    (h : Accounts timings id earlier record) (hr : record.next timings id event = some record') :
    Accounts timings id (event :: earlier) record' := by
  cases event with
  | probed now outcome =>
    obtain ⟨candidate, e | v⟩ := outcome
    · have hsame : Accounts timings id (.probed now ⟨candidate, .error e⟩ :: earlier) record := by
        refine accounts_kept h (fun address => failures_le_failuresSince hl rfl) ?_
        simp [saidGoodbye, hl, recognized]
      by_cases he : e = .cancelled
      · subst he
        obtain rfl := Option.some.inj hr
        exact hsame
      · rw [next_failed he, missed] at hr
        split at hr
        case isTrue hmine =>
          rw [Bool.and_eq_true, beq_iff_eq] at hmine
          split at hr
          · cases hr
          · obtain rfl := Option.some.inj hr
            exact accounts_failed he hl h hmine.1 hmine.2
        case isFalse =>
          obtain rfl := Option.some.inj hr
          exact hsame
    · obtain rfl := Option.some.inj hr
      split
      · next hsame => exact accounts_verified hl h hsame
      · next hother =>
        have hno : record.recognizes id v = false := by simpa using hother
        refine accounts_kept h (fun address => failures_le_failuresSince hl ?_) ?_
        · simp [answered, hno]
        · simp [saidGoodbye, hl, recognized, hno]
  | goodbye announcement senderIp =>
    obtain rfl := Option.some.inj hr
    have hsince (address : SocketAddr) : failuresSince timings id address
        (.goodbye announcement senderIp :: earlier) = failuresSince timings id address earlier := by
      simp only [failuresSince, hl]
    split
    · next hmatch =>
      refine ⟨h.instanceId, h.host, h.hosts, fun address => ?_, ?_⟩
      · exact hsince address ▸ h.failures address
      · simp only [saidGoodbye, hl, hmatch, Bool.true_or]
    · next hmatch =>
      refine accounts_kept h (fun address => (hsince address).ge) ?_
      simp only [saidGoodbye, hl, Bool.eq_false_iff.mpr hmatch, Bool.false_or]
  | prune now =>
    simp only [PeerRecord.next] at hr
    split at hr
    · obtain rfl := Option.some.inj hr
      exact accounts_kept h (fun address => by simp only [failuresSince, hl]; omega)
        (by simp only [saidGoodbye, hl])
    · cases hr
  | died => cases hr

/-- Whatever happened, the records say no more than what happened. -/
theorem accounts_after (events : List DiscoveryEvent)
    (hl : (Discovery.after timings events).records.lookup id = some record) :
    Accounts timings id events record := by
  induction events generalizing record with
  | nil => simp [Discovery.after, Discovery.empty] at hl
  | cons event earlier ih =>
    rcases hbefore : (Discovery.after timings earlier).records.lookup id with _ | old
    · exact accounts_fresh hbefore (Discovery.lookup_handle_none hbefore hl)
    · have hnext := (Discovery.lookup_handle_some hbefore event).symm.trans hl
      exact accounts_next hbefore (ih hbefore) hnext

theorem length_after (events : List DiscoveryEvent) :
    (Discovery.after timings events).records.entries.length ≤ maxDiscoveredPeers := by
  induction events with
  | nil => exact Nat.zero_le _
  | cons event earlier ih => exact Discovery.length_handle ih event

/-- A probe drops a record only when all its addresses have failed often enough. -/
theorem failures_of_dropped {now : Nat} {outcome : ProbeOutcome}
    (hl : (Discovery.after timings earlier).records.lookup id = some record)
    (hdropped : record.next timings id (.probed now outcome) = none) (host : String)
    (hhost : host ∈ record.peer.hosts) :
    (if saidGoodbye timings id earlier then 1 else timings.maxFailures) ≤
      failuresSince timings id ⟨host, record.peer.port⟩ (.probed now outcome :: earlier) := by
  obtain ⟨candidate, e | v⟩ := outcome
  · by_cases he : e = .cancelled
    · subst he
      cases hdropped
    · rw [next_failed he, missed] at hdropped
      split at hdropped
      case isTrue hmine =>
        rw [Bool.and_eq_true, beq_iff_eq] at hmine
        have haccounts := accounts_after earlier hl
        have hfailed : Accounts timings id (.probed now ⟨candidate, .error e⟩ :: earlier)
            (record.failed candidate.key.address) := accounts_failed he hl haccounts hmine.1 hmine.2
        have hcount := hfailed.failures ⟨host, record.peer.port⟩
        split at hdropped
        case isTrue hremove =>
          rw [← haccounts.farewelled]
          unfold shouldRemove at hremove
          split at hremove
          · next hbye =>
            have hbye : record.farewelled = true := hbye
            have hall := List.all_eq_true.mp hremove host hhost
            rw [if_pos hbye]
            exact Nat.le_trans (of_decide_eq_true hall) hcount
          · next hbye =>
            have hbye : ¬record.farewelled = true := hbye
            have hall := List.all_eq_true.mp hremove host hhost
            rw [if_neg hbye]
            exact Nat.le_trans (of_decide_eq_true hall) hcount
        case isFalse => cases hdropped
      case isFalse => cases hdropped
  · cases hdropped

/-- What holds of the table of devices after all runs. -/
theorem registry_invariant (timings : UdpDiscoveryTimings) (events : List DiscoveryEvent) :
    (Discovery.after timings events).records.entries.length ≤ maxDiscoveredPeers ∧
    ∀ id record, (Discovery.after timings events).records.lookup id = some record →
      record.peer.instanceId = id ∧ record.peer.host ∈ record.peer.hosts ∧
      record.peer.hosts.Pairwise (· < ·) ∧
      (∀ event record',
        (Discovery.after timings (event :: events)).records.lookup id = some record' →
        record'.peer.fingerprint = record.peer.fingerprint ∧
          record'.peer.publicKey = record.peer.publicKey) ∧
      ∀ now outcome,
        (Discovery.after timings (.probed now outcome :: events)).records.lookup id = none →
        ∀ host ∈ record.peer.hosts,
          (if saidGoodbye timings id events then 1 else timings.maxFailures) ≤
            failuresSince timings id ⟨host, record.peer.port⟩ (.probed now outcome :: events) := by
  refine ⟨length_after events, fun id record hl => ?_⟩
  have haccounts := accounts_after events hl
  refine ⟨haccounts.instanceId, haccounts.host, haccounts.hosts, fun event record' hr => ?_,
    fun now outcome hdropped host hhost => ?_⟩
  · have hnext := (Discovery.lookup_handle_some hl event).symm.trans hr
    have hsame := sameDevice_next hnext
    exact ⟨hsame.fingerprint, hsame.publicKey⟩
  · have hnext := (Discovery.lookup_handle_some hl (.probed now outcome)).symm.trans hdropped
    exact failures_of_dropped hl hnext host hhost

end Runs

namespace Sample

/-- The names of the sample are in ASCII. -/
abbrev asciiTexts : Texts := ⟨toAsciiLowercase, fun _ => "peer probe timed out"⟩

def firstAddress : SocketAddr := ⟨"192.168.1.20", 41302⟩
def secondAddress : SocketAddr := ⟨"192.168.2.20", 41302⟩

def candidateAt (address : SocketAddr) : Candidate :=
  ⟨⟨"0123456789abcdef0123456789abcdef", address, "00"⟩, "udp-v4", none⟩

def verifiedAt (address : SocketAddr) : VerifiedPeer :=
  ⟨address, "0123456789abcdef0123456789abcdef", "farewell", [], "public-key", "00"⟩

def foundAt (now : Nat) (address : SocketAddr) : DiscoveryEvent :=
  .probed now ⟨candidateAt address, .ok (verifiedAt address)⟩

def lostAt (now : Nat) (address : SocketAddr) : DiscoveryEvent :=
  .probed now ⟨candidateAt address, .error (.protocol "peer probe timed out")⟩

end Sample

attribute [local instance] Sample.asciiTexts

open Sample in
theorem registry_invariant_sample :
    3 ≤ failuresSince ⟨12000, 3⟩ "0123456789abcdef0123456789abcdef" firstAddress
      [lostAt 3 firstAddress, lostAt 2 firstAddress, lostAt 1 firstAddress, foundAt 0 firstAddress] := by
  have hinvariant := (registry_invariant ⟨12000, 3⟩
    [lostAt 2 firstAddress, lostAt 1 firstAddress, foundAt 0 firstAddress]).2
  obtain ⟨record, hrecord, hhosts, hport⟩ : ∃ record, (Discovery.after ⟨12000, 3⟩ [lostAt 2 firstAddress,
      lostAt 1 firstAddress, foundAt 0 firstAddress]).records.lookup
        "0123456789abcdef0123456789abcdef" = some record ∧
      record.peer.hosts = ["192.168.1.20"] ∧ record.peer.port = 41302 := ⟨_, rfl, rfl, rfl⟩
  have hdropped := (hinvariant _ record hrecord).2.2.2.2 3
    ⟨candidateAt firstAddress, .error (.protocol "peer probe timed out")⟩ rfl "192.168.1.20"
    (by rw [hhosts]; exact List.mem_singleton_self _)
  rw [hport] at hdropped
  exact hdropped

end InkHole
