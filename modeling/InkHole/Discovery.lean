import InkHole.Protocol
import InkHole.Tables

/-! The table of the devices seen on the local network: what a probe, a goodbye and the
passing of time do to it, and the snapshot that is published of it. -/

namespace InkHole

/-- The lower case of a whole text, and the text that shows an error. -/
class Texts where
  lowercase : String → String
  display : CoreError → String

def trim (s : String) : String := String.ofList (trimEndMatches isWhitespace (s.toList.dropWhile isWhitespace))

def toAsciiLowercase (s : String) : String := String.ofList (s.toList.map Char.toLower)

/-- An IP address is kept as the text it is printed as. -/
structure SocketAddr where
  ip : String
  port : Nat
  deriving DecidableEq, Repr

structure CandidateKey where
  instanceId : String
  address : SocketAddr
  fingerprint : String
  deriving DecidableEq, Repr

structure Candidate where
  key : CandidateKey
  serviceName : String
  announceReplyPort : Option Nat
  deriving DecidableEq, Repr

structure VerifiedPeer where
  address : SocketAddr
  instanceId : String
  name : String
  capabilities : List String
  publicKey : String
  certificateFingerprint : String
  deriving DecidableEq, Repr

structure ProbeOutcome where
  candidate : Candidate
  result : Except CoreError VerifiedPeer

structure UdpAnnouncement where
  instanceId : String
  port : Nat
  fingerprint : String
  deriving DecidableEq, Repr

structure DiscoveredPeer where
  instanceId : String
  name : String
  host : String
  hosts : List String
  port : Nat
  capabilities : List String
  fingerprint : String
  publicKey : String
  serviceName : String
  deriving DecidableEq, Repr

structure PeerRecord where
  peer : DiscoveredPeer
  lastVerified : Nat
  failures : Table SocketAddr Nat
  farewelled : Bool

abbrev PeerRecords := Table String PeerRecord

def maxDiscoveredPeers : Nat := 256

structure UdpDiscoveryTimings where
  staleAfter : Nat := 12000
  maxFailures : Nat := 3

namespace PeerRecord

def verified (record : PeerRecord) (v : VerifiedPeer) (now : Nat) : PeerRecord where
  peer := { record.peer with
    hosts := if record.peer.hosts.contains v.address.ip then record.peer.hosts
      else (record.peer.hosts ++ [v.address.ip]).insertionSort (· ≤ ·)
    host := v.address.ip
    port := v.address.port
    name := v.name
    capabilities := v.capabilities }
  lastVerified := now
  failures := record.failures.erase v.address
  farewelled := false

/-- The counter of failures has eight bits and stays at its last value. -/
def failed (record : PeerRecord) (address : SocketAddr) : PeerRecord :=
  { record with failures := record.failures.insert address (min ((record.failures.lookup address).getD 0 + 1) 255) }

def known (record : PeerRecord) (fingerprint : String) (address : SocketAddr) : Bool :=
  record.peer.fingerprint == fingerprint && record.peer.port == address.port &&
    record.peer.hosts.contains address.ip

def allFailed (record : PeerRecord) (n : Nat) : Bool :=
  record.peer.hosts.all fun host => decide (n ≤ (record.failures.lookup ⟨host, record.peer.port⟩).getD 0)

def shouldRemove (record : PeerRecord) (maxFailures : Nat) : Bool :=
  if record.farewelled then record.allFailed 1 else record.allFailed maxFailures

end PeerRecord

/-- Whether there is something new to publish, and the table. -/
def applyProbeOutcome (now : Nat) (records : PeerRecords) (outcome : ProbeOutcome) (maxFailures : Nat) :
    Bool × PeerRecords :=
  match outcome.result with
  | .ok v =>
    match records.lookup v.instanceId with
    | some record =>
      if record.peer.fingerprint != v.certificateFingerprint || record.peer.publicKey != v.publicKey then
        (false, records)
      else
        ((record.verified v now).peer != record.peer, records.insert v.instanceId (record.verified v now))
    | none =>
      if maxDiscoveredPeers ≤ records.entries.length then (false, records)
      else (true, records.insert v.instanceId
        { peer :=
            { instanceId := v.instanceId
              name := v.name
              host := v.address.ip
              hosts := [v.address.ip]
              port := v.address.port
              capabilities := v.capabilities
              fingerprint := v.certificateFingerprint
              publicKey := v.publicKey
              serviceName := outcome.candidate.serviceName }
          lastVerified := now
          failures := ∅
          farewelled := false })
  | .error .cancelled => (false, records)
  | .error _ =>
    let key := outcome.candidate.key
    match records.lookup key.instanceId with
    | some record =>
      if record.known key.fingerprint key.address then
        if (record.failed key.address).shouldRemove maxFailures then (true, records.erase key.instanceId)
        else (false, records.insert key.instanceId (record.failed key.address))
      else (false, records)
    | none => (false, records)

def recordCandidates (record : PeerRecord) : List Candidate :=
  (if record.peer.hosts.isEmpty then [record.peer.host] else record.peer.hosts).map fun host =>
    ⟨⟨record.peer.instanceId, ⟨host, record.peer.port⟩, record.peer.fingerprint⟩, record.peer.serviceName, none⟩

/-- The candidates to be probed at once, and the table. -/
def demoteGoodbye (records : PeerRecords) (goodbye : UdpAnnouncement) (senderIp : String) :
    List Candidate × PeerRecords :=
  match records.lookup goodbye.instanceId with
  | some record =>
    if record.known goodbye.fingerprint ⟨senderIp, goodbye.port⟩ then
      (recordCandidates { record with farewelled := true },
        records.insert goodbye.instanceId { record with farewelled := true })
    else ([], records)
  | none => ([], records)

section Published

variable [Texts]

def publishSnapshot (records : PeerRecords) : List DiscoveredPeer :=
  (records.values.map PeerRecord.peer).insertionSort fun left right =>
    Texts.lowercase left.name < Texts.lowercase right.name ∨
      Texts.lowercase left.name = Texts.lowercase right.name ∧ left.instanceId ≤ right.instanceId

/-- The table of one session, and the peers last published of it. -/
structure Discovery where
  records : PeerRecords
  snapshot : List DiscoveredPeer

inductive DiscoveryEvent where
  | probed (now : Nat) (outcome : ProbeOutcome)
  | goodbye (announcement : UdpAnnouncement) (senderIp : String)
  | prune (now : Nat)
  | died

namespace Discovery

def empty : Discovery := ⟨∅, []⟩

def publish (records : PeerRecords) : Discovery := ⟨records, publishSnapshot records⟩

/-- Nobody else sees the table itself, so an event and the snapshot it publishes are one step. -/
def handle (timings : UdpDiscoveryTimings) (d : Discovery) : DiscoveryEvent → Discovery
  | .probed now outcome =>
    let (changed, records) := applyProbeOutcome now d.records outcome timings.maxFailures
    if changed then publish records else { d with records := records }
  | .goodbye announcement senderIp => { d with records := (demoteGoodbye d.records announcement senderIp).2 }
  | .prune now =>
    let records := Table.retain d.records fun record => decide (now - record.lastVerified < timings.staleAfter)
    if records.entries.length != d.records.entries.length then publish records else { d with records := records }
  | .died => if d.records.entries.isEmpty then d else publish ∅

def peer (d : Discovery) (instanceId : String) : Option DiscoveredPeer :=
  d.snapshot.find? (·.instanceId == instanceId)

end Discovery

end Published

/-! What is known of a device by its record never changes while the record is there. -/

namespace PeerRecord

structure SameDevice (record record' : PeerRecord) : Prop where
  instanceId : record'.peer.instanceId = record.peer.instanceId
  fingerprint : record'.peer.fingerprint = record.peer.fingerprint
  publicKey : record'.peer.publicKey = record.peer.publicKey

theorem SameDevice.refl (record : PeerRecord) : SameDevice record record := ⟨rfl, rfl, rfl⟩

theorem sameDevice_verified (record : PeerRecord) (v : VerifiedPeer) (now : Nat) :
    SameDevice record (record.verified v now) := ⟨rfl, rfl, rfl⟩

theorem sameDevice_failed (record : PeerRecord) (address : SocketAddr) :
    SameDevice record (record.failed address) := ⟨rfl, rfl, rfl⟩

/-- The record of a device that a probe has just found. -/
structure Introduces (v : VerifiedPeer) (id : String) (record : PeerRecord) : Prop where
  id_eq : v.instanceId = id
  instanceId : record.peer.instanceId = id
  fingerprint : record.peer.fingerprint = v.certificateFingerprint
  publicKey : record.peer.publicKey = v.publicKey

end PeerRecord

open PeerRecord Table

variable {records : PeerRecords} {id : String} {record : PeerRecord}

theorem lookup_applyProbeOutcome {now maxFailures : Nat} {outcome : ProbeOutcome}
    (h : (applyProbeOutcome now records outcome maxFailures).2.lookup id = some record) :
    (∃ old, records.lookup id = some old ∧ SameDevice old record) ∨
      ∃ v, outcome.result = .ok v ∧ Introduces v id record ∧ records.lookup id = none := by
  have hkept : records.lookup id = some record →
      (∃ old, records.lookup id = some old ∧ SameDevice old record) ∨
        ∃ v, outcome.result = .ok v ∧ Introduces v id record ∧ records.lookup id = none :=
    fun h => .inl ⟨record, h, .refl record⟩
  unfold applyProbeOutcome at h
  split at h
  · next v hv =>
    split at h
    · next old hold =>
      split at h
      · exact hkept h
      · rcases lookup_insert_cases h with ⟨rfl, rfl⟩ | ⟨-, h⟩
        · exact .inl ⟨old, hold, sameDevice_verified old v now⟩
        · exact hkept h
    · next hnone =>
      split at h
      · exact hkept h
      · rcases lookup_insert_cases h with ⟨rfl, rfl⟩ | ⟨-, h⟩
        · exact .inr ⟨v, hv, ⟨rfl, rfl, rfl, rfl⟩, hnone⟩
        · exact hkept h
  · exact hkept h
  · dsimp only at h
    split at h
    · next old hold =>
      split at h
      · split at h
        · exact hkept (lookup_of_erase h)
        · rcases lookup_insert_cases h with ⟨rfl, rfl⟩ | ⟨-, h⟩
          · exact .inl ⟨old, hold, sameDevice_failed old _⟩
          · exact hkept h
      · exact hkept h
    · exact hkept h

theorem lookup_demoteGoodbye {goodbye : UdpAnnouncement} {senderIp : String}
    (h : (demoteGoodbye records goodbye senderIp).2.lookup id = some record) :
    ∃ old, records.lookup id = some old ∧ SameDevice old record ∧ record.peer = old.peer := by
  unfold demoteGoodbye at h
  split at h
  · next old hold =>
    split at h
    · rcases lookup_insert_cases h with ⟨rfl, rfl⟩ | ⟨-, h⟩
      · exact ⟨old, hold, ⟨rfl, rfl, rfl⟩, rfl⟩
      · exact ⟨record, h, .refl record, rfl⟩
    · exact ⟨record, h, .refl record, rfl⟩
  · exact ⟨record, h, .refl record, rfl⟩

namespace Discovery

variable {d : Discovery} {timings : UdpDiscoveryTimings} {event : DiscoveryEvent}

/-- Each record stands under the id of its device, and the snapshot is that of the table. -/
structure Sound (d : Discovery) : Prop where
  keyed : ∀ id record, d.records.lookup id = some record → record.peer.instanceId = id
  published : ∀ p, p ∈ d.snapshot ↔ ∃ id record, d.records.lookup id = some record ∧ record.peer = p

theorem sound_empty : empty.Sound := by
  constructor
  · intro id record h
    simp [empty] at h
  · intro p
    simp [empty]

/-- A record that shows the same peer as before needs no new snapshot. -/
theorem Sound.published_insert (h : d.Sound) {old : PeerRecord} (hold : d.records.lookup id = some old)
    (hpeer : record.peer = old.peer) (p : DiscoveredPeer) :
    p ∈ d.snapshot ↔ ∃ key r, (d.records.insert id record).lookup key = some r ∧ r.peer = p := by
  rw [h.published]
  constructor
  · rintro ⟨key, r, hr, rfl⟩
    by_cases hk : key = id
    · subst hk
      obtain rfl := Option.some.inj (hold.symm.trans hr)
      exact ⟨key, record, AList.lookup_insert _, hpeer⟩
    · exact ⟨key, r, (AList.lookup_insert_ne hk).trans hr, rfl⟩
  · rintro ⟨key, r, hr, rfl⟩
    rcases lookup_insert_cases hr with ⟨rfl, rfl⟩ | ⟨-, hr⟩
    · exact ⟨key, old, hold, hpeer.symm⟩
    · exact ⟨key, r, hr, rfl⟩

/-- What a session finds in the snapshot is in the table. -/
theorem Sound.record_of_peer (h : d.Sound) {p : DiscoveredPeer} (hp : d.peer id = some p) :
    ∃ record, d.records.lookup id = some record ∧ record.peer = p := by
  have hmem := List.mem_of_find?_eq_some hp
  have hid : p.instanceId = id := by simpa using List.find?_some hp
  obtain ⟨key, record, hr, rfl⟩ := (h.published p).mp hmem
  have hkey := h.keyed key record hr
  exact ⟨record, hid ▸ hkey.symm ▸ hr, rfl⟩

theorem published_of_unchanged (h : d.Sound) {now maxFailures : Nat} {outcome : ProbeOutcome}
    (hc : (applyProbeOutcome now d.records outcome maxFailures).1 = false) (p : DiscoveredPeer) :
    p ∈ d.snapshot ↔ ∃ id record,
      (applyProbeOutcome now d.records outcome maxFailures).2.lookup id = some record ∧ record.peer = p := by
  unfold applyProbeOutcome at hc ⊢
  split at hc
  · next v hv =>
    split at hc
    · next old hold =>
      split at hc
      · next hne => simpa [hv, hold, hne] using h.published p
      · next hne =>
        have hpeer : (old.verified v now).peer = old.peer := by simpa using hc
        simpa only [hv, hold, if_neg hne] using h.published_insert hold hpeer p
    · next hold =>
      split at hc
      · next hfull => simpa only [hv, hold, if_pos hfull] using h.published p
      · cases hc
  · next hv => simpa only [hv] using h.published p
  · next e hv he =>
    dsimp only at hc ⊢
    split at hc
    · next old hold =>
      split at hc
      · next hk =>
        split at hc
        · cases hc
        · next hr =>
          have hpeer : (old.failed outcome.candidate.key.address).peer = old.peer := rfl
          simpa only [he, hold, if_pos hk, if_neg hr] using h.published_insert hold hpeer p
      · next hk => simpa only [he, hold, if_neg hk] using h.published p
    · next hold => simpa only [he, hold] using h.published p

variable [Texts]

/-- A record is the one of before, or comes from a probe of a device that had none. -/
theorem lookup_handle (h : (d.handle timings event).records.lookup id = some record) :
    (∃ old, d.records.lookup id = some old ∧ SameDevice old record) ∨
      ∃ now outcome v, event = .probed now outcome ∧ outcome.result = .ok v ∧ Introduces v id record ∧
        d.records.lookup id = none := by
  cases event with
  | probed now outcome =>
    have h : (applyProbeOutcome now d.records outcome timings.maxFailures).2.lookup id = some record := by
      simp only [handle] at h
      split at h <;> exact h
    rcases lookup_applyProbeOutcome h with h | ⟨v, hv, hi, hnone⟩
    · exact .inl h
    · exact .inr ⟨now, outcome, v, rfl, hv, hi, hnone⟩
  | goodbye announcement senderIp =>
    obtain ⟨old, hold, hsame, -⟩ := lookup_demoteGoodbye h
    exact .inl ⟨old, hold, hsame⟩
  | prune now =>
    have h : (Table.retain d.records fun record =>
        decide (now - record.lastVerified < timings.staleAfter)).lookup id = some record := by
      simp only [handle] at h
      split at h <;> exact h
    exact .inl ⟨record, lookup_of_retain h, .refl record⟩
  | died =>
    simp only [handle] at h
    split at h
    · exact .inl ⟨record, h, .refl record⟩
    · simp [publish] at h

theorem mem_publishSnapshot {p : DiscoveredPeer} :
    p ∈ publishSnapshot records ↔ ∃ id record, records.lookup id = some record ∧ record.peer = p := by
  simp only [publishSnapshot, List.mem_insertionSort, List.mem_map, mem_values]
  constructor
  · rintro ⟨record, ⟨id, hlook⟩, rfl⟩
    exact ⟨id, record, hlook, rfl⟩
  · rintro ⟨id, record, hlook, rfl⟩
    exact ⟨record, ⟨id, hlook⟩, rfl⟩

theorem keyed_handle (h : d.Sound) (hl : (d.handle timings event).records.lookup id = some record) :
    record.peer.instanceId = id := by
  rcases lookup_handle hl with ⟨old, hold, hsame⟩ | ⟨_, _, v, _, _, hi, _⟩
  · rw [hsame.instanceId, h.keyed id old hold]
  · exact hi.instanceId

theorem Sound.handle (h : d.Sound) (timings : UdpDiscoveryTimings) (event : DiscoveryEvent) :
    (d.handle timings event).Sound := by
  refine ⟨fun id record => keyed_handle h, fun p => ?_⟩
  cases event with
  | probed now outcome =>
    simp only [Discovery.handle]
    split
    · exact mem_publishSnapshot
    · next hc => exact published_of_unchanged h (by simpa using hc) p
  | goodbye announcement senderIp =>
    simp only [Discovery.handle, demoteGoodbye]
    split
    · next old hold =>
      have hpeer : ({ old with farewelled := true } : PeerRecord).peer = old.peer := rfl
      split
      · exact h.published_insert hold hpeer p
      · exact h.published p
    · exact h.published p
  | prune now =>
    simp only [Discovery.handle]
    split
    · exact mem_publishSnapshot
    · next hc =>
      -- nothing was dropped when the lengths agree
      have hlength : (Table.retain d.records fun record =>
          decide (now - record.lastVerified < timings.staleAfter)).entries.length = d.records.entries.length := by
        simpa using hc
      have hkept : (Table.retain d.records fun record =>
          decide (now - record.lastVerified < timings.staleAfter)) = d.records :=
        AList.ext (List.filter_sublist.eq_of_length hlength)
      rw [hkept]
      exact h.published p
  | died =>
    simp only [Discovery.handle]
    split
    · exact h.published p
    · exact mem_publishSnapshot

end Discovery

end InkHole
