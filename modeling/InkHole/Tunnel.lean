import InkHole.Codes
import InkHole.Secrets
import InkHole.Transport

/-! The records of a tunnel arrive in their order or not at all. -/

set_option linter.unusedSectionVars false

namespace InkHole

open Codes

def maxDatagram : Nat := 64 * 1024
def nonceSize : Nat := 24
def tagSize : Nat := 16
def maxRecord : Nat := nonceSize + tagSize + maxDatagram

/-- The counter of a record in the last 8 bytes of its nonce. -/
def recordNonce (counter : Nat) : Bytes := List.replicate (nonceSize - 8) 0 ++ bigEndian 8 counter

@[simp] theorem length_recordNonce (counter : Nat) : (recordNonce counter).length = nonceSize := by
  simp [recordNonce, nonceSize]

theorem recordNonce_injective {c d : Nat} (hc : c ≤ u64Max) (hd : d ≤ u64Max)
    (h : recordNonce c = recordNonce d) : c = d := by
  have hbytes := List.append_cancel_left h
  rw [u64Max] at hc hd
  exact bigEndian_injective (by omega) (by omega) hbytes

structure RecordWriter where
  key : Bytes
  counter : Nat

structure RecordReader where
  key : Bytes
  counter : Nat

/-- How a record is put on the stream. -/
def Sealed.record (s : Sealed) : Bytes :=
  bigEndian 4 (s.nonce.length + s.ciphertext.length) ++ (s.nonce ++ s.ciphertext)

section Records

variable [SecretBox]

namespace RecordWriter

def new (key : Bytes) : RecordWriter := ⟨key, 0⟩

/-- The nonce that the encryption is called with, if it is, and what comes of the call. -/
structure Outcome where
  nonce : Option Bytes
  result : Except CoreError Sealed
  writer : RecordWriter

def writeRecord (w : RecordWriter) (payload : Bytes) : Outcome :=
  if maxDatagram < payload.length ∨ w.counter = u64Max then
    ⟨none, .error (.protocol "UDP tunnel record is too large"), w⟩
  else
    let nonce := recordNonce w.counter
    let result : Except CoreError Sealed :=
      match SecretBox.encrypt w.key nonce payload with
      | none => .error (.crypto "encrypt UDP tunnel record failed")
      | some ciphertext =>
        if maxRecord < nonceSize + ciphertext.length then .error (.protocol "UDP tunnel record exceeded limit")
        else .ok ⟨w.key, nonce, payload, ciphertext⟩
    ⟨some nonce, result, { w with counter := w.counter + 1 }⟩

/-- What the task of a writer has done: the nonces it has used, the records it has written, and how
it has ended. -/
structure Written where
  nonces : List Bytes
  records : List Sealed
  ending : Except CoreError RecordWriter

/-- The task writes what is queued until a record fails. -/
def writeAll (w : RecordWriter) : List Bytes → Written
  | [] => ⟨[], [], .ok w⟩
  | payload :: rest =>
    let outcome := w.writeRecord payload
    match outcome.result with
    | .error e => ⟨outcome.nonce.toList, [], .error e⟩
    | .ok s =>
      let written := writeAll outcome.writer rest
      ⟨outcome.nonce.toList ++ written.nonces, s :: written.records, written.ending⟩

end RecordWriter

namespace RecordReader

def new (key : Bytes) : RecordReader := ⟨key, 0⟩

def read (r : RecordReader) (s : Incoming) : Except CoreError (Bytes × RecordReader × Incoming) := do
  let (header, s) ← s.readExact 4
  let recordLen := ofBigEndian header
  ensure (decide (nonceSize + tagSize ≤ recordLen ∧ recordLen ≤ maxRecord))
    (.protocol s!"invalid UDP tunnel record length: {recordLen}")
  let (nonce, s) ← s.readExact nonceSize
  ensure (!((nonce.take (nonceSize - 8)).any (· != 0) || ofBigEndian (nonce.drop (nonceSize - 8)) != r.counter))
    (.protocol "UDP tunnel nonce is out of order")
  let (ciphertext, s) ← s.readExact (recordLen - nonceSize)
  match SecretBox.decrypt r.key nonce ciphertext with
  | none => throw (.crypto "decrypt UDP tunnel record failed")
  | some payload => return (payload, { r with counter := (r.counter + 1) % 2 ^ 64 }, s)

/-- The task hands on what it reads until a read fails. Here it makes a number of reads at most. -/
def readAll : Nat → RecordReader → Incoming → List Bytes × Option CoreError
  | 0, _, _ => ([], none)
  | n + 1, r, s =>
    match r.read s with
    | .error e => ([], some e)
    | .ok (payload, r, s) => (payload :: (readAll n r s).1, (readAll n r s).2)

end RecordReader

/-! The writer uses each nonce once. -/

namespace RecordWriter

variable {w : RecordWriter} {payload : Bytes} {s : Sealed}

theorem writeRecord_ok (h : (w.writeRecord payload).result = .ok s) :
    s.Valid ∧ s.key = w.key ∧ s.nonce = recordNonce w.counter ∧ s.plaintext = payload ∧
      payload.length ≤ maxDatagram ∧ w.counter ≠ u64Max ∧
      (w.writeRecord payload).nonce = some (recordNonce w.counter) ∧
      (w.writeRecord payload).writer = { w with counter := w.counter + 1 } := by
  rw [writeRecord] at h ⊢
  by_cases hrefused : maxDatagram < payload.length ∨ w.counter = u64Max
  · rw [if_pos hrefused] at h
    cases h
  · rw [if_neg hrefused] at h ⊢
    obtain ⟨hsize, hcounter⟩ := not_or.mp hrefused
    simp only at h
    cases hc : SecretBox.encrypt w.key (recordNonce w.counter) payload with
    | none =>
      rw [hc] at h
      cases h
    | some ciphertext =>
      rw [hc] at h
      simp only at h
      split at h
      · cases h
      · obtain rfl := Except.ok.inj h
        exact ⟨hc, rfl, rfl, rfl, by omega, hcounter, rfl, rfl⟩

theorem writeRecord_nonce {nonce : Bytes} (h : (w.writeRecord payload).nonce = some nonce) :
    nonce = recordNonce w.counter ∧ w.counter ≠ u64Max := by
  rw [writeRecord] at h
  by_cases hrefused : maxDatagram < payload.length ∨ w.counter = u64Max
  · rw [if_pos hrefused] at h
    cases h
  · rw [if_neg hrefused] at h
    exact ⟨(Option.some.inj h).symm, (not_or.mp hrefused).2⟩

/-- The records are those of the payloads in their order, each under the next nonce. -/
theorem writeAll_records (w : RecordWriter) (payloads : List Bytes) :
    (∀ s ∈ (w.writeAll payloads).records, s.Valid ∧ s.key = w.key ∧ s.plaintext.length ≤ maxDatagram) ∧
      ((w.writeAll payloads).records.map Sealed.plaintext) <+: payloads ∧
      (∀ i (h : i < (w.writeAll payloads).records.length),
        (w.writeAll payloads).records[i].nonce = recordNonce (w.counter + i)) ∧
      (w.counter ≤ u64Max → w.counter + (w.writeAll payloads).records.length ≤ u64Max) := by
  induction payloads generalizing w with
  | nil => simp [writeAll]
  | cons payload rest ih =>
    rw [writeAll]
    cases hr : (w.writeRecord payload).result with
    | error e => simp
    | ok s =>
      obtain ⟨hvalid, hkey, hnonce, hplain, hsize, hcounter, -, hwriter⟩ := writeRecord_ok hr
      have hrest := ih (w.writeRecord payload).writer
      rw [hwriter] at hrest
      simp only [hwriter]
      obtain ⟨hall, hfront, hnonces, hbound⟩ := hrest
      refine ⟨List.forall_mem_cons.mpr ⟨⟨hvalid, hkey, hplain ▸ hsize⟩, hall⟩, ?_, ?_, ?_⟩
      · rw [List.map_cons, hplain]
        exact List.cons_prefix_cons.mpr ⟨rfl, hfront⟩
      · intro i hi
        cases i with
        | zero => exact hnonce
        | succ i =>
          rw [List.getElem_cons_succ, hnonces i (Nat.lt_of_succ_lt_succ hi)]
          congr 1
          simp only
          omega
      · intro hle
        rw [List.length_cons]
        simp only at hbound
        omega

theorem writeAll_nonces (w : RecordWriter) (payloads : List Bytes) (hle : w.counter ≤ u64Max) :
    (w.writeAll payloads).nonces.Nodup ∧
      ∀ nonce ∈ (w.writeAll payloads).nonces, ∃ c, w.counter ≤ c ∧ c ≤ u64Max ∧ nonce = recordNonce c := by
  induction payloads generalizing w with
  | nil => simp [writeAll]
  | cons payload rest ih =>
    have hown : ∀ nonce ∈ (w.writeRecord payload).nonce.toList,
        ∃ c, w.counter ≤ c ∧ c ≤ u64Max ∧ nonce = recordNonce c := by
      intro nonce hn
      obtain ⟨rfl, -⟩ := writeRecord_nonce (Option.mem_toList.mp hn)
      exact ⟨w.counter, le_rfl, hle, rfl⟩
    rw [writeAll]
    cases hr : (w.writeRecord payload).result with
    | error e =>
      exact ⟨by cases (w.writeRecord payload).nonce <;> simp, hown⟩
    | ok s =>
      obtain ⟨-, -, -, -, -, hcounter, hnonce, hwriter⟩ := writeRecord_ok hr
      have hrest := ih (w.writeRecord payload).writer (by rw [hwriter]; simp only; omega)
      rw [hwriter] at hrest
      simp only [hwriter, hnonce, Option.toList_some, List.singleton_append] at hown ⊢
      obtain ⟨hnodup, hlater⟩ := hrest
      refine ⟨List.nodup_cons.mpr ⟨fun hmem => ?_, hnodup⟩, ?_⟩
      · obtain ⟨c, hlow, hhigh, hsame⟩ := hlater _ hmem
        have heq := recordNonce_injective hle hhigh hsame
        simp only at hlow
        omega
      · intro nonce hn
        rcases List.mem_cons.mp hn with rfl | hn
        · exact ⟨w.counter, le_rfl, hle, rfl⟩
        · obtain ⟨c, hlow, hhigh, hsame⟩ := hlater nonce hn
          exact ⟨c, Nat.le_of_succ_le hlow, hhigh, hsame⟩

end RecordWriter

/-! What the reader takes from a stream. -/

theorem recordNonce_of_parts {nonce : Bytes} {counter : Nat} (hlength : nonce.length = nonceSize)
    (hzeros : (nonce.take (nonceSize - 8)).any (· != 0) = false)
    (hcounter : ofBigEndian (nonce.drop (nonceSize - 8)) = counter) : nonce = recordNonce counter := by
  have hfront : nonce.take (nonceSize - 8) = List.replicate (nonceSize - 8) 0 := by
    refine List.eq_replicate_iff.mpr ⟨by rw [List.length_take, hlength]; rfl, fun b hb => ?_⟩
    simpa using List.any_eq_false.mp hzeros b hb
  have hback : bigEndian 8 counter = nonce.drop (nonceSize - 8) := by
    have hlen : (nonce.drop (nonceSize - 8)).length = 8 := by rw [List.length_drop, hlength]; rfl
    have hread := bigEndian_ofBigEndian (nonce.drop (nonceSize - 8))
    rwa [hlen, hcounter] at hread
  rw [recordNonce, hback, ← hfront, List.take_append_drop]

theorem parts_recordNonce {counter : Nat} (hcounter : counter ≤ u64Max) :
    ((recordNonce counter).take (nonceSize - 8)).any (· != 0) = false ∧
      ofBigEndian ((recordNonce counter).drop (nonceSize - 8)) = counter := by
  have hzeros : (List.replicate (nonceSize - 8) (0 : UInt8)).length = nonceSize - 8 := List.length_replicate
  rw [u64Max] at hcounter
  rw [recordNonce, List.take_left' hzeros, List.drop_left' hzeros, ofBigEndian_bigEndian,
    Nat.mod_eq_of_lt (by omega)]
  exact ⟨by decide, rfl⟩

namespace RecordReader

variable {r r' : RecordReader} {s s' : Incoming} {payload : Bytes}

/-- A record that is accepted lies in the stream under the next nonce, and opens. -/
theorem read_ok (h : r.read s = .ok (payload, r', s')) :
    ∃ header ciphertext, s.bytes = header ++ (recordNonce r.counter ++ ciphertext) ++ s'.bytes ∧
      header.length = 4 ∧ SecretBox.decrypt r.key (recordNonce r.counter) ciphertext = some payload ∧
      r' = { r with counter := (r.counter + 1) % 2 ^ 64 } := by
  rw [read] at h
  obtain ⟨⟨header, s₁⟩, hheader, h⟩ := bind_eq_ok.mp h
  obtain ⟨-, h⟩ := ensure_bind.mp h
  obtain ⟨⟨nonce, s₂⟩, hnonce, h⟩ := bind_eq_ok.mp h
  obtain ⟨horder, h⟩ := ensure_bind.mp h
  obtain ⟨⟨ciphertext, s₃⟩, hciphertext, h⟩ := bind_eq_ok.mp h
  simp only [Bool.not_eq_true', Bool.or_eq_false_iff, bne_eq_false_iff_eq] at horder
  obtain ⟨hbytes, hfour, -⟩ := Incoming.readExact_ok hheader
  obtain ⟨hbytes₁, hsize, -⟩ := Incoming.readExact_ok hnonce
  obtain ⟨hbytes₂, -, -⟩ := Incoming.readExact_ok hciphertext
  obtain rfl := recordNonce_of_parts hsize horder.1 horder.2
  simp only at h
  cases hd : SecretBox.decrypt r.key (recordNonce r.counter) ciphertext with
  | none =>
    rw [hd] at h
    cases h
  | some plaintext =>
    rw [hd] at h
    simp only [pure, Except.pure, Except.ok.injEq, Prod.mk.injEq] at h
    obtain ⟨rfl, rfl, rfl⟩ := h
    refine ⟨header, ciphertext, ?_, hfour, hd, rfl⟩
    rw [hbytes, hbytes₁, hbytes₂, List.append_assoc, List.append_assoc]

/-- Each read takes bytes from the stream, so that the reads come to an end with it. -/
theorem readAll_ends {n : Nat} (hn : s.bytes.length < n) : (readAll n r s).2.isSome := by
  induction n generalizing r s with
  | zero => omega
  | succ n ih =>
    rw [readAll]
    cases hr : r.read s with
    | error e => rfl
    | ok triple =>
      obtain ⟨payload, r', s'⟩ := triple
      obtain ⟨header, ciphertext, hbytes, hfour, -⟩ := read_ok hr
      have hlength := congrArg List.length hbytes
      simp only [List.length_append, hfour] at hlength
      exact ih (by omega)

/-- The records are read in their order: what is accepted next is the next one. -/
theorem readAll_front {records : List Sealed} {n : Nat}
    (hnonces : ∀ i (h : i < records.length), records[i].nonce = recordNonce i)
    (hbound : records.length ≤ u64Max) (hcounter : r.counter ≤ records.length)
    (hopened : ∀ counter ciphertext payload, (recordNonce counter ++ ciphertext) <:+: s.bytes →
      SecretBox.decrypt r.key (recordNonce counter) ciphertext = some payload →
        ⟨r.key, recordNonce counter, payload, ciphertext⟩ ∈ records) :
    (readAll n r s).1 <+: (records.drop r.counter).map Sealed.plaintext := by
  induction n generalizing r s with
  | zero => exact List.nil_prefix
  | succ n ih =>
    rw [readAll]
    cases hr : r.read s with
    | error e => exact List.nil_prefix
    | ok triple =>
      obtain ⟨payload, r', s'⟩ := triple
      obtain ⟨header, ciphertext, hbytes, -, hdecrypt, rfl⟩ := read_ok hr
      have hinfix : (recordNonce r.counter ++ ciphertext) <:+: s.bytes := ⟨header, s'.bytes, hbytes.symm⟩
      obtain ⟨i, hi, hget⟩ := List.mem_iff_getElem.mp (hopened _ _ _ hinfix hdecrypt)
      have hsame := hnonces i hi
      rw [hget] at hsame
      obtain rfl := recordNonce_injective (hcounter.trans hbound) (by omega) hsame
      have hnext : (r.counter + 1) % 2 ^ 64 = r.counter + 1 := by
        rw [u64Max] at hbound
        exact Nat.mod_eq_of_lt (by omega)
      have hrest := ih (r := ⟨r.key, r.counter + 1⟩) (s := s') hi fun counter ciphertext payload hin =>
        hopened counter ciphertext payload (hin.trans ⟨header ++ (recordNonce r.counter ++ _), [], by
          rw [List.append_nil, hbytes]⟩)
      rw [List.drop_eq_getElem_cons hi, List.map_cons, hget]
      simp only [hnext]
      exact List.cons_prefix_cons.mpr ⟨rfl, hrest⟩

/-- A record that comes next and whole is accepted. -/
theorem read_record {record : Sealed} (back : Bytes) (reads : List Nat) (ending : Ending)
    (hvalid : record.Valid) (hkey : record.key = r.key) (hnonce : record.nonce = recordNonce r.counter)
    (hsize : record.plaintext.length ≤ maxDatagram) (hcounter : r.counter < u64Max) :
    ∃ reads', r.read ⟨record.record ++ back, reads, ending⟩ =
      .ok (record.plaintext, { r with counter := r.counter + 1 }, ⟨back, reads', ending⟩) := by
  have hlength := SecretBox.length_encrypt hvalid
  have hnext : (r.counter + 1) % 2 ^ 64 = r.counter + 1 := by
    rw [u64Max] at hcounter
    exact Nat.mod_eq_of_lt (by omega)
  have hnonceLength : record.nonce.length = nonceSize := by rw [hnonce, length_recordNonce]
  have hheader : ofBigEndian (bigEndian 4 (record.nonce.length + record.ciphertext.length)) =
      nonceSize + record.ciphertext.length := by
    rw [ofBigEndian_bigEndian, hnonceLength, hlength]
    simp only [maxDatagram, nonceSize] at hsize ⊢
    exact Nat.mod_eq_of_lt (by omega)
  have hparts := parts_recordNonce hcounter.le
  have hopen : SecretBox.decrypt r.key record.nonce record.ciphertext = some record.plaintext := by
    rw [← hkey]
    exact SecretBox.decrypt_encrypt hvalid
  have hbytes : record.record ++ back = bigEndian 4 (record.nonce.length + record.ciphertext.length) ++
      (record.nonce ++ (record.ciphertext ++ back)) := by simp [Sealed.record]
  obtain ⟨reads₁, h₁⟩ := Incoming.readExact_append
    (bigEndian 4 (record.nonce.length + record.ciphertext.length)) (record.nonce ++ (record.ciphertext ++ back))
    reads ending
  obtain ⟨reads₂, h₂⟩ := Incoming.readExact_append record.nonce (record.ciphertext ++ back) reads₁ ending
  obtain ⟨reads₃, h₃⟩ := Incoming.readExact_append record.ciphertext back reads₂ ending
  rw [length_bigEndian] at h₁
  rw [hnonceLength] at h₂
  refine ⟨reads₃, ?_⟩
  rw [read, hbytes]
  refine bind_eq_ok.mpr ⟨_, h₁, ?_⟩
  simp only [hheader]
  refine ensure_bind.mpr ⟨decide_eq_true ?_, bind_eq_ok.mpr ⟨_, h₂, ensure_bind.mpr ⟨?_, ?_⟩⟩⟩
  · rw [hlength]
    simp only [maxDatagram, maxRecord, nonceSize, tagSize] at hsize ⊢
    omega
  · rw [hnonce, hparts.1, hparts.2]
    simp
  · have hrest : nonceSize + record.ciphertext.length - nonceSize = record.ciphertext.length := by omega
    refine bind_eq_ok.mpr ⟨_, hrest ▸ h₃, ?_⟩
    simp only [hopen, hnext]
    rfl

/-- Records that come one after the other are all accepted, and the end of the stream ends the
reading. -/
theorem readAll_records {records : List Sealed} {n : Nat} {reads : List Nat} {ending : Ending}
    (hvalid : ∀ s ∈ records, s.Valid ∧ s.key = r.key ∧ s.plaintext.length ≤ maxDatagram)
    (hnonces : ∀ i (h : i < records.length), records[i].nonce = recordNonce (r.counter + i))
    (hbound : r.counter + records.length ≤ u64Max) (hn : records.length < n) :
    readAll n r ⟨records.flatMap Sealed.record, reads, ending⟩ =
      (records.map Sealed.plaintext, some ending.error) := by
  induction records generalizing r reads n with
  | nil =>
    obtain ⟨n, rfl⟩ := Nat.exists_eq_succ_of_ne_zero (show n ≠ 0 by omega)
    have hread : r.read ⟨[], reads, ending⟩ = .error ending.error := by
      rw [read, Incoming.readExact, Incoming.readExactWith, if_neg (by decide)]
      cases ending <;> rfl
    rw [List.flatMap_nil, readAll, hread]
    rfl
  | cons record records ih =>
    obtain ⟨n, rfl⟩ := Nat.exists_eq_succ_of_ne_zero (show n ≠ 0 by omega)
    obtain ⟨⟨hv, hkey, hsize⟩, hvalid⟩ := List.forall_mem_cons.mp hvalid
    rw [List.length_cons] at hbound hn
    have hfirst := hnonces 0 (by rw [List.length_cons]; omega)
    obtain ⟨reads', hread⟩ := read_record (records.flatMap Sealed.record) reads ending hv hkey hfirst hsize
      (by omega)
    have hrest : readAll n ⟨r.key, r.counter + 1⟩ ⟨records.flatMap Sealed.record, reads', ending⟩ =
        (records.map Sealed.plaintext, some ending.error) := ih hvalid (fun i hi => by
      have hlater := hnonces (i + 1) (by rw [List.length_cons]; omega)
      rw [List.getElem_cons_succ] at hlater
      rw [hlater]
      congr 1
      simp only
      omega) (by simp only; omega) (by omega)
    rw [List.flatMap_cons, readAll, hread]
    simp only [hrest, List.map_cons]

end RecordReader

/-! The two ends of a tunnel. -/

inductive TunnelEnd where
  | sender
  | receiver
  deriving DecidableEq, Repr

variable [KeyDerivation]

namespace TunnelEnd

def opposite : TunnelEnd → TunnelEnd
  | sender => receiver
  | receiver => sender

/-- The key of the direction away from an end. -/
def writeKey (transitKey : Bytes) : TunnelEnd → Bytes
  | sender => deriveKey transitKey (utf8 "transit_record_sender_key")
  | receiver => deriveKey transitKey (utf8 "transit_record_receiver_key")

def readKey (transitKey : Bytes) : TunnelEnd → Bytes
  | sender => deriveKey transitKey (utf8 "transit_record_receiver_key")
  | receiver => deriveKey transitKey (utf8 "transit_record_sender_key")

theorem readKey_eq (transitKey : Bytes) (e : TunnelEnd) :
    e.readKey transitKey = e.opposite.writeKey transitKey := by cases e <;> rfl

end TunnelEnd

/-- A tunnel over its life: its key, and the datagrams that the writer of each end is given. -/
structure Tunnel where
  transitKey : Bytes
  datagrams : TunnelEnd → List Bytes

namespace Tunnel

variable (t : Tunnel)

def written (e : TunnelEnd) : RecordWriter.Written :=
  (RecordWriter.new (e.writeKey t.transitKey)).writeAll (t.datagrams e)

def records (e : TunnelEnd) : List Sealed := (t.written e).records

/-- What the two ends have sealed. -/
def sealed : List Sealed := t.records .sender ++ t.records .receiver

/-- The keys and nonces that the encryption of an end has been called with. -/
def used (e : TunnelEnd) : List (Bytes × Bytes) :=
  (t.written e).nonces.map fun nonce => (e.writeKey t.transitKey, nonce)

def stream (e : TunnelEnd) : Bytes := (t.records e).flatMap Sealed.record

/-- What the reader of an end hands on in a number of reads, and the error that has ended it. -/
def received (e : TunnelEnd) (n : Nat) (s : Incoming) : List Bytes × Option CoreError :=
  (RecordReader.new (e.readKey t.transitKey)).readAll n s

variable {t}

theorem mem_records {e : TunnelEnd} {s : Sealed} (h : s ∈ t.records e) :
    s.Valid ∧ s.key = e.writeKey t.transitKey ∧ s.plaintext.length ≤ maxDatagram :=
  (RecordWriter.writeAll_records _ _).1 s h

theorem records_nonce {e : TunnelEnd} (i : Nat) (h : i < (t.records e).length) :
    (t.records e)[i].nonce = recordNonce i := by
  have hnonce := (RecordWriter.writeAll_records (RecordWriter.new (e.writeKey t.transitKey)) (t.datagrams e)).2.2.1 i h
  change (t.records e)[i].nonce = recordNonce (0 + i) at hnonce
  rwa [Nat.zero_add] at hnonce

theorem records_length (e : TunnelEnd) : (t.records e).length ≤ u64Max := by
  have hbound := (RecordWriter.writeAll_records (RecordWriter.new (e.writeKey t.transitKey)) (t.datagrams e)).2.2.2
    (Nat.zero_le _)
  change 0 + (t.records e).length ≤ u64Max at hbound
  rwa [Nat.zero_add] at hbound

theorem mem_sealed {s : Sealed} : s ∈ t.sealed ↔ ∃ e, s ∈ t.records e := by
  rw [sealed, List.mem_append]
  constructor
  · rintro (h | h)
    · exact ⟨.sender, h⟩
    · exact ⟨.receiver, h⟩
  · rintro ⟨e, h⟩
    cases e
    · exact .inl h
    · exact .inr h

/-- What was sealed under the key of a direction was written by the end it leads away from. -/
theorem sealed_of_key (hkeys : TunnelEnd.sender.writeKey t.transitKey ≠ TunnelEnd.receiver.writeKey t.transitKey)
    {e : TunnelEnd} {s : Sealed} (hs : s ∈ t.sealed) (hkey : s.key = e.readKey t.transitKey) :
    s ∈ t.records e.opposite := by
  obtain ⟨f, hf⟩ := mem_sealed.mp hs
  have hwrite := (mem_records hf).2.1
  rw [hkey, TunnelEnd.readKey_eq] at hwrite
  cases e <;> cases f
  · exact absurd hwrite.symm hkeys
  · exact hf
  · exact hf
  · exact absurd hwrite hkeys

end Tunnel

/-- However the stream to an end has been altered, its reader hands on the first payloads of the
other end's writer, and stops when the stream is at its end. A stream that was not altered brings
all of them. No nonce is used twice under one key. -/
theorem tunnel_records (t : Tunnel)
    (hkeys : TunnelEnd.sender.writeKey t.transitKey ≠ TunnelEnd.receiver.writeKey t.transitKey) :
    (∀ (e : TunnelEnd) (s : Incoming),
      (∀ nonce ciphertext, (nonce ++ ciphertext) <:+: s.bytes →
        Unforged t.sealed (e.readKey t.transitKey) nonce ciphertext) →
      ∀ n, (t.received e n s).1 <+: (t.records e.opposite).map Sealed.plaintext ∧
        (s.bytes.length < n → (t.received e n s).2.isSome)) ∧
    (∀ (e : TunnelEnd) (reads : List Nat) (ending : Ending) (n : Nat), (t.records e.opposite).length < n →
      t.received e n ⟨t.stream e.opposite, reads, ending⟩ =
        ((t.records e.opposite).map Sealed.plaintext, some ending.error)) ∧
    (∀ e : TunnelEnd, (t.records e).map Sealed.plaintext <+: t.datagrams e) ∧
    (t.used .sender ++ t.used .receiver).Nodup := by
  refine ⟨fun e s hideal n => ⟨?_, RecordReader.readAll_ends⟩, fun e reads ending n hn => ?_, fun e => ?_, ?_⟩
  · -- a record that opens was sealed by the other end, and its nonce tells which one it is
    have hopened : ∀ counter ciphertext payload, (recordNonce counter ++ ciphertext) <:+: s.bytes →
        SecretBox.decrypt (e.readKey t.transitKey) (recordNonce counter) ciphertext = some payload →
          ⟨e.readKey t.transitKey, recordNonce counter, payload, ciphertext⟩ ∈ t.records e.opposite := by
      intro counter ciphertext payload hin hopen
      have hsealed := (hideal _ _ hin).opened (fun s hs => by
        obtain ⟨f, hf⟩ := Tunnel.mem_sealed.mp hs
        exact (Tunnel.mem_records hf).1) hopen
      exact Tunnel.sealed_of_key hkeys hsealed rfl
    exact RecordReader.readAll_front (r := RecordReader.new (e.readKey t.transitKey)) Tunnel.records_nonce
      (Tunnel.records_length _) (Nat.zero_le _) hopened
  · refine RecordReader.readAll_records (fun s hs => ?_) (fun i hi => ?_) ?_ hn
    · obtain ⟨hvalid, hkey, hsize⟩ := Tunnel.mem_records hs
      exact ⟨hvalid, by rw [hkey, RecordReader.new, TunnelEnd.readKey_eq], hsize⟩
    · rw [RecordReader.new, Nat.zero_add]
      exact Tunnel.records_nonce i hi
    · rw [RecordReader.new, Nat.zero_add]
      exact Tunnel.records_length _
  · exact (RecordWriter.writeAll_records _ _).2.1
  · have hnodup : ∀ e : TunnelEnd, (t.used e).Nodup := by
      intro e
      have hinj : Function.Injective fun nonce : Bytes => (e.writeKey t.transitKey, nonce) :=
        fun a b h => (Prod.mk.inj h).2
      exact (RecordWriter.writeAll_nonces (RecordWriter.new _) (t.datagrams e) (Nat.zero_le _)).1.map hinj
    refine List.nodup_append'.mpr ⟨hnodup .sender, hnodup .receiver, fun pair hs hr => hkeys ?_⟩
    obtain ⟨nonce, -, rfl⟩ := List.mem_map.mp hs
    obtain ⟨nonce', -, hsame⟩ := List.mem_map.mp hr
    exact (Prod.mk.inj hsame).1.symm

end Records

namespace Sample

def transitKey : Bytes := List.replicate 32 0x71

def tunnelSenderKey : Bytes :=
  [1, 55, 3, 175, 181, 175, 68, 242, 191, 165, 78, 169, 91, 251, 241, 212, 191, 202, 120, 190, 68, 205,
    213, 126, 10, 120, 132, 102, 67, 158, 39, 55]

def tunnelReceiverKey : Bytes :=
  [133, 19, 177, 167, 40, 24, 221, 145, 94, 142, 1, 168, 132, 157, 108, 112, 31, 2, 65, 89, 93, 141, 108,
    10, 73, 70, 51, 160, 107, 238, 41, 74]

def tunnelRecords : List Sealed :=
  [⟨tunnelSenderKey, recordNonce 0, [1, 2],
      [207, 38, 148, 137, 84, 77, 10, 196, 175, 122, 124, 135, 6, 237, 17, 195, 195, 129]⟩,
    ⟨tunnelSenderKey, recordNonce 1, [],
      [96, 188, 132, 204, 240, 166, 45, 171, 14, 133, 6, 49, 227, 194, 248, 198]⟩,
    ⟨tunnelReceiverKey, recordNonce 0, [3],
      [248, 232, 50, 180, 164, 215, 34, 144, 47, 134, 25, 52, 142, 124, 21, 164, 33]⟩]

theorem tunnelRecords_table : Sealed.Table tunnelRecords := ⟨by decide, by decide⟩

abbrev tunnelBox : SecretBox := SecretBox.ofTable tunnelRecords tunnelRecords_table

abbrev tunnelKeys : KeyDerivation where
  hkdf input purpose :=
    if input = transitKey ∧ purpose = utf8 "transit_record_sender_key" then tunnelSenderKey
    else if input = transitKey ∧ purpose = utf8 "transit_record_receiver_key" then
      tunnelReceiverKey
    else []

def tunnelDatagrams : TunnelEnd → List Bytes
  | .sender => [[1, 2], []]
  | .receiver => [[3]]

def tunnel : Tunnel := ⟨transitKey, tunnelDatagrams⟩

end Sample

attribute [local instance] Sample.tunnelBox Sample.tunnelKeys

theorem tunnel_records_sample :
    (∀ s n, (Sample.tunnel.received .receiver n s).1 <+: [[1, 2], []]) ∧
    (∀ reads, Sample.tunnel.received .receiver 3 ⟨Sample.tunnel.stream .sender, reads, .finished⟩ =
      ([[1, 2], []], some (.io .unexpectedEof))) ∧
    (Sample.tunnel.used .sender ++ Sample.tunnel.used .receiver).Nodup := by
  have hkeys : TunnelEnd.sender.writeKey Sample.tunnel.transitKey ≠
      TunnelEnd.receiver.writeKey Sample.tunnel.transitKey := by decide +kernel
  have hsealed : Sample.tunnel.sealed = Sample.tunnelRecords := by decide +kernel
  have hpayloads : (Sample.tunnel.records .sender).map Sealed.plaintext = [[1, 2], []] := by decide +kernel
  have hlength : (Sample.tunnel.records .sender).length < 3 := by decide +kernel
  obtain ⟨hfront, hall, -, honce⟩ := tunnel_records Sample.tunnel hkeys
  refine ⟨fun s n => ?_, fun reads => ?_, honce⟩
  · have hreceived := (hfront .receiver s (fun nonce ciphertext _ => by
      rw [hsealed]
      exact unforged_ofTable Sample.tunnelRecords_table (List.Subset.refl _) _ _ _) n).1
    exact hpayloads ▸ hreceived
  · have hreceived := hall .receiver reads .finished 3 hlength
    exact hreceived.trans (by rw [← hpayloads]; rfl)

end InkHole
