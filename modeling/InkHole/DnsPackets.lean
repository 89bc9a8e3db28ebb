import InkHole.Codes
import InkHole.Data

/-! DNS packets: the query that is sent, and the parser that walks through an answer. -/

namespace InkHole

open Codes

/-! The query. -/

def dnsLabels (host : String) : List (List Char) := (trimEndMatches (· == '.') host.toList).splitOn '.'

def encodeLabels (host : String) : List (List Char) → Except CoreError Bytes
  | [] => .ok []
  | label :: rest => do
    let bytes := (String.ofList label).toUTF8.toList
    if bytes = [] ∨ 63 < bytes.length then .error (.protocol s!"invalid DNS label in {host}")
    else
      let later ← encodeLabels host rest
      return (UInt8.ofNat bytes.length :: bytes) ++ later

/-- One question of class IN, with recursion desired. -/
def buildDnsQuery (id : UInt16) (host : String) (qtype : UInt16) : Except CoreError Bytes := do
  let labels ← encodeLabels host (dnsLabels host)
  return bigEndian 2 id.toNat ++ [1, 0] ++ [0, 1, 0, 0, 0, 0, 0, 0] ++ labels ++ [0] ++
    bigEndian 2 qtype.toNat ++ [0, 1]

/-! The parser. A packet is shorter than 2 ^ 63 bytes, so that no sum of a cursor and a length overflows. -/

/-- An index outside of the packet is a panic. -/
inductive Fault where
  | panic
  | failed (error : CoreError)
  deriving DecidableEq

inductive IpAddr where
  | v4 (a b c d : UInt8)
  | v6 (octets : Bytes)
  deriving DecidableEq

def malformed : Fault := .failed (.protocol "malformed DNS response")

def orMalformed {α : Type} : Option α → Except Fault α
  | some a => .ok a
  | none => .error malformed

def byteAt (packet : Bytes) (index : Nat) : Except Fault UInt8 :=
  match packet[index]? with
  | some b => .ok b
  | none => .error .panic

def slice (packet : Bytes) (start length : Nat) : Except Fault Bytes :=
  if start + length ≤ packet.length then .ok ((packet.drop start).take length) else .error .panic

def u16At (packet : Bytes) (index : Nat) : Except Fault Nat := do
  let high ← byteAt packet index
  let low ← byteAt packet (index + 1)
  return ofBigEndian [high, low]

/-- One turn of the loop over the labels of a name. -/
inductive NameStep where
  | ended (cursor : Nat)
  | went (cursor : Nat)

def NameStep.cursor : NameStep → Nat
  | .ended cursor => cursor
  | .went cursor => cursor

def nameStep (packet : Bytes) (cursor : Nat) : Option NameStep :=
  match packet[cursor]? with
  | none => none
  | some length =>
    if length &&& 0xc0 = 0xc0 then if cursor + 2 ≤ packet.length then some (.ended (cursor + 2)) else none
    else if length = 0 then some (.ended (cursor + 1))
    else if packet.length < cursor + (1 + length.toNat) then none
    else some (.went (cursor + (1 + length.toNat)))

/-- Every turn goes on, and stays in the packet. -/
theorem nameStep_advances {packet : Bytes} {cursor : Nat} {step : NameStep} (h : nameStep packet cursor = some step) :
    cursor < step.cursor ∧ step.cursor ≤ packet.length := by
  rw [nameStep] at h
  split at h
  · cases h
  · next length hbyte =>
    have hin := (List.getElem?_eq_some_iff.mp hbyte).1
    split at h
    · split at h
      · next hfits =>
        cases h
        exact ⟨by simp [NameStep.cursor], hfits⟩
      · cases h
    · split at h
      · cases h
        exact ⟨by simp [NameStep.cursor], hin⟩
      · split at h
        · cases h
        · next hfits =>
          cases h
          exact ⟨by simp only [NameStep.cursor]; omega, by simp only [NameStep.cursor]; omega⟩

/-- Where the name ends that begins at the cursor. -/
def skipDnsName (packet : Bytes) (cursor : Nat) : Option Nat :=
  match _hstep : nameStep packet cursor with
  | none => none
  | some (.ended next) => some next
  | some (.went next) => skipDnsName packet next
termination_by packet.length - cursor
decreasing_by
  have hadvances := nameStep_advances _hstep
  simp only [NameStep.cursor] at hadvances
  omega

def readQuestion (packet : Bytes) (cursor : Nat) : Except Fault Nat := do
  let cursor ← orMalformed (skipDnsName packet cursor)
  if packet.length < cursor + 4 then .error malformed else .ok (cursor + 4)

def readQuestions (packet : Bytes) : Nat → Nat → Except Fault Nat
  | 0, cursor => .ok cursor
  | questions + 1, cursor => do
    let cursor ← readQuestion packet cursor
    readQuestions packet questions cursor

/-- Copying into sixteen bytes panics for another length. -/
def answerAddress (qtype rdlength : Nat) (rdata : Bytes) : Except Fault (Option IpAddr) :=
  if qtype = 1 ∧ rdlength = 4 then do
    let a ← byteAt rdata 0
    let b ← byteAt rdata 1
    let c ← byteAt rdata 2
    let d ← byteAt rdata 3
    return some (.v4 a b c d)
  else if qtype = 28 ∧ rdlength = 16 then
    if rdata.length = 16 then .ok (some (.v6 rdata)) else .error .panic
  else .ok none

/-- One turn of the loop over the answers: the address, if it is one, and where the record ends. -/
def readRecord (packet : Bytes) (qtype : UInt16) (cursor : Nat) : Except Fault (Option IpAddr × Nat) := do
  let cursor ← orMalformed (skipDnsName packet cursor)
  if packet.length < cursor + 10 then .error malformed
  else
    let answerType ← u16At packet cursor
    let rdlength ← u16At packet (cursor + 8)
    let cursor := cursor + 10
    if packet.length < cursor + rdlength then .error malformed
    else
      let rdata ← slice packet cursor rdlength
      let cursor := cursor + rdlength
      if answerType ≠ qtype.toNat then .ok (none, cursor)
      else
        let found ← answerAddress qtype.toNat rdlength rdata
        return (found, cursor)

def readAnswers (packet : Bytes) (qtype : UInt16) : Nat → Nat → List IpAddr → Except Fault (List IpAddr)
  | 0, _, collected => .ok collected
  | answers + 1, cursor, collected => do
    let record ← readRecord packet qtype cursor
    readAnswers packet qtype answers record.2 (collected ++ record.1.toList)

def parseDnsAnswers (packet : Bytes) (id qtype : UInt16) : Except Fault (List IpAddr) := do
  if packet.length < 12 then .error malformed
  else
    let start ← slice packet 0 2
    if start ≠ bigEndian 2 id.toNat then .error malformed
    else
      let flags ← byteAt packet 3
      if flags &&& 0x0f ≠ 0 then
        .error (.failed (.protocol s!"DNS server returned rcode {(flags &&& 0x0f).toNat}"))
      else
        let questions ← u16At packet 4
        let answers ← u16At packet 6
        let cursor ← readQuestions packet questions 12
        readAnswers packet qtype answers cursor []

/-! Every packet is walked through without a panic. -/

def Safe {α : Type} (x : Except Fault α) : Prop := x ≠ .error .panic

theorem safe_ok {α : Type} (a : α) : Safe (.ok a) := fun h => by cases h

theorem safe_failed {α : Type} (e : CoreError) : Safe (.error (.failed e) : Except Fault α) := fun h => by cases h

theorem safe_malformed {α : Type} : Safe (.error malformed : Except Fault α) := safe_failed _

theorem safe_bind {α β : Type} {x : Except Fault α} {f : α → Except Fault β} (hx : Safe x)
    (hf : ∀ a, x = .ok a → Safe (f a)) : Safe (x >>= f) := by
  cases x with
  | error fault => exact fun h => hx (by cases h; rfl)
  | ok a => exact hf a rfl

theorem safe_orMalformed {α : Type} (o : Option α) : Safe (orMalformed o) := by
  cases o with
  | none => exact safe_malformed
  | some a => exact safe_ok a

theorem byteAt_ok {packet : Bytes} {index : Nat} (h : index < packet.length) :
    byteAt packet index = .ok packet[index] := by
  rw [byteAt, List.getElem?_eq_getElem h]

theorem safe_byteAt {packet : Bytes} {index : Nat} (h : index < packet.length) : Safe (byteAt packet index) := by
  rw [byteAt_ok h]
  exact safe_ok _

theorem safe_u16At {packet : Bytes} {index : Nat} (h : index + 1 < packet.length) : Safe (u16At packet index) :=
  safe_bind (safe_byteAt (by omega)) fun _ _ => safe_bind (safe_byteAt h) fun _ _ => safe_ok _

theorem slice_ok {packet : Bytes} {start length : Nat} (h : start + length ≤ packet.length) :
    slice packet start length = .ok ((packet.drop start).take length) := if_pos h

theorem orMalformed_ok {α : Type} {o : Option α} {a : α} (h : orMalformed o = .ok a) : o = some a := by
  cases o with
  | none => cases h
  | some b => cases h; rfl

theorem skipDnsName_advances {packet : Bytes} {cursor next : Nat} (h : skipDnsName packet cursor = some next) :
    cursor < next ∧ next ≤ packet.length := by
  fun_induction skipDnsName packet cursor with
  | case1 cursor hstep => cases h
  | case2 cursor ended hstep =>
    have hadvances := nameStep_advances hstep
    cases h
    exact hadvances
  | case3 cursor went hstep ih =>
    have hadvances := nameStep_advances hstep
    simp only [NameStep.cursor] at hadvances
    have hlater := ih h
    omega

theorem bind_ok {α β : Type} {x : Except Fault α} {f : α → Except Fault β} {b : β} (h : (x >>= f) = .ok b) :
    ∃ a, x = .ok a ∧ f a = .ok b := by
  cases x with
  | error fault => cases h
  | ok a => exact ⟨a, rfl, h⟩

theorem readQuestion_advances {packet : Bytes} {cursor next : Nat} (h : readQuestion packet cursor = .ok next) :
    cursor < next ∧ next ≤ packet.length := by
  obtain ⟨middle, hname, h⟩ := bind_ok h
  have hadvances := skipDnsName_advances (orMalformed_ok hname)
  by_cases hfits : packet.length < middle + 4
  · rw [if_pos hfits] at h
    cases h
  · rw [if_neg hfits] at h
    cases h
    omega

theorem readRecord_advances {packet : Bytes} {qtype : UInt16} {cursor : Nat} {record : Option IpAddr × Nat}
    (h : readRecord packet qtype cursor = .ok record) : cursor < record.2 ∧ record.2 ≤ packet.length := by
  obtain ⟨middle, hname, h⟩ := bind_ok h
  have hadvances := skipDnsName_advances (orMalformed_ok hname)
  by_cases hfits : packet.length < middle + 10
  · rw [if_pos hfits] at h
    cases h
  · rw [if_neg hfits] at h
    obtain ⟨answerType, -, h⟩ := bind_ok h
    obtain ⟨rdlength, -, h⟩ := bind_ok h
    dsimp only at h
    by_cases hdata : packet.length < middle + 10 + rdlength
    · rw [if_pos hdata] at h
      cases h
    · rw [if_neg hdata] at h
      obtain ⟨rdata, -, h⟩ := bind_ok h
      by_cases htype : answerType ≠ qtype.toNat
      · rw [if_pos htype] at h
        cases h
        exact ⟨by simp only; omega, by simp only; omega⟩
      · rw [if_neg htype] at h
        obtain ⟨found, -, h⟩ := bind_ok h
        cases h
        exact ⟨by simp only; omega, by simp only; omega⟩

theorem safe_answerAddress {qtype rdlength : Nat} {rdata : Bytes} (h : rdata.length = rdlength) :
    Safe (answerAddress qtype rdlength rdata) := by
  rw [answerAddress]
  split
  · exact safe_bind (safe_byteAt (by omega)) fun _ _ => safe_bind (safe_byteAt (by omega)) fun _ _ =>
      safe_bind (safe_byteAt (by omega)) fun _ _ => safe_bind (safe_byteAt (by omega)) fun _ _ => safe_ok _
  · split
    · rw [if_pos (by omega)]
      exact safe_ok _
    · exact safe_ok _

theorem safe_readQuestion (packet : Bytes) (cursor : Nat) : Safe (readQuestion packet cursor) := by
  refine safe_bind (safe_orMalformed _) fun middle _ => ?_
  split
  · exact safe_malformed
  · exact safe_ok _

theorem safe_readRecord (packet : Bytes) (qtype : UInt16) (cursor : Nat) : Safe (readRecord packet qtype cursor) := by
  refine safe_bind (safe_orMalformed _) fun middle _ => ?_
  by_cases hfits : packet.length < middle + 10
  · rw [if_pos hfits]
    exact safe_malformed
  · rw [if_neg hfits]
    refine safe_bind (safe_u16At (by omega)) fun answerType _ => ?_
    refine safe_bind (safe_u16At (by omega)) fun rdlength _ => ?_
    dsimp only
    by_cases hdata : packet.length < middle + 10 + rdlength
    · rw [if_pos hdata]
      exact safe_malformed
    · rw [if_neg hdata, slice_ok (by omega)]
      refine safe_bind (safe_ok _) fun rdata hrdata => ?_
      have hlength : rdata.length = rdlength := by
        cases hrdata
        rw [List.length_take, List.length_drop]
        omega
      split
      · exact safe_ok _
      · exact safe_bind (safe_answerAddress hlength) fun _ _ => safe_ok _

theorem safe_readQuestions (packet : Bytes) (questions cursor : Nat) : Safe (readQuestions packet questions cursor) := by
  induction questions generalizing cursor with
  | zero => exact safe_ok cursor
  | succ questions ih => exact safe_bind (safe_readQuestion packet cursor) fun next _ => ih next

theorem safe_readAnswers (packet : Bytes) (qtype : UInt16) (answers cursor : Nat) (collected : List IpAddr) :
    Safe (readAnswers packet qtype answers cursor collected) := by
  induction answers generalizing cursor collected with
  | zero => exact safe_ok collected
  | succ answers ih => exact safe_bind (safe_readRecord packet qtype cursor) fun record _ => ih record.2 _

theorem safe_parseDnsAnswers (packet : Bytes) (id qtype : UInt16) : Safe (parseDnsAnswers packet id qtype) := by
  rw [parseDnsAnswers]
  by_cases hshort : packet.length < 12
  · rw [if_pos hshort]
    exact safe_malformed
  · rw [if_neg hshort, slice_ok (by omega)]
    refine safe_bind (safe_ok _) fun start _ => ?_
    split
    · exact safe_malformed
    · refine safe_bind (safe_byteAt (by omega)) fun flags _ => ?_
      split
      · exact safe_failed _
      · exact safe_bind (safe_u16At (by omega)) fun questions _ =>
          safe_bind (safe_u16At (by omega)) fun answers _ =>
          safe_bind (safe_readQuestions packet questions 12) fun cursor _ =>
          safe_readAnswers packet qtype answers cursor []

end InkHole
