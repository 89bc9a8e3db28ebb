import InkHole.DartStrings

/-! Devices that the user enters by hand: how an address is read, shown again and kept. -/

namespace InkHole

/-- Texts are lists of characters here. A port is never negative. -/
structure ManualPeer where
  name : List Char
  host : List Char
  port : Nat
  deriving DecidableEq

def quicDefaultPort : Nat := 41300

def discoveryDefaultPort : Nat := 41301

def digits (n : Nat) : List Char := Nat.toDigits 10 n

/-! Keeping a device. -/

/-- The separator does not stand in a name. -/
def replaceBars (name : List Char) : List Char := name.map fun c => if c = '|' then ' ' else c

def ManualPeer.encode (peer : ManualPeer) : List Char :=
  replaceBars peer.name ++ '|' :: (peer.host ++ '|' :: digits peer.port)

def ManualPeer.decode (raw : List Char) : ManualPeer :=
  let parts := raw.splitOn '|'
  if parts.length = 1 then ⟨[], Dart.trim raw, 0⟩
  else
    let port : Int := if 3 ≤ parts.length then (Dart.tryParseInt (Dart.trim (parts.getD 2 []))).getD 0 else 0
    ⟨Dart.trim (parts.getD 0 []), Dart.trim (parts.getD 1 []), if 1 ≤ port ∧ port ≤ 65535 then port.toNat else 0⟩

/-! Reading an address. -/

/-- The port behind the brackets. -/
def bracketPort (tail : List Char) : Int :=
  if tail.head? = some ':' then (Dart.tryParseInt (Dart.trim tail.tail)).getD 0 else 0

/-- A bracket is closed only with something in between. -/
def readBrackets (value : List Char) : List Char × Int :=
  match splitFirst ']' value with
  | some (front, tail) => if 1 < front.length then (Dart.trim front.tail, bracketPort tail) else (value, 0)
  | none => (value, 0)

/-- With more than one colon the last of them does not begin a port. -/
def readPlain (value : List Char) : List Char × Int :=
  match splitLast ':' value with
  | some (front, back) =>
    if front ≠ [] ∧ ':' ∉ front then
      match Dart.tryParseInt (Dart.trim back) with
      | some parsed => if 1 ≤ parsed ∧ parsed ≤ 65535 then (Dart.trim front, parsed) else (value, 0)
      | none => (value, 0)
    else (value, 0)
  | none => (value, 0)

def discoveryPort (port : Int) : Nat :=
  let port := if port = quicDefaultPort ∨ port = discoveryDefaultPort then 0 else port
  if port < 0 ∨ 65535 < port then 0 else port.toNat

def parseManualEndpoint (raw name : List Char) : ManualPeer :=
  let value := Dart.trim raw
  let read := if value.head? = some '[' then readBrackets value else readPlain value
  ⟨name, read.1, discoveryPort read.2⟩

/-! Showing an address. -/

def joinHostPort (host : List Char) (port : Nat) : List Char :=
  let trimmed := Dart.trim host
  if trimmed.head? = some '[' ∧ trimmed.getLast? = some ']' then trimmed ++ ':' :: digits port
  else if ':' ∈ trimmed then '[' :: (trimmed ++ ']' :: ':' :: digits port)
  else trimmed ++ ':' :: digits port

def formatManualEndpoint (peer : ManualPeer) : List Char :=
  if 0 < peer.port then joinHostPort peer.host peer.port else Dart.trim peer.host

/-! What is read. -/

/-- Text in brackets, with something behind them. -/
structure Bracketed (value inner tail : List Char) : Prop where
  text : value = '[' :: (inner ++ ']' :: tail)
  nonempty : inner ≠ []
  first : ']' ∉ inner

/-- A port behind the only colon. -/
structure Ported (value front back : List Char) (port : Int) : Prop where
  text : value = front ++ ':' :: back
  nonempty : front ≠ []
  front_colon : ':' ∉ front
  back_colon : ':' ∉ back
  parsed : Dart.tryParseInt back = some port
  low : 1 ≤ port
  high : port ≤ 65535

theorem readBrackets_bracketed {value inner tail : List Char} (h : Bracketed value inner tail) :
    readBrackets value = (Dart.trim inner, bracketPort tail) := by
  have hsplit : splitFirst ']' value = some ('[' :: inner, tail) := by
    rw [h.text, ← List.cons_append]
    refine splitFirst_append ?_ tail
    rw [List.mem_cons, not_or]
    exact ⟨by decide, h.first⟩
  have hlength : 1 < ('[' :: inner).length := by
    have hpos := List.length_pos_iff.mpr h.nonempty
    rw [List.length_cons]
    omega
  simp only [readBrackets, hsplit, if_pos hlength, List.tail_cons]

theorem readBrackets_other {value : List Char} (hhead : value.head? = some '[')
    (h : ∀ inner tail, ¬ Bracketed value inner tail) : readBrackets value = (value, 0) := by
  by_cases hin : ']' ∈ value
  · obtain ⟨front, tail, heq, hfront⟩ := List.eq_append_cons_of_mem hin
    have hshort : ¬ 1 < front.length := by
      intro hlong
      cases front with
      | nil => cases hlong
      | cons c inner =>
        rw [heq, List.cons_append, List.head?_cons, Option.some.injEq] at hhead
        subst hhead
        refine h inner tail ⟨heq, ?_, fun hmem => hfront (List.mem_cons_of_mem _ hmem)⟩
        rintro rfl
        exact absurd hlong (by decide)
    rw [heq, readBrackets, splitFirst_append hfront]
    exact if_neg hshort
  · rw [readBrackets, splitFirst_none hin]

theorem readPlain_ported {value front back : List Char} {port : Int} (h : Ported value front back port) :
    readPlain value = (Dart.trim front, port) := by
  have hsplit : splitLast ':' value = some (front, back) := by
    rw [h.text]
    exact splitLast_append h.back_colon front
  have hparsed : Dart.tryParseInt (Dart.trim back) = some port := by
    rw [Dart.tryParseInt_trim]
    exact h.parsed
  simp only [readPlain, hsplit, if_pos (⟨h.nonempty, h.front_colon⟩ : front ≠ [] ∧ ':' ∉ front), hparsed,
    if_pos (⟨h.low, h.high⟩ : 1 ≤ port ∧ port ≤ 65535)]

theorem readPlain_other {value : List Char} (h : ∀ front back port, ¬ Ported value front back port) :
    readPlain value = (value, 0) := by
  by_cases hin : ':' ∈ value
  · obtain ⟨front, back, rfl, hback⟩ := exists_splitLast hin
    simp only [readPlain, splitLast_append hback front]
    by_cases hfront : front ≠ [] ∧ ':' ∉ front
    · rw [if_pos hfront]
      cases hparsed : Dart.tryParseInt (Dart.trim back) with
      | none => rfl
      | some port =>
        rw [Dart.tryParseInt_trim] at hparsed
        refine if_neg fun hrange => ?_
        exact h front back port ⟨rfl, hfront.1, hfront.2, hback, hparsed, hrange.1, hrange.2⟩
    · rw [if_neg hfront]
  · rw [readPlain, splitLast_none hin]

/-! A device that is kept and read again. -/

theorem bar_not_mem_replaceBars (name : List Char) : '|' ∉ replaceBars name := by
  intro hin
  obtain ⟨c, -, hc⟩ := List.mem_map.mp hin
  by_cases hbar : c = '|'
  · rw [if_pos hbar] at hc
    exact absurd hc (by decide)
  · rw [if_neg hbar] at hc
    exact hbar hc

theorem digits_isDigit {n : Nat} {c : Char} (hc : c ∈ digits n) : c.isDigit = true :=
  Nat.isDigit_of_mem_toDigits (by omega) (by omega) hc

theorem not_mem_digits {c : Char} (hc : c.isDigit = false) (n : Nat) : c ∉ digits n := by
  intro hin
  rw [digits_isDigit hin] at hc
  cases hc

theorem tryParseInt_port {port : Nat} (h : port ≤ 65535) : Dart.tryParseInt (digits port) = some (port : Int) :=
  Dart.tryParseInt_digits (by omega)

/-- The separator in the host is the only thing that changes a device. -/
theorem decode_encode_iff {peer : ManualPeer} (hhost : Dart.trim peer.host = peer.host) (hport : peer.port ≤ 65535) :
    ManualPeer.decode peer.encode = ⟨Dart.trim (replaceBars peer.name), peer.host, peer.port⟩ ↔
      '|' ∉ peer.host := by
  have hname := bar_not_mem_replaceBars peer.name
  have hsplit : peer.encode.splitOn '|' =
      replaceBars peer.name :: (peer.host ++ '|' :: digits peer.port).splitOn '|' :=
    List.splitOn_append_cons_self_of_not_mem hname _
  constructor
  · intro hsame hbar
    obtain ⟨second, rest, hrest⟩ :=
      List.exists_cons_of_ne_nil (List.splitOn_ne_nil '|' (peer.host ++ '|' :: digits peer.port))
    rw [hrest] at hsplit
    have hsecond : '|' ∉ second := by
      have hin : second ∈ peer.encode.splitOn '|' := by simp [hsplit]
      exact not_mem_splitOn hin
    have hdecoded : (ManualPeer.decode peer.encode).host = Dart.trim second := by
      rw [ManualPeer.decode, hsplit]
      simp
    rw [hsame] at hdecoded
    change peer.host = Dart.trim second at hdecoded
    rw [hdecoded] at hbar
    exact hsecond (Dart.trim_subset _ hbar)
  · intro hbar
    rw [List.splitOn_append_cons_self_of_not_mem hbar,
      List.splitOn_eq_singleton (not_mem_digits (by decide) peer.port)] at hsplit
    have hdigits : Dart.tryParseInt (Dart.trim (digits peer.port)) = some (peer.port : Int) := by
      rw [Dart.tryParseInt_trim]
      exact tryParseInt_port hport
    have hkept : (if 1 ≤ (peer.port : Int) ∧ (peer.port : Int) ≤ 65535 then (peer.port : Int).toNat else 0) =
        peer.port := by
      split <;> omega
    rw [ManualPeer.decode, hsplit]
    simp only [List.length_cons, List.length_nil, List.getD_cons_zero, List.getD_cons_succ, hdigits, hhost,
      Option.getD_some]
    rw [if_neg (by decide), if_pos (by decide : 3 ≤ 0 + 1 + 1 + 1), hkept]

/-! Ports. -/

/-- A port behind the brackets that is not one of the defaults. -/
def NamesPort (tail : List Char) : Prop :=
  ∃ back port, tail = ':' :: back ∧ Dart.tryParseInt back = some port ∧ 1 ≤ port ∧ port ≤ 65535 ∧
    port ≠ quicDefaultPort ∧ port ≠ discoveryDefaultPort

theorem discoveryPort_le (port : Int) : discoveryPort port ≤ 65535 := by
  simp only [discoveryPort]
  split <;> split <;> omega

theorem discoveryPort_pos_iff {port : Int} :
    0 < discoveryPort port ↔ 1 ≤ port ∧ port ≤ 65535 ∧ port ≠ quicDefaultPort ∧ port ≠ discoveryDefaultPort := by
  simp only [discoveryPort]
  split <;> split <;> omega

theorem discoveryPort_of_pos {port : Int} (h : 0 < discoveryPort port) : (discoveryPort port : Int) = port := by
  obtain ⟨hlow, hhigh, hquic, hdiscovery⟩ := discoveryPort_pos_iff.mp h
  simp only [discoveryPort]
  rw [if_neg (not_or.mpr ⟨hquic, hdiscovery⟩), if_neg (by omega)]
  omega

theorem discoveryPort_discoveryPort (port : Int) : discoveryPort (discoveryPort port) = discoveryPort port := by
  rcases Nat.eq_zero_or_pos (discoveryPort port) with hzero | hpos
  · rw [hzero]
    rfl
  · rw [discoveryPort_of_pos hpos]

theorem namesPort_iff {tail : List Char} : NamesPort tail ↔ 0 < discoveryPort (bracketPort tail) := by
  rw [discoveryPort_pos_iff]
  constructor
  · rintro ⟨back, port, rfl, hparsed, hport⟩
    have hbracket : bracketPort (':' :: back) = port := by
      rw [bracketPort, List.head?_cons, if_pos rfl, List.tail_cons, Dart.tryParseInt_trim, hparsed, Option.getD_some]
    rw [hbracket]
    exact hport
  · intro h
    by_cases hcolon : tail.head? = some ':'
    · have hbracket : bracketPort tail = (Dart.tryParseInt tail.tail).getD 0 := by
        rw [bracketPort, if_pos hcolon, Dart.tryParseInt_trim]
      cases hparsed : Dart.tryParseInt tail.tail with
      | none =>
        rw [hbracket, hparsed] at h
        exact absurd h.1 (by decide)
      | some port =>
        rw [hbracket, hparsed, Option.getD_some] at h
        exact ⟨tail.tail, port, (List.cons_head?_tail hcolon).symm, hparsed, h⟩
    · rw [bracketPort, if_neg hcolon] at h
      exact absurd h.1 (by decide)

/-! Reading, in its three cases. -/

theorem parse_bracketed {raw name inner tail : List Char} (h : Bracketed (Dart.trim raw) inner tail) :
    parseManualEndpoint raw name = ⟨name, Dart.trim inner, discoveryPort (bracketPort tail)⟩ := by
  have hhead : (Dart.trim raw).head? = some '[' := by rw [h.text, List.head?_cons]
  simp only [parseManualEndpoint, if_pos hhead, readBrackets_bracketed h]

theorem parse_ported {raw name front back : List Char} {port : Int} (hhead : (Dart.trim raw).head? ≠ some '[')
    (h : Ported (Dart.trim raw) front back port) :
    parseManualEndpoint raw name = ⟨name, Dart.trim front, discoveryPort port⟩ := by
  simp only [parseManualEndpoint, if_neg hhead, readPlain_ported h]

theorem parse_other {raw name : List Char} (hbracket : ∀ inner tail, ¬ Bracketed (Dart.trim raw) inner tail)
    (hport : (Dart.trim raw).head? ≠ some '[' → ∀ front back port, ¬ Ported (Dart.trim raw) front back port) :
    parseManualEndpoint raw name = ⟨name, Dart.trim raw, 0⟩ := by
  by_cases hhead : (Dart.trim raw).head? = some '['
  · simp only [parseManualEndpoint, if_pos hhead, readBrackets_other hhead hbracket]
    rfl
  · simp only [parseManualEndpoint, if_neg hhead, readPlain_other (hport hhead)]
    rfl

/-- Every text is read in one of the three ways. -/
theorem parse_cases (raw : List Char) :
    (∃ inner tail, Bracketed (Dart.trim raw) inner tail) ∨
      ((∀ inner tail, ¬ Bracketed (Dart.trim raw) inner tail) ∧
        ((∃ front back port, (Dart.trim raw).head? ≠ some '[' ∧ Ported (Dart.trim raw) front back port) ∨
          ((Dart.trim raw).head? ≠ some '[' → ∀ front back port, ¬ Ported (Dart.trim raw) front back port))) := by
  by_cases hbracket : ∃ inner tail, Bracketed (Dart.trim raw) inner tail
  · exact .inl hbracket
  · push Not at hbracket
    refine .inr ⟨hbracket, ?_⟩
    by_cases hport : ∃ front back port, (Dart.trim raw).head? ≠ some '[' ∧ Ported (Dart.trim raw) front back port
    · exact .inl hport
    · exact .inr fun hhead front back port h => hport ⟨front, back, port, hhead, h⟩

/-! Reading what was shown. -/

theorem head_trimmed {host : List Char} (h : Dart.trim host = host) : host.head?.any Dart.whitespace = false := by
  rw [← h]
  exact head?_trimMatches Dart.whitespace host

/-- Text in front of digits is not trimmed at its end. -/
theorem trim_digits_append {text : List Char} (hne : text ≠ []) (hhead : text.head?.any Dart.whitespace = false)
    (port : Nat) : Dart.trim (text ++ digits port) = text ++ digits port := by
  obtain ⟨c, rest, hdigits⟩ := Dart.toDigits_cons port
  have hlast : ∃ d ∈ digits port, (text ++ digits port).getLast? = some d := by
    have hnonempty : digits port ≠ [] := by
      rw [digits, hdigits]
      exact List.cons_ne_nil _ _
    refine ⟨(digits port).getLast hnonempty, List.getLast_mem hnonempty, ?_⟩
    rw [List.getLast?_append, List.getLast?_eq_some_getLast hnonempty, Option.some_or]
  obtain ⟨d, hd, heq⟩ := hlast
  refine Dart.trim_self ?_ ?_
  · rw [List.head?_append_of_ne_nil _ hne]
    exact hhead
  · rw [heq, Option.any_some]
    exact Dart.whitespace_of_isDigit (digits_isDigit hd)

theorem trim_plain {host : List Char} (htrim : Dart.trim host = host) (port : Nat) :
    Dart.trim ((host ++ [':']) ++ digits port) = (host ++ [':']) ++ digits port := by
  refine trim_digits_append (List.append_ne_nil_of_right_ne_nil _ (List.cons_ne_nil _ _)) ?_ port
  cases host with
  | nil => decide
  | cons c rest =>
    have hhead := head_trimmed htrim
    exact hhead

theorem trim_joinHostPort {host : List Char} (htrim : Dart.trim host = host) (port : Nat) :
    Dart.trim (joinHostPort host port) = joinHostPort host port := by
  have hplain : host ++ ':' :: digits port = (host ++ [':']) ++ digits port := by simp
  have hcolon : '[' :: (host ++ ']' :: ':' :: digits port) = ('[' :: (host ++ [']', ':'])) ++ digits port := by simp
  simp only [joinHostPort, htrim, hplain, hcolon]
  split
  · exact trim_plain htrim port
  · split
    · exact trim_digits_append (List.cons_ne_nil _ _) rfl port
    · exact trim_plain htrim port

/-- A host with colons is shown in brackets. -/
theorem joinHostPort_colon {host : List Char} (htrim : Dart.trim host = host) (hcolon : ':' ∈ host)
    (hbracket : ']' ∉ host) (port : Nat) :
    joinHostPort host port = '[' :: (host ++ ']' :: (':' :: digits port)) := by
  have hlast : ¬ (host.head? = some '[' ∧ host.getLast? = some ']') :=
    fun h => hbracket (List.mem_of_getLast? h.2)
  simp [joinHostPort, htrim, hlast, hcolon]

theorem reparse_colon {host : List Char} {port : Nat} (htrim : Dart.trim host = host) (hcolon : ':' ∈ host)
    (hbracket : ']' ∉ host) (hport : port ≤ 65535) (other : List Char) :
    parseManualEndpoint (joinHostPort host port) other = ⟨other, host, discoveryPort port⟩ := by
  have htext := (trim_joinHostPort htrim port).trans (joinHostPort_colon htrim hcolon hbracket port)
  have hread : bracketPort (':' :: digits port) = port := by
    rw [bracketPort, List.head?_cons, if_pos rfl, List.tail_cons, Dart.tryParseInt_trim, tryParseInt_port hport,
      Option.getD_some]
  rw [parse_bracketed ⟨htext, List.ne_nil_of_mem hcolon, hbracket⟩, htrim, hread]

theorem joinHostPort_plain {host : List Char} {port : Nat} (htrim : Dart.trim host = host) (hcolon : ':' ∉ host)
    (hbracket : ¬ (host.head? = some '[' ∧ host.getLast? = some ']')) :
    joinHostPort host port = host ++ ':' :: digits port := by
  simp [joinHostPort, htrim, hbracket, hcolon]

theorem reparse_plain {host : List Char} {port : Nat} (htrim : Dart.trim host = host) (hcolon : ':' ∉ host)
    (hne : host ≠ []) (hhead : host.head? ≠ some '[') (hpos : 0 < port) (hport : port ≤ 65535)
    (other : List Char) :
    parseManualEndpoint (joinHostPort host port) other = ⟨other, host, discoveryPort port⟩ := by
  have htext : Dart.trim (joinHostPort host port) = host ++ ':' :: digits port := by
    rw [trim_joinHostPort htrim, joinHostPort_plain htrim hcolon (fun h => hhead h.1)]
  have hfirst : (Dart.trim (joinHostPort host port)).head? ≠ some '[' := by
    rw [htext, List.head?_append_of_ne_nil _ hne]
    exact hhead
  have hported : Ported (Dart.trim (joinHostPort host port)) host (digits port) port :=
    ⟨htext, hne, hcolon, not_mem_digits (by decide) port, tryParseInt_port hport, by omega, by omega⟩
  rw [parse_ported hfirst hported, htrim]

/-- A bracket that is not closed keeps the port from being read. -/
theorem reparse_open {host : List Char} {port : Nat} (htrim : Dart.trim host = host) (hcolon : ':' ∉ host)
    (hclose : ']' ∉ host) (hhead : host = [] ∨ host.head? = some '[') (other : List Char) :
    (parseManualEndpoint (joinHostPort host port) other).port = 0 := by
  have htext : Dart.trim (joinHostPort host port) = host ++ ':' :: digits port := by
    rw [trim_joinHostPort htrim, joinHostPort_plain htrim hcolon (fun h => hclose (List.mem_of_getLast? h.2))]
  have hno : ']' ∉ Dart.trim (joinHostPort host port) := by
    have hdigits := not_mem_digits (by decide : (']' : Char).isDigit = false) port
    rw [htext]
    simp [hclose, hdigits]
  rw [parse_other]
  · rintro inner tail ⟨heq, -, -⟩
    rw [heq] at hno
    simp at hno
  · intro hfirst front back read hported
    rw [htext] at hfirst
    rcases hhead with rfl | hhead
    · -- nothing stands in front of the colon
      have heq := htext.symm.trans hported.text
      cases front with
      | nil => exact hported.nonempty rfl
      | cons c front =>
        simp only [List.nil_append, List.cons_append, List.cons.injEq] at heq
        rw [← heq.1] at hported
        exact hported.front_colon List.mem_cons_self
    · refine hfirst ?_
      have hne : host ≠ [] := by
        rintro rfl
        cases hhead
      rw [List.head?_append_of_ne_nil _ hne]
      exact hhead

/-! The whole way. -/

/-- The device is kept as it is. -/
def PeerKept (raw name : List Char) : Prop :=
  (parseManualEndpoint raw name).host ≠ [] →
    ManualPeer.decode (parseManualEndpoint raw name).encode =
      ⟨Dart.trim (replaceBars name), (parseManualEndpoint raw name).host, (parseManualEndpoint raw name).port⟩

/-- The address is read again from what is shown. -/
def EndpointKept (raw name other : List Char) : Prop :=
  (parseManualEndpoint (formatManualEndpoint (parseManualEndpoint raw name)) other).host =
      (parseManualEndpoint raw name).host ∧
    (parseManualEndpoint (formatManualEndpoint (parseManualEndpoint raw name)) other).port =
      (parseManualEndpoint raw name).port

/-- How a text is written that is read, kept and shown without a change. -/
structure WellWritten (value : List Char) : Prop where
  plain_bar : (∀ inner tail, ¬ Bracketed value inner tail) → '|' ∉ value
  bracket_bar : ∀ inner tail, Bracketed value inner tail → '|' ∉ inner
  named_port : ∀ inner tail, Bracketed value inner tail → NamesPort tail →
    ':' ∈ inner ∨ (Dart.trim inner ≠ [] ∧ (Dart.trim inner).head? ≠ some '[')
  inner_port : ∀ inner tail, Bracketed value inner tail → ¬ NamesPort tail →
    (Dart.trim inner).head? ≠ some '[' → ∀ front back port, ¬ Ported (Dart.trim inner) front back port

theorem parse_host_trimmed (raw name : List Char) :
    Dart.trim (parseManualEndpoint raw name).host = (parseManualEndpoint raw name).host := by
  rcases parse_cases raw with ⟨inner, tail, h⟩ | ⟨hbracket, ⟨front, back, port, hhead, h⟩ | hport⟩
  · rw [parse_bracketed h]
    exact Dart.trim_trim inner
  · rw [parse_ported hhead h]
    exact Dart.trim_trim front
  · rw [parse_other hbracket hport]
    exact Dart.trim_trim raw

theorem parse_port_le (raw name : List Char) : (parseManualEndpoint raw name).port ≤ 65535 :=
  discoveryPort_le _

theorem parse_name (raw name : List Char) : (parseManualEndpoint raw name).name = name := rfl

theorem peerKept_iff (raw name : List Char) : PeerKept raw name ↔ '|' ∉ (parseManualEndpoint raw name).host := by
  have hiff := decode_encode_iff (parse_host_trimmed raw name) (parse_port_le raw name)
  rw [parse_name] at hiff
  constructor
  · intro h hin
    exact hiff.mp (h (List.ne_nil_of_mem hin)) hin
  · exact fun h _ => hiff.mpr h

/-- Which endpoints stay, by the host and port alone. -/
theorem reparse_iff {host : List Char} {port : Nat} (htrim : Dart.trim host = host) (hport : discoveryPort port = port)
    (hclose : ']' ∉ host) (name other : List Char) :
    ((parseManualEndpoint (formatManualEndpoint ⟨name, host, port⟩) other).host = host ∧
        (parseManualEndpoint (formatManualEndpoint ⟨name, host, port⟩) other).port = port) ↔
      (0 < port → ':' ∈ host ∨ (host ≠ [] ∧ host.head? ≠ some '[')) ∧
        (¬ 0 < port → host.head? ≠ some '[' → ∀ front back read, ¬ Ported host front back read) := by
  by_cases hpos : 0 < port
  · have hformat : formatManualEndpoint ⟨name, host, port⟩ = joinHostPort host port := if_pos hpos
    have hle := discoveryPort_le port
    rw [hport] at hle
    rw [hformat]
    by_cases hcolon : ':' ∈ host
    · rw [reparse_colon htrim hcolon hclose hle, hport]
      simp [hcolon, hpos]
    · by_cases hplain : host ≠ [] ∧ host.head? ≠ some '['
      · rw [reparse_plain htrim hcolon hplain.1 hplain.2 hpos hle, hport]
        simp [hplain, hpos]
      · have hopen : host = [] ∨ host.head? = some '[' := by tauto
        have hlost : (parseManualEndpoint (joinHostPort host port) other).port = 0 :=
          reparse_open htrim hcolon hclose hopen other
        constructor
        · rintro ⟨-, hsame⟩
          omega
        · rintro ⟨hread, -⟩
          rcases hread hpos with hin | hin
          · exact absurd hin hcolon
          · exact absurd hin hplain
  · have hformat : formatManualEndpoint ⟨name, host, port⟩ = host := (if_neg hpos).trans htrim
    have hzero : port = 0 := by omega
    have hbracket : ∀ inner tail, ¬ Bracketed (Dart.trim host) inner tail := by
      rintro inner tail ⟨heq, -, -⟩
      rw [htrim] at heq
      rw [heq] at hclose
      simp at hclose
    rw [hformat]
    by_cases hread : host.head? ≠ some '[' → ∀ front back read, ¬ Ported host front back read
    · have hread' := hread
      rw [← htrim] at hread'
      rw [parse_other hbracket hread', htrim, hzero]
      simp only [true_and, true_iff]
      exact ⟨fun h => absurd h (by decide), fun _ => hread⟩
    · push Not at hread
      obtain ⟨hhead, front, back, read, hported⟩ := hread
      have hported' := hported
      have hhead' := hhead
      rw [← htrim] at hported' hhead'
      rw [parse_ported hhead' hported']
      constructor
      · rintro ⟨hsame, -⟩
        change Dart.trim front = host at hsame
        have hin : ':' ∈ host := by
          rw [hported.text]
          exact List.mem_append_right _ List.mem_cons_self
        rw [← hsame] at hin
        exact absurd (Dart.trim_subset _ hin) hported.front_colon
      · rintro ⟨-, hno⟩
        exact absurd hported (hno hpos hhead front back read)

theorem Bracketed.unique {value inner inner' tail tail' : List Char} (h : Bracketed value inner tail)
    (h' : Bracketed value inner' tail') : inner = inner' ∧ tail = tail' := by
  have hopen : ∀ {text : List Char}, ']' ∉ text → ']' ∉ '[' :: text := by
    intro text hno hin
    rcases List.mem_cons.mp hin with he | hin
    · exact absurd he (by decide)
    · exact hno hin
  have hsplit := splitFirst_append (hopen h.first) tail
  have hsplit' := splitFirst_append (hopen h'.first) tail'
  rw [List.cons_append, ← h.text] at hsplit
  rw [List.cons_append, ← h'.text, hsplit, Option.some.injEq, Prod.mk.injEq, List.cons.injEq] at hsplit'
  exact ⟨hsplit'.1.2, hsplit'.2⟩

theorem endpointKept_bracketed {raw inner tail : List Char} (h : Bracketed (Dart.trim raw) inner tail)
    (name other : List Char) :
    EndpointKept raw name other ↔
      (NamesPort tail → ':' ∈ inner ∨ (Dart.trim inner ≠ [] ∧ (Dart.trim inner).head? ≠ some '[')) ∧
        (¬ NamesPort tail → (Dart.trim inner).head? ≠ some '[' →
          ∀ front back port, ¬ Ported (Dart.trim inner) front back port) := by
  have hclose : ']' ∉ Dart.trim inner := fun hin => h.first (Dart.trim_subset inner hin)
  have hcolon : ':' ∈ Dart.trim inner ↔ ':' ∈ inner := Dart.mem_trim (by decide)
  rw [EndpointKept, parse_bracketed h, namesPort_iff, ← hcolon]
  exact reparse_iff (Dart.trim_trim inner) (discoveryPort_discoveryPort _) hclose name other

/-- The text in front of the colon begins as the whole text does. -/
theorem head_trim_front {value front back : List Char} {port : Int} (htrim : Dart.trim value = value)
    (h : Ported value front back port) : (Dart.trim front).head? = value.head? := by
  have hspace := head_trimmed htrim
  have hhead : value.head? = front.head? := by
    rw [h.text, List.head?_append_of_ne_nil _ h.nonempty]
  rw [hhead] at hspace ⊢
  cases front with
  | nil => exact absurd rfl h.nonempty
  | cons c rest =>
    have hkept : (c :: rest).dropWhile Dart.whitespace = c :: rest :=
      List.dropWhile_cons_of_neg (by simpa using hspace)
    have hstart : Dart.trim (c :: rest) <+: c :: rest := by
      rw [Dart.trim, trimMatches, hkept]
      exact List.rdropWhile_prefix _ _
    have hin : c ∈ Dart.trim (c :: rest) := (Dart.mem_trim (by simpa using hspace)).mpr List.mem_cons_self
    obtain ⟨d, left, heq⟩ := List.exists_cons_of_ne_nil (List.ne_nil_of_mem hin)
    rw [heq] at hstart ⊢
    rw [List.head?_cons, List.head?_cons, (List.cons_prefix_cons.mp hstart).1]

/-- Without brackets an endpoint is always read again. -/
theorem endpointKept_plain {raw : List Char} (hbracket : ∀ inner tail, ¬ Bracketed (Dart.trim raw) inner tail)
    (name other : List Char) : EndpointKept raw name other := by
  rcases parse_cases raw with ⟨inner, tail, h⟩ | ⟨-, ⟨front, back, port, hhead, h⟩ | hport⟩
  · exact absurd h (hbracket inner tail)
  · have hfirst := head_trim_front (Dart.trim_trim raw) h
    rw [← hfirst] at hhead
    have hcolon : ':' ∉ Dart.trim front := fun hin => h.front_colon (Dart.trim_subset front hin)
    have hne : Dart.trim front ≠ [] := by
      intro he
      rw [he, h.text, List.head?_append_of_ne_nil _ h.nonempty] at hfirst
      exact h.nonempty (List.head?_eq_none_iff.mp hfirst.symm)
    rw [EndpointKept, parse_ported (by rwa [← hfirst]) h]
    by_cases hpos : 0 < discoveryPort port
    · rw [formatManualEndpoint, if_pos hpos, reparse_plain (Dart.trim_trim front) hcolon hne hhead
        hpos (discoveryPort_le port), discoveryPort_discoveryPort]
      exact ⟨rfl, rfl⟩
    · have hzero : discoveryPort port = 0 := by omega
      rw [formatManualEndpoint, if_neg hpos]
      dsimp only
      rw [parse_other]
      · exact ⟨by rw [Dart.trim_trim, Dart.trim_trim], hzero.symm⟩
      · rintro inner tail ⟨heq, -, -⟩
        rw [Dart.trim_trim, Dart.trim_trim] at heq
        rw [heq] at hhead
        exact hhead rfl
      · rintro - front' back' port' hported
        rw [Dart.trim_trim, Dart.trim_trim] at hported
        rw [hported.text] at hcolon
        simp at hcolon
  · rw [EndpointKept, parse_other hbracket hport, formatManualEndpoint, if_neg (Nat.lt_irrefl 0)]
    dsimp only
    rw [parse_other]
    · exact ⟨by rw [Dart.trim_trim, Dart.trim_trim], rfl⟩
    · rw [Dart.trim_trim, Dart.trim_trim]
      exact hbracket
    · rw [Dart.trim_trim, Dart.trim_trim]
      exact hport

theorem bar_not_mem_port {text : List Char} {port : Int} (h : Dart.tryParseInt text = some port) : '|' ∉ text := by
  intro hin
  have hcases := Dart.tryParseInt_chars h hin
  exact absurd hcases (by decide)

theorem bar_mem_host {raw name : List Char} (hbracket : ∀ inner tail, ¬ Bracketed (Dart.trim raw) inner tail) :
    '|' ∈ (parseManualEndpoint raw name).host ↔ '|' ∈ Dart.trim raw := by
  rcases parse_cases raw with ⟨inner, tail, h⟩ | ⟨-, ⟨front, back, port, hhead, h⟩ | hport⟩
  · exact absurd h (hbracket inner tail)
  · have hno := bar_not_mem_port h.parsed
    rw [parse_ported hhead h]
    change '|' ∈ Dart.trim front ↔ _
    rw [Dart.mem_trim (by decide), h.text]
    simp [hno]
  · rw [parse_other hbracket hport]

/-- A device is kept and shown without a change exactly if its text is well written. -/
theorem manualPeer_stable_iff (raw name other : List Char) :
    (PeerKept raw name ∧ EndpointKept raw name other) ↔ WellWritten (Dart.trim raw) := by
  rw [peerKept_iff]
  by_cases hbracket : ∃ inner tail, Bracketed (Dart.trim raw) inner tail
  · obtain ⟨inner, tail, h⟩ := hbracket
    have hbar : '|' ∈ Dart.trim inner ↔ '|' ∈ inner := Dart.mem_trim (by decide)
    rw [endpointKept_bracketed h, parse_bracketed h]
    change ('|' ∉ Dart.trim inner ∧ _) ↔ _
    rw [hbar]
    constructor
    · rintro ⟨hno, hnamed, hinner⟩
      refine ⟨fun hnone => absurd h (hnone inner tail), ?_, ?_, ?_⟩
      all_goals
        intro inner' tail' h'
        obtain ⟨rfl, rfl⟩ := h.unique h'
        assumption
    · intro hwell
      exact ⟨hwell.bracket_bar inner tail h, hwell.named_port inner tail h, hwell.inner_port inner tail h⟩
  · push Not at hbracket
    rw [bar_mem_host hbracket]
    constructor
    · rintro ⟨hno, -⟩
      exact ⟨fun _ => hno, fun inner tail h => absurd h (hbracket inner tail),
        fun inner tail h => absurd h (hbracket inner tail), fun inner tail h => absurd h (hbracket inner tail)⟩
    · exact fun hwell => ⟨hwell.plain_bar hbracket, endpointKept_plain hbracket name other⟩

/-- A separator in the host cuts the host off. -/
theorem manualPeer_host_lost : ¬ PeerKept "nas|backup".toList "note".toList := by
  intro hkept
  have hne : (parseManualEndpoint "nas|backup".toList "note".toList).host ≠ [] := by decide +kernel
  have hhost := congrArg ManualPeer.host (hkept hne)
  have hdecoded : (ManualPeer.decode (parseManualEndpoint "nas|backup".toList "note".toList).encode).host =
      "nas".toList := by decide +kernel
  rw [hdecoded] at hhost
  exact absurd hhost (by decide +kernel)

end InkHole
