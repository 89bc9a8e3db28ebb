import InkHole.ManualPeers
import InkHole.PairExchange

/-! The targets of the discovery: the app writes them as text, and the core reads the text. -/

namespace InkHole

/-! What the app writes. -/

/-- Without a port the target is the host alone. -/
def discoveryTargetFor (peer : ManualPeer) : List Char :=
  let parsed := parseManualEndpoint
    (if 0 < peer.port then joinHostPort (Dart.trim peer.host) peer.port else peer.host) peer.name
  if parsed.host = [] then []
  else if 0 < parsed.port then joinHostPort parsed.host parsed.port
  else parsed.host

/-! What the core reads. -/

def udpDiscoveryPort : Nat := 41301

/-- Splits at the first place where the mark stands. -/
def splitOnce (mark : List Char) : List Char → Option (List Char × List Char)
  | [] => if mark = [] then some ([], []) else none
  | c :: rest =>
    if mark.isPrefixOf (c :: rest) then some ([], (c :: rest).drop mark.length)
    else (splitOnce mark rest).map fun parts => (c :: parts.1, parts.2)

def nonzeroPort (text : List Char) : Option Nat := (parseU16 text).filter (· != 0)

/-- A host in brackets with a port. -/
def bracketTarget (raw : List Char) : Option (List Char × Nat) :=
  if raw.head? = some '[' then
    (splitOnce [']', ':'] raw.tail).bind fun parts => (nonzeroPort parts.2).map fun port => (parts.1, port)
  else none

/-- A host without colons with a port. -/
def plainTarget (raw : List Char) : Option (List Char × Nat) :=
  (splitLast ':' raw).bind fun parts =>
    if ':' ∈ parts.1 then none else (nonzeroPort parts.2).map fun port => (parts.1, port)

def discoveryTargetParts (raw : List Char) : List Char × Nat :=
  let raw := trimMatches isWhitespace raw
  ((bracketTarget raw).or (plainTarget raw)).getD (raw, udpDiscoveryPort)

/-! Hosts. -/

/-- The text of an IPv6 address, where characters go that are no bracket and no white space. -/
structure AddressText (address : List Char) : Prop where
  colons : 2 ≤ address.count ':'
  opening : '[' ∉ address
  closing : ']' ∉ address
  spaces : ∀ c ∈ address, Dart.whitespace c = false

/-- The text of a name or an IPv4 address. -/
structure NameText (name : List Char) : Prop where
  nonempty : name ≠ []
  colon : ':' ∉ name
  opening : '[' ∉ name
  closing : ']' ∉ name
  spaces : ∀ c ∈ name, Dart.whitespace c = false

/-- How a host is written, and the host without brackets. -/
inductive HostForm : List Char → List Char → Prop
  | name {host : List Char} : NameText host → HostForm host host
  | bare {address : List Char} : AddressText address → HostForm address address
  | bracketed {address : List Char} : AddressText address → HostForm ('[' :: (address ++ [']'])) address

theorem AddressText.colon {address : List Char} (h : AddressText address) : ':' ∈ address :=
  List.count_pos_iff.mp (by have hcolons := h.colons; omega)

/-- Every colon of an address has another one on one of its sides. -/
theorem AddressText.split {address front back : List Char} (h : AddressText address)
    (heq : address = front ++ ':' :: back) : ':' ∈ front ∨ ':' ∈ back := by
  by_contra hno
  rw [not_or] at hno
  have hcolons := h.colons
  rw [heq, List.count_append, List.count_cons_self, List.count_eq_zero_of_not_mem hno.1,
    List.count_eq_zero_of_not_mem hno.2] at hcolons
  omega

theorem AddressText.not_ported {address front back : List Char} {port : Int} (h : AddressText address) :
    ¬ Ported address front back port := by
  intro hported
  rcases h.split hported.text with hfront | hback
  · exact hported.front_colon hfront
  · exact hported.back_colon hback

theorem not_bracketed {text inner tail : List Char} (h : '[' ∉ text) : ¬ Bracketed text inner tail := by
  intro hbracketed
  rw [hbracketed.text] at h
  exact h List.mem_cons_self

theorem head_ne {c : Char} {text : List Char} (h : c ∉ text) : text.head? ≠ some c :=
  fun hc => h (List.mem_of_mem_head? hc)

/-! What the app reads from a host before it writes the target. -/

theorem trim_brackets (address : List Char) : Dart.trim ('[' :: (address ++ [']'])) = '[' :: (address ++ [']']) := by
  refine Dart.trim_self rfl ?_
  rw [← List.cons_append, List.getLast?_concat]
  rfl

/-- In brackets an address is joined with a port as without them. -/
theorem joinHostPort_bracketed {address : List Char} (h : AddressText address) (port : Nat) :
    joinHostPort ('[' :: (address ++ [']'])) port = joinHostPort address port := by
  have hlast : ('[' :: (address ++ [']'])).getLast? = some ']' := by
    rw [← List.cons_append, List.getLast?_concat]
  rw [joinHostPort_colon (Dart.trim_spaceless h.spaces) h.colon h.closing, joinHostPort, trim_brackets, if_pos ⟨List.head?_cons, hlast⟩]
  simp

/-- The host and port that the target is made of. -/
theorem parse_joined {host plain : List Char} {port : Nat} (h : HostForm host plain) (hport : port ≤ 65535)
    (name : List Char) :
    parseManualEndpoint (if 0 < port then joinHostPort (Dart.trim host) port else host) name =
      ⟨name, plain, discoveryPort port⟩ := by
  by_cases hpos : 0 < port
  · rw [if_pos hpos]
    cases h with
    | name h =>
      have htrim := Dart.trim_spaceless h.spaces
      rw [htrim]
      exact reparse_plain htrim h.colon h.nonempty (head_ne h.opening) hpos hport name
    | bare h =>
      have htrim := Dart.trim_spaceless h.spaces
      rw [htrim]
      exact reparse_colon htrim h.colon h.closing hport name
    | bracketed h =>
      rw [trim_brackets, joinHostPort_bracketed h]
      exact reparse_colon (Dart.trim_spaceless h.spaces) h.colon h.closing hport name
  · have hzero : port = 0 := by omega
    rw [if_neg hpos, hzero]
    cases h with
    | name h =>
      have htrim := Dart.trim_spaceless h.spaces
      rw [parse_other, htrim]
      · rfl
      · rw [htrim]
        exact fun _ _ => not_bracketed h.opening
      · rw [htrim]
        intro _ front back read hported
        rw [hported.text] at h
        exact h.colon (List.mem_append_right _ List.mem_cons_self)
    | bare h =>
      have htrim := Dart.trim_spaceless h.spaces
      rw [parse_other, htrim]
      · rfl
      · rw [htrim]
        exact fun _ _ => not_bracketed h.opening
      · rw [htrim]
        exact fun _ _ _ _ => h.not_ported
    | bracketed h =>
      have hne : plain ≠ [] := List.ne_nil_of_mem h.colon
      rw [parse_bracketed ⟨trim_brackets plain, hne, h.closing⟩, Dart.trim_spaceless h.spaces]
      rfl

/-! What the core makes of the target. -/

theorem core_trimmed {text : List Char} (h : Dart.trim text = text) : trimMatches isWhitespace text = text := by
  rw [← h]
  exact trimMatches_trimMatches Dart.whitespace_of_isWhitespace text

theorem parseU16_digits {n : Nat} (h : n ≤ 65535) : parseU16 (digits n) = some n := by
  have hplus : (digits n).head? ≠ some '+' := head_ne (not_mem_digits (by decide) n)
  have hvalue : (digits n).foldl (fun m c => m * 10 + (c.toNat - 48)) 0 = n := by
    have hread := Nat.ofDigitChars_ten_toDigits (n := n)
    rw [Nat.ofDigitChars_eq_foldl] at hread
    simp only [Nat.mul_comm _ 10]
    exact hread
  have hall : (digits n).all Char.isDigit = true := List.all_eq_true.mpr fun c hc => digits_isDigit hc
  have hne : digits n ≠ [] := Nat.toDigits_ne_nil
  simp only [parseU16, if_neg hplus, hvalue]
  exact if_pos ⟨hne, hall, by omega⟩

theorem nonzeroPort_digits {n : Nat} (hpos : 0 < n) (h : n ≤ 65535) : nonzeroPort (digits n) = some n := by
  rw [nonzeroPort, parseU16_digits h, Option.filter_some, if_pos (by simpa using Nat.ne_of_gt hpos)]

theorem splitOnce_append {c : Char} {mark front : List Char} (h : c ∉ front) (back : List Char) :
    splitOnce (c :: mark) (front ++ c :: (mark ++ back)) = some (front, back) := by
  induction front with
  | nil =>
    have hstart : (c :: mark).isPrefixOf (c :: (mark ++ back)) = true :=
      List.isPrefixOf_iff_prefix.mpr (List.prefix_append (c :: mark) back)
    rw [List.nil_append, splitOnce, if_pos hstart]
    simp
  | cons d front ih =>
    rw [List.mem_cons, not_or] at h
    have hstart : (c :: mark).isPrefixOf (d :: (front ++ c :: (mark ++ back))) = false := by
      simp [List.isPrefixOf, h.1]
    rw [List.cons_append, splitOnce, hstart, if_neg Bool.false_ne_true, ih h.2]
    rfl

theorem parts_of_colon {address : List Char} {port : Nat} (h : AddressText address) (hpos : 0 < port)
    (hport : port ≤ 65535) : discoveryTargetParts (joinHostPort address port) = (address, port) := by
  have htrim := Dart.trim_spaceless h.spaces
  have hbracket : bracketTarget (joinHostPort address port) = some (address, port) := by
    have hsplit : splitOnce [']', ':'] (address ++ ']' :: ([':'] ++ digits port)) = some (address, digits port) :=
      splitOnce_append h.closing (digits port)
    rw [bracketTarget, joinHostPort_colon htrim h.colon h.closing, List.head?_cons, if_pos rfl, List.tail_cons]
    change Option.bind (splitOnce [']', ':'] (address ++ ']' :: ([':'] ++ digits port))) _ = _
    rw [hsplit, Option.bind_some, nonzeroPort_digits hpos hport, Option.map_some]
  simp only [discoveryTargetParts, core_trimmed (trim_joinHostPort htrim port), hbracket, Option.some_or,
    Option.getD_some]

theorem parts_of_name {name : List Char} {port : Nat} (h : NameText name) (hpos : 0 < port) (hport : port ≤ 65535) :
    discoveryTargetParts (joinHostPort name port) = (name, port) := by
  have htrim := Dart.trim_spaceless h.spaces
  have hjoin : joinHostPort name port = name ++ ':' :: digits port :=
    joinHostPort_plain htrim h.colon fun hends => head_ne h.opening hends.1
  have hbracket : bracketTarget (joinHostPort name port) = none := by
    refine if_neg ?_
    rw [hjoin, List.head?_append_of_ne_nil _ h.nonempty]
    exact head_ne h.opening
  have hplain : plainTarget (joinHostPort name port) = some (name, port) := by
    rw [plainTarget, hjoin, splitLast_append (not_mem_digits (by decide) port), Option.bind_some, if_neg h.colon,
      nonzeroPort_digits hpos hport, Option.map_some]
  simp only [discoveryTargetParts, core_trimmed (trim_joinHostPort htrim port), hbracket, hplain, Option.none_or,
    Option.getD_some]

/-- Without a port the core takes the whole text as the host. -/
theorem parts_of_host {host : List Char} (hspaces : ∀ c ∈ host, Dart.whitespace c = false) (hopening : '[' ∉ host)
    (hcolon : ∀ front back, host = front ++ ':' :: back → ':' ∉ back → ':' ∈ front) :
    discoveryTargetParts host = (host, udpDiscoveryPort) := by
  have hbracket : bracketTarget host = none := if_neg (head_ne hopening)
  have hplain : plainTarget host = none := by
    by_cases hin : ':' ∈ host
    · obtain ⟨front, back, heq, hback⟩ := exists_splitLast hin
      rw [plainTarget, heq, splitLast_append hback, Option.bind_some, if_pos (hcolon front back heq hback)]
    · rw [plainTarget, splitLast_none hin, Option.bind_none]
  simp only [discoveryTargetParts, core_trimmed (Dart.trim_spaceless hspaces), hbracket, hplain, Option.none_or,
    Option.getD_none]

/-- The core reads from a target the host and the port that the device has. -/
theorem discoveryTarget_parts {peer : ManualPeer} {plain : List Char} (h : HostForm peer.host plain)
    (hport : peer.port ≤ 65535) :
    discoveryTargetParts (discoveryTargetFor peer) =
      (plain, if peer.port = 0 ∨ peer.port = quicDefaultPort ∨ peer.port = discoveryDefaultPort then udpDiscoveryPort
        else peer.port) := by
  obtain ⟨name, host, port⟩ := peer
  dsimp only at h hport ⊢
  have hne : plain ≠ [] := by
    cases h with
    | name h => exact h.nonempty
    | bare h => exact List.ne_nil_of_mem h.colon
    | bracketed h => exact List.ne_nil_of_mem h.colon
  have hread := parse_joined h hport name
  simp only [discoveryTargetFor, hread]
  rw [if_neg hne]
  by_cases hpos : 0 < discoveryPort port
  · obtain ⟨hlow, -, hquic, hdiscovery⟩ := discoveryPort_pos_iff.mp hpos
    have heq : discoveryPort port = port := by
      have hsame := discoveryPort_of_pos hpos
      omega
    rw [if_pos hpos, heq, if_neg (by omega)]
    cases h with
    | name h => exact parts_of_name h (by omega) hport
    | bare h => exact parts_of_colon h (by omega) hport
    | bracketed h => exact parts_of_colon h (by omega) hport
  · have hdefault : port = 0 ∨ port = quicDefaultPort ∨ port = discoveryDefaultPort := by
      rw [discoveryPort_pos_iff] at hpos
      omega
    rw [if_neg hpos, if_pos hdefault]
    cases h with
    | name h =>
      refine parts_of_host h.spaces h.opening fun front back heq _ => ?_
      rw [heq] at h
      exact absurd (List.mem_append_right _ List.mem_cons_self) h.colon
    | bare h => exact parts_of_host h.spaces h.opening fun front back heq hback => (h.split heq).resolve_right hback
    | bracketed h =>
      exact parts_of_host h.spaces h.opening fun front back heq hback => (h.split heq).resolve_right hback

/-- An address in brackets, with a port. -/
theorem discoveryTarget_parts_address :
    discoveryTargetParts (discoveryTargetFor ⟨"note".toList, "[fd00::7]".toList, 41234⟩) =
      ("fd00::7".toList, 41234) := by
  have haddress : AddressText "fd00::7".toList := ⟨by decide, by decide, by decide, any_false_iff.mp (by decide +kernel)⟩
  have hform : HostForm "[fd00::7]".toList "fd00::7".toList := HostForm.bracketed haddress
  exact discoveryTarget_parts hform (by decide)

end InkHole
