import InkHole.DnsPackets

/-! Answers to a query as they are written, and what the parser reads from them. -/

namespace InkHole

open Codes

structure DnsLabel where
  bytes : Bytes
  nonempty : bytes ≠ []
  short : bytes.length ≤ 63

def DnsLabel.encode (label : DnsLabel) : Bytes := UInt8.ofNat label.bytes.length :: label.bytes

/-- A name ends in the root or in a pointer to where it goes on. -/
structure DnsName where
  labels : List DnsLabel
  pointer : Option (Fin (2 ^ 14))

def DnsName.ending (name : DnsName) : Bytes :=
  match name.pointer with
  | none => [0]
  | some offset => [UInt8.ofNat (192 + offset.val / 256), UInt8.ofNat (offset.val % 256)]

def DnsName.encode (name : DnsName) : Bytes := name.labels.flatMap DnsLabel.encode ++ name.ending

/-- A record of class IN. -/
structure DnsRecord where
  name : DnsName
  type : UInt16
  ttl : UInt32
  data : Bytes
  data_length : data.length < 2 ^ 16
  a_length : type = 1 → data.length = 4
  aaaa_length : type = 28 → data.length = 16

/-- Type, class, time to live and length, between the name and the data. -/
def DnsRecord.fixed (record : DnsRecord) : Bytes :=
  bigEndian 2 record.type.toNat ++ [0, 1] ++ bigEndian 4 record.ttl.toNat ++ bigEndian 2 record.data.length

def DnsRecord.encode (record : DnsRecord) : Bytes := record.name.encode ++ (record.fixed ++ record.data)

/-- The address in a record of the type that was asked for. -/
def DnsRecord.address (record : DnsRecord) (qtype : UInt16) : Option IpAddr :=
  if record.type ≠ qtype then none
  else if qtype = 1 then
    some (.v4 (record.data.getD 0 0) (record.data.getD 1 0) (record.data.getD 2 0) (record.data.getD 3 0))
  else if qtype = 28 then some (.v6 record.data)
  else none

/-- An answer without an error. What follows the answers is not looked at. -/
structure DnsResponse where
  flags : UInt8
  codes : UInt8
  noError : codes &&& 0x0f = 0
  answers : List DnsRecord
  answers_length : answers.length < 2 ^ 16
  authorities : UInt16
  additionals : UInt16
  rest : Bytes

/-- The answer repeats the identifier and the question of the query. -/
def DnsResponse.encode (response : DnsResponse) (query : Bytes) : Bytes :=
  (query.take 2 ++ [response.flags, response.codes, 0, 1] ++ bigEndian 2 response.answers.length ++
    bigEndian 2 response.authorities.toNat ++ bigEndian 2 response.additionals.toNat) ++
  (query.drop 12 ++ (response.answers.flatMap DnsRecord.encode ++ response.rest))

/-! Names. -/

theorem getElem?_offset (front back : Bytes) (offset : Nat) : (front ++ back)[front.length + offset]? = back[offset]? := by
  rw [List.getElem?_append_right (by omega)]
  congr 1
  omega

theorem label_byte (n : UInt8) (h : n.toNat ≤ 63) : n &&& 0xc0 ≠ 0xc0 := by
  intro he
  have hnat := congrArg UInt8.toNat he
  rw [UInt8.toNat_and] at hnat
  have hle : n.toNat &&& (0xc0 : UInt8).toNat ≤ n.toNat := Nat.and_le_left
  have hmask : (0xc0 : UInt8).toNat = 192 := rfl
  omega

theorem pointer_byte : ∀ high : Fin 64, UInt8.ofNat (192 + high.val) &&& 0xc0 = 0xc0 := by
  decide

theorem nameStep_label (front : Bytes) (label : DnsLabel) (back : Bytes) :
    nameStep (front ++ (label.encode ++ back)) front.length = some (.went (front.length + label.encode.length)) := by
  have hpos := List.length_pos_iff.mpr label.nonempty
  have hshort := label.short
  have hbyte : (front ++ (label.encode ++ back))[front.length]? = some (UInt8.ofNat label.bytes.length) := by
    have hoffset := getElem?_offset front (label.encode ++ back) 0
    exact hoffset
  have hnat : (UInt8.ofNat label.bytes.length).toNat = label.bytes.length := by
    rw [UInt8.toNat_ofNat']
    omega
  have hzero : UInt8.ofNat label.bytes.length ≠ 0 := by
    intro he
    rw [he] at hnat
    change 0 = _ at hnat
    omega
  have hlength : label.encode.length = 1 + label.bytes.length := by
    rw [DnsLabel.encode, List.length_cons]
    omega
  have hfits : ¬ (front ++ (label.encode ++ back)).length < front.length + (1 + label.bytes.length) := by
    rw [List.length_append, List.length_append, hlength]
    omega
  have hmask := label_byte (UInt8.ofNat label.bytes.length) (by omega)
  simp only [nameStep, hbyte, if_neg hmask, if_neg hzero, hnat, if_neg hfits, hlength]

theorem nameStep_ending (front : Bytes) (name : DnsName) (back : Bytes) :
    nameStep (front ++ (name.ending ++ back)) front.length = some (.ended (front.length + name.ending.length)) := by
  have hbyte := getElem?_offset front (name.ending ++ back) 0
  cases hpointer : name.pointer with
  | none =>
    have hending : name.ending = [0] := by rw [DnsName.ending, hpointer]
    rw [hending] at hbyte ⊢
    simp [nameStep]
  | some offset =>
    have hending : name.ending = [UInt8.ofNat (192 + offset.val / 256), UInt8.ofNat (offset.val % 256)] := by
      rw [DnsName.ending, hpointer]
    have hmask := pointer_byte ⟨offset.val / 256, by omega⟩
    rw [hending] at hbyte ⊢
    change (front ++ _)[front.length]? = some (UInt8.ofNat (192 + offset.val / 256)) at hbyte
    have hfits : front.length + 2 ≤
        (front ++ ([UInt8.ofNat (192 + offset.val / 256), UInt8.ofNat (offset.val % 256)] ++ back)).length := by
      simp only [List.length_append, List.length_cons, List.length_nil]
      omega
    simp only [nameStep, hbyte, if_pos hmask, if_pos hfits]
    rfl

theorem skip_ended {packet : Bytes} {cursor next : Nat} (h : nameStep packet cursor = some (.ended next)) :
    skipDnsName packet cursor = some next := by
  rw [skipDnsName]
  split <;> simp_all

theorem skip_went {packet : Bytes} {cursor next : Nat} (h : nameStep packet cursor = some (.went next)) :
    skipDnsName packet cursor = skipDnsName packet next := by
  rw [skipDnsName]
  split <;> simp_all

/-- A name is skipped to its end, however it is written. -/
theorem skip_name (front : Bytes) (name : DnsName) (back : Bytes) :
    skipDnsName (front ++ (name.encode ++ back)) front.length = some (front.length + name.encode.length) := by
  obtain ⟨labels, pointer⟩ := name
  induction labels generalizing front with
  | nil =>
    have hstep := nameStep_ending front ⟨[], pointer⟩ back
    exact skip_ended hstep
  | cons label labels ih =>
    have hencode : (DnsName.mk (label :: labels) pointer).encode =
        label.encode ++ (DnsName.mk labels pointer).encode := by
      simp [DnsName.encode, DnsName.ending]
    have hstep := nameStep_label front label ((DnsName.mk labels pointer).encode ++ back)
    have hlater := ih (front ++ label.encode)
    rw [List.append_assoc, List.length_append] at hlater
    rw [hencode, List.append_assoc, skip_went hstep, hlater, List.length_append, Nat.add_assoc]

/-! Records. -/

theorem parsed_bind {α β : Type} (a : α) (f : α → Except Fault β) : (Except.ok a >>= f) = f a := rfl

theorem byteAt_offset (front : Bytes) {back : Bytes} {offset : Nat} {b : UInt8} (h : back[offset]? = some b) :
    byteAt (front ++ back) (front.length + offset) = .ok b := by
  rw [byteAt, getElem?_offset, h]

theorem bigEndian_two (n : Nat) : bigEndian 2 n = [UInt8.ofNat (n / 256 % 256), UInt8.ofNat (n % 256)] := by
  simp [bigEndian]

/-- A number of two bytes is read where it stands. -/
theorem u16At_offset (front back : Bytes) {n : Nat} (h : n < 2 ^ 16) :
    u16At (front ++ (bigEndian 2 n ++ back)) front.length = .ok n := by
  have hread := ofBigEndian_bigEndian 2 n
  have hsmall : n % 256 ^ 2 = n := Nat.mod_eq_of_lt (by omega)
  have hfirst : (bigEndian 2 n ++ back)[0]? = some (UInt8.ofNat (n / 256 % 256)) := by
    rw [bigEndian_two]
    rfl
  have hsecond : (bigEndian 2 n ++ back)[1]? = some (UInt8.ofNat (n % 256)) := by
    rw [bigEndian_two]
    rfl
  have hhigh := byteAt_offset front hfirst
  have hlow := byteAt_offset front hsecond
  rw [Nat.add_zero] at hhigh
  rw [bigEndian_two, hsmall] at hread
  rw [u16At, hhigh, hlow]
  exact congrArg Except.ok hread

theorem slice_offset (front data back : Bytes) :
    slice (front ++ (data ++ back)) front.length data.length = .ok data := by
  rw [slice_ok (by simp only [List.length_append]; omega), List.drop_left, List.take_left]

theorem length_fixed (record : DnsRecord) : record.fixed.length = 10 := by
  simp only [DnsRecord.fixed, List.length_append, length_bigEndian, List.length_cons, List.length_nil]

theorem readType_offset (front : Bytes) (record : DnsRecord) (back : Bytes) :
    u16At (front ++ (record.fixed ++ back)) front.length = .ok record.type.toNat := by
  have hread := u16At_offset front ([0, 1] ++ bigEndian 4 record.ttl.toNat ++ bigEndian 2 record.data.length ++ back)
    record.type.toNat_lt
  simpa only [DnsRecord.fixed, List.append_assoc] using hread

theorem readLength_offset (front : Bytes) (record : DnsRecord) (back : Bytes) :
    u16At (front ++ (record.fixed ++ back)) (front.length + 8) = .ok record.data.length := by
  have hread := u16At_offset (front ++ (bigEndian 2 record.type.toNat ++ [0, 1] ++ bigEndian 4 record.ttl.toNat)) back
    record.data_length
  have hlength : (front ++ (bigEndian 2 record.type.toNat ++ [0, 1] ++ bigEndian 4 record.ttl.toNat)).length =
      front.length + 8 := by
    simp only [List.length_append, length_bigEndian, List.length_cons, List.length_nil]
  rw [hlength] at hread
  simpa only [DnsRecord.fixed, List.append_assoc] using hread

theorem answerAddress_data {record : DnsRecord} {qtype : UInt16} (h : record.type = qtype) :
    answerAddress qtype.toNat record.data.length record.data = .ok (record.address qtype) := by
  subst h
  have hone : record.type.toNat = 1 ↔ record.type = 1 := by
    rw [← UInt16.toNat_inj]
    rfl
  have hquad : record.type.toNat = 28 ↔ record.type = 28 := by
    rw [← UInt16.toNat_inj]
    rfl
  have hself : ¬ (record.type ≠ record.type) := fun hne => hne rfl
  rw [answerAddress, DnsRecord.address, if_neg hself]
  by_cases hv4 : record.type = 1
  · have hlength := record.a_length hv4
    rw [if_pos ⟨hone.mpr hv4, hlength⟩, if_pos hv4, byteAt_ok (by omega), byteAt_ok (by omega), byteAt_ok (by omega),
      byteAt_ok (by omega)]
    simp [bind, Except.bind, pure, Except.pure, hlength]
  · rw [if_neg (fun h => hv4 (hone.mp h.1)), if_neg hv4]
    by_cases hv6 : record.type = 28
    · have hlength := record.aaaa_length hv6
      rw [if_pos ⟨hquad.mpr hv6, hlength⟩, if_pos hlength, if_pos hv6]
    · rw [if_neg (fun h => hv6 (hquad.mp h.1)), if_neg hv6]

/-- A record is read to its end. -/
theorem readRecord_encode (front : Bytes) (record : DnsRecord) (qtype : UInt16) (back : Bytes) :
    readRecord (front ++ (record.encode ++ back)) qtype front.length =
      .ok (record.address qtype, front.length + record.encode.length) := by
  have hencode : record.encode ++ back = record.name.encode ++ (record.fixed ++ (record.data ++ back)) := by
    simp only [DnsRecord.encode, List.append_assoc]
  have hskip := skip_name front record.name (record.fixed ++ (record.data ++ back))
  rw [← List.append_assoc, ← List.length_append] at hskip
  have hend : front.length + record.encode.length =
      (front ++ record.name.encode).length + 10 + record.data.length := by
    simp only [DnsRecord.encode, List.length_append, length_fixed]
    omega
  rw [hencode, ← List.append_assoc, hend, readRecord, hskip]
  generalize front ++ record.name.encode = named
  have hlength : (named ++ (record.fixed ++ (record.data ++ back))).length =
      named.length + 10 + record.data.length + back.length := by
    simp only [List.length_append, length_fixed]
    omega
  have hdata := slice_offset (named ++ record.fixed) record.data back
  rw [List.length_append, length_fixed, List.append_assoc] at hdata
  change (if _ then _ else _) = _
  rw [if_neg (by omega), readType_offset, parsed_bind, readLength_offset, parsed_bind]
  dsimp only
  rw [if_neg (by omega), hdata, parsed_bind]
  by_cases htype : record.type = qtype
  · rw [if_neg (by rw [htype]; simp), answerAddress_data htype, parsed_bind]
    rfl
  · rw [if_pos (fun h => htype (UInt16.toNat_inj.mp h)), DnsRecord.address, if_pos htype]

theorem readAnswers_encode (front : Bytes) (answers : List DnsRecord) (qtype : UInt16) (back : Bytes)
    (collected : List IpAddr) :
    readAnswers (front ++ (answers.flatMap DnsRecord.encode ++ back)) qtype answers.length front.length collected =
      .ok (collected ++ answers.filterMap fun record => record.address qtype) := by
  induction answers generalizing front collected with
  | nil =>
    rw [List.filterMap_nil, List.append_nil]
    rfl
  | cons record answers ih =>
    have hread := readRecord_encode front record qtype (answers.flatMap DnsRecord.encode ++ back)
    have hlater := ih (front ++ record.encode) (collected ++ (record.address qtype).toList)
    rw [List.append_assoc, List.length_append] at hlater
    have hfound : (record :: answers).filterMap (fun record => record.address qtype) =
        (record.address qtype).toList ++ answers.filterMap fun record => record.address qtype := by
      cases h : record.address qtype <;> simp [h]
    rw [List.flatMap_cons, List.append_assoc, List.length_cons, readAnswers, hread, parsed_bind]
    dsimp only
    rw [hlater, hfound, List.append_assoc]

/-! The query, and the whole answer. -/

theorem encodeLabels_ok {host : String} {labels : List (List Char)} {bytes : Bytes}
    (h : encodeLabels host labels = .ok bytes) : ∃ encoded : List DnsLabel, bytes = encoded.flatMap DnsLabel.encode := by
  induction labels generalizing bytes with
  | nil =>
    cases h
    exact ⟨[], rfl⟩
  | cons label labels ih =>
    rw [encodeLabels] at h
    by_cases hinvalid : (String.ofList label).toUTF8.toList = [] ∨ 63 < (String.ofList label).toUTF8.toList.length
    · rw [if_pos hinvalid] at h
      cases h
    · rw [if_neg hinvalid] at h
      rw [not_or] at hinvalid
      cases hlater : encodeLabels host labels with
      | error e =>
        rw [hlater] at h
        cases h
      | ok later =>
        rw [hlater] at h
        cases h
        obtain ⟨encoded, rfl⟩ := ih hlater
        exact ⟨⟨(String.ofList label).toUTF8.toList, hinvalid.1, by omega⟩ :: encoded, by simp [DnsLabel.encode]⟩

/-- A query is its identifier, a header and a question with a plain name. -/
theorem buildDnsQuery_ok {id qtype : UInt16} {host : String} {query : Bytes}
    (h : buildDnsQuery id host qtype = .ok query) :
    query.take 2 = bigEndian 2 id.toNat ∧
      ∃ name : DnsName, query.drop 12 = name.encode ++ (bigEndian 2 qtype.toNat ++ [0, 1]) := by
  rw [buildDnsQuery] at h
  cases hlabels : encodeLabels host (dnsLabels host) with
  | error e =>
    rw [hlabels] at h
    cases h
  | ok labels =>
    rw [hlabels] at h
    cases h
    obtain ⟨encoded, rfl⟩ := encodeLabels_ok hlabels
    refine ⟨by simp [bigEndian_two], ⟨encoded, none⟩, ?_⟩
    simp [bigEndian_two, DnsName.encode, DnsName.ending]

/-- The question is skipped to its end. -/
theorem readQuestion_name (front : Bytes) (name : DnsName) {types : Bytes} (htypes : types.length = 4) (back : Bytes) :
    readQuestion (front ++ (name.encode ++ (types ++ back))) front.length =
      .ok (front ++ (name.encode ++ types)).length := by
  have hskip := skip_name front name (types ++ back)
  have hfits : ¬ (front ++ (name.encode ++ (types ++ back))).length < front.length + name.encode.length + 4 := by
    simp only [List.length_append, htypes]
    omega
  rw [readQuestion, hskip]
  change (if _ then _ else _) = _
  rw [if_neg hfits]
  simp only [List.length_append, htypes]
  rw [Nat.add_assoc]

/-- The answers of a response are the addresses that were asked for. -/
theorem parseDnsAnswers_response {id qtype : UInt16} {host : String} {query : Bytes}
    (h : buildDnsQuery id host qtype = .ok query) (response : DnsResponse) :
    parseDnsAnswers (response.encode query) id qtype =
      .ok (response.answers.filterMap fun record => record.address qtype) := by
  obtain ⟨hid, name, hquestion⟩ := buildDnsQuery_ok h
  obtain ⟨flags, codes, hcodes, answers, hanswers, authorities, additionals, rest⟩ := response
  generalize htypes : bigEndian 2 qtype.toNat ++ [0, 1] = types at hquestion
  have hfour : types.length = 4 := by
    rw [← htypes]
    simp
  generalize hheader : bigEndian 2 id.toNat ++ [flags, codes, 0, 1] ++ bigEndian 2 answers.length ++
    bigEndian 2 authorities.toNat ++ bigEndian 2 additionals.toNat = header
  generalize hback : answers.flatMap DnsRecord.encode ++ rest = back
  have hpacket : (DnsResponse.mk flags codes hcodes answers hanswers authorities additionals rest).encode query =
      header ++ (name.encode ++ (types ++ back)) := by
    rw [DnsResponse.encode, hid, hquestion, hheader, hback]
    simp only [List.append_assoc]
  have htwelve : header.length = 12 := by
    rw [← hheader]
    simp only [List.length_append, length_bigEndian, List.length_cons, List.length_nil]
  have hstart : slice (header ++ (name.encode ++ (types ++ back))) 0 2 = .ok (bigEndian 2 id.toNat) := by
    rw [← hheader]
    simp only [List.append_assoc]
    exact slice_offset [] (bigEndian 2 id.toNat) _
  have hflags : byteAt (header ++ (name.encode ++ (types ++ back))) 3 = .ok codes := by
    have hread : ∀ tail, byteAt (bigEndian 2 id.toNat ++ flags :: codes :: tail) ((bigEndian 2 id.toNat).length + 1) =
        .ok codes := fun tail => byteAt_offset (bigEndian 2 id.toNat) rfl
    rw [length_bigEndian] at hread
    rw [← hheader]
    simp only [List.append_assoc, List.cons_append]
    exact hread _
  have hquestions : u16At (header ++ (name.encode ++ (types ++ back))) 4 = .ok 1 := by
    have hread := u16At_offset (bigEndian 2 id.toNat ++ [flags, codes]) (bigEndian 2 answers.length ++
      (bigEndian 2 authorities.toNat ++ (bigEndian 2 additionals.toNat ++ (name.encode ++ (types ++ back)))))
      (by decide : 1 < 2 ^ 16)
    have hone : bigEndian 2 1 = [0, 1] := by decide
    rw [hone] at hread
    rw [← hheader]
    simpa only [List.append_assoc, List.cons_append, List.nil_append, List.length_append, length_bigEndian,
      List.length_cons, List.length_nil] using hread
  have hcount : u16At (header ++ (name.encode ++ (types ++ back))) 6 = .ok answers.length := by
    have hread := u16At_offset (bigEndian 2 id.toNat ++ [flags, codes, 0, 1]) (bigEndian 2 authorities.toNat ++
      (bigEndian 2 additionals.toNat ++ (name.encode ++ (types ++ back)))) hanswers
    rw [← hheader]
    simpa only [List.append_assoc, List.cons_append, List.nil_append, List.length_append, length_bigEndian,
      List.length_cons, List.length_nil] using hread
  have hskipped := readQuestion_name header name hfour back
  have hread := readAnswers_encode (header ++ (name.encode ++ types)) answers qtype rest []
  have hlong : ¬ (header ++ (name.encode ++ (types ++ back))).length < 12 := by
    simp only [List.length_append]
    omega
  rw [hback, List.append_assoc, List.append_assoc] at hread
  rw [htwelve] at hskipped
  rw [hpacket, parseDnsAnswers, if_neg hlong, hstart, parsed_bind, if_neg (fun hne => hne rfl), hflags, parsed_bind,
    if_neg (fun hne => hne hcodes), hquestions, parsed_bind, hcount, parsed_bind, readQuestions, hskipped, parsed_bind,
    readQuestions, parsed_bind, hread]
  rfl

/-- The parser comes to an end in any packet: no index is outside of it, and every turn of a loop moves the
cursor on inside of it. -/
structure WalksPacket (packet : Bytes) : Prop where
  name : ∀ cursor step, nameStep packet cursor = some step → cursor < step.cursor ∧ step.cursor ≤ packet.length
  question : ∀ cursor next, readQuestion packet cursor = .ok next → cursor < next ∧ next ≤ packet.length
  record : ∀ qtype cursor record, readRecord packet qtype cursor = .ok record →
    cursor < record.2 ∧ record.2 ≤ packet.length
  safe : ∀ id qtype, Safe (parseDnsAnswers packet id qtype)

theorem walksPacket (packet : Bytes) : WalksPacket packet :=
  ⟨fun _ _ => nameStep_advances, fun _ _ => readQuestion_advances, fun _ _ _ => readRecord_advances,
    safe_parseDnsAnswers packet⟩

/-- Any packet is walked through, and the answer to a query gives the addresses that were asked for. -/
theorem parseDnsAnswers_correct :
    (∀ packet, WalksPacket packet) ∧
      ∀ id qtype host query, buildDnsQuery id host qtype = .ok query → ∀ response : DnsResponse,
        parseDnsAnswers (response.encode query) id qtype =
          .ok (response.answers.filterMap fun record => record.address qtype) :=
  ⟨walksPacket, fun _ _ _ _ h response => parseDnsAnswers_response h response⟩

/-- An alias and an address, the name of both a pointer to the question. -/
def relayResponse : DnsResponse where
  flags := 0x81
  codes := 0x80
  noError := by decide
  answers := [⟨⟨[], some 12⟩, 5, 60, [0xc0, 0x0c], by decide, by decide, by decide⟩,
    ⟨⟨[], some 12⟩, 1, 60, [1, 2, 3, 4], by decide, by decide, by decide⟩]
  answers_length := by decide
  authorities := 0
  additionals := 0
  rest := []

theorem parseDnsAnswers_relayResponse :
    parseDnsAnswers (relayResponse.encode [0x12, 0x34, 1, 0, 0, 1, 0, 0, 0, 0, 0, 0, 1, 120, 2, 105, 111, 0, 0, 1, 0, 1])
      0x1234 1 = .ok [.v4 1 2 3 4] :=
  parseDnsAnswers_correct.2 0x1234 1 "x.io" _ (by decide +kernel) relayResponse

end InkHole
