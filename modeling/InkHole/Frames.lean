import InkHole.Operations
import InkHole.RelayFrames

/-! Frames of a length and a JSON text: the control frames of a transfer, the manifest of a folder
and the control frames of a relay channel. What is written is read back whatever follows it and in
whatever pieces it comes, and nothing past a frame is taken from the stream. -/

namespace InkHole

open Codes

/-! Readers, with the stream they leave also where they fail. -/

abbrev StreamM := ExceptT CoreError (StateM Incoming)

namespace StreamM

variable {α β : Type}

def on (x : StreamM α) (s : Incoming) : Except CoreError α × Incoming := x.run.run s

/-- The reader as one that gives up its stream when it fails. -/
def value (x : StreamM α) (s : Incoming) : Except CoreError (α × Incoming) := (x.on s).1.map fun a => (a, (x.on s).2)

theorem on_bind_ok {x : StreamM α} {f : α → StreamM β} {s s' : Incoming} {a : α} (h : x.on s = (.ok a, s')) :
    (x >>= f).on s = (f a).on s' := by
  change (ExceptT.bindCont f (x.on s).1).run (x.on s).2 = _
  rw [h]
  rfl

theorem on_bind_error {x : StreamM α} {f : α → StreamM β} {s s' : Incoming} {e : CoreError}
    (h : x.on s = (.error e, s')) : (x >>= f).on s = (.error e, s') := by
  change (ExceptT.bindCont f (x.on s).1).run (x.on s).2 = _
  rw [h]
  rfl

@[simp] theorem on_pure (a : α) (s : Incoming) : (pure a : StreamM α).on s = (.ok a, s) := rfl

@[simp] theorem on_lift (x : Except CoreError α) (s : Incoming) : (liftM x : StreamM α).on s = (x, s) := rfl

@[simp] theorem on_throw (e : CoreError) (s : Incoming) : (throw e : StreamM α).on s = (.error e, s) := rfl

theorem value_bind (x : StreamM α) (f : α → StreamM β) (s : Incoming) :
    (x >>= f).value s = x.value s >>= fun a => (f a.1).value a.2 := by
  rw [value, value]
  cases hx : x.on s with
  | mk r s' =>
    cases r with
    | error e =>
      rw [on_bind_error hx]
      rfl
    | ok a =>
      rw [on_bind_ok hx]
      rfl

/-- A read that waits for one byte at least. -/
def poll (wanted : Nat) : StreamM Bytes := ExceptT.mk fun s =>
  match s.read wanted with
  | .error e => (.error e, s)
  | .ok none => (.error (.io .unexpectedEof), s)
  | .ok (some (chunk, rest)) => (.ok chunk, rest)

def readExactWith : Nat → Nat → StreamM Bytes
  | 0, _ => return []
  | fuel + 1, wanted =>
    if wanted = 0 then return []
    else do
      let chunk ← poll wanted
      let more ← readExactWith fuel (wanted - chunk.length)
      return chunk ++ more

def readExact (wanted : Nat) : StreamM Bytes := readExactWith wanted wanted

def readU32 : StreamM Nat := do
  let bytes ← readExact 4
  return ofBigEndian bytes

theorem poll_empty (wanted : Nat) (reads : List Nat) (ending : Ending) :
    (poll wanted).on ⟨[], reads, ending⟩ = (.error ending.error, ⟨[], reads, ending⟩) := by
  cases ending <;> rfl

theorem poll_some {wanted : Nat} {bytes : Bytes} (reads : List Nat) (ending : Ending) (hw : wanted ≠ 0)
    (hne : bytes ≠ []) : ∃ n, 0 < n ∧ n ≤ wanted ∧
      (poll wanted).on ⟨bytes, reads, ending⟩ = (.ok (bytes.take n), ⟨bytes.drop n, reads.tail, ending⟩) := by
  refine ⟨min wanted (max 1 (reads.headD wanted)), by omega, by omega, ?_⟩
  have hread : Incoming.read ⟨bytes, reads, ending⟩ wanted =
      .ok (some (bytes.take (min wanted (max 1 (reads.headD wanted))),
        ⟨bytes.drop (min wanted (max 1 (reads.headD wanted))), reads.tail, ending⟩)) := by
    have hempty : bytes.isEmpty = false := by simpa using hne
    simp only [Incoming.read, hempty, Bool.false_eq_true, if_false]
  simp only [on, poll, ExceptT.run_mk, StateT.run, hread]

/-- All the bytes that are wanted are taken, or all that there are. -/
theorem readExactWith_on {fuel wanted : Nat} (hfuel : wanted ≤ fuel) (bytes : Bytes) (reads : List Nat)
    (ending : Ending) : ∃ reads', (readExactWith fuel wanted).on ⟨bytes, reads, ending⟩ =
      if wanted ≤ bytes.length then (.ok (bytes.take wanted), ⟨bytes.drop wanted, reads', ending⟩)
      else (.error ending.error, ⟨[], reads', ending⟩) := by
  induction fuel generalizing wanted bytes reads with
  | zero =>
    obtain rfl : wanted = 0 := by omega
    exact ⟨reads, by simp [readExactWith]⟩
  | succ fuel ih =>
    rw [readExactWith]
    by_cases hw : wanted = 0
    · subst hw
      exact ⟨reads, by simp⟩
    · rw [if_neg hw]
      by_cases hne : bytes = []
      · subst hne
        refine ⟨reads, ?_⟩
        rw [on_bind_error (poll_empty wanted reads ending), if_neg (by simpa using hw)]
      · obtain ⟨n, hpos, hn, hpoll⟩ := poll_some reads ending hw hne
        have hlength : (bytes.take n).length = min n bytes.length := List.length_take
        have hbytes := List.length_pos_iff.mpr hne
        have hless : wanted - (bytes.take n).length ≤ fuel := by omega
        obtain ⟨reads', hmore⟩ := ih hless (bytes.drop n) reads.tail
        refine ⟨reads', ?_⟩
        rw [on_bind_ok hpoll]
        have hdrop : (bytes.drop n).length = bytes.length - n := List.length_drop
        by_cases hle : wanted ≤ bytes.length
        · rw [if_pos (by omega)] at hmore
          rw [on_bind_ok hmore, if_pos hle, on_pure]
          have hsub : wanted - (bytes.take n).length = wanted - n := by omega
          have hsum : n + (wanted - n) = wanted := by omega
          rw [hsub, List.drop_drop, ← List.take_add, hsum]
        · rw [if_neg (by omega)] at hmore
          rw [on_bind_error hmore, if_neg hle]

theorem value_readExactWith (fuel wanted : Nat) (s : Incoming) :
    (readExactWith fuel wanted).value s = Incoming.readExactWith fuel s wanted := by
  induction fuel generalizing wanted s with
  | zero => rfl
  | succ fuel ih =>
    rw [readExactWith, Incoming.readExactWith]
    by_cases hw : wanted = 0
    · rw [if_pos hw, if_pos hw]
      rfl
    · rw [if_neg hw, if_neg hw, value_bind]
      cases hr : s.read wanted with
      | error e =>
        have hpoll : (poll wanted).value s = .error e := by simp [value, on, poll, StateT.run, hr, Except.map]
        rw [hpoll]
        rfl
      | ok piece =>
        cases piece with
        | none =>
          have hpoll : (poll wanted).value s = .error (.io .unexpectedEof) := by
            simp [value, on, poll, StateT.run, hr, Except.map]
          rw [hpoll]
          rfl
        | some piece =>
          have hpoll : (poll wanted).value s = .ok piece := by
            simp [value, on, poll, StateT.run, hr, Except.map]
          rw [hpoll]
          change (readExactWith fuel (wanted - piece.1.length) >>= fun more => pure (piece.1 ++ more)).value piece.2 = _
          rw [value_bind, ih]
          rfl

/-- The readers that drop their stream when they fail are these. -/
theorem value_readExact (wanted : Nat) (s : Incoming) : (readExact wanted).value s = s.readExact wanted :=
  value_readExactWith wanted wanted s

theorem readExact_on (wanted : Nat) (bytes : Bytes) (reads : List Nat) (ending : Ending) :
    ∃ reads', (readExact wanted).on ⟨bytes, reads, ending⟩ =
      if wanted ≤ bytes.length then (.ok (bytes.take wanted), ⟨bytes.drop wanted, reads', ending⟩)
      else (.error ending.error, ⟨[], reads', ending⟩) := readExactWith_on le_rfl bytes reads ending

theorem readExact_front {wanted : Nat} {front : Bytes} (hlength : front.length = wanted) (back : Bytes)
    (reads : List Nat) (ending : Ending) : ∃ reads', (readExact wanted).on ⟨front ++ back, reads, ending⟩ =
      (.ok front, ⟨back, reads', ending⟩) := by
  obtain ⟨reads', h⟩ := readExact_on wanted (front ++ back) reads ending
  subst hlength
  refine ⟨reads', ?_⟩
  rw [h, if_pos (by simp), List.take_left, List.drop_left]

theorem readExact_short {wanted : Nat} {bytes : Bytes} (hlength : bytes.length < wanted) (reads : List Nat)
    (ending : Ending) : ∃ reads', (readExact wanted).on ⟨bytes, reads, ending⟩ =
      (.error ending.error, ⟨[], reads', ending⟩) := by
  obtain ⟨reads', h⟩ := readExact_on wanted bytes reads ending
  exact ⟨reads', by rw [h, if_neg (by omega)]⟩

theorem readU32_front {n : Nat} (hn : n < 2 ^ 32) (back : Bytes) (reads : List Nat) (ending : Ending) :
    ∃ reads', readU32.on ⟨bigEndian 4 n ++ back, reads, ending⟩ = (.ok n, ⟨back, reads', ending⟩) := by
  obtain ⟨reads', h⟩ := readExact_front (length_bigEndian 4 n) back reads ending
  refine ⟨reads', ?_⟩
  rw [readU32, on_bind_ok h, on_pure, ofBigEndian_bigEndian, Nat.mod_eq_of_lt (by omega)]

theorem readU32_short {bytes : Bytes} (hlength : bytes.length < 4) (reads : List Nat) (ending : Ending) :
    ∃ reads', readU32.on ⟨bytes, reads, ending⟩ = (.error ending.error, ⟨[], reads', ending⟩) := by
  obtain ⟨reads', h⟩ := readExact_short hlength reads ending
  exact ⟨reads', by rw [readU32, on_bind_error h]⟩

end StreamM

/-! Frames of any kind. -/

variable {T : Type}

open StreamM

/-- The bytes of a frame, unless the text cannot be made, is too long, or the stream fails. -/
def writeFrameWith (limit : Nat) (refusal : CoreError) (failure : Option IoError) :
    Option Bytes → Except CoreError Bytes
  | none => .error .json
  | some payload => do
    ensure (payload.length ≤ limit) refusal
    match failure with
    | some e => throw (.io e)
    | none => return framed 4 payload

def decoded (decode : Bytes → Option T) (payload : Bytes) : Except CoreError T :=
  match decode payload with
  | none => .error .json
  | some value => .ok value

def readFrameWith (limit : Nat) (invalid : CoreError) (decode : Bytes → Option T) : StreamM T := do
  let length ← readU32
  if length = 0 ∨ limit < length then throw invalid
  else do
    let payload ← readExact length
    decoded decode payload

/-- A frame that is cut off, empty or too long is an error, and leaves what stands behind it: where
the reader stops it has taken nothing behind a frame, and of one that is too long only the length. -/
structure RefusesFrames (limit : Nat) (invalid : CoreError) (read : StreamM T) : Prop where
  truncated : ∀ text front reads ending, text ≠ [] → text.length ≤ limit → front <+: framed 4 text →
    front ≠ framed 4 text →
      ∃ reads', read.on ⟨front, reads, ending⟩ = (.error ending.error, ⟨[], reads', ending⟩)
  refused : ∀ length back reads ending, length < 2 ^ 32 → length = 0 ∨ limit < length →
    ∃ reads', read.on ⟨bigEndian 4 length ++ back, reads, ending⟩ = (.error invalid, ⟨back, reads', ending⟩)
  within : ∀ s, ∃ used, s.bytes = used ++ (read.on s).2.bytes ∧
    used.length ≤ 4 + ofBigEndian (used.take 4) ∧ (limit < ofBigEndian (used.take 4) → used.length ≤ 4)

/-- What a reader makes of the frames of texts of at most `limit` bytes. -/
structure ReadsFrames (limit : Nat) (invalid : CoreError) (means : Bytes → T → Prop) (read : StreamM T) : Prop
    extends RefusesFrames limit invalid read where
  whole : ∀ text value back reads ending, means text value → text ≠ [] → text.length ≤ limit →
    ∃ reads', read.on ⟨framed 4 text ++ back, reads, ending⟩ = (.ok value, ⟨back, reads', ending⟩)

theorem readFrameWith_frames {limit : Nat} (hlimit : limit < 2 ^ 32) (invalid : CoreError)
    (decode : Bytes → Option T) :
    ReadsFrames limit invalid (fun text value => decode text = some value) (readFrameWith limit invalid decode) where
  whole text value back reads ending hmeans hne hlength := by
    have hsmall : text.length < 2 ^ 32 := by omega
    obtain ⟨middle, hsize⟩ := readU32_front hsmall (text ++ back) reads ending
    obtain ⟨reads', hpayload⟩ := readExact_front (rfl : text.length = text.length) back middle ending
    have hpos := List.length_pos_iff.mpr hne
    refine ⟨reads', ?_⟩
    rw [framed, List.append_assoc, readFrameWith, on_bind_ok hsize, if_neg (by omega), on_bind_ok hpayload, on_lift, decoded,
      hmeans]
  truncated text front reads ending hne hlength hpre hproper := by
    have hlt : front.length < 4 + text.length := by
      have hle := hpre.length_le
      rw [framed, List.length_append, length_bigEndian] at hle
      refine lt_of_le_of_ne hle fun he => hproper (hpre.eq_of_length ?_)
      rw [he, framed, List.length_append, length_bigEndian]
    by_cases hshort : front.length < 4
    · obtain ⟨reads', h⟩ := readU32_short hshort reads ending
      exact ⟨reads', by rw [readFrameWith, on_bind_error h]⟩
    · obtain ⟨back, hback⟩ := hpre
      obtain ⟨rest, hrest⟩ : ∃ rest, front = bigEndian 4 text.length ++ rest := by
        have htake := congrArg (List.take 4) hback
        rw [framed, List.take_append_of_le_length (by omega), List.take_left' (length_bigEndian 4 _)] at htake
        exact ⟨front.drop 4, by rw [← htake, List.take_append_drop]⟩
      subst hrest
      rw [List.length_append, length_bigEndian] at hlt
      have hsmall : text.length < 2 ^ 32 := by omega
      have hmissing : rest.length < text.length := by omega
      obtain ⟨middle, hsize⟩ := readU32_front hsmall rest reads ending
      obtain ⟨reads', hpayload⟩ := readExact_short hmissing middle ending
      have hpos := List.length_pos_iff.mpr hne
      refine ⟨reads', ?_⟩
      rw [readFrameWith, on_bind_ok hsize, if_neg (by omega), on_bind_error hpayload]
  refused length back reads ending hlt hbad := by
    obtain ⟨reads', hsize⟩ := readU32_front hlt back reads ending
    refine ⟨reads', ?_⟩
    rw [readFrameWith, on_bind_ok hsize, if_pos hbad, on_throw]
  within s := by
    obtain ⟨bytes, reads, ending⟩ := s
    by_cases hshort : bytes.length < 4
    · obtain ⟨reads', h⟩ := readU32_short hshort reads ending
      rw [readFrameWith, on_bind_error h]
      exact ⟨bytes, (List.append_nil bytes).symm, by omega, fun _ => by omega⟩
    · obtain ⟨size, rest, hfour, rfl⟩ : ∃ size rest, size.length = 4 ∧ bytes = size ++ rest :=
        ⟨bytes.take 4, bytes.drop 4, by rw [List.length_take]; omega, (List.take_append_drop 4 bytes).symm⟩
      have hcode : bigEndian 4 (ofBigEndian size) = size := by rw [← hfour, bigEndian_ofBigEndian]
      have hlt : ofBigEndian size < 2 ^ 32 := by
        rw [← hcode, ofBigEndian_bigEndian]
        omega
      have htake : ∀ back, (size ++ back).take 4 = size := fun back => List.take_left' hfour
      obtain ⟨middle, hsize⟩ := readU32_front hlt rest reads ending
      rw [hcode] at hsize
      rw [readFrameWith, on_bind_ok hsize]
      by_cases hbad : ofBigEndian size = 0 ∨ limit < ofBigEndian size
      · rw [if_pos hbad, on_throw]
        exact ⟨size, rfl, by omega, fun _ => hfour.le⟩
      · obtain ⟨reads', hpayload⟩ := readExact_on (ofBigEndian size) rest middle ending
        rw [if_neg hbad]
        by_cases hle : ofBigEndian size ≤ rest.length
        · rw [if_pos hle] at hpayload
          rw [on_bind_ok hpayload, on_lift]
          refine ⟨size ++ rest.take (ofBigEndian size), ?_, ?_, ?_⟩
          · rw [List.append_assoc, List.take_append_drop]
          · rw [htake, List.length_append, List.length_take]
            omega
          · rw [htake]
            omega
        · rw [if_neg hle] at hpayload
          rw [on_bind_error hpayload]
          refine ⟨size ++ rest, (List.append_nil _).symm, ?_, ?_⟩
          · rw [htake, List.length_append]
            omega
          · rw [htake]
            omega

/-! The three kinds of frames. -/

def maxControlFrame : Nat := 64 * 1024

def maxFolderManifestFrame : Nat := 32 * 1024 * 1024

def writeControlFrame (failure : Option IoError) : Option Bytes → Except CoreError Bytes :=
  writeFrameWith maxControlFrame (.protocol "control frame is too large") failure

def readControlFrame (decode : Bytes → Option T) : StreamM T :=
  readFrameWith maxControlFrame (.protocol "invalid control frame length") decode

def writeFolderManifest (failure : Option IoError) : Option Bytes → Except CoreError Bytes :=
  writeFrameWith maxFolderManifestFrame (.invalidTransfer "folder manifest is too large") failure

/-- A manifest is checked once the whole frame has been taken. -/
def readFolderManifest [Externals] (decode : Bytes → Option FolderManifest) : StreamM FolderManifest := do
  let manifest ← readFrameWith maxFolderManifestFrame (.invalidTransfer "invalid folder manifest length") decode
  let _ ← manifest.validate
  return manifest

/-- The reader of relay frames, with the stream it leaves also where it fails. -/
def readRelayFrame (decode : Bytes → Option T) : StreamM T :=
  readFrameWith maxRelayFrame (.protocol "SSH relay control frame is invalid") decode

theorem value_readRelayFrame (decode : Bytes → Option T) (s : Incoming) :
    (readRelayFrame decode).value s = readFrame decode s := by
  rw [readRelayFrame, readFrameWith, readU32, value_bind, value_bind, value_readExact, readFrame]
  cases s.readExact 4 with
  | error e => rfl
  | ok front =>
    obtain ⟨size, s⟩ := front
    change (if ofBigEndian size = 0 ∨ maxRelayFrame < ofBigEndian size then _ else _ : StreamM T).value s =
      ensure (ofBigEndian size != 0 && ofBigEndian size ≤ maxRelayFrame) _ >>= fun _ => _
    by_cases hbad : ofBigEndian size = 0 ∨ maxRelayFrame < ofBigEndian size
    · have hensure : (ofBigEndian size != 0 && decide (ofBigEndian size ≤ maxRelayFrame)) = false := by
        rw [Bool.and_eq_false_iff, bne_eq_false_iff_eq, decide_eq_false_iff_not, not_le]
        exact hbad
      rw [if_pos hbad, hensure]
      rfl
    · have hensure : (ofBigEndian size != 0 && decide (ofBigEndian size ≤ maxRelayFrame)) = true := by
        rw [not_or, not_lt] at hbad
        simpa using hbad
      rw [if_neg hbad, hensure, value_bind, value_readExact]
      cases s.readExact (ofBigEndian size) with
      | error e => rfl
      | ok piece =>
        change (liftM (decoded decode piece.1) : StreamM T).value piece.2 = _
        simp only [decoded, ensure, if_true, bind, Except.bind]
        cases decode piece.1 <;> rfl

/-- The frames of values, one after the other. -/
def writeFrames (write : T → Except CoreError Bytes) : List T → Except CoreError Bytes
  | [] => .ok []
  | value :: values => do
    let frame ← write value
    let frames ← writeFrames write values
    return frame ++ frames

def readFrames (read : StreamM T) : Nat → StreamM (List T)
  | 0 => return []
  | n + 1 => do
    let value ← read
    let values ← readFrames read n
    return value :: values

/-- Every frame that is written is one of a text that the reader takes. -/
def WritesFrames (limit : Nat) (means : Bytes → T → Prop) (admits : T → Prop)
    (write : T → Except CoreError Bytes) : Prop :=
  ∀ value frame, admits value → write value = .ok frame →
    ∃ text, means text value ∧ text ≠ [] ∧ text.length ≤ limit ∧ frame = framed 4 text

theorem ReadsFrames.list {limit : Nat} {invalid : CoreError} {means : Bytes → T → Prop} {read : StreamM T}
    {admits : T → Prop} {write : T → Except CoreError Bytes} (hread : ReadsFrames limit invalid means read)
    (hwrite : WritesFrames limit means admits write) {values : List T} {bytes : Bytes}
    (hadmits : ∀ value ∈ values, admits value) (h : writeFrames write values = .ok bytes) (back : Bytes)
    (reads : List Nat) (ending : Ending) :
    ∃ reads', (readFrames read values.length).on ⟨bytes ++ back, reads, ending⟩ = (.ok values, ⟨back, reads', ending⟩) := by
  induction values generalizing bytes reads with
  | nil =>
    obtain rfl := Except.ok.inj h
    exact ⟨reads, rfl⟩
  | cons value values ih =>
    obtain ⟨hvalue, hvalues⟩ := List.forall_mem_cons.mp hadmits
    obtain ⟨frame, hframe, h⟩ := bind_eq_ok.mp h
    obtain ⟨frames, hframes, h⟩ := bind_eq_ok.mp h
    obtain rfl := Except.ok.inj h
    obtain ⟨text, hmeans, hne, hlength, rfl⟩ := hwrite value frame hvalue hframe
    obtain ⟨middle, hfirst⟩ := hread.whole text value (frames ++ back) reads ending hmeans hne hlength
    obtain ⟨reads', hrest⟩ := ih hvalues hframes middle
    refine ⟨reads', ?_⟩
    rw [List.length_cons, readFrames, List.append_assoc, on_bind_ok hfirst, on_bind_ok hrest, on_pure]

/-- A check of the value leaves the stream alone. -/
theorem ReadsFrames.checked {β : Type} {limit : Nat} {invalid : CoreError} {means : Bytes → T → Prop}
    {read : StreamM T} (h : ReadsFrames limit invalid means read) (check : T → Except CoreError β) :
    ReadsFrames limit invalid (fun text value => means text value ∧ ∃ b, check value = .ok b) (do
      let value ← read
      let _ ← check value
      return value) where
  whole text value back reads ending hmeans hne hlength := by
    obtain ⟨hvalue, b, hb⟩ := hmeans
    obtain ⟨reads', hread⟩ := h.whole text value back reads ending hvalue hne hlength
    have hcheck : (liftM (check value) : StreamM β).on ⟨back, reads', ending⟩ = (.ok b, ⟨back, reads', ending⟩) := by
      rw [on_lift, hb]
    exact ⟨reads', by rw [on_bind_ok hread, on_bind_ok hcheck, on_pure]⟩
  truncated text front reads ending hne hlength hpre hproper := by
    obtain ⟨reads', hread⟩ := h.truncated text front reads ending hne hlength hpre hproper
    exact ⟨reads', by rw [on_bind_error hread]⟩
  refused length back reads ending hlt hbad := by
    obtain ⟨reads', hread⟩ := h.refused length back reads ending hlt hbad
    exact ⟨reads', by rw [on_bind_error hread]⟩
  within s := by
    have hrest := h.within s
    cases hread : read.on s with
    | mk r s' =>
      rw [hread] at hrest
      cases r with
      | error e =>
        rw [on_bind_error hread]
        exact hrest
      | ok value =>
        rw [on_bind_ok hread]
        cases hc : check value with
        | error e =>
          have hcheck : (liftM (Except.error e : Except CoreError β) : StreamM β).on s' = (.error e, s') := rfl
          rw [on_bind_error hcheck]
          exact hrest
        | ok b =>
          have hcheck : (liftM (Except.ok b : Except CoreError β) : StreamM β).on s' = (.ok b, s') := rfl
          rw [on_bind_ok hcheck]
          exact hrest

/-- A text is read as the value that it was made of, and no text at all as none. -/
structure RoundTrips (encode : T → Option Bytes) (decode : Bytes → Option T) : Prop where
  decode_encode : ∀ value text, encode value = some text → decode text = some value
  decode_nil : decode [] = none

theorem RoundTrips.ne_nil {encode : T → Option Bytes} {decode : Bytes → Option T} (h : RoundTrips encode decode)
    {value : T} {text : Bytes} (he : encode value = some text) : text ≠ [] := by
  rintro rfl
  have hd := h.decode_encode value [] he
  rw [h.decode_nil] at hd
  cases hd

/-- Exactly the values whose text fits are written, and lists of them are read back whatever follows
and in whatever pieces they come. -/
structure FaithfulFrames (limit : Nat) (invalid : CoreError) (encode : T → Option Bytes) (admits : T → Prop)
    (write : T → Except CoreError Bytes) (read : StreamM T) : Prop extends RefusesFrames limit invalid read where
  written : ∀ value text frame, encode value = some text →
    (write value = .ok frame ↔ text.length ≤ limit ∧ frame = framed 4 text)
  round : ∀ values bytes back reads ending, (∀ value ∈ values, admits value) → writeFrames write values = .ok bytes →
    ∃ reads', (readFrames read values.length).on ⟨bytes ++ back, reads, ending⟩ = (.ok values, ⟨back, reads', ending⟩)

theorem ReadsFrames.faithful {limit : Nat} {invalid : CoreError} {encode : T → Option Bytes}
    {decode : Bytes → Option T} {means : Bytes → T → Prop} {read : StreamM T} {admits : T → Prop}
    {write : Option Bytes → Except CoreError Bytes} (h : ReadsFrames limit invalid means read)
    (hjson : RoundTrips encode decode)
    (hmeans : ∀ text value, admits value → decode text = some value → means text value)
    (hnone : ∀ frame, write none ≠ .ok frame)
    (hsome : ∀ text frame, text ≠ [] → (write (some text) = .ok frame ↔ text.length ≤ limit ∧ frame = framed 4 text)) :
    FaithfulFrames limit invalid encode admits (fun value => write (encode value)) read where
  written value text frame he := by rw [he, hsome text frame (hjson.ne_nil he)]
  round values bytes back reads ending hadmits hw := by
    refine h.list (fun value frame hv hf => ?_) hadmits hw back reads ending
    cases he : encode value with
    | none => exact absurd (he ▸ hf) (hnone frame)
    | some text =>
      rw [he, hsome text frame (hjson.ne_nil he)] at hf
      exact ⟨text, hmeans text value hv (hjson.decode_encode value text he), hjson.ne_nil he, hf⟩
  toRefusesFrames := h.toRefusesFrames

theorem writeFrameWith_iff (limit : Nat) (refusal : CoreError) (text frame : Bytes) :
    writeFrameWith limit refusal none (some text) = .ok frame ↔ text.length ≤ limit ∧ frame = framed 4 text := by
  rw [writeFrameWith, ensure_bind, decide_eq_true_eq]
  exact and_congr_right' ⟨fun h => (Except.ok.inj h).symm, fun h => congrArg Except.ok h.symm⟩

theorem writeFrame_iff {text : Bytes} (hne : text ≠ []) (frame : Bytes) :
    writeFrame none (some text) = .ok frame ↔ text.length ≤ maxRelayFrame ∧ frame = framed 4 text := by
  rw [writeFrame, ensure_bind]
  have hempty : text.isEmpty = false := by simpa using hne
  simp only [hempty, Bool.not_false, Bool.true_and, decide_eq_true_eq]
  exact and_congr_right' ⟨fun h => (Except.ok.inj h).symm, fun h => congrArg Except.ok h.symm⟩

/-- The control frames of a transfer, the frames of valid manifests and the frames of a relay
channel are read as they were written. -/
theorem frames_faithful [Externals] {encode : T → Option Bytes} {decode : Bytes → Option T}
    {encodeManifest : FolderManifest → Option Bytes} {decodeManifest : Bytes → Option FolderManifest}
    (hjson : RoundTrips encode decode) (hmanifest : RoundTrips encodeManifest decodeManifest) :
    FaithfulFrames maxControlFrame (.protocol "invalid control frame length") encode (fun _ => True)
      (fun value => writeControlFrame none (encode value)) (readControlFrame decode) ∧
    FaithfulFrames maxFolderManifestFrame (.invalidTransfer "invalid folder manifest length") encodeManifest
      (fun manifest => ∃ size, manifest.validate = .ok size)
      (fun manifest => writeFolderManifest none (encodeManifest manifest)) (readFolderManifest decodeManifest) ∧
    FaithfulFrames maxRelayFrame (.protocol "SSH relay control frame is invalid") encode (fun _ => True)
      (fun value => writeFrame none (encode value)) (readRelayFrame decode) ∧
    ∀ s, (readRelayFrame decode).value s = readFrame decode s := by
  refine ⟨?_, ?_, ?_, value_readRelayFrame decode⟩
  · exact (readFrameWith_frames (by decide) _ decode).faithful hjson (fun _ _ _ h => h) (fun _ h => by cases h)
      fun text frame _ => writeFrameWith_iff _ _ text frame
  · exact ((readFrameWith_frames (by decide) _ decodeManifest).checked FolderManifest.validate).faithful hmanifest
      (fun _ _ hv h => ⟨h, hv⟩) (fun _ h => by cases h) fun text frame _ => writeFrameWith_iff _ _ text frame
  · exact (readFrameWith_frames (by decide) _ decode).faithful hjson (fun _ _ _ h => h) (fun _ h => by cases h)
      fun text frame hne => writeFrame_iff hne frame

namespace Sample

/-- The JSON texts of the two truth values. -/
def encodeBool (value : Bool) : Option Bytes :=
  some (if value then [116, 114, 117, 101] else [102, 97, 108, 115, 101])

def decodeBool (text : Bytes) : Option Bool :=
  if text = [116, 114, 117, 101] then some true
  else if text = [102, 97, 108, 115, 101] then some false
  else none

theorem roundTrips_bool : RoundTrips encodeBool decodeBool where
  decode_encode value text h := by
    obtain rfl := Option.some.inj h
    cases value <;> rfl
  decode_nil := rfl

/-- The JSON text of the manifest of an empty folder. -/
def emptyManifestJson : Bytes :=
  [123, 34, 118, 101, 114, 115, 105, 111, 110, 34, 58, 49, 44, 34, 101, 110, 116, 114, 105, 101, 115, 34, 58, 91, 93, 125]

def encodeManifest (manifest : FolderManifest) : Option Bytes :=
  if manifest = ⟨1, []⟩ then some emptyManifestJson else none

def decodeManifest (text : Bytes) : Option FolderManifest :=
  if text = emptyManifestJson then some ⟨1, []⟩ else none

theorem roundTrips_manifest : RoundTrips encodeManifest decodeManifest where
  decode_encode manifest text h := by
    rw [encodeManifest] at h
    split at h
    · next hm => rw [← Option.some.inj h, decodeManifest, if_pos rfl, hm]
    · cases h
  decode_nil := rfl

end Sample

attribute [local instance] Sample.externals

/-- Two frames that come in pieces, with a byte behind them. -/
theorem frames_faithful_bools :
    ∃ reads', (readFrames (readControlFrame Sample.decodeBool) 2).on
      ⟨[0, 0, 0, 4, 116, 114, 117, 101, 0, 0, 0, 5, 102, 97, 108, 115, 101] ++ [7], [1, 2, 9], .finished⟩ =
        (.ok [true, false], ⟨[7], reads', .finished⟩) :=
  (frames_faithful Sample.roundTrips_bool Sample.roundTrips_manifest).1.round [true, false] _ [7] [1, 2, 9] .finished
    (fun _ _ => trivial) (by decide)

end InkHole
