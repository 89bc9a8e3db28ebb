import InkHole.Codes
import InkHole.Transport

/-! The control frames of a relay channel: a length and a JSON text. -/

namespace InkHole

open Codes

def maxRelayFrame : Nat := 64 * 1024

variable {T : Type}

/-- The bytes of a frame, unless the text cannot be made or the channel fails. -/
def writeFrame (failure : Option IoError) : Option Bytes → Except CoreError Bytes
  | none => .error .json
  | some payload => do
    ensure (!payload.isEmpty && payload.length ≤ maxRelayFrame)
      (.invalidRequest "SSH relay control frame is invalid")
    match failure with
    | some e => throw (.io e)
    | none => return framed 4 payload

def readFrame (decode : Bytes → Option T) (s : Incoming) : Except CoreError (T × Incoming) := do
  let (size, s) ← s.readExact 4
  ensure (ofBigEndian size != 0 && ofBigEndian size ≤ maxRelayFrame)
    (.protocol "SSH relay control frame is invalid")
  let (payload, s) ← s.readExact (ofBigEndian size)
  match decode payload with
  | none => throw .json
  | some value => return (value, s)

def cancellable (cancelled : Bool) (x : Except CoreError T) : Except CoreError T :=
  if cancelled then .error .cancelled else x

theorem cancellable_ok {cancelled : Bool} {x : Except CoreError T} {value : T}
    (h : cancellable cancelled x = .ok value) : x = .ok value := by
  rw [cancellable] at h
  split at h
  · cases h
  · exact h

theorem readFrame_ok {decode : Bytes → Option T} {s rest : Incoming} {value : T}
    (h : readFrame decode s = .ok (value, rest)) :
    ∃ payload, decode payload = some value ∧ payload.length ≤ maxRelayFrame ∧
      s.bytes = framed 4 payload ++ rest.bytes := by
  obtain ⟨⟨size, middle⟩, hsize, h⟩ := bind_eq_ok.mp h
  obtain ⟨hbound, h⟩ := ensure_bind.mp h
  obtain ⟨⟨payload, rest'⟩, hpayload, h⟩ := bind_eq_ok.mp h
  obtain ⟨hfront, hfour, -⟩ := Incoming.readExact_ok hsize
  obtain ⟨hmiddle, hlength, -⟩ := Incoming.readExact_ok hpayload
  have hframe : framed 4 payload = size ++ payload := by
    rw [framed, hlength, ← hfour, bigEndian_ofBigEndian]
  simp only [Bool.and_eq_true, decide_eq_true_eq] at hbound
  cases hd : decode payload with
  | none =>
    simp only [hd] at h
    cases h
  | some v =>
    simp only [hd] at h
    obtain ⟨rfl, rfl⟩ := Prod.mk.inj (Except.ok.inj h)
    refine ⟨payload, hd, by omega, ?_⟩
    rw [hframe, hfront, hmiddle, List.append_assoc]

theorem writeFrame_ok {failure : Option IoError} {payload : Option Bytes} {frame : Bytes}
    (h : writeFrame failure payload = .ok frame) :
    ∃ text, payload = some text ∧ text ≠ [] ∧ text.length ≤ maxRelayFrame ∧ frame = framed 4 text := by
  cases payload with
  | none => cases h
  | some text =>
    obtain ⟨hbound, h⟩ := ensure_bind.mp h
    cases failure with
    | some e => cases h
    | none =>
      obtain rfl := Except.ok.inj h
      simp only [Bool.and_eq_true, decide_eq_true_eq, Bool.not_eq_true', List.isEmpty_eq_false_iff] at hbound
      exact ⟨text, rfl, hbound.1, hbound.2, rfl⟩

/-- A frame is read as it was written, whatever follows it and in whatever pieces it comes. -/
theorem readFrame_framed {decode : Bytes → Option T} {text : Bytes} {value : T} (hne : text ≠ [])
    (hlength : text.length ≤ maxRelayFrame) (hdecode : decode text = some value) (back : Bytes)
    (reads : List Nat) (ending : Ending) :
    ∃ reads', readFrame decode ⟨framed 4 text ++ back, reads, ending⟩ = .ok (value, ⟨back, reads', ending⟩) := by
  obtain ⟨middle, hsize⟩ := Incoming.readExact_append (bigEndian 4 text.length) (text ++ back) reads ending
  obtain ⟨reads', hpayload⟩ := Incoming.readExact_append text back middle ending
  rw [length_bigEndian] at hsize
  have hread : ofBigEndian (bigEndian 4 text.length) = text.length := by
    rw [ofBigEndian_bigEndian]
    rw [maxRelayFrame] at hlength
    omega
  have hpos := List.length_pos_iff.mpr hne
  refine ⟨reads', ?_⟩
  rw [readFrame, framed, List.append_assoc]
  refine bind_eq_ok.mpr ⟨_, hsize, ensure_bind.mpr ⟨?_, bind_eq_ok.mpr ⟨_, hread ▸ hpayload, ?_⟩⟩⟩
  · simp only [hread, Bool.and_eq_true, bne_iff_ne, decide_eq_true_eq]
    omega
  · simp only [hdecode]
    rfl

end InkHole
