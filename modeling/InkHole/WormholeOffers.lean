import InkHole.DataChannel
import InkHole.Records
import InkHole.Transit

/-! What the two parties of a short code tell each other: the offer of the sender, the answer of the
receiver, and their JSON texts. -/

namespace InkHole

open Json Transit

def u16Max : Nat := 2 ^ 16 - 1
def u8Max : Nat := 2 ^ 8 - 1

def maxSelectedItems : Nat := 256
def maxSummaryEntries : Nat := 1000000

structure TransferSummary where
  deviceName : String
  instanceId : String
  itemCount : Nat
  fileCount : Nat
  directoryCount : Nat
  totalBytes : Nat
  names : List String
  deriving DecidableEq, Repr

structure SenderOffer where
  summary : TransferSummary
  transit : TransitOffer

structure ReceiverAnswer where
  accepted : Bool
  error : String
  quicFingerprint : String
  quicSecret : String
  deriving DecidableEq, Repr

def blank (text : String) : Bool := text.toList.all isWhitespace

def TransferSummary.validate (summary : TransferSummary) : Except CoreError Unit :=
  let count := summary.fileCount + summary.directoryCount
  if blank summary.deviceName || decide (255 < summary.deviceName.utf8ByteSize) ||
      !validInstanceId summary.instanceId || summary.itemCount == 0 ||
      decide (maxSelectedItems < summary.itemCount) ||
      (decide (u64Max < count) || decide (count < summary.itemCount) || decide (maxSummaryEntries < count)) ||
      decide (8 < summary.names.length) ||
      summary.names.any fun name => blank name || decide (255 < name.utf8ByteSize) then
    .error (.invalidTransfer "short-code transfer summary is invalid")
  else .ok ()

/-! The texts. Empty fields are skipped, and unknown ones passed over. -/

section Texts

variable [Floats]

def skipping (skipped : Bool) (value : Value) : Option Value := if skipped then none else some value

def unsigned (n : Nat) : Value := .number (.posInt n)

namespace TransferSummary

def fieldNames : List String :=
  ["device_name", "instance_id", "item_count", "file_count", "directory_count", "total_bytes", "names"]

def fields (summary : TransferSummary) : List (String × Option Value) :=
  [("device_name", some (.string summary.deviceName)), ("instance_id", some (.string summary.instanceId)),
    ("item_count", some (unsigned summary.itemCount)), ("file_count", some (unsigned summary.fileCount)),
    ("directory_count", some (unsigned summary.directoryCount)),
    ("total_bytes", some (unsigned summary.totalBytes)),
    ("names", skipping summary.names.isEmpty (.array (summary.names.map .string)))]

def toJson (summary : TransferSummary) : Value := .object (written summary.fields)

def ofJson (value : Value) : Option TransferSummary := do
  let fields ← value.record fieldNames
  let deviceName ← required Value.toText "device_name" fields
  let instanceId ← required Value.toText "instance_id" fields
  let itemCount ← required (Value.toUnsigned u64Max) "item_count" fields
  let fileCount ← required (Value.toUnsigned u64Max) "file_count" fields
  let directoryCount ← required (Value.toUnsigned u64Max) "directory_count" fields
  let totalBytes ← required (Value.toUnsigned u64Max) "total_bytes" fields
  let names ← defaulted [] (Value.toItems Value.toText) "names" fields
  return ⟨deviceName, instanceId, itemCount, fileCount, directoryCount, totalBytes, names⟩

/-- The counters are machine words. -/
structure Fits (summary : TransferSummary) : Prop where
  itemCount : summary.itemCount ≤ u64Max
  fileCount : summary.fileCount ≤ u64Max
  directoryCount : summary.directoryCount ≤ u64Max
  totalBytes : summary.totalBytes ≤ u64Max

end TransferSummary

namespace Transit

def TransitHintKind.name : TransitHintKind → String
  | .directTcpV1 => "direct-tcp-v1"
  | .relayV1 => "relay-v1"

def TransitHintKind.ofName : String → Option TransitHintKind
  | "direct-tcp-v1" => some .directTcpV1
  | "relay-v1" => some .relayV1
  | _ => none

namespace TransitHint

def fieldNames : List String := ["kind", "host", "port", "priority"]

def fields (hint : TransitHint) : List (String × Option Value) :=
  [("kind", some (.string hint.kind.name)), ("host", some (.string hint.host)),
    ("port", some (unsigned hint.port)), ("priority", some (unsigned hint.priority))]

def toJson (hint : TransitHint) : Value := .object (written hint.fields)

def ofJson (value : Value) : Option TransitHint := do
  let fields ← value.record fieldNames
  let kind ← required (fun value => value.toVariant.bind TransitHintKind.ofName) "kind" fields
  let host ← required Value.toText "host" fields
  let port ← required (Value.toUnsigned u16Max) "port" fields
  let priority ← required (Value.toUnsigned u8Max) "priority" fields
  return ⟨kind, host, port, priority⟩

structure Fits (hint : TransitHint) : Prop where
  port : hint.port ≤ u16Max
  priority : hint.priority ≤ u8Max

end TransitHint

namespace TransitOffer

def toJson (offer : TransitOffer) : Value :=
  .object (written [("hints", some (.array (offer.hints.map TransitHint.toJson)))])

def ofJson (value : Value) : Option TransitOffer := do
  let fields ← value.record ["hints"]
  let hints ← required (Value.toItems TransitHint.ofJson) "hints" fields
  return ⟨hints⟩

end TransitOffer

end Transit

namespace SenderOffer

def fields (offer : SenderOffer) : List (String × Option Value) :=
  [("summary", some offer.summary.toJson), ("transit", some offer.transit.toJson)]

def toJson (offer : SenderOffer) : Value := .object (written offer.fields)

def ofJson (value : Value) : Option SenderOffer := do
  let fields ← value.record ["summary", "transit"]
  let summary ← required TransferSummary.ofJson "summary" fields
  let transit ← required TransitOffer.ofJson "transit" fields
  return ⟨summary, transit⟩

structure Fits (offer : SenderOffer) : Prop where
  summary : offer.summary.Fits
  hints : ∀ hint ∈ offer.transit.hints, hint.Fits

end SenderOffer

namespace ReceiverAnswer

def fieldNames : List String := ["accepted", "error", "quic_fingerprint", "quic_secret"]

def fields (answer : ReceiverAnswer) : List (String × Option Value) :=
  [("accepted", some (.bool answer.accepted)), ("error", skipping answer.error.isEmpty (.string answer.error)),
    ("quic_fingerprint", skipping answer.quicFingerprint.isEmpty (.string answer.quicFingerprint)),
    ("quic_secret", skipping answer.quicSecret.isEmpty (.string answer.quicSecret))]

def toJson (answer : ReceiverAnswer) : Value := .object (written answer.fields)

def ofJson (value : Value) : Option ReceiverAnswer := do
  let fields ← value.record fieldNames
  let accepted ← required Value.toBool "accepted" fields
  let error ← defaulted "" Value.toText "error" fields
  let quicFingerprint ← defaulted "" Value.toText "quic_fingerprint" fields
  let quicSecret ← defaulted "" Value.toText "quic_secret" fields
  return ⟨accepted, error, quicFingerprint, quicSecret⟩

end ReceiverAnswer

/-! What was written is read back. -/

theorem skipping_none {skipped : Bool} {value : Value} (h : skipping skipped value = none) : skipped = true := by
  rw [skipping] at h
  split at h
  · next hs => exact hs
  · cases h

theorem skipping_some {skipped : Bool} {value v : Value} (h : skipping skipped value = some v) : v = value := by
  rw [skipping] at h
  split at h
  · cases h
  · exact (Option.some.inj h).symm

theorem defaulted_text {text name : String} {named : List (String × Option Value)}
    (hn : (named.map Prod.fst).Nodup) (h : (name, skipping text.isEmpty (.string text)) ∈ named) :
    defaulted "" Value.toText name (written named) = some text := by
  apply defaulted_written hn h
  · intro hnone
    exact String.isEmpty_iff.mp (skipping_none hnone)
  · intro v hv
    rw [skipping_some hv]
    rfl

theorem TransferSummary.ofJson_toJson {summary : TransferSummary} (h : summary.Fits) :
    ofJson summary.toJson = some summary := by
  have hn : (summary.fields.map Prod.fst).Nodup := by simp [fields]
  have hnames : defaulted [] (Value.toItems Value.toText) "names" (written summary.fields) = some summary.names := by
    have hmem : ("names", skipping summary.names.isEmpty (.array (summary.names.map .string))) ∈ summary.fields := by
      simp [fields]
    apply defaulted_written hn hmem
    · intro hnone
      exact List.isEmpty_iff.mp (skipping_none hnone)
    · intro v hv
      rw [skipping_some hv]
      exact toItems_array fun _ _ => rfl
  have hnumber : ∀ {name : String} {n : Nat}, (name, some (unsigned n)) ∈ summary.fields → n ≤ u64Max →
      required (Value.toUnsigned u64Max) name (written summary.fields) = some n := fun hmem hle =>
    (required_written hn hmem).trans (toUnsigned_posInt hle)
  have htext : ∀ {name s : String}, (name, some (.string s)) ∈ summary.fields →
      required Value.toText name (written summary.fields) = some s := fun hmem => required_written hn hmem
  rw [toJson, ofJson, Value.record]
  simp only [Option.bind_eq_bind, Option.bind_some, hnames,
    htext (show ("device_name", some (.string summary.deviceName)) ∈ summary.fields by simp [fields]),
    htext (show ("instance_id", some (.string summary.instanceId)) ∈ summary.fields by simp [fields]),
    hnumber (show ("item_count", some (unsigned summary.itemCount)) ∈ summary.fields by simp [fields]) h.itemCount,
    hnumber (show ("file_count", some (unsigned summary.fileCount)) ∈ summary.fields by simp [fields]) h.fileCount,
    hnumber (show ("directory_count", some (unsigned summary.directoryCount)) ∈ summary.fields by simp [fields])
      h.directoryCount,
    hnumber (show ("total_bytes", some (unsigned summary.totalBytes)) ∈ summary.fields by simp [fields])
      h.totalBytes]
  rfl

omit [Floats] in
theorem Transit.TransitHintKind.ofName_name (kind : TransitHintKind) : ofName kind.name = some kind := by
  cases kind with
  | directTcpV1 => rfl
  | relayV1 => rfl

theorem Transit.TransitHint.ofJson_toJson {hint : TransitHint} (h : hint.Fits) :
    ofJson hint.toJson = some hint := by
  have hn : (hint.fields.map Prod.fst).Nodup := by simp [fields]
  have hkind : required (fun value => value.toVariant.bind TransitHintKind.ofName) "kind" (written hint.fields) =
      some hint.kind := by
    rw [required_written hn (show ("kind", some (.string hint.kind.name)) ∈ hint.fields by simp [fields])]
    exact TransitHintKind.ofName_name hint.kind
  have hhost : required Value.toText "host" (written hint.fields) = some hint.host :=
    required_written hn (show ("host", some (.string hint.host)) ∈ hint.fields by simp [fields])
  have hport : required (Value.toUnsigned u16Max) "port" (written hint.fields) = some hint.port := by
    rw [required_written hn (show ("port", some (unsigned hint.port)) ∈ hint.fields by simp [fields])]
    exact toUnsigned_posInt h.port
  have hpriority : required (Value.toUnsigned u8Max) "priority" (written hint.fields) = some hint.priority := by
    rw [required_written hn (show ("priority", some (unsigned hint.priority)) ∈ hint.fields by simp [fields])]
    exact toUnsigned_posInt h.priority
  rw [toJson, ofJson, Value.record]
  simp only [Option.bind_eq_bind, Option.bind_some, hkind, hhost, hport, hpriority]
  rfl

theorem Transit.TransitOffer.ofJson_toJson {offer : TransitOffer} (h : ∀ hint ∈ offer.hints, hint.Fits) :
    ofJson offer.toJson = some offer := by
  have hhints : required (Value.toItems TransitHint.ofJson) "hints"
      (written [("hints", some (.array (offer.hints.map TransitHint.toJson)))]) = some offer.hints := by
    rw [required_written (by simp) List.mem_cons_self]
    exact toItems_array fun hint hmem => TransitHint.ofJson_toJson (h hint hmem)
  rw [toJson, ofJson, Value.record]
  simp only [Option.bind_eq_bind, Option.bind_some, hhints]
  rfl

theorem SenderOffer.ofJson_toJson {offer : SenderOffer} (h : offer.Fits) : ofJson offer.toJson = some offer := by
  have hn : (offer.fields.map Prod.fst).Nodup := by simp [fields]
  have hsummary : required TransferSummary.ofJson "summary" (written offer.fields) = some offer.summary := by
    rw [required_written hn (show ("summary", some offer.summary.toJson) ∈ offer.fields by simp [fields])]
    exact TransferSummary.ofJson_toJson h.summary
  have htransit : required TransitOffer.ofJson "transit" (written offer.fields) = some offer.transit := by
    rw [required_written hn (show ("transit", some offer.transit.toJson) ∈ offer.fields by simp [fields])]
    exact TransitOffer.ofJson_toJson h.hints
  rw [toJson, ofJson, Value.record]
  simp only [Option.bind_eq_bind, Option.bind_some, hsummary, htransit]
  rfl

theorem ReceiverAnswer.ofJson_toJson (answer : ReceiverAnswer) : ofJson answer.toJson = some answer := by
  have hn : (answer.fields.map Prod.fst).Nodup := by simp [fields]
  have haccepted : required Value.toBool "accepted" (written answer.fields) = some answer.accepted :=
    required_written hn (show ("accepted", some (.bool answer.accepted)) ∈ answer.fields by simp [fields])
  have htext : ∀ {name text : String}, (name, skipping text.isEmpty (.string text)) ∈ answer.fields →
      defaulted "" Value.toText name (written answer.fields) = some text := fun hmem => defaulted_text hn hmem
  rw [toJson, ofJson, Value.record]
  simp only [Option.bind_eq_bind, Option.bind_some, haccepted,
    htext (show ("error", skipping answer.error.isEmpty (.string answer.error)) ∈ answer.fields by simp [fields]),
    htext (show ("quic_fingerprint", skipping answer.quicFingerprint.isEmpty (.string answer.quicFingerprint)) ∈
      answer.fields by simp [fields]),
    htext (show ("quic_secret", skipping answer.quicSecret.isEmpty (.string answer.quicSecret)) ∈ answer.fields by
      simp [fields])]
  rfl

end Texts

end InkHole
