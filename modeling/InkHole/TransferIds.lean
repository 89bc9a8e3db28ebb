import InkHole.Authentication
import InkHole.FolderScan
import InkHole.Operations

/-! The identity of a transfer. The sender derives it from what it sends, and the receiver takes a
resend only if the offer that it has stored under the id is the same. -/

set_option linter.unusedSectionVars false

namespace InkHole

open Externals

namespace TransferIds

section Offers

variable [Externals]

/-- What is found at the path of a source. A file has the contents that are hashed unless reading
them fails, and a folder is scanned. -/
inductive Found where
  | file (contents : Bytes) (failure : Option CoreError)
  | folder (scan : Except CoreError FolderManifest) (len : Nat)
  | symlink
  | special (len : Nat)

/-- One look at the path. -/
structure Look where
  found : Found
  /-- In milliseconds since 1970, where the file system has it. -/
  modified : Option Int
  now : Int

/-- A path as `to_string_lossy` and `file_name` read it. -/
structure SourcePath where
  lossy : String
  fileName : Option OsName

structure Identity where
  summary : DeviceSummary
  sign : Bytes → String

/-- The bytes of a hash that is written as text. -/
def blake3 (text : Bytes) : Bytes := (hexDecode (blake3Hex text).toList).getD []

def littleEndian (n : Nat) : Bytes := (Codes.bigEndian 8 n).reverse

def Found.len : Found → Nat
  | .file contents _ => contents.length
  | .folder _ len => len
  | .symlink => 0
  | .special len => len

/-- The length and the time, when the content cannot be had. -/
def fallbackMarker (look : Look) : Bytes :=
  littleEndian look.found.len ++ littleEndian ((look.modified.getD 0).toNat % 2 ^ 64)

def contentMarkerFor (look : Look) : Bytes :=
  match look.found with
  | .file contents none => blake3 contents
  | .folder (.ok manifest) _ =>
    match manifest.digest with
    | .ok _ => blake3 (folderManifestDomain ++ manifestJson manifest)
    | .error _ => fallbackMarker look
  | _ => fallbackMarker look

def field (bytes : Bytes) : Bytes := littleEndian bytes.length ++ bytes

/-- What is hashed for the id. -/
def idText (instanceId : String) (source : SourcePath) (marker : Bytes) (target : String) : Bytes :=
  field instanceId.toUTF8.toList ++ field source.lossy.toUTF8.toList ++ field target.toUTF8.toList ++ field marker

/-- The version and the variant of a UUID are set in random bytes. -/
def fromRandomBytes (bytes : Bytes) : Bytes :=
  (bytes.modify 6 fun b => (b &&& 0x0f) ||| 0x40).modify 8 fun b => (b &&& 0x3f) ||| 0x80

def hyphenatedText (bytes : Bytes) : String :=
  let hex := hexEncode bytes
  String.ofList (hex.take 8 ++ '-' :: ((hex.drop 8).take 4 ++ '-' :: ((hex.drop 12).take 4 ++ '-' ::
    ((hex.drop 16).take 4 ++ '-' :: hex.drop 20))))

def deriveTransferId (instanceId : String) (source : SourcePath) (marker : Bytes) (target : String) : Bytes :=
  fromRandomBytes ((blake3 (idText instanceId source marker target)).take 16)

def sourceFilename (source : SourcePath) : Except CoreError String :=
  match (source.fileName.bind OsName.intoString).filter (· ≠ "") with
  | some name => .ok name
  | none => .error (.invalidTransfer "source path has no UTF-8 filename")

def newOffer (transferId : Bytes) (filename : String) (size : Nat) (modifiedMs : Int) (digest : String)
    (sender : DeviceSummary) : TransferOffer where
  protocol := quicProtocolVersion
  transferId := hyphenatedText transferId
  filename := filename
  kind := .file
  size := size
  modifiedMs := modifiedMs
  blake3 := digest
  sender := sender
  signature := ""

def Look.modifiedMs (look : Look) : Int := InkHole.modifiedMs (fun _ => look.now) [] look.modified

/-- The offer before it is signed. -/
def buildOffer (identity : Identity) (source : SourcePath) (transferId : Bytes) (look : Look) :
    Except CoreError TransferOffer :=
  match look.found with
  | .symlink => .error (.invalidTransfer "source path is a symbolic link")
  | .file _ (some error) => .error error
  | .file contents none => do
    let filename ← sourceFilename source
    return newOffer transferId filename contents.length look.modifiedMs (blake3Hex contents) identity.summary
  | .folder scan _ => do
    let manifest ← scan
    let size ← manifest.validate
    let digest ← manifest.digest
    let filename ← sourceFilename source
    return { newOffer transferId filename size look.modifiedMs digest identity.summary with kind := .folderV1 }
  | .special _ => .error (.invalidTransfer "source path is not a regular file or directory")

/-- The part of `send_file` that makes the offer. -/
def signedOffer (identity : Identity) (source : SourcePath) (transferId : Bytes) (look : Look) :
    Except CoreError TransferOffer := do
  let offer ← buildOffer identity source transferId look
  let signed := { offer with signature := identity.sign offer.signingBytes }
  signed.validate
  return signed

/-- A send looks at the source for the id, and again for the offer. -/
structure SourceSend where
  marked : Look
  offered : Look

/-- The sender, the path and the target, which two sends share. -/
structure Route where
  identity : Identity
  source : SourcePath
  target : String

def SourceSend.transferId (route : Route) (send : SourceSend) : Bytes :=
  deriveTransferId route.identity.summary.instanceId route.source (contentMarkerFor send.marked) route.target

def SourceSend.offer (route : Route) (send : SourceSend) : Except CoreError TransferOffer :=
  signedOffer route.identity route.source (send.transferId route) send.offered

/-! What two offers of one route have in common. -/

inductive Content where
  | file (contents : Bytes)
  | folder (manifest : FolderManifest)

namespace Content

def kind : Content → TransferKind
  | .file _ => .file
  | .folder _ => .folderV1

/-- What the digest of the offer is taken of. -/
def text : Content → Bytes
  | .file contents => contents
  | .folder manifest => folderManifestDomain ++ manifestJson manifest

def size : Content → Nat
  | .file contents => contents.length
  | .folder manifest => manifest.validate.toOption.getD 0

end Content

/-- What a look finds that can be offered. -/
def Look.content (look : Look) : Option Content :=
  match look.found with
  | .file contents none => some (.file contents)
  | .folder (.ok manifest) _ => some (.folder manifest)
  | _ => none

theorem bind_ok {α β : Type} {x : Except CoreError α} {f : α → Except CoreError β} {b : β}
    (h : (x >>= f) = .ok b) : ∃ a, x = .ok a ∧ f a = .ok b := by
  cases x with
  | error e => cases h
  | ok a => exact ⟨a, rfl, h⟩

theorem digest_ok {manifest : FolderManifest} {digest : String} (h : manifest.digest = .ok digest) :
    digest = blake3Hex (folderManifestDomain ++ manifestJson manifest) := by
  obtain ⟨-, -, h⟩ := bind_ok h
  exact (Except.ok.inj h).symm

/-- The stored offer of what was found under a name. -/
def stored (identity : Identity) (transferId : Bytes) (name : String) (content : Content) (modifiedMs : Int) :
    StoredOffer where
  transferId := hyphenatedText transferId
  filename := safeFilename name
  kind := content.kind
  size := content.size
  modifiedMs := modifiedMs
  blake3 := blake3Hex content.text
  senderInstanceId := identity.summary.instanceId
  senderPublicKey := identity.summary.publicKey

theorem buildOffer_ok {identity : Identity} {source : SourcePath} {transferId : Bytes} {look : Look}
    {offer : TransferOffer} (h : buildOffer identity source transferId look = .ok offer) :
    ∃ name content, sourceFilename source = .ok name ∧ look.content = some content ∧
      (∀ manifest, content = .folder manifest → ∃ digest, manifest.digest = .ok digest) ∧
      StoredOffer.of offer = stored identity transferId name content look.modifiedMs := by
  unfold buildOffer at h
  split at h
  · cases h
  · cases h
  · next contents hfound =>
    obtain ⟨name, hname, h⟩ := bind_ok h
    obtain rfl := Except.ok.inj h
    exact ⟨name, .file contents, hname, by rw [Look.content, hfound], by simp, rfl⟩
  · next scan len hfound =>
    obtain ⟨manifest, hscan, h⟩ := bind_ok h
    rw [hscan] at hfound
    obtain ⟨size, hsize, h⟩ := bind_ok h
    obtain ⟨digest, hdigest, h⟩ := bind_ok h
    obtain ⟨name, hname, h⟩ := bind_ok h
    obtain rfl := Except.ok.inj h
    refine ⟨name, .folder manifest, hname, by rw [Look.content, hfound], ?_, ?_⟩
    · intro other hother
      obtain rfl : manifest = other := by injection hother
      exact ⟨digest, hdigest⟩
    · rw [digest_ok hdigest]
      simp only [StoredOffer.of, newOffer, stored, Content.kind, Content.size, Content.text, hsize]
      rfl
  · cases h

theorem signedOffer_ok {identity : Identity} {source : SourcePath} {transferId : Bytes} {look : Look}
    {offer : TransferOffer} (h : signedOffer identity source transferId look = .ok offer) :
    ∃ name content, sourceFilename source = .ok name ∧ look.content = some content ∧
      (∀ manifest, content = .folder manifest → ∃ digest, manifest.digest = .ok digest) ∧
      StoredOffer.of offer = stored identity transferId name content look.modifiedMs := by
  obtain ⟨built, hbuilt, h⟩ := bind_ok h
  obtain ⟨-, -, h⟩ := bind_ok h
  obtain rfl := Except.ok.inj h
  obtain ⟨name, content, hname, hcontent, hdigest, hstored⟩ := buildOffer_ok hbuilt
  exact ⟨name, content, hname, hcontent, hdigest, hstored⟩

/-- Neither the hash nor JSON takes two things of these sends for one. -/
structure Unconfused (route : Route) (x y : SourceSend) : Prop where
  ids : x.transferId route = y.transferId route →
    idText route.identity.summary.instanceId route.source (contentMarkerFor x.marked) route.target =
      idText route.identity.summary.instanceId route.source (contentMarkerFor y.marked) route.target
  digests : ∀ a b, x.offered.content = some a → y.offered.content = some b →
    blake3 a.text = blake3 b.text → a.text = b.text
  manifests : ∀ m n, x.offered.content = some (.folder m) → y.offered.content = some (.folder n) →
    manifestJson m = manifestJson n → m = n

theorem content_of_text {a b : Content} (htext : a.text = b.text) (hkind : a.kind = b.kind)
    (hjson : ∀ m n, a = .folder m → b = .folder n → manifestJson m = manifestJson n → m = n) : a = b := by
  cases a with
  | file contents =>
    cases b with
    | file other => exact congrArg Content.file htext
    | folder other => cases hkind
  | folder manifest =>
    cases b with
    | file other => cases hkind
    | folder other =>
      exact congrArg Content.folder (hjson manifest other rfl rfl (List.append_cancel_left htext))

/-- The id binds the marker. -/
theorem marker_of_idText {instanceId target : String} {source : SourcePath} {marker other : Bytes}
    (h : idText instanceId source marker target = idText instanceId source other target) : marker = other := by
  rw [idText, idText] at h
  have hfield : field marker = field other := List.append_cancel_left h
  have hlength : (littleEndian marker.length).length = (littleEndian other.length).length := by
    simp [littleEndian]
  exact (List.append_inj hfield hlength).2

/-- The content that can be offered is what the marker is a hash of. -/
theorem marker_of_content {look : Look} {content : Content} (h : look.content = some content)
    (hdigest : ∀ manifest, content = .folder manifest → ∃ digest, manifest.digest = .ok digest) :
    contentMarkerFor look = blake3 content.text := by
  unfold Look.content at h
  split at h
  · next contents hfound =>
    obtain rfl := Option.some.inj h
    rw [contentMarkerFor, hfound]
    rfl
  · next manifest len hfound =>
    obtain rfl := Option.some.inj h
    obtain ⟨digest, hdigest⟩ := hdigest manifest rfl
    rw [contentMarkerFor, hfound]
    dsimp only
    rw [hdigest]
    rfl
  · cases h

theorem stored_eq_iff {route : Route} {x y : SourceSend} {name : String} {a b : Content} {modified other : Int}
    (hx : x.offered.content = some a) (hy : y.offered.content = some b) (hsafe : Unconfused route x y)
    (transferId : Bytes) :
    stored route.identity transferId name a modified = stored route.identity transferId name b other ↔
      a = b ∧ modified = other := by
  constructor
  · intro hsame
    have hkind : a.kind = b.kind := congrArg StoredOffer.kind hsame
    have hdigest : blake3Hex a.text = blake3Hex b.text := congrArg StoredOffer.blake3 hsame
    have htext : a.text = b.text := hsafe.digests a b hx hy (by rw [blake3, blake3, hdigest])
    refine ⟨content_of_text htext hkind ?_, congrArg StoredOffer.modifiedMs hsame⟩
    rintro m n rfl rfl
    exact hsafe.manifests m n hx hy
  · rintro ⟨rfl, rfl⟩
    rfl

/-- The kind of the offer that a look gives. -/
def Look.kind (look : Look) : Option TransferKind := look.content.map Content.kind

/-- Two sends with one id are stored alike when they offer the same content with the same time. The
same id gives the same content, up to the kind, when each send offers what it has marked. -/
theorem storedOffers_iff {route : Route} {x y : SourceSend} {ox oy : TransferOffer}
    (hx : x.offer route = .ok ox) (hy : y.offer route = .ok oy)
    (hid : x.transferId route = y.transferId route) (hsafe : Unconfused route x y) :
    (StoredOffer.of ox = StoredOffer.of oy ↔
      x.offered.content = y.offered.content ∧ x.offered.modifiedMs = y.offered.modifiedMs) ∧
    (x.marked = x.offered → y.marked = y.offered →
      (StoredOffer.of ox = StoredOffer.of oy ↔
        x.offered.kind = y.offered.kind ∧ x.offered.modifiedMs = y.offered.modifiedMs)) := by
  obtain ⟨name, a, hname, ha, hda, hsx⟩ := signedOffer_ok hx
  obtain ⟨name', b, hname', hb, hdb, hsy⟩ := signedOffer_ok hy
  obtain rfl : name = name' := Except.ok.inj (hname.symm.trans hname')
  rw [hsx, hsy, hid, stored_eq_iff ha hb hsafe, ha, hb, Option.some.injEq]
  refine ⟨Iff.rfl, fun hsteady hsteady' => ?_⟩
  have hmarkers : contentMarkerFor x.marked = contentMarkerFor y.marked := marker_of_idText (hsafe.ids hid)
  rw [hsteady, hsteady', marker_of_content ha hda, marker_of_content hb hdb] at hmarkers
  have htext : a.text = b.text := hsafe.digests a b ha hb hmarkers
  rw [Look.kind, Look.kind, ha, hb, Option.map_some, Option.map_some, Option.some.injEq]
  refine and_congr_left fun _ => ⟨fun hab => congrArg Content.kind hab, fun hkind => ?_⟩
  refine content_of_text htext hkind ?_
  rintro m n rfl rfl
  exact hsafe.manifests m n ha hb

end Offers

/-! A file is sent, its time is changed, and it is sent again. -/

section Touched

def sampleKey : String := "11qYAYKxCrfVS/7TyWQHOg7hcvPapiMlrwIaaPcHURo="
def signedBefore : String :=
  "3D91hedk33gQPdSt7eHPv5N+dGEXdo3siACA34dEXwE8xJF4h799fgosJBoUsIC5fgl/G+417HJWzwzJ8UJUBg=="
def signedAfter : String :=
  "M79eEy5FqN4tNxTCdA0A2iPZ+Nr5yNEk4idiavb27pXOXdS/e03LfdhJxGeanlqmEu8WBN3LjkDp160aIh7DBQ=="

def sampleDecoded (s : String) : Option Bytes :=
  if s = sampleKey then
    some [215, 90, 152, 1, 130, 177, 10, 183, 213, 75, 254, 211, 201, 100, 7, 58, 14, 225, 114, 243, 218, 166, 35,
      37, 175, 2, 26, 104, 247, 7, 81, 26]
  else if s = signedBefore then
    some [220, 63, 117, 133, 231, 100, 223, 120, 16, 61, 212, 173, 237, 225, 207, 191, 147, 126, 116, 97, 23, 118,
      141, 236, 136, 0, 128, 223, 135, 68, 95, 1, 60, 196, 145, 120, 135, 191, 125, 126, 10, 44, 36, 26, 20, 176,
      128, 185, 126, 9, 127, 27, 238, 53, 236, 114, 86, 207, 12, 201, 241, 66, 84, 6]
  else if s = signedAfter then
    some [51, 191, 94, 19, 46, 69, 168, 222, 45, 55, 20, 194, 116, 13, 0, 218, 35, 217, 248, 218, 249, 200, 209, 36,
      226, 39, 98, 106, 246, 246, 238, 149, 206, 93, 212, 191, 123, 77, 203, 125, 216, 73, 196, 103, 154, 158, 90,
      166, 18, 239, 22, 4, 221, 203, 142, 64, 233, 215, 173, 26, 34, 30, 195, 5]
  else none

def sampleHash (b : Bytes) : String :=
  if b = [65] then "32684bfa28c0c84d6f210511aace0efc5171c7889148ba89208d5aa29705fa98"
  else "130572a92dfea59ad73857d783e12a76f2b5cd1c18d0c780261a9105762d81da"

@[reducible] def sampleExternals : Externals where
  blake3Hex := sampleHash
  offerJson := InkHole.Sample.externals.offerJson
  manifestJson := InkHole.Sample.externals.manifestJson
  recordJson := InkHole.Sample.externals.recordJson
  parseUuid := InkHole.Sample.externals.parseUuid
  base64Decode := sampleDecoded
  validVerifyingKey key := sampleDecoded sampleKey = some key
  verify key _ signed :=
    sampleDecoded sampleKey = some key ∧
      (sampleDecoded signedBefore = some signed ∨ sampleDecoded signedAfter = some signed)
  nfc := InkHole.Sample.externals.nfc
  toLowercase := InkHole.Sample.externals.toLowercase
  parseUuid_chars := InkHole.Sample.externals.parseUuid_chars

attribute [local instance] sampleExternals

def touchedRoute : Route where
  identity :=
    { summary := ⟨"00000000000000000000000000000001", "peer", sampleKey⟩
      sign := fun message =>
        if message = offerSignatureDomain ++ offerJson
            ⟨2, "130572a9-2dfe-459a-9738-57d783e12a76", "a.txt", .file, 1, 0, sampleHash [65],
              ⟨"00000000000000000000000000000001", "peer", sampleKey⟩⟩ then signedBefore
        else signedAfter }
  source := ⟨"/a.txt", some (.unicode "a.txt")⟩
  target := "00000000000000000000000000000002"

/-- The file with the letter A, at a time. -/
def letterAt (modified : Int) : SourceSend :=
  ⟨⟨.file [65] none, some modified, 0⟩, ⟨.file [65] none, some modified, 0⟩⟩

def letterOffer (modified : Int) (signature : String) : TransferOffer where
  protocol := 2
  transferId := "130572a9-2dfe-459a-9738-57d783e12a76"
  filename := "a.txt"
  kind := .file
  size := 1
  modifiedMs := modified
  blake3 := sampleHash [65]
  sender := ⟨"00000000000000000000000000000001", "peer", sampleKey⟩
  signature := signature

/-- Either time the file is offered, with the signature of that offer. -/
theorem offer_letterAt {modified : Int} (hm : modified = 0 ∨ modified = 1) :
    (letterAt modified).offer touchedRoute =
      .ok (letterOffer modified (touchedRoute.identity.sign (letterOffer modified "").signingBytes)) := by
  have hbuilt : buildOffer touchedRoute.identity touchedRoute.source ((letterAt modified).transferId touchedRoute)
      (letterAt modified).offered = .ok (letterOffer modified "") := by
    rcases hm with rfl | rfl
    · decide +kernel
    · decide +kernel
  have hsign : ∀ message, touchedRoute.identity.sign message = signedBefore ∨
      touchedRoute.identity.sign message = signedAfter := by
    intro message
    dsimp only [touchedRoute]
    split
    · exact .inl rfl
    · exact .inr rfl
  have hvalid : ∀ signature, signature = signedBefore ∨ signature = signedAfter →
      (letterOffer modified signature).validate = .ok () := by
    rintro signature (rfl | rfl)
    · rcases hm with rfl | rfl
      · decide +kernel
      · decide +kernel
    · rcases hm with rfl | rfl
      · decide +kernel
      · decide +kernel
  rw [SourceSend.offer, signedOffer, hbuilt]
  change ((letterOffer modified (touchedRoute.identity.sign (letterOffer modified "").signingBytes)).validate >>=
    fun _ => _) = _
  rw [hvalid _ (hsign _)]
  rfl

theorem storedOffers_resent :
    ∃ ox oy, (letterAt 0).offer touchedRoute = .ok ox ∧ (letterAt 0).offer touchedRoute = .ok oy ∧
      StoredOffer.of ox = StoredOffer.of oy := by
  have hsafe : Unconfused touchedRoute (letterAt 0) (letterAt 0) := by
    refine ⟨fun _ => rfl, ?_, ?_⟩
    · intro a b ha hb _
      obtain rfl : a = b := Option.some.inj (ha.symm.trans hb)
      rfl
    · intro m n hm
      cases hm
  have hoffer := offer_letterAt (.inl rfl)
  exact ⟨_, _, hoffer, hoffer, ((storedOffers_iff hoffer hoffer rfl hsafe).2 rfl rfl).mpr ⟨rfl, rfl⟩⟩

/-- The id is the same, and the receiver rejects the second offer. -/
theorem touched_file_rejected :
    ∃ ox oy, (letterAt 0).offer touchedRoute = .ok ox ∧ (letterAt 1).offer touchedRoute = .ok oy ∧
      (letterAt 0).transferId touchedRoute = (letterAt 1).transferId touchedRoute ∧
      ensureSameOffer (StoredOffer.of ox) (StoredOffer.of oy) =
        .error (.invalidTransfer "transfer_id was reused with different metadata") :=
  ⟨_, _, offer_letterAt (.inl rfl), offer_letterAt (.inr rfl), rfl, if_pos (by simp [StoredOffer.of, letterOffer])⟩

end Touched

end TransferIds

end InkHole
