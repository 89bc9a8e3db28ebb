import InkHole.DataChannel
import InkHole.TransferIds

/-! What is signed and hashed of a data channel and of a transfer: the values can be told from the
bytes, and the bytes of one purpose are never those of another. -/

set_option linter.unusedSectionVars false

namespace InkHole

open Codes

/-- Fields whose lengths fit in 32 bits. -/
def Short (fields : List Bytes) : Prop := ∀ field ∈ fields, field.length < 2 ^ 32

instance (fields : List Bytes) : Decidable (Short fields) := inferInstanceAs (Decidable (∀ _ ∈ _, _))

/-- What a sender signs. -/
structure ClientTranscript where
  sender : String
  receiver : String
  nonce : Bytes
  deriving DecidableEq, Repr

def ClientTranscript.fields (t : ClientTranscript) : List Bytes := [utf8 t.sender, utf8 t.receiver, t.nonce]

def ClientTranscript.message (t : ClientTranscript) : Bytes := clientAuthMessage t.sender t.receiver t.nonce

/-- What a receiver signs. -/
structure ServerTranscript where
  sender : String
  receiver : String
  clientNonce : Bytes
  serverNonce : Bytes
  fingerprint : String
  secret : String
  deriving DecidableEq, Repr

def ServerTranscript.fields (t : ServerTranscript) : List Bytes :=
  [utf8 t.sender, utf8 t.receiver, t.clientNonce, t.serverNonce, utf8 t.fingerprint, utf8 t.secret]

def ServerTranscript.message (t : ServerTranscript) : Bytes :=
  serverAuthMessage t.sender t.receiver t.clientNonce t.serverNonce t.fingerprint t.secret

/-- What the key of a tunnel is derived from. -/
structure TunnelTranscript where
  clientNonce : Bytes
  serverNonce : Bytes
  clientPublic : String
  serverPublic : String
  deriving DecidableEq, Repr

def TunnelTranscript.fields (t : TunnelTranscript) : List Bytes :=
  [t.clientNonce, t.serverNonce, utf8 t.clientPublic, utf8 t.serverPublic]

def TunnelTranscript.input (t : TunnelTranscript) : Bytes :=
  authenticationMessage "inkhole/ssh-relay-v2/tunnel" t.fields

theorem TunnelTranscript.deriveTunnelKey_eq [KeyDerivation] (t : TunnelTranscript) :
    deriveTunnelKey t.clientNonce t.serverNonce t.clientPublic t.serverPublic =
      deriveKey t.input (utf8 "record-key") := rfl

/-! The values from the bytes. -/

theorem ClientTranscript.message_inj {x y : ClientTranscript} (hx : Short x.fields) (hy : Short y.fields)
    (h : x.message = y.message) : x = y := by
  have hfields := authenticationMessage_inj hx hy rfl h
  cases x
  cases y
  simp only [fields, List.cons.injEq, utf8_injective.eq_iff, and_true] at hfields
  simp only [ClientTranscript.mk.injEq]
  exact hfields

theorem ServerTranscript.message_inj {x y : ServerTranscript} (hx : Short x.fields) (hy : Short y.fields)
    (h : x.message = y.message) : x = y := by
  have hfields := authenticationMessage_inj hx hy rfl h
  cases x
  cases y
  simp only [fields, List.cons.injEq, utf8_injective.eq_iff, and_true] at hfields
  simp only [ServerTranscript.mk.injEq]
  exact hfields

theorem TunnelTranscript.input_inj {x y : TunnelTranscript} (hx : Short x.fields) (hy : Short y.fields)
    (h : x.input = y.input) : x = y := by
  have hfields := authenticationMessage_inj hx hy rfl h
  cases x
  cases y
  simp only [fields, List.cons.injEq, utf8_injective.eq_iff, and_true] at hfields
  simp only [TunnelTranscript.mk.injEq]
  exact hfields

theorem toList_loop (b : ByteArray) (i : Nat) (r : Bytes) :
    ByteArray.toList.loop b i r = r.reverse ++ b.data.toList.drop i := by
  fun_induction ByteArray.toList.loop b i r with
  | case1 i r h ih =>
    have hlt : i < b.data.toList.length := h
    have hget : b.get! i = b.data.toList[i] := getElem!_pos b.data i h
    rw [ih, hget, List.reverse_cons, List.append_assoc, List.singleton_append, ← List.drop_eq_getElem_cons hlt]
  | case2 i r h =>
    have hle : b.data.toList.length ≤ i := Nat.le_of_not_lt h
    rw [List.drop_eq_nil_of_le hle, List.append_nil]

theorem toList_toUTF8 (s : String) : s.toUTF8.toList = utf8 s := toList_loop s.toUTF8 0 []

/-- A field behind its length, read from the front. -/
theorem TransferIds.field_inj {a b x y : Bytes} (ha : a.length < 2 ^ 32) (hb : b.length < 2 ^ 32)
    (h : field a ++ x = field b ++ y) : a = b ∧ x = y := by
  rw [field, field, List.append_assoc, List.append_assoc] at h
  obtain ⟨hlength, hrest⟩ := List.append_inj h (by simp [littleEndian])
  have hsame : a.length = b.length :=
    bigEndian_injective (by omega) (by omega) (List.reverse_injective hlength)
  exact List.append_inj hrest hsame

theorem TransferIds.idText_inj {instanceId instanceId' target target' : String} {source source' : SourcePath}
    {marker marker' : Bytes}
    (h : Short [utf8 instanceId, utf8 source.lossy, utf8 target, marker])
    (h' : Short [utf8 instanceId', utf8 source'.lossy, utf8 target', marker'])
    (htext : idText instanceId source marker target = idText instanceId' source' marker' target') :
    instanceId = instanceId' ∧ source.lossy = source'.lossy ∧ marker = marker' ∧ target = target' := by
  simp only [Short, List.forall_mem_cons] at h h'
  simp only [idText, toList_toUTF8, List.append_assoc] at htext
  obtain ⟨hinstance, htext⟩ := field_inj h.1 h'.1 htext
  obtain ⟨hsource, htext⟩ := field_inj h.2.1 h'.2.1 htext
  obtain ⟨htarget, htext⟩ := field_inj h.2.2.1 h'.2.2.1 htext
  rw [← List.append_nil (field marker), ← List.append_nil (field marker')] at htext
  obtain ⟨hmarker, -⟩ := field_inj h.2.2.2.1 h'.2.2.2.1 htext
  exact ⟨utf8_injective hinstance, utf8_injective hsource, hmarker, utf8_injective htarget⟩

/-! One purpose and another. -/

theorem client_ne_server (c : ClientTranscript) (s : ServerTranscript) : c.message ≠ s.message :=
  domain_ne 22 (by decide +kernel) (by decide +kernel) (by decide +kernel) _ _

theorem client_ne_tunnel (c : ClientTranscript) (t : TunnelTranscript) : c.message ≠ t.input :=
  domain_ne 22 (by decide +kernel) (by decide +kernel) (by decide +kernel) _ _

theorem server_ne_tunnel (s : ServerTranscript) (t : TunnelTranscript) : s.message ≠ t.input :=
  domain_ne 22 (by decide +kernel) (by decide +kernel) (by decide +kernel) _ _

/-- What a sender signs, what a receiver signs, what a key is derived from and what an id is derived
from each determine the values they are made of, and no two of the first three are ever the same. -/
theorem transcripts_separated [Externals] :
    (∀ x y : ClientTranscript, Short x.fields → Short y.fields → x.message = y.message → x = y) ∧
    (∀ x y : ServerTranscript, Short x.fields → Short y.fields → x.message = y.message → x = y) ∧
    (∀ x y : TunnelTranscript, Short x.fields → Short y.fields → x.input = y.input → x = y) ∧
    (∀ (instanceId instanceId' target target' : String) (source source' : TransferIds.SourcePath)
      (marker marker' : Bytes), Short [utf8 instanceId, utf8 source.lossy, utf8 target, marker] →
        Short [utf8 instanceId', utf8 source'.lossy, utf8 target', marker'] →
          TransferIds.idText instanceId source marker target =
            TransferIds.idText instanceId' source' marker' target' →
          instanceId = instanceId' ∧ source.lossy = source'.lossy ∧ marker = marker' ∧ target = target') ∧
    (∀ (c : ClientTranscript) (s : ServerTranscript), c.message ≠ s.message) ∧
    (∀ (c : ClientTranscript) (t : TunnelTranscript), c.message ≠ t.input) ∧
    ∀ (s : ServerTranscript) (t : TunnelTranscript), s.message ≠ t.input :=
  ⟨fun _ _ => ClientTranscript.message_inj, fun _ _ => ServerTranscript.message_inj,
    fun _ _ => TunnelTranscript.input_inj, fun _ _ _ _ _ _ _ _ => TransferIds.idText_inj,
    client_ne_server, client_ne_tunnel, server_ne_tunnel⟩

/-- A letter that moves from the name of the sender to that of the receiver changes the message. -/
theorem transcripts_separated_moved :
    (ClientTranscript.mk "ab" "c" []).message ≠ (ClientTranscript.mk "a" "bc" []).message := by
  intro h
  have hsame := (@transcripts_separated Sample.externals).1 _ _ (by decide +kernel) (by decide +kernel) h
  exact absurd hsame (by decide)

end InkHole
