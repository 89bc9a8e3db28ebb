import InkHole.Data

/-! The cryptography that channels rest on. -/

namespace InkHole

/-- Encryption with a key and a nonce that also authenticates (XSalsa20-Poly1305). -/
class SecretBox where
  encrypt : Bytes → Bytes → Bytes → Option Bytes
  decrypt : Bytes → Bytes → Bytes → Option Bytes
  decrypt_encrypt : ∀ {key nonce plaintext ciphertext}, encrypt key nonce plaintext = some ciphertext →
    decrypt key nonce ciphertext = some plaintext
  /-- The ciphertext carries a tag of 16 bytes. -/
  length_encrypt : ∀ {key nonce plaintext ciphertext}, encrypt key nonce plaintext = some ciphertext →
    ciphertext.length = plaintext.length + 16

/-- HKDF with SHA-256, without a salt: 32 bytes derived from a key for a purpose. -/
class KeyDerivation where
  hkdf : Bytes → Bytes → Bytes

def deriveKey [KeyDerivation] (input purpose : Bytes) : Bytes := KeyDerivation.hkdf input purpose

class Hashing where
  sha256 : Bytes → Bytes

/-- A key exchange with a password (SPAKE2 in its symmetric form): each party draws a secret and
sends one message, and the message of the peer gives it the key. -/
class PasswordExchange where
  Secret : Type
  outbound : Bytes → Bytes → Secret → Bytes
  finish : Bytes → Bytes → Secret → Bytes → Option Bytes

def utf8 (s : String) : Bytes := s.toUTF8.data.toList

/-- A call of the encryption, and what it gave. -/
structure Sealed where
  key : Bytes
  nonce : Bytes
  plaintext : Bytes
  ciphertext : Bytes
  deriving DecidableEq, Repr

namespace Sealed

variable {entries : List Sealed}

/-- No nonce is used twice under one key, and each ciphertext has its tag. -/
structure Table (entries : List Sealed) : Prop where
  once : ∀ s ∈ entries, ∀ u ∈ entries, s.key = u.key → s.nonce = u.nonce → s = u
  length : ∀ s ∈ entries, s.ciphertext.length = s.plaintext.length + 16

def lookupPlaintext (entries : List Sealed) (key nonce plaintext : Bytes) : Option Sealed :=
  entries.find? fun s => s.key = key ∧ s.nonce = nonce ∧ s.plaintext = plaintext

def lookupCiphertext (entries : List Sealed) (key nonce ciphertext : Bytes) : Option Sealed :=
  entries.find? fun s => s.key = key ∧ s.nonce = nonce ∧ s.ciphertext = ciphertext

theorem lookupPlaintext_some {key nonce plaintext : Bytes} {s : Sealed}
    (h : lookupPlaintext entries key nonce plaintext = some s) :
    s ∈ entries ∧ s.key = key ∧ s.nonce = nonce ∧ s.plaintext = plaintext :=
  ⟨List.mem_of_find?_eq_some h, by simpa using List.find?_some h⟩

theorem lookupCiphertext_some {key nonce ciphertext : Bytes} {s : Sealed}
    (h : lookupCiphertext entries key nonce ciphertext = some s) :
    s ∈ entries ∧ s.key = key ∧ s.nonce = nonce ∧ s.ciphertext = ciphertext :=
  ⟨List.mem_of_find?_eq_some h, by simpa using List.find?_some h⟩

end Sealed

/-- Encryption as far as a table gives it. -/
@[reducible] def SecretBox.ofTable (entries : List Sealed) (h : Sealed.Table entries) : SecretBox where
  encrypt key nonce plaintext := (Sealed.lookupPlaintext entries key nonce plaintext).map Sealed.ciphertext
  decrypt key nonce ciphertext := (Sealed.lookupCiphertext entries key nonce ciphertext).map Sealed.plaintext
  decrypt_encrypt hencrypt := by
    obtain ⟨s, hs, rfl⟩ := Option.map_eq_some_iff.mp hencrypt
    obtain ⟨hmem, rfl, rfl, rfl⟩ := Sealed.lookupPlaintext_some hs
    cases hd : Sealed.lookupCiphertext entries s.key s.nonce s.ciphertext with
    | none => simpa using List.find?_eq_none.mp hd s hmem
    | some u =>
      obtain ⟨hu, hkey, hnonce, -⟩ := Sealed.lookupCiphertext_some hd
      rw [h.once u hu s hmem hkey hnonce]
      rfl
  length_encrypt hencrypt := by
    obtain ⟨s, hs, rfl⟩ := Option.map_eq_some_iff.mp hencrypt
    obtain ⟨hmem, -, -, rfl⟩ := Sealed.lookupPlaintext_some hs
    exact h.length s hmem

section Opening

variable [SecretBox]

def Sealed.Valid (s : Sealed) : Prop := SecretBox.encrypt s.key s.nonce s.plaintext = some s.ciphertext

/-- A ciphertext opens only when it was sealed under this key and this nonce. -/
def Unforged (sealed : List Sealed) (key nonce ciphertext : Bytes) : Prop :=
  ∀ plaintext, SecretBox.decrypt key nonce ciphertext = some plaintext →
    ∃ s ∈ sealed, s.key = key ∧ s.nonce = nonce ∧ s.ciphertext = ciphertext

/-- What opens is what was sealed. -/
theorem Unforged.opened {sealed : List Sealed} {key nonce ciphertext plaintext : Bytes}
    (h : Unforged sealed key nonce ciphertext) (hvalid : ∀ s ∈ sealed, s.Valid)
    (hopen : SecretBox.decrypt key nonce ciphertext = some plaintext) :
    (⟨key, nonce, plaintext, ciphertext⟩ : Sealed) ∈ sealed := by
  obtain ⟨s, hs, rfl, rfl, rfl⟩ := h plaintext hopen
  have hplain := SecretBox.decrypt_encrypt (hvalid s hs)
  rw [hopen] at hplain
  obtain rfl := Option.some.inj hplain
  exact hs

end Opening

/-- Nothing opens that is not in the table. -/
theorem unforged_ofTable {entries sealed : List Sealed} (h : Sealed.Table entries) (hsub : entries ⊆ sealed)
    (key nonce ciphertext : Bytes) :
    @Unforged (SecretBox.ofTable entries h) sealed key nonce ciphertext := by
  intro plaintext hopen
  obtain ⟨s, hs, -⟩ := Option.map_eq_some_iff.mp hopen
  obtain ⟨hmem, hparts⟩ := Sealed.lookupCiphertext_some hs
  exact ⟨s, hsub hmem, hparts⟩

end InkHole
