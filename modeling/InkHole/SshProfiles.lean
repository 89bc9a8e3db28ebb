import InkHole.DartStrings

/-! The settings of the relay: the app checks them before it sends them, and the core checks them again. -/

namespace InkHole

structure InkSettings where
  sshHost : String
  sshPort : Int
  sshUser : String
  sshFingerprint : String
  sshPrivateKey : String
  sshPassphrase : String
  sshRemotePort : Int

structure SshProfile where
  id : String
  host : String
  port : Nat
  user : String
  privateKey : String
  privateKeyLabel : String
  passphrase : String
  hostKeySha256 : String
  deriving DecidableEq

/-! The check of the app. -/

/-- The class `\s` of a regular expression. -/
def regExpSpace (c : Char) : Bool :=
  let n := c.toNat
  (9 ≤ n && n ≤ 13) || n == 0x20 || n == 0xA0 || n == 0x1680 || (0x2000 ≤ n && n ≤ 0x200A) || n == 0x2028 ||
    n == 0x2029 || n == 0x202F || n == 0x205F || n == 0x3000 || n == 0xFEFF

def fingerprintUnit (c : Char) : Bool := c.isAlphanum || c == '+' || c == '/' || c == '=' || c == '_' || c == '-'

def sha256 : List Char := "SHA256:".toList

def freshHostFingerprint (value : String) : Option String :=
  let trimmed := Dart.trim value.toList
  if !sha256.isPrefixOf trimmed then none
  else
    let encoded := trimmed.drop 7
    if Dart.length encoded < 32 ∨ 64 < Dart.length encoded then none
    else if encoded.all fingerprintUnit then some (String.ofList trimmed) else none

/-- No message means that the settings pass. -/
def validateSshRelayConfig (host : String) (port : Int) (user fingerprint privateKey : String) (remotePort : Int)
    (requireFingerprint : Bool) : Option String :=
  let trimmedHost := Dart.trim host.toList
  let trimmedUser := Dart.trim user.toList
  if trimmedHost = [] then some "请填写服务器地址"
  else if 255 < Dart.length trimmedHost then some "服务器地址过长"
  else if trimmedHost.any regExpSpace then some "服务器地址不能包含空格"
  else if port < 1 ∨ 65535 < port then some "SSH 端口必须在 1-65535 范围内"
  else if trimmedUser = [] then some "请填写登录用户"
  else if 255 < Dart.length trimmedUser then some "登录用户过长"
  else if Dart.trim privateKey.toList = [] then some "请导入 SSH 私钥"
  else if remotePort < 0 ∨ 65535 < remotePort then some "远端端口必须在 0-65535 范围内"
  else if requireFingerprint && (freshHostFingerprint fingerprint).isNone then
    some "请先「测试握手」取得并确认主机指纹"
  else none

/-- The check before a relay is set up. -/
def invalidSettings (draft : InkSettings) : Option String :=
  validateSshRelayConfig draft.sshHost draft.sshPort draft.sshUser draft.sshFingerprint draft.sshPrivateKey
    draft.sshRemotePort true

/-! What the app sends, and the check of the core. -/

/-- The profile as the core reads it from the request. A port has 16 bits. -/
def sentProfile (draft : InkSettings) : Except CoreError SshProfile :=
  if 0 ≤ draft.sshPort ∧ draft.sshPort ≤ 65535 then
    .ok {
      id := "mobile-default"
      host := String.ofList (Dart.trim draft.sshHost.toList)
      port := draft.sshPort.toNat
      user := String.ofList (Dart.trim draft.sshUser.toList)
      privateKey := draft.sshPrivateKey
      privateKeyLabel := "InkHole Mobile Storage"
      passphrase := draft.sshPassphrase
      hostKeySha256 := String.ofList (Dart.trim draft.sshFingerprint.toList) }
  else .error .json

def maxPrivateKeyBytes : Nat := 1024 * 1024

def invalidTextByte (c : Char) : Bool := c == '\r' || c == '\n' || c == '\x00'

def fingerprintByte (c : Char) : Bool := c.isAlphanum || c == '+' || c == '/' || c == '_' || c == '-'

def validHostFingerprint (value : String) : Bool :=
  let encoded := value.toList.drop 7
  sha256.isPrefixOf value.toList &&
    decide (32 ≤ (String.ofList encoded).utf8ByteSize ∧ (String.ofList encoded).utf8ByteSize ≤ 64) &&
    encoded.all fingerprintByte

def SshProfile.normalize (profile : SshProfile) (requireFingerprint : Bool) : Except CoreError SshProfile := do
  let profile := { profile with
    id := trim profile.id
    host := trim profile.host
    user := trim profile.user
    privateKeyLabel := trim profile.privateKeyLabel
    hostKeySha256 := trim profile.hostKeySha256
    port := if profile.port = 0 then 22 else profile.port }
  ensure (!(profile.host == "" || decide (255 < profile.host.utf8ByteSize) || profile.user == "" ||
      decide (255 < profile.user.utf8ByteSize) || profile.privateKey == "" ||
      decide (maxPrivateKeyBytes < profile.privateKey.utf8ByteSize) || profile.host.toList.any invalidTextByte ||
      profile.user.toList.any invalidTextByte))
    (.invalidRequest "SSH host, user and a valid private key are required")
  ensure (!(requireFingerprint && !validHostFingerprint profile.hostKeySha256))
    (.invalidRequest "confirm the SSH host fingerprint before enabling the relay")
  return profile

/-- What the core asks of settings beyond what the app asks. -/
structure FitsCore (draft : InkSettings) : Prop where
  host_bytes : (String.ofList (Dart.trim draft.sshHost.toList)).utf8ByteSize ≤ 255
  host_nul : '\x00' ∉ draft.sshHost.toList
  user_bytes : (String.ofList (Dart.trim draft.sshUser.toList)).utf8ByteSize ≤ 255
  user_line : ∀ c ∈ Dart.trim draft.sshUser.toList, c ≠ '\r' ∧ c ≠ '\n' ∧ c ≠ '\x00'
  key_bytes : draft.sshPrivateKey.utf8ByteSize ≤ maxPrivateKeyBytes
  fingerprint : '=' ∉ draft.sshFingerprint.toList

theorem refused_eq_none {refused : Prop} [Decidable refused] {message : String} {rest : Option String} :
    (if refused then some message else rest) = none ↔ ¬ refused ∧ rest = none := by
  by_cases h : refused <;> simp [h]

/-- What is in a fingerprint that the app takes. -/
theorem freshHostFingerprint_encoded {value : String} (h : (freshHostFingerprint value).isNone = false) :
    ∃ encoded, Dart.trim value.toList = sha256 ++ encoded ∧ 32 ≤ Dart.length encoded ∧
      Dart.length encoded ≤ 64 ∧ ∀ c ∈ encoded, fingerprintUnit c = true := by
  rw [freshHostFingerprint] at h
  generalize Dart.trim value.toList = trimmed at *
  by_cases hfront : sha256 <+: trimmed
  · obtain ⟨encoded, rfl⟩ := hfront
    have hstart : sha256.isPrefixOf (sha256 ++ encoded) = true :=
      List.isPrefixOf_iff_prefix.mpr (List.prefix_append _ _)
    have hdrop : (sha256 ++ encoded).drop 7 = encoded := rfl
    rw [hstart, hdrop] at h
    refine ⟨encoded, rfl, ?_⟩
    by_cases hlength : Dart.length encoded < 32 ∨ 64 < Dart.length encoded
    · simp [hlength] at h
    · by_cases hall : encoded.all fingerprintUnit = true
      · exact ⟨by omega, by omega, List.all_eq_true.mp hall⟩
      · simp [hlength, hall] at h
  · rw [← List.isPrefixOf_iff_prefix, Bool.not_eq_true] at hfront
    rw [hfront] at h
    cases h

theorem fingerprintUnit_ascii {c : Char} (h : fingerprintUnit c = true) : c.val ≤ 127 := by
  simp only [fingerprintUnit, Bool.or_eq_true, Dart.alphanum_iff, beq_iff_eq] at h
  rcases h with ((((hletter | rfl) | rfl) | rfl) | rfl) | rfl
  · rcases hletter with (⟨-, hle⟩ | ⟨-, hle⟩) | hdigit
    · exact UInt32.le_trans hle (by decide)
    · exact UInt32.le_trans hle (by decide)
    · rw [Char.isDigit, Bool.and_eq_true, decide_eq_true_eq, decide_eq_true_eq] at hdigit
      exact UInt32.le_trans hdigit.2 (by decide)
  all_goals decide

theorem fingerprintByte_iff {c : Char} : fingerprintByte c = true ↔ fingerprintUnit c = true ∧ c ≠ '=' := by
  by_cases h : c = '='
  · subst h
    decide
  · simp [fingerprintByte, fingerprintUnit, h]

/-- A fingerprint that the app takes is one for the core too, unless it has an equals sign. -/
theorem fingerprint_core {value : String} (h : (freshHostFingerprint value).isNone = false) :
    validHostFingerprint (String.ofList (Dart.trim value.toList)) = true ↔ '=' ∉ value.toList := by
  obtain ⟨encoded, htrim, hlow, hhigh, hall⟩ := freshHostFingerprint_encoded h
  have hascii : ∀ c ∈ encoded, c.val ≤ 127 := fun c hc => fingerprintUnit_ascii (hall c hc)
  rw [Dart.length_ascii hascii] at hlow hhigh
  have hin : '=' ∈ value.toList ↔ '=' ∈ encoded := by
    rw [← Dart.mem_trim (by decide), htrim, List.mem_append]
    exact or_iff_right (by decide)
  have hstart : sha256.isPrefixOf (sha256 ++ encoded) = true :=
    List.isPrefixOf_iff_prefix.mpr (List.prefix_append _ _)
  have hdrop : (sha256 ++ encoded).drop 7 = encoded := rfl
  rw [validHostFingerprint, String.toList_ofList, htrim, hin, hstart, hdrop, utf8ByteSize_ascii hascii,
    decide_eq_true (⟨hlow, hhigh⟩ : 32 ≤ encoded.length ∧ encoded.length ≤ 64), Bool.true_and, Bool.true_and,
    List.all_eq_true]
  constructor
  · intro hbytes heq
    exact (fingerprintByte_iff.mp (hbytes '=' heq)).2 rfl
  · intro hno c hc
    refine fingerprintByte_iff.mpr ⟨hall c hc, ?_⟩
    rintro rfl
    exact hno hc

/-- What the core asks of a profile. -/
theorem SshProfile.normalize_iff {profile : SshProfile} :
    (∃ normalized, profile.normalize true = .ok normalized) ↔
      (trim profile.host ≠ "" ∧ (trim profile.host).utf8ByteSize ≤ 255 ∧ trim profile.user ≠ "" ∧
        (trim profile.user).utf8ByteSize ≤ 255 ∧ profile.privateKey ≠ "" ∧
        profile.privateKey.utf8ByteSize ≤ maxPrivateKeyBytes ∧
        (∀ c ∈ (trim profile.host).toList, invalidTextByte c = false) ∧
        ∀ c ∈ (trim profile.user).toList, invalidTextByte c = false) ∧
      validHostFingerprint (trim profile.hostKeySha256) = true := by
  rw [SshProfile.normalize]
  dsimp only
  constructor
  · rintro ⟨normalized, h⟩
    obtain ⟨htexts, h⟩ := ensure_bind.mp h
    obtain ⟨hfingerprint, -⟩ := ensure_bind.mp h
    simpa [and_assoc] using And.intro htexts hfingerprint
  · intro h
    refine ⟨_, ensure_bind.mpr ⟨?_, ensure_bind.mpr ⟨?_, rfl⟩⟩⟩
    · simpa [and_assoc] using h.1
    · simpa using h.2

/-- What the app has checked. -/
structure Checked (draft : InkSettings) : Prop where
  host : Dart.trim draft.sshHost.toList ≠ []
  spaces : ∀ c ∈ Dart.trim draft.sshHost.toList, regExpSpace c = false
  port : 1 ≤ draft.sshPort ∧ draft.sshPort ≤ 65535
  user : Dart.trim draft.sshUser.toList ≠ []
  key : Dart.trim draft.sshPrivateKey.toList ≠ []
  fingerprint : (freshHostFingerprint draft.sshFingerprint).isNone = false

theorem checked_of_valid {draft : InkSettings} (h : invalidSettings draft = none) : Checked draft := by
  simp only [invalidSettings, validateSshRelayConfig, refused_eq_none] at h
  obtain ⟨hhost, -, hspaces, hport, huser, -, hkey, -, hfingerprint, -⟩ := h
  refine ⟨hhost, by simpa using hspaces, by omega, huser, hkey, ?_⟩
  rwa [Bool.true_and, Bool.not_eq_true] at hfingerprint

theorem ofList_ne_empty {text : List Char} (h : text ≠ []) : String.ofList text ≠ "" := by
  intro he
  exact h (String.ofList_eq_empty_iff.mp he)

/-- The core accepts settings that the app has accepted exactly if they fit. -/
theorem normalize_sent_iff {draft : InkSettings} (h : invalidSettings draft = none) :
    (∃ normalized, (sentProfile draft >>= fun profile => profile.normalize true) = .ok normalized) ↔
      FitsCore draft := by
  have hchecked := checked_of_valid h
  have hkey : draft.sshPrivateKey ≠ "" := by
    intro he
    apply hchecked.key
    rw [he]
    rfl
  have hport : 0 ≤ draft.sshPort := by
    have hlow := hchecked.port.1
    omega
  have hnul : ∀ {c : Char}, invalidTextByte c = false ↔ c ≠ '\r' ∧ c ≠ '\n' ∧ c ≠ '\x00' := by
    intro c
    simp [invalidTextByte, and_assoc]
  obtain ⟨profile, hsent, hhost, huser, hprivate, hfingerprint⟩ : ∃ profile, sentProfile draft = .ok profile ∧
      profile.host = String.ofList (Dart.trim draft.sshHost.toList) ∧
      profile.user = String.ofList (Dart.trim draft.sshUser.toList) ∧
      profile.privateKey = draft.sshPrivateKey ∧
      profile.hostKeySha256 = String.ofList (Dart.trim draft.sshFingerprint.toList) :=
    ⟨_, if_pos ⟨hport, hchecked.port.2⟩, rfl, rfl, rfl, rfl⟩
  have hrun : (sentProfile draft >>= fun profile => profile.normalize true) = profile.normalize true := by
    rw [hsent]
    exact pure_bind profile _
  rw [hrun, SshProfile.normalize_iff, hhost, huser, hprivate, hfingerprint, Dart.core_trim, Dart.core_trim, Dart.core_trim,
    fingerprint_core hchecked.fingerprint, String.toList_ofList, String.toList_ofList]
  constructor
  · rintro ⟨⟨-, hhost, -, huser, -, hbytes, hhostline, huserline⟩, hequals⟩
    refine ⟨hhost, ?_, huser, fun c hc => hnul.mp (huserline c hc), hbytes, hequals⟩
    intro hin
    exact (hnul.mp (hhostline _ ((Dart.mem_trim (by decide)).mpr hin))).2.2 rfl
  · intro hfits
    refine ⟨⟨ofList_ne_empty hchecked.host, hfits.host_bytes, ofList_ne_empty hchecked.user, hfits.user_bytes, hkey,
      hfits.key_bytes, ?_, fun c hc => hnul.mpr (hfits.user_line c hc)⟩, hfits.fingerprint⟩
    intro c hc
    -- a line break is a space for the app
    have hspace := hchecked.spaces c hc
    refine hnul.mpr ⟨?_, ?_, ?_⟩
    · rintro rfl
      exact absurd hspace (by decide)
    · rintro rfl
      exact absurd hspace (by decide)
    · rintro rfl
      exact hfits.host_nul (Dart.trim_subset _ hc)

/-- Settings with the given fingerprint. -/
def relayDraft (fingerprint : String) : InkSettings where
  sshHost := "relay"
  sshPort := 22
  sshUser := "root"
  sshFingerprint := fingerprint
  sshPrivateKey := "key"
  sshPassphrase := ""
  sshRemotePort := 0

theorem normalize_sent_relayDraft :
    ∃ normalized, (sentProfile (relayDraft "SHA256:d8Nq57sE2m/1kR+Qw9xLz3TpYbVcNdUfOgHiJkLmNoP") >>=
      fun profile => profile.normalize true) = .ok normalized := by
  have huser : Dart.trim (relayDraft "SHA256:d8Nq57sE2m/1kR+Qw9xLz3TpYbVcNdUfOgHiJkLmNoP").sshUser.toList =
      ['r', 'o', 'o', 't'] := by rfl
  have hline : ∀ c ∈ ['r', 'o', 'o', 't'], c ≠ '\r' ∧ c ≠ '\n' ∧ c ≠ '\x00' := by simp
  exact (normalize_sent_iff (by rfl)).mpr ⟨by decide +kernel, by decide +kernel, by decide +kernel,
    huser ▸ hline, by decide +kernel, by decide +kernel⟩

/-- The app takes a fingerprint with padding, and the core does not. -/
theorem padded_fingerprint_rejected :
    invalidSettings (relayDraft "SHA256:d8Nq57sE2m/1kR+Qw9xLz3TpYbVcNdUfOgHiJkLmNoP=") = none ∧
      ¬ ∃ normalized, (sentProfile (relayDraft "SHA256:d8Nq57sE2m/1kR+Qw9xLz3TpYbVcNdUfOgHiJkLmNoP=") >>=
        fun profile => profile.normalize true) = .ok normalized := by
  have hvalid : invalidSettings (relayDraft "SHA256:d8Nq57sE2m/1kR+Qw9xLz3TpYbVcNdUfOgHiJkLmNoP=") = none := by
    rfl
  refine ⟨hvalid, ?_⟩
  rintro ⟨normalized, h⟩
  have herror : (sentProfile (relayDraft "SHA256:d8Nq57sE2m/1kR+Qw9xLz3TpYbVcNdUfOgHiJkLmNoP=") >>=
      fun profile => profile.normalize true) =
      .error (.invalidRequest "confirm the SSH host fingerprint before enabling the relay") := by
    rfl
  rw [herror] at h
  cases h

end InkHole
