import SqlOptima.Base64
import SqlOptima.PythonTransforms
import SqlOptima.TransformAgreement

namespace SqlOptima.MigrationSecrets

open Base64 Utf8Text
open PythonTransforms (UnicodeTables strip)

section Crypto

/-- PBKDF2 and Fernet, which both libraries have alike; a nonce is the time and the vector that an
encryption draws. -/
structure Fernet where
  Nonce : Type
  deriveKey : List UInt8 → List UInt8 → List UInt8
  encrypt : List Char → List UInt8 → Nonce → List Char
  decrypt : List Char → List Char → Option (List UInt8)
  decrypt_encrypt : ∀ key plain nonce, decrypt key (encrypt key plain nonce) = some plain
  base64_encrypt : ∀ key plain nonce, ∀ c ∈ encrypt key plain nonce, c = '=' ∨ (value c).isSome

/-- What `secrets.token_bytes(16)` draws. -/
structure Salt where
  bytes : List UInt8
  length_eq : bytes.length = 16

variable (F : Fernet)

/-- The key that Fernet is given, as text. -/
def fernetKey (masterKey : List Char) (salt : List UInt8) : List Char :=
  encode (F.deriveKey (utf8 masterKey) salt)

end Crypto

section Python

inductive MasterKeyError where
  | required
  | tooShort (length : Nat)

variable (u : UnicodeTables)

def minMasterKeyLength : Nat := 32

structure SecretsManager where
  masterKey : List Char
  notBlank : strip u masterKey ≠ []
  longEnough : minMasterKeyLength ≤ masterKey.length

/-- The key given, or the environment's where that is missing or empty. -/
def SecretsManager.new (masterKey env : Option (List Char)) :
    Except MasterKeyError (SecretsManager u) :=
  let key := (if masterKey.getD [] = [] then env else masterKey).getD []
  if hblank : strip u key = [] then .error .required
  else if hlength : key.length < minMasterKeyLength then .error (.tooShort key.length)
  else .ok ⟨key, hblank, Nat.le_of_not_lt hlength⟩

variable {u} (F : Fernet) (sm : SecretsManager u)

def encrypt (plaintext : List Char) (salt : Salt) (nonce : F.Nonce) : List Char :=
  let token := F.encrypt (fernetKey F sm.masterKey salt.bytes) (utf8 plaintext) nonce
  Base64.encode salt.bytes ++ ':' :: token

def encryptV2 (keyId plaintext : List Char) (salt : Salt) (nonce : F.Nonce) : List Char :=
  let token := F.encrypt (fernetKey F sm.masterKey salt.bytes) (utf8 plaintext) nonce
  ['v', '2', ':'] ++ (keyId ++ ':' :: (Base64.encode salt.bytes ++ ':' :: token))

inductive DecryptError where
  | empty | legacyFormat | v2Format | invalidToken

/-- `text.split(":", 1)`, where there is a colon. -/
def splitColon (text : List Char) : Option (List Char × List Char) :=
  match text.dropWhile (· ≠ ':') with
  | [] => none
  | _ :: rest => some (text.takeWhile (· ≠ ':'), rest)

def urlsafeB64decode (text : List Char) : Option (List UInt8) :=
  if text.all isAscii then decodeLenient 0 0 0 text else none

/-- `bytes.decode()` -/
def decodeUtf8 (bytes : List UInt8) : Option (List Char) :=
  (String.fromUTF8? bytes.toByteArray).map String.toList

/-- The common part of the two formats; a `ValueError` becomes that of the format. -/
def decryptToken (formatError : DecryptError) (saltB64 token : List Char) :
    Except DecryptError (List Char) :=
  match urlsafeB64decode saltB64 with
  | none => .error formatError
  | some salt =>
      match F.decrypt (fernetKey F sm.masterKey salt) token with
      | none => .error .invalidToken
      | some plain =>
          match decodeUtf8 plain with
          | none => .error formatError
          | some text => .ok text

def decryptLegacy (ciphertext : List Char) : Except DecryptError (List Char) :=
  match splitColon ciphertext with
  | none => .error .legacyFormat
  | some (saltB64, token) => decryptToken F sm .legacyFormat saltB64 token

def decryptV2 (ciphertext : List Char) : Except DecryptError (List Char) :=
  match splitColon (ciphertext.drop 3) with
  | none => .error .v2Format
  | some (_, rest) =>
      match splitColon rest with
      | none => .error .v2Format
      | some (saltB64, token) => decryptToken F sm .v2Format saltB64 token

def decryptAuto (ciphertext : List Char) : Except DecryptError (List Char) :=
  if ciphertext = [] then .error .empty
  else if ['v', '2', ':'].isPrefixOf ciphertext then decryptV2 F sm ciphertext
  else if ['v', '1', ':'].isPrefixOf ciphertext then decryptLegacy F sm (ciphertext.drop 3)
  else decryptLegacy F sm ciphertext

inductive RotateError where
  | masterKey (error : MasterKeyError)
  | decrypt (error : DecryptError)

/-- The comprehension of `rotate`, with what is drawn for the ciphertexts from the `i`-th on. -/
def rotateFrom (newSm : SecretsManager u) (newKeyId : List Char)
    (random : Nat → Salt × F.Nonce) (i : Nat) :
    List (List Char) → Except DecryptError (List (List Char))
  | [] => .ok []
  | ct :: ciphertexts =>
      match decryptAuto F sm ct with
      | .error e => .error e
      | .ok plaintext =>
          match rotateFrom newSm newKeyId random (i + 1) ciphertexts with
          | .error e => .error e
          | .ok rotated =>
              .ok (encryptV2 F newSm newKeyId plaintext (random i).1 (random i).2 :: rotated)

def rotate (env : Option (List Char)) (ciphertexts : List (List Char))
    (newMasterKey newKeyId : List Char) (random : Nat → Salt × F.Nonce) :
    Except RotateError (List (List Char)) :=
  match SecretsManager.new u (some newMasterKey) env with
  | .error e => .error (.masterKey e)
  | .ok newSm =>
      match rotateFrom F sm newSm newKeyId random 0 ciphertexts with
      | .error e => .error (.decrypt e)
      | .ok rotated => .ok rotated

end Python

section Go

inductive SecretError where
  | masterKeyRequired | emptyCiphertext | v2Format | legacyFormat | decodeSalt | fernetDecrypt

variable (F : Fernet) (masterKey : List Char)

def decryptTokenWithSalt (saltB64 token : List Char) : Except SecretError (List UInt8) :=
  match decodeStrict saltB64 with
  | none => .error .decodeSalt
  | some salt =>
      match F.decrypt (fernetKey F masterKey salt) token with
      | none => .error .fernetDecrypt
      | some plain => .ok plain

def decryptLegacyPayload (payload : List Char) : Except SecretError (List UInt8) :=
  match splitColon payload with
  | none => .error .legacyFormat
  | some (saltB64, token) =>
      if saltB64 = [] then .error .legacyFormat
      else decryptTokenWithSalt F masterKey saltB64 token

/-- A Go string is given by its characters, and the plaintext by its bytes. -/
def decryptMigrationSecret (ciphertext : List Char) : Except SecretError (List UInt8) :=
  if masterKey = [] then .error .masterKeyRequired
  else if ciphertext = [] then .error .emptyCiphertext
  else if ['v', '2', ':'].isPrefixOf ciphertext then
    match splitColon (ciphertext.drop 3) with
    | none => .error .v2Format
    | some (_, rest) =>
        match splitColon rest with
        | none => .error .v2Format
        | some (saltB64, token) => decryptTokenWithSalt F masterKey saltB64 token
  else if ['v', '1', ':'].isPrefixOf ciphertext then
    decryptLegacyPayload F masterKey (ciphertext.drop 3)
  else decryptLegacyPayload F masterKey ciphertext

end Go

end SqlOptima.MigrationSecrets

namespace SqlOptima.SecretsSurvival

open Base64 Utf8Text MigrationSecrets
open PythonTransforms (UnicodeTables)
open TransformAgreement (asciiTables)

section Splitting

theorem splitColon_append {a : List Char} (h : ':' ∉ a) (b : List Char) :
    splitColon (a ++ ':' :: b) = some (a, b) := by
  have ha : ∀ c ∈ a, decide (c ≠ ':') = true := fun c hc =>
    decide_eq_true (fun heq => h (heq ▸ hc))
  rw [splitColon, List.dropWhile_append_of_pos ha, List.takeWhile_append_of_pos ha]
  simp

theorem splitColon_cons {c : Char} (h : c ≠ ':') (text : List Char) :
    splitColon (c :: text) = (splitColon text).map fun parts => (c :: parts.1, parts.2) := by
  have hc : decide (c ≠ ':') = true := decide_eq_true h
  simp only [splitColon, List.dropWhile_cons, List.takeWhile_cons, hc, if_true]
  split
  · rfl
  · rfl

/-- What stands behind a colon stays together. -/
theorem splitColon_append_suffix (a b : List Char) :
    ∃ s t, splitColon (a ++ ':' :: b) = some (s, t) ∧ b <:+ t := by
  induction a with
  | nil => exact ⟨[], b, rfl, List.suffix_refl b⟩
  | cons c a ih =>
      by_cases hc : c = ':'
      · subst hc
        exact ⟨[], a ++ ':' :: b, rfl, (List.suffix_cons ':' b).trans (List.suffix_append a _)⟩
      · obtain ⟨s, t, hsplit, hsuffix⟩ := ih
        refine ⟨c :: s, t, ?_, hsuffix⟩
        rw [List.cons_append, splitColon_cons hc, hsplit]
        rfl

end Splitting

section Spec

variable {u : UnicodeTables} (F : Fernet) (sm : SecretsManager u)

/-- A ciphertext gives the plaintext in both engines. -/
structure ReadBack (ciphertext plaintext : List Char) : Prop where
  python : decryptAuto F sm ciphertext = .ok plaintext
  go : decryptMigrationSecret F sm.masterKey ciphertext = .ok (utf8 plaintext)

structure SecretsSurvive (keyId : List Char) : Prop where
  legacy : ∀ plaintext salt nonce,
    ReadBack F sm (MigrationSecrets.encrypt F sm plaintext salt nonce) plaintext
  versionOne : ∀ plaintext salt nonce,
    ReadBack F sm (['v', '1', ':'] ++ MigrationSecrets.encrypt F sm plaintext salt nonce) plaintext
  versionTwo : ∀ plaintext salt nonce,
    ReadBack F sm (encryptV2 F sm keyId plaintext salt nonce) plaintext
  unambiguous : ∀ plaintext salt nonce,
    ¬ ['v', '1', ':'] <+: MigrationSecrets.encrypt F sm plaintext salt nonce ∧
      ¬ ['v', '2', ':'] <+: MigrationSecrets.encrypt F sm plaintext salt nonce
  rotated : ∀ env newMasterKey newSm, SecretsManager.new u (some newMasterKey) env = .ok newSm →
    ∀ random ciphertexts plaintexts,
      List.Forall₂ (fun ct p => decryptAuto F sm ct = .ok p) ciphertexts plaintexts →
        ∃ rotated, rotate F sm env ciphertexts newMasterKey keyId random = .ok rotated ∧
          List.Forall₂ (ReadBack F newSm) rotated plaintexts

end Spec

section Sufficient

variable {u : UnicodeTables} {F : Fernet} {sm : SecretsManager u}

theorem decodeUtf8_utf8 (text : List Char) : decodeUtf8 (utf8 text) = some text := by
  have hvalid : (utf8 text).toByteArray.IsValidUTF8 := ⟨text, rfl⟩
  rw [decodeUtf8, String.fromUTF8?, dif_pos hvalid, Option.map_some]
  exact congrArg some String.toList_ofList

theorem urlsafeB64decode_encode (bytes : List UInt8) :
    urlsafeB64decode (encode bytes) = some bytes := by
  rw [urlsafeB64decode, if_pos (isAscii_encode bytes), decodeLenient_encode]

theorem colon_notMem_encode (bytes : List UInt8) : ':' ∉ encode bytes :=
  notMem_encode (by decide) (by decide) bytes

theorem decryptToken_encrypt (formatError : DecryptError) (plaintext : List Char)
    (salt : List UInt8) (nonce : F.Nonce) :
    decryptToken F sm formatError (encode salt)
      (F.encrypt (fernetKey F sm.masterKey salt) (utf8 plaintext) nonce) = .ok plaintext := by
  rw [decryptToken, urlsafeB64decode_encode]
  dsimp only
  rw [F.decrypt_encrypt]
  dsimp only
  rw [decodeUtf8_utf8]

theorem decryptTokenWithSalt_encrypt (masterKey : List Char) (plain salt : List UInt8)
    (nonce : F.Nonce) :
    decryptTokenWithSalt F masterKey (encode salt)
      (F.encrypt (fernetKey F masterKey salt) plain nonce) = .ok plain := by
  rw [decryptTokenWithSalt, decodeStrict_encode]
  dsimp only
  rw [F.decrypt_encrypt]

theorem three_le_length_encode (salt : Salt) : 3 ≤ (encode salt.bytes).length := by
  have hlength := salt.length_eq
  generalize salt.bytes = bytes at hlength ⊢
  fun_cases encode bytes with
  | case1 => cases hlength
  | case2 => simp
  | case3 => simp
  | case4 => simp

/-- The third character of a legacy ciphertext is no colon. -/
theorem not_prefix_encrypt (a b : Char) (plaintext : List Char) (salt : Salt) (nonce : F.Nonce) :
    ¬ [a, b, ':'] <+: MigrationSecrets.encrypt F sm plaintext salt nonce := by
  intro hprefix
  have hsalt : [a, b, ':'] <+: encode salt.bytes :=
    List.prefix_of_prefix_length_le hprefix (List.prefix_append _ _) (three_le_length_encode salt)
  exact colon_notMem_encode salt.bytes (hsalt.subset (by simp))

theorem decryptLegacy_encrypt (plaintext : List Char) (salt : Salt) (nonce : F.Nonce) :
    decryptLegacy F sm (MigrationSecrets.encrypt F sm plaintext salt nonce) = .ok plaintext := by
  rw [decryptLegacy, MigrationSecrets.encrypt, splitColon_append (colon_notMem_encode _)]
  exact decryptToken_encrypt _ _ _ _

theorem decryptLegacyPayload_encrypt (plaintext : List Char) (salt : Salt) (nonce : F.Nonce) :
    decryptLegacyPayload F sm.masterKey (MigrationSecrets.encrypt F sm plaintext salt nonce) =
      .ok (utf8 plaintext) := by
  have hne : encode salt.bytes ≠ [] := by
    intro hnil
    have hlength := three_le_length_encode salt
    rw [hnil] at hlength
    cases hlength
  rw [decryptLegacyPayload, MigrationSecrets.encrypt, splitColon_append (colon_notMem_encode _)]
  dsimp only
  rw [if_neg hne, decryptTokenWithSalt_encrypt]

theorem masterKey_ne_nil : sm.masterKey ≠ [] := by
  intro hnil
  have hlength := sm.longEnough
  rw [hnil] at hlength
  cases hlength

theorem readBack_legacy (plaintext : List Char) (salt : Salt) (nonce : F.Nonce) :
    ReadBack F sm (MigrationSecrets.encrypt F sm plaintext salt nonce) plaintext := by
  have hne : MigrationSecrets.encrypt F sm plaintext salt nonce ≠ [] :=
    List.append_ne_nil_of_right_ne_nil _ (List.cons_ne_nil _ _)
  have hv1 : ¬ ['v', '1', ':'] <+: MigrationSecrets.encrypt F sm plaintext salt nonce :=
    not_prefix_encrypt 'v' '1' plaintext salt nonce
  have hv2 : ¬ ['v', '2', ':'] <+: MigrationSecrets.encrypt F sm plaintext salt nonce :=
    not_prefix_encrypt 'v' '2' plaintext salt nonce
  rw [← List.isPrefixOf_iff_prefix] at hv1 hv2
  constructor
  · rw [decryptAuto, if_neg hne, if_neg hv2, if_neg hv1, decryptLegacy_encrypt]
  · rw [decryptMigrationSecret, if_neg masterKey_ne_nil, if_neg hne, if_neg hv2, if_neg hv1,
      decryptLegacyPayload_encrypt]

theorem readBack_versionOne (plaintext : List Char) (salt : Salt) (nonce : F.Nonce) :
    ReadBack F sm (['v', '1', ':'] ++ MigrationSecrets.encrypt F sm plaintext salt nonce)
      plaintext where
  python := decryptLegacy_encrypt plaintext salt nonce
  go := by
    rw [decryptMigrationSecret, if_neg masterKey_ne_nil]
    exact decryptLegacyPayload_encrypt plaintext salt nonce

theorem decryptAuto_encryptV2 (keyId plaintext : List Char) (salt : Salt) (nonce : F.Nonce) :
    decryptAuto F sm (encryptV2 F sm keyId plaintext salt nonce) =
      decryptV2 F sm (encryptV2 F sm keyId plaintext salt nonce) := rfl

theorem drop_encryptV2 (keyId plaintext : List Char) (salt : Salt) (nonce : F.Nonce) :
    (encryptV2 F sm keyId plaintext salt nonce).drop 3 = keyId ++ ':' :: (encode salt.bytes ++
      ':' :: F.encrypt (fernetKey F sm.masterKey salt.bytes) (utf8 plaintext) nonce) := rfl

theorem readBack_versionTwo {keyId : List Char} (hkeyId : ':' ∉ keyId) (plaintext : List Char)
    (salt : Salt) (nonce : F.Nonce) :
    ReadBack F sm (encryptV2 F sm keyId plaintext salt nonce) plaintext := by
  have hne : encryptV2 F sm keyId plaintext salt nonce ≠ [] := List.cons_ne_nil _ _
  have hprefix : ['v', '2', ':'].isPrefixOf (encryptV2 F sm keyId plaintext salt nonce) = true :=
    rfl
  constructor
  · rw [decryptAuto_encryptV2, decryptV2, drop_encryptV2, splitColon_append hkeyId]
    dsimp only
    rw [splitColon_append (colon_notMem_encode _)]
    exact decryptToken_encrypt _ _ _ _
  · rw [decryptMigrationSecret, if_neg masterKey_ne_nil, if_neg hne, if_pos hprefix,
      drop_encryptV2, splitColon_append hkeyId]
    dsimp only
    rw [splitColon_append (colon_notMem_encode _)]
    exact decryptTokenWithSalt_encrypt _ _ _ _

theorem rotateFrom_ok (newSm : SecretsManager u) {keyId : List Char} (hkeyId : ':' ∉ keyId)
    (random : Nat → Salt × F.Nonce) {ciphertexts plaintexts : List (List Char)}
    (h : List.Forall₂ (fun ct p => decryptAuto F sm ct = .ok p) ciphertexts plaintexts) (i : Nat) :
    ∃ rotated, rotateFrom F sm newSm keyId random i ciphertexts = .ok rotated ∧
      List.Forall₂ (ReadBack F newSm) rotated plaintexts := by
  induction h generalizing i with
  | nil => exact ⟨[], rfl, .nil⟩
  | cons hct hrest ih =>
      obtain ⟨rotated, hrotated, hread⟩ := ih (i + 1)
      refine ⟨_, ?_, .cons (readBack_versionTwo hkeyId _ (random i).1 (random i).2) hread⟩
      rw [rotateFrom, hct, hrotated]

theorem secretsSurvive_of_noColon {keyId : List Char} (hkeyId : ':' ∉ keyId) :
    SecretsSurvive F sm keyId where
  legacy := readBack_legacy
  versionOne := readBack_versionOne
  versionTwo := readBack_versionTwo hkeyId
  unambiguous plaintext salt nonce :=
    ⟨not_prefix_encrypt 'v' '1' plaintext salt nonce,
      not_prefix_encrypt 'v' '2' plaintext salt nonce⟩
  rotated env newMasterKey newSm hnew random ciphertexts plaintexts h := by
    obtain ⟨rotated, hrotated, hread⟩ := rotateFrom_ok newSm hkeyId random h 0
    refine ⟨rotated, ?_, hread⟩
    rw [rotate, hnew]
    dsimp only
    rw [hrotated]

end Sufficient

section Necessary

variable {u : UnicodeTables}

/-- Tokens in plain base64: the weakest Fernet there is. -/
def plainFernet : Fernet where
  Nonce := Unit
  deriveKey _ salt := salt
  encrypt _ plain _ := encode plain
  decrypt _ token := decodeStrict token
  decrypt_encrypt _ plain _ := decodeStrict_encode plain
  base64_encrypt _ plain _ c hc := by
    rcases mem_encode hc with rfl | ⟨n, hn, rfl⟩
    · exact Or.inl rfl
    · rw [value_digit hn]
      exact Or.inr rfl

def zeroSalt : Salt := ⟨List.replicate 16 0, List.length_replicate⟩

theorem decryptToken_colon (sm : SecretsManager u) (formatError : DecryptError)
    (saltB64 : List Char) {token : List Char} (h : ':' ∈ token) (plaintext : List Char) :
    decryptToken plainFernet sm formatError saltB64 token ≠ .ok plaintext := by
  have hnone : plainFernet.decrypt (fernetKey plainFernet sm.masterKey []) token = none :=
    decodeStrict_of_mem (by decide) (by decide) (by decide) h
  rw [decryptToken]
  split
  · exact nofun
  · split
    · exact nofun
    · next hsome => cases hnone.symm.trans hsome

/-- A colon in the key id ends up in what the decoder takes for the token. -/
theorem encryptV2_colon (sm : SecretsManager u) {keyId : List Char} (h : ':' ∈ keyId)
    (plaintext : List Char) (nonce : plainFernet.Nonce) :
    decryptAuto plainFernet sm (encryptV2 plainFernet sm keyId plaintext zeroSalt nonce) ≠
      .ok plaintext := by
  obtain ⟨a, b, rfl, ha⟩ := List.eq_append_cons_of_mem h
  rw [decryptAuto_encryptV2, decryptV2, drop_encryptV2, List.append_assoc, List.cons_append,
    splitColon_append ha]
  dsimp only
  obtain ⟨s, t, hsplit, hsuffix⟩ := splitColon_append_suffix b (encode zeroSalt.bytes ++
    ':' :: plainFernet.encrypt (fernetKey plainFernet sm.masterKey zeroSalt.bytes)
      (utf8 plaintext) nonce)
  rw [hsplit]
  exact decryptToken_colon sm _ s
    (hsuffix.subset (List.mem_append_right _ List.mem_cons_self)) plaintext

end Necessary

section Exactness

theorem secretsSurvive_iff {u : UnicodeTables} (sm : SecretsManager u) (keyId : List Char) :
    (∀ F : Fernet, SecretsSurvive F sm keyId) ↔ ':' ∉ keyId := by
  constructor
  · intro hsurvive hcolon
    exact encryptV2_colon sm hcolon [] () ((hsurvive plainFernet).versionTwo [] zeroSalt ()).python
  · intro hkeyId F
    exact secretsSurvive_of_noColon hkeyId

/-- A master key of 32 letters. -/
def letters : SecretsManager asciiTables where
  masterKey := List.replicate 32 'k'
  notBlank := by decide
  longEnough := by decide

theorem tenant_label_breaks_secret :
    ¬ SecretsSurvive plainFernet letters ['e', 'u', ':', '1'] := by
  intro hsurvive
  exact encryptV2_colon letters (by decide) [] () (hsurvive.versionTwo [] zeroSalt ()).python

end Exactness

end SqlOptima.SecretsSurvival
