import PrivacyWallet.Lib.Base64
import PrivacyWallet.Lib.Json
import PrivacyWallet.Wallet.Provider

/-!
# The encrypted backup

A bundle is written as an envelope of JSON with a salt, an IV and the
ciphertext in base64, and any file at all may be read as one. The cipher is
authenticated: it opens what was encrypted, under the same key and IV, and
nothing else (`Authentic`). The reader has errors of three kinds; only one is
meant for its callers (`import_answers_iff`).

The round trip goes from the inside out: what is written as JSON is read back
from its bytes (`parse_text_encode`, by the library's `Json`), base64 gives
its bytes back, and so the three fields of the envelope are recognized as
they were (`recognized_envelope`).

For a file of unknown origin the reader is followed field by field: each is
decoded, or something is thrown there that is none of the reader's own errors
(`openEnvelope_cases`). Where all three decode, the cipher decides, and what
it opens was made by an export under the same key (`openEnvelope_answered`).
So the reader answers as it should exactly on the files whose fields decode
(`Importable`).
-/

namespace PrivacyWallet

namespace Wallet

abbrev Bytes : Type := List UInt8

/-! ## `backup.ts` -/

def pbkdf2Iterations : Nat := 600000

def saltBytes : Nat := 16

def ivBytes : Nat := 12

def backupVersion : Numeral.Double := .finite 1

/-- `crypto.subtle`: PBKDF2 of a password, a salt and a number of iterations,
and AES-GCM. `none` is a throw of `decrypt`. -/
structure SubtleCrypto (Key : Type) where
  deriveKey : Bytes → Bytes → Nat → Key
  encrypt : Key → Bytes → Bytes → Bytes
  decrypt : Key → Bytes → Bytes → Option Bytes

variable {Key : Type} (crypto : SubtleCrypto Key)

/-- What an import ends in if not in a bundle: the reader's own error, or
what JavaScript and `atob` throw. -/
inductive ImportError where
  | backupDecryption (message : String)
  | typeError
  | invalidCharacter
deriving DecidableEq

def couldNotDecrypt : ImportError :=
  .backupDecryption "Could not decrypt backup: wrong passphrase or corrupted file."

def bytesToBase64 (bytes : Bytes) : String := String.ofList (Base64.encode bytes)

/-- `atob` takes any value for its text. -/
def base64ToBytes (base64 : Json) : Except ImportError Bytes :=
  match base64.toText with
  | none => .error .typeError
  | some text =>
      match Base64.decode? text.toList with
      | none => .error .invalidCharacter
      | some bytes => .ok bytes

def deriveAesKey (passphrase : String) (salt : Bytes) : Key :=
  crypto.deriveKey (Utf8.encode passphrase) salt pbkdf2Iterations

/-- The bundle as it is written; what is undefined is left out. -/
def PrivacyBundle.toJson (bundle : PrivacyBundle) : Json :=
  .obj ([("ctKeys", .obj [("sk", .str bundle.ctKeys.sk), ("addrF", .str bundle.ctKeys.addrF)]),
    ("sppRootSecret", .str bundle.sppRootSecret), ("createdAt", .str bundle.createdAt)] ++
    (bundle.walletContractId.map fun id => ("walletContractId", Json.str id)).toList)

/-- A call of `exportBackup`, with the salt and the IV that it drew. -/
structure Export where
  bundle : PrivacyBundle
  passphrase : String
  salt : Bytes
  iv : Bytes
  salt_length : salt.length = saltBytes
  iv_length : iv.length = ivBytes

def Export.plaintext (e : Export) : Bytes := Utf8.encode (Json.stringify e.bundle.toJson)

def Export.key (e : Export) : Key := deriveAesKey crypto e.passphrase e.salt

def Export.envelope (e : Export) : Json :=
  .obj [("v", .num backupVersion), ("salt", .str (bytesToBase64 e.salt)),
    ("iv", .str (bytesToBase64 e.iv)),
    ("ct", .str (bytesToBase64 (crypto.encrypt (e.key crypto) e.iv e.plaintext)))]

def exportBackup (e : Export) : Bytes := Utf8.encode (Json.stringify (e.envelope crypto))

/-- `envelope.v === BACKUP_VERSION` -/
def isBackupVersion : Json → Bool
  | .num d => decide (d = backupVersion)
  | _ => false

/-- The salt, the IV and the ciphertext of an envelope in the format. -/
def recognized? (envelope : Json) : Option (Json × Json × Json) :=
  match envelope.get "v", envelope.get "salt", envelope.get "iv", envelope.get "ct" with
  | some v, some salt, some iv, some ct =>
      if isBackupVersion v && salt.truthy && iv.truthy && ct.truthy then some (salt, iv, ct)
      else none
  | _, _, _, _ => none

/-- The part of `importBackup` behind the checks of the format. -/
def openEnvelope (passphrase : String) (salt iv ct : Json) : Except ImportError Json := do
  let salt ← base64ToBytes salt
  let iv ← base64ToBytes iv
  let ciphertext ← base64ToBytes ct
  let key := deriveAesKey crypto passphrase salt
  match (crypto.decrypt key iv ciphertext).bind fun plaintext =>
      Json.parse (Utf8.text plaintext) with
  | none => .error couldNotDecrypt
  | some bundle => .ok bundle

def importBackup (file : Bytes) (passphrase : String) : Except ImportError Json :=
  match Json.parse (Utf8.text file) with
  | none => .error (.backupDecryption "Backup file is not valid JSON.")
  | some .null => .error .typeError
  | some envelope =>
      match recognized? envelope with
      | none => .error (.backupDecryption "Unrecognized backup format.")
      | some (salt, iv, ct) => openEnvelope crypto passphrase salt iv ct

/-! ## What an import owes -/

/-- AES-GCM as authenticated encryption, where `exports` are all its uses: a
ciphertext has a tag, and is opened if it was made under the key and the
IV. -/
structure Authentic (exports : List Export) : Prop where
  tagged : ∀ key iv plaintext, (crypto.encrypt key iv plaintext).length = plaintext.length + 16
  opens : ∀ key iv ciphertext plaintext,
    crypto.decrypt key iv ciphertext = some plaintext ↔
      ∃ e ∈ exports, e.key crypto = key ∧ e.iv = iv ∧ e.plaintext = plaintext ∧
        ciphertext = crypto.encrypt key iv plaintext

/-- The bundle of an export, under the key of that export, or the reader's own
error. -/
def Answered (exports : List Export) (passphrase : String) (result : Except ImportError Json) :
    Prop :=
  (∃ e ∈ exports, ∃ salt, deriveAesKey crypto passphrase salt = e.key crypto ∧
    result = .ok e.bundle.toJson) ∨
  ∃ message, result = .error (.backupDecryption message)

/-- The file is not `null`, and what it holds in the fields of an envelope is
base64. -/
structure Importable (file : Bytes) : Prop where
  not_null : Json.parse (Utf8.text file) ≠ some .null
  base64 : ∀ envelope salt iv ct, Json.parse (Utf8.text file) = some envelope →
    recognized? envelope = some (salt, iv, ct) →
    ∀ field ∈ [salt, iv, ct], ∃ bytes, base64ToBytes field = .ok bytes

/-! ## An export is imported -/

theorem readable_one : (Json.Token.num backupVersion).readable = true := by decide +kernel

/-- What is written without a byte order mark and with numbers that are read
back is read back from its bytes. -/
theorem parse_text_encode {members : List (String × Json)}
    (h : Json.Readable (.obj members)) :
    Json.parse (Utf8.text (Utf8.encode (Json.stringify (.obj members)))) = some (.obj members) := by
  obtain ⟨rest, hrest⟩ : ∃ rest, (Json.stringify (.obj members)).toList = '{' :: rest := by
    rw [Json.stringify, String.toList_ofList]
    cases members with
    | nil => exact ⟨_, rfl⟩
    | cons m members => exact ⟨_, rfl⟩
  rw [Utf8.text_encode (by decide) hrest, Json.parse_stringify h]

theorem toJson_readable (bundle : PrivacyBundle) : Json.Readable bundle.toJson := by
  unfold PrivacyBundle.toJson
  cases bundle.walletContractId with
  | none => rfl
  | some id => rfl

theorem envelope_readable (e : Export) : Json.Readable (e.envelope crypto) := by
  simp only [Json.Readable, Export.envelope, Json.tokens, Json.memberTokens, List.cons_append,
    List.nil_append, List.all_cons, readable_one]
  simp [Json.Token.readable]

theorem parse_plaintext (e : Export) :
    Json.parse (Utf8.text e.plaintext) = some e.bundle.toJson :=
  parse_text_encode (toJson_readable e.bundle)

theorem parse_exportBackup (e : Export) :
    Json.parse (Utf8.text (exportBackup crypto e)) = some (e.envelope crypto) :=
  parse_text_encode (envelope_readable crypto e)

theorem bytesToBase64_ne {bytes : Bytes} (h : 0 < bytes.length) : bytesToBase64 bytes ≠ "" := by
  obtain ⟨b, rest, rfl⟩ := List.exists_cons_of_length_pos h
  intro hempty
  have hlen := Base64.length_sextets (b :: rest)
  have hnil : Base64.encode (b :: rest) = [] := by
    simpa [bytesToBase64, String.ofList_eq_empty_iff] using hempty
  rw [Base64.encode, List.append_eq_nil_iff, List.map_eq_nil_iff] at hnil
  rw [hnil.1, List.length_nil, List.length_cons] at hlen
  omega

theorem base64ToBytes_bytesToBase64 (bytes : Bytes) :
    base64ToBytes (.str (bytesToBase64 bytes)) = .ok bytes := by
  unfold base64ToBytes Json.toText bytesToBase64
  simp

theorem recognized_envelope (htag : ∀ key iv plaintext,
      (crypto.encrypt key iv plaintext).length = plaintext.length + 16) (e : Export) :
    recognized? (e.envelope crypto) = some (.str (bytesToBase64 e.salt),
      .str (bytesToBase64 e.iv),
      .str (bytesToBase64 (crypto.encrypt (e.key crypto) e.iv e.plaintext))) := by
  have hsalt : bytesToBase64 e.salt ≠ "" := bytesToBase64_ne (by rw [e.salt_length]; decide)
  have hiv : bytesToBase64 e.iv ≠ "" := bytesToBase64_ne (by rw [e.iv_length]; decide)
  have hct : bytesToBase64 (crypto.encrypt (e.key crypto) e.iv e.plaintext) ≠ "" :=
    bytesToBase64_ne (by rw [htag]; omega)
  simp [recognized?, Export.envelope, Json.get, isBackupVersion, Json.truthy, hsalt, hiv, hct]

variable {crypto} {exports : List Export}

theorem openEnvelope_ok {passphrase : String} {salt iv ct : Json}
    {saltBytes ivBytes ctBytes : Bytes}
    (hsalt : base64ToBytes salt = .ok saltBytes) (hiv : base64ToBytes iv = .ok ivBytes)
    (hct : base64ToBytes ct = .ok ctBytes) :
    openEnvelope crypto passphrase salt iv ct
      = match (crypto.decrypt (deriveAesKey crypto passphrase saltBytes) ivBytes ctBytes).bind
          fun plaintext => Json.parse (Utf8.text plaintext) with
        | none => .error couldNotDecrypt
        | some bundle => .ok bundle := by
  unfold openEnvelope
  rw [hsalt, hiv, hct]
  rfl

theorem importBackup_exportBackup (h : Authentic crypto exports) {e : Export} (he : e ∈ exports) :
    importBackup crypto (exportBackup crypto e) e.passphrase = .ok e.bundle.toJson := by
  have hopen : crypto.decrypt (deriveAesKey crypto e.passphrase e.salt) e.iv
      (crypto.encrypt (e.key crypto) e.iv e.plaintext) = some e.plaintext :=
    (h.opens _ _ _ _).mpr ⟨e, he, rfl, rfl, rfl, rfl⟩
  have hrec := recognized_envelope crypto h.tagged e
  unfold importBackup
  rw [parse_exportBackup]
  change (match recognized? (e.envelope crypto) with
    | none => _
    | some (salt, iv, ct) => openEnvelope crypto e.passphrase salt iv ct) = _
  rw [hrec]
  dsimp only
  rw [openEnvelope_ok (base64ToBytes_bytesToBase64 _) (base64ToBytes_bytesToBase64 _)
    (base64ToBytes_bytesToBase64 _), hopen, Option.bind_some, parse_plaintext]

/-! ## Any file -/

theorem base64ToBytes_error {field : Json} {error : ImportError}
    (h : base64ToBytes field = .error error) (message : String) :
    error ≠ .backupDecryption message := by
  unfold base64ToBytes at h
  split at h
  · cases h
    exact fun heq => by cases heq
  · split at h
    · cases h
      exact fun heq => by cases heq
    · cases h

theorem base64ToBytes_cases (field : Json) :
    (∃ bytes, base64ToBytes field = .ok bytes) ∨
      ∃ error, base64ToBytes field = .error error ∧
        ∀ message, error ≠ .backupDecryption message := by
  cases h : base64ToBytes field with
  | ok bytes => exact Or.inl ⟨bytes, rfl⟩
  | error error => exact Or.inr ⟨error, rfl, base64ToBytes_error h⟩

/-- Each field is decoded, or what is thrown is none of the reader's errors. -/
theorem openEnvelope_cases (crypto : SubtleCrypto Key) (passphrase : String)
    (salt iv ct : Json) :
    (∀ field ∈ [salt, iv, ct], ∃ bytes, base64ToBytes field = .ok bytes) ∨
      ∃ error, openEnvelope crypto passphrase salt iv ct = .error error ∧
        ∀ message, error ≠ .backupDecryption message := by
  unfold openEnvelope
  rcases base64ToBytes_cases salt with ⟨saltBytes, hsalt⟩ | ⟨error, herror, hne⟩
  · rcases base64ToBytes_cases iv with ⟨ivBytes, hiv⟩ | ⟨error, herror, hne⟩
    · rcases base64ToBytes_cases ct with ⟨ctBytes, hct⟩ | ⟨error, herror, hne⟩
      · refine Or.inl fun field hfield => ?_
        simp only [List.mem_cons, List.not_mem_nil, or_false] at hfield
        rcases hfield with rfl | rfl | rfl
        · exact ⟨saltBytes, hsalt⟩
        · exact ⟨ivBytes, hiv⟩
        · exact ⟨ctBytes, hct⟩
      · rw [hsalt, hiv, herror]
        exact Or.inr ⟨error, rfl, hne⟩
    · rw [hsalt, herror]
      exact Or.inr ⟨error, rfl, hne⟩
  · rw [herror]
    exact Or.inr ⟨error, rfl, hne⟩

/-- What is opened is an export's. -/
theorem openEnvelope_answered (h : Authentic crypto exports) {passphrase : String}
    {salt iv ct : Json}
    (hfields : ∀ field ∈ [salt, iv, ct], ∃ bytes, base64ToBytes field = .ok bytes) :
    Answered crypto exports passphrase (openEnvelope crypto passphrase salt iv ct) := by
  obtain ⟨saltBytes, hsalt⟩ := hfields salt (by simp)
  obtain ⟨ivBytes, hiv⟩ := hfields iv (by simp)
  obtain ⟨ctBytes, hct⟩ := hfields ct (by simp)
  rw [openEnvelope_ok hsalt hiv hct]
  cases hdecrypt : crypto.decrypt (deriveAesKey crypto passphrase saltBytes) ivBytes ctBytes with
  | none => exact Or.inr ⟨_, rfl⟩
  | some plaintext =>
      obtain ⟨e, he, hkey, -, rfl, -⟩ := (h.opens _ _ _ _).mp hdecrypt
      rw [Option.bind_some, parse_plaintext]
      exact Or.inl ⟨e, he, saltBytes, hkey.symm, rfl⟩

theorem importBackup_of_envelope {file : Bytes} {envelope : Json}
    (hparse : Json.parse (Utf8.text file) = some envelope) (hnull : envelope ≠ .null)
    (passphrase : String) :
    importBackup crypto file passphrase
      = match recognized? envelope with
        | none => .error (.backupDecryption "Unrecognized backup format.")
        | some (salt, iv, ct) => openEnvelope crypto passphrase salt iv ct := by
  unfold importBackup
  rw [hparse]
  cases envelope with
  | null => exact absurd rfl hnull
  | bool | num | str | arr | obj => rfl

theorem not_answered {passphrase : String} {result : Except ImportError Json}
    {error : ImportError} (hresult : result = .error error)
    (hne : ∀ message, error ≠ .backupDecryption message) :
    ¬ Answered crypto exports passphrase result := by
  subst hresult
  rintro (⟨e, -, salt, -, hok⟩ | ⟨message, hm⟩)
  · cases hok
  · injection hm with hm
    exact hne message hm

/-- The reader answers with a bundle of an export or its own error exactly on
the importable files. By the reader's own cases: no JSON, `null`, no envelope,
and an envelope with three fields, each of which may fail to decode. -/
theorem import_answers_iff (h : Authentic crypto exports) (file : Bytes) (passphrase : String) :
    Answered crypto exports passphrase (importBackup crypto file passphrase)
      ↔ Importable file := by
  cases hparse : Json.parse (Utf8.text file) with
  | none =>
      refine ⟨fun _ => ⟨?_, ?_⟩, fun _ => Or.inr ⟨"Backup file is not valid JSON.", ?_⟩⟩
      · rw [hparse]
        exact fun heq => by cases heq
      · intro envelope salt iv ct henvelope
        rw [hparse] at henvelope
        cases henvelope
      · unfold importBackup
        rw [hparse]
  | some envelope =>
      by_cases hnull : envelope = .null
      · subst hnull
        have hthrow : importBackup crypto file passphrase = .error .typeError := by
          unfold importBackup
          rw [hparse]
        refine ⟨fun hanswer => absurd hanswer (not_answered hthrow fun _ heq => by cases heq), ?_⟩
        exact fun himportable => absurd hparse himportable.not_null
      · rw [importBackup_of_envelope hparse hnull]
        have hnot : Json.parse (Utf8.text file) ≠ some .null := fun heq =>
          hnull (Option.some.inj (hparse.symm.trans heq))
        cases hrec : recognized? envelope with
        | none =>
            refine ⟨fun _ => ⟨hnot, fun envelope' salt iv ct henvelope hfields => ?_⟩,
              fun _ => Or.inr ⟨_, rfl⟩⟩
            cases hparse.symm.trans henvelope
            rw [hrec] at hfields
            cases hfields
        | some fields =>
            obtain ⟨salt, iv, ct⟩ := fields
            constructor
            · intro hanswer
              rcases openEnvelope_cases crypto passphrase salt iv ct with
                hfields | ⟨error, herror, hne⟩
              · refine ⟨hnot, fun envelope' salt' iv' ct' henvelope hrec' => ?_⟩
                cases hparse.symm.trans henvelope
                cases hrec.symm.trans hrec'
                exact hfields
              · exact absurd hanswer (not_answered herror hne)
            · exact fun himportable =>
                openEnvelope_answered h (himportable.base64 envelope salt iv ct hparse hrec)

/-- An export is imported under its passphrase as it was. A file, under any
passphrase, gives the bundle of an export or the reader's own error exactly
if it is not `null` and the fields of its envelope, if it is one, are base64.

The first part is the round trip (`importBackup_exportBackup`), the second one
the cases of the reader (`import_answers_iff`). -/
theorem backup_import_exact_or_clean {exports : List Export} (h : Authentic crypto exports) :
    (∀ e ∈ exports, importBackup crypto (exportBackup crypto e) e.passphrase
      = .ok e.bundle.toJson) ∧
    ∀ (file : Bytes) (passphrase : String),
      Answered crypto exports passphrase (importBackup crypto file passphrase)
        ↔ Importable file :=
  ⟨fun _ he => importBackup_exportBackup h he, import_answers_iff h⟩

/-! ## A cipher that knows its uses -/

def tagOf : Bytes := List.replicate 16 0

/-- Keys are what they are derived from, and only what was exported is
opened. -/
def idealCrypto (exports : List Export) : SubtleCrypto (Bytes × Bytes) where
  deriveKey password salt _ := (password, salt)
  encrypt _ _ plaintext := plaintext ++ tagOf
  decrypt key iv ciphertext := (exports.find? fun e =>
    decide ((Utf8.encode e.passphrase, e.salt) = key) && decide (e.iv = iv) &&
      decide (ciphertext = e.plaintext ++ tagOf)).map Export.plaintext

theorem idealCrypto_authentic (exports : List Export) :
    Authentic (idealCrypto exports) exports where
  tagged key iv plaintext := by
    change (plaintext ++ tagOf).length = _
    rw [List.length_append, tagOf, List.length_replicate]
  opens key iv ciphertext plaintext := by
    constructor
    · intro hopen
      obtain ⟨e, hfind, rfl⟩ := Option.map_eq_some_iff.mp hopen
      have hcond := List.find?_some hfind
      simp only [Bool.and_eq_true, decide_eq_true_eq] at hcond
      exact ⟨e, List.mem_of_find?_eq_some hfind, hcond.1.1, hcond.1.2, rfl, hcond.2⟩
    · rintro ⟨e, he, hkey, hiv, rfl, hct⟩
      cases hfind : exports.find? fun e => decide ((Utf8.encode e.passphrase, e.salt) = key)
          && decide (e.iv = iv) && decide (ciphertext = e.plaintext ++ tagOf) with
      | none =>
          refine absurd ?_ (List.find?_eq_none.mp hfind e he)
          simp only [Bool.and_eq_true, decide_eq_true_eq]
          exact ⟨⟨hkey, hiv⟩, hct⟩
      | some e' =>
          have hcond := List.find?_some hfind
          simp only [Bool.and_eq_true, decide_eq_true_eq] at hcond
          have hsame : e'.plaintext = e.plaintext :=
            List.append_cancel_right (hcond.2.symm.trans hct)
          change (exports.find? _).map Export.plaintext = _
          rw [hfind, Option.map_some, hsame]

def sampleExport : Export where
  bundle := bundleOf "CWALLET"
  passphrase := "correct horse battery staple"
  salt := List.replicate 16 7
  iv := List.replicate 12 9
  salt_length := rfl
  iv_length := rfl

theorem backup_import_exact_or_clean_sample :
    importBackup (idealCrypto [sampleExport])
        (exportBackup (idealCrypto [sampleExport]) sampleExport) "correct horse battery staple"
      = .ok sampleExport.bundle.toJson ∧
      (Answered (idealCrypto [sampleExport]) [sampleExport] "wrong passphrase"
          (importBackup (idealCrypto [sampleExport])
            (exportBackup (idealCrypto [sampleExport]) sampleExport) "wrong passphrase")
        ↔ Importable (exportBackup (idealCrypto [sampleExport]) sampleExport)) := by
  have h := backup_import_exact_or_clean (idealCrypto_authentic [sampleExport])
  exact ⟨h.1 sampleExport List.mem_cons_self, h.2 _ _⟩

/-- What was thrown. -/
def thrown? (result : Except ImportError Json) : Option ImportError :=
  match result with
  | .error error => some error
  | .ok _ => none

theorem eq_error_of_thrown {result : Except ImportError Json} {error : ImportError}
    (h : thrown? result = some error) : result = .error error := by
  cases result with
  | error e =>
      cases h
      rfl
  | ok v => cases h

/-- The file `null`, and an envelope with a salt that is not base64. -/
theorem import_throws_otherwise :
    Authentic (idealCrypto []) [] ∧
    importBackup (idealCrypto []) (Utf8.encode "null") "passphrase" = .error .typeError ∧
    ¬ Answered (idealCrypto []) [] "passphrase"
      (importBackup (idealCrypto []) (Utf8.encode "null") "passphrase") ∧
    ¬ Answered (idealCrypto []) [] "passphrase" (importBackup (idealCrypto [])
      (Utf8.encode "\x7b\"v\":1,\"salt\":\"*\",\"iv\":\"AAAA\",\"ct\":\"AAAA\"\x7d")
        "passphrase") := by
  have hnull : importBackup (idealCrypto []) (Utf8.encode "null") "passphrase"
      = .error .typeError := eq_error_of_thrown (by decide +kernel)
  have hsalt : importBackup (idealCrypto []) (Utf8.encode
      "\x7b\"v\":1,\"salt\":\"*\",\"iv\":\"AAAA\",\"ct\":\"AAAA\"\x7d") "passphrase"
      = .error .invalidCharacter := eq_error_of_thrown (by decide +kernel)
  refine ⟨idealCrypto_authentic [], hnull, not_answered hnull ?_, not_answered hsalt ?_⟩
  · exact fun _ heq => by cases heq
  · exact fun _ heq => by cases heq

end Wallet

end PrivacyWallet
