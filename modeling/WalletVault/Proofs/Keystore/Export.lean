import WalletVault.Proofs.Base64
import WalletVault.Proofs.Keystore.Upgrade
import WalletVault.Proofs.Phrase.Recovery

/-!
# Exported phrases open again

The record of a phrase is made of texts in base-64, and each is read back as the
bytes it was written from. The box opens under the key that the same password
gives, so the phrase is found again, and with it the signing key.
-/

namespace WalletVault

namespace SeedRecord

theorem ofFields_toFields (record : SeedRecord) : ofFields record.toFields = .ok record := by
  rcases record with ⟨version, salt, nonce, ciphertext⟩
  cases version with
  | number n =>
      rfl
  | flag b =>
      rfl

theorem bytesOf_encode (data : Bytes) : bytesOf (Base64.encode data) = .ok data := by
  rw [bytesOf, Base64.decode_encode]

variable [Suite]

def sealing (secret salt nonce : Bytes) (phrase : String) : SeedRecord where
  version := .number 1
  salt := Base64.encode salt
  nonce := Base64.encode nonce
  ciphertext := Base64.encode (Suite.boxEncrypt secret nonce (utf8 phrase))

section Sealing

variable {password opener : Password} {limits : Argon2Limits} {salt nonce secret : Bytes}

theorem exportKey_congr (h : opener.toBytes = password.toBytes) :
    exportKey opener salt limits = exportKey password salt limits := by
  unfold exportKey
  congr 1
  funext params
  exact PasswordHash.derive_congr (.argon2id params) h

theorem toPhrase_sealing (hsalt : salt.length = 16) (hnonce : nonce.length = 24)
    (hsecret : exportKey opener salt limits = .ok secret) (phrase : String) :
    (sealing secret salt nonce phrase).toPhrase opener limits = .ok phrase := by
  have hbox : (Suite.boxDecrypt? secret nonce (Suite.boxEncrypt secret nonce (utf8 phrase))).bind
      ofUtf8? = some phrase := by
    rw [Suite.boxDecrypt_boxEncrypt]
    exact ofUtf8?_utf8 phrase
  have hversion : ¬ (sealing secret salt nonce phrase).version.value ≠ 1 :=
    not_not.mpr rfl
  -- The texts and the sizes are checked first, and then the key is derived.
  rw [toPhrase, if_neg hversion]
  refine Computation.except_bind_eq_ok.mpr ⟨salt, bytesOf_encode salt, ?_⟩
  refine Computation.except_bind_eq_ok.mpr ⟨nonce, bytesOf_encode nonce, ?_⟩
  refine Computation.except_bind_eq_ok.mpr ⟨_, bytesOf_encode _, ?_⟩
  rw [if_neg (not_not.mpr hsalt), if_neg (not_not.mpr hnonce)]
  refine Computation.except_bind_eq_ok.mpr ⟨secret, hsecret, ?_⟩
  rw [hbox]
  rfl

theorem ofKey_of_gives {key : SigningKey} {phrase : String} {source : RandomSource}
    (hsalt : salt.length = 16) (hnonce : nonce.length = 24) (hsource : source.Gives [salt, nonce])
    (hphrase : key.phrase = .ok phrase) (hsecret : exportKey password salt limits = .ok secret) :
    ofKey key password limits source =
      (.ok (sealing secret salt nonce phrase), (source.spend 16).spend 24) := by
  rcases draw_of_gives hsalt hsource with ⟨hfirst, hrest⟩
  rcases draw_of_gives hnonce hrest with ⟨hsecond, _⟩
  rw [ofKey, Computation.bind_of_ok hfirst, Computation.bind_of_ok hsecond, hphrase,
    Computation.bind_of_ok (Computation.mk_apply _ _), hsecret,
    Computation.bind_of_ok (Computation.mk_apply _ _)]
  rfl

end Sealing

end SeedRecord

namespace Keystore

variable [Suite]

theorem exportSeed_of_ofKey {keystore : Keystore} {paths : Option (List (Option String))}
    {password exportPassword : Password} {machine : Machine} {key : SigningKey}
    {limits : Argon2Limits} {record : SeedRecord} {random : RandomSource}
    (hexport : exportPassword.validate "Export password" = .ok ())
    (hload : loadSigningKey machine.files paths password = .ok key)
    (hlimits : keystore.presets.find keystore.settings.exportPreset = .ok limits)
    (hrecord : SeedRecord.ofKey key exportPassword limits machine.random = (.ok record, random)) :
    keystore.exportSeed paths password exportPassword machine =
      (.ok (key.address, record), ⟨machine.files, random⟩) := by
  have hdrawn : Machine.drawing (SeedRecord.ofKey key exportPassword limits) machine =
      (.ok record, ⟨machine.files, random⟩) :=
    Machine.drawing_eq_ok.mpr ⟨hrecord, rfl⟩
  rw [exportSeed, hexport, Computation.bind_of_ok (Computation.mk_apply _ _),
    Computation.bind_of_ok (Computation.get_apply machine), hload,
    Computation.bind_of_ok (Computation.mk_apply _ _), hlimits,
    Computation.bind_of_ok (Computation.mk_apply _ _), Computation.bind_of_ok hdrawn]
  rfl

end Keystore

/-- The record of a key survives its own fields and opens to the phrase of the key under the same
password, as text or as its bytes, and the phrase gives the key back. Exporting any wallet files
that decrypt to the key returns this very record under the limits of the chosen preset. -/
theorem SeedRecord.export_recovers_key [Suite] {key : SigningKey} {password opener : Password}
    {limits : Argon2Limits} {salt nonce secret : Bytes} {source : RandomSource}
    (hsalt : salt.length = 16) (hnonce : nonce.length = 24) (hsource : source.Gives [salt, nonce])
    (hsecret : exportKey password salt limits = .ok secret)
    (hopener : opener.toBytes = password.toBytes) :
    exists record phrase source',
      ofKey key password limits source = (.ok record, source') ∧
      ofFields record.toFields = .ok record ∧
      key.phrase = .ok phrase ∧ record.toPhrase opener limits = .ok phrase ∧
      SigningKey.ofWords (Phrase.Given.text phrase).words = .ok key ∧
      forall (keystore : Keystore) files paths walletPassword,
        Keystore.loadSigningKey files paths walletPassword = .ok key ->
        password.validate "Export password" = .ok () ->
        keystore.presets.find keystore.settings.exportPreset = .ok limits ->
        keystore.exportSeed paths walletPassword password ⟨files, source⟩ =
          (.ok (key.address, record), ⟨files, source'⟩) := by
  rcases key.exists_phrase with ⟨_, phrase, _, hphrase, _, hback⟩
  have hrecord := ofKey_of_gives hsalt hnonce hsource hphrase hsecret
  have hopened := toPhrase_sealing hsalt hnonce ((exportKey_congr hopener).trans hsecret) phrase
  refine ⟨_, phrase, _, hrecord, ofFields_toFields _, hphrase, hopened, hback, ?_⟩
  intro keystore files paths walletPassword hload hvalid hlimits
  exact Keystore.exportSeed_of_ofKey hvalid hload hlimits hrecord

/-- The seed of zeros has equal halves; its record is opened with the bytes of the password. -/
theorem SeedRecord.export_recovers_key_of_zeros :
    letI : Suite := Suite.standard
    let keystore : Keystore := ⟨.standard, .standard⟩
    let key : SigningKey := ⟨Bytes.zeros 32, rfl⟩
    exists files record phrase machine',
      keystore.exportSeed (some [some "w"]) (.text "secret") (.text "export")
          ⟨files, .ofPattern [1]⟩ = (.ok (key.address, record), machine') ∧
        ofFields record.toFields = .ok record ∧
        record.toPhrase (.bytes (utf8 "export")) Presets.moderate = .ok phrase ∧
        SigningKey.ofWords (Phrase.Given.text phrase).words = .ok key := by
  let _ : Suite := Suite.standard
  intro keystore key
  rcases Keystore.exists_upgrade_of_file "w" rfl true with ⟨old, _, _, _, hload, _⟩
  have hsource : (RandomSource.ofPattern [1]).Gives [List.replicate 16 1, List.replicate 24 1] :=
    ⟨rfl, rfl, trivial⟩
  have hsecret : exportKey (.text "export") (List.replicate 16 1) Presets.moderate =
      .ok (Suite.argon2id (utf8 "export") (List.replicate 16 1) 3 262144) := rfl
  have hopener : Password.toBytes (.bytes (utf8 "export")) = Password.toBytes (.text "export") :=
    rfl
  rcases @export_recovers_key _ key _ _ _ _ _ _ _ rfl rfl hsource hsecret hopener with
    ⟨record, phrase, source', _, hfields, _, hopened, hback, hexport⟩
  exact ⟨_, record, phrase, _, hexport keystore _ _ _ hload rfl rfl, hfields, hopened, hback⟩

end WalletVault
