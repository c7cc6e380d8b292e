import WalletVault.Proofs.Base64.Acceptance
import WalletVault.Proofs.Keystore.Export

/-!
# Opening arbitrary records

The version, the three texts and the two sizes are checked before the key is
derived. So a record that fails one of these checks is refused alike for every
password, and every other record opens exactly when its box does and holds text.
A password whose text cannot be encoded is found out when the key is derived,
and it fails in a way of its own there.
-/

namespace WalletVault

theorem ofUtf8?_eq_some_iff {data : Bytes} {text : String} :
    ofUtf8? data = some text <-> data = utf8 text := by
  constructor
  · intro h
    unfold ofUtf8? String.fromUTF8? at h
    split at h
    · cases h
      rfl
    · cases h
  · intro h
    rw [h]
    exact ofUtf8?_utf8 text

namespace PasswordHash

def IsDerivation (fault : Fault) : Prop :=
  exists limit, fault = .derivation limit

theorem failsWith_flaw (flaw? : Option HashLimit) (secret : Bytes) :
    Computation.FailsWith IsDerivation
      (match flaw? with
      | some limit => .error (.derivation limit)
      | none => .ok secret : Except Fault Bytes) := by
  cases flaw? with
  | some limit =>
      exact Computation.failsWith_error ⟨limit, rfl⟩
  | none =>
      exact Computation.failsWith_ok secret

theorem derive_failsWith [Suite] (hash : PasswordHash) {password : Password} {secret : Bytes}
    (hsecret : password.toBytes = .ok secret) :
    Computation.FailsWith IsDerivation (derive password hash) := by
  rw [derive, hsecret]
  cases hash with
  | pbkdf2 params =>
      exact failsWith_flaw params.flaw? _
  | argon2id params =>
      exact failsWith_flaw params.flaw? _

end PasswordHash

namespace SeedRecord

/-!
# The fields
-/

structure Spells (record : SeedRecord) (salt nonce box : Bytes) : Prop where
  salt_spelled : Base64.Spells record.salt salt
  nonce_spelled : Base64.Spells record.nonce nonce
  box_spelled : Base64.Spells record.ciphertext box

/-- A record that passes all checks that need no key. -/
structure Complete (record : SeedRecord) (salt nonce box : Bytes) : Prop
    extends Spells record salt nonce box where
  version_eq : record.version.value = 1
  length_salt : salt.length = 16
  length_nonce : nonce.length = 24

theorem bytesOf_eq_ok_iff {text : String} {data : Bytes} :
    bytesOf text = .ok data <-> Base64.Spells text data := by
  rw [← Base64.decode_eq_ok_iff, bytesOf]
  cases Base64.decode text <;> simp

theorem bytesOf_cases (text : String) :
    (exists data, bytesOf text = .ok data ∧ Base64.Spells text data) ∨
      bytesOf text = .error (.sealed .seedText) := by
  cases hdecode : Base64.decode text with
  | ok data =>
      have hspells := Base64.decode_eq_ok_iff.mp hdecode
      exact Or.inl ⟨data, bytesOf_eq_ok_iff.mpr hspells, hspells⟩
  | error flaw =>
      right
      rw [bytesOf, hdecode]

/-!
# Outcomes
-/

section Outcomes

variable [Suite] {record : SeedRecord} {password : Password} {limits : Argon2Limits}
  {salt nonce box : Bytes}

theorem exportKey_failsWith {secret : Bytes} (hsalt : salt.length = 16)
    (hsecret : password.toBytes = .ok secret) :
    Computation.FailsWith PasswordHash.IsDerivation (exportKey password salt limits) := by
  rw [exportKey, Argon2idParams.make, dif_pos hsalt]
  exact Computation.failsWith_bind (Computation.failsWith_ok _)
    (fun params _ => PasswordHash.derive_failsWith (.argon2id params) hsecret)

/-- What comes after the checks: the key is derived, and then the box is opened. -/
def openBox (password : Password) (limits : Argon2Limits) (salt nonce box : Bytes) :
    Except Fault String := do
  let secret ← exportKey password salt limits
  match (Suite.boxDecrypt? secret nonce box).bind ofUtf8? with
  | some phrase => pure phrase
  | none => throw (.sealed .seedBox)

theorem toPhrase_of_version (hversion : record.version.value ≠ 1) :
    record.toPhrase password limits = .error (.sealed .seedVersion) := by
  rw [toPhrase, if_pos hversion]
  rfl

theorem toPhrase_of_texts (hversion : record.version.value = 1)
    (htexts : ¬ exists salt nonce box, record.Spells salt nonce box) :
    record.toPhrase password limits = .error (.sealed .seedText) := by
  rw [toPhrase, if_neg (not_not.mpr hversion)]
  rcases bytesOf_cases record.salt with ⟨salt, hsalt, hspells⟩ | hsalt
  · rcases bytesOf_cases record.nonce with ⟨nonce, hnonce, hspells'⟩ | hnonce
    · rcases bytesOf_cases record.ciphertext with ⟨box, _, hspells''⟩ | hbox
      · exact absurd ⟨salt, nonce, box, hspells, hspells', hspells''⟩ htexts
      · rw [hsalt, hnonce, hbox]
        rfl
    · rw [hsalt, hnonce]
      rfl
  · rw [hsalt]
    rfl

theorem toPhrase_of_spells (hversion : record.version.value = 1)
    (h : record.Spells salt nonce box) :
    record.toPhrase password limits =
      if salt.length ≠ 16 then .error (.sealed .seedSalt)
      else if nonce.length ≠ 24 then .error (.sealed .seedNonce)
      else openBox password limits salt nonce box := by
  rw [toPhrase, if_neg (not_not.mpr hversion), bytesOf_eq_ok_iff.mpr h.salt_spelled,
    bytesOf_eq_ok_iff.mpr h.nonce_spelled, bytesOf_eq_ok_iff.mpr h.box_spelled]
  change (if salt.length ≠ 16 then _ else _) = _
  split
  next =>
    rfl
  next =>
    split
    next =>
      rfl
    next =>
      rfl

theorem toPhrase_of_complete (h : record.Complete salt nonce box) :
    record.toPhrase password limits = openBox password limits salt nonce box := by
  rw [toPhrase_of_spells h.version_eq h.toSpells, if_neg (not_not.mpr h.length_salt),
    if_neg (not_not.mpr h.length_nonce)]

omit [Suite] in
/-- A record that fails a check is refused for a cause of its own, whatever the password and the
limits are and whatever the primitives do. -/
theorem exists_refusal (h : ¬ exists salt nonce box, record.Complete salt nonce box) :
    exists cause, forall [Suite] (password : Password) (limits : Argon2Limits),
      record.toPhrase password limits = .error (.sealed cause) := by
  by_cases hversion : record.version.value = 1
  · by_cases htexts : exists salt nonce box, record.Spells salt nonce box
    · rcases htexts with ⟨salt, nonce, box, hspells⟩
      by_cases hsalt : salt.length = 16
      · have hnonce : nonce.length ≠ 24 := by
          intro hnonce
          exact h ⟨salt, nonce, box, hspells, hversion, hsalt, hnonce⟩
        refine ⟨.seedNonce, fun password limits => ?_⟩
        rw [toPhrase_of_spells hversion hspells, if_neg (not_not.mpr hsalt), if_pos hnonce]
      · refine ⟨.seedSalt, fun password limits => ?_⟩
        rw [toPhrase_of_spells hversion hspells, if_pos hsalt]
    · exact ⟨.seedText, fun password limits => toPhrase_of_texts hversion htexts⟩
  · exact ⟨.seedVersion, fun password limits => toPhrase_of_version hversion⟩

theorem opens_iff {secret : Bytes} {phrase : String} :
    (Suite.boxDecrypt? secret nonce box).bind ofUtf8? = some phrase <->
      Suite.boxDecrypt? secret nonce box = some (utf8 phrase) := by
  rw [Option.bind_eq_some_iff]
  constructor
  · intro h
    rcases h with ⟨data, hdata, hphrase⟩
    rw [hdata, ofUtf8?_eq_some_iff.mp hphrase]
  · intro h
    exact ⟨_, h, ofUtf8?_utf8 phrase⟩

theorem openBox_eq_ok {phrase : String} :
    openBox password limits salt nonce box = .ok phrase <->
      exists secret, exportKey password salt limits = .ok secret ∧
        Suite.boxDecrypt? secret nonce box = some (utf8 phrase) := by
  rw [openBox, Computation.except_bind_eq_ok]
  refine exists_congr fun secret => and_congr_right fun _ => ?_
  rw [← opens_iff]
  cases (Suite.boxDecrypt? secret nonce box).bind ofUtf8? with
  | none =>
      simp
  | some text =>
      change Except.ok text = .ok phrase <-> _
      simp

theorem openBox_failsWith {secret : Bytes} (hsalt : salt.length = 16)
    (hsecret : password.toBytes = .ok secret) :
    Computation.FailsWith (fun fault => fault = .sealed .seedBox ∨ PasswordHash.IsDerivation fault)
      (openBox password limits salt nonce box) := by
  rw [openBox]
  refine Computation.failsWith_bind
    ((exportKey_failsWith hsalt hsecret).mono (fun fault h => Or.inr h)) (fun key _ => ?_)
  split
  next phrase _ =>
    exact Computation.failsWith_ok phrase
  next =>
    exact Computation.failsWith_error (Or.inl rfl)

theorem toPhrase_cases {secret : Bytes} (hsecret : password.toBytes = .ok secret) :
    (exists phrase, record.toPhrase password limits = .ok phrase) ∨
      (exists cause, record.toPhrase password limits = .error (.sealed cause)) ∨
      exists limit, record.toPhrase password limits = .error (.derivation limit) := by
  by_cases hcomplete : exists salt nonce box, record.Complete salt nonce box
  · rcases hcomplete with ⟨salt, nonce, box, h⟩
    rw [toPhrase_of_complete h]
    cases hopened : openBox password limits salt nonce box with
    | ok phrase =>
        exact Or.inl ⟨phrase, rfl⟩
    | error fault =>
        rcases openBox_failsWith h.length_salt hsecret fault hopened with hbox | hlimit
        · rw [hbox]
          exact Or.inr (Or.inl ⟨_, rfl⟩)
        · rcases hlimit with ⟨limit, hlimit⟩
          rw [hlimit]
          exact Or.inr (Or.inr ⟨limit, rfl⟩)
  · rcases exists_refusal hcomplete with ⟨cause, hrefused⟩
    exact Or.inr (Or.inl ⟨cause, hrefused password limits⟩)

theorem toPhrase_eq_ok {phrase : String} :
    record.toPhrase password limits = .ok phrase <->
      exists salt nonce box key, record.Complete salt nonce box ∧
        exportKey password salt limits = .ok key ∧
        Suite.boxDecrypt? key nonce box = some (utf8 phrase) := by
  constructor
  · intro hphrase
    by_cases hcomplete : exists salt nonce box, record.Complete salt nonce box
    · rcases hcomplete with ⟨salt, nonce, box, h⟩
      rw [toPhrase_of_complete h] at hphrase
      rcases openBox_eq_ok.mp hphrase with ⟨key, hkey, hopened⟩
      exact ⟨salt, nonce, box, key, h, hkey, hopened⟩
    · rcases exists_refusal hcomplete with ⟨cause, hrefused⟩
      rw [hrefused] at hphrase
      cases hphrase
  · intro h
    rcases h with ⟨salt, nonce, box, key, hcomplete, hkey, hopened⟩
    rw [toPhrase_of_complete hcomplete]
    exact openBox_eq_ok.mpr ⟨key, hkey, hopened⟩

theorem toPhrase_broken_iff {text : BrokenText} :
    record.toPhrase (.broken text) limits = .error (.misuse (.encoding text.flaw)) <->
      exists salt nonce box, record.Complete salt nonce box := by
  constructor
  · intro hbroken
    by_contra hcomplete
    rcases exists_refusal hcomplete with ⟨cause, hrefused⟩
    rw [hrefused] at hbroken
    cases hbroken
  · intro hcomplete
    rcases hcomplete with ⟨salt, nonce, box, h⟩
    have hkey : exportKey (.broken text) salt limits =
        .error (.misuse (.encoding text.flaw)) := by
      rw [exportKey, Argon2idParams.make, dif_pos h.length_salt]
      rfl
    rw [toPhrase_of_complete h, openBox, hkey]
    rfl

/-- Opening a record of any version and any texts with a password that has bytes gives a phrase, or
fails because the record cannot be opened or the limits are refused. It gives a phrase exactly when
the version is one, all texts are strict base-64, salt and nonce have their sizes, and the box opens
under the key to the UTF-8 bytes of the phrase. A record that fails an earlier check is refused
before a key is derived: alike for all passwords, limits and primitives. A password whose text is
broken gets to the key with exactly the other records, and fails there for its text. -/
theorem toPhrase_characterised (record : SeedRecord) (limits : Argon2Limits) :
    (forall password secret, Password.toBytes password = .ok secret ->
      (exists phrase, record.toPhrase password limits = .ok phrase) ∨
        (exists cause, record.toPhrase password limits = .error (.sealed cause)) ∨
        exists limit, record.toPhrase password limits = .error (.derivation limit)) ∧
    (forall password phrase, record.toPhrase password limits = .ok phrase <->
      exists salt nonce box key, record.Complete salt nonce box ∧
        exportKey password salt limits = .ok key ∧
        Suite.boxDecrypt? key nonce box = some (utf8 phrase)) ∧
    ((¬ exists salt nonce box, record.Complete salt nonce box) ->
      exists cause, forall [Suite] (other : Password) (limits : Argon2Limits),
        record.toPhrase other limits = .error (.sealed cause)) ∧
    (forall text,
      record.toPhrase (.broken text) limits = .error (.misuse (.encoding text.flaw)) <->
        exists salt nonce box, record.Complete salt nonce box) :=
  ⟨fun _ _ => toPhrase_cases, fun _ _ => toPhrase_eq_ok, exists_refusal,
    fun _ => toPhrase_broken_iff⟩

end Outcomes

theorem toPhrase_characterised_of_text :
    letI : Suite := Suite.standard
    let key := Suite.argon2id (utf8 "export") (List.replicate 16 1) 3 262144
    let record := sealing key (List.replicate 16 1) (List.replicate 24 1) "some words"
    Password.toBytes (.text "export") = .ok (utf8 "export") ∧
      (exists salt nonce box key, record.Complete salt nonce box ∧
        exportKey (.text "export") salt Presets.moderate = .ok key ∧
        Suite.boxDecrypt? key nonce box = some (utf8 "some words")) ∧
      exists cause, forall (other : Password) (limits : Argon2Limits),
        SeedRecord.toPhrase ⟨.number 1, "=", "", ""⟩ other limits = .error (.sealed cause) := by
  let _ : Suite := Suite.standard
  intro key record
  have hsecret : Password.toBytes (.text "export") = .ok (utf8 "export") := rfl
  have hkey : exportKey (.text "export") (List.replicate 16 1) Presets.moderate = .ok key := rfl
  have hphrase : record.toPhrase (.text "export") Presets.moderate = .ok "some words" :=
    toPhrase_sealing rfl rfl hkey "some words"
  have hunspelled : ¬ exists salt nonce box,
      Complete ⟨.number 1, "=", "", ""⟩ salt nonce box := by
    intro h
    rcases h with ⟨salt, nonce, box, h⟩
    cases Base64.decode_eq_ok_iff.mpr h.salt_spelled
  rcases toPhrase_characterised record Presets.moderate with ⟨_, hopens, _, _⟩
  rcases toPhrase_characterised ⟨.number 1, "=", "", ""⟩ Presets.moderate with
    ⟨_, _, hrefuses, _⟩
  rcases hrefuses hunspelled with ⟨cause, hrefused⟩
  exact ⟨hsecret, (hopens _ _).mp hphrase, cause, fun other limits => hrefused other limits⟩

/-- A complete record and half of a pair, as a byte of no character comes in from outside. -/
theorem toPhrase_stops_unencoded :
    letI : Suite := Suite.standard
    let record : SeedRecord := ⟨.number 1, Base64.encode (Bytes.zeros 16),
      Base64.encode (Bytes.zeros 24), Base64.encode []⟩
    let half : Fin 2048 := 0x4ff
    let text : BrokenText := ⟨[.half half], half, List.mem_cons_self⟩
    record.toPhrase (.broken text) ⟨1, 8192⟩ = .error (.misuse (.encoding ⟨half, 0, 1⟩)) := by
  let _ : Suite := Suite.standard
  intro record half text
  have hspelled : forall data, Base64.Spells (Base64.encode data) data :=
    fun data => Base64.decode_eq_ok_iff.mp (Base64.decode_encode data)
  have hcomplete : record.Complete (Bytes.zeros 16) (Bytes.zeros 24) [] :=
    ⟨⟨hspelled _, hspelled _, hspelled _⟩, rfl, rfl, rfl⟩
  exact toPhrase_broken_iff.mpr ⟨_, _, _, hcomplete⟩

end SeedRecord
end WalletVault
