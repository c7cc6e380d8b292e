import WalletVault.Proofs.Sharing.Consistency
import WalletVault.Proofs.Wallet.Grammar
import WalletVault.Proofs.Wallet.Merging
import WalletVault.Proofs.Wallet.RoundTrip

/-!
# Opening wallets

A wallet opens just in case its ciphertext, under the wallet key and with the public key that the
wallet names authenticated beside it, holds a keypair. The key is the one of that keypair; only the
cipher ties it to the name. A wallet that does not open tells why in one of a few ways.
-/

namespace WalletVault

open WalletVault.Computation

/-!
# Keypairs
-/

theorem SigningKey.ofBytes_eq_ok [Suite] {data : Bytes} {key : SigningKey} :
    ofBytes data = .ok key <-> data = key.toBytes := by
  constructor
  · intro h
    unfold ofBytes at h
    split at h
    · dsimp only at h
      split at h
      · rename_i hpublic
        cases h
        rw [toBytes, hpublic, List.take_append_drop]
      · cases h
    · cases h
  · intro h
    rw [h]
    exact key.ofBytes_toBytes

namespace Wallet

variable [Suite]

theorem readKeypair_eq_ok {kind : WalletKind} {text : Bytes} {key : SigningKey} :
    readKeypair kind text = .ok key <->
      exists keyTag, Grammar.KeyTagByte kind.generation keyTag ∧ text = keyTag ++ key.toBytes := by
  simp only [Grammar.keyTagByte_iff]
  unfold readKeypair
  cases htagged : kind.taggedKey with
  | false =>
      simp only [Bool.false_eq_true, if_false, false_imp_iff, true_and]
      rw [SigningKey.ofBytes_eq_ok]
      constructor
      · intro h
        exact ⟨[], ⟨KeyTag.current, rfl⟩, h⟩
      · intro h
        rcases h with ⟨keyTag, ⟨_, hnone⟩, htext⟩
        rw [htext, hnone, List.nil_append]
  | true =>
      simp only [if_true, true_imp_iff]
      constructor
      · intro h
        split at h
        · cases h
        · rename_i keyTag rest
          split at h
          · cases h
          · rename_i type htype
            rw [SigningKey.ofBytes_eq_ok.mp h]
            exact ⟨[keyTag], ⟨keyTag, ⟨type, htype⟩, rfl⟩, rfl⟩
      · intro h
        rcases h with ⟨_, ⟨keyTag, ⟨type, htype⟩, hbyte⟩, htext⟩
        rw [htext, hbyte, List.singleton_append]
        dsimp only
        rw [htype]
        exact key.ofBytes_toBytes

/-!
# Decryption
-/

theorem decrypt_eq_ok {wallet : Wallet} {password : Password} {key : SigningKey} :
    wallet.decrypt password = .ok key <->
      exists kind walletKey keyTag, WalletKind.ofTag wallet.kind = .ok kind ∧
        wallet.format.existingKey password = .ok walletKey ∧
        Grammar.KeyTagByte kind.generation keyTag ∧
        (wallet.iv.length = 12 ∧ wallet.tag.length = 16) ∧
        Suite.decrypt? walletKey wallet.iv wallet.encrypted wallet.tag
          (associatedData kind wallet.publicKey) = some (keyTag ++ key.toBytes) := by
  unfold decrypt
  rw [except_bind_eq_ok]
  constructor
  · intro h
    rcases h with ⟨kind, hkind, h⟩
    rcases except_bind_eq_ok.mp h with ⟨walletKey, hwalletKey, h⟩
    rcases except_bind_eq_ok.mp h with ⟨text, hopened, hread⟩
    rcases aead_decrypt_eq_ok.mp hopened with ⟨⟨_, hsizes⟩, htext⟩
    rcases readKeypair_eq_ok.mp hread with ⟨keyTag, hkeyTag, hsame⟩
    rw [hsame] at htext
    exact ⟨kind, walletKey, keyTag, hkind, hwalletKey, hkeyTag, hsizes, htext⟩
  · intro h
    rcases h with ⟨kind, walletKey, keyTag, hkind, hwalletKey, hkeyTag, hsizes, htext⟩
    refine ⟨kind, hkind, except_bind_eq_ok.mpr ⟨walletKey, hwalletKey, ?_⟩⟩
    refine except_bind_eq_ok.mpr ⟨keyTag ++ key.toBytes, ?_, ?_⟩
    · exact aead_decrypt_eq_ok.mpr ⟨⟨KeyFormat.length_of_existingKey hwalletKey, hsizes⟩, htext⟩
    · exact readKeypair_eq_ok.mpr ⟨keyTag, hkeyTag, rfl⟩

end Wallet

/-!
# Faults

The checks that precede a step keep out what it could stumble over: a threshold is never zero, so
there is a basis for interpolation, and a wallet key and a nonce always have the sizes of the
cipher.
-/

/-- What opening wallets can fail with. That one of them is not sharded needs a reason. -/
inductive Fault.OfOpening (mixed : Prop) : Fault -> Prop where
  | malformed (cause : Malformed) : OfOpening mixed (.malformed cause)
  | notSharded (h : mixed) : OfOpening mixed (.request .notSharded)
  | incongruent : OfOpening mixed .incongruent
  | fewShares (present : Nat) (needed : Int) : OfOpening mixed (.fewShares present needed)
  | combination (cause : ShareConflict) : OfOpening mixed (.combination cause)
  | derivation (limit : HashLimit) : OfOpening mixed (.derivation limit)
  | sealed : OfOpening mixed (.sealed .wallet)
  | unabsorbed (input : String) {cause : Fault} (h : OfOpening mixed cause) :
      OfOpening mixed (.unabsorbed input cause)

section Faults

variable {mixed : Prop}

theorem failsWith_of_refuses {α : Type} {result : Except Fault α}
    (h : FailsWith Fault.IsMalformed result) : FailsWith (Fault.OfOpening mixed) result := by
  refine FailsWith.mono h ?_
  intro fault hfault
  rcases hfault with ⟨cause, hcause⟩
  rw [hcause]
  exact .malformed cause

theorem KeyFormat.failsWith_toSharded {format : KeyFormat}
    (hmixed : format.isSharded = false -> mixed) :
    FailsWith (Fault.OfOpening mixed) format.toSharded := by
  cases format with
  | basic hash =>
      exact failsWith_error (.notSharded (hmixed rfl))
  | sharded format =>
      exact failsWith_ok format

theorem SigningKey.ofBytes_refuses [Suite] (data : Bytes) :
    FailsWith Fault.IsMalformed (ofBytes data) := by
  unfold ofBytes
  split
  · dsimp only
    split
    · exact failsWith_ok _
    · exact failsWith_error ⟨_, rfl⟩
  · exact failsWith_error ⟨_, rfl⟩

theorem ShardedFormat.failsWith_recover (format : ShardedFormat) :
    FailsWith (Fault.OfOpening mixed) format.recover := by
  unfold recover
  by_cases hfew : format.shares.length < format.rule.threshold
  · rw [if_pos hfew]
    exact failsWith_error (.fewShares _ _)
  · rw [if_neg hfew]
    rcases KeyShare.combine_cases format.rule.one_le_threshold format.shares with
      hshort | ⟨_, _, _, hsecret⟩ | ⟨conflict, hconflict⟩
    · rw [hshort]
      exact failsWith_error (.fewShares _ _)
    · rw [hsecret]
      exact failsWith_ok _
    · rw [hconflict]
      exact failsWith_error (.combination conflict)

theorem ShardedFormat.failsWith_absorb (format other : ShardedFormat) :
    FailsWith (Fault.OfOpening mixed) (format.absorb other) := by
  unfold absorb
  split
  · exact failsWith_ok _
  · exact failsWith_error .incongruent

variable [Suite] {password : Password} {secret : Bytes}

theorem PasswordHash.failsWith_derive (hpassword : password.toBytes = .ok secret)
    (hash : PasswordHash) : FailsWith (Fault.OfOpening mixed) (hash.derive password) := by
  unfold derive
  rw [hpassword]
  cases hash with
  | pbkdf2 params =>
      rcases hlimit : params.flaw? with _ | limit
      · simp only [hlimit]
        exact failsWith_ok _
      · simp only [hlimit]
        exact failsWith_error (.derivation limit)
  | argon2id params =>
      rcases hlimit : params.flaw? with _ | limit
      · simp only [hlimit]
        exact failsWith_ok _
      · simp only [hlimit]
        exact failsWith_error (.derivation limit)

theorem KeyFormat.failsWith_existingKey (hpassword : password.toBytes = .ok secret)
    (format : KeyFormat) :
    FailsWith (Fault.OfOpening mixed) (format.existingKey password) := by
  cases format with
  | basic hash =>
      exact hash.failsWith_derive hpassword
  | sharded format =>
      apply failsWith_bind format.failsWith_recover
      intro recovered _
      exact failsWith_map _ (format.hash.failsWith_derive hpassword)

omit [Suite] in
/-- The shares of the format, if it has any, give a secret. -/
def KeyFormat.Recovers : KeyFormat -> Prop
  | .basic _ => True
  | .sharded format => exists secret, format.recover = .ok secret

/-- A broken text is found out when the key is derived, which is after the shares were combined. -/
theorem KeyFormat.existingKey_broken_cases (format : KeyFormat) (text : BrokenText) :
    exists fault, format.existingKey (.broken text) = .error fault ∧
      (format.Recovers -> fault = .misuse (.encoding text.flaw)) ∧
      (¬ format.Recovers -> fault.OfOpening mixed) := by
  cases format with
  | basic hash =>
      exact ⟨_, rfl, fun _ => rfl, fun hnone => absurd trivial hnone⟩
  | sharded format =>
      rcases hrecover : format.recover with fault | secret
      · refine ⟨fault, ?_, ?_, fun _ => format.failsWith_recover fault hrecover⟩
        · rw [existingKey, hrecover]
          rfl
        · rintro ⟨secret, hsecret⟩
          cases hrecover.symm.trans hsecret
      · refine ⟨_, ?_, fun _ => rfl, fun hnone => absurd ⟨secret, hrecover⟩ hnone⟩
        rw [existingKey, hrecover]
        rfl

namespace Wallet

theorem readKeypair_refuses (kind : WalletKind) (text : Bytes) :
    FailsWith Fault.IsMalformed (readKeypair kind text) := by
  unfold readKeypair
  split
  · split
    · exact failsWith_error ⟨_, rfl⟩
    · rename_i keyTag rest
      split
      · rename_i fault hfault
        exact failsWith_error (KeyTag.keyType_refuses _ fault hfault)
      · exact SigningKey.ofBytes_refuses rest
  · exact SigningKey.ofBytes_refuses text

theorem failsWith_aead_decrypt {walletKey iv : Bytes} (hwalletKey : walletKey.length = 32)
    (hiv : iv.length = 12) (encrypted tag aad : Bytes) :
    FailsWith (Fault.OfOpening mixed) (Aead.decrypt walletKey iv encrypted tag aad) := by
  unfold Aead.decrypt Aead.checkSizes
  simp only [hwalletKey, hiv, ne_eq, not_true, if_false]
  split
  · exact failsWith_error .sealed
  · split
    · exact failsWith_ok _
    · exact failsWith_error .sealed

theorem failsWith_decrypt {wallet : Wallet} (hiv : wallet.iv.length = 12)
    (hpassword : password.toBytes = .ok secret) :
    FailsWith (Fault.OfOpening mixed) (wallet.decrypt password) := by
  apply failsWith_bind (failsWith_of_refuses (WalletKind.ofTag_refuses wallet.kind))
  intro kind _
  apply failsWith_bind (wallet.format.failsWith_existingKey hpassword)
  intro walletKey hwalletKey
  have hlength := KeyFormat.length_of_existingKey hwalletKey
  apply failsWith_bind (failsWith_aead_decrypt hlength hiv _ _ _)
  intro text _
  exact failsWith_of_refuses (readKeypair_refuses kind text)

theorem decrypt_broken_cases {wallet : Wallet} {kind : WalletKind}
    (hkind : WalletKind.ofTag wallet.kind = .ok kind) (text : BrokenText) :
    exists fault, wallet.decrypt (.broken text) = .error fault ∧
      (wallet.format.Recovers -> fault = .misuse (.encoding text.flaw)) ∧
      (¬ wallet.format.Recovers -> fault.OfOpening mixed) := by
  rcases wallet.format.existingKey_broken_cases text with ⟨fault, hexisting, hcases⟩
  refine ⟨fault, ?_, hcases⟩
  rw [decrypt, hkind]
  change (wallet.format.existingKey (.broken text) >>= _) = _
  rw [hexisting]
  rfl

omit [Suite] in
theorem failsWith_absorb {wallet shard : Wallet}
    (hwallet : wallet.format.isSharded = false -> mixed)
    (hshard : shard.format.isSharded = false -> mixed) :
    FailsWith (Fault.OfOpening mixed) (wallet.absorb shard) := by
  apply failsWith_bind (KeyFormat.failsWith_toSharded hwallet)
  intro format _
  apply failsWith_bind (KeyFormat.failsWith_toSharded hshard)
  intro other _
  apply failsWith_bind (format.failsWith_absorb other)
  intro merged _
  exact failsWith_ok _

end Wallet
end Faults

namespace Wallet

variable [Suite]

/-!
# Sealed and named keys
-/

/-- A wallet of the current generation that names some public key, with a keypair in it. -/
def sealedAs (publicKey : Bytes) (key : SigningKey) (walletKey iv : Bytes)
    (format : KeyFormat) : Wallet :=
  let (encrypted, tag) := Suite.encrypt walletKey iv key.toBytes publicKey
  { publicKey, iv, tag, encrypted, format, kind := format.currentTag }

section Naming

variable {publicKey walletKey iv : Bytes} {format : KeyFormat}

theorem decrypt_sealedAs (publicKey : Bytes) (key : SigningKey) (hiv : iv.length = 12)
    {password : Password} (hexisting : format.existingKey password = .ok walletKey) :
    (sealedAs publicKey key walletKey iv format).decrypt password = .ok key := by
  have hkind : WalletKind.ofTag format.currentTag = .ok (.current format.isSharded) :=
    WalletKind.ofTag_eq_ok.mpr rfl
  apply decrypt_eq_ok.mpr
  refine ⟨_, walletKey, [], hkind, hexisting, Grammar.KeyTagByte.untagged, ?_, ?_⟩
  · exact ⟨hiv, Suite.length_tag _ _ _ _⟩
  · exact Suite.decrypt_encrypt walletKey iv key.toBytes publicKey

theorem fits_sealedAs (key : SigningKey) (hpublicKey : publicKey.length = 32)
    (hiv : iv.length = 12) (hsingle : format.Single) (hfits : format.hash.Fits) :
    Fits (.current format.isSharded) (sealedAs publicKey key walletKey iv format) where
  kind_eq := rfl
  isSharded_eq := rfl
  single := hsingle
  hash_fits := hfits
  selector_eq := fun hnone => by cases hnone
  length_publicKey := hpublicKey
  length_iv := hiv
  length_tag := Suite.length_tag walletKey iv _ _

end Naming

/-- The key that a wallet yields is the one whose keypair was sealed under the name of the wallet.
It is the named key just in case that keypair ends with the named public key. -/
theorem decrypt_yields_sealed_key {data : Bytes} {wallet merged : Wallet} {shards : List Wallet}
    {password : Password} {key : SigningKey} (hread : read data = .ok wallet)
    (habsorbed : shards.foldlM absorb wallet = .ok merged)
    (hdecrypt : merged.decrypt password = .ok key) :
    exists kind walletKey keyTag text,
      WalletKind.ofTag merged.kind = .ok kind ∧
      merged.format.existingKey password = .ok walletKey ∧
      Suite.decrypt? walletKey merged.iv merged.encrypted merged.tag
        (associatedData kind merged.publicKey) = some text ∧
      Grammar.KeyTagByte kind.generation keyTag ∧ text = keyTag ++ key.seed ++ key.publicKey ∧
      merged.publicKey = wallet.publicKey ∧
      (key.publicKey = merged.publicKey <-> merged.publicKey <:+ text) ∧
      forall owner : SigningKey,
        (merged.encrypted, merged.tag) = Suite.encrypt walletKey merged.iv (plaintext kind owner)
          (associatedData kind merged.publicKey) -> key = owner := by
  rcases decrypt_eq_ok.mp hdecrypt with
    ⟨kind, walletKey, keyTag, hkind, hwalletKey, hkeyTag, _, htext⟩
  have hnamed := congrArg Container.publicKey (withFormat_of_foldlM_absorb habsorbed)
  refine ⟨kind, walletKey, keyTag, _, hkind, hwalletKey, htext, hkeyTag, ?_, hnamed, ?_, ?_⟩
  · rw [SigningKey.toBytes, List.append_assoc]
  · rcases read_eq_ok.mp hread with ⟨_, _, hfits, _, _⟩
    have hlength : merged.publicKey.length = key.publicKey.length := by
      rw [hnamed, SigningKey.publicKey, Suite.length_publicKey]
      exact hfits.length_publicKey
    have hsuffix : key.publicKey <:+ keyTag ++ key.toBytes :=
      (List.suffix_append key.seed key.publicKey).trans (List.suffix_append keyTag key.toBytes)
    constructor
    · intro hsame
      rwa [← hsame]
    · intro hends
      exact ((List.suffix_of_suffix_length_le hends hsuffix hlength.le).eq_of_length hlength).symm
  · intro owner hsealed
    have hencrypted := congrArg Prod.fst hsealed
    have htag := congrArg Prod.snd hsealed
    dsimp only at hencrypted htag
    rw [hencrypted, htag, Suite.decrypt_encrypt] at htext
    have hkey : readKeypair kind (keyTag ++ key.toBytes) = .ok key :=
      readKeypair_eq_ok.mpr ⟨keyTag, hkeyTag, rfl⟩
    rw [← Option.some.inj htext, readKeypair_plaintext] at hkey
    exact (Except.ok.inj hkey).symm

omit [Suite] in
theorem decrypt_yields_sealed_key_zero_key :
    letI : Suite := Suite.standard
    let key : SigningKey := ⟨Bytes.zeros 32, rfl⟩
    let format : KeyFormat := .basic (.pbkdf2 PasswordHash.blankPbkdf2)
    let walletKey := Suite.pbkdf2 (utf8 "secret") (Bytes.zeros 8) 1000000
    let wallet := sealed (.current false) key walletKey (Bytes.zeros 12) format
    exists data text, read data = .ok wallet ∧ wallet.decrypt (.text "secret") = .ok key ∧
      Suite.decrypt? walletKey wallet.iv wallet.encrypted wallet.tag wallet.publicKey =
        some text ∧ wallet.publicKey <:+ text := by
  let _ : Suite := Suite.standard
  intro key format walletKey wallet
  have hexisting : format.existingKey (.text "secret") = .ok walletKey := rfl
  have hdecrypt : wallet.decrypt (.text "secret") = .ok key :=
    decrypt_sealed (KeyFormat.length_of_existingKey hexisting) rfl hexisting
  have hfits : Fits (.current wallet.format.isSharded) wallet :=
    fits_sealed rfl rfl trivial (by decide) (fun hfirst => by cases hfirst)
  rcases read_of_fits_current hfits with ⟨data, _, hread⟩
  have habsorbed : ([] : List Wallet).foldlM absorb wallet = .ok wallet := rfl
  rcases decrypt_yields_sealed_key hread habsorbed hdecrypt with
    ⟨kind, walletKey', _, text, hkind, hwalletKey, htext, _, _, _, hnamed, _⟩
  have hkindSame : WalletKind.current false = kind :=
    Except.ok.inj ((WalletKind.ofTag_eq_ok.mpr rfl).symm.trans hkind)
  have hkeySame : walletKey = walletKey' := Except.ok.inj (hexisting.symm.trans hwalletKey)
  rw [← hkindSame, ← hkeySame] at htext
  exact ⟨data, text, hread, hdecrypt, htext, hnamed.mp rfl⟩

omit [Suite] in
/-- Whoever knows the password can seal a keypair under the name of another key. -/
theorem decrypt_yields_misnamed_key :
    letI : Suite := Suite.standard
    let key : SigningKey := ⟨Bytes.zeros 32, rfl⟩
    let named : SigningKey := ⟨List.replicate 32 1, rfl⟩
    let format : KeyFormat := .basic (.pbkdf2 ⟨Bytes.zeros 8, 1, rfl⟩)
    let walletKey := Suite.pbkdf2 (utf8 "secret") (Bytes.zeros 8) 1
    let wallet := sealedAs named.publicKey key walletKey (Bytes.zeros 12) format
    exists data, read data = .ok wallet ∧ wallet.decrypt (.text "secret") = .ok key ∧
      key.publicKey ≠ wallet.publicKey := by
  let _ : Suite := Suite.standard
  intro key named format walletKey wallet
  have hexisting : format.existingKey (.text "secret") = .ok walletKey := rfl
  have hdecrypt : wallet.decrypt (.text "secret") = .ok key :=
    decrypt_sealedAs named.publicKey key rfl hexisting
  have hlength : named.publicKey.length = 32 := Suite.length_publicKey named.seed
  have hfits : Fits (.current wallet.format.isSharded) wallet :=
    fits_sealedAs key hlength rfl trivial (by decide)
  rcases read_of_fits_current hfits with ⟨data, _, hread⟩
  refine ⟨data, hread, hdecrypt, ?_⟩
  -- The two public keys differ in their first byte.
  have hfirst : (Ed25519.publicKey (Bytes.zeros 32)).head? ≠
      (Ed25519.publicKey (List.replicate 32 1)).head? := by decide +kernel
  intro hsame
  exact hfirst (congrArg List.head? hsame)

end Wallet
end WalletVault
