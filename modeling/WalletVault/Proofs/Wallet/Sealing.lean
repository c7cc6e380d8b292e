import WalletVault.Proofs.Wallet.Keys
import WalletVault.Proofs.Wallet.Layout
import WalletVault.Wallet.Container

/-!
# Sealed keys

A wallet of any generation is a key that is sealed with the wallet key of its
format. Whoever gets the wallet key again from the format opens the wallet, and
encryption seals under exactly the format that it leaves behind.
-/

namespace WalletVault

theorem SigningKey.length_toBytes [Suite] (key : SigningKey) : key.toBytes.length = 64 := by
  rw [toBytes, List.length_append, key.length_seed, publicKey, Suite.length_publicKey]

theorem SigningKey.ofBytes_toBytes [Suite] (key : SigningKey) :
    ofBytes key.toBytes = .ok key := by
  have htake : key.toBytes.take 32 = key.seed := by
    rw [toBytes, ← key.length_seed, List.take_left]
  have hdrop : key.toBytes.drop 32 = key.publicKey := by
    rw [toBytes, ← key.length_seed, List.drop_left]
  simp only [ofBytes, key.length_toBytes, dif_pos, htake, hdrop]
  exact if_pos trivial

namespace Wallet

variable [Suite]

theorem address_eq_ok {wallet : Wallet} {key : SigningKey} (h : wallet.publicKey = key.publicKey) :
    wallet.address = .ok key.address := by
  have hsome : key.publicKey ≠ [] := by
    intro hnone
    have hlength := Suite.length_publicKey key.seed
    rw [show Suite.publicKey key.seed = [] from hnone] at hlength
    cases hlength
  rw [address, h]
  exact if_neg hsome

def plaintext (kind : WalletKind) (key : SigningKey) : Bytes :=
  if kind.taggedKey then KeyTag.current :: key.toBytes else key.toBytes

def sealed (kind : WalletKind) (key : SigningKey) (walletKey iv : Bytes)
    (format : KeyFormat) : Wallet :=
  let (encrypted, tag) := Suite.encrypt walletKey iv (plaintext kind key)
    (associatedData kind key.publicKey)
  { publicKey := key.publicKey, iv, tag, encrypted, format, kind := kind.tag }

theorem readKeypair_plaintext (kind : WalletKind) (key : SigningKey) :
    readKeypair kind (plaintext kind key) = .ok key := by
  unfold readKeypair plaintext
  by_cases htagged : kind.taggedKey = true
  · simp only [htagged, if_true]
    exact key.ofBytes_toBytes
  · simp only [htagged]
    exact key.ofBytes_toBytes

theorem aead_decrypt_eq_ok {walletKey iv encrypted tag aad text : Bytes} :
    Aead.decrypt walletKey iv encrypted tag aad = .ok text <->
      (walletKey.length = 32 ∧ iv.length = 12 ∧ tag.length = 16) ∧
        Suite.decrypt? walletKey iv encrypted tag aad = some text := by
  unfold Aead.decrypt Aead.checkSizes
  by_cases hwalletKey : walletKey.length = 32
  · by_cases hiv : iv.length = 12
    · by_cases htag : tag.length = 16
      · simp only [hwalletKey, hiv, htag, ne_eq, not_true, if_false, true_and]
        rcases Suite.decrypt? walletKey iv encrypted tag aad with _ | found
        · simp
        · simp
      · simp [hwalletKey, hiv, htag]
    · simp [hwalletKey, hiv]
  · simp [hwalletKey]

section Opening

variable {kind : WalletKind} {key : SigningKey} {walletKey iv : Bytes} {format : KeyFormat}

theorem decrypt_sealed (hwalletKey : walletKey.length = 32) (hiv : iv.length = 12)
    {password : Password} (hexisting : format.existingKey password = .ok walletKey) :
    (sealed kind key walletKey iv format).decrypt password = .ok key := by
  have hkind : WalletKind.ofTag (sealed kind key walletKey iv format).kind = .ok kind :=
    WalletKind.ofTag_eq_ok.mpr rfl
  have hopen := aead_decrypt_eq_ok.mpr ⟨⟨hwalletKey, hiv, Suite.length_tag walletKey iv
    (plaintext kind key) (associatedData kind key.publicKey)⟩,
      Suite.decrypt_encrypt walletKey iv (plaintext kind key) (associatedData kind key.publicKey)⟩
  apply Computation.except_bind_eq_ok.mpr
  refine ⟨kind, hkind, ?_⟩
  apply Computation.except_bind_eq_ok.mpr
  refine ⟨walletKey, hexisting, ?_⟩
  apply Computation.except_bind_eq_ok.mpr
  exact ⟨plaintext kind key, hopen, readKeypair_plaintext kind key⟩

theorem fits_sealed (hiv : iv.length = 12) (hsharded : format.isSharded = kind.sharded)
    (hsingle : format.Single) (hfits : format.hash.Fits)
    (hselector : kind.hasSelector = false -> format.hash.selector = 0) :
    Fits kind (sealed kind key walletKey iv format) where
  kind_eq := rfl
  isSharded_eq := hsharded
  single := hsingle
  hash_fits := hfits
  selector_eq := hselector
  length_publicKey := Suite.length_publicKey key.seed
  length_iv := hiv
  length_tag := Suite.length_tag walletKey iv _ _

end Opening

theorem encrypt_eq_ok {key : SigningKey} {password : Password}
    {bench bench' : KeyFormat.Bench} {wallet : Wallet} :
    encrypt key password bench = (.ok wallet, bench') <->
      exists walletKey iv middle,
        KeyFormat.deriveKey password true bench = (.ok walletKey, middle) ∧
        draw 12 middle.random = (.ok iv, bench'.random) ∧
        bench'.format = middle.format ∧
        wallet = sealed (.current bench'.format.isSharded) key walletKey iv bench'.format := by
  rw [encrypt, Computation.bind_eq_ok]
  constructor
  · intro h
    rcases h with ⟨walletKey, middle, hwalletKey, h⟩
    rcases Computation.bind_eq_ok.mp h with ⟨iv, _, hiv, h⟩
    rcases Computation.bind_eq_ok.mp h with ⟨box, _, haead, h⟩
    rcases KeyFormat.drawing_eq_ok.mp hiv with ⟨hdraw, hformat⟩
    have hlength := KeyFormat.length_of_existingKey
      (KeyFormat.existingKey_of_deriveKey hwalletKey)
    have hlengthIv := (draw_eq_ok hdraw).1
    rcases Prod.mk.inj haead with ⟨hsealed, hbench⟩
    simp only [Aead.encrypt, Aead.checkSizes, hlength, hlengthIv] at hsealed
    cases hsealed
    cases hbench
    rcases Computation.bind_eq_ok.mp h with ⟨_, _, hget, hwallet⟩
    cases hget
    cases hwallet
    exact ⟨walletKey, iv, middle, hwalletKey, hdraw, hformat, rfl⟩
  · intro h
    rcases h with ⟨walletKey, iv, middle, hwalletKey, hdraw, hformat, hwallet⟩
    have hlength := KeyFormat.length_of_existingKey
      (KeyFormat.existingKey_of_deriveKey hwalletKey)
    have hlengthIv := (draw_eq_ok hdraw).1
    refine ⟨walletKey, middle, hwalletKey, ?_⟩
    apply Computation.bind_eq_ok.mpr
    refine ⟨iv, bench', KeyFormat.drawing_eq_ok.mpr ⟨hdraw, hformat⟩, ?_⟩
    apply Computation.bind_eq_ok.mpr
    refine ⟨Suite.encrypt walletKey iv key.toBytes key.publicKey, bench', ?_, ?_⟩
    · rw [Computation.mk_apply]
      simp [Aead.encrypt, Aead.checkSizes, hlength, hlengthIv]
    apply Computation.bind_eq_ok.mpr
    refine ⟨bench', bench', rfl, ?_⟩
    rw [hwallet]
    rfl

theorem encrypt_basic {key : SigningKey} {password : Password} {hash : PasswordHash}
    {stretched iv : Bytes} {random random' : RandomSource}
    (hstretched : hash.derive password = .ok stretched)
    (hiv : draw 12 random = (.ok iv, random')) :
    encrypt key password ⟨.basic hash, random⟩ =
      (.ok (sealed (.current false) key stretched iv (.basic hash)), ⟨.basic hash, random'⟩) := by
  apply encrypt_eq_ok.mpr
  refine ⟨stretched, iv, ⟨.basic hash, random⟩, ?_, hiv, rfl, rfl⟩
  rw [KeyFormat.deriveKey_basic, hstretched]

theorem encrypt_fresh {key : SigningKey} {password : Password} {hash : PasswordHash}
    {rule : ShareRule} {stretched secret randomness iv : Bytes}
    (hsecret : secret.length = 32) {random withSecret withShares random' : RandomSource}
    (hstretched : hash.derive password = .ok stretched)
    (hdrawSecret : draw 32 random = (.ok secret, withSecret))
    (hdrawShares : draw (32 * (rule.threshold - 1)) withSecret = (.ok randomness, withShares))
    (hiv : draw 12 withShares = (.ok iv, random')) :
    encrypt key password ⟨.sharded ⟨hash, rule, []⟩, random⟩ =
      (.ok (sealed (.current true) key (Suite.hmac secret stretched) iv
          (.sharded (.deal hash rule randomness hsecret))),
        ⟨.sharded (.deal hash rule randomness hsecret), random'⟩) := by
  apply encrypt_eq_ok.mpr
  refine ⟨_, iv, ⟨.sharded (.deal hash rule randomness hsecret), withShares⟩, ?_, hiv, rfl, rfl⟩
  apply KeyFormat.deriveKey_fresh_eq_ok.mpr
  refine ⟨secret, randomness, withSecret, hsecret, hdrawSecret, hdrawShares, ?_, rfl⟩
  rw [hstretched]
  rfl

theorem exists_sealed_of_encrypt_fresh {key : SigningKey} {password : Password}
    {hash : PasswordHash} {rule : ShareRule} {random : RandomSource} {bench' : KeyFormat.Bench}
    {wallet : Wallet}
    (h : encrypt key password ⟨.sharded ⟨hash, rule, []⟩, random⟩ = (.ok wallet, bench')) :
    exists secret randomness stretched iv, exists hsecret : secret.length = 32,
      iv.length = 12 ∧ hash.derive password = .ok stretched ∧
        wallet = sealed (.current true) key (Suite.hmac secret stretched) iv
          (.sharded (.deal hash rule randomness hsecret)) := by
  rcases encrypt_eq_ok.mp h with ⟨walletKey, iv, middle, hwalletKey, hdraw, hformat, hwallet⟩
  rcases KeyFormat.deriveKey_fresh_eq_ok.mp hwalletKey with
    ⟨secret, randomness, _, hsecret, _, _, hkey, hdealt⟩
  rcases Computation.except_map_eq_ok.mp hkey with ⟨stretched, hstretched, hmac⟩
  refine ⟨secret, randomness, stretched, iv, hsecret, (draw_eq_ok hdraw).1, hstretched, ?_⟩
  rw [hwallet, hformat, hdealt, ← hmac]
  rfl

theorem exists_sealed_of_encrypt_basic {key : SigningKey} {password : Password}
    {hash : PasswordHash} {random : RandomSource} {bench' : KeyFormat.Bench} {wallet : Wallet}
    (h : encrypt key password ⟨.basic hash, random⟩ = (.ok wallet, bench')) :
    exists stretched iv, iv.length = 12 ∧ hash.derive password = .ok stretched ∧
      wallet = sealed (.current false) key stretched iv (.basic hash) := by
  rcases encrypt_eq_ok.mp h with ⟨walletKey, iv, middle, hwalletKey, hdraw, hformat, hwallet⟩
  rw [KeyFormat.deriveKey_basic] at hwalletKey
  rcases Prod.mk.inj hwalletKey with ⟨hstretched, hmiddle⟩
  rw [hformat, ← hmiddle] at hwallet
  exact ⟨walletKey, iv, (draw_eq_ok hdraw).1, hstretched, hwallet⟩

theorem shards_deal (kind : WalletKind) (key : SigningKey) (walletKey iv : Bytes)
    (hash : PasswordHash) (rule : ShareRule) (randomness : Bytes) {secret : Bytes}
    (hsecret : secret.length = 32) :
    (sealed kind key walletKey iv (.sharded (.deal hash rule randomness hsecret))).shards =
      .ok ((ShardedFormat.deal hash rule randomness hsecret).shares.map (fun share =>
        sealed kind key walletKey iv (.sharded ⟨hash, rule, [share]⟩))) :=
  congrArg Except.ok List.map_map

theorem decrypt_of_encrypt {key : SigningKey} {password : Password}
    {bench bench' : KeyFormat.Bench} {wallet : Wallet}
    (h : encrypt key password bench = (.ok wallet, bench')) :
    wallet.decrypt password = .ok key := by
  rcases encrypt_eq_ok.mp h with ⟨walletKey, iv, middle, hwalletKey, hdraw, hformat, hwallet⟩
  have hexisting := KeyFormat.existingKey_of_deriveKey hwalletKey
  rw [hwallet, hformat]
  exact decrypt_sealed (KeyFormat.length_of_existingKey hexisting) (draw_eq_ok hdraw).1 hexisting

end Wallet
end WalletVault
