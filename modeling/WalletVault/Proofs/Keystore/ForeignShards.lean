import WalletVault.Proofs.Draws
import WalletVault.Proofs.Keystore.Loading
import WalletVault.Proofs.Sharing.Consistency
import WalletVault.Proofs.Wallet.RoundTrip

/-!
# Foreign shards

The shares of an encrypted wallet lie on curves that a threshold of them determines. A collection
of shards with the same rule in which so many of them occur opens for no password if it brings a
share that is not on the curves, whatever the order of the files.
-/

namespace WalletVault

open WalletVault.Computation

namespace ShardedFormat

/-- Curves within the threshold with all shares of the format on them. -/
structure OnCurves (format : ShardedFormat) (curves : List (List UInt8)) : Prop where
  family : KeyShare.Family format.rule.threshold curves
  liesOn : forall share, share ∈ format.shares -> KeyShare.LiesOn curves share

theorem onCurves_deal (hash : PasswordHash) (rule : ShareRule) (randomness : Bytes)
    {secret : Bytes} (hsecret : secret.length = 32) :
    (deal hash rule randomness hsecret).OnCurves
      (KeyShare.polynomials (rule.threshold - 1) secret randomness) where
  family := KeyShare.family_polynomials rule.one_le_threshold hsecret randomness
  liesOn := fun _ hshare =>
    KeyShare.liesOn_of_mem_shareOut rule.count_le randomness hsecret hshare

theorem onCurves_of_recover {format : ShardedFormat} {secret : Bytes}
    (h : format.recover = .ok secret) :
    format.rule.threshold <= format.shares.toFinset.card ∧
      exists curves, format.OnCurves curves := by
  have hone := format.rule.one_le_threshold
  unfold recover at h
  split at h
  · cases h
  constructor
  · by_contra hfew
    rw [KeyShare.combine_of_few (Nat.lt_of_not_le hfew)] at h
    cases h
  · rcases KeyShare.combine_cases hone format.shares with
      hshort | ⟨curves, hfamily, hlies, _⟩ | ⟨conflict, hconflict⟩
    · rw [hshort] at h
      cases h
    · exact ⟨curves, hfamily, hlies⟩
    · rw [hconflict] at h
      cases h

end ShardedFormat

namespace KeyFormat

variable [Suite]

theorem sharded_of_deriveKey {format : ShardedFormat} {random : RandomSource}
    {password : Password} {walletKey : Bytes} {bench : Bench}
    (h : deriveKey password true ⟨.sharded format, random⟩ = (.ok walletKey, bench)) :
    exists own, bench.format = .sharded own ∧ own.rule = format.rule ∧
      (format.shares ≠ [] -> own = format) ∧
      (format.shares = [] ->
        exists (secret randomness : Bytes), exists hsecret : secret.length = 32,
          own = .deal format.hash format.rule randomness hsecret) := by
  by_cases hheld : format.shares = []
  · rcases format with ⟨hash, rule, shares⟩
    cases hheld
    rcases deriveKey_fresh_eq_ok.mp h with ⟨secret, randomness, _, hsecret, _, _, _, hformat⟩
    refine ⟨_, hformat, rfl, fun hne => absurd rfl hne, ?_⟩
    intro _
    exact ⟨secret, randomness, hsecret, rfl⟩
  · rw [deriveKey_held hheld] at h
    rcases Prod.mk.inj h with ⟨_, hbench⟩
    rw [← hbench]
    exact ⟨format, rfl, rfl, fun _ => rfl, fun hnone => absurd hnone hheld⟩

end KeyFormat

namespace Wallet

def sharesIn (shards : List Wallet) : List KeyShare :=
  shards.flatMap (fun shard => shard.format.shares)

section Collection

variable {own : ShardedFormat} {curves : List (List UInt8)} {shards : List Wallet}

theorem recover_of_foreign (hown : own.OnCurves curves)
    (henough : own.rule.threshold <= ((sharesIn shards).toFinset ∩ own.shares.toFinset).card)
    {foreign : KeyShare} (hforeign : foreign ∈ sharesIn shards)
    (hoff : ¬ KeyShare.LiesOn curves foreign) (hash : PasswordHash) :
    exists conflict, ShardedFormat.recover ⟨hash, own.rule, sharesIn shards⟩ =
      .error (.combination conflict) := by
  have hpresent : own.rule.threshold <= (sharesIn shards).length :=
    henough.trans ((Finset.card_le_card Finset.inter_subset_left).trans
      (sharesIn shards).toFinset_card_le)
  have hgenuine : forall share, share ∈ (sharesIn shards).toFinset ∩ own.shares.toFinset ->
      share ∈ sharesIn shards ∧ KeyShare.LiesOn curves share := by
    intro share hshare
    rcases Finset.mem_inter.mp hshare with ⟨hshown, hheld⟩
    exact ⟨List.mem_toFinset.mp hshown, hown.liesOn share (List.mem_toFinset.mp hheld)⟩
  rw [ShardedFormat.recover, if_neg (Nat.not_lt.mpr hpresent)]
  exact KeyShare.combine_of_foreign own.rule.one_le_threshold hown.family henough hgenuine
    hforeign hoff

variable [Suite]

/-- Files that hold shards with the rule of a wallet, with enough of its shares and a foreign one,
load but do not open. -/
theorem decrypt_loadWallet_of_foreign (hown : own.OnCurves curves) {fs : FileSystem}
    {inputs : List String} (hholds : Store.Holds fs inputs shards)
    (hcongruent : forall shard, shard ∈ shards -> Congruent own.rule shard)
    (henough : own.rule.threshold <= ((sharesIn shards).toFinset ∩ own.shares.toFinset).card)
    (hforeign : exists foreign, foreign ∈ sharesIn shards ∧ ¬ KeyShare.LiesOn curves foreign)
    (opener : Password) :
    exists loaded conflict, Store.loadWallet fs inputs = .ok loaded ∧
      loaded.decrypt opener = .error (.combination conflict) := by
  rcases hforeign with ⟨foreign, hforeign, hoff⟩
  have hsome : shards ≠ [] := by
    intro hnone
    rw [hnone] at hforeign
    cases hforeign
  rcases merge_congruent hsome hcongruent with ⟨first, hash, hfirst, hmerged⟩
  rcases Store.exists_readWallet_of_holds hholds hfirst with ⟨_, _, hread⟩
  rcases Store.readWallet_eq_ok.mp hread with ⟨_, _, hdata⟩
  rcases read_eq_ok.mp hdata with ⟨kind, _, hfits, _, _⟩
  rcases recover_of_foreign hown henough hforeign hoff hash with ⟨conflict, hrecover⟩
  have hkind : WalletKind.ofTag (first.withFormat
      (KeyFormat.sharded ⟨hash, own.rule, sharesIn shards⟩)).kind = .ok kind :=
    WalletKind.ofTag_eq_ok.mpr hfits.kind_eq
  refine ⟨_, conflict, Store.loadWallet_eq_ok.mpr ⟨shards, hholds, hmerged⟩, ?_⟩
  exact decrypt_of_recover_error hkind rfl hrecover opener

end Collection

section Detection

variable [Suite]

/-- Foreign shares are found out among enough shares of an encrypted wallet, in any order and for
every password. -/
theorem encrypt_detects_foreign_shards {key : SigningKey} {password : Password}
    {format : ShardedFormat} {random : RandomSource} {wallet : Wallet} {bench : KeyFormat.Bench}
    (hrun : encrypt key password ⟨.sharded format, random⟩ = (.ok wallet, bench)) :
    exists own, wallet.format = .sharded own ∧ own.rule = format.rule ∧
      own.rule.threshold <= own.shares.toFinset.card ∧ (exists curves, own.OnCurves curves) ∧
      (format.shares ≠ [] -> own = format) ∧
      (format.shares = [] ->
        exists (secret randomness : Bytes), exists hsecret : secret.length = 32,
          own = .deal format.hash format.rule randomness hsecret ∧
            own.OnCurves (KeyShare.polynomials (format.rule.threshold - 1) secret randomness)) ∧
      forall curves, own.OnCurves curves ->
        forall (fs : FileSystem) (inputs : List String) (shards : List Wallet),
          Store.Holds fs inputs shards ->
          (forall shard, shard ∈ shards -> Congruent own.rule shard) ->
          own.rule.threshold <= ((sharesIn shards).toFinset ∩ own.shares.toFinset).card ->
          (exists foreign, foreign ∈ sharesIn shards ∧ ¬ KeyShare.LiesOn curves foreign) ->
          forall opener, exists loaded conflict, Store.loadWallet fs inputs = .ok loaded ∧
            loaded.decrypt opener = .error (.combination conflict) := by
  rcases encrypt_eq_ok.mp hrun with ⟨walletKey, iv, middle, hwalletKey, _, hformat, hwallet⟩
  rcases KeyFormat.sharded_of_deriveKey hwalletKey with ⟨own, hown, hrule, hheld, hfresh⟩
  have hexisting := KeyFormat.existingKey_of_deriveKey hwalletKey
  rw [hown] at hexisting
  rcases except_bind_eq_ok.mp hexisting with ⟨secret, hrecover, _⟩
  rcases ShardedFormat.onCurves_of_recover hrecover with ⟨hcard, hcurves⟩
  refine ⟨own, ?_, hrule, hcard, hcurves, hheld, ?_, ?_⟩
  · rw [hwallet, hformat, hown]
    rfl
  · intro hnone
    rcases hfresh hnone with ⟨secret, randomness, hsecret, hdeal⟩
    refine ⟨secret, randomness, hsecret, hdeal, ?_⟩
    rw [hdeal]
    exact ShardedFormat.onCurves_deal format.hash format.rule randomness hsecret
  · intro curves hon fs inputs shards hholds hcongruent henough hforeign opener
    exact decrypt_loadWallet_of_foreign hon hholds hcongruent henough hforeign opener

omit [Suite] in
theorem exists_not_liesOn (curves : List (List UInt8)) (x : UInt8) :
    exists share : KeyShare, share.index = x ∧ ¬ KeyShare.LiesOn curves share := by
  by_contra hall
  have hvalues : forall share : KeyShare, share.index = x ->
      share.values = Gf256.values curves x := by
    intro share hindex
    by_contra hother
    refine hall ⟨share, hindex, ?_⟩
    intro hlies
    rw [← hindex] at hother
    exact hother hlies.2
  have hzeros := hvalues ⟨x :: Bytes.zeros 32, rfl⟩ rfl
  have hones := hvalues ⟨x :: List.replicate 32 1, rfl⟩ rfl
  cases hzeros.trans hones.symm

theorem exists_read_of_share {key : SigningKey} {password : Password} {hash : PasswordHash}
    {rule : ShareRule} {random : RandomSource} {wallet : Wallet} {bench : KeyFormat.Bench}
    (hrun : encrypt key password ⟨.sharded ⟨hash, rule, []⟩, random⟩ = (.ok wallet, bench))
    (hhash : hash.Fits) (share : KeyShare) :
    exists data, write (wallet.withFormat (.sharded ⟨hash, rule, [share]⟩)) = .ok data ∧
      read data = .ok (wallet.withFormat (.sharded ⟨hash, rule, [share]⟩)) := by
  rcases exists_sealed_of_encrypt_fresh hrun with ⟨secret, _, stretched, iv, _, hiv, _, hwallet⟩
  have hfits : Fits (.current true) (sealed (.current true) key (Suite.hmac secret stretched) iv
      (.sharded ⟨hash, rule, [share]⟩)) :=
    fits_sealed hiv rfl rfl hhash (fun hfirst => by cases hfirst)
  rw [hwallet]
  exact read_of_fits_current hfits

omit [Suite] in
/-- A share at an index that the wallet does not use comes first and is taken for the basis; a
genuine one behind the basis gives it away. -/
theorem encrypt_detects_foreign_shards_two_of_two :
    letI : Suite := Suite.standard
    let hash : PasswordHash := .pbkdf2 PasswordHash.blankPbkdf2
    let rule : ShareRule := ⟨2, 2, by decide, by decide, by decide⟩
    exists wallet bench first second foreign data data' data'',
      encrypt ⟨Bytes.zeros 32, rfl⟩ (.text "secret")
          ⟨.sharded ⟨hash, rule, []⟩, .ofPattern [1]⟩ = (.ok wallet, bench) ∧
      wallet.shards = .ok [first, second] ∧ KeyShare.index foreign = 3 ∧
      write first = .ok data ∧ write second = .ok data' ∧
      write (wallet.withFormat (.sharded ⟨hash, rule, [foreign]⟩)) = .ok data'' ∧
      exists loaded conflict,
        Store.loadWallet (.ofEntries [(["a"], .file false data), (["b"], .file false data'),
          (["c"], .file false data'')]) ["c", "a", "b"] = .ok loaded ∧
        loaded.decrypt (.text "secret") = .error (.combination conflict) := by
  let _ : Suite := Suite.standard
  intro hash rule
  have hample : (RandomSource.ofPattern [1]).Ample := ofPattern_ample (by decide)
  have hruns : exists wallet bench, encrypt ⟨Bytes.zeros 32, rfl⟩ (.text "secret")
      ⟨.sharded ⟨hash, rule, []⟩, .ofPattern [1]⟩ = (.ok wallet, bench) :=
    ⟨_, _, encrypt_fresh (hample _ _) rfl (draw_of_ample hample 32)
      (draw_of_ample (ample_spend hample 32) _)
      (draw_of_ample (ample_spend (ample_spend hample 32) _) 12)⟩
  rcases hruns with ⟨wallet, bench, hrun⟩
  rcases encrypt_detects_foreign_shards hrun with
    ⟨own, hown, hrule, hcard, _, _, hfresh, hdetects⟩
  rcases hfresh rfl with ⟨secret, randomness, hsecret, hdeal, hcurves⟩
  rcases exists_not_liesOn (KeyShare.polynomials (rule.threshold - 1) secret randomness) 3 with
    ⟨foreign, hindex, hoff⟩
  let shardOf (share : KeyShare) : Wallet :=
    wallet.withFormat (KeyFormat.sharded ⟨hash, rule, [share]⟩)
  have hhash : hash.Fits := by
    decide
  have hread : forall share,
      exists data, write (shardOf share) = .ok data ∧ read data = .ok (shardOf share) :=
    exists_read_of_share hrun hhash
  let first := KeyShare.shareAt (rule.threshold - 1) randomness hsecret 0
  let second := KeyShare.shareAt (rule.threshold - 1) randomness hsecret 1
  have hshares : own.shares = [first, second] := by
    rw [hdeal]
    rfl
  have hshards : wallet.shards = .ok [shardOf first, shardOf second] := by
    rw [shards, hown, hdeal]
    rfl
  rcases hread first with ⟨data, hwrite, hread₁⟩
  rcases hread second with ⟨data', hwrite', hread₂⟩
  rcases hread foreign with ⟨data'', hwrite'', hread₃⟩
  refine ⟨wallet, bench, _, _, foreign, data, data', data'', hrun, hshards, hindex, hwrite, hwrite',
    hwrite'', ?_⟩
  have hholds : Store.Holds (.ofEntries [(["a"], .file false data), (["b"], .file false data'),
      (["c"], .file false data'')]) ["c", "a", "b"]
        [shardOf foreign, shardOf first, shardOf second] := by
    refine .cons ?_ (.cons ?_ (.cons ?_ .nil))
    · exact Store.readWallet_eq_ok.mpr ⟨data'', rfl, hread₃⟩
    · exact Store.readWallet_eq_ok.mpr ⟨data, rfl, hread₁⟩
    · exact Store.readWallet_eq_ok.mpr ⟨data', rfl, hread₂⟩
  have hsharesIn :
      sharesIn [shardOf foreign, shardOf first, shardOf second] = foreign :: own.shares := by
    rw [hshares]
    rfl
  apply hdetects _ hcurves _ _ _ hholds
  · intro shard hshard
    have hform : exists share, shard = shardOf share := by
      simp only [List.mem_cons, List.not_mem_nil, or_false] at hshard
      rcases hshard with hshard | hshard | hshard
      · exact ⟨_, hshard⟩
      · exact ⟨_, hshard⟩
      · exact ⟨_, hshard⟩
    rcases hform with ⟨share, hshard⟩
    rw [hshard, hrule]
    exact ⟨_, rfl, rfl⟩
  · rw [hsharesIn]
    refine hcard.trans (Finset.card_le_card ?_)
    intro share hshare
    have hmem := List.mem_toFinset.mp hshare
    exact Finset.mem_inter.mpr ⟨List.mem_toFinset.mpr (List.mem_cons_of_mem _ hmem), hshare⟩
  · rw [hsharesIn]
    exact ⟨foreign, List.mem_cons_self, hoff⟩

end Detection

end Wallet
end WalletVault
