import WalletVault.KeyFormat
import WalletVault.Proofs.Sharing.Recovery

/-!
# Keys of formats

A sharded format that makes its secret keeps all shares of the split. The key
that it then gives is the one that enough of these shares give again, in any
order and with any repetitions.
-/

namespace WalletVault

theorem KeyShare.liesOn_of_mem_shareOut {count degree : Nat} (hcount : count <= 255)
    {secret : Bytes} (randomness : Bytes) (hsecret : secret.length = 32) {share : KeyShare}
    (h : share ∈ shareOut count degree secret randomness hsecret) :
    LiesOn (polynomials degree secret randomness) share := by
  rcases List.mem_map.mp h with ⟨i, hi, hshare⟩
  rw [← hshare]
  apply liesOn_atPlace
  intro hzero
  have hnat := congrArg UInt8.toNat hzero
  rw [toNat_ofNat_succ hcount (List.mem_range.mp hi)] at hnat
  cases hnat

theorem PasswordHash.length_of_derive [Suite] {hash : PasswordHash} {password : Password}
    {stretched : Bytes} (h : hash.derive password = .ok stretched) : stretched.length = 32 := by
  unfold derive at h
  split at h
  · cases h
  · split at h
    · split at h
      · cases h
      · cases h
        exact Suite.length_pbkdf2 _ _ _
    · split at h
      · cases h
      · cases h
        exact Suite.length_argon2id _ _ _ _

theorem PasswordHash.derive_congr [Suite] (hash : PasswordHash) {password other : Password}
    (h : password.toBytes = other.toBytes) : hash.derive password = hash.derive other := by
  unfold derive
  rw [h]

/-!
# Recovering the secret
-/

namespace ShardedFormat

/-- The shares at hand come from one split of the secret under the rule of the format. -/
def HoldsOf (format : ShardedFormat) (secret : Bytes) : Prop :=
  exists randomness, exists hsecret : secret.length = 32,
    forall share, share ∈ format.shares ->
      share ∈ KeyShare.shareOut format.rule.count (format.rule.threshold - 1) secret randomness
        hsecret

def deal (hash : PasswordHash) (rule : ShareRule) (randomness : Bytes) {secret : Bytes}
    (hsecret : secret.length = 32) : ShardedFormat :=
  ⟨hash, rule, KeyShare.shareOut rule.count (rule.threshold - 1) secret randomness hsecret⟩

theorem holdsOf_deal (hash : PasswordHash) (rule : ShareRule) (randomness : Bytes)
    {secret : Bytes} (hsecret : secret.length = 32) :
    (deal hash rule randomness hsecret).HoldsOf secret :=
  ⟨randomness, hsecret, fun _ hshare => hshare⟩

theorem shares_deal_ne_nil (hash : PasswordHash) (rule : ShareRule) (randomness : Bytes)
    {secret : Bytes} (hsecret : secret.length = 32) :
    (deal hash rule randomness hsecret).shares ≠ [] := by
  apply List.ne_nil_of_length_pos
  rw [deal, KeyShare.length_shareOut]
  exact rule.one_le_threshold.trans rule.threshold_le_count

theorem card_deal (hash : PasswordHash) (rule : ShareRule) (randomness : Bytes)
    {secret : Bytes} (hsecret : secret.length = 32) :
    (deal hash rule randomness hsecret).shares.toFinset.card = rule.count := by
  unfold deal
  rw [List.toFinset_card_of_nodup (KeyShare.nodup_shareOut rule.count_le _ randomness hsecret),
    KeyShare.length_shareOut]

variable {format : ShardedFormat} {secret : Bytes}

theorem combine_of_holdsOf (h : format.HoldsOf secret) :
    KeyShare.combine format.shares (some format.rule.threshold) =
      if format.shares.toFinset.card < format.rule.threshold then
        .error (.fewShares format.shares.toFinset.card format.rule.threshold)
      else .ok secret := by
  rcases h with ⟨randomness, hsecret, hshares⟩
  have hone := format.rule.one_le_threshold
  have hcurves : (KeyShare.polynomials (format.rule.threshold - 1) secret randomness).length =
      32 := by
    rw [KeyShare.length_polynomials, hsecret]
  have hdegree : forall curve,
      curve ∈ KeyShare.polynomials (format.rule.threshold - 1) secret randomness ->
        curve.length <= format.rule.threshold := by
    intro curve hcurve
    have hlength := KeyShare.length_of_mem_polynomials hcurve
    omega
  have hlies : forall share, share ∈ format.shares ->
      KeyShare.LiesOn (KeyShare.polynomials (format.rule.threshold - 1) secret randomness)
        share := by
    intro share hshare
    exact KeyShare.liesOn_of_mem_shareOut format.rule.count_le randomness hsecret
      (hshares share hshare)
  rw [KeyShare.combine_of_liesOn hcurves hone hdegree hlies, KeyShare.values_polynomials_zero]

theorem recover_of_holdsOf (h : format.HoldsOf secret)
    (henough : format.rule.threshold <= format.shares.toFinset.card) :
    format.recover = .ok secret := by
  have hlength := format.shares.toFinset_card_le
  rw [recover, if_neg (by omega), combine_of_holdsOf h, if_neg (by omega)]

theorem recover_deal (hash : PasswordHash) (rule : ShareRule) (randomness : Bytes)
    {secret : Bytes} (hsecret : secret.length = 32) :
    (deal hash rule randomness hsecret).recover = .ok secret := by
  apply recover_of_holdsOf (holdsOf_deal hash rule randomness hsecret)
  rw [card_deal]
  exact rule.threshold_le_count

theorem recover_of_few (h : format.HoldsOf secret)
    (hfew : format.shares.toFinset.card < format.rule.threshold) :
    exists present, format.recover = .error (.fewShares present format.rule.threshold) := by
  unfold recover
  by_cases hlength : format.shares.length < format.rule.threshold
  · exact ⟨_, if_pos hlength⟩
  · rw [if_neg hlength, combine_of_holdsOf h, if_pos hfew]
    exact ⟨_, rfl⟩

end ShardedFormat

/-!
# Deriving keys
-/

namespace KeyFormat

theorem drawing_eq_ok {α : Type} {action : Draw α} {bench bench' : Bench} {a : α} :
    drawing action bench = (.ok a, bench') <->
      action bench.random = (.ok a, bench'.random) ∧ bench'.format = bench.format := by
  rcases bench' with ⟨format, random⟩
  unfold drawing
  rcases action bench.random with ⟨result, random'⟩
  constructor
  · intro h
    cases h
    exact ⟨rfl, rfl⟩
  · intro h
    rcases h with ⟨hresult, hformat⟩
    cases hresult
    cases hformat
    rfl

variable [Suite] {password : Password} {walletKey : Bytes} {bench' : Bench}

theorem deriveKey_fresh_eq_ok {hash : PasswordHash} {rule : ShareRule}
    {random : RandomSource} :
    deriveKey password true ⟨sharded ⟨hash, rule, []⟩, random⟩ = (.ok walletKey, bench') <->
      exists secret randomness random', exists hsecret : secret.length = 32,
        draw 32 random = (.ok secret, random') ∧
        draw (32 * (rule.threshold - 1)) random' = (.ok randomness, bench'.random) ∧
        (hash.derive password).map (Suite.hmac secret) = .ok walletKey ∧
        bench'.format = sharded (.deal hash rule randomness hsecret) := by
  rw [deriveKey, Computation.bind_eq_ok]
  constructor
  · intro h
    rcases h with ⟨_, _, hget, h⟩
    cases hget
    rcases Computation.bind_eq_ok.mp h with ⟨secret, _, hsecret, h⟩
    rcases Computation.bind_eq_ok.mp h with ⟨shares, _, hshares, h⟩
    rcases Computation.bind_eq_ok.mp h with ⟨_, _, hmodify, hkey⟩
    cases hmodify
    rcases drawing_eq_ok.mp hsecret with ⟨hdraw, _⟩
    rcases drawing_eq_ok.mp hshares with ⟨hsplit, _⟩
    rcases Prod.mk.inj hkey with ⟨hkeyOf, hbench⟩
    cases hbench
    have hlength := (draw_eq_ok hdraw).1
    rcases (KeyShare.split_eq_ok rule.one_le_threshold rule.threshold_le_count rule.count_le
      hlength).mp hsplit with ⟨randomness, hdraw', hdealt⟩
    refine ⟨secret, randomness, _, hlength, hdraw, hdraw', hkeyOf, ?_⟩
    rw [hdealt]
    rfl
  · intro h
    rcases h with ⟨secret, randomness, random', hlength, hdraw, hdraw', hkeyOf, hformat⟩
    rcases bench' with ⟨format, random''⟩
    cases hformat
    have hsplit := (KeyShare.split_eq_ok rule.one_le_threshold rule.threshold_le_count
      rule.count_le hlength).mpr ⟨randomness, hdraw', rfl⟩
    refine ⟨_, _, rfl, ?_⟩
    apply Computation.bind_eq_ok.mpr
    refine ⟨secret, ⟨sharded ⟨hash, rule, []⟩, random'⟩, drawing_eq_ok.mpr ⟨hdraw, rfl⟩, ?_⟩
    apply Computation.bind_eq_ok.mpr
    refine ⟨_, ⟨sharded ⟨hash, rule, []⟩, random''⟩, drawing_eq_ok.mpr ⟨hsplit, rfl⟩, ?_⟩
    apply Computation.bind_eq_ok.mpr
    exact ⟨_, _, rfl, Prod.ext hkeyOf rfl⟩

theorem deriveKey_basic (hash : PasswordHash) (create : Bool) (random : RandomSource) :
    deriveKey password create ⟨basic hash, random⟩ =
      (hash.derive password, ⟨basic hash, random⟩) := rfl

theorem deriveKey_held {format : ShardedFormat} (hheld : format.shares ≠ [])
    (create : Bool) (random : RandomSource) :
    deriveKey password create ⟨sharded format, random⟩ =
      (existingKey password (sharded format), ⟨sharded format, random⟩) := by
  rcases format with ⟨hash, rule, shares⟩
  cases shares with
  | nil =>
      exact absurd rfl hheld
  | cons share rest =>
      rfl

theorem existingKey_of_deriveKey {bench : Bench}
    (h : deriveKey password true bench = (.ok walletKey, bench')) :
    existingKey password bench'.format = .ok walletKey := by
  rcases bench with ⟨format, random⟩
  cases format with
  | basic hash =>
      rw [deriveKey_basic] at h
      rcases Prod.mk.inj h with ⟨hkey, hbench⟩
      rw [← hbench]
      exact hkey
  | sharded format =>
      by_cases hheld : format.shares = []
      · rcases format with ⟨hash, rule, shares⟩
        cases hheld
        rcases deriveKey_fresh_eq_ok.mp h with
          ⟨secret, randomness, _, hsecret, _, _, hkey, hformat⟩
        rw [hformat, existingKey, ShardedFormat.recover_deal]
        exact hkey
      · rw [deriveKey_held hheld] at h
        rcases Prod.mk.inj h with ⟨hkey, hbench⟩
        rw [← hbench]
        exact hkey

theorem length_of_existingKey {format : KeyFormat}
    (h : existingKey password format = .ok walletKey) : walletKey.length = 32 := by
  cases format with
  | basic hash =>
      exact PasswordHash.length_of_derive h
  | sharded format =>
      rcases Computation.except_bind_eq_ok.mp h with ⟨secret, _, hkey⟩
      rcases Computation.except_map_eq_ok.mp hkey with ⟨stretched, _, hmac⟩
      rw [← hmac]
      exact Suite.length_hmac secret stretched

theorem format_of_deriveKey {bench : Bench}
    (h : deriveKey password true bench = (.ok walletKey, bench')) :
    bench'.format.hash = bench.format.hash ∧
      (bench'.format.isSharded = true -> bench'.format.shares ≠ []) := by
  rcases bench with ⟨format, random⟩
  cases format with
  | basic hash =>
      rw [deriveKey_basic] at h
      rcases Prod.mk.inj h with ⟨_, hbench⟩
      rw [← hbench]
      exact ⟨rfl, fun hsharded => absurd hsharded Bool.false_ne_true⟩
  | sharded format =>
      by_cases hheld : format.shares = []
      · rcases format with ⟨hash, rule, shares⟩
        cases hheld
        rcases deriveKey_fresh_eq_ok.mp h with
          ⟨secret, randomness, _, hsecret, _, _, _, hformat⟩
        rw [hformat]
        exact ⟨rfl, fun _ => ShardedFormat.shares_deal_ne_nil hash rule randomness hsecret⟩
      · rw [deriveKey_held hheld] at h
        rcases Prod.mk.inj h with ⟨_, hbench⟩
        rw [← hbench]
        exact ⟨rfl, fun _ => hheld⟩

end KeyFormat
end WalletVault
