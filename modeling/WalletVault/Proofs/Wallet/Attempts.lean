import WalletVault.Proofs.Wallet.Merging

/-!
# Attempts on one format

A sharded format that holds no shares makes them when it first derives a key,
and keeps them whether or not the rest of the attempt succeeds. Once it holds
them, it holds all of them, and no attempt changes it any more. So every wallet
that was sealed under the format is opened by enough of the shares held later.
-/

namespace WalletVault

open WalletVault.Computation

/-!
# What an attempt does to a format
-/

namespace KeyFormat

/-- A format that was dealt no shares yet, or all shares of one secret. -/
inductive Dealt (hash : PasswordHash) (rule : ShareRule) : KeyFormat -> Prop where
  | none : Dealt hash rule (sharded ⟨hash, rule, []⟩)
  | all (randomness : Bytes) {secret : Bytes} (hsecret : secret.length = 32) :
      Dealt hash rule (sharded (.deal hash rule randomness hsecret))

variable [Suite] {hash : PasswordHash} {rule : ShareRule}

section Fresh

variable {random withSecret : RandomSource}

theorem deriveKey_of_short {fault : Fault} (password : Password)
    (hdraw : draw 32 random = (.error fault, withSecret)) :
    deriveKey password true ⟨sharded ⟨hash, rule, []⟩, random⟩ =
      (.error fault, ⟨sharded ⟨hash, rule, []⟩, withSecret⟩) := by
  rw [deriveKey, bind_of_ok (get_apply _)]
  change (drawing (draw 32) >>= _) _ = _
  rw [bind_apply, drawing, hdraw]

/-- With a secret the shares hang on the second draw alone: they are kept even if the password
cannot be hashed. -/
theorem deriveKey_of_secret {secret : Bytes} (password : Password) (hsecret : secret.length = 32)
    (hdraw : draw 32 random = (.ok secret, withSecret)) :
    deriveKey password true ⟨sharded ⟨hash, rule, []⟩, random⟩ =
      match draw (32 * (rule.threshold - 1)) withSecret with
      | (.ok randomness, withShares) =>
          ((hash.derive password).map (Suite.hmac secret),
            ⟨sharded (.deal hash rule randomness hsecret), withShares⟩)
      | (.error fault, withShares) => (.error fault, ⟨sharded ⟨hash, rule, []⟩, withShares⟩) := by
  have hfirst : drawing (draw 32) ⟨sharded ⟨hash, rule, []⟩, random⟩ =
      (.ok secret, ⟨sharded ⟨hash, rule, []⟩, withSecret⟩) :=
    drawing_eq_ok.mpr ⟨hdraw, rfl⟩
  have hsplit := KeyShare.split_apply rule.one_le_threshold rule.threshold_le_count rule.count_le
    hsecret withSecret
  rw [deriveKey, bind_of_ok (get_apply _)]
  change (drawing (draw 32) >>= _) _ = _
  rw [bind_of_ok hfirst, bind_apply, drawing, hsplit]
  rcases draw (32 * (rule.threshold - 1)) withSecret with ⟨fault | randomness, withShares⟩
  · rfl
  · rfl

theorem dealt_deriveKey_fresh (password : Password) (random : RandomSource) :
    Dealt hash rule (deriveKey password true ⟨sharded ⟨hash, rule, []⟩, random⟩).2.format := by
  rcases hdraw : draw 32 random with ⟨fault | secret, withSecret⟩
  · rw [deriveKey_of_short password hdraw]
    exact .none
  · have hsecret := (draw_eq_ok hdraw).1
    rw [deriveKey_of_secret password hsecret hdraw]
    rcases draw (32 * (rule.threshold - 1)) withSecret with ⟨fault | randomness, withShares⟩
    · exact .none
    · exact .all randomness hsecret

end Fresh

theorem format_deriveKey_held {format : ShardedFormat} (hheld : format.shares ≠ [])
    (password : Password) (create : Bool) (random : RandomSource) :
    (deriveKey password create ⟨sharded format, random⟩).2.format = sharded format := by
  rw [deriveKey_held hheld]

theorem Dealt.deriveKey {format : KeyFormat} (h : Dealt hash rule format) (password : Password)
    (create : Bool) (random : RandomSource) :
    Dealt hash rule (deriveKey password create ⟨format, random⟩).2.format := by
  cases h with
  | none =>
      cases create with
      | true =>
          exact dealt_deriveKey_fresh password random
      | false =>
          exact .none
  | all randomness hsecret =>
      rw [format_deriveKey_held (ShardedFormat.shares_deal_ne_nil hash rule randomness hsecret)]
      exact .all randomness hsecret

theorem format_encrypt (key : SigningKey) (password : Password) (bench : Bench) :
    (Wallet.encrypt key password bench).2.format =
      (KeyFormat.deriveKey password true bench).2.format := by
  unfold Wallet.encrypt
  apply view_bind Bench.format
  intro secret withKey
  refine (view_bind Bench.format ?_).trans rfl
  intro iv withNonce
  exact (view_bind Bench.format (fun _ _ => rfl)).trans rfl

/-!
# Runs of attempts
-/

inductive Attempt where
  | deriveKey (password : Password) (create : Bool) (random : RandomSource)
  | encrypt (key : SigningKey) (password : Password) (random : RandomSource)

def Attempt.run (format : KeyFormat) : Attempt -> KeyFormat
  | deriveKey password create random =>
    (KeyFormat.deriveKey password create ⟨format, random⟩).2.format
  | encrypt key password random => (Wallet.encrypt key password ⟨format, random⟩).2.format

def after (format : KeyFormat) (attempts : List Attempt) : KeyFormat :=
  attempts.foldl Attempt.run format

theorem Dealt.run {format : KeyFormat} (h : Dealt hash rule format) (attempt : Attempt) :
    Dealt hash rule (attempt.run format) := by
  cases attempt with
  | deriveKey password create random =>
      exact h.deriveKey password create random
  | encrypt key password random =>
      rw [Attempt.run, format_encrypt]
      exact h.deriveKey password true random

theorem Dealt.after {format : KeyFormat} (h : Dealt hash rule format) (attempts : List Attempt) :
    Dealt hash rule (format.after attempts) := by
  induction attempts generalizing format with
  | nil =>
      exact h
  | cons attempt rest ih =>
      exact ih (h.run attempt)

theorem run_of_held {format : ShardedFormat} (hheld : format.shares ≠ []) (attempt : Attempt) :
    attempt.run (sharded format) = sharded format := by
  cases attempt with
  | deriveKey password create random =>
      exact format_deriveKey_held hheld password create random
  | encrypt key password random =>
      rw [Attempt.run, format_encrypt]
      exact format_deriveKey_held hheld password true random

theorem after_of_held {format : ShardedFormat} (hheld : format.shares ≠ [])
    (attempts : List Attempt) : (sharded format).after attempts = sharded format := by
  induction attempts with
  | nil =>
      rfl
  | cons attempt rest ih =>
      rw [KeyFormat.after, List.foldl_cons, run_of_held hheld]
      exact ih

theorem after_append (format : KeyFormat) (attempts later : List Attempt) :
    format.after (attempts ++ later) = (format.after attempts).after later :=
  List.foldl_append

/-!
# Wallets of successful attempts
-/

theorem Dealt.exists_of_existingKey {format : KeyFormat} (h : Dealt hash rule format)
    {password : Password} {walletKey : Bytes} (hkey : existingKey password format = .ok walletKey) :
    exists randomness secret stretched, exists hsecret : secret.length = 32,
      format = sharded (.deal hash rule randomness hsecret) ∧
        hash.derive password = .ok stretched ∧ walletKey = Suite.hmac secret stretched := by
  cases h with
  | none =>
      rcases except_bind_eq_ok.mp hkey with ⟨secret, hrecover, _⟩
      have hfew : ([] : List KeyShare).length < rule.threshold := rule.one_le_threshold
      rw [ShardedFormat.recover, if_pos hfew] at hrecover
      cases hrecover
  | all randomness hsecret =>
      rw [existingKey, ShardedFormat.recover_deal] at hkey
      rcases except_map_eq_ok.mp hkey with ⟨stretched, hstretched, hmac⟩
      exact ⟨randomness, _, stretched, hsecret, rfl, hstretched, hmac.symm⟩

theorem Dealt.exists_sealed_of_encrypt {format : KeyFormat} (h : Dealt hash rule format)
    {key : SigningKey} {password : Password} {random : RandomSource} {wallet : Wallet}
    {bench : Bench}
    (hencrypt : Wallet.encrypt key password ⟨format, random⟩ = (.ok wallet, bench)) :
    exists randomness secret stretched iv, exists hsecret : secret.length = 32,
      bench.format = sharded (.deal hash rule randomness hsecret) ∧ iv.length = 12 ∧
        hash.derive password = .ok stretched ∧
        wallet =
          Wallet.sealed (.current true) key (Suite.hmac secret stretched) iv bench.format := by
  rcases Wallet.encrypt_eq_ok.mp hencrypt with
    ⟨walletKey, iv, middle, hwalletKey, hdraw, hformat, hwallet⟩
  -- Without shares there is no key, so the format that gave the key was dealt them.
  have hmiddle := h.deriveKey password true random
  rw [hwalletKey] at hmiddle
  rcases hmiddle.exists_of_existingKey (existingKey_of_deriveKey hwalletKey) with
    ⟨randomness, secret, stretched, hsecret, hdealt, hstretched, hmac⟩
  rw [← hformat] at hdealt
  refine ⟨randomness, secret, stretched, iv, hsecret, hdealt, (draw_eq_ok hdraw).1, hstretched, ?_⟩
  rw [hwallet, hmac, hdealt]
  rfl

theorem encrypt_dealt (hash : PasswordHash) (rule : ShareRule) (randomness : Bytes)
    {secret stretched iv : Bytes} (hsecret : secret.length = 32) (key : SigningKey)
    {password : Password} {random random' : RandomSource}
    (hstretched : hash.derive password = .ok stretched) (hiv : draw 12 random = (.ok iv, random')) :
    Wallet.encrypt key password ⟨sharded (.deal hash rule randomness hsecret), random⟩ =
      (.ok (Wallet.sealed (.current true) key (Suite.hmac secret stretched) iv
          (sharded (.deal hash rule randomness hsecret))),
        ⟨sharded (.deal hash rule randomness hsecret), random'⟩) := by
  have hexisting : existingKey password (sharded (.deal hash rule randomness hsecret)) =
      .ok (Suite.hmac secret stretched) := by
    rw [existingKey, ShardedFormat.recover_deal]
    exact except_map_eq_ok.mpr ⟨stretched, hstretched, rfl⟩
  apply Wallet.encrypt_eq_ok.mpr
  refine ⟨_, iv, ⟨sharded (.deal hash rule randomness hsecret), random⟩, ?_, hiv, rfl, rfl⟩
  rw [deriveKey_held (ShardedFormat.shares_deal_ne_nil hash rule randomness hsecret), hexisting]

theorem decrypt_of_picks {randomness secret stretched iv : Bytes} {hsecret : secret.length = 32}
    {key : SigningKey} {password : Password} {format : KeyFormat} (hiv : iv.length = 12)
    (hstretched : hash.derive password = .ok stretched) {picks : List KeyShare}
    (hpicks : forall share, share ∈ picks ->
      share ∈ (ShardedFormat.deal hash rule randomness hsecret).shares)
    (henough : rule.threshold <= picks.toFinset.card) :
    Wallet.decrypt ((Wallet.sealed (.current true) key (Suite.hmac secret stretched) iv
      format).withFormat (sharded ⟨hash, rule, picks⟩)) password = .ok key := by
  have hholds : (ShardedFormat.mk hash rule picks).HoldsOf secret := ⟨randomness, hsecret, hpicks⟩
  exact Wallet.decrypt_of_enough hiv hstretched hholds henough

end KeyFormat

/-!
# Complete or absent
-/

namespace ShardedFormat

/-- All shares are there: one at each place from one on, with the values of 32 curves that have no
more coefficients than the threshold. -/
def Complete (format : ShardedFormat) : Prop :=
  exists curves : List (List UInt8),
    curves.length = 32 ∧ (forall curve, curve ∈ curves -> curve.length <= format.rule.threshold) ∧
      format.shares.length = format.rule.count ∧
      forall i share, format.shares[i]? = some share ->
        share.index.toNat = i + 1 ∧ share.values = Gf256.values curves share.index

theorem complete_deal (hash : PasswordHash) (rule : ShareRule) (randomness : Bytes) {secret : Bytes}
    (hsecret : secret.length = 32) : (deal hash rule randomness hsecret).Complete := by
  have hone := rule.one_le_threshold
  refine ⟨KeyShare.polynomials (rule.threshold - 1) secret randomness,
    KeyShare.length_curves _ _ hsecret, ?_, KeyShare.length_shareOut _ _ _ hsecret, ?_⟩
  · intro curve hcurve
    have hlength := KeyShare.length_of_mem_polynomials hcurve
    change curve.length <= rule.threshold
    omega
  · intro i share hshare
    have hi : i < rule.count := by
      have hsome := (List.getElem?_eq_some_iff.mp hshare).1
      rwa [deal, KeyShare.length_shareOut] at hsome
    have hlies := KeyShare.liesOn_of_mem_shareOut rule.count_le randomness hsecret
      (List.mem_of_getElem? hshare)
    rw [deal, KeyShare.getElem?_shareOut hi] at hshare
    refine ⟨?_, hlies.2⟩
    rw [← Option.some.inj hshare]
    exact KeyShare.index_shareAt rule.count_le _ randomness hsecret hi

end ShardedFormat

namespace KeyFormat

/-- After any attempts a format that started without shares holds none or all of them, with its hash
and rule as before; once it holds them, it stays as it is. A wallet of a successful attempt opens
with enough of the shares that are held then or later. -/
theorem shares_complete_or_absent [Suite] (hash : PasswordHash) (rule : ShareRule) :
    (forall attempts, exists shares,
      (sharded ⟨hash, rule, []⟩).after attempts = sharded ⟨hash, rule, shares⟩ ∧
        (shares = [] ∨ (ShardedFormat.mk hash rule shares).Complete) ∧
        (shares ≠ [] -> forall later,
          (sharded ⟨hash, rule, []⟩).after (attempts ++ later) = sharded ⟨hash, rule, shares⟩)) ∧
    (forall attempts key password random wallet bench,
      Wallet.encrypt key password ⟨(sharded ⟨hash, rule, []⟩).after attempts, random⟩ =
        (.ok wallet, bench) ->
      forall later picks,
        (forall share, share ∈ picks ->
          share ∈ ((sharded ⟨hash, rule, []⟩).after
            (attempts ++ .encrypt key password random :: later)).shares) ->
        rule.threshold <= picks.toFinset.card ->
        Wallet.decrypt (wallet.withFormat (sharded ⟨hash, rule, picks⟩)) password = .ok key) := by
  constructor
  · intro attempts
    have hdealt := (Dealt.none : Dealt hash rule _).after attempts
    generalize hafter : (sharded ⟨hash, rule, []⟩).after attempts = format at hdealt
    cases hdealt with
    | none =>
        exact ⟨[], rfl, Or.inl rfl, fun hsome => absurd rfl hsome⟩
    | all randomness hsecret =>
        refine ⟨_, rfl, Or.inr (ShardedFormat.complete_deal hash rule randomness hsecret), ?_⟩
        intro hheld later
        rw [after_append, hafter]
        exact after_of_held hheld later
  · intro attempts key password random wallet bench hencrypt later picks hpicks henough
    have hdealt := (Dealt.none : Dealt hash rule _).after attempts
    rcases hdealt.exists_sealed_of_encrypt hencrypt with
      ⟨randomness, secret, stretched, iv, hsecret, hformat, hiv, hstretched, hwallet⟩
    -- What the wallet was sealed under is what the format holds from then on.
    have hlater : (sharded ⟨hash, rule, []⟩).after
        (attempts ++ .encrypt key password random :: later) =
          sharded (.deal hash rule randomness hsecret) := by
      rw [after_append, after, List.foldl_cons, Attempt.run, hencrypt]
      rw [hformat]
      exact after_of_held (ShardedFormat.shares_deal_ne_nil hash rule randomness hsecret) later
    rw [hlater] at hpicks
    rw [hwallet]
    exact decrypt_of_picks hiv hstretched hpicks henough

/-- The first attempt gets one random byte only, and the second has no password that could be hashed
but makes the shares. Two of them open the wallet of the third attempt. -/
theorem shares_complete_or_absent_after_failures :
    letI : Suite := Suite.standard
    let hash := PasswordHash.pbkdf2 PasswordHash.blankPbkdf2
    let rule : ShareRule := ⟨3, 2, by decide, by decide, by decide⟩
    let key : SigningKey := ⟨Bytes.zeros 32, rfl⟩
    let fresh := sharded ⟨hash, rule, []⟩
    let starved : Attempt := .deriveKey (.text "secret") true (.ofBytes [1])
    let unusable : Attempt := .encrypt key (.sized 3) (.ofPattern [1])
    exists shares wallet bench,
      fresh.after [starved] = fresh ∧
        fresh.after [starved, unusable] = sharded ⟨hash, rule, shares⟩ ∧
        (ShardedFormat.mk hash rule shares).Complete ∧
        Wallet.encrypt key (.text "secret") ⟨fresh.after [starved, unusable], .ofPattern [2]⟩ =
          (.ok wallet, bench) ∧
        Wallet.decrypt (wallet.withFormat (sharded ⟨hash, rule, shares.take 2⟩)) (.text "secret") =
          .ok key := by
  let _ : Suite := Suite.standard
  intro hash rule key fresh starved unusable
  have hfirst : fresh.after [starved] = fresh := rfl
  have hrandom : (RandomSource.ofPattern [1]).Ample := ofPattern_ample (by decide)
  have hsecret : (Bytes.cycle [1] 32).length = 32 := rfl
  have hsecond : exists randomness, fresh.after [starved, unusable] =
      sharded (.deal hash rule randomness hsecret) := by
    change exists randomness, (Wallet.encrypt key (.sized 3) ⟨fresh, .ofPattern [1]⟩).2.format =
      sharded (.deal hash rule randomness hsecret)
    rw [format_encrypt, deriveKey_of_secret (.sized 3) hsecret (draw_of_ample hrandom 32),
      draw_of_ample (ample_spend hrandom 32)]
    exact ⟨_, rfl⟩
  have hstretched : hash.derive (.text "secret") =
      .ok (Suite.pbkdf2 (utf8 "secret") PasswordHash.blankPbkdf2.salt 1000000) := rfl
  have hiv := draw_of_ample (ofPattern_ample (by decide) : (RandomSource.ofPattern [2]).Ample) 12
  -- The third attempt finds the shares that the failed second one left.
  rcases hsecond with ⟨randomness, hsecond⟩
  have hencrypt := encrypt_dealt hash rule randomness hsecret key hstretched hiv
  rw [← hsecond] at hencrypt
  rcases (shares_complete_or_absent hash rule).1 [starved, unusable] with
    ⟨shares, hshares, hcomplete, hkept⟩
  have hdealt : ShardedFormat.mk hash rule shares = .deal hash rule randomness hsecret :=
    KeyFormat.sharded.inj (hshares.symm.trans hsecond)
  have hsame : shares = (ShardedFormat.deal hash rule randomness hsecret).shares :=
    congrArg ShardedFormat.shares hdealt
  have hheld : shares ≠ [] := by
    rw [hsame]
    exact ShardedFormat.shares_deal_ne_nil hash rule randomness hsecret
  have hnodup : (shares.take 2).Nodup := by
    rw [hsame]
    exact (KeyShare.nodup_shareOut rule.count_le _ randomness hsecret).sublist
      (List.take_sublist 2 _)
  have henough : rule.threshold <= (shares.take 2).toFinset.card := by
    rw [List.toFinset_card_of_nodup hnodup, List.length_take, hsame]
    exact Nat.le_refl 2
  refine ⟨shares, _, _, hfirst, hshares, hcomplete.resolve_left hheld, hencrypt, ?_⟩
  apply (shares_complete_or_absent hash rule).2 _ _ _ _ _ _ hencrypt [] _ _ henough
  intro share hshare
  rw [hkept hheld]
  exact List.mem_of_mem_take hshare

end KeyFormat

end WalletVault
