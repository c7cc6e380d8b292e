import WalletVault.Proofs.Wallet.Sealing

/-!
# Merging shards

The shards of a wallet differ in their share alone. Merged in any order, with
any repetitions, they are the wallet with all their shares, which opens just in
case enough of the shares are different.
-/

namespace WalletVault

open WalletVault.Computation

theorem KeyFormat.toSharded_eq_ok {format : KeyFormat} {sharded : ShardedFormat} :
    format.toSharded = .ok sharded <-> format = .sharded sharded := by
  cases format with
  | basic hash =>
      simp [toSharded]
  | sharded format =>
      simp [toSharded]

theorem ShardedFormat.absorb_eq_ok {format other merged : ShardedFormat} :
    format.absorb other = .ok merged <->
      format.rule = other.rule ∧
        merged = ⟨format.hash, format.rule, format.shares ++ other.shares⟩ := by
  rcases format with ⟨hash, ⟨count, threshold, _, _, _⟩, shares⟩
  rcases other with ⟨_, ⟨count', threshold', _, _, _⟩, shares'⟩
  simp only [absorb, ShareRule.mk.injEq]
  split
  · rename_i hrule
    simp [hrule, eq_comm]
  · rename_i hrule
    simp [hrule]

namespace Wallet

/-!
# Picked items
-/

theorem exists_picks {α β : Type} {f : α -> β} {items : List α} {picked : List β}
    (h : forall b, b ∈ picked -> b ∈ items.map f) :
    exists picks : List α, picked = picks.map f ∧ forall a, a ∈ picks -> a ∈ items := by
  induction picked with
  | nil =>
      exact ⟨[], rfl, by simp⟩
  | cons b rest ih =>
      rcases ih (fun b hb => h b (List.mem_cons_of_mem _ hb)) with ⟨picks, hpicks, hall⟩
      rcases List.mem_map.mp (h b List.mem_cons_self) with ⟨a, ha, hb⟩
      refine ⟨a :: picks, by rw [List.map_cons, hb, hpicks], ?_⟩
      intro other hother
      rcases List.mem_cons.mp hother with hsame | hrest
      · rw [hsame]
        exact ha
      · exact hall other hrest

theorem card_toFinset_map_le {α β : Type} [DecidableEq α] [DecidableEq β] (f : α -> β)
    (items : List α) : (items.map f).toFinset.card <= items.toFinset.card := by
  have himage : (items.map f).toFinset = items.toFinset.image f := by
    ext b
    simp
  rw [himage]
  exact Finset.card_image_le

theorem card_toFinset_map {α β : Type} [DecidableEq α] [DecidableEq β] {f : α -> β}
    {items : List α}
    (hf : forall a, a ∈ items -> forall b, b ∈ items -> f a = f b -> a = b) :
    (items.map f).toFinset.card = items.toFinset.card := by
  have himage : (items.map f).toFinset = items.toFinset.image f := by
    ext b
    simp
  rw [himage]
  apply Finset.card_image_of_injOn
  intro a ha b hb h
  exact hf a (List.mem_toFinset.mp ha) b (List.mem_toFinset.mp hb) h

/-!
# Merged shards
-/

/-- The first wallet with the shares of all others. -/
def merge : List Wallet -> Except Fault Wallet
  | [] => .error (.request .noFiles)
  | wallet :: rest => rest.foldlM absorb wallet

theorem absorb_eq_ok {wallet shard merged : Wallet} :
    wallet.absorb shard = .ok merged <->
      exists format other, wallet.format = .sharded format ∧ shard.format = .sharded other ∧
        format.rule = other.rule ∧
        merged = wallet.withFormat
          (.sharded ⟨format.hash, format.rule, format.shares ++ other.shares⟩) := by
  unfold absorb
  rw [except_bind_eq_ok]
  constructor
  · intro h
    rcases h with ⟨format, hformat, h⟩
    rcases except_bind_eq_ok.mp h with ⟨other, hother, h⟩
    rcases except_bind_eq_ok.mp h with ⟨_, hsame, hmerged⟩
    rw [KeyFormat.toSharded_eq_ok] at hformat hother
    rcases ShardedFormat.absorb_eq_ok.mp hsame with ⟨hrule, hshares⟩
    cases hmerged
    exact ⟨format, other, hformat, hother, hrule, by rw [hshares]⟩
  · intro h
    rcases h with ⟨format, other, hformat, hother, hrule, hmerged⟩
    refine ⟨format, KeyFormat.toSharded_eq_ok.mpr hformat, except_bind_eq_ok.mpr ?_⟩
    refine ⟨other, KeyFormat.toSharded_eq_ok.mpr hother, except_bind_eq_ok.mpr ?_⟩
    exact ⟨_, ShardedFormat.absorb_eq_ok.mpr ⟨hrule, rfl⟩, by rw [hmerged]; rfl⟩

theorem withFormat_of_foldlM_absorb {wallet merged : Wallet} {shards : List Wallet}
    (h : shards.foldlM absorb wallet = .ok merged) :
    merged = wallet.withFormat merged.format := by
  induction shards generalizing wallet with
  | nil =>
      cases h
      rfl
  | cons shard shards ih =>
      rw [List.foldlM_cons] at h
      rcases except_bind_eq_ok.mp h with ⟨next, hnext, hrest⟩
      rcases absorb_eq_ok.mp hnext with ⟨_, _, _, _, _, hsame⟩
      have hmerged := ih hrest
      rw [hsame] at hmerged
      exact hmerged

def Congruent (rule : ShareRule) (shard : Wallet) : Prop :=
  exists format, shard.format = .sharded format ∧ format.rule = rule

theorem foldlM_absorb_congruent (wallet : Wallet) (hash : PasswordHash) {rule : ShareRule}
    (held : List KeyShare) {shards : List Wallet}
    (h : forall shard, shard ∈ shards -> Congruent rule shard) :
    shards.foldlM absorb (wallet.withFormat (.sharded ⟨hash, rule, held⟩)) =
      .ok (wallet.withFormat (.sharded ⟨hash, rule,
        held ++ shards.flatMap (fun shard => shard.format.shares)⟩)) := by
  induction shards generalizing held with
  | nil =>
      rw [List.flatMap_nil, List.append_nil]
      rfl
  | cons shard shards ih =>
      rcases h shard List.mem_cons_self with ⟨other, hother, hrule⟩
      rw [List.foldlM_cons, except_bind_eq_ok]
      refine ⟨wallet.withFormat (.sharded ⟨hash, rule, held ++ other.shares⟩), ?_, ?_⟩
      · exact absorb_eq_ok.mpr ⟨_, other, rfl, hother, hrule.symm, rfl⟩
      · rw [ih (held ++ other.shares) (fun shard hshard => h shard (List.mem_cons_of_mem _ hshard)),
          List.flatMap_cons, hother, List.append_assoc]
        rfl

/-- Shards with one rule merge to the first of them with the shares of all. -/
theorem merge_congruent {rule : ShareRule} {shards : List Wallet} (hshards : shards ≠ [])
    (h : forall shard, shard ∈ shards -> Congruent rule shard) :
    exists first hash, first ∈ shards ∧
      merge shards = .ok (first.withFormat (.sharded ⟨hash, rule,
        shards.flatMap (fun shard => shard.format.shares)⟩)) := by
  cases shards with
  | nil =>
      exact absurd rfl hshards
  | cons first rest =>
      rcases h first List.mem_cons_self with ⟨⟨hash, ruleOfFirst, shares⟩, hformat, hrule⟩
      change ruleOfFirst = rule at hrule
      rw [hrule] at hformat
      have hrest := foldlM_absorb_congruent first hash shares
        (fun shard hshard => h shard (List.mem_cons_of_mem _ hshard))
      have hfirst : first.withFormat (.sharded ⟨hash, rule, shares⟩) = first := by
        rw [← hformat]
        rfl
      rw [hfirst] at hrest
      refine ⟨first, hash, List.mem_cons_self, ?_⟩
      rw [merge, hrest, List.flatMap_cons, hformat]
      rfl

variable [Suite]

section Merging

variable (kind : WalletKind) (key : SigningKey) (walletKey iv : Bytes) (hash : PasswordHash)
  (rule : ShareRule)

theorem foldlM_absorb_sealed (shares others : List KeyShare) :
    (others.map (fun share => sealed kind key walletKey iv (.sharded ⟨hash, rule, [share]⟩))).foldlM
        absorb (sealed kind key walletKey iv (.sharded ⟨hash, rule, shares⟩)) =
      .ok (sealed kind key walletKey iv (.sharded ⟨hash, rule, shares ++ others⟩)) := by
  let shardOf : KeyShare -> Wallet :=
    fun share => sealed kind key walletKey iv (.sharded ⟨hash, rule, [share]⟩)
  have hcongruent : forall shard, shard ∈ others.map shardOf -> Congruent rule shard := by
    intro shard hshard
    rcases List.mem_map.mp hshard with ⟨share, _, hsame⟩
    rw [← hsame]
    exact ⟨_, rfl, rfl⟩
  have hshares : (others.map shardOf).flatMap (fun shard => shard.format.shares) = others := by
    rw [List.flatMap_map]
    exact List.flatMap_singleton' others
  have hmerged := foldlM_absorb_congruent
    (sealed kind key walletKey iv (.sharded ⟨hash, rule, shares⟩)) hash shares hcongruent
  rw [hshares] at hmerged
  exact hmerged

theorem merge_sealed {shares : List KeyShare} (hshares : shares ≠ []) :
    merge (shares.map (fun share =>
        sealed kind key walletKey iv (.sharded ⟨hash, rule, [share]⟩))) =
      .ok (sealed kind key walletKey iv (.sharded ⟨hash, rule, shares⟩)) := by
  cases shares with
  | nil =>
      exact absurd rfl hshares
  | cons share others =>
      exact foldlM_absorb_sealed kind key walletKey iv hash rule [share] others

end Merging

section Opening

variable {kind : WalletKind} {key : SigningKey} {iv secret stretched : Bytes}
  {format : ShardedFormat} {password : Password}

theorem decrypt_of_enough (hiv : iv.length = 12)
    (hstretched : format.hash.derive password = .ok stretched) (hholds : format.HoldsOf secret)
    (henough : format.rule.threshold <= format.shares.toFinset.card) :
    (sealed kind key (Suite.hmac secret stretched) iv (.sharded format)).decrypt password =
      .ok key := by
  apply decrypt_sealed (Suite.length_hmac secret stretched) hiv
  rw [KeyFormat.existingKey, ShardedFormat.recover_of_holdsOf hholds henough]
  change (format.hash.derive password).map (Suite.hmac secret) = _
  rw [hstretched]
  rfl

theorem decrypt_of_recover_error {wallet : Wallet} {fault : Fault}
    (hkind : WalletKind.ofTag wallet.kind = .ok kind)
    (hformat : wallet.format = .sharded format) (hrecover : format.recover = .error fault)
    (opener : Password) : wallet.decrypt opener = .error fault := by
  have hexisting : wallet.format.existingKey opener = .error fault := by
    rw [hformat, KeyFormat.existingKey, hrecover]
    rfl
  unfold decrypt
  rw [hkind, hexisting]
  rfl

theorem decrypt_of_few (walletKey : Bytes) (hholds : format.HoldsOf secret)
    (hfew : format.shares.toFinset.card < format.rule.threshold) :
    exists present,
      (sealed kind key walletKey iv (.sharded format)).decrypt password =
        .error (.fewShares present format.rule.threshold) := by
  rcases ShardedFormat.recover_of_few hholds hfew with ⟨present, hrecover⟩
  have hkind : WalletKind.ofTag (sealed kind key walletKey iv (.sharded format)).kind =
      .ok kind :=
    WalletKind.ofTag_eq_ok.mpr rfl
  exact ⟨present, decrypt_of_recover_error hkind rfl hrecover password⟩

end Opening

end Wallet
end WalletVault
