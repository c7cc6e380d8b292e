import WalletVault.Proofs.Wallet.Sealing

/-!
# Files and wallets of the current generation

Writing and reading undo each other: a file of the current generation is
written back as it was, a file of an earlier one has no current form, and what
encryption gives is read back from what is written of it.
-/

namespace WalletVault

theorem WalletKind.eq_current {kind : WalletKind} (h : kind.generation = .third) :
    kind = current kind.sharded := by
  rcases kind with ⟨sharded, generation⟩
  cases h
  rfl

theorem WalletKind.tag_inj {kind other : WalletKind} (h : kind.tag = other.tag) :
    kind = other := by
  have hkind := ofTag_eq_ok.mpr (rfl : (kind.tag : Int) = kind.tag)
  rw [h, ofTag_eq_ok.mpr rfl] at hkind
  cases hkind
  rfl

namespace Wallet

theorem write_of_read {data : Bytes} {wallet : Wallet} (h : read data = .ok wallet) :
    exists kind, WalletKind.ofTag wallet.kind = .ok kind ∧
      wallet.write =
        if kind.generation = .third then .ok data
        else .error (.malformed (.legacy wallet.kind)) := by
  rcases read_eq_ok.mp h with ⟨kind, keyTag, hfits, _, hlayout⟩
  refine ⟨kind, WalletKind.ofTag_eq_ok.mpr hfits.kind_eq, ?_⟩
  unfold write KeyFormat.currentTag
  rw [hfits.isSharded_eq, hfits.kind_eq]
  by_cases hthird : kind.generation = .third
  · have huntagged : kind.taggedKey = false := by
      simp [WalletKind.taggedKey, hthird]
    rw [if_pos hthird, ← WalletKind.eq_current hthird, if_pos rfl]
    rw [layout_eq_ok, fields, huntagged] at hlayout ⊢
    exact hlayout
  · have hother : (kind.tag : Int) ≠ (WalletKind.current kind.sharded).tag := by
      intro htag
      apply hthird
      rw [WalletKind.tag_inj (Int.ofNat_inj.mp htag)]
      rfl
    rw [if_neg hthird, if_neg hother]

theorem write_of_fits_current {wallet : Wallet}
    (h : Fits (.current wallet.format.isSharded) wallet) :
    wallet.write = .ok (fields (.current wallet.format.isSharded) KeyTag.current wallet) := by
  have hkind : wallet.kind = wallet.format.currentTag := h.kind_eq
  rw [write, if_pos hkind, layout_of_fits h]

theorem read_of_fits_current {wallet : Wallet}
    (h : Fits (.current wallet.format.isSharded) wallet) :
    exists data, wallet.write = .ok data ∧ read data = .ok wallet := by
  refine ⟨_, write_of_fits_current h, ?_⟩
  apply read_eq_ok.mpr
  refine ⟨_, KeyTag.current, h, ?_, layout_of_fits h KeyTag.current⟩
  intro htagged
  cases htagged

theorem Fits.withFormat {kind : WalletKind} {wallet : Wallet} (h : Fits kind wallet)
    {format : KeyFormat} (hsharded : format.isSharded = kind.sharded) (hsingle : format.Single)
    (hfits : format.hash.Fits) (hselector : kind.hasSelector = false -> format.hash.selector = 0) :
    Fits kind (wallet.withFormat format) :=
  { h with
    isSharded_eq := hsharded
    single := hsingle
    hash_fits := hfits
    selector_eq := hselector }

theorem read_of_write_sealed [Suite] {key : SigningKey} {walletKey iv data : Bytes}
    {format : KeyFormat} (hiv : iv.length = 12)
    (h : (sealed (.current format.isSharded) key walletKey iv format).write = .ok data) :
    read data = .ok (sealed (.current format.isSharded) key walletKey iv format) := by
  have hlayout : layout (.current format.isSharded) KeyTag.current
      (sealed (.current format.isSharded) key walletKey iv format) = .ok data := by
    have hkind : (sealed (.current format.isSharded) key walletKey iv format).kind =
        format.currentTag := rfl
    exact (if_pos hkind).symm.trans h
  rcases layout_eq_ok.mp hlayout with ⟨⟨hsingle, hfits⟩, _⟩
  apply read_eq_ok.mpr
  refine ⟨_, KeyTag.current, ?_, ?_, hlayout⟩
  · exact fits_sealed hiv rfl hsingle hfits (fun hfirst => by cases hfirst)
  · intro htagged
    cases htagged

section Encryption

variable [Suite] {key : SigningKey} {password : Password} {bench : KeyFormat.Bench}
  {wallet : Wallet}

theorem exists_sealed_of_encrypt (h : (encrypt key password bench).1 = .ok wallet) :
    exists walletKey iv format, iv.length = 12 ∧
      (format.isSharded = true -> format.shares ≠ []) ∧
      wallet = sealed (.current format.isSharded) key walletKey iv format := by
  have hrun : encrypt key password bench = (.ok wallet, (encrypt key password bench).2) :=
    Prod.ext h rfl
  rcases encrypt_eq_ok.mp hrun with ⟨walletKey, iv, middle, hwalletKey, hdraw, hformat, hwallet⟩
  refine ⟨walletKey, iv, _, (draw_eq_ok hdraw).1, ?_, hwallet⟩
  rw [hformat]
  exact (KeyFormat.format_of_deriveKey hwalletKey).2

theorem fits_of_encrypt (h : (encrypt key password bench).1 = .ok wallet)
    (hsingle : wallet.format.Single) (hfits : wallet.format.hash.Fits) :
    Fits (.current wallet.format.isSharded) wallet := by
  rcases exists_sealed_of_encrypt h with ⟨walletKey, iv, format, hiv, _, hwallet⟩
  cases hwallet
  exact fits_sealed hiv rfl hsingle hfits (fun hfirst => by cases hfirst)

theorem read_of_encrypt_basic (h : (encrypt key password bench).1 = .ok wallet)
    (hfits : wallet.format.hash.Fits) (hbasic : wallet.format.isSharded = false) :
    exists data, wallet.write = .ok data ∧ read data = .ok wallet := by
  have hsingle : wallet.format.Single := by
    cases hformat : wallet.format with
    | basic hash =>
        trivial
    | sharded format =>
        rw [hformat] at hbasic
        cases hbasic
  exact read_of_fits_current (fits_of_encrypt h hsingle hfits)

theorem read_of_encrypt_sharded (h : (encrypt key password bench).1 = .ok wallet)
    (hfits : wallet.format.hash.Fits) (hsharded : wallet.format.isSharded = true) :
    exists shards, wallet.shards = .ok shards ∧ shards ≠ [] ∧
      forall shard, shard ∈ shards ->
        exists data, shard.write = .ok data ∧ read data = .ok shard := by
  rcases exists_sealed_of_encrypt h with ⟨walletKey, iv, format, hiv, hshares, hwallet⟩
  cases hwallet
  cases format with
  | basic hash =>
      cases hsharded
  | sharded format =>
      refine ⟨_, rfl, ?_, ?_⟩
      · intro hnone
        apply hshares rfl
        exact List.map_eq_nil_iff.mp (List.map_eq_nil_iff.mp hnone)
      · intro shard hshard
        rcases List.mem_map.mp hshard with ⟨single, hsingle, hshard'⟩
        rcases List.mem_map.mp hsingle with ⟨share, _, hsingle'⟩
        cases hsingle'
        cases hshard'
        apply read_of_fits_current
        exact fits_sealed hiv rfl rfl hfits (fun hfirst => by cases hfirst)

end Encryption

/-- Reading and writing undo each other on the current generation, and what encryption gives is
written and read back. -/
theorem read_write_inverse [Suite] :
    (forall data wallet, read data = .ok wallet ->
      exists kind, WalletKind.ofTag wallet.kind = .ok kind ∧
        wallet.write =
          if kind.generation = .third then .ok data
          else .error (.malformed (.legacy wallet.kind))) ∧
    (forall key password bench wallet, (encrypt key password bench).1 = .ok wallet ->
      wallet.format.hash.Fits ->
        (wallet.format.isSharded = false ->
          exists data, wallet.write = .ok data ∧ read data = .ok wallet) ∧
        (wallet.format.isSharded = true ->
          exists shards, wallet.shards = .ok shards ∧ shards ≠ [] ∧
            forall shard, shard ∈ shards ->
              exists data, shard.write = .ok data ∧ read data = .ok shard)) := by
  constructor
  · intro data wallet h
    exact write_of_read h
  · intro key password bench wallet h hfits
    constructor
    · intro hbasic
      exact read_of_encrypt_basic h hfits hbasic
    · intro hsharded
      exact read_of_encrypt_sharded h hfits hsharded

theorem read_write_inverse_zero_key :
    letI : Suite := Suite.standard
    let hash : PasswordHash := .pbkdf2 PasswordHash.blankPbkdf2
    let random := RandomSource.ofPattern [1]
    (exists wallet data,
      (encrypt ⟨Bytes.zeros 32, rfl⟩ (.text "secret") ⟨.basic hash, random⟩).1 = .ok wallet ∧
        wallet.write = .ok data ∧ read data = .ok wallet) ∧
    (exists wallet shards,
      (encrypt ⟨Bytes.zeros 32, rfl⟩ (.text "secret")
          ⟨.sharded ⟨hash, .standard, []⟩, random⟩).1 = .ok wallet ∧
        wallet.shards = .ok shards ∧ shards ≠ [] ∧
        forall shard, shard ∈ shards -> exists data, shard.write = .ok data ∧
          read data = .ok shard ∧ exists kind, WalletKind.ofTag shard.kind = .ok kind ∧
            shard.write =
              if kind.generation = .third then .ok data
              else .error (.malformed (.legacy shard.kind))) := by
  let _ : Suite := Suite.standard
  intro hash random
  have hample : random.Ample := ofPattern_ample (by decide)
  have hfits : (PasswordHash.pbkdf2 PasswordHash.blankPbkdf2).Fits := by decide
  constructor
  · have hrun : encrypt ⟨Bytes.zeros 32, rfl⟩ (.text "secret") ⟨.basic hash, random⟩ = _ :=
      encrypt_basic rfl (draw_of_ample hample 12)
    have hencrypt := congrArg Prod.fst hrun
    have hsame := (read_write_inverse.2 _ _ _ _ hencrypt hfits).1 rfl
    rcases hsame with ⟨data, hwrite, hread⟩
    exact ⟨_, data, hencrypt, hwrite, hread⟩
  · have hrun : encrypt ⟨Bytes.zeros 32, rfl⟩ (.text "secret")
        ⟨.sharded ⟨hash, .standard, []⟩, random⟩ = _ :=
      encrypt_fresh (hample _ _) rfl (draw_of_ample hample 32)
        (draw_of_ample (ample_spend hample 32) _)
        (draw_of_ample (ample_spend (ample_spend hample 32) _) 12)
    have hencrypt := congrArg Prod.fst hrun
    have hsame := (read_write_inverse.2 _ _ _ _ hencrypt hfits).2 rfl
    rcases hsame with ⟨shards, hshards, hsome, hall⟩
    refine ⟨_, shards, hencrypt, hshards, hsome, ?_⟩
    intro shard hshard
    rcases hall shard hshard with ⟨data, hwrite, hread⟩
    exact ⟨data, hwrite, hread, read_write_inverse.1 data shard hread⟩

end Wallet
end WalletVault
