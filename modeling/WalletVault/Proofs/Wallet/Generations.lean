import WalletVault.Proofs.Wallet.Merging
import WalletVault.Proofs.Wallet.RoundTrip

/-!
# All generations of files

Files of the two earlier generations are assembled here field by field, since
only the third is written. The files of all six kinds are read back with the
fields they were made of, and enough of them give back the key.
-/

namespace WalletVault
namespace Wallet

variable [Suite]

/-!
# Making files
-/

/-- A file of an earlier generation: a key tag stands before the public key, before the plaintext
and before what is authenticated, and only the second generation names its password hash. -/
def legacyFile (kind : WalletKind) (key : SigningKey) (walletKey iv : Bytes)
    (format : KeyFormat) : Bytes :=
  let (encrypted, tag) := Suite.encrypt walletKey iv (0x01 :: key.toBytes)
    (0x01 :: key.publicKey)
  Bytes.ofNatLE 2 kind.tag ++
    (if kind.generation = .second then [UInt8.ofNat format.hash.selector] else []) ++
    format.block ++ [0x01] ++ key.publicKey ++ iv ++ format.hash.block ++ tag ++ encrypted

def legacyFiles (kind : WalletKind) (key : SigningKey) (password : Password)
    (hash : PasswordHash) (rule : ShareRule) : Draw (List Bytes) := do
  let stretched ← ExceptT.mk (pure (hash.derive password))
  if kind.sharded then
    let secret ← draw 32
    let shares ← KeyShare.split secret rule.count rule.threshold
    let iv ← draw 12
    pure (shares.map (fun share =>
      legacyFile kind key (Suite.hmac secret stretched) iv (.sharded ⟨hash, rule, [share]⟩)))
  else
    let iv ← draw 12
    pure [legacyFile kind key stretched iv (.basic hash)]

def currentFiles (sharded : Bool) (key : SigningKey) (password : Password)
    (hash : PasswordHash) (rule : ShareRule) (source : RandomSource) :
    Except Fault (List Bytes) :=
  if sharded then do
    let wallet ← (encrypt key password ⟨.sharded ⟨hash, rule, []⟩, source⟩).1
    let shards ← wallet.shards
    shards.mapM write
  else do
    let wallet ← (encrypt key password ⟨.basic hash, source⟩).1
    [wallet].mapM write

def filesOf (kind : WalletKind) (key : SigningKey) (password : Password) (hash : PasswordHash)
    (rule : ShareRule) (source : RandomSource) : Except Fault (List Bytes) :=
  if kind.generation = .third then currentFiles kind.sharded key password hash rule source
  else (legacyFiles kind key password hash rule source).1

omit [Suite] in
/-- Reads files and takes all their shares together. -/
def gather (files : List Bytes) : Except Fault Wallet := do
  merge (← files.mapM read)

/-!
# The files as laid out wallets
-/

theorem legacyFile_eq_fields {kind : WalletKind} (hlegacy : kind.generation ≠ .third)
    (key : SigningKey) (walletKey iv : Bytes) (format : KeyFormat) :
    legacyFile kind key walletKey iv format =
      fields kind KeyTag.current (sealed kind key walletKey iv format) := by
  rcases kind with ⟨sharded, generation⟩
  cases generation with
  | first =>
      rfl
  | second =>
      rfl
  | third =>
      exact absurd rfl hlegacy

section Files

variable (kind : WalletKind) (key : SigningKey) {password : Password} {hash : PasswordHash}
  {rule : ShareRule} {stretched secret randomness iv : Bytes} {source : RandomSource}

def wallets (hash : PasswordHash) (rule : ShareRule) (stretched iv : Bytes)
    (randomness : Bytes) (hsecret : secret.length = 32) : List Wallet :=
  if kind.sharded then
    (ShardedFormat.deal hash rule randomness hsecret).shares.map (fun share =>
      sealed kind key (Suite.hmac secret stretched) iv (.sharded ⟨hash, rule, [share]⟩))
  else [sealed kind key stretched iv (.basic hash)]

theorem length_wallets (hsecret : secret.length = 32) :
    (wallets kind key hash rule stretched iv randomness hsecret).length =
      if kind.sharded then rule.count else 1 := by
  unfold wallets
  by_cases hsharded : kind.sharded = true
  · rw [if_pos hsharded, if_pos hsharded, List.length_map]
    exact KeyShare.length_shareOut rule.count (rule.threshold - 1) randomness hsecret
  · rw [if_neg hsharded, if_neg hsharded]
    rfl

theorem getElem?_wallets (hsecret : secret.length = 32) {i : Nat} {wallet : Wallet}
    (h : (wallets kind key hash rule stretched iv randomness hsecret)[i]? = some wallet) :
    exists share, (ShardedFormat.deal hash rule randomness hsecret).shares[i]? = some share ∧
      wallet = sealed kind key
        (if kind.sharded then Suite.hmac secret stretched else stretched) iv
        (if kind.sharded then .sharded ⟨hash, rule, [share]⟩ else .basic hash) := by
  unfold wallets at h
  cases hsharded : kind.sharded with
  | true =>
      rw [hsharded, if_pos rfl, List.getElem?_map] at h
      rcases Option.map_eq_some_iff.mp h with ⟨share, hshare, hwallet⟩
      exact ⟨share, hshare, hwallet.symm⟩
  | false =>
      rw [hsharded, if_neg Bool.false_ne_true] at h
      rcases List.getElem?_eq_some_iff.mp h with ⟨hi, hwallet⟩
      have hzero : i = 0 := Nat.lt_one_iff.mp hi
      subst hzero
      have hsome : 0 < (ShardedFormat.deal hash rule randomness hsecret).shares.length := by
        have hlength := KeyShare.length_shareOut rule.count (rule.threshold - 1) randomness hsecret
        have hone := rule.one_le_threshold.trans rule.threshold_le_count
        exact hone.trans_eq hlength.symm
      exact ⟨_, List.getElem?_eq_getElem hsome, hwallet.symm⟩

theorem fits_of_mem_wallets (hsecret : secret.length = 32) (hfits : hash.Fits)
    (hfirst : kind.generation = .first -> hash.selector = 0) (hiv : iv.length = 12)
    {wallet : Wallet}
    (h : wallet ∈ wallets kind key hash rule stretched iv randomness hsecret) :
    Fits kind wallet := by
  have hselector : kind.hasSelector = false -> hash.selector = 0 := by
    intro hnone
    apply hfirst
    simpa [WalletKind.hasSelector] using hnone
  unfold wallets at h
  by_cases hsharded : kind.sharded = true
  · rw [if_pos hsharded] at h
    rcases List.mem_map.mp h with ⟨share, _, hwallet⟩
    rw [← hwallet]
    exact fits_sealed hiv hsharded.symm rfl hfits hselector
  · rw [if_neg hsharded] at h
    rw [List.mem_singleton.mp h]
    exact fits_sealed hiv (Bool.not_eq_true _ ▸ hsharded).symm trivial hfits hselector

theorem read_fields_of_mem_wallets (hsecret : secret.length = 32) (hfits : hash.Fits)
    (hfirst : kind.generation = .first -> hash.selector = 0) (hiv : iv.length = 12)
    {wallet : Wallet}
    (h : wallet ∈ wallets kind key hash rule stretched iv randomness hsecret) :
    read (fields kind KeyTag.current wallet) = .ok wallet := by
  have hwallet := fits_of_mem_wallets kind key hsecret hfits hfirst hiv h
  apply read_eq_ok.mpr
  exact ⟨kind, KeyTag.current, hwallet, fun _ => ⟨1, rfl⟩, layout_of_fits hwallet KeyTag.current⟩

theorem legacyFiles_apply (hlegacy : kind.generation ≠ .third)
    (hstretched : hash.derive password = .ok stretched)
    (hsecret : secret.length = 32) (hrandomness : randomness.length = 32 * (rule.threshold - 1))
    (hiv : iv.length = 12)
    (hsource : source.Gives (if kind.sharded then [secret, randomness, iv] else [iv])) :
    (legacyFiles kind key password hash rule source).1 =
      .ok ((wallets kind key hash rule stretched iv randomness hsecret).map
        (fields kind KeyTag.current)) := by
  unfold legacyFiles wallets
  rw [hstretched]
  by_cases hsharded : kind.sharded = true
  · simp only [hsharded, if_true] at hsource ⊢
    rcases draw_of_gives hsecret hsource with ⟨hdrawSecret, hsource⟩
    rcases draw_of_gives hrandomness hsource with ⟨hdrawShares, hsource⟩
    rcases draw_of_gives hiv hsource with ⟨hdrawIv, _⟩
    have hsplit := (KeyShare.split_eq_ok rule.one_le_threshold rule.threshold_le_count
      rule.count_le hsecret).mpr ⟨randomness, hdrawShares, rfl⟩
    rw [Computation.bind_of_ok (Computation.mk_apply _ source),
      Computation.bind_of_ok hdrawSecret, Computation.bind_of_ok hsplit,
      Computation.bind_of_ok hdrawIv, List.map_map]
    apply congrArg Except.ok
    apply List.map_congr_left
    intro share _
    exact legacyFile_eq_fields hlegacy key _ _ _
  · simp only [hsharded] at hsource ⊢
    rcases draw_of_gives hiv hsource with ⟨hdrawIv, _⟩
    rw [Computation.bind_of_ok (Computation.mk_apply _ source)]
    simp only [Bool.false_eq_true, if_false]
    rw [Computation.bind_of_ok hdrawIv]
    exact congrArg (fun file => Except.ok [file]) (legacyFile_eq_fields hlegacy key _ _ _)

theorem currentFiles_eq_ok (hcurrent : kind.generation = .third)
    (hstretched : hash.derive password = .ok stretched) (hfits : hash.Fits)
    (hsecret : secret.length = 32) (hrandomness : randomness.length = 32 * (rule.threshold - 1))
    (hiv : iv.length = 12)
    (hsource : source.Gives (if kind.sharded then [secret, randomness, iv] else [iv])) :
    currentFiles kind.sharded key password hash rule source =
      .ok ((wallets kind key hash rule stretched iv randomness hsecret).map
        (fields kind KeyTag.current)) := by
  have hwrite : forall wallet,
      wallet ∈ wallets kind key hash rule stretched iv randomness hsecret ->
        write wallet = .ok (fields kind KeyTag.current wallet) := by
    intro wallet hwallet
    have hfirst : kind.generation = .first -> hash.selector = 0 := by
      intro hfirst
      rw [hcurrent] at hfirst
      cases hfirst
    have hwalletFits := fits_of_mem_wallets kind key hsecret hfits hfirst hiv hwallet
    have hkind := WalletKind.eq_current hcurrent
    rw [← hwalletFits.isSharded_eq] at hkind
    rw [hkind] at hwalletFits ⊢
    exact write_of_fits_current hwalletFits
  rcases kind with ⟨sharded, generation⟩
  cases hcurrent
  cases sharded with
  | true =>
      rcases draw_of_gives hsecret hsource with ⟨hdrawSecret, hsource⟩
      rcases draw_of_gives hrandomness hsource with ⟨hdrawShares, hsource⟩
      rcases draw_of_gives hiv hsource with ⟨hdrawIv, _⟩
      have hrun := congrArg Prod.fst (encrypt_fresh hsecret hstretched hdrawSecret hdrawShares
        hdrawIv : encrypt key password ⟨.sharded ⟨hash, rule, []⟩, source⟩ = _)
      have hshards := shards_deal ⟨true, .third⟩ key (Suite.hmac secret stretched) iv hash rule
        randomness hsecret
      apply Computation.except_bind_eq_ok.mpr
      refine ⟨_, hrun, ?_⟩
      apply Computation.except_bind_eq_ok.mpr
      exact ⟨_, hshards, Computation.mapM_eq_ok_map hwrite⟩
  | false =>
      rcases draw_of_gives hiv hsource with ⟨hdrawIv, _⟩
      have hrun := congrArg Prod.fst (encrypt_basic hstretched hdrawIv :
        encrypt key password ⟨.basic hash, source⟩ = _)
      apply Computation.except_bind_eq_ok.mpr
      exact ⟨_, hrun, Computation.mapM_eq_ok_map hwrite⟩

theorem filesOf_eq_ok (hstretched : hash.derive password = .ok stretched) (hfits : hash.Fits)
    (hsecret : secret.length = 32) (hrandomness : randomness.length = 32 * (rule.threshold - 1))
    (hiv : iv.length = 12)
    (hsource : source.Gives (if kind.sharded then [secret, randomness, iv] else [iv])) :
    filesOf kind key password hash rule source =
      .ok ((wallets kind key hash rule stretched iv randomness hsecret).map
        (fields kind KeyTag.current)) := by
  unfold filesOf
  by_cases hcurrent : kind.generation = .third
  · rw [if_pos hcurrent]
    exact currentFiles_eq_ok kind key hcurrent hstretched hfits hsecret hrandomness hiv hsource
  · rw [if_neg hcurrent]
    exact legacyFiles_apply kind key hcurrent hstretched hsecret hrandomness hiv hsource

/-!
# Opening files
-/

omit [Suite] in
theorem gather_of_read {wallets : List Wallet} {file : Wallet -> Bytes}
    (h : forall wallet, wallet ∈ wallets -> read (file wallet) = .ok wallet) :
    gather (wallets.map file) = merge wallets := by
  have hread : (wallets.map file).mapM read = .ok wallets := by
    induction wallets with
    | nil =>
        rfl
    | cons wallet rest ih =>
        have hrest := ih (fun other hother => h other (List.mem_cons_of_mem _ hother))
        rw [List.map_cons, List.mapM_cons, h wallet List.mem_cons_self, hrest]
        rfl
  unfold gather
  rw [hread]
  rfl

theorem decrypt_gather_sharded (hsharded : kind.sharded = true) {opener : Password}
    (hopener : hash.derive opener = .ok stretched) (hfits : hash.Fits)
    (hfirst : kind.generation = .first -> hash.selector = 0)
    (hsecret : secret.length = 32) (hiv : iv.length = 12) {picked : List Bytes}
    (hpicked : forall file, file ∈ picked ->
      file ∈ (wallets kind key hash rule stretched iv randomness hsecret).map
        (fields kind KeyTag.current))
    (henough : rule.threshold <= picked.toFinset.card) :
    exists wallet, gather picked = .ok wallet ∧ wallet.decrypt opener = .ok key := by
  rcases exists_picks hpicked with ⟨opened, hopened, hall⟩
  have hgather : gather picked = merge opened := by
    rw [hopened]
    exact gather_of_read (fun wallet hwallet =>
      read_fields_of_mem_wallets kind key hsecret hfits hfirst hiv (hall wallet hwallet))
  simp only [wallets, hsharded, if_true] at hall
  rcases exists_picks hall with ⟨shares, hshares, hheld⟩
  have hcard : picked.toFinset.card <= shares.toFinset.card := by
    rw [hopened, hshares, List.map_map]
    exact card_toFinset_map_le _ shares
  have hne : shares ≠ [] := by
    intro hnone
    have hone := rule.one_le_threshold
    rw [hnone, List.toFinset_nil, Finset.card_empty] at hcard
    omega
  have hholds : (⟨hash, rule, shares⟩ : ShardedFormat).HoldsOf secret :=
    ⟨randomness, hsecret, hheld⟩
  have hmerge := merge_sealed kind key (Suite.hmac secret stretched) iv hash rule hne
  rw [hgather, hshares]
  exact ⟨_, hmerge, decrypt_of_enough hiv hopener hholds (henough.trans hcard)⟩

theorem decrypt_gather_basic (hbasic : kind.sharded = false) {opener : Password}
    (hopener : hash.derive opener = .ok stretched) (hfits : hash.Fits)
    (hfirst : kind.generation = .first -> hash.selector = 0)
    (hsecret : secret.length = 32) (hiv : iv.length = 12) {picked : List Bytes}
    (hpicked : forall file, file ∈ picked ->
      file ∈ (wallets kind key hash rule stretched iv randomness hsecret).map
        (fields kind KeyTag.current))
    (hone : picked.length = 1) :
    exists wallet, gather picked = .ok wallet ∧ wallet.decrypt opener = .ok key := by
  rcases exists_picks hpicked with ⟨opened, hopened, hall⟩
  have hgather : gather picked = merge opened := by
    rw [hopened]
    exact gather_of_read (fun wallet hwallet =>
      read_fields_of_mem_wallets kind key hsecret hfits hfirst hiv (hall wallet hwallet))
  rw [hopened, List.length_map] at hone
  rcases List.length_eq_one_iff.mp hone with ⟨wallet, hwallet⟩
  have hmem := hall wallet (by rw [hwallet]; exact List.mem_singleton_self wallet)
  simp only [wallets, hbasic, Bool.false_eq_true, if_false] at hmem
  refine ⟨wallet, by rw [hgather, hwallet]; rfl, ?_⟩
  rw [List.mem_singleton.mp hmem]
  exact decrypt_sealed (PasswordHash.length_of_derive hopener) hiv hopener

end Files

/-- The files of every kind hold what they were made of, and enough of them give back the key. -/
theorem files_open (kind : WalletKind) (key : SigningKey) {password opener : Password}
    {hash : PasswordHash} {rule : ShareRule} {stretched secret randomness iv : Bytes}
    {source : RandomSource} (hstretched : hash.derive password = .ok stretched)
    (hfits : hash.Fits) (hfirst : kind.generation = .first -> exists params, hash = .pbkdf2 params)
    (hsecret : secret.length = 32) (hrandomness : randomness.length = 32 * (rule.threshold - 1))
    (hiv : iv.length = 12)
    (hsource : source.Gives (if kind.sharded then [secret, randomness, iv] else [iv]))
    (hopener : opener.toBytes = password.toBytes) :
    exists (files : List Bytes) (shares : List KeyShare),
      filesOf kind key password hash rule source = .ok files ∧
      KeyShare.splitWith secret randomness rule.count rule.threshold = .ok shares ∧
      files.length = (if kind.sharded then rule.count else 1) ∧
      (forall (i : Nat) (file : Bytes), files[i]? = some file ->
        exists share, shares[i]? = some share ∧
        read file = .ok (sealed kind key
          (if kind.sharded then Suite.hmac secret stretched else stretched) iv
          (if kind.sharded then .sharded ⟨hash, rule, [share]⟩ else .basic hash))) ∧
      forall picked : List Bytes, (forall file, file ∈ picked -> file ∈ files) ->
        (if kind.sharded then rule.threshold <= picked.toFinset.card else picked.length = 1) ->
          exists wallet, gather picked = .ok wallet ∧ wallet.decrypt opener = .ok key := by
  have hselector : kind.generation = .first -> hash.selector = 0 := by
    intro h
    rcases hfirst h with ⟨params, hparams⟩
    rw [hparams]
    rfl
  have hopened : hash.derive opener = .ok stretched := by
    rw [hash.derive_congr hopener, hstretched]
  refine ⟨_, _, filesOf_eq_ok kind key hstretched hfits hsecret hrandomness hiv hsource,
    KeyShare.splitWith_eq_ok rule.one_le_threshold rule.threshold_le_count rule.count_le hsecret
      hrandomness, ?_, ?_, ?_⟩
  · rw [List.length_map, length_wallets]
  · intro i file hfile
    rw [List.getElem?_map] at hfile
    rcases Option.map_eq_some_iff.mp hfile with ⟨wallet, hwallet, hfields⟩
    rcases getElem?_wallets kind key hsecret hwallet with ⟨share, hshare, hsealed⟩
    have hread := read_fields_of_mem_wallets kind key hsecret hfits hselector hiv
      (List.mem_of_getElem? hwallet)
    rw [hfields, hsealed] at hread
    exact ⟨share, hshare, hread⟩
  · intro picked hpicked henough
    cases hsharded : kind.sharded with
    | true =>
        rw [hsharded, if_pos rfl] at henough
        exact decrypt_gather_sharded kind key hsharded hopened hfits hselector hsecret hiv hpicked
          henough
    | false =>
        rw [hsharded, if_neg Bool.false_ne_true] at henough
        exact decrypt_gather_basic kind key hsharded hopened hfits hselector hsecret hiv hpicked
          henough

omit [Suite] in
theorem files_open_first_sharded :
    letI : Suite := Suite.standard
    exists files : List Bytes,
      filesOf ⟨true, .first⟩ ⟨Bytes.zeros 32, rfl⟩ (.text "secret")
          (.pbkdf2 PasswordHash.blankPbkdf2) .standard (.ofBytes (Bytes.zeros 108)) = .ok files ∧
      files.length = 5 ∧
      forall picked : List Bytes, (forall file, file ∈ picked -> file ∈ files) ->
        3 <= picked.toFinset.card ->
          exists wallet, gather picked = .ok wallet ∧
            wallet.decrypt (.bytes (utf8 "secret")) = .ok ⟨Bytes.zeros 32, rfl⟩ := by
  let _ : Suite := Suite.standard
  have hsource : (RandomSource.ofBytes (Bytes.zeros 108)).Gives
      [Bytes.zeros 32, Bytes.zeros 64, Bytes.zeros 12] :=
    ⟨rfl, rfl, rfl, trivial⟩
  have hrandomness : (Bytes.zeros 64).length = 32 * (ShareRule.standard.threshold - 1) := rfl
  have hstretched : PasswordHash.derive (.text "secret") (.pbkdf2 PasswordHash.blankPbkdf2) =
      .ok (Suite.pbkdf2 (utf8 "secret") PasswordHash.blankPbkdf2.salt 1000000) :=
    rfl
  have hopener : (Password.bytes (utf8 "secret")).toBytes = (Password.text "secret").toBytes :=
    rfl
  have hopens := files_open ⟨true, .first⟩ ⟨Bytes.zeros 32, rfl⟩ hstretched (by decide)
    (fun _ => ⟨_, rfl⟩) rfl hrandomness rfl hsource hopener
  rcases hopens with ⟨files, _, hfiles, _, hlength, _, hopen⟩
  exact ⟨files, hfiles, hlength, hopen⟩

end Wallet
end WalletVault
