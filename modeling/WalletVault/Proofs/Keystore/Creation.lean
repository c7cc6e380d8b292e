import WalletVault.Keystore
import WalletVault.Proofs.Files.Numbered
import WalletVault.Proofs.Wallet.Sealing

/-!
# Runs that create shards

A run that creates a sharded wallet settles the rule, draws the key and the
hash, seals the key under a freshly split secret and writes one file for each
share. Nothing before the writing touches the files.
-/

namespace WalletVault

/-!
# Steps on a machine
-/

namespace Machine

variable {α : Type} {machine machine' : Machine} {a : α}

theorem drawing_eq_ok {action : Draw α} :
    drawing action machine = (.ok a, machine') <->
      action machine.random = (.ok a, machine'.random) ∧ machine'.files = machine.files := by
  rcases machine' with ⟨files, random⟩
  unfold drawing
  rcases action machine.random with ⟨result, random'⟩
  constructor
  · intro h
    cases h
    exact ⟨rfl, rfl⟩
  · intro h
    rcases h with ⟨hresult, hfiles⟩
    cases hresult
    cases hfiles
    rfl

theorem filing_eq_ok {action : Store.Filing α} :
    filing action machine = (.ok a, machine') <->
      action machine.files = (.ok a, machine'.files) ∧ machine'.random = machine.random := by
  rcases machine' with ⟨files, random⟩
  unfold filing
  rcases action machine.files with ⟨result, files'⟩
  constructor
  · intro h
    cases h
    exact ⟨rfl, rfl⟩
  · intro h
    rcases h with ⟨hresult, hrandom⟩
    cases hresult
    cases hrandom
    rfl

theorem working_eq_ok {format : KeyFormat} {action : KeyFormat.Working α} :
    working format action machine = (.ok a, machine') <->
      exists bench, action ⟨format, machine.random⟩ = (.ok a, bench) ∧
        machine' = ⟨machine.files, bench.random⟩ := by
  unfold working
  rcases action ⟨format, machine.random⟩ with ⟨result, bench⟩
  constructor
  · intro h
    cases h
    exact ⟨bench, rfl, rfl⟩
  · intro h
    rcases h with ⟨bench', hresult, hmachine⟩
    cases hresult
    cases hmachine
    rfl

end Machine

/-!
# Making a sharded wallet
-/

namespace Keystore

variable [Suite] {keystore : Keystore}

omit [Suite] in
theorem ruleOf_sharded_eq_ok {count threshold : Option Int} {rule : Option ShareRule}
    (h : keystore.ruleOf (.sharded count threshold) = .ok rule) :
    exists shareRule, rule = some shareRule := by
  unfold ruleOf at h
  dsimp only at h
  split at h
  · cases h
    exact ⟨_, rfl⟩
  · cases h

theorem encrypt_eq_ok {key : SigningKey} {password : Password} {bench bench' : KeyFormat.Bench}
    {wallet : Wallet} :
    encrypt key password bench = (.ok wallet, bench') <->
      password.validate "Password" = .ok () ∧
        Wallet.encrypt key password bench = (.ok wallet, bench') := by
  rw [encrypt, Computation.bind_eq_ok]
  constructor
  · intro h
    rcases h with ⟨_, _, hvalid, hsealed⟩
    rcases Prod.mk.inj hvalid with ⟨hpassword, hsame⟩
    rw [hsame]
    exact ⟨hpassword, hsealed⟩
  · intro h
    exact ⟨(), bench, Prod.ext h.1 rfl, h.2⟩

theorem make_eq_ok {form : Form} {keySource : Draw SigningKey} {hashSource : Draw PasswordHash}
    {password : Password} {machine machine' : Machine} {wallet : Wallet} :
    keystore.make form keySource hashSource password machine = (.ok wallet, machine') <->
      exists rule key hash withKey withHash bench,
        keystore.ruleOf form = .ok rule ∧
        keySource machine.random = (.ok key, withKey) ∧
        hashSource withKey = (.ok hash, withHash) ∧
        password.validate "Password" = .ok () ∧
        Wallet.encrypt key password ⟨formatOf rule hash, withHash⟩ = (.ok wallet, bench) ∧
        machine' = ⟨machine.files, bench.random⟩ := by
  rw [make, Computation.bind_eq_ok]
  constructor
  · intro h
    rcases h with ⟨rule, _, hsettled, h⟩
    rcases Prod.mk.inj hsettled with ⟨hrule, hsame⟩
    subst hsame
    rcases Computation.bind_eq_ok.mp h with ⟨key, withKey, hkey, h⟩
    rcases Computation.bind_eq_ok.mp h with ⟨hash, withHash, hhash, h⟩
    rcases Machine.drawing_eq_ok.mp hkey with ⟨hkeyDrawn, hkeyFiles⟩
    rcases Machine.drawing_eq_ok.mp hhash with ⟨hhashDrawn, hhashFiles⟩
    rcases Machine.working_eq_ok.mp h with ⟨bench, hencrypt, hmachine⟩
    rcases encrypt_eq_ok.mp hencrypt with ⟨hpassword, hsealed⟩
    rw [hhashFiles, hkeyFiles] at hmachine
    exact ⟨rule, key, hash, withKey.random, withHash.random, bench, hrule, hkeyDrawn, hhashDrawn,
      hpassword, hsealed, hmachine⟩
  · intro h
    rcases h with ⟨rule, key, hash, withKey, withHash, bench, hrule, hkey, hhash, hpassword,
      hsealed, hmachine⟩
    refine ⟨rule, machine, Prod.ext hrule rfl, ?_⟩
    apply Computation.bind_eq_ok.mpr
    refine ⟨key, ⟨machine.files, withKey⟩, Machine.drawing_eq_ok.mpr ⟨hkey, rfl⟩, ?_⟩
    apply Computation.bind_eq_ok.mpr
    refine ⟨hash, ⟨machine.files, withHash⟩, Machine.drawing_eq_ok.mpr ⟨hhash, rfl⟩, ?_⟩
    apply Machine.working_eq_ok.mpr
    exact ⟨bench, encrypt_eq_ok.mpr ⟨hpassword, hsealed⟩, hmachine⟩

theorem make_sharded_eq_ok {count threshold : Option Int} {keySource : Draw SigningKey}
    {hashSource : Draw PasswordHash} {password : Password} {machine machine' : Machine}
    {wallet : Wallet} :
    keystore.make (.sharded count threshold) keySource hashSource password machine =
        (.ok wallet, machine') <->
      exists rule key hash withKey withHash bench,
        keystore.ruleOf (.sharded count threshold) = .ok (some rule) ∧
        keySource machine.random = (.ok key, withKey) ∧
        hashSource withKey = (.ok hash, withHash) ∧
        password.validate "Password" = .ok () ∧
        Wallet.encrypt key password ⟨.sharded ⟨hash, rule, []⟩, withHash⟩ = (.ok wallet, bench) ∧
        machine' = ⟨machine.files, bench.random⟩ := by
  rw [make_eq_ok]
  constructor
  · intro h
    rcases h with ⟨settled, key, hash, withKey, withHash, bench, hrule, hmade⟩
    rcases ruleOf_sharded_eq_ok hrule with ⟨rule, hsome⟩
    rw [hsome] at hrule hmade
    exact ⟨rule, key, hash, withKey, withHash, bench, hrule, hmade⟩
  · intro h
    rcases h with ⟨rule, key, hash, withKey, withHash, bench, hrule, hmade⟩
    exact ⟨some rule, key, hash, withKey, withHash, bench, hrule, hmade⟩

theorem createBasic_eq_ok {output : Option String} {password : Password} {source : KeySource}
    {options : Options} {machine machine' : Machine} {wallet : Wallet} :
    keystore.createBasic output password source options machine = (.ok wallet, machine') <->
      Path.validateOutput output = .ok () ∧
        exists made path,
          keystore.make .basic (signingKey source)
            (keystore.buildHash options.hash options.iterations) password machine =
              (.ok wallet, made) ∧
          Store.writeWallet keystore.settings.ownerOnly options.force (output.getD "") wallet
            made.files = (.ok path, machine'.files) ∧
          machine'.random = made.random := by
  rw [createBasic, Computation.bind_eq_ok]
  constructor
  · intro h
    rcases h with ⟨_, _, hvalid, h⟩
    rcases Prod.mk.inj hvalid with ⟨houtput, hsame⟩
    subst hsame
    rcases Computation.bind_eq_ok.mp h with ⟨_, made, hmade, h⟩
    rcases Computation.bind_eq_ok.mp h with ⟨path, _, hwritten, hlast⟩
    cases hlast
    exact ⟨houtput, made, path, hmade, Machine.filing_eq_ok.mp hwritten⟩
  · intro h
    rcases h with ⟨houtput, made, path, hmade, hwritten⟩
    refine ⟨(), machine, Prod.ext houtput rfl, ?_⟩
    apply Computation.bind_eq_ok.mpr
    refine ⟨wallet, made, hmade, ?_⟩
    apply Computation.bind_eq_ok.mpr
    exact ⟨path, machine', Machine.filing_eq_ok.mpr hwritten, rfl⟩

theorem createSharded_eq_ok {output : Option String} {password : Password}
    {count threshold : Option Int} {source : KeySource} {options : Options}
    {machine machine' : Machine} {wallet : Wallet} {paths : List Path} :
    keystore.createSharded output password count threshold source options machine =
        (.ok (wallet, paths), machine') <->
      Path.validateOutput output = .ok () ∧
        exists made,
          keystore.make (.sharded count threshold) (signingKey source)
            (keystore.buildHash options.hash options.iterations) password machine =
              (.ok wallet, made) ∧
          Store.writeShards keystore.settings.ownerOnly options.force (output.getD "") wallet
            made.files = (.ok paths, machine'.files) ∧
          machine'.random = made.random := by
  rw [createSharded, Computation.bind_eq_ok]
  constructor
  · intro h
    rcases h with ⟨_, _, hvalid, h⟩
    rcases Prod.mk.inj hvalid with ⟨houtput, hsame⟩
    subst hsame
    rcases Computation.bind_eq_ok.mp h with ⟨_, made, hmade, h⟩
    rcases Computation.bind_eq_ok.mp h with ⟨_, _, hwritten, hlast⟩
    cases hlast
    exact ⟨houtput, made, hmade, Machine.filing_eq_ok.mp hwritten⟩
  · intro h
    rcases h with ⟨houtput, made, hmade, hwritten⟩
    refine ⟨(), machine, Prod.ext houtput rfl, ?_⟩
    apply Computation.bind_eq_ok.mpr
    refine ⟨wallet, made, hmade, ?_⟩
    apply Computation.bind_eq_ok.mpr
    exact ⟨paths, machine', Machine.filing_eq_ok.mpr hwritten, rfl⟩

end Keystore

/-!
# Writing the shards
-/

namespace Store

theorem writeShards_eq_ok {ownerOnly force : Bool} {output : String} {wallet : Wallet}
    {paths : List Path} {fs fs' : FileSystem} :
    writeShards ownerOnly force output wallet fs = (.ok paths, fs') <->
      exists shards, wallet.shards = .ok shards ∧
        Path.shardPaths output shards.length = .ok paths ∧
        (force = false -> existing fs paths = .ok []) ∧
        writeEach ownerOnly force (paths.zip shards) fs = (.ok (), fs') := by
  constructor
  · intro h
    rw [writeShards, Computation.bind_eq_ok] at h
    rcases h with ⟨shards, _, hshards, h⟩
    rcases Prod.mk.inj hshards with ⟨hshardsOk, hsame⟩
    subst hsame
    rcases Computation.bind_eq_ok.mp h with ⟨paths', _, hpaths, h⟩
    rcases Prod.mk.inj hpaths with ⟨hpathsOk, hsame⟩
    subst hsame
    have hwrite : (force = false -> existing fs paths' = .ok []) ∧
        (do writeEach ownerOnly force (paths'.zip shards); pure paths' :
          Filing (List Path)) fs = (.ok paths, fs') := by
      cases force with
      | true =>
          exact ⟨fun hfalse => (Bool.noConfusion hfalse), h⟩
      | false =>
          rw [if_pos (by decide), Computation.bind_apply, Computation.get_apply] at h
          dsimp only at h
          rcases hexisting : existing fs paths' with fault | taken
          · simp only [hexisting] at h
            cases h
          · cases taken with
            | nil =>
                exact ⟨fun _ => rfl, by simpa only [hexisting] using h⟩
            | cons path rest =>
                simp only [hexisting] at h
                cases h
    rcases Computation.bind_eq_ok.mp hwrite.2 with ⟨_, written, hwritten, hlast⟩
    cases hlast
    exact ⟨shards, hshardsOk, hpathsOk, hwrite.1, hwritten⟩
  · intro h
    rcases h with ⟨shards, hshards, hpaths, hfree, hwritten⟩
    exact writeShards_of_writeEach hshards hpaths hfree hwritten

end Store
end WalletVault
