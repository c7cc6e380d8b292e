import WalletVault.Proofs.Files.Reported
import WalletVault.Proofs.Keystore.Calls
import WalletVault.Proofs.Keystore.Recovery

/-!
# Upgrades

An upgrade opens a wallet of any generation and creates one of the current
generation for the same key under the same password. What it reports as written
opens to the key again, unless a file is not where it was reported.
-/

namespace WalletVault

open FileSystem

namespace Store

theorem readWallet_toString_ofString {output : String} (hnames : (Path.ofString output).names ≠ [])
    (fs : FileSystem) : readWallet fs (Path.ofString output).toString = readWallet fs output := by
  unfold readWallet
  rw [Path.ofString_toString (Path.normal_ofString output) hnames]

end Store

namespace Keystore

variable [Suite]

/-- As many of the files that were written as open the key: a basic wallet is in one file, and of a
sharded one any files will do if as many of them differ as the threshold says. -/
def Enough (written chosen : List Path) : Option ShareRule -> Prop
  | none => chosen = written
  | some rule =>
      (forall path, path ∈ chosen -> path ∈ written) ∧ rule.threshold <= chosen.toFinset.card

/-- The files that were written are of the current generation, bear the name of the key, and open
to it. -/
structure Reopens (key : SigningKey) (rule : Option ShareRule) (password : Password)
    (written : List Path) (fs : FileSystem) : Prop where
  current : forall path, path ∈ written -> exists stored,
    Store.readWallet fs path.toString = .ok stored ∧
      WalletKind.ofTag stored.kind = .ok (.current rule.isSome) ∧
      stored.publicKey = key.publicKey
  opens : forall chosen, Enough written chosen rule ->
    loadSigningKey fs (some (chosen.map (fun path => some path.toString))) password = .ok key

/-- A file is found again at its path: it is placed there, and the loader takes the path. -/
def Findable (fs : FileSystem) (path : Path) : Prop :=
  fs.Placeable path ∧ Path.validateOutput (some path.toString) = .ok ()

section Loading

variable {fs : FileSystem} {password : Password} {key : SigningKey}

theorem validateOutput_of_loadSigningKey {input : Option String}
    (h : loadSigningKey fs (some [input]) password = .ok key) :
    Path.validateOutput input = .ok () := by
  rcases Computation.except_bind_eq_ok.mp h with ⟨_, _, h⟩
  rcases Computation.except_bind_eq_ok.mp h with ⟨_, hload, _⟩
  rcases Computation.except_bind_eq_ok.mp hload with ⟨_, hvalid, _⟩
  rcases Computation.except_bind_eq_ok.mp hvalid with ⟨_, hinput, _⟩
  exact hinput

theorem loadSigningKey_single {input : String} {wallet : Wallet}
    (hpassword : password.validate "Password" = .ok ())
    (hvisible : Path.validateOutput (some input) = .ok ())
    (hread : Store.readWallet fs input = .ok wallet) :
    loadSigningKey fs (some [some input]) password = wallet.decrypt password := by
  exact @loadSigningKey_eq_decrypt _ Unit fs (fun _ => input) (fun _ => wallet) [()] password
    wallet (List.cons_ne_nil () []) hpassword (fun _ _ => hvisible) (fun _ _ => hread) rfl

end Loading

section Creating

variable {keystore : Keystore} {output : Option String} {password : Password}
  {source : KeySource} {options : Options} {machine machine' : Machine} {wallet : Wallet}

theorem names_ne_nil_of_createBasic
    (hrun : keystore.createBasic output password source options machine =
      (.ok wallet, machine')) : (Path.ofString (output.getD "")).names ≠ [] := by
  rcases createBasic_eq_ok.mp hrun with ⟨_, _, path, _, hwriting, _⟩
  rcases Store.writeWallet_eq_ok.mp hwriting with ⟨hpath, data, _, hwritten⟩
  rw [← hpath]
  exact Store.names_ne_nil_of_writeBytes hwritten

theorem reopens_iff_of_createBasic
    (hrun : keystore.createBasic output password source options machine =
      (.ok wallet, machine')) :
    exists key, (signingKey source machine.random).1 = .ok key ∧
      wallet.publicKey = key.publicKey ∧
      (Reopens key none password (keystore.targets .basic output) machine'.files <->
        forall path, path ∈ keystore.targets .basic output -> Findable machine.files path) := by
  rcases createBasic_eq_ok.mp hrun with ⟨_, made, path, hmake, hwriting, _⟩
  rcases make_eq_ok.mp hmake with
    ⟨rule, key, hash, withKey, withHash, bench, hrule, hkey, _, hpassword, hencrypt, hmachine⟩
  cases hrule
  rw [hmachine] at hwriting
  rcases Wallet.exists_sealed_of_encrypt_basic hencrypt with ⟨stretched, iv, hiv, _, hwallet⟩
  have hopen := Wallet.decrypt_of_encrypt hencrypt
  have hpublicKey : wallet.publicKey = key.publicKey := by
    rw [hwallet]
    rfl
  have hkind : WalletKind.ofTag wallet.kind = .ok (.current false) := by
    rw [hwallet]
    exact WalletKind.ofTag_eq_ok.mpr rfl
  have hwidths : wallet.publicKey.length = 32 ∧ wallet.iv.length = 12 ∧ wallet.tag.length = 16 := by
    rw [hwallet]
    exact ⟨Suite.length_publicKey key.seed, hiv, Suite.length_tag _ _ _ _⟩
  rcases Store.writeWallet_eq_ok.mp hwriting with ⟨hpath, data, _, hwritten⟩
  subst hpath
  have hsame := Store.readWallet_toString_ofString
    (names_ne_nil_of_createBasic hrun) machine'.files
  have hread := Store.readWallet_iff_of_writeWallet hwriting
  refine ⟨key, congrArg Prod.fst hkey, hpublicKey, ?_⟩
  constructor
  · intro h target htarget
    rcases h.current target htarget with ⟨stored, hstored, _⟩
    have hvisible := validateOutput_of_loadSigningKey (h.opens _ rfl)
    rw [List.mem_singleton.mp htarget] at hstored ⊢
    rw [hsame] at hstored
    -- A file that can be read at its path is not inside a directory there.
    rcases Store.readWallet_eq_ok.mp hstored with ⟨content, hfile, _⟩
    exact ⟨Store.placeable_of_readFile hwritten hfile, hvisible⟩
  · intro hfindable
    rcases hfindable _ List.mem_cons_self with ⟨hplaceable, hvisible⟩
    have hstored := hread.mpr ⟨hplaceable, hwidths⟩
    rw [← hsame] at hstored
    constructor
    · intro target htarget
      rw [List.mem_singleton.mp htarget]
      exact ⟨wallet, hstored, hkind, hpublicKey⟩
    · intro chosen hchosen
      rw [hchosen]
      exact (loadSigningKey_single hpassword hvisible hstored).trans hopen

theorem reopens_iff_of_createSharded {count threshold : Option Int} {paths : List Path}
    (hrun : keystore.createSharded output password count threshold source options machine =
      (.ok (wallet, paths), machine')) :
    exists rule key, keystore.ruleOf (.sharded count threshold) = .ok (some rule) ∧
      (signingKey source machine.random).1 = .ok key ∧
      wallet.publicKey = key.publicKey ∧
      paths = keystore.targets (.sharded count threshold) output ∧
      (Reopens key (some rule) password paths machine'.files <->
        forall path, path ∈ paths -> Findable machine.files path) := by
  rcases createSharded_written hrun with
    ⟨rule, key, hash, secret, randomness, stretched, iv, made, hsecret, hrule, hkey, hpassword,
      hstretched, hiv, hwallet, hpaths, hmade, hkeeps, hplaced⟩
  have hnumbered := Path.eq_map_of_shardPaths hpaths
  have htargets : paths = keystore.targets (.sharded count threshold) output := by
    rw [targets, hrule]
    exact hnumbered
  have hpublicKey : wallet.publicKey = key.publicKey := by
    rw [hwallet]
    rfl
  have hplaceable : forall i, machine.files.Placeable
      ((Path.ofString (output.getD "")).shardPath i) <->
        made.isDirectory ((Path.ofString (output.getD "")).shardPath i) = false := by
    intro i
    rw [Placeable, Path.shardPath, Path.parent_child, hmade]
  refine ⟨rule, key, hrule, hkey, hpublicKey, htargets, ?_⟩
  rw [hnumbered]
  constructor
  · intro h path hpath
    rcases h.current path hpath with ⟨stored, hstored, _⟩
    rcases List.mem_map.mp hpath with ⟨i, _, hsame⟩
    rw [← hsame] at hstored ⊢
    refine ⟨(hplaceable i).mpr ?_, Path.validateOutput_shardPath _ i⟩
    rcases Store.readWallet_eq_ok.mp hstored with ⟨content, hfile, _⟩
    rw [Path.ofString_toString (Path.normal_shardPath _ i) (Path.names_shardPath_ne_nil _ i)]
      at hfile
    by_contra hdirectory
    have hafter := hkeeps.isDirectory ((Bool.not_eq_false _).mp hdirectory)
    exact Store.readFile_ne_ok_of_isDirectory hafter content hfile
  · intro hfindable
    have hfree : forall i, i < rule.count ->
        made.isDirectory ((Path.ofString (output.getD "")).shardPath i) = false := by
      intro i hi
      exact (hplaceable i).mp (hfindable _ (List.mem_map_of_mem (List.mem_range.mpr hi))).1
    rcases hplaced hfree with ⟨directory, hdone⟩
    have hrecoverable := recoverable_of_placed key hash rule randomness hsecret hiv hstretched
      hpassword hmade hdone
    constructor
    · intro path hpath
      rcases List.mem_iff_getElem?.mp hpath with ⟨i, hi⟩
      rcases List.mem_map.mp hpath with ⟨j, _, hsame⟩
      rcases hrecoverable.stored i path hi with ⟨data, _, _, hfile, hread, _⟩
      rw [← hsame] at hfile ⊢
      have hstored := Store.readWallet_toString (Path.normal_shardPath _ j)
        (Path.names_shardPath_ne_nil _ j) hfile
      rw [hread] at hstored
      exact ⟨_, hstored, WalletKind.ofTag_eq_ok.mpr rfl, rfl⟩
    · intro chosen hchosen
      exact hrecoverable.enough chosen hchosen.1 hchosen.2

end Creating

/-!
# Upgrading
-/

section Upgrading

variable {keystore : Keystore} {paths : Option (List (Option String))} {password : Password}
  {output : Option String} {form : Form} {options : Options} {machine machine' : Machine}
  {wallet : Wallet} {written : List Path}

theorem upgrade_basic_eq_ok :
    keystore.upgrade paths password output .basic options machine =
        (.ok (wallet, written), machine') <->
      exists key, loadSigningKey machine.files paths password = .ok key ∧
        keystore.createBasic output password ⟨some key, none, none⟩ options machine =
          (.ok wallet, machine') ∧
        written = keystore.targets .basic output := by
  rw [upgrade, Computation.bind_of_ok (Computation.get_apply machine), Computation.bind_eq_ok]
  constructor
  · intro h
    rcases h with ⟨key, _, hload, h⟩
    rcases Prod.mk.inj hload with ⟨hkey, hsame⟩
    rw [← hsame] at h
    rcases Computation.bind_eq_ok.mp h with ⟨_, _, hcreated, hlast⟩
    cases hlast
    exact ⟨key, hkey, hcreated, rfl⟩
  · intro h
    rcases h with ⟨key, hkey, hcreated, hwritten⟩
    rw [hwritten]
    exact ⟨key, machine, Prod.ext hkey rfl, Computation.bind_eq_ok.mpr ⟨_, _, hcreated, rfl⟩⟩

theorem upgrade_sharded_eq_ok {count threshold : Option Int} :
    keystore.upgrade paths password output (.sharded count threshold) options machine =
        (.ok (wallet, written), machine') <->
      exists key, loadSigningKey machine.files paths password = .ok key ∧
        keystore.createSharded output password count threshold ⟨some key, none, none⟩ options
          machine = (.ok (wallet, written), machine') := by
  rw [upgrade, Computation.bind_of_ok (Computation.get_apply machine), Computation.bind_eq_ok]
  constructor
  · intro h
    rcases h with ⟨key, _, hload, h⟩
    rcases Prod.mk.inj hload with ⟨hkey, hsame⟩
    rw [← hsame] at h
    exact ⟨key, hkey, h⟩
  · intro h
    rcases h with ⟨key, hkey, hcreated⟩
    exact ⟨key, machine, Prod.ext hkey rfl, hcreated⟩

/-- An upgrade that returns has kept the key, and its files open to it just in case they are found
at the paths that it reports. In a tree that is so if no path is a directory or goes up, unless the
path of a basic wallet is blank. -/
theorem upgrade_preserves_key
    (hrun : keystore.upgrade paths password output form options machine =
      (.ok (wallet, written), machine')) :
    exists key rule, loadSigningKey machine.files paths password = .ok key ∧
      keystore.ruleOf form = .ok rule ∧
      wallet.publicKey = key.publicKey ∧
      written = keystore.targets form output ∧
      (Reopens key rule password written machine'.files <->
        forall path, path ∈ written -> Findable machine.files path) ∧
      (machine.files.Tree -> forall path, path ∈ written -> ".." ∉ path.names ->
        (machine.files.Placeable path <-> machine.files.isDirectory path = false)) := by
  cases form with
  | basic =>
      rcases upgrade_basic_eq_ok.mp hrun with ⟨key, hload, hcreated, hwritten⟩
      rcases reopens_iff_of_createBasic hcreated with ⟨key', hkey, hpublicKey, hreopens⟩
      -- The source of the new wallet is the key that was loaded.
      cases hkey
      rw [hwritten]
      refine ⟨key, none, hload, rfl, hpublicKey, rfl, hreopens, ?_⟩
      intro htree path hpath hup
      rw [List.mem_singleton.mp hpath] at hup ⊢
      exact htree.placeable_iff (names_ne_nil_of_createBasic hcreated) hup
  | sharded count threshold =>
      rcases upgrade_sharded_eq_ok.mp hrun with ⟨key, hload, hcreated⟩
      rcases reopens_iff_of_createSharded hcreated with
        ⟨rule, key', hrule, hkey, hpublicKey, hwritten, hreopens⟩
      cases hkey
      refine ⟨key, some rule, hload, hrule, hpublicKey, hwritten, hreopens, ?_⟩
      intro htree path hpath hup
      rw [hwritten, targets, hrule] at hpath
      rcases List.mem_map.mp hpath with ⟨i, _, hsame⟩
      rw [← hsame] at hup ⊢
      exact htree.placeable_iff (Path.names_shardPath_ne_nil _ i) hup

end Upgrading

/-!
# Upgrades that return
-/

section Returning

variable {password : Password} {hash : PasswordHash} {stretched : Bytes} {random : RandomSource}

theorem exists_basic_file (hrandom : random.Ample) (hfits : hash.Fits)
    (hstretched : hash.derive password = .ok stretched) (key : SigningKey) :
    exists wallet data bench,
      Wallet.encrypt key password ⟨.basic hash, random⟩ = (.ok wallet, bench) ∧
        wallet.write = .ok data ∧ Wallet.read data = .ok wallet := by
  have hsealed : exists wallet bench,
      Wallet.encrypt key password ⟨.basic hash, random⟩ = (.ok wallet, bench) :=
    ⟨_, _, Wallet.encrypt_basic hstretched (draw_of_ample hrandom 12)⟩
  rcases hsealed with ⟨wallet, bench, hencrypt⟩
  rcases Wallet.exists_sealed_of_encrypt_basic hencrypt with ⟨_, _, _, _, hwallet⟩
  rcases Wallet.read_of_encrypt_basic (congrArg Prod.fst hencrypt)
    (by rw [hwallet]; exact hfits) (by rw [hwallet]; rfl) with ⟨data, hwrite, hread⟩
  exact ⟨wallet, data, bench, hencrypt, hwrite, hread⟩

theorem exists_upgrade_basic {keystore : Keystore} {output : Option String}
    (hrandom : random.Ample) (houtput : Path.validateOutput output = .ok ())
    (hpassword : password.validate "Password" = .ok ()) (hfits : hash.Fits)
    (hstretched : hash.derive password = .ok stretched) (key : SigningKey) (force : Bool) :
    exists wallet data random', wallet.write = .ok data ∧
      forall paths fs fs', loadSigningKey fs paths password = .ok key ->
        Store.writeBytes keystore.settings.ownerOnly force (Path.ofString (output.getD "")) data
            fs = (.ok (), fs') ->
          keystore.upgrade paths password output .basic ⟨.ready hash, none, force⟩ ⟨fs, random⟩ =
            (.ok (wallet, keystore.targets .basic output), ⟨fs', random'⟩) := by
  rcases exists_basic_file hrandom hfits hstretched key with
    ⟨wallet, data, bench, hencrypt, hdata, _⟩
  refine ⟨wallet, data, bench.random, hdata, ?_⟩
  intro paths fs fs' hload hwritten
  have hmade : keystore.make .basic (signingKey ⟨some key, none, none⟩)
      (keystore.buildHash (.ready hash) none) password ⟨fs, random⟩ =
        (.ok wallet, ⟨fs, bench.random⟩) :=
    make_eq_ok.mpr ⟨none, key, hash, random, random, bench, rfl, rfl, rfl, hpassword, hencrypt, rfl⟩
  have hwallet := Store.writeWallet_eq_ok.mpr
    ⟨(rfl : _ = Path.ofString (output.getD "")), data, hdata, hwritten⟩
  apply upgrade_basic_eq_ok.mpr
  refine ⟨key, hload, createBasic_eq_ok.mpr ⟨houtput, _, _, hmade, hwallet, rfl⟩, rfl⟩

end Returning

omit [Suite] in
theorem exists_upgrade_of_file (output : String)
    (houtput : Path.validateOutput (some output) = .ok ()) (force : Bool) :
    letI : Suite := Suite.standard
    let keystore : Keystore := ⟨.standard, .standard⟩
    exists old wallet data random',
      loadSigningKey (.ofEntries [(["w"], .file true old)]) (some [some "w"]) (.text "secret") =
        .ok ⟨Bytes.zeros 32, rfl⟩ ∧
      forall fs', Store.writeBytes true force (Path.ofString output) data
          (.ofEntries [(["w"], .file true old)]) = (.ok (), fs') ->
        keystore.upgrade (some [some "w"]) (.text "secret") (some output) .basic
            ⟨.ready (.pbkdf2 PasswordHash.blankPbkdf2), none, force⟩
            ⟨.ofEntries [(["w"], .file true old)], .ofPattern [1]⟩ =
          (.ok (wallet, [Path.ofString output]), ⟨fs', random'⟩) := by
  let _ : Suite := Suite.standard
  intro keystore
  have hrandom : (RandomSource.ofPattern [1]).Ample := ofPattern_ample (by decide)
  have hpassword : Password.validate "Password" (.text "secret") = .ok () := rfl
  have hfits : (PasswordHash.pbkdf2 PasswordHash.blankPbkdf2).Fits := by decide
  have hstretched : PasswordHash.derive (.text "secret") (.pbkdf2 PasswordHash.blankPbkdf2) =
      .ok (Suite.pbkdf2 (utf8 "secret") PasswordHash.blankPbkdf2.salt 1000000) := rfl
  rcases exists_basic_file hrandom hfits hstretched ⟨Bytes.zeros 32, rfl⟩ with
    ⟨stored, old, _, hencrypt, _, hread⟩
  have hfile := Store.readWallet_of_readFile
    (rfl : readFile (.ofEntries [(["w"], .file true old)]) (Path.ofString "w") = .ok old)
  have hload : loadSigningKey (.ofEntries [(["w"], .file true old)]) (some [some "w"])
      (.text "secret") = .ok ⟨Bytes.zeros 32, rfl⟩ :=
    (loadSigningKey_single hpassword rfl (hfile.trans hread)).trans
      (Wallet.decrypt_of_encrypt hencrypt)
  have hruns := @exists_upgrade_basic _ _ _ _ _ keystore _ hrandom houtput hpassword hfits
    hstretched ⟨Bytes.zeros 32, rfl⟩ force
  rcases hruns with ⟨wallet, data, random', _, hrun⟩
  exact ⟨old, wallet, data, random', hload, fun fs' hwritten => hrun _ _ fs' hload hwritten⟩

omit [Suite] in
/-- A wallet is upgraded in place. -/
theorem upgrade_preserves_key_in_place :
    letI : Suite := Suite.standard
    let keystore : Keystore := ⟨.standard, .standard⟩
    exists machine wallet machine',
      keystore.upgrade (some [some "w"]) (.text "secret") (some "w") .basic
          ⟨.ready (.pbkdf2 PasswordHash.blankPbkdf2), none, true⟩ machine =
        (.ok (wallet, [Path.ofString "w"]), machine') ∧
      Reopens ⟨Bytes.zeros 32, rfl⟩ none (.text "secret") [Path.ofString "w"]
        machine'.files := by
  let _ : Suite := Suite.standard
  intro keystore
  rcases exists_upgrade_of_file "w" rfl true with ⟨old, wallet, data, random', hload, hrun⟩
  have hwritten : Store.writeBytes true true (Path.ofString "w") data
      (.ofEntries [(["w"], .file true old)]) = (.ok (), .ofEntries [(["w"], .file true data)]) :=
    Store.writeBytes_of_isDirectory rfl rfl rfl rfl rfl rfl
  have hreturns := hrun _ hwritten
  refine ⟨_, wallet, _, hreturns, ?_⟩
  rcases upgrade_preserves_key hreturns with
    ⟨key, rule, hkey, hrule, _, _, hreopens, hplaceable⟩
  cases hrule
  cases hkey.symm.trans hload
  apply hreopens.mpr
  intro path hpath
  cases List.mem_singleton.mp hpath
  exact ⟨(hplaceable (tree_file "w" true old) _ hpath (by decide)).mpr rfl, rfl⟩

omit [Suite] in
/-- Nothing stands at the path, but the way up to it makes a directory there, which takes the file
of the wallet in. -/
theorem upgrade_misplaces_wallet :
    letI : Suite := Suite.standard
    let keystore : Keystore := ⟨.standard, .standard⟩
    exists machine wallet path machine',
      loadSigningKey machine.files (some [some "w"]) (.text "secret") =
        .ok ⟨Bytes.zeros 32, rfl⟩ ∧
      keystore.upgrade (some [some "w"]) (.text "secret") (some "b/../b") .basic
          ⟨.ready (.pbkdf2 PasswordHash.blankPbkdf2), none, false⟩ machine =
        (.ok (wallet, [path]), machine') ∧
      machine.files.look path = .ok none ∧
      loadSigningKey machine'.files (some [some path.toString]) (.text "secret") =
        .error (.file (.unread "b/../b" (.refused .isDirectory "b/../b"))) := by
  let _ : Suite := Suite.standard
  intro keystore
  rcases exists_upgrade_of_file "b/../b" rfl false with ⟨old, wallet, data, random', hload, hrun⟩
  have hmade : makeDirectories (.ofEntries [(["w"], .file true old)]) ⟨"", ["b", ".."]⟩ =
      (.ok (), .ofEntries [(["b"], .directory), (["w"], .file true old)]) := by
    have habove := makeDirectories_of_makeDirectory
      (rfl : makeDirectory (.ofEntries [(["w"], .file true old)]) ⟨"", ["b"]⟩ =
        .ok (.ofEntries [(["b"], .directory), (["w"], .file true old)]))
    exact makeDirectories_of_notFound rfl (by decide) habove rfl
  have hwritten : Store.writeBytes true false (Path.ofString "b/../b") data
      (.ofEntries [(["w"], .file true old)]) =
        (.ok (), .ofEntries [(["b", "b.temp"], .file true data), (["b"], .directory),
          (["w"], .file true old)]) := by
    apply Store.writeBytes_eq_ok.mpr
    refine ⟨none, ⟨"", ["b", "..", "b.temp"]⟩, rfl, rfl, rfl, Store.place_eq_ok.mpr ⟨rfl, ?_⟩⟩
    exact ⟨_, _, hmade, rfl, rfl⟩
  exact ⟨_, wallet, _, _, hload, hrun _ hwritten, rfl, rfl⟩

end Keystore
end WalletVault
