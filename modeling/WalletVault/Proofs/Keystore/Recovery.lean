import WalletVault.Proofs.Keystore.Creation
import WalletVault.Proofs.Keystore.Loading
import WalletVault.Proofs.Wallet.RoundTrip

/-!
# Recovering keys from shard files

A run that creates a sharded wallet leaves one file for each share, and enough
of these files open to the key. The one thing that gets in the way is a target
that turns into a directory while its own parent is made.
-/

namespace WalletVault

open FileSystem

namespace Keystore

variable [Suite]

/-- The shares of a wallet stand in one file each, at the given paths, no other file is new, and
enough of the files open to the key. -/
structure Recoverable (wallet : Wallet) (rule : ShareRule) (key : SigningKey)
    (password : Password) (paths : List Path) (before after : FileSystem) : Prop where
  length_paths : paths.length = rule.count
  stored : forall (i : Nat) (path : Path), paths[i]? = some path ->
    exists data hash share, after.readFile path = .ok data ∧
      Wallet.read data = .ok (wallet.withFormat (.sharded ⟨hash, rule, [share]⟩)) ∧
      wallet.format.shares[i]? = some share ∧ share.index.toNat = i + 1
  only : forall location ownerOnly data,
    after.entry? location = some (.file ownerOnly data) ->
      before.entry? location = some (.file ownerOnly data) ∨
        exists path, path ∈ paths ∧ after.locate path = .ok location
  enough : forall chosen : List Path, (forall path, path ∈ chosen -> path ∈ paths) ->
    rule.threshold <= chosen.toFinset.card ->
      loadSigningKey after (some (chosen.map (fun path => some path.toString))) password = .ok key
  few : forall chosen : List Path, chosen ≠ [] -> (forall path, path ∈ chosen -> path ∈ paths) ->
    chosen.toFinset.card < rule.threshold ->
      exists present,
        loadSigningKey after (some (chosen.map (fun path => some path.toString))) password =
          .error (.fewShares present rule.threshold)

theorem Recoverable.not_isDirectory {wallet : Wallet} {rule : ShareRule} {key : SigningKey}
    {password : Password} {paths : List Path} {before made after : FileSystem}
    (h : Recoverable wallet rule key password paths before after) (hkeeps : made.Keeps after)
    {path : Path} (hpath : path ∈ paths) : made.isDirectory path = false := by
  rcases List.mem_iff_getElem?.mp hpath with ⟨i, hi⟩
  rcases h.stored i path hi with ⟨data, _, _, hfile, _⟩
  by_contra hdirectory
  have hafter := hkeeps.isDirectory ((Bool.not_eq_false _).mp hdirectory)
  exact Store.readFile_ne_ok_of_isDirectory hafter data hfile

/-!
# Shards in their places
-/

section Placed

variable {output : String} {directory : Location} {count : Nat} {shard : Nat -> Wallet}
  {before made after : FileSystem}

def numbered (output : Path) (count : Nat) (shard : Nat -> Wallet) : List (String × Wallet) :=
  (List.range count).map (fun i => (output.shardName i, shard i))

omit [Suite] in
theorem destinations_numbered (output : Path) (count : Nat) (shard : Nat -> Wallet) :
    Store.destinations output.parent (numbered output count shard) =
      ((List.range count).map output.shardPath).zip ((List.range count).map shard) := by
  unfold Store.destinations numbered
  rw [List.map_map, List.zip_map']
  rfl

omit [Suite] in
theorem writeEach_numbered_eq_ok {ownerOnly force : Bool} {output : Path} (hcount : 1 <= count)
    (h : Store.writeEach ownerOnly force
      (((List.range count).map output.shardPath).zip ((List.range count).map shard)) before =
        (.ok (), after)) :
    exists made, before.makeDirectories output.parent = (.ok (), made) ∧ made.Keeps after ∧
      ((forall i, i < count -> made.isDirectory (output.shardPath i) = false) ->
        exists directory,
          Store.Placed output.parent directory (numbered output count shard) made after) := by
  rw [← destinations_numbered] at h
  have hitems : numbered output count shard ≠ [] := by
    intro hnone
    have hlength := congrArg List.length hnone
    rw [numbered, List.length_map, List.length_range, List.length_nil] at hlength
    omega
  have hapart : Store.Apart ((numbered output count shard).map Prod.fst) := by
    rw [numbered, List.map_map]
    exact Path.apart_shardNames output count
  rcases Store.writeEach_eq_ok hitems hapart h with ⟨made, hmade, hkeeps, hplaced⟩
  refine ⟨made, hmade, hkeeps, ?_⟩
  intro hfree
  have hfreeItem : forall item, item ∈ numbered output count shard ->
      made.isDirectory (output.parent.child item.1) = false := by
    intro item hitem
    rcases List.mem_map.mp hitem with ⟨i, hi, hsame⟩
    rw [← hsame]
    exact hfree i (List.mem_range.mp hi)
  rcases hplaced hfreeItem with ⟨directory, _, hdone⟩
  exact ⟨directory, hdone⟩

omit [Suite] in
theorem readWallet_of_placed
    (hplaced : Store.Placed (Path.ofString output).parent directory
      (numbered (Path.ofString output) count shard) made after)
    (hread : forall i, i < count -> forall data, (shard i).write = .ok data ->
      Wallet.read data = .ok (shard i)) {i : Nat} (hi : i < count) :
    exists data, after.readFile ((Path.ofString output).shardPath i) = .ok data ∧
      Wallet.read data = .ok (shard i) ∧
      Store.readWallet after ((Path.ofString output).shardPath i).toString = .ok (shard i) := by
  have hitem : ((Path.ofString output).shardName i, shard i) ∈
      numbered (Path.ofString output) count shard :=
    List.mem_map.mpr ⟨i, List.mem_range.mpr hi, rfl⟩
  rcases hplaced.stored _ hitem with ⟨hnull, hlocate, ownerOnly, data, hwrite, hentry⟩
  have hfile : after.readFile ((Path.ofString output).shardPath i) = .ok data :=
    Store.readFile_of_entry? hnull (hplaced.keeps.locate hlocate) hentry
  have hwallet := hread i hi data hwrite
  refine ⟨data, hfile, hwallet, ?_⟩
  rw [Store.readWallet_toString (Path.normal_shardPath output i)
    (Path.names_shardPath_ne_nil _ i) hfile, hwallet]

theorem loadSigningKey_of_placed
    (hplaced : Store.Placed (Path.ofString output).parent directory
      (numbered (Path.ofString output) count shard) made after)
    (hread : forall i, i < count -> forall data, (shard i).write = .ok data ->
      Wallet.read data = .ok (shard i))
    {password : Password} (hpassword : password.validate "Password" = .ok ())
    {picks : List Nat} (hpicks : picks ≠ []) (hbound : forall i, i ∈ picks -> i < count)
    {merged : Wallet} (hmerged : Wallet.merge (picks.map shard) = .ok merged) :
    loadSigningKey after
        (some ((picks.map (Path.ofString output).shardPath).map (fun path => some path.toString)))
        password =
      merged.decrypt password := by
  rw [List.map_map]
  apply loadSigningKey_eq_decrypt hpicks hpassword
  · intro i _
    exact Path.validateOutput_shardPath _ i
  · intro i hi
    rcases readWallet_of_placed hplaced hread (hbound i hi) with ⟨_, _, _, hfile⟩
    exact hfile
  · exact hmerged

omit [Suite] in
theorem only_of_placed {parent : Path} {items : List (String × Wallet)}
    (hmade : before.makeDirectories parent = (.ok (), made))
    (hplaced : Store.Placed parent directory items made after)
    {location : Location} {ownerOnly : Bool} {data : Bytes}
    (hfile : after.entry? location = some (.file ownerOnly data)) :
    before.entry? location = some (.file ownerOnly data) ∨
      exists item, item ∈ items ∧ after.locate (parent.child item.1) = .ok location := by
  by_cases hitem : exists item, item ∈ items ∧ location = directory ++ [item.1]
  · rcases hitem with ⟨item, hmem, hlocation⟩
    rcases hplaced.stored item hmem with ⟨_, hlocate, _⟩
    rw [hlocation]
    exact Or.inr ⟨item, hmem, hplaced.keeps.locate hlocate⟩
  · left
    have hother : forall item, item ∈ items -> location ≠ directory ++ [item.1] :=
      fun item hmem hlocation => hitem ⟨item, hmem, hlocation⟩
    have hsettled := hplaced.settled location hother
    have hold := entry?_makeDirectories before parent location
    rw [hmade] at hold
    rw [hfile] at hsettled
    rcases hsettled with hsame | hfree
    · dsimp only at hold
      rw [← hsame] at hold
      rcases hold with hsame' | ⟨_, hdirectory⟩
      · exact hsame'.symm
      · cases hdirectory
    · cases hfree

end Placed

/-!
# The shards of one split
-/

section Dealt

variable (key : SigningKey) {stretched iv : Bytes} (hash : PasswordHash) (rule : ShareRule)
  {secret : Bytes} (randomness : Bytes) (hsecret : secret.length = 32)

def shardAt (walletKey iv : Bytes) (i : Nat) : Wallet :=
  Wallet.sealed (.current true) key walletKey iv
    (.sharded ⟨hash, rule, [KeyShare.shareAt (rule.threshold - 1) randomness hsecret i]⟩)

theorem shards_eq_map_shardAt (walletKey iv : Bytes) :
    (Wallet.sealed (.current true) key walletKey iv
        (.sharded (.deal hash rule randomness hsecret))).shards =
      .ok ((List.range rule.count).map
        (shardAt key hash rule randomness hsecret walletKey iv)) := by
  rw [Wallet.shards_deal, ShardedFormat.deal, KeyShare.shareOut_eq_map, List.map_map]
  rfl

theorem read_of_write_shardAt (walletKey : Bytes) (hiv : iv.length = 12) {i : Nat} {data : Bytes}
    (h : (shardAt key hash rule randomness hsecret walletKey iv i).write = .ok data) :
    Wallet.read data = .ok (shardAt key hash rule randomness hsecret walletKey iv i) :=
  Wallet.read_of_write_sealed hiv h

theorem merge_shardAt (walletKey : Bytes) {picks : List Nat} (hpicks : picks ≠ []) :
    Wallet.merge (picks.map (shardAt key hash rule randomness hsecret walletKey iv)) =
      .ok (Wallet.sealed (.current true) key walletKey iv (.sharded ⟨hash, rule,
        picks.map (KeyShare.shareAt (rule.threshold - 1) randomness hsecret)⟩)) := by
  have hshares : picks.map (KeyShare.shareAt (rule.threshold - 1) randomness hsecret) ≠ [] := by
    simpa using hpicks
  have hmerge := Wallet.merge_sealed (.current true) key walletKey iv hash rule hshares
  rw [List.map_map] at hmerge
  exact hmerge

omit [Suite] in
theorem holdsOf_picks {picks : List Nat} (hbound : forall i, i ∈ picks -> i < rule.count) :
    (⟨hash, rule, picks.map (KeyShare.shareAt (rule.threshold - 1) randomness hsecret)⟩ :
      ShardedFormat).HoldsOf secret := by
  refine ⟨randomness, hsecret, ?_⟩
  intro share hshare
  rcases List.mem_map.mp hshare with ⟨i, hi, hsame⟩
  exact List.mem_map.mpr ⟨i, List.mem_range.mpr (hbound i hi), hsame⟩

omit [Suite] in
theorem card_picks (output : Path) {picks : List Nat}
    (hbound : forall i, i ∈ picks -> i < rule.count) :
    (picks.map (KeyShare.shareAt (rule.threshold - 1) randomness hsecret)).toFinset.card =
      (picks.map output.shardPath).toFinset.card := by
  rw [Wallet.card_toFinset_map (fun i _ j _ h => output.shardPath_injective h)]
  apply Wallet.card_toFinset_map
  intro i hi j hj h
  exact KeyShare.shareAt_injOn rule.count_le _ randomness hsecret (hbound i hi) (hbound j hj) h

section Files

variable {output : String} {directory : Location} {password : Password}
  {before made after : FileSystem}

theorem stored_of_placed {walletKey : Bytes} (hiv : iv.length = 12)
    (hplaced : Store.Placed (Path.ofString output).parent directory
      (numbered (Path.ofString output) rule.count
        (shardAt key hash rule randomness hsecret walletKey iv)) made after)
    {i : Nat} {path : Path}
    (hpath : ((List.range rule.count).map (Path.ofString output).shardPath)[i]? = some path) :
    exists data share, after.readFile path = .ok data ∧
      Wallet.read data = .ok (Wallet.sealed (.current true) key walletKey iv
        (.sharded ⟨hash, rule, [share]⟩)) ∧
      (ShardedFormat.deal hash rule randomness hsecret).shares[i]? = some share ∧
      share.index.toNat = i + 1 := by
  rw [List.getElem?_map] at hpath
  rcases Option.map_eq_some_iff.mp hpath with ⟨j, hj, hsame⟩
  rcases List.getElem?_eq_some_iff.mp hj with ⟨hi, hij⟩
  rw [List.getElem_range] at hij
  rw [List.length_range] at hi
  rw [← hij] at hsame
  rcases readWallet_of_placed hplaced
    (fun _ _ _ => read_of_write_shardAt key hash rule randomness hsecret walletKey hiv) hi with
    ⟨data, hfile, hwallet, _⟩
  rw [hsame] at hfile
  refine ⟨data, _, hfile, hwallet, ?_,
    KeyShare.index_shareAt rule.count_le _ randomness hsecret hi⟩
  exact KeyShare.getElem?_shareOut hi (rule.threshold - 1) randomness hsecret

/-- Files in any order and with any repetitions make a wallet with the shares in them. -/
theorem loadSigningKey_of_chosen {walletKey : Bytes} (hiv : iv.length = 12)
    (hpassword : password.validate "Password" = .ok ())
    (hplaced : Store.Placed (Path.ofString output).parent directory
      (numbered (Path.ofString output) rule.count
        (shardAt key hash rule randomness hsecret walletKey iv)) made after)
    {chosen : List Path} (hsome : chosen ≠ [])
    (hchosen : forall path, path ∈ chosen ->
      path ∈ (List.range rule.count).map (Path.ofString output).shardPath) :
    exists shares,
      loadSigningKey after (some (chosen.map (fun path => some path.toString))) password =
        (Wallet.sealed (.current true) key walletKey iv
          (.sharded ⟨hash, rule, shares⟩)).decrypt password ∧
      (⟨hash, rule, shares⟩ : ShardedFormat).HoldsOf secret ∧
      shares.toFinset.card = chosen.toFinset.card := by
  rcases Wallet.exists_picks hchosen with ⟨picks, hpicks, hall⟩
  have hbound := fun i hi => List.mem_range.mp (hall i hi)
  have hne : picks ≠ [] := by
    intro hnone
    apply hsome
    rw [hpicks, hnone, List.map_nil]
  refine ⟨picks.map (KeyShare.shareAt (rule.threshold - 1) randomness hsecret), ?_,
    holdsOf_picks hash rule randomness hsecret hbound, ?_⟩
  · rw [hpicks]
    exact loadSigningKey_of_placed hplaced
      (fun _ _ _ => read_of_write_shardAt key hash rule randomness hsecret walletKey hiv)
      hpassword hne hbound (merge_shardAt key hash rule randomness hsecret walletKey hne)
  · rw [hpicks]
    exact card_picks rule randomness hsecret _ hbound

theorem recoverable_of_placed (hiv : iv.length = 12)
    (hstretched : hash.derive password = .ok stretched)
    (hpassword : password.validate "Password" = .ok ())
    (hmade : before.makeDirectories (Path.ofString output).parent = (.ok (), made))
    (hplaced : Store.Placed (Path.ofString output).parent directory
      (numbered (Path.ofString output) rule.count
        (shardAt key hash rule randomness hsecret (Suite.hmac secret stretched) iv)) made after) :
    Recoverable
      (Wallet.sealed (.current true) key (Suite.hmac secret stretched) iv
        (.sharded (.deal hash rule randomness hsecret)))
      rule key password ((List.range rule.count).map (Path.ofString output).shardPath) before
      after where
  length_paths := by
    rw [List.length_map, List.length_range]
  stored := by
    intro i path hpath
    rcases stored_of_placed key hash rule randomness hsecret hiv hplaced hpath with
      ⟨data, share, hfile, hwallet, hshare, hindex⟩
    exact ⟨data, hash, share, hfile, hwallet, hshare, hindex⟩
  only := by
    intro location ownerOnly data hfile
    rcases only_of_placed hmade hplaced hfile with hold | ⟨item, hitem, hlocate⟩
    · exact Or.inl hold
    · rcases List.mem_map.mp hitem with ⟨i, hi, hsame⟩
      rw [← hsame] at hlocate
      exact Or.inr ⟨_, List.mem_map_of_mem hi, hlocate⟩
  enough := by
    intro chosen hchosen henough
    have hsome : chosen ≠ [] := by
      intro hnone
      have hone := rule.one_le_threshold
      rw [hnone, List.toFinset_nil, Finset.card_empty] at henough
      omega
    rcases loadSigningKey_of_chosen key hash rule randomness hsecret hiv hpassword hplaced hsome
      hchosen with ⟨shares, hload, hholds, hcard⟩
    rw [hload]
    rw [← hcard] at henough
    exact Wallet.decrypt_of_enough hiv hstretched hholds henough
  few := by
    intro chosen hsome hchosen hfew
    rcases loadSigningKey_of_chosen key hash rule randomness hsecret hiv hpassword hplaced hsome
      hchosen with ⟨shares, hload, hholds, hcard⟩
    rw [hload]
    rw [← hcard] at hfew
    exact Wallet.decrypt_of_few _ hholds hfew

end Files

end Dealt

/-!
# Runs that return
-/

theorem exists_createSharded {keystore : Keystore} {output : Option String}
    {password : Password} {count threshold : Option Int} {rule : ShareRule} {hash : PasswordHash}
    {stretched : Bytes} {random : RandomSource} (hrandom : random.Ample)
    (houtput : Path.validateOutput output = .ok ())
    (hrule : keystore.ruleOf (.sharded count threshold) = .ok (some rule))
    (hpassword : password.validate "Password" = .ok ()) (hfits : hash.Fits)
    (hstretched : hash.derive password = .ok stretched) (key : SigningKey) (force : Bool) :
    exists wallet shards random', wallet.shards = .ok shards ∧ shards.length = rule.count ∧
      (forall shard, shard ∈ shards -> exists data, shard.write = .ok data) ∧
      forall paths fs fs',
        Store.writeShards keystore.settings.ownerOnly force (output.getD "") wallet fs =
            (.ok paths, fs') ->
          keystore.createSharded output password count threshold ⟨some key, none, none⟩
            ⟨.ready hash, none, force⟩ ⟨fs, random⟩ = (.ok (wallet, paths), ⟨fs', random'⟩) := by
  have hdrawSecret := draw_of_ample hrandom 32
  have hdrawShares := draw_of_ample (ample_spend hrandom 32) (32 * (rule.threshold - 1))
  have hdrawIv := draw_of_ample
    (ample_spend (ample_spend hrandom 32) (32 * (rule.threshold - 1))) 12
  have hsealed : exists wallet bench,
      Wallet.encrypt key password ⟨.sharded ⟨hash, rule, []⟩, random⟩ = (.ok wallet, bench) :=
    ⟨_, _, Wallet.encrypt_fresh (draw_eq_ok hdrawSecret).1 hstretched hdrawSecret hdrawShares
      hdrawIv⟩
  rcases hsealed with ⟨wallet, bench, hencrypt⟩
  rcases Wallet.exists_sealed_of_encrypt_fresh hencrypt with
    ⟨secret, randomness, _, iv, hsecret, hiv, _, hwallet⟩
  have hwritten := Wallet.read_of_encrypt_sharded (congrArg Prod.fst hencrypt)
    (by rw [hwallet]; exact hfits) (by rw [hwallet]; rfl)
  rcases hwritten with ⟨shards, hshards, _, hall⟩
  refine ⟨wallet, shards, bench.random, hshards, ?_, ?_, ?_⟩
  · rw [hwallet, Wallet.shards_deal] at hshards
    rw [← Except.ok.inj hshards, List.length_map]
    exact KeyShare.length_shareOut rule.count _ randomness hsecret
  · intro shard hshard
    rcases hall shard hshard with ⟨data, hdata, _⟩
    exact ⟨data, hdata⟩
  · intro paths fs fs' hwrite
    apply createSharded_eq_ok.mpr
    refine ⟨houtput, ⟨fs, bench.random⟩, ?_, hwrite, rfl⟩
    apply make_sharded_eq_ok.mpr
    exact ⟨rule, key, hash, random, random, bench, hrule, rfl, rfl, hpassword, hencrypt, rfl⟩

/-!
# Recovery from a run
-/

section Run

variable {keystore : Keystore} {output : Option String} {password : Password}
  {count threshold : Option Int} {source : KeySource} {options : Options}
  {machine machine' : Machine} {wallet : Wallet} {paths : List Path}

omit [Suite] in
theorem shardPath_not_isDirectory {fs : FileSystem} (htree : fs.Tree) {output : Path}
    (hup : ".." ∉ output.parent.names) {count i : Nat} (hi : i < count)
    (hfree : forall entry, fs.look (output.shardPath i) ≠ .ok (some entry)) :
    FileSystem.isDirectory (fs.makeDirectories (output.shardPath i).parent).2
      (output.shardPath i) = false := by
  have hapart := Path.apart_shardNames output count
  have hname := hapart.ne_up (output.shardName i)
    (List.mem_map_of_mem (List.mem_range.mpr hi))
  have hchild := htree.not_isDirectory_child hup hname hfree
  rw [Path.shardPath, Path.parent_child]
  exact hchild

theorem createSharded_written
    (hrun : keystore.createSharded output password count threshold source options machine =
      (.ok (wallet, paths), machine')) :
    exists rule key hash secret randomness stretched iv made, exists hsecret : secret.length = 32,
      keystore.ruleOf (.sharded count threshold) = .ok (some rule) ∧
      (signingKey source machine.random).1 = .ok key ∧
      password.validate "Password" = .ok () ∧ hash.derive password = .ok stretched ∧
      iv.length = 12 ∧
      wallet = Wallet.sealed (.current true) key (Suite.hmac secret stretched) iv
        (.sharded (.deal hash rule randomness hsecret)) ∧
      Path.shardPaths (output.getD "") rule.count = .ok paths ∧
      machine.files.makeDirectories (Path.ofString (output.getD "")).parent = (.ok (), made) ∧
      made.Keeps machine'.files ∧
      ((forall i, i < rule.count ->
          made.isDirectory ((Path.ofString (output.getD "")).shardPath i) = false) ->
        exists directory, Store.Placed (Path.ofString (output.getD "")).parent directory
          (numbered (Path.ofString (output.getD "")) rule.count
            (shardAt key hash rule randomness hsecret (Suite.hmac secret stretched) iv))
          made machine'.files) := by
  rcases createSharded_eq_ok.mp hrun with ⟨_, withWallet, hmake, hwriting, _⟩
  rcases make_sharded_eq_ok.mp hmake with
    ⟨rule, key, hash, withKey, withHash, bench, hrule, hkey, _, hpassword, hencrypt, hmachine⟩
  rw [hmachine] at hwriting
  rcases Wallet.exists_sealed_of_encrypt_fresh hencrypt with
    ⟨secret, randomness, stretched, iv, hsecret, hiv, hstretched, hwallet⟩
  rcases Store.writeShards_eq_ok.mp hwriting with ⟨shards, hshards, hpaths, _, hwritten⟩
  rw [hwallet, shards_eq_map_shardAt] at hshards
  have hdealt : shards = (List.range rule.count).map
      (shardAt key hash rule randomness hsecret (Suite.hmac secret stretched) iv) :=
    (Except.ok.inj hshards).symm
  have hcount := rule.one_le_threshold.trans rule.threshold_le_count
  rw [hdealt, List.length_map, List.length_range] at hpaths
  rcases Path.shardPaths_eq_ok hcount hpaths with ⟨_, hnumbered⟩
  rw [hnumbered, hdealt] at hwritten
  rcases writeEach_numbered_eq_ok hcount hwritten with ⟨made, hmade, hkeeps, hplaced⟩
  exact ⟨rule, key, hash, secret, randomness, stretched, iv, made, hsecret, hrule,
    congrArg Prod.fst hkey, hpassword, hstretched, hiv, hwallet, hpaths, hmade, hkeeps, hplaced⟩

/-- A run that returns has left the shards at the numbered paths from which the key is recovered,
just in case no target is a directory once its parent has been made. In a tree it never is if it
was free, unless the way to it goes up. -/
theorem createSharded_recoverable
    (hrun : keystore.createSharded output password count threshold source options machine =
      (.ok (wallet, paths), machine')) :
    exists rule key,
      keystore.ruleOf (.sharded count threshold) = .ok (some rule) ∧
      (signingKey source machine.random).1 = .ok key ∧
      Path.shardPaths (output.getD "") rule.count = .ok paths ∧
      (Recoverable wallet rule key password paths machine.files machine'.files <->
        forall path, path ∈ paths ->
          FileSystem.isDirectory (machine.files.makeDirectories path.parent).2 path = false) ∧
      (machine.files.Tree -> ".." ∉ (Path.ofString (output.getD "")).parent.names ->
        (forall path, path ∈ paths -> forall entry, machine.files.look path ≠ .ok (some entry)) ->
          Recoverable wallet rule key password paths machine.files machine'.files) := by
  rcases createSharded_written hrun with
    ⟨rule, key, hash, secret, randomness, stretched, iv, made, hsecret, hrule, hkey, hpassword,
      hstretched, hiv, hwallet, hpaths, hmade, hkeeps, hplaced⟩
  have hcount := rule.one_le_threshold.trans rule.threshold_le_count
  rcases Path.shardPaths_eq_ok hcount hpaths with ⟨_, hnumbered⟩
  have hparent : forall path, path ∈ paths ->
      machine.files.makeDirectories path.parent = (.ok (), made) := by
    intro path hpath
    rw [hnumbered] at hpath
    rcases List.mem_map.mp hpath with ⟨i, _, hsame⟩
    rw [← hsame, Path.shardPath, Path.parent_child]
    exact hmade
  have hrecoverable : Recoverable wallet rule key password paths machine.files machine'.files <->
      forall path, path ∈ paths ->
        FileSystem.isDirectory (machine.files.makeDirectories path.parent).2 path = false := by
    constructor
    · intro h path hpath
      rw [hparent path hpath]
      exact h.not_isDirectory hkeeps hpath
    · intro hfree
      have hplace : exists directory, Store.Placed (Path.ofString (output.getD "")).parent
          directory (numbered (Path.ofString (output.getD "")) rule.count
            (shardAt key hash rule randomness hsecret (Suite.hmac secret stretched) iv))
          made machine'.files := by
        apply hplaced
        intro i hi
        have hpath : (Path.ofString (output.getD "")).shardPath i ∈ paths := by
          rw [hnumbered]
          exact List.mem_map_of_mem (List.mem_range.mpr hi)
        have hfreePath := hfree _ hpath
        rwa [hparent _ hpath] at hfreePath
      rcases hplace with ⟨directory, hdone⟩
      rw [hwallet, hnumbered]
      exact recoverable_of_placed key hash rule randomness hsecret hiv hstretched hpassword hmade
        hdone
  refine ⟨rule, key, hrule, hkey, hpaths, hrecoverable, ?_⟩
  intro htree hup hfree
  apply hrecoverable.mpr
  intro path hpath
  have hlook := hfree path hpath
  rw [hnumbered] at hpath
  rcases List.mem_map.mp hpath with ⟨i, hi, hsame⟩
  rw [← hsame] at hlook ⊢
  exact shardPath_not_isDirectory htree hup (List.mem_range.mp hi) hlook

end Run

omit [Suite] in
theorem createSharded_recoverable_two_of_two :
    letI : Suite := Suite.standard
    let keystore : Keystore := ⟨.standard, .standard⟩
    let machine : Machine := ⟨.ofEntries [], .ofPattern [1]⟩
    exists wallet paths machine',
      keystore.createSharded (some "w") (.text "secret") (some 2) (some 2)
          ⟨some ⟨Bytes.zeros 32, rfl⟩, none, none⟩
          ⟨.ready (.pbkdf2 PasswordHash.blankPbkdf2), none, false⟩ machine =
        (.ok (wallet, paths), machine') ∧
      Recoverable wallet ⟨2, 2, by decide, by decide, by decide⟩ ⟨Bytes.zeros 32, rfl⟩
        (.text "secret") paths machine.files machine'.files := by
  let _ : Suite := Suite.standard
  intro keystore machine
  have hrandom : machine.random.Ample := ofPattern_ample (by decide)
  have houtput : Path.validateOutput (some "w") = .ok () := rfl
  have hrule : keystore.ruleOf (.sharded (some 2) (some 2)) =
      .ok (some ⟨2, 2, by decide, by decide, by decide⟩) := rfl
  have hstretched : PasswordHash.derive (.text "secret") (.pbkdf2 PasswordHash.blankPbkdf2) =
      .ok (Suite.pbkdf2 (utf8 "secret") PasswordHash.blankPbkdf2.salt 1000000) := rfl
  have hruns := exists_createSharded hrandom houtput hrule rfl (by decide) hstretched
    ⟨Bytes.zeros 32, rfl⟩ false
  rcases hruns with ⟨wallet, shards, random', hshards, hlength, hall, hrun⟩
  rcases List.length_eq_two.mp hlength with ⟨first, second, hpair⟩
  rcases hall first (by rw [hpair]; simp) with ⟨data, hdata⟩
  rcases hall second (by rw [hpair]; simp) with ⟨data', hdata'⟩
  have hfirst : Store.writeBytes true false ⟨"", ["w.1"]⟩ data (.ofEntries []) =
      (.ok (), .ofEntries [(["w.1"], .file true data)]) := by
    apply Store.writeBytes_eq_ok.mpr
    refine ⟨none, ⟨"", ["w.1.temp"]⟩, rfl, rfl, rfl, Store.place_eq_ok.mpr ⟨rfl, ?_⟩⟩
    exact ⟨_, _, makeDirectories_of_isDirectory rfl, rfl, rfl⟩
  have hsecond : Store.writeBytes true false ⟨"", ["w.2"]⟩ data'
      (.ofEntries [(["w.1"], .file true data)]) =
        (.ok (), .ofEntries [(["w.2"], .file true data'), (["w.1"], .file true data)]) := by
    apply Store.writeBytes_eq_ok.mpr
    refine ⟨none, ⟨"", ["w.2.temp"]⟩, rfl, rfl, rfl, Store.place_eq_ok.mpr ⟨rfl, ?_⟩⟩
    exact ⟨_, _, makeDirectories_of_isDirectory rfl, rfl, rfl⟩
  have hwrite : Store.writeShards true false "w" wallet (.ofEntries []) =
      (.ok [⟨"", ["w.1"]⟩, ⟨"", ["w.2"]⟩],
        .ofEntries [(["w.2"], .file true data'), (["w.1"], .file true data)]) := by
    apply Store.writeShards_eq_ok.mpr
    refine ⟨shards, hshards, by rw [hlength]; rfl, fun _ => rfl, ?_⟩
    rw [hpair]
    exact Store.writeEach_cons_eq_ok.mpr ⟨data, _, hdata, hfirst,
      Store.writeEach_cons_eq_ok.mpr ⟨data', _, hdata', hsecond, rfl⟩⟩
  have hreturns := hrun _ _ _ hwrite
  rcases createSharded_recoverable hreturns with ⟨rule, key, hsettled, hkey, _, _, hrecoverable⟩
  rw [hrule] at hsettled
  cases hsettled
  cases hkey
  refine ⟨wallet, _, _, hreturns, hrecoverable ?_ (by decide) ?_⟩
  · exact tree_empty rfl
  · intro path hpath entry hlook
    rcases List.mem_cons.mp hpath with hsame | hpath
    · rw [hsame] at hlook
      cases hlook
    · rw [List.mem_singleton.mp hpath] at hlook
      cases hlook

omit [Suite] in
/-- On the way up from a directory that has yet to be made, the directory takes the name of the
shard, and the shard goes into it. -/
theorem createSharded_misplaces_shard :
    letI : Suite := Suite.standard
    let keystore : Keystore := ⟨.standard, .standard⟩
    let machine : Machine := ⟨.ofEntries [], .ofPattern [1]⟩
    exists wallet path machine',
      keystore.createSharded (some "a.1/../a") (.text "secret") (some 1) (some 1)
          ⟨some ⟨Bytes.zeros 32, rfl⟩, none, none⟩
          ⟨.ready (.pbkdf2 PasswordHash.blankPbkdf2), none, false⟩ machine =
        (.ok (wallet, [path]), machine') ∧
      machine.files.look path = .ok none ∧
      loadSigningKey machine'.files (some [some path.toString]) (.text "secret") =
        .error (.file (.unread "a.1/../a.1" (.refused .isDirectory "a.1/../a.1"))) := by
  let _ : Suite := Suite.standard
  intro keystore machine
  have hrandom : machine.random.Ample := ofPattern_ample (by decide)
  have houtput : Path.validateOutput (some "a.1/../a") = .ok () := rfl
  have hrule : keystore.ruleOf (.sharded (some 1) (some 1)) =
      .ok (some ⟨1, 1, by decide, by decide, by decide⟩) := rfl
  have hstretched : PasswordHash.derive (.text "secret") (.pbkdf2 PasswordHash.blankPbkdf2) =
      .ok (Suite.pbkdf2 (utf8 "secret") PasswordHash.blankPbkdf2.salt 1000000) := rfl
  have hruns := exists_createSharded hrandom houtput hrule rfl (by decide) hstretched
    ⟨Bytes.zeros 32, rfl⟩ false
  rcases hruns with ⟨wallet, shards, random', hshards, hlength, hall, hrun⟩
  rcases List.length_eq_one_iff.mp hlength with ⟨shard, hshard⟩
  rcases hall shard (by rw [hshard]; simp) with ⟨data, hdata⟩
  have hmade : FileSystem.makeDirectories (.ofEntries []) ⟨"", ["a.1", ".."]⟩ =
      (.ok (), .ofEntries [(["a.1"], .directory)]) := by
    have habove := makeDirectories_of_makeDirectory
      (rfl : makeDirectory (.ofEntries []) ⟨"", ["a.1"]⟩ = .ok (.ofEntries [(["a.1"], .directory)]))
    exact makeDirectories_of_notFound rfl (by decide) habove rfl
  have hmisplaced : Store.writeBytes true false ⟨"", ["a.1", "..", "a.1"]⟩ data (.ofEntries []) =
      (.ok (), .ofEntries [(["a.1", "a.1.temp"], .file true data), (["a.1"], .directory)]) := by
    apply Store.writeBytes_eq_ok.mpr
    refine ⟨none, ⟨"", ["a.1", "..", "a.1.temp"]⟩, rfl, rfl, rfl,
      Store.place_eq_ok.mpr ⟨rfl, ?_⟩⟩
    exact ⟨_, _, hmade, rfl, rfl⟩
  have hwrite : Store.writeShards true false "a.1/../a" wallet (.ofEntries []) =
      (.ok [⟨"", ["a.1", "..", "a.1"]⟩],
        .ofEntries [(["a.1", "a.1.temp"], .file true data), (["a.1"], .directory)]) := by
    apply Store.writeShards_eq_ok.mpr
    refine ⟨shards, hshards, by rw [hlength]; rfl, fun _ => rfl, ?_⟩
    rw [hshard]
    exact Store.writeEach_cons_eq_ok.mpr ⟨data, _, hdata, hmisplaced, rfl⟩
  exact ⟨wallet, _, _, hrun _ _ _ hwrite, rfl, rfl⟩

end Keystore
end WalletVault
