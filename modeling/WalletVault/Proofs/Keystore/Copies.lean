import WalletVault.Proofs.Files.Contents
import WalletVault.Proofs.Keystore.Upgrade

/-!
# Copies of wallet files

The files of a new wallet may be copied anywhere. Files that hold what was
written load as a wallet that bears the name of the key, and if that opens at
all it opens to the key.
-/

namespace WalletVault

open FileSystem

namespace Store

/-- Names by which the loader finds what was written at some paths. -/
def Copies (written fs : FileSystem) : List String -> List Path -> Prop :=
  List.Forall₂ (fun name path => Path.validateOutput (some name) = .ok () ∧
    exists data, written.readFile path = .ok data ∧ fs.readFile (Path.ofString name) = .ok data)

section Copied

variable {written fs : FileSystem} {names : List String}

theorem validateOutput_of_copies {paths : List Path} (h : Copies written fs names paths) :
    forall name, name ∈ names -> Path.validateOutput (some name) = .ok () :=
  ((List.forall₂_and_left _ _).mp h).1

theorem holds_of_copies {α : Type} {path : α -> Path} {wallet : α -> Wallet} {items : List α}
    (hread : forall item, item ∈ items -> forall data,
      written.readFile (path item) = .ok data -> Wallet.read data = .ok (wallet item))
    (h : Copies written fs names (items.map path)) : Holds fs names (items.map wallet) := by
  induction items generalizing names with
  | nil =>
      cases h
      exact .nil
  | cons item items ih =>
      rw [List.map_cons] at h
      cases h with
      | cons hfirst hrest =>
          rcases hfirst with ⟨_, data, hwritten, hfile⟩
          have hwallet := hread item List.mem_cons_self data hwritten
          exact .cons ((readWallet_of_readFile hfile).trans hwallet)
            (ih (fun other hother => hread other (List.mem_cons_of_mem item hother)) hrest)

end Copied

end Store

namespace Keystore

/-- Files that can be loaded together: the one file of a basic wallet, or any files of a sharded
one. -/
def Together (written chosen : List Path) : Option ShareRule -> Prop
  | none => chosen = written
  | some _ => chosen ≠ [] ∧ forall path, path ∈ chosen -> path ∈ written

theorem Enough.together {written chosen : List Path} {rule : Option ShareRule}
    (h : Enough written chosen rule) : Together written chosen rule := by
  cases rule with
  | none =>
      exact h
  | some rule =>
      refine ⟨?_, h.1⟩
      intro hnone
      have hone := rule.one_le_threshold
      have henough := h.2
      rw [hnone, List.toFinset_nil, Finset.card_empty] at henough
      omega

theorem load_of_copies {α : Type} {written fs : FileSystem} {names : List String}
    {path : α -> Path} {wallet : α -> Wallet} {items : List α} {merged : Wallet}
    (hitems : items ≠ [])
    (hread : forall item, item ∈ items -> forall data,
      written.readFile (path item) = .ok data -> Wallet.read data = .ok (wallet item))
    (hmerged : Wallet.merge (items.map wallet) = .ok merged)
    (h : Store.Copies written fs names (items.map path)) :
    load fs (some (names.map some)) = .ok merged := by
  have hnames : names ≠ [] := by
    intro hnone
    rw [hnone] at h
    exact hitems (List.map_eq_nil_iff.mp (List.forall₂_nil_left_iff.mp h))
  exact load_of_holds hnames (Store.validateOutput_of_copies h) (Store.holds_of_copies hread h)
    hmerged

variable [Suite]

structure Faithful (key : SigningKey) (rule : Option ShareRule) (password : Password)
    (paths : List Path) (written : FileSystem) : Prop where
  valid : password.validate "Password" = .ok ()
  loads : forall chosen names fs, Together paths chosen rule ->
    Store.Copies written fs names chosen ->
      exists wallet, load fs (some (names.map some)) = .ok wallet ∧
        wallet.publicKey = key.publicKey ∧ wallet.format.isSharded = rule.isSome ∧
        (forall found, wallet.decrypt password = .ok found -> found = key) ∧
        (Enough paths chosen rule -> wallet.decrypt password = .ok key)

section Creating

variable {keystore : Keystore} {output : Option String} {password : Password}
  {source : KeySource} {options : Options} {machine machine' : Machine} {wallet : Wallet}

theorem faithful_of_createBasic
    (hrun : keystore.createBasic output password source options machine =
      (.ok wallet, machine')) :
    exists key, Faithful key none password (keystore.targets .basic output) machine'.files := by
  rcases createBasic_eq_ok.mp hrun with ⟨_, made, path, hmake, hwriting, _⟩
  rcases make_eq_ok.mp hmake with
    ⟨rule, key, hash, _, _, bench, hrule, _, _, hpassword, hencrypt, _⟩
  cases hrule
  rcases Wallet.exists_sealed_of_encrypt_basic hencrypt with ⟨stretched, iv, hiv, _, hwallet⟩
  have hopen := Wallet.decrypt_of_encrypt hencrypt
  rcases Store.writeWallet_eq_ok.mp hwriting with ⟨hpath, data, hdata, hwritten⟩
  have hread : forall item, item ∈ [()] -> forall content,
      machine'.files.readFile path = .ok content -> Wallet.read content = .ok wallet := by
    intro _ _ content hcontent
    rw [Store.eq_of_readFile_of_writeBytes hwritten hcontent]
    rw [hwallet] at hdata ⊢
    exact Wallet.read_of_write_sealed hiv hdata
  refine ⟨key, hpassword, ?_⟩
  intro chosen names fs htogether hcopies
  have hchosen : chosen = [()].map (fun _ => path) := by
    rw [hpath]
    exact htogether
  rw [hchosen] at hcopies
  have hload := load_of_copies (List.cons_ne_nil () []) hread (rfl : _ = Except.ok wallet) hcopies
  refine ⟨wallet, hload, by rw [hwallet]; rfl, by rw [hwallet]; rfl, ?_, fun _ => hopen⟩
  intro found hfound
  rw [hopen] at hfound
  exact (Except.ok.inj hfound).symm

theorem faithful_of_createSharded {count threshold : Option Int} {paths : List Path}
    (hrun : keystore.createSharded output password count threshold source options machine =
      (.ok (wallet, paths), machine')) :
    exists rule key, keystore.ruleOf (.sharded count threshold) = .ok (some rule) ∧
      Faithful key (some rule) password (keystore.targets (.sharded count threshold) output)
        machine'.files := by
  rcases createSharded_eq_ok.mp hrun with ⟨_, made, _, hwriting, _⟩
  rcases createSharded_written hrun with
    ⟨rule, key, hash, secret, randomness, stretched, iv, _, hsecret, hrule, _, hpassword,
      hstretched, hiv, hwallet, _⟩
  have hshards : wallet.shards = .ok ((List.range rule.count).map
      (shardAt key hash rule randomness hsecret (Suite.hmac secret stretched) iv)) := by
    rw [hwallet]
    exact shards_eq_map_shardAt key hash rule randomness hsecret _ iv
  have hread : forall i, i < rule.count -> forall content,
      machine'.files.readFile ((Path.ofString (output.getD "")).shardPath i) = .ok content ->
        Wallet.read content =
          .ok (shardAt key hash rule randomness hsecret (Suite.hmac secret stretched) iv i) := by
    intro i hi content hcontent
    apply read_of_write_shardAt key hash rule randomness hsecret _ hiv
    apply Store.write_of_readFile_of_writeShards hshards hwriting _ hcontent
    rw [List.getElem?_map, List.getElem?_range hi]
    rfl
  refine ⟨rule, key, hrule, hpassword, ?_⟩
  intro chosen names fs htogether hcopies
  rw [targets, hrule] at htogether ⊢
  rcases htogether with ⟨hsome, hchosen⟩
  rcases Wallet.exists_picks hchosen with ⟨picks, hpicks, hall⟩
  have hbound : forall i, i ∈ picks -> i < rule.count :=
    fun i hi => List.mem_range.mp (hall i hi)
  have hne : picks ≠ [] := by
    intro hnone
    apply hsome
    rw [hpicks, hnone, List.map_nil]
  rw [hpicks] at hcopies ⊢
  have hload := load_of_copies hne (fun i hi => hread i (hbound i hi))
    (merge_shardAt key hash rule randomness hsecret _ hne) hcopies
  have hholds := holdsOf_picks hash rule randomness hsecret hbound
  have hcard := card_picks rule randomness hsecret (Path.ofString (output.getD "")) hbound
  have hopens := @Wallet.decrypt_of_enough _ (.current true) key iv _ _ _ password hiv hstretched
    hholds
  refine ⟨_, hload, rfl, rfl, ?_, ?_⟩
  · intro found hfound
    by_cases henough : rule.threshold <=
        (picks.map (KeyShare.shareAt (rule.threshold - 1) randomness hsecret)).toFinset.card
    · rw [hopens henough] at hfound
      exact (Except.ok.inj hfound).symm
    · rcases Wallet.decrypt_of_few _ hholds (Nat.lt_of_not_le henough) with ⟨present, hfew⟩
      rw [hfew] at hfound
      cases hfound
  · intro henough
    apply hopens
    rw [hcard]
    exact henough.2

theorem faithful_of_upgrade {inputs : Option (List (Option String))} {form : Form}
    {paths : List Path}
    (hrun : keystore.upgrade inputs password output form options machine =
      (.ok (wallet, paths), machine')) :
    exists rule key, keystore.ruleOf form = .ok rule ∧
      Faithful key rule password (keystore.targets form output) machine'.files := by
  cases form with
  | basic =>
      rcases upgrade_basic_eq_ok.mp hrun with ⟨_, _, hcreated, _⟩
      rcases faithful_of_createBasic hcreated with ⟨key, hfaithful⟩
      exact ⟨none, key, rfl, hfaithful⟩
  | sharded count threshold =>
      rcases upgrade_sharded_eq_ok.mp hrun with ⟨_, _, hcreated⟩
      rcases faithful_of_createSharded hcreated with ⟨rule, key, hrule, hfaithful⟩
      exact ⟨some rule, key, hrule, hfaithful⟩

end Creating

end Keystore
end WalletVault
