import WalletVault.Keystore
import WalletVault.Proofs.Files.Paths
import WalletVault.Proofs.Wallet.Merging

/-!
# Loading several files

Files that can all be read are merged in the order in which they are named.
-/

namespace WalletVault

namespace Store

open FileSystem

theorem readWallet_toString {fs : FileSystem} {path : Path} (hnormal : path.Normal)
    (hnames : path.names ≠ []) {data : Bytes} (hfile : fs.readFile path = .ok data) :
    readWallet fs path.toString = Wallet.read data := by
  unfold readWallet
  dsimp only
  rw [Path.ofString_toString hnormal hnames, hfile]

theorem readFile_ne_ok_of_isDirectory {fs : FileSystem} {path : Path}
    (h : fs.isDirectory path = true) (data : Bytes) : fs.readFile path ≠ .ok data := by
  rcases isDirectory_iff.mp h with ⟨hnull, location, hlocate, hentry⟩
  unfold readFile
  rw [hnull, if_neg Bool.false_ne_true, hlocate]
  dsimp only
  rw [hentry]
  intro hread
  cases hread

theorem readFile_of_entry? {fs : FileSystem} {path : Path} {location : Location}
    {ownerOnly : Bool} {data : Bytes} (hnull : hasNull path = false)
    (hlocate : fs.locate path = .ok location)
    (hentry : fs.entry? location = some (.file ownerOnly data)) :
    fs.readFile path = .ok data := by
  unfold readFile
  rw [hnull, if_neg Bool.false_ne_true, hlocate]
  dsimp only
  rw [hentry]

theorem readWallet_of_readFile {fs : FileSystem} {input : String} {data : Bytes}
    (hfile : fs.readFile (Path.ofString input) = .ok data) :
    readWallet fs input = Wallet.read data := by
  unfold readWallet
  dsimp only
  rw [hfile]

def Holds (fs : FileSystem) : List String -> List Wallet -> Prop :=
  List.Forall₂ (fun input wallet => readWallet fs input = .ok wallet)

section Loading

variable {fs : FileSystem} {inputs : List String} {merged : Wallet}

theorem exists_readWallet_of_holds {wallets : List Wallet} (hholds : Holds fs inputs wallets)
    {wallet : Wallet} (hwallet : wallet ∈ wallets) :
    exists input, input ∈ inputs ∧ readWallet fs input = .ok wallet := by
  induction hholds with
  | nil =>
      cases hwallet
  | cons hfirst _ ih =>
      rcases List.mem_cons.mp hwallet with hsame | hrest
      · rw [hsame]
        exact ⟨_, List.mem_cons_self, hfirst⟩
      · rcases ih hrest with ⟨input, hinput, hread⟩
        exact ⟨input, List.mem_cons_of_mem _ hinput, hread⟩

theorem readWallet_eq_ok {input : String} {wallet : Wallet} :
    readWallet fs input = .ok wallet <->
      exists data, fs.readFile (Path.ofString input) = .ok data ∧
        Wallet.read data = .ok wallet := by
  constructor
  · intro h
    unfold readWallet at h
    dsimp only at h
    split at h
    · cases h
    · cases h
    · rename_i data hfile
      exact ⟨data, hfile, h⟩
  · intro h
    rcases h with ⟨data, hfile, hread⟩
    rw [readWallet_of_readFile hfile, hread]

theorem absorbFiles_eq_ok {wallet : Wallet} :
    absorbFiles fs wallet inputs = .ok merged <->
      exists shards, Holds fs inputs shards ∧ shards.foldlM Wallet.absorb wallet = .ok merged := by
  induction inputs generalizing wallet with
  | nil =>
      constructor
      · intro h
        exact ⟨[], .nil, h⟩
      · intro h
        rcases h with ⟨_, hholds, h⟩
        cases hholds
        exact h
  | cons input inputs ih =>
      constructor
      · intro h
        rw [absorbFiles] at h
        split at h
        · cases h
        · rename_i shard hshard
          split at h
          · cases h
          · rename_i next hnext
            rcases ih.mp h with ⟨shards, hholds, hrest⟩
            refine ⟨shard :: shards, .cons hshard hholds, ?_⟩
            rw [List.foldlM_cons, hnext]
            exact hrest
      · intro h
        rcases h with ⟨_, hholds, h⟩
        cases hholds with
        | cons hshard hrest =>
            rw [List.foldlM_cons] at h
            rcases Computation.except_bind_eq_ok.mp h with ⟨next, hnext, h⟩
            rw [absorbFiles, hshard]
            dsimp only
            rw [hnext]
            exact ih.mpr ⟨_, hrest, h⟩

theorem loadWallet_eq_ok :
    loadWallet fs inputs = .ok merged <->
      exists wallets, Holds fs inputs wallets ∧ Wallet.merge wallets = .ok merged := by
  cases inputs with
  | nil =>
      constructor
      · intro h
        cases h
      · intro h
        rcases h with ⟨_, hholds, h⟩
        cases hholds
        cases h
  | cons input inputs =>
      constructor
      · intro h
        rw [loadWallet] at h
        split at h
        · cases h
        · rename_i wallet hwallet
          rcases absorbFiles_eq_ok.mp h with ⟨shards, hholds, hmerged⟩
          exact ⟨wallet :: shards, .cons hwallet hholds, hmerged⟩
      · intro h
        rcases h with ⟨_, hholds, h⟩
        cases hholds with
        | cons hwallet hrest =>
            rw [loadWallet, hwallet]
            exact absorbFiles_eq_ok.mpr ⟨_, hrest, h⟩

end Loading

end Store

namespace Path

theorem forM_validateOutput_eq_ok {paths : List (Option String)}
    (h : forall path, path ∈ paths -> validateOutput path = .ok ()) :
    paths.forM validateOutput = .ok () := by
  induction paths with
  | nil =>
      rfl
  | cons path rest ih =>
      have hrest := ih (fun other hother => h other (List.mem_cons_of_mem path hother))
      change (validateOutput path >>= fun _ => rest.forM validateOutput) = .ok ()
      rw [h path List.mem_cons_self]
      exact hrest

theorem validateInputs_eq_ok {paths : List (Option String)} (hpaths : paths ≠ [])
    (h : forall path, path ∈ paths -> validateOutput path = .ok ()) :
    validateInputs (some paths) = .ok () := by
  cases paths with
  | nil =>
      exact absurd rfl hpaths
  | cons path rest =>
      exact forM_validateOutput_eq_ok h

end Path

namespace Keystore

theorem load_of_holds {fs : FileSystem} {names : List String} {wallets : List Wallet}
    {merged : Wallet} (hnames : names ≠ [])
    (hvisible : forall name, name ∈ names -> Path.validateOutput (some name) = .ok ())
    (hholds : Store.Holds fs names wallets) (hmerged : Wallet.merge wallets = .ok merged) :
    load fs (some (names.map some)) = .ok merged := by
  have hvalid : Path.validateInputs (some (names.map some)) = .ok () := by
    apply Path.validateInputs_eq_ok
    · simpa using hnames
    · intro path hpath
      rcases List.mem_map.mp hpath with ⟨name, hname, hsame⟩
      rw [← hsame]
      exact hvisible name hname
  have hgiven : ((some (names.map some)).getD []).filterMap id = names := by
    simp
  unfold load
  rw [hvalid, hgiven]
  exact Store.loadWallet_eq_ok.mpr ⟨wallets, hholds, hmerged⟩

variable [Suite]

theorem loadSigningKey_of_load {fs : FileSystem} {paths : Option (List (Option String))}
    {password : Password} {wallet : Wallet} (hpassword : password.validate "Password" = .ok ())
    (hload : load fs paths = .ok wallet) :
    loadSigningKey fs paths password = wallet.decrypt password := by
  unfold loadSigningKey
  rw [hpassword, hload]
  rfl

theorem loadSigningKey_eq_decrypt {α : Type} {fs : FileSystem} {input : α -> String}
    {wallet : α -> Wallet} {items : List α} {password : Password} {merged : Wallet}
    (hitems : items ≠ []) (hpassword : password.validate "Password" = .ok ())
    (hvisible : forall item, item ∈ items -> Path.validateOutput (some (input item)) = .ok ())
    (hread : forall item, item ∈ items -> Store.readWallet fs (input item) = .ok (wallet item))
    (hmerged : Wallet.merge (items.map wallet) = .ok merged) :
    loadSigningKey fs (some (items.map (fun item => some (input item)))) password =
      merged.decrypt password := by
  have hholds : Store.Holds fs (items.map input) (items.map wallet) :=
    List.forall₂_map_left_iff.mpr (List.forall₂_map_right_iff.mpr (List.forall₂_same.mpr hread))
  have hload : load fs (some ((items.map input).map some)) = .ok merged := by
    refine load_of_holds ?_ ?_ hholds hmerged
    · simpa using hitems
    · intro name hname
      rcases List.mem_map.mp hname with ⟨item, hitem, hsame⟩
      rw [← hsame]
      exact hvisible item hitem
  rw [List.map_map] at hload
  exact loadSigningKey_of_load hpassword hload

end Keystore
end WalletVault
