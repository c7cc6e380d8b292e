import WalletVault.Proofs.Keystore.Loading
import WalletVault.Proofs.Wallet.Opening

/-!
# Files of unknown origin

Whatever stands in the given files, they open or are refused for one of a few
reasons. The reader fixes the sizes that the cipher asks for, and absorbing
shards leaves them as they are; a share rule that was read has a proper
threshold. Only a password whose text cannot be encoded gets past all this: it
is found out where nothing expects it.
-/

namespace WalletVault

open WalletVault.Computation

namespace Wallet

theorem exists_withFormat_of_merge {wallets : List Wallet} {merged : Wallet}
    (h : merge wallets = .ok merged) :
    exists first, first ∈ wallets ∧ merged = first.withFormat merged.format := by
  cases wallets with
  | nil =>
      cases h
  | cons first rest =>
      exact ⟨first, List.mem_cons_self, withFormat_of_foldlM_absorb h⟩

theorem isSharded_of_absorb {wallet shard merged : Wallet} (h : wallet.absorb shard = .ok merged) :
    merged.format.isSharded = true := by
  rcases absorb_eq_ok.mp h with ⟨_, _, _, _, _, hmerged⟩
  rw [hmerged]
  rfl

end Wallet

namespace Store

variable {fs : FileSystem} {files : List (String × Bytes)} {mixed : Prop}

theorem ofOpening_unabsorbed {fault : Fault} (input : String) (h : fault.OfOpening mixed) :
    (unabsorbed input fault).OfOpening mixed := by
  have hfurther := Fault.OfOpening.unabsorbed input h
  cases h with
  | _ => exact hfurther

/-- Only the first file can bring a wallet that is not sharded to those that follow; from then on
the wallet is sharded. -/
theorem failsWith_absorbFiles
    (hread : forall file, file ∈ files -> fs.readFile (Path.ofString file.1) = .ok file.2)
    {wallet : Wallet} (hwallet : files ≠ [] -> wallet.format.isSharded = false -> mixed)
    (hshards : forall file, file ∈ files -> forall shard, Wallet.read file.2 = .ok shard ->
      shard.format.isSharded = false -> mixed) :
    FailsWith (Fault.OfOpening mixed) (absorbFiles fs wallet (files.map Prod.fst)) := by
  induction files generalizing wallet with
  | nil =>
      exact failsWith_ok wallet
  | cons file files ih =>
      have hshard := hshards file List.mem_cons_self
      rw [List.map_cons, absorbFiles, readWallet_of_readFile (hread file List.mem_cons_self)]
      rcases hfile : Wallet.read file.2 with fault | shard
      · have hfault := Wallet.read_refuses file.2
        rw [hfile] at hfault
        have hopening : fault.OfOpening mixed := failsWith_of_refuses hfault fault rfl
        exact failsWith_error (ofOpening_unabsorbed file.1 hopening)
      have habsorb := Wallet.failsWith_absorb (hwallet (List.cons_ne_nil file files))
        (hshard shard hfile)
      dsimp only
      rcases hmerged : wallet.absorb shard with fault | merged
      · exact failsWith_error (ofOpening_unabsorbed file.1 (habsorb fault hmerged))
      dsimp only
      apply ih (fun other hother => hread other (List.mem_cons_of_mem file hother))
      · intro _ hbasic
        rw [Wallet.isSharded_of_absorb hmerged] at hbasic
        cases hbasic
      · exact fun other hother => hshards other (List.mem_cons_of_mem file hother)

def BasicAmong (files : List (String × Bytes)) : Prop :=
  2 <= files.length ∧ exists file, file ∈ files ∧
    exists wallet, Wallet.read file.2 = .ok wallet ∧ wallet.format.isSharded = false

theorem failsWith_loadWallet (hfiles : files ≠ [])
    (hread : forall file, file ∈ files -> fs.readFile (Path.ofString file.1) = .ok file.2) :
    FailsWith (Fault.OfOpening (BasicAmong files)) (loadWallet fs (files.map Prod.fst)) := by
  cases files with
  | nil =>
      exact absurd rfl hfiles
  | cons file files =>
      rw [List.map_cons, loadWallet, readWallet_of_readFile (hread file List.mem_cons_self)]
      rcases hfile : Wallet.read file.2 with fault | wallet
      · have hfault := Wallet.read_refuses file.2
        rw [hfile] at hfault
        exact failsWith_of_refuses hfault
      dsimp only
      apply failsWith_absorbFiles
        (fun other hother => hread other (List.mem_cons_of_mem file hother))
      · intro hrest hbasic
        have hlength := List.length_pos_iff.mpr hrest
        exact ⟨Nat.succ_le_succ hlength, file, List.mem_cons_self, wallet, hfile, hbasic⟩
      · intro other hother shard hshard hbasic
        have hlength := List.length_pos_of_mem hother
        exact ⟨Nat.succ_le_succ hlength, other, List.mem_cons_of_mem file hother, shard, hshard,
          hbasic⟩

theorem exists_fits_of_loadWallet {inputs : List String} {loaded : Wallet}
    (h : loadWallet fs inputs = .ok loaded) :
    exists kind first, Wallet.Fits kind first ∧ loaded = first.withFormat loaded.format := by
  rcases loadWallet_eq_ok.mp h with ⟨wallets, hholds, hmerged⟩
  rcases Wallet.exists_withFormat_of_merge hmerged with ⟨first, hfirst, hsame⟩
  rcases exists_readWallet_of_holds hholds hfirst with ⟨_, _, hwallet⟩
  rcases readWallet_eq_ok.mp hwallet with ⟨_, _, hdata⟩
  rcases Wallet.read_eq_ok.mp hdata with ⟨kind, _, hfits, _, _⟩
  exact ⟨kind, first, hfits, hsame⟩

theorem length_iv_of_loadWallet {inputs : List String} {loaded : Wallet}
    (h : loadWallet fs inputs = .ok loaded) : loaded.iv.length = 12 := by
  rcases exists_fits_of_loadWallet h with ⟨_, _, hfits, hsame⟩
  rw [hsame]
  exact hfits.length_iv

theorem exists_kind_of_loadWallet {inputs : List String} {loaded : Wallet}
    (h : loadWallet fs inputs = .ok loaded) :
    exists kind, WalletKind.ofTag loaded.kind = .ok kind := by
  rcases exists_fits_of_loadWallet h with ⟨kind, _, hfits, hsame⟩
  rw [hsame]
  exact ⟨kind, WalletKind.ofTag_eq_ok.mpr hfits.kind_eq⟩

theorem failsWith_loadWallet_decrypt [Suite] (hfiles : files ≠ [])
    (hread : forall file, file ∈ files -> fs.readFile (Path.ofString file.1) = .ok file.2)
    {password : Password} {secret : Bytes} (hpassword : password.toBytes = .ok secret) :
    FailsWith (Fault.OfOpening (BasicAmong files))
      (loadWallet fs (files.map Prod.fst) >>= fun wallet => wallet.decrypt password) := by
  apply failsWith_bind (failsWith_loadWallet hfiles hread)
  intro loaded hloaded
  exact Wallet.failsWith_decrypt (length_iv_of_loadWallet hloaded) hpassword

theorem loadWallet_decrypt_broken_cases [Suite] {inputs : List String}
    (hloading : FailsWith (Fault.OfOpening mixed) (loadWallet fs inputs)) (text : BrokenText) :
    exists fault,
      (loadWallet fs inputs >>= fun wallet => wallet.decrypt (.broken text)) = .error fault ∧
      ((exists wallet, loadWallet fs inputs = .ok wallet ∧ wallet.format.Recovers) ->
        fault = .misuse (.encoding text.flaw)) ∧
      ((¬ exists wallet, loadWallet fs inputs = .ok wallet ∧ wallet.format.Recovers) ->
        fault.OfOpening mixed) := by
  rcases hloaded : loadWallet fs inputs with fault | wallet
  · refine ⟨fault, rfl, ?_, fun _ => hloading fault hloaded⟩
    rintro ⟨_, hnone, _⟩
    cases hnone
  · rcases exists_kind_of_loadWallet hloaded with ⟨kind, hkind⟩
    rcases @Wallet.decrypt_broken_cases mixed _ wallet kind hkind text with
      ⟨fault, hdecrypt, hrecovers, hnot⟩
    refine ⟨fault, hdecrypt, ?_, ?_⟩
    · rintro ⟨_, hsame, hsecret⟩
      cases hsame
      exact hrecovers hsecret
    · intro hnone
      exact hnot (fun hsecret => hnone ⟨wallet, rfl, hsecret⟩)

/-- Whatever stands in some files, they open or are refused for one of the reasons of opening. That
a wallet is not sharded is one of these only if such a wallet is in one of several files. A password
whose text is broken is refused for such a reason too, unless the files load to a wallet whose
shares, if it has any, give a secret: only then is the password looked at. -/
theorem loadWallet_decrypt_cases [Suite] (hfiles : files ≠ [])
    (hread : forall file, file ∈ files -> fs.readFile (Path.ofString file.1) = .ok file.2) :
    let opened := fun password : Password =>
      loadWallet fs (files.map Prod.fst) >>= fun wallet => wallet.decrypt password
    (forall password secret, password.toBytes = .ok secret ->
      (exists key, opened password = .ok key) ∨
        exists fault, opened password = .error fault ∧ fault.OfOpening (BasicAmong files)) ∧
    (forall text, exists fault, opened (.broken text) = .error fault ∧
      ((exists wallet, loadWallet fs (files.map Prod.fst) = .ok wallet ∧ wallet.format.Recovers) ->
        fault = .misuse (.encoding text.flaw)) ∧
      ((¬ exists wallet, loadWallet fs (files.map Prod.fst) = .ok wallet ∧
          wallet.format.Recovers) ->
        fault.OfOpening (BasicAmong files))) := by
  intro opened
  constructor
  · intro password secret hpassword
    have hopening := failsWith_loadWallet_decrypt hfiles hread hpassword
    rcases hresult : opened password with fault | key
    · exact Or.inr ⟨fault, rfl, hopening fault hresult⟩
    · exact Or.inl ⟨key, rfl⟩
  · exact loadWallet_decrypt_broken_cases (failsWith_loadWallet hfiles hread)

theorem loadWallet_decrypt_cases_no_iterations :
    letI : Suite := Suite.standard
    let data : Bytes := [0x03, 0x00, 0x00] ++ Bytes.zeros 72
    let fs : FileSystem := .ofEntries [(["a"], .file false data)]
    (loadWallet fs ["a"] >>= fun wallet => wallet.decrypt (.text "secret")) =
        .error (.derivation .iterations) ∧
      (Fault.derivation .iterations).OfOpening (BasicAmong [("a", data)]) := by
  let _ : Suite := Suite.standard
  intro data fs
  have hrun : (loadWallet fs ["a"] >>= fun wallet => wallet.decrypt (.text "secret")) =
      .error (.derivation .iterations) := rfl
  have hnull : FileSystem.hasNull (Path.ofString "a") = false := by decide
  have hlocate : fs.locate (Path.ofString "a") = .ok ["a"] := rfl
  have hentry : fs.entry? ["a"] = some (.file false data) := rfl
  have hread : forall file, file ∈ [("a", data)] ->
      fs.readFile (Path.ofString file.1) = .ok file.2 := by
    intro file hfile
    rw [List.mem_singleton.mp hfile]
    exact readFile_of_entry? hnull hlocate hentry
  have hpassword : (Password.text "secret").toBytes = .ok (utf8 "secret") := rfl
  refine ⟨hrun, ?_⟩
  rcases (loadWallet_decrypt_cases (List.cons_ne_nil _ _) hread).1 (.text "secret") _ hpassword with
    ⟨key, hkey⟩ | ⟨fault, hfault, hopening⟩
  · cases hrun.symm.trans hkey
  · rw [Except.error.inj (hrun.symm.trans hfault)]
    exact hopening

/-- Half of a pair, as a byte of no character comes in from outside, is no reason of opening. -/
theorem loadWallet_decrypt_stops_unencoded :
    letI : Suite := Suite.standard
    let data : Bytes := [0x03, 0x00, 0x00] ++ Bytes.zeros 52 ++ [1] ++ Bytes.zeros 19
    let fs : FileSystem := .ofEntries [(["a"], .file false data)]
    let half : Fin 2048 := 0x4ff
    let text : BrokenText := ⟨[.half half], half, List.mem_cons_self⟩
    let fault : Fault := .misuse (.encoding ⟨half, 0, 1⟩)
    (loadWallet fs ["a"] >>= fun wallet => wallet.decrypt (.broken text)) = .error fault ∧
      ¬ fault.OfOpening True := by
  let _ : Suite := Suite.standard
  intro data fs half text fault
  refine ⟨rfl, ?_⟩
  intro hopening
  change Fault.OfOpening True (.misuse _) at hopening
  cases hopening

end Store
end WalletVault
