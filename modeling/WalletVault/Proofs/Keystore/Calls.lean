import WalletVault.Proofs.Files.Sparing
import WalletVault.Proofs.Keystore.Creation

/-!
# Calls that write

Nothing is written before a wallet is made, and then one wallet or one series
of shards is. So a call spares the files that its one write spares.
-/

namespace WalletVault

open FileSystem

namespace Machine

variable {α β : Type}

/-- The files are as before, whether the action returns or fails. -/
def LeavesFiles (action : Vaulting α) : Prop :=
  forall machine, (action machine).2.files = machine.files

theorem leavesFiles_mk (result : Except Fault α) :
    LeavesFiles (ExceptT.mk (pure result) : Vaulting α) :=
  fun _ => rfl

theorem leavesFiles_get : LeavesFiles (get : Vaulting Machine) :=
  fun _ => rfl

theorem leavesFiles_drawing (action : Draw α) : LeavesFiles (drawing action) :=
  fun _ => rfl

theorem leavesFiles_working (format : KeyFormat) (action : KeyFormat.Working α) :
    LeavesFiles (working format action) :=
  fun _ => rfl

theorem LeavesFiles.bind {action : Vaulting α} {next : α -> Vaulting β}
    (haction : LeavesFiles action) (hnext : forall a, LeavesFiles (next a)) :
    LeavesFiles (action >>= next) := by
  intro machine
  exact (Computation.view_bind Machine.files hnext).trans (haction machine)

def Spares (force : Bool) (targets : List Path) (action : Vaulting α) (machine : Machine) : Prop :=
  Store.Spares force targets machine.files (action machine).2.files
    ((action machine).1.map (fun _ => ()))

section Sparing

variable {force : Bool} {targets : List Path} {machine : Machine}

theorem LeavesFiles.spares_bind {action : Vaulting α} {next : α -> Vaulting β}
    (haction : LeavesFiles action)
    (hnext : forall a middle, action machine = (.ok a, middle) ->
      Spares force targets (next a) middle) :
    Spares force targets (action >>= next) machine := by
  have hfiles := haction machine
  unfold Spares
  rw [Computation.bind_apply]
  rcases hran : action machine with ⟨fault | a, middle⟩
  · rw [hran] at hfiles
    dsimp only at hfiles ⊢
    rw [hfiles]
    exact Store.spares_of_refused ⟨fault, rfl⟩
  · rw [hran] at hfiles
    dsimp only at hfiles ⊢
    rw [← hfiles]
    exact hnext a middle hran

theorem Spares.bind_pure {action : Vaulting α} (h : Spares force targets action machine)
    (f : α -> β) : Spares force targets (action >>= fun a => pure (f a)) machine := by
  unfold Spares at h ⊢
  rw [Computation.bind_apply]
  rcases hran : action machine with ⟨fault | a, middle⟩
  · rw [hran] at h
    exact h
  · rw [hran] at h
    exact h

end Sparing

end Machine

namespace Keystore

/-- The calls that write files, each with what is given to it beside `force`. -/
inductive WritingCall where
  | writeWallet (ownerOnly : Bool) (output : String) (wallet : Wallet)
  | writeShards (ownerOnly : Bool) (output : String) (wallet : Wallet)
  | create (form : Form) (output : Option String) (password : Password) (source : KeySource)
      (hash : HashChoice) (iterations : Option Int)
  | upgrade (form : Form) (paths : Option (List (Option String))) (output : Option String)
      (password : Password) (hash : HashChoice) (iterations : Option Int)

variable [Suite]

theorem leavesFiles_make (keystore : Keystore) (form : Form) (key : Draw SigningKey)
    (hash : Draw PasswordHash) (password : Password) :
    Machine.LeavesFiles (keystore.make form key hash password) := by
  unfold make
  apply (Machine.leavesFiles_mk _).bind
  intro rule
  apply (Machine.leavesFiles_drawing _).bind
  intro key
  apply (Machine.leavesFiles_drawing _).bind
  intro hash
  exact Machine.leavesFiles_working _ _

theorem shards_of_make {keystore : Keystore} {count threshold : Option Int}
    {key : Draw SigningKey} {hash : Draw PasswordHash} {password : Password}
    {machine made : Machine} {wallet : Wallet}
    (h : keystore.make (.sharded count threshold) key hash password machine = (.ok wallet, made)) :
    exists rule shards, keystore.ruleOf (.sharded count threshold) = .ok (some rule) ∧
      wallet.shards = .ok shards ∧ shards.length = rule.count := by
  rcases make_sharded_eq_ok.mp h with ⟨rule, _, hash, _, _, bench, hrule, _, _, _, hencrypt, _⟩
  rcases Wallet.exists_sealed_of_encrypt_fresh hencrypt with
    ⟨secret, randomness, stretched, iv, hsecret, _, _, hwallet⟩
  have hshards := congrArg Wallet.shards hwallet
  rw [Wallet.shards_deal] at hshards
  refine ⟨rule, _, hrule, hshards, ?_⟩
  rw [List.length_map]
  exact KeyShare.length_shareOut rule.count _ randomness hsecret

omit [Suite] in
def targets (keystore : Keystore) (form : Form) (output : Option String) : List Path :=
  match keystore.ruleOf form with
  | .ok none => [Path.ofString (output.getD "")]
  | .ok (some rule) => (List.range rule.count).map (Path.ofString (output.getD "")).shardPath
  | .error _ => []

section Creating

variable (keystore : Keystore) (output : Option String) (password : Password) (source : KeySource)
  (options : Options) (machine : Machine)

theorem spares_createBasic :
    Machine.Spares options.force (keystore.targets .basic output)
      (keystore.createBasic output password source options) machine := by
  unfold createBasic
  apply (Machine.leavesFiles_mk _).spares_bind
  intro _ _ _
  apply (leavesFiles_make keystore _ _ _ _).spares_bind
  intro wallet made _
  exact Machine.Spares.bind_pure (Store.spares_of_writeWallet rfl) _

theorem spares_createSharded (count threshold : Option Int) :
    Machine.Spares options.force (keystore.targets (.sharded count threshold) output)
      (keystore.createSharded output password count threshold source options) machine := by
  unfold createSharded
  apply (Machine.leavesFiles_mk _).spares_bind
  intro _ _ _
  apply (leavesFiles_make keystore _ _ _ _).spares_bind
  intro wallet made hmade
  rcases shards_of_make hmade with ⟨rule, shards, hrule, hshards, hlength⟩
  have htargets : keystore.targets (.sharded count threshold) output =
      (List.range shards.length).map (Path.ofString (output.getD "")).shardPath := by
    rw [targets, hrule, hlength]
  rw [htargets]
  exact Machine.Spares.bind_pure (Store.spares_of_writeShards hshards rfl) _

theorem spares_upgrade (paths : Option (List (Option String))) (form : Form) :
    Machine.Spares options.force (keystore.targets form output)
      (keystore.upgrade paths password output form options) machine := by
  unfold upgrade
  apply Machine.leavesFiles_get.spares_bind
  intro _ _ _
  apply (Machine.leavesFiles_mk _).spares_bind
  intro key middle _
  cases form with
  | basic =>
      exact (spares_createBasic keystore output password _ options middle).bind_pure _
  | sharded count threshold =>
      exact spares_createSharded keystore output password _ options middle count threshold

end Creating

/-!
# The calls
-/

namespace WritingCall

def run (keystore : Keystore) (force : Bool) : WritingCall -> Vaulting Unit
  | .writeWallet ownerOnly output wallet => do
    let _ ← Machine.filing (Store.writeWallet ownerOnly force output wallet)
    pure ()
  | .writeShards ownerOnly output wallet => do
    let _ ← Machine.filing (Store.writeShards ownerOnly force output wallet)
    pure ()
  | .create .basic output password source hash iterations => do
    let _ ← keystore.createBasic output password source ⟨hash, iterations, force⟩
    pure ()
  | .create (.sharded count threshold) output password source hash iterations => do
    let _ ← keystore.createSharded output password count threshold source ⟨hash, iterations, force⟩
    pure ()
  | .upgrade form paths output password hash iterations => do
    let _ ← keystore.upgrade paths password output form ⟨hash, iterations, force⟩
    pure ()

omit [Suite] in
def targets (keystore : Keystore) : WritingCall -> List Path
  | .writeWallet _ output _ => [Path.ofString output]
  | .writeShards _ output wallet =>
    match wallet.shards with
    | .ok shards => (List.range shards.length).map (Path.ofString output).shardPath
    | .error _ => []
  | .create form output _ _ _ _ => keystore.targets form output
  | .upgrade form _ output _ _ _ => keystore.targets form output

end WritingCall

omit [Suite] in
theorem spares_writeShards (ownerOnly force : Bool) (output : String) (wallet : Wallet)
    (keystore : Keystore) (machine : Machine) :
    Machine.Spares force ((WritingCall.writeShards ownerOnly output wallet).targets keystore)
      (Machine.filing (Store.writeShards ownerOnly force output wallet)) machine := by
  rcases hshards : wallet.shards with fault | shards
  · have hrefused : Store.writeShards ownerOnly force output wallet machine.files =
        (.error fault, machine.files) := by
      rw [Store.writeShards, Computation.bind_apply, Computation.mk_apply, hshards]
    unfold Machine.Spares Machine.filing
    rw [hrefused]
    exact Store.spares_of_refused ⟨fault, rfl⟩
  · have htargets : (WritingCall.writeShards ownerOnly output wallet).targets keystore =
        (List.range shards.length).map (Path.ofString output).shardPath := by
      rw [WritingCall.targets, hshards]
    rw [htargets]
    exact Store.spares_of_writeShards hshards rfl

theorem spares_run (keystore : Keystore) (force : Bool) (call : WritingCall)
    (machine : Machine) :
    Machine.Spares force (call.targets keystore) (call.run keystore force) machine := by
  cases call with
  | writeWallet ownerOnly output wallet =>
      exact Machine.Spares.bind_pure (Store.spares_of_writeWallet rfl) _
  | writeShards ownerOnly output wallet =>
      exact (spares_writeShards ownerOnly force output wallet keystore machine).bind_pure _
  | create form output password source hash iterations =>
      cases form with
      | basic =>
          exact (spares_createBasic keystore output password source
            ⟨hash, iterations, force⟩ machine).bind_pure _
      | sharded count threshold =>
          exact (spares_createSharded keystore output password source
            ⟨hash, iterations, force⟩ machine count threshold).bind_pure _
  | upgrade form paths output password hash iterations =>
      exact (spares_upgrade keystore output password ⟨hash, iterations, force⟩ machine paths
        form).bind_pure _

/-- Whether a call returns or fails, the files that its writes do not expose stay as they are.
Without force, in a tree and with targets that go up nowhere, these are all but the files under the
temporary names of the targets; and a call that returns has spared all files just in case there
was none under such a name. -/
theorem writingCall_spares {keystore : Keystore} {force : Bool} {call : WritingCall}
    {machine after : Machine} {result : Except Fault Unit}
    (hrun : call.run keystore force machine = (result, after)) :
    Store.Spares force (call.targets keystore) machine.files after.files result ∧
      (force = false -> machine.files.Tree ->
        (forall target, target ∈ call.targets keystore -> ".." ∉ target.names) ->
        result = .ok () ->
          (machine.files.SparesExcept after.files (fun _ => False) <->
            forall target, target ∈ call.targets keystore -> forall ownerOnly content,
              machine.files.standing target.temp ≠ some (.file ownerOnly content))) := by
  have hspares := spares_run keystore force call machine
  rw [Machine.Spares, hrun] at hspares
  have hresult : result.map (fun _ => ()) = result := by
    cases result <;> rfl
  rw [hresult] at hspares
  refine ⟨hspares, ?_⟩
  intro hforce htree hup hok
  rw [hforce, hok] at hspares
  exact hspares.spared_iff htree hup

theorem run_writeWallet {ownerOnly force : Bool} {output : String} {wallet : Wallet} {data : Bytes}
    {fs fs' : FileSystem} (hdata : wallet.write = .ok data)
    (hwritten : Store.writeBytes ownerOnly force (Path.ofString output) data fs = (.ok (), fs'))
    (keystore : Keystore) (random : RandomSource) :
    (WritingCall.writeWallet ownerOnly output wallet).run keystore force ⟨fs, random⟩ =
      (.ok (), ⟨fs', random⟩) := by
  have hwallet := Store.writeWallet_eq_ok.mpr ⟨rfl, data, hdata, hwritten⟩
  have hfiled : Machine.filing (Store.writeWallet ownerOnly force output wallet) ⟨fs, random⟩ =
      (.ok (Path.ofString output), ⟨fs', random⟩) :=
    Machine.filing_eq_ok.mpr ⟨hwallet, rfl⟩
  rw [WritingCall.run]
  exact Computation.bind_of_ok hfiled

omit [Suite] in
theorem writingCall_spares_beside :
    letI : Suite := Suite.standard
    let keystore : Keystore := ⟨.standard, .standard⟩
    let machine : Machine := ⟨.ofEntries [(["note"], .file false [1, 2])], .ofPattern [1]⟩
    exists after,
      (WritingCall.writeWallet true "w" Wallet.blankBasic).run keystore false machine =
        (.ok (), after) ∧
      machine.files.SparesExcept after.files (fun _ => False) := by
  let _ : Suite := Suite.standard
  intro keystore machine
  rcases Store.exists_write_blankBasic with ⟨data, hdata⟩
  have hwritten : Store.writeBytes true false (Path.ofString "w") data machine.files =
      (.ok (), .ofEntries [(["w"], .file true data), (["note"], .file false [1, 2])]) :=
    Store.writeBytes_of_isDirectory rfl rfl rfl rfl rfl rfl
  have hrun := run_writeWallet hdata hwritten keystore machine.random
  refine ⟨_, hrun, ((writingCall_spares hrun).2 rfl ?_ ?_ rfl).mpr ?_⟩
  · exact tree_file "note" false [1, 2]
  · intro target htarget
    rw [List.mem_singleton.mp htarget]
    decide
  · intro target htarget ownerOnly content
    have hnone : machine.files.standing (Path.ofString "w").temp = none := rfl
    rw [List.mem_singleton.mp htarget, hnone]
    exact (Option.some_ne_none _).symm

omit [Suite] in
/-- The file that has the temporary name is lost, although nothing stands at the target. -/
theorem writeWallet_takes_temporary_name :
    letI : Suite := Suite.standard
    let keystore : Keystore := ⟨.standard, .standard⟩
    let machine : Machine := ⟨.ofEntries [(["w.temp"], .file false [1, 2])], .ofPattern [1]⟩
    exists after,
      (WritingCall.writeWallet true "w" Wallet.blankBasic).run keystore false machine =
        (.ok (), after) ∧
      machine.files.entry? ["w.temp"] = some (.file false [1, 2]) ∧
      after.files.entry? ["w.temp"] = none := by
  let _ : Suite := Suite.standard
  intro keystore machine
  rcases Store.exists_write_blankBasic with ⟨data, hdata⟩
  have hwritten : Store.writeBytes true false (Path.ofString "w") data machine.files =
      (.ok (), .ofEntries [(["w"], .file true data)]) :=
    Store.writeBytes_of_isDirectory rfl rfl rfl rfl rfl rfl
  exact ⟨_, run_writeWallet hdata hwritten keystore machine.random, rfl, rfl⟩

end Keystore

end WalletVault
