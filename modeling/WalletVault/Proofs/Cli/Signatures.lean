import WalletVault.Proofs.Base64
import WalletVault.Proofs.Cli.Outcomes
import WalletVault.Proofs.Keystore.Copies

/-!
# Signatures

Signing works from the key that a wallet opens to, checking a signature from the
public key that its files bear. Both belong together in the files of a new
wallet and in their copies.
-/

namespace WalletVault

/-- A suite that accepts a signature just in case signing makes it. -/
@[reducible] noncomputable def Suite.exact : Suite where
  __ := Suite.standard
  verify := fun publicKey message signature =>
    @decide (exists seed, Suite.standard.publicKey seed = publicKey ∧
      Suite.standard.sign seed message = signature) (Classical.propDecidable _)

theorem Suite.exact_accepts (seed message : Bytes) :
    Suite.exact.verify (Suite.exact.publicKey seed) message (Suite.exact.sign seed message) =
      true :=
  @decide_eq_true _ (Classical.propDecidable _) ⟨seed, rfl, rfl⟩

namespace Cli

open Machine

variable [Suite]

/-!
# Runs of one command
-/

def Ran (setting : Setting) (command : Command) (before : Machine) (ending : Ending)
    (after : Machine) : Prop :=
  exists arguments,
    Invocation.read setting.keystore.settings arguments = .ok ⟨setting.common, some command⟩ ∧
      run setting.keystore setting.environment arguments before = (ending, after)

section Runs

variable {setting : Setting} {command : Command} {before after : Machine} {ending : Ending}

theorem Ran.exists_result (h : Ran setting command before ending after) :
    exists result, setting.perform command before = (result, after) ∧
      ending = Report.ofResult setting.common.pretty command.name
        (before.files.linesSince after.files) result := by
  rcases h with ⟨arguments, hread, hran⟩
  rcases hperform : setting.perform command before with ⟨result, last⟩
  unfold run at hran
  rw [hread] at hran
  dsimp only at hran
  rw [respond_of_some hperform] at hran
  cases hran
  exact ⟨result, rfl, rfl⟩

theorem Ran.ending_of_ok {fields : Fields} (h : Ran setting command before ending after)
    (hperform : setting.perform command before = (.ok fields, before)) :
    ending = Report.accept setting.common.pretty command.name fields [] := by
  rcases h.exists_result with ⟨result, hresult, hending⟩
  rw [hperform] at hresult
  cases hresult
  rwa [FileSystem.linesSince_self] at hending

theorem Ran.ok_of_finished {output errors : String} {logged : List String}
    (h : Ran setting command before (.finished 0 output logged errors) after) :
    exists fields, setting.perform command before = (.ok fields, after) := by
  rcases h.exists_result with ⟨result, hresult, hending⟩
  cases result with
  | ok fields => exact ⟨fields, hresult⟩
  | error fault => cases hending

end Runs

namespace Setting

variable {setting : Setting} {names : List String} {password : Password} {machine after : Machine}

/-!
# Commands that load files
-/

def LoadsCopies (setting : Setting) (written fs : FileSystem) (paths : List Path) : Prop :=
  exists names, setting.files = names.map .filled ∧ Store.Copies written fs names paths

omit [Suite] in
theorem inputs_of_files (h : setting.files = names.map .filled) (machine : Machine) :
    setting.inputs machine = (.ok (some (names.map some)), machine) := by
  have hnames : setting.files.filterMap Slot.value? = names := by
    rw [h, List.filterMap_map]
    exact List.filterMap_some
  unfold inputs
  rw [hnames, h, if_pos (List.length_map Slot.filled).symm]
  rfl

def signed (message : String) (key : SigningKey) : Fields :=
  [("address", .text key.address), ("signature", .text (Base64.encode (key.sign (utf8 message))))]

theorem sign_apply (hpassword : setting.password = .ok password)
    (hfiles : setting.files = names.map .filled) (message : String) (machine : Machine) :
    setting.sign (.filled message) machine =
      ((Keystore.loadSigningKey machine.files (some (names.map some)) password).map
        (signed message), machine) := by
  unfold sign
  rw [hpassword, Computation.bind_of_ok (rfl : given (.ok password) machine = _),
    Computation.bind_of_ok (inputs_of_files hfiles machine),
    Computation.bind_of_ok (Computation.get_apply machine)]
  cases Keystore.loadSigningKey machine.files (some (names.map some)) password with
  | ok key => rfl
  | error fault => rfl

section Verifying

variable {wallet : Wallet} {key : SigningKey}

theorem verifySignature_apply (hfiles : setting.files = names.map .filled)
    (hload : Keystore.load machine.files (some (names.map some)) = .ok wallet)
    (hpublicKey : wallet.publicKey = key.publicKey) {text : String} {signature : Bytes}
    (hsignature : Base64.decode text = .ok signature) (message : String) :
    setting.verifySignature (.filled message) (.filled text) machine =
      (.ok [("address", .text key.address),
        ("valid", .bool (Suite.verify key.publicKey (utf8 message) signature))], machine) := by
  unfold verifySignature
  rw [Computation.bind_of_ok (rfl : given (Slot.need _ (.filled text)) machine = _)]
  dsimp only
  rw [hsignature]
  dsimp only
  rw [pure_bind, Computation.bind_of_ok (inputs_of_files hfiles machine),
    Computation.bind_of_ok (Computation.get_apply machine), hload,
    Computation.bind_of_ok (rfl : given (.ok wallet) machine = _), Wallet.address_eq_ok hpublicKey,
    hpublicKey]
  rfl

theorem verifyPassword_apply (hpassword : setting.password = .ok password)
    (hfiles : setting.files = names.map .filled)
    (hload : Keystore.load machine.files (some (names.map some)) = .ok wallet)
    (hpublicKey : wallet.publicKey = key.publicKey) (hopen : wallet.decrypt password = .ok key) :
    setting.verifyPassword machine =
      (.ok [("address", .text key.address), ("sharded", .bool wallet.format.isSharded),
        ("valid", .bool true)], machine) := by
  unfold verifyPassword
  rw [hpassword, Computation.bind_of_ok (rfl : given (.ok password) machine = _),
    Computation.bind_of_ok (inputs_of_files hfiles machine),
    Computation.bind_of_ok (Computation.get_apply machine), hload,
    Computation.bind_of_ok (rfl : given (.ok wallet) machine = _), hopen]
  dsimp only
  rw [pure_bind, Wallet.address_eq_ok hpublicKey]
  rfl

end Verifying

/-!
# Commands that make a wallet
-/

/-- What a command that made a wallet has left: the files of one key under its password. -/
structure Made (setting : Setting) (form : TargetForm) (target : Target) (order : Order)
    (rule : Option ShareRule) (password : Password) (key : SigningKey) (written : FileSystem) :
    Prop where
  ordered : setting.order? form target = some order
  ruled : setting.keystore.ruleOf order.form = .ok rule
  guarded : setting.password = .ok password
  faithful : Keystore.Faithful key rule password
    (setting.keystore.targets order.form (some order.output)) written

omit [Suite] in
theorem bind_given_eq_ok {α β : Type} {result : Except Fault α} {next : α -> Vaulting β} {b : β} :
    (given result >>= next) machine = (.ok b, after) <->
      exists a, result = .ok a ∧ next a machine = (.ok b, after) := by
  rw [given, Computation.bind_apply, Computation.mk_apply]
  cases result with
  | ok a => simp
  | error fault =>
      constructor
      · intro h
        cases h
      · rintro ⟨_, hsame, _⟩
        cases hsame

theorem stopShort_ne_ok {α : Type} {form : TargetForm} {target : Target} {key : Draw SigningKey}
    {a : α} : setting.stopShort form target password key machine ≠ (.ok a, after) := by
  have hreads : Reads (fun _ : α => False) (setting.stopShort form target password key) :=
    setting.reads_stopShort form target password key
  exact hreads.returned machine a after

/-- Behind the last write a command only reports. -/
theorem exists_of_reporting {α : Type} {action : Vaulting α} (wallet : α -> Wallet)
    (files : α -> List String) {fields : Fields}
    (h : reporting action wallet files machine = (.ok fields, after)) :
    exists a, action machine = (.ok a, after) := by
  rcases Computation.bind_eq_ok.mp h with ⟨a, middle, haction, h⟩
  rcases bind_given_eq_ok.mp h with ⟨info, _, hreport⟩
  cases hreport
  exact ⟨a, haction⟩

section Making

variable {form : TargetForm} {target : Target} {fields : Fields}

theorem made_of_create (h : setting.create (some (form, target)) machine = (.ok fields, after)) :
    exists order rule password key,
      setting.Made form target order rule password key after.files := by
  unfold create at h
  dsimp only at h
  split at h
  · cases h
  rcases bind_given_eq_ok.mp h with ⟨password, hpassword, h⟩
  rcases bind_given_eq_ok.mp h with ⟨secret, _, h⟩
  rcases bind_given_eq_ok.mp h with ⟨words, _, h⟩
  rcases horder : setting.order? form target with _ | ⟨output, asked, options⟩
  · rw [horder] at h
    rcases Computation.bind_eq_ok.mp h with ⟨stopped, _, hstopped, _⟩
    exact absurd hstopped stopShort_ne_ok
  rw [horder] at h
  cases asked with
  | basic =>
      rcases exists_of_reporting id (fun _ => [output]) h with ⟨wallet, hcreated⟩
      rcases Keystore.faithful_of_createBasic hcreated with ⟨key, hfaithful⟩
      exact ⟨_, none, password, key, horder, rfl, hpassword, hfaithful⟩
  | sharded count threshold =>
      rcases exists_of_reporting Prod.fst shown h with ⟨⟨wallet, paths⟩, hcreated⟩
      rcases Keystore.faithful_of_createSharded hcreated with ⟨rule, key, hrule, hfaithful⟩
      exact ⟨_, some rule, password, key, horder, hrule, hpassword, hfaithful⟩

theorem made_of_upgrade
    (h : setting.upgrade (some (form, target)) machine = (.ok fields, after)) :
    exists order rule password key,
      setting.Made form target order rule password key after.files := by
  unfold upgrade at h
  dsimp only at h
  rcases bind_given_eq_ok.mp h with ⟨password, hpassword, h⟩
  rcases Computation.bind_eq_ok.mp h with ⟨inputs, middle, _, h⟩
  rcases horder : setting.order? form target with _ | order
  · rw [horder] at h
    rcases Computation.bind_eq_ok.mp h with ⟨_, _, _, h⟩
    rcases bind_given_eq_ok.mp h with ⟨key, _, h⟩
    rcases Computation.bind_eq_ok.mp h with ⟨stopped, _, hstopped, _⟩
    exact absurd hstopped stopShort_ne_ok
  rw [horder] at h
  rcases exists_of_reporting Prod.fst shown h with ⟨⟨wallet, paths⟩, hupgraded⟩
  rcases Keystore.faithful_of_upgrade hupgraded with ⟨rule, key, hrule, hfaithful⟩
  exact ⟨order, rule, password, key, horder, hrule, hpassword, hfaithful⟩

end Making

theorem create_of_createBasic {setting : Setting} {target : Target} {password : Password}
    {output : String} {options : Options} {machine after : Machine} {wallet : Wallet}
    (hpassword : setting.password = .ok password) (hseed : target.seed = none)
    (hsecret : target.secret = none)
    (horder : setting.order? .basic target = some ⟨output, .basic, options⟩)
    (hcreated : setting.keystore.createBasic (some output) password ⟨none, none, none⟩ options
      machine = (.ok wallet, after)) :
    exists fields, setting.create (some (.basic, target)) machine = (.ok fields, after) := by
  rcases Keystore.exists_info_of_createBasic hcreated with ⟨info, hinfo⟩
  refine ⟨Report.ofFiles [output] ++ Report.ofInfo info, ?_⟩
  unfold create
  dsimp only
  have hone : ¬ (target.seed.isSome && target.secret.isSome) = true := by
    rw [hseed]
    exact Bool.false_ne_true
  rw [if_neg hone, hseed, hsecret, hpassword,
    Computation.bind_of_ok (rfl : given (.ok password) machine = _),
    Computation.bind_of_ok
      (rfl : given (Option.mapM readSecret none) machine = (.ok none, machine)),
    Computation.bind_of_ok (rfl : given (setting.seedWords none) machine = (.ok none, machine)),
    horder]
  dsimp only
  refine (Computation.bind_of_ok hcreated).trans ?_
  rw [pure_bind]
  dsimp only
  rw [hinfo]
  rfl

end Setting

/-!
# Agreement
-/

/-- What the program says of the files of one key and of their copies: whoever signs with some of
them gives a signature that all of them accept, and whoever has enough of them can sign, and is
told that the password is right. -/
structure Agreement (paths : List Path) (rule : Option ShareRule) (password : Password)
    (written : FileSystem) (address : String) (signature : String -> String) : Prop where
  signed : forall signer message chosen machine output logged errors after,
    signer.password = .ok password -> Keystore.Together paths chosen rule ->
    signer.LoadsCopies written machine.files chosen ->
    Ran signer (.sign (.filled message)) machine (.finished 0 output logged errors) after ->
      .finished 0 output logged errors = Report.accept signer.common.pretty "sign"
        [("address", .text address), ("signature", .text (signature message))] []
  signs : forall signer message chosen machine ending after,
    signer.password = .ok password -> Keystore.Enough paths chosen rule ->
    signer.LoadsCopies written machine.files chosen ->
    Ran signer (.sign (.filled message)) machine ending after ->
      ending = Report.accept signer.common.pretty "sign"
        [("address", .text address), ("signature", .text (signature message))] []
  accepts : forall verifier message chosen machine ending after,
    Keystore.Together paths chosen rule -> verifier.LoadsCopies written machine.files chosen ->
    Ran verifier (.verify (some (.filled message)) (some (.filled (signature message)))) machine
        ending after ->
      ending = Report.accept verifier.common.pretty "verify"
        [("address", .text address), ("valid", .bool true)] []
  opens : forall verifier chosen machine ending after,
    verifier.password = .ok password -> Keystore.Enough paths chosen rule ->
    verifier.LoadsCopies written machine.files chosen ->
    Ran verifier (.verify none none) machine ending after ->
      ending = Report.accept verifier.common.pretty "verify"
        [("address", .text address), ("sharded", .bool rule.isSome), ("valid", .bool true)] []

theorem agreement_of_faithful
    (haccepts : forall seed message,
      Suite.verify (Suite.publicKey seed) message (Suite.sign seed message) = true)
    {key : SigningKey} {rule : Option ShareRule} {password : Password} {paths : List Path}
    {written : FileSystem} (h : Keystore.Faithful key rule password paths written) :
    Agreement paths rule password written key.address
      (fun message => Base64.encode (key.sign (utf8 message))) where
  signed := by
    intro signer message chosen machine output logged errors after hpassword htogether hcopies hran
    rcases hcopies with ⟨names, hfiles, hcopies⟩
    rcases h.loads chosen names machine.files htogether hcopies with ⟨wallet, hload, _, _, honly, _⟩
    rcases hran.ok_of_finished with ⟨fields, hperform⟩
    have hsigned := hperform
    rw [Setting.perform, Setting.sign_apply hpassword hfiles,
      Keystore.loadSigningKey_of_load h.valid hload] at hsigned
    have hsame : machine = after := congrArg Prod.snd hsigned
    rw [← hsame] at hperform
    rcases Computation.except_map_eq_ok.mp (congrArg Prod.fst hsigned) with ⟨found, hfound, hfields⟩
    rw [hran.ending_of_ok hperform, ← hfields, honly found hfound]
    rfl
  signs := by
    intro signer message chosen machine ending after hpassword henough hcopies hran
    rcases hcopies with ⟨names, hfiles, hcopies⟩
    rcases h.loads chosen names machine.files henough.together hcopies with
      ⟨wallet, hload, _, _, _, hopen⟩
    apply hran.ending_of_ok
    rw [Setting.perform, Setting.sign_apply hpassword hfiles,
      Keystore.loadSigningKey_of_load h.valid hload, hopen henough]
    rfl
  accepts := by
    intro verifier message chosen machine ending after htogether hcopies hran
    rcases hcopies with ⟨names, hfiles, hcopies⟩
    rcases h.loads chosen names machine.files htogether hcopies with
      ⟨wallet, hload, hpublicKey, _⟩
    have hvalid : Suite.verify key.publicKey (utf8 message) (key.sign (utf8 message)) = true :=
      haccepts key.seed (utf8 message)
    apply hran.ending_of_ok
    rw [Setting.perform, Setting.verify,
      Setting.verifySignature_apply hfiles hload hpublicKey (Base64.decode_encode _), hvalid]
  opens := by
    intro verifier chosen machine ending after hpassword henough hcopies hran
    rcases hcopies with ⟨names, hfiles, hcopies⟩
    rcases h.loads chosen names machine.files henough.together hcopies with
      ⟨wallet, hload, hpublicKey, hsharded, _, hopen⟩
    apply hran.ending_of_ok
    rw [Setting.perform, Setting.verify,
      Setting.verifyPassword_apply hpassword hfiles hload hpublicKey (hopen henough), hsharded]

theorem createBasic_of_zeros :
    exists wallet written data,
      Keystore.createBasic ⟨.standard, .standard⟩ (some "w") (.text "secret") ⟨none, none, none⟩
          ⟨.named "pbkdf2", none, false⟩ ⟨.ofEntries [], .ofPattern [0]⟩ = (.ok wallet, written) ∧
        written.files = .ofEntries [(["w"], .file true data)] := by
  have hrandom : (RandomSource.ofPattern [0]).Ample := ofPattern_ample (by decide)
  have hkey : Keystore.signingKey ⟨none, none, none⟩ (RandomSource.ofPattern [0]) =
      (.ok ⟨Bytes.zeros 32, rfl⟩, (RandomSource.ofPattern [0]).spend 32) := rfl
  have hhash : Keystore.buildHash ⟨.standard, .standard⟩ (.named "pbkdf2") none
      ((RandomSource.ofPattern [0]).spend 32) =
        (.ok (.pbkdf2 PasswordHash.blankPbkdf2),
          ((RandomSource.ofPattern [0]).spend 32).spend 8) := by
    have hname : Keystore.hashName ⟨.standard, .standard⟩ "pbkdf2" = "pbkdf2" := rfl
    unfold Keystore.buildHash
    dsimp only
    rw [hname]
    rfl
  have hfits : (PasswordHash.pbkdf2 PasswordHash.blankPbkdf2).Fits := by decide
  have hstretched : PasswordHash.derive (.text "secret") (.pbkdf2 PasswordHash.blankPbkdf2) =
      .ok (Suite.pbkdf2 (utf8 "secret") PasswordHash.blankPbkdf2.salt 1000000) := rfl
  rcases Keystore.exists_basic_file (ample_spend (ample_spend hrandom 32) 8) hfits hstretched
    ⟨Bytes.zeros 32, rfl⟩ with ⟨wallet, data, bench, hencrypt, hdata, _⟩
  have hmake : Keystore.make ⟨.standard, .standard⟩ .basic (Keystore.signingKey ⟨none, none, none⟩)
      (Keystore.buildHash ⟨.standard, .standard⟩ (.named "pbkdf2") none) (.text "secret")
      ⟨.ofEntries [], .ofPattern [0]⟩ = (.ok wallet, ⟨.ofEntries [], bench.random⟩) :=
    Keystore.make_eq_ok.mpr ⟨none, _, _, _, _, bench, rfl, hkey, hhash, rfl, hencrypt, rfl⟩
  have hwritten : Store.writeBytes true false (Path.ofString "w") data (.ofEntries []) =
      (.ok (), .ofEntries [(["w"], .file true data)]) :=
    Store.writeBytes_of_isDirectory rfl rfl rfl rfl rfl rfl
  have hwallet := Store.writeWallet_eq_ok.mpr
    ⟨(rfl : _ = Path.ofString "w"), data, hdata, hwritten⟩
  exact ⟨wallet, ⟨_, bench.random⟩, data,
    Keystore.createBasic_eq_ok.mpr ⟨rfl, _, _, hmake, hwallet, rfl⟩, rfl⟩

/-- If checking a signature accepts what signing makes, then the program agrees with itself on the
files of a wallet that it made, wherever they are and in whatever order they are given. -/
theorem sign_agrees_with_verify
    (haccepts : forall seed message,
      Suite.verify (Suite.publicKey seed) message (Suite.sign seed message) = true)
    {maker : Setting} {form : TargetForm} {target : Target} {command : Command}
    (hcommand : command = .create (some (form, target)) ∨ command = .upgrade (some (form, target)))
    {before written : Machine} {output errors : String} {logged : List String}
    (hmade : Ran maker command before (.finished 0 output logged errors) written) :
    exists order rule password address signature,
      maker.order? form target = some order ∧
      maker.keystore.ruleOf order.form = .ok rule ∧
      maker.password = .ok password ∧
      Agreement (maker.keystore.targets order.form (some order.output)) rule password
        written.files address signature := by
  rcases hmade.ok_of_finished with ⟨fields, hperform⟩
  have hwritten : exists order rule password key,
      maker.Made form target order rule password key written.files := by
    rcases hcommand with hcreate | hupgrade
    · rw [hcreate] at hperform
      exact Setting.made_of_create hperform
    · rw [hupgrade] at hperform
      exact Setting.made_of_upgrade hperform
  rcases hwritten with ⟨order, rule, password, key, h⟩
  exact ⟨order, rule, password, _, _, h.ordered, h.ruled, h.guarded,
    agreement_of_faithful haccepts h.faithful⟩

omit [Suite] in
theorem sign_agrees_with_verify_basic :
    letI : Suite := Suite.exact
    let keystore : Keystore := ⟨.standard, .standard⟩
    let machine : Machine := ⟨.ofEntries [], .ofPattern [0]⟩
    exists written output address signature,
      run keystore [] ["-p", "secret", "create", "basic", "-o", "w", "--pwhash", "pbkdf2"] machine =
        (.finished 0 output [] "", written) ∧
      (run keystore [] ["-p", "secret", "-f", "w", "sign", "-m", "hello"] written).1 =
        Report.accept false "sign"
          [("address", .text address), ("signature", .text signature)] [] ∧
      (run keystore [] ["-p", "secret", "-f", "w", "verify"] written).1 =
        Report.accept false "verify"
          [("address", .text address), ("sharded", .bool false), ("valid", .bool true)] [] ∧
      forall environment ending after,
        Ran ⟨keystore, environment, ⟨[.filled "w"], "", "", false⟩⟩
            (.verify (some (.filled "hello")) (some (.filled signature))) written ending after ->
          ending = Report.accept false "verify"
            [("address", .text address), ("valid", .bool true)] [] := by
  let _ : Suite := Suite.exact
  intro keystore machine
  let target : Target :=
    { Target.start keystore.settings with output := .filled "w", hash := "pbkdf2" }
  let maker : Setting := ⟨keystore, [], ⟨[], "secret", "", false⟩⟩
  let user : Setting := ⟨keystore, [], ⟨[.filled "w"], "secret", "", false⟩⟩
  rcases createBasic_of_zeros with ⟨wallet, written, data, hcreated, hfiles⟩
  rcases Setting.create_of_createBasic (rfl : maker.password = .ok (.text "secret"))
    (rfl : target.seed = none) rfl rfl hcreated with ⟨fields, hperform⟩
  have hcreate : maker.perform (.create (some (.basic, target))) machine =
      (.ok fields, written) := hperform
  have hran : run keystore [] ["-p", "secret", "create", "basic", "-o", "w", "--pwhash", "pbkdf2"]
      machine = (Report.accept false "create" fields [], written) := by
    have hresponded := respond_of_some hcreate
    rw [hfiles] at hresponded
    exact hresponded
  have hmade : Ran maker (.create (some (.basic, target))) machine
      (Report.accept false "create" fields []) written := ⟨_, rfl, hran⟩
  rcases sign_agrees_with_verify Suite.exact_accepts (Or.inl rfl) hmade with
    ⟨order, rule, password, address, signature, horder, hrule, hpassword, hagrees⟩
  cases horder
  cases hrule
  cases hpassword
  have hcopies : forall setting : Setting, setting.files = [.filled "w"] ->
      setting.LoadsCopies written.files written.files [Path.ofString "w"] := by
    intro setting hsetting
    refine ⟨["w"], hsetting, .cons ⟨rfl, data, ?_⟩ .nil⟩
    rw [hfiles]
    exact ⟨rfl, rfl⟩
  have hsign : Ran user (.sign (.filled "hello")) written _ _ :=
    ⟨["-p", "secret", "-f", "w", "sign", "-m", "hello"], rfl, rfl⟩
  have hverify : Ran user (.verify none none) written _ _ :=
    ⟨["-p", "secret", "-f", "w", "verify"], rfl, rfl⟩
  refine ⟨written, _, address, signature "hello", hran, ?_, ?_, ?_⟩
  · exact hagrees.signs user "hello" _ written _ _ rfl rfl (hcopies user rfl) hsign
  · exact hagrees.opens user _ written _ _ rfl rfl (hcopies user rfl) hverify
  · intro environment ending after hverified
    exact hagrees.accepts _ "hello" _ written ending after rfl (hcopies _ rfl) hverified

end Cli
end WalletVault
