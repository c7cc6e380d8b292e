import WalletVault.Cli.HelpText
import WalletVault.Cli.Switch

/-!
# Invocations

What the arguments of the program ask for. Switches that hold for every command
stand before it; a command has switches of its own and for `create` and
`upgrade` also the form of the new wallet. A password or a name of a variable
that is announced without a value counts as not given; other values that are
announced and not there keep their place as empty slots.
-/

namespace WalletVault
namespace Cli

/-- The variables with their values. Broken texts, here and among the arguments, are left out. -/
abbrev Environment := List (String × String)

/-!
# What can be asked for
-/

structure Common where
  files : List (Slot String)
  password : String
  passwordVariable : String
  pretty : Bool
  deriving DecidableEq, Repr

structure Target where
  output : Slot String
  force : Bool
  hash : String
  iterations : Option (Slot Int)
  seed : Option String
  secret : Option (Slot String)
  shareCount : Slot Int
  threshold : Slot Int
  deriving DecidableEq, Repr

inductive TargetForm where
  | basic
  | sharded
  deriving DecidableEq, Repr

inductive Export where
  | words
  | keypair
  | sealedWords (password : String)
  deriving DecidableEq, Repr

inductive Command where
  | create (target : Option (TargetForm × Target))
  | upgrade (target : Option (TargetForm × Target))
  | info
  | exportKey (kind : Export)
  | sign (message : Slot String)
  | verify (message signature : Option (Slot String))
  deriving DecidableEq, Repr

structure Invocation where
  common : Common
  command : Option Command
  deriving DecidableEq, Repr

/-!
# Switches
-/

namespace Common

def start : Common := ⟨[], "", "", false⟩

def switches (settings : Settings) : List (Switch Common) := [
  .help (HelpText.common settings),
  .text ["-f", "--file"] (fun file common => { common with files := common.files ++ [file] }),
  .text ["-p", "--password"]
    (fun password common => { common with password := password.getD "" }),
  .text ["-ep", "--env-password"]
    (fun name common => { common with passwordVariable := name.getD "" }),
  .flag ["--pretty"] (fun common => { common with pretty := true })]

end Common

namespace Target

def start (settings : Settings) : Target where
  output := .filled settings.output
  force := false
  hash := settings.passwordHash
  iterations := none
  seed := none
  secret := none
  shareCount := .filled settings.shareCount
  threshold := .filled settings.threshold

def basicSwitches : List (Switch Target) := [
  .text ["-o", "--output"] (fun output target => { target with output }),
  .flag ["--force"] (fun target => { target with force := true }),
  .choice ["--pwhash"] ["argon2id", "pbkdf2"]
    (fun hash target => { target with hash := hash.getD "" }),
  .number ["-i", "--iterations"] (fun n target => { target with iterations := some n })]

def keySwitches : List (Switch Target) := [
  .optionalText ["--seed"] (fun seed target => { target with seed := some (seed.getD "") }),
  .text ["--secret"] (fun secret target => { target with secret := some secret })]

def shardSwitches : List (Switch Target) := [
  .number ["-n", "--shards"] (fun shareCount target => { target with shareCount }),
  .number ["-k", "--required-shards"] (fun threshold target => { target with threshold })]

def switches (settings : Settings) (form : TargetForm) (withKey : Bool) : List (Switch Target) :=
  .help (HelpText.target settings withKey) :: basicSwitches ++
    (if withKey then keySwitches else []) ++
    (match form with
      | .basic => []
      | .sharded => shardSwitches)

end Target

namespace Export

/-- The kinds of exports by name, and the password of a sealed one. -/
abbrev Draft := String × String

def switches : List (Switch Draft) := [
  .help [],
  .choice ["--output"] ["seed", "key", "encrypted"] (fun kind draft => (kind.getD "", draft.2)),
  .text ["--export-password"] (fun password draft => (draft.1, password.getD ""))]

/-- The export that is asked for. Whatever is neither of the other two is the keypair. -/
def ofDraft (draft : Draft) : Export :=
  match draft.1 with
  | "seed" => .words
  | "encrypted" => .sealedWords draft.2
  | _ => .keypair

end Export

abbrev Signed := Option (Slot String) × Option (Slot String)

def messageSwitch : Switch Signed :=
  .text ["-m", "--message"] (fun message signed => (some message, signed.2))

def signatureSwitch : Switch Signed :=
  .text ["-s", "--signature"] (fun signature signed => (signed.1, some signature))

/-!
# Reading arguments
-/

/-- Takes apart the arguments of a command that has no commands of its own. Beside what is asked
for, this and the following tell whether an argument belonged to no switch. -/
def leaf {σ α : Type} (switches : List (Switch σ)) (start : σ) (arguments : List String)
    (result : σ -> Except Stop α) : Except Stop (α × Bool) := do
  let parsed ← parse switches false start arguments
  pure (← result parsed.state, parsed.stray)

def readTarget (settings : Settings) (withKey : Bool) (arguments : List String) :
    Except Stop (Option (TargetForm × Target) × Bool) := do
  let parsed ← parse ([.help []] : List (Switch Unit)) true () arguments
  let form ← match parsed.command with
    | none => return (none, parsed.stray)
    | some ("basic", rest) => pure (TargetForm.basic, rest)
    | some ("sharded", rest) => pure (TargetForm.sharded, rest)
    | some _ => throw .usage
  let (target, stray) ←
    leaf (Target.switches settings form.1 withKey) (Target.start settings) form.2 pure
  pure (some (form.1, target), parsed.stray || stray)

def readCommand (settings : Settings) (name : String) (arguments : List String) :
    Except Stop (Command × Bool) :=
  match name with
  | "create" =>
    (readTarget settings true arguments).map (fun (target, stray) => (.create target, stray))
  | "upgrade" =>
    (readTarget settings false arguments).map (fun (target, stray) => (.upgrade target, stray))
  | "info" => leaf ([.help []] : List (Switch Unit)) () arguments (fun _ => pure .info)
  | "export" =>
    leaf Export.switches ("encrypted", "") arguments
      (fun draft => pure (.exportKey (.ofDraft draft)))
  | "sign" =>
    leaf [.help [], messageSwitch] (none, none) arguments (fun signed =>
      match signed.1 with
      | some message => pure (.sign message)
      | none => throw .usage)
  | "verify" =>
    leaf [.help [], messageSwitch, signatureSwitch] (none, none) arguments (fun signed =>
      pure (.verify signed.1 signed.2))
  | _ => throw .usage

def Invocation.read (settings : Settings) (arguments : List String) :
    Except Stop Invocation := do
  let parsed ← parse (Common.switches settings) true Common.start arguments
  match parsed.command with
  | none => if parsed.stray then throw .usage else pure ⟨parsed.state, none⟩
  | some (name, rest) =>
    let (command, stray) ← readCommand settings name rest
    if parsed.stray || stray then throw .usage
    pure ⟨parsed.state, some command⟩

end Cli
end WalletVault
