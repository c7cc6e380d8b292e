import WalletVault.Cli.Invocation
import WalletVault.Cli.Report

/-!
# The program

The commands on wallet files. Each one settles first what it was given (the
form, the password, the key to import) and works on files only after that. A
command with an empty slot goes as far as it gets without that value.
`run` takes a list of arguments to an ending and to the machine it leaves.
-/

namespace WalletVault
namespace Cli

structure Setting where
  keystore : Keystore
  environment : Environment
  common : Common

namespace Setting

/-!
# What is given
-/

/-- The value of a variable; an empty one counts as none. -/
def valueOf? (setting : Setting) (name : String) : Option String :=
  (setting.environment.lookup name).filter (fun value => !value.isEmpty)

def password (setting : Setting) : Except Fault Password :=
  let given := setting.common.password
  let named := setting.common.passwordVariable
  if !given.isEmpty && !named.isEmpty then .error (.request .twoPasswords)
  else if !given.isEmpty then .ok (.text given)
  else
    let name := if named.isEmpty then setting.keystore.settings.passwordVariable else named
    match setting.valueOf? name with
    | some value => .ok (.text value)
    | none => .error (.request (.noPassword name))

def given {α : Type} (result : Except Fault α) : Vaulting α :=
  ExceptT.mk (pure result)

def files (setting : Setting) : List (Slot String) :=
  if setting.common.files.isEmpty then [.filled setting.keystore.settings.output]
  else setting.common.files

/-- The words to restore a key from. An empty value stands for those in the environment. -/
def seedWords (setting : Setting) : Option String -> Except Fault (Option String)
  | none => .ok none
  | some seed =>
    if !seed.isEmpty then .ok (some seed)
    else
      let name := setting.keystore.settings.seedWordsVariable
      match name.bind setting.valueOf? with
      | some words => .ok (some words)
      | none => .error (.request (.noSeedWords name))

end Setting

/-!
# Secrets to import
-/

def kindName : Json -> String
  | .null => "NoneType"
  | .bool _ => "bool"
  | .int _ => "int"
  | .float _ => "float"
  | .text _ => "str"
  | .array _ => "list"
  | .object _ => "dict"

def byteOf : Json -> Except ByteListFlaw UInt8
  | .int n =>
    if 0 <= n ∧ n < 256 then .ok (UInt8.ofNat n.toNat) else .error .outOfRange
  | .bool b => .ok (if b then 1 else 0)
  | item => .error (.notInteger (kindName item))

variable [Suite]

def readNumbers (text : String) : Except Fault SigningKey :=
  match Json.read text with
  | .error (.flaw flaw) => .error (.request (.secretJson flaw))
  | .error (.tooLong digits) => .error (.misuse (.numberTooLong digits))
  | .error (.tooDeep bracket) => .error (.misuse (.nestedTooDeep bracket))
  | .ok (.array items) =>
    match items.mapM byteOf with
    | .error flaw => .error (.request (.secretBytes flaw))
    | .ok data => SigningKey.ofSecret (.bytes data)
  | .ok item => .error (.request (.secretBytes (.notInteger (kindName item))))

/-- Reads an exported keypair: a list of numbers if it starts with a bracket, base-58 if not. -/
def readSecret (secret : Slot String) : Except Fault SigningKey := do
  let text := Text.trim (← secret.need .secret).toList
  if text.head? = some '[' then readNumbers (String.ofList text)
  else SigningKey.ofSecret (.text (String.ofList text))

namespace Setting

/-!
# Slots
-/

/-- The files to load as they are handed on. If one has no name, those before it are loaded all
the same, so that their faults come first. -/
def inputs (setting : Setting) : Vaulting (Option (List (Option String))) := do
  let names := setting.files.filterMap Slot.value?
  if names.length = setting.files.length then pure (some (names.map some))
  else
    given (names.forM (fun name => Path.validateOutput (some name)))
    let before := (setting.files.takeWhile (· ≠ .empty)).filterMap Slot.value?
    if before ≠ [] then
      let _ ← given (Store.loadWallet (← get).files before)
    throw (.misuse (.noValue .path))

omit [Suite] in
/-- The iterations of a target. They need no value where the password hash has none. -/
def iterations (setting : Setting) (target : Target) : Slot (Option Int) :=
  match target.iterations with
  | none => .filled none
  | some (.filled n) => .filled (some n)
  | some .empty =>
    if setting.keystore.hashName target.hash = "pbkdf2" then .empty else .filled none

structure Order where
  output : String
  form : Keystore.Form
  options : Options

omit [Suite] in
def order? (setting : Setting) (form : TargetForm) (target : Target) : Option Order := do
  let output ← target.output.value?
  let iterations ← (setting.iterations target).value?
  let options : Options := ⟨.named target.hash, iterations, target.force⟩
  match form with
  | .basic => pure ⟨output, .basic, options⟩
  | .sharded => do
    let count ← target.shareCount.value?
    let threshold ← target.threshold.value?
    pure ⟨output, .sharded (some count) (some threshold), options⟩

omit [Suite] in
/-- The form of a target, for which the threshold is looked at first. -/
def formOf (target : Target) : TargetForm -> Except Fault Keystore.Form
  | .basic => .ok .basic
  | .sharded => do
    let threshold ← target.threshold.need .shareNumber
    if threshold < 1 ∨ 255 < threshold then throw (.request .thresholdRange)
    let count ← target.shareCount.need .shareNumber
    pure (.sharded (some count) (some threshold))

/-- Makes a wallet from a target with an empty slot as far as that goes: the output is needed
last, the iterations before it, and the numbers of shares before anything is drawn. -/
def stopShort {α : Type} (setting : Setting) (form : TargetForm) (target : Target)
    (password : Password) (key : Draw SigningKey) : Vaulting α := do
  match target.output with
  | .filled output => given (Path.validateOutput (some output))
  | .empty => pure ()
  let form ← given (formOf target form)
  let hash : Draw PasswordHash := match setting.iterations target with
    | .filled iterations => setting.keystore.buildHash (.named target.hash) iterations
    | .empty => throw (.misuse (.noValue .iterations))
  let _ ← setting.keystore.make form key hash password
  throw (.misuse (.noValue .path))

/-!
# Commands
-/

def create (setting : Setting) : Option (TargetForm × Target) -> Vaulting Fields
  | none => throw (.request .noWalletFormat)
  | some (form, target) => do
    if target.seed.isSome && target.secret.isSome then throw (.request .seedAndSecret)
    let password ← given setting.password
    let key ← given (target.secret.mapM readSecret)
    let words ← given (setting.seedWords target.seed)
    let source : KeySource := ⟨key, words.map .text, none⟩
    let (wallet, files) ← match setting.order? form target with
      | none => setting.stopShort form target password (Keystore.signingKey source)
      | some ⟨output, .basic, options⟩ => do
        let wallet ← setting.keystore.createBasic (some output) password source options
        pure (wallet, [output])
      | some ⟨output, .sharded count threshold, options⟩ => do
        let (wallet, paths) ← setting.keystore.createSharded (some output) password count threshold
          source options
        pure (wallet, paths.map Path.toString)
    let info ← given (Keystore.info wallet)
    pure (Report.ofFiles files ++ Report.ofInfo info)

def upgrade (setting : Setting) : Option (TargetForm × Target) -> Vaulting Fields
  | none => throw (.request .noWalletFormat)
  | some (form, target) => do
    let password ← given setting.password
    let inputs ← setting.inputs
    let (wallet, paths) ← match setting.order? form target with
      | none => do
        let key ← given (Keystore.loadSigningKey (← get).files inputs password)
        setting.stopShort form target password (pure key)
      | some order =>
        setting.keystore.upgrade inputs password (some order.output) order.form order.options
    let info ← given (Keystore.info wallet)
    pure (Report.ofFiles (paths.map Path.toString) ++ Report.ofInfo info)

def info (setting : Setting) : Vaulting Fields := do
  let inputs ← setting.inputs
  let wallet ← given (Keystore.load (← get).files inputs)
  let info ← given (Keystore.info wallet)
  pure (Report.ofInfo info)

def exportKey (setting : Setting) (kind : Export) : Vaulting Fields := do
  let password ← given setting.password
  match kind with
  | .sealedWords exportPassword =>
    if exportPassword.isEmpty then throw (.request .noExportPassword)
    let inputs ← setting.inputs
    let (address, record) ←
      setting.keystore.exportSeed inputs password (.text exportPassword)
    pure [("address", .text address), ("seed", .object record.toFields)]
  | .words =>
    let inputs ← setting.inputs
    let key ← given (Keystore.loadSigningKey (← get).files inputs password)
    let words ← given key.words
    pure [("address", .text key.address), ("phrase", .array (words.map Json.text))]
  | .keypair =>
    let inputs ← setting.inputs
    let key ← given (Keystore.loadSigningKey (← get).files inputs password)
    let numbers := key.toBytes.map (fun b => Json.int b.toNat)
    pure [("address", .text key.address), ("key", .array numbers)]

def sign (setting : Setting) (message : Slot String) : Vaulting Fields := do
  let password ← given setting.password
  let inputs ← setting.inputs
  let key ← given (Keystore.loadSigningKey (← get).files inputs password)
  let message ← given (message.need .messageText)
  let signature := Base64.encode (key.sign (utf8 message))
  pure [("address", .text key.address), ("signature", .text signature)]

def verifySignature (setting : Setting) (message signature : Slot String) :
    Vaulting Fields := do
  let signature ← given (signature.need .signatureText)
  let signature ← match Base64.decode signature with
    | .ok data => pure data
    | .error flaw => throw (.request (.signatureText flaw))
  let inputs ← setting.inputs
  let wallet ← given (Keystore.load (← get).files inputs)
  let message ← given (message.need .messageText)
  let address ← given wallet.address
  pure [
    ("address", .text address),
    ("valid", .bool (Suite.verify wallet.publicKey (utf8 message) signature))]

/-- Checks the password of a wallet. That it does not open the wallet is an answer; that the
wallet cannot be read or its shares do not suffice is a fault. -/
def verifyPassword (setting : Setting) : Vaulting Fields := do
  let password ← given setting.password
  let inputs ← setting.inputs
  let wallet ← given (Keystore.load (← get).files inputs)
  let valid ← match wallet.decrypt password with
    | .ok _ => pure true
    | .error (.sealed _) => pure false
    | .error fault => throw fault
  let address ← given wallet.address
  pure [
    ("address", .text address), ("sharded", .bool wallet.format.isSharded),
    ("valid", .bool valid)]

def verify (setting : Setting) (message signature : Option (Slot String)) : Vaulting Fields :=
  match message, signature with
  | some message, some signature => setting.verifySignature message signature
  | none, none => setting.verifyPassword
  | _, _ => throw (.request .messageWithoutSignature)

def perform (setting : Setting) : Command -> Vaulting Fields
  | .create target => setting.create target
  | .upgrade target => setting.upgrade target
  | .info => setting.info
  | .exportKey kind => setting.exportKey kind
  | .sign message => setting.sign message
  | .verify message signature => setting.verify message signature

end Setting

def Command.name : Command -> String
  | create _ => "create"
  | upgrade _ => "upgrade"
  | info => "info"
  | exportKey _ => "export"
  | sign _ => "sign"
  | verify _ _ => "verify"

/-!
# Runs
-/

def respond (keystore : Keystore) (environment : Environment) (invocation : Invocation) :
    StateM Machine Ending :=
  match invocation.command with
  | none => pure (Report.refuse "missing_command" "No command specified" [])
  | some command => do
    let setting : Setting := ⟨keystore, environment, invocation.common⟩
    let before := (← get).files
    let result ← (setting.perform command).run
    let logged := before.linesSince (← get).files
    pure (Report.ofResult invocation.common.pretty command.name logged result)

def run (keystore : Keystore) (environment : Environment) (arguments : List String) :
    StateM Machine Ending :=
  match Invocation.read keystore.settings arguments with
  | .error stop => pure (Report.ofStop stop)
  | .ok invocation => respond keystore environment invocation

end Cli
end WalletVault
