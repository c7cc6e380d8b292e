import WalletVault.Files.Store
import WalletVault.SeedRecord
import WalletVault.Settings

/-!
# Keystores

Wallets from their creation to their export: new keys and restored ones, basic
and sharded files, upgrades of older files, and sealed phrases. Everything is
checked before anything is written.
-/

namespace WalletVault

structure Keystore where
  settings : Settings
  presets : Presets

structure Machine where
  files : FileSystem
  random : RandomSource

abbrev Vaulting := ExceptT Fault (StateM Machine)

namespace Machine

def drawing {α : Type} (action : Draw α) : Vaulting α := fun machine =>
  let (result, random) := action machine.random
  (result, { machine with random })

def filing {α : Type} (action : Store.Filing α) : Vaulting α := fun machine =>
  let (result, files) := action machine.files
  (result, { machine with files })

def working {α : Type} (format : KeyFormat) (action : KeyFormat.Working α) : Vaulting α :=
  fun machine =>
    let (result, bench) := action ⟨format, machine.random⟩
    (result, { machine with random := bench.random })

end Machine

/-!
# Choices
-/

inductive HashChoice where
  | standard
  | named (name : String)
  | ready (hash : PasswordHash)
  deriving DecidableEq

/-- Where the key of a new wallet comes from; without a source it is generated. -/
structure KeySource where
  signingKey : Option SigningKey
  words : Option Phrase.Given
  entropy : Option Bytes

structure Options where
  hash : HashChoice
  iterations : Option Int
  force : Bool

structure Info where
  solana : String
  helium : String
  kind : Int
  sharded : Bool
  hash : String
  legacy : Bool
  /-- Count, threshold, and the number of shares at hand. -/
  shares : Option (Nat × Nat × Nat)
  deriving DecidableEq, Repr

namespace Keystore

/-!
# Password hashes and keys
-/

/-- The name of the password hash that a name stands for: itself in lower case, or that of the
settings if it is empty. -/
def hashName (keystore : Keystore) (given : String) : String :=
  let name := if given.isEmpty then keystore.settings.passwordHash else given
  String.ofList (name.toList.map Text.lowerLetter)

def buildHash (keystore : Keystore) (choice : HashChoice) (iterations : Option Int) :
    Draw PasswordHash := do
  match choice with
  | .ready hash => pure hash
  | choice =>
    let given := match choice with
      | .named name => name
      | _ => ""
    match keystore.hashName given with
    | "pbkdf2" =>
      return .pbkdf2 (← Pbkdf2Params.generate (iterations.getD keystore.settings.iterations))
    | "argon2id" =>
      let limits ← ExceptT.mk (pure (keystore.presets.find keystore.settings.preset))
      return .argon2id (← Argon2idParams.generate limits)
    | _ => throw (.request (.unknownHash given))

variable [Suite]

def signingKey (source : KeySource) : Draw SigningKey :=
  match source.signingKey, source.words, source.entropy with
  | none, none, none => SigningKey.generate
  | some key, none, none => pure key
  | none, some words, none => ExceptT.mk (pure (SigningKey.ofWords words.words))
  | none, none, some entropy => ExceptT.mk (pure (SigningKey.ofEntropy entropy))
  | _, _, _ => throw (.request .severalKeys)

/-!
# Creating wallets
-/

inductive Form where
  | basic
  | sharded (count threshold : Option Int)
  deriving DecidableEq, Repr

omit [Suite] in
def ruleOf (keystore : Keystore) : Form -> Except Fault (Option ShareRule)
  | .basic => .ok none
  | .sharded count threshold =>
    match ShareRule.make (count.getD keystore.settings.shareCount)
        (threshold.getD keystore.settings.threshold) with
    | .ok rule => .ok (some rule)
    | .error cause => .error (.request cause)

omit [Suite] in
/-- The format of a new wallet, which holds no shares yet. -/
def formatOf (rule : Option ShareRule) (hash : PasswordHash) : KeyFormat :=
  match rule with
  | none => .basic hash
  | some rule => .sharded ⟨hash, rule, []⟩

/-- Encrypts a key under the format on the bench; the password must not be empty. -/
def encrypt (key : SigningKey) (password : Password) : KeyFormat.Working Wallet := do
  ExceptT.mk (pure (password.validate "Password"))
  Wallet.encrypt key password

/-- Makes a wallet without writing it. The rule of the shares is settled before anything is drawn,
and the key is drawn before the hash. -/
def make (keystore : Keystore) (form : Form) (key : Draw SigningKey) (hash : Draw PasswordHash)
    (password : Password) : Vaulting Wallet := do
  let rule ← ExceptT.mk (pure (keystore.ruleOf form))
  let key ← Machine.drawing key
  let hash ← Machine.drawing hash
  Machine.working (formatOf rule hash) (encrypt key password)

def createBasic (keystore : Keystore) (output : Option String) (password : Password)
    (source : KeySource) (options : Options) : Vaulting Wallet := do
  ExceptT.mk (pure (Path.validateOutput output))
  let wallet ← keystore.make .basic (signingKey source)
    (keystore.buildHash options.hash options.iterations) password
  let _ ← Machine.filing
    (Store.writeWallet keystore.settings.ownerOnly options.force (output.getD "") wallet)
  pure wallet

def createSharded (keystore : Keystore) (output : Option String) (password : Password)
    (count threshold : Option Int) (source : KeySource) (options : Options) :
    Vaulting (Wallet × List Path) := do
  ExceptT.mk (pure (Path.validateOutput output))
  let wallet ← keystore.make (.sharded count threshold) (signingKey source)
    (keystore.buildHash options.hash options.iterations) password
  let paths ← Machine.filing
    (Store.writeShards keystore.settings.ownerOnly options.force (output.getD "") wallet)
  pure (wallet, paths)

/-!
# Using wallets
-/

omit [Suite] in
def load (fs : FileSystem) (paths : Option (List (Option String))) : Except Fault Wallet := do
  Path.validateInputs paths
  Store.loadWallet fs ((paths.getD []).filterMap id)

def loadSigningKey (fs : FileSystem) (paths : Option (List (Option String)))
    (password : Password) : Except Fault SigningKey := do
  password.validate "Password"
  let wallet ← load fs paths
  wallet.decrypt password

def upgrade (keystore : Keystore) (paths : Option (List (Option String))) (password : Password)
    (output : Option String) (form : Form) (options : Options) :
    Vaulting (Wallet × List Path) := do
  let key ← ExceptT.mk (pure (loadSigningKey (← get).files paths password))
  let source : KeySource := ⟨some key, none, none⟩
  match form with
  | .sharded count threshold =>
    keystore.createSharded output password count threshold source options
  | .basic =>
    let wallet ← keystore.createBasic output password source options
    pure (wallet, [Path.ofString (output.getD "")])

def exportSeed (keystore : Keystore) (paths : Option (List (Option String)))
    (password exportPassword : Password) : Vaulting (String × SeedRecord) := do
  ExceptT.mk (pure (exportPassword.validate "Export password"))
  let key ← ExceptT.mk (pure (loadSigningKey (← get).files paths password))
  let limits ← ExceptT.mk (pure (keystore.presets.find keystore.settings.exportPreset))
  let record ← Machine.drawing (SeedRecord.ofKey key exportPassword limits)
  pure (key.address, record)

def info (wallet : Wallet) : Except Fault Info := do
  let solana ← wallet.address
  let legacy ← wallet.isLegacy
  pure {
    solana
    helium := wallet.heliumAddress
    kind := wallet.kind
    sharded := wallet.format.isSharded
    hash := wallet.format.hash.name
    legacy
    shares := match wallet.format with
      | .basic _ => none
      | .sharded format => some (format.rule.count, format.rule.threshold, format.shares.length) }

end Keystore
end WalletVault
