import WalletVault.Cli.Program
import WalletVault.Session.Basic
import WalletVault.Session.Step

/-!
# Running a session

What each step does. A step that fails gives no names, but what it drew, wrote
or absorbed before it failed stays.
-/

namespace WalletVault

namespace FileSystem

/-- Everything below the working directory, with its path from there, in the order of the
paths. -/
def listing (fs : FileSystem) : List (String × Entry) :=
  let below := fs.entries.filterMap (fun (location, entry) =>
    if fs.working.isPrefixOf location && location.length > fs.working.length then
      some (String.intercalate "/" (location.drop fs.working.length), entry)
    else none)
  below.mergeSort (fun a b => !(b.1 < a.1))

end FileSystem

namespace Session

variable [Suite]

/-!
# Keys and formats
-/

def stepFormat : FormatStep -> Sessional Reply
  | .makeKey origin name => do
    let key ← vaulting (Machine.drawing origin.make)
    keep name (.key key)
    pure (.key key)
  | .sign name message => do
    let key ← key name
    pure (.bytes (key.sign message))
  | .make description name => do
    let format ← given description.make
    let number ← shelve format
    keep name (.format number)
    pure (.format format)
  | .describe name => do
    let number ← format name
    pure (.format ((← get).formatAt number))
  | .copy source name => do
    let number ← format source
    let copied := (← get).formatAt number
    let number ← shelve copied
    keep name (.format number)
    pure (.format copied)
  | .derive name password create => do
    let number ← format name
    let key ← workOn number (KeyFormat.deriveKey password create)
    pure (.derived key ((← get).formatAt number))
  | .shards source name => do
    let number ← format source
    let sharded ← given ((← get).formatAt number).toSharded
    let shards := sharded.shards.map KeyFormat.sharded
    let numbers ← shards.mapM shelve
    keepEach name (numbers.map .format)
    pure (.formats shards)
  | .absorb name other => do
    let number ← format name
    let other ← format other
    let receiver ← given ((← get).formatAt number).toSharded
    let giver ← given ((← get).formatAt other).toSharded
    let merged ← given (receiver.absorb giver)
    replace number (.sharded merged)
    pure (.format (.sharded merged))
  | .write name => do
    let number ← format name
    let data ← given ((← get).formatAt number).write
    pure (.bytes data)
  | .read name data => do
    let number ← format name
    let (result, intake) := KeyFormat.readInto ⟨(← get).formatAt number, data⟩
    replace number intake.format
    given result
    pure (.taken intake.format intake.rest)

/-!
# Wallets
-/

def bytesOf : Source -> Sessional Bytes
  | .data data => pure data
  | .named name => bytes name

def keepFresh (name : Option String) (fresh : Wallet) : Sessional Unit := do
  match name with
  | none => pure ()
  | some name =>
    let wallet ← shelveWallet fresh
    keep (some name) (.wallet wallet)

/-- Encrypts under a format on the shelf, which the wallet shares from then on. -/
def encryptUnder (action : SigningKey -> Password -> KeyFormat.Working Wallet) (keyName : String)
    (password : Password) (formatName name : String) : Sessional Reply := do
  let key ← key keyName
  let number ← format formatName
  let wallet ← workOn number (action key password)
  keep name (.wallet (wallet.withFormat number))
  pure (.wallet wallet)

def change (wallet : Container Nat) : FieldValue -> Container Nat
  | .kind kind => { wallet with kind }
  | .publicKey publicKey => { wallet with publicKey }
  | .iv iv => { wallet with iv }
  | .tag tag => { wallet with tag }
  | .encrypted encrypted => { wallet with encrypted }

def stepWallet : WalletStep -> Sessional Reply
  | .encrypt key password format name => encryptUnder Wallet.encrypt key password format name
  | .encryptChecked key password format name =>
    encryptUnder Keystore.encrypt key password format name
  | .make publicKey iv tag encrypted formatName kind name => do
    let number ← format formatName
    let kind := kind.getD ((← get).formatAt number).currentTag
    let made : Container Nat := { publicKey, iv, tag, encrypted, format := number, kind }
    keep name (.wallet made)
    pure (.wallet ((← get).resolve made))
  | .read source name => do
    let data ← bytesOf source
    let wallet ← given (Wallet.read data)
    keepFresh name wallet
    pure (.wallet wallet)
  | .write source name => do
    let wallet ← wallet source
    let data ← given ((← get).resolve wallet).write
    keep name (.bytes data)
    pure (.bytes data)
  | .decrypt source password name => do
    let wallet ← wallet source
    let key ← given (((← get).resolve wallet).decrypt password)
    keep name (.key key)
    pure (.key key)
  | .shards source name => do
    let wallet ← wallet source
    let shards ← given ((← get).resolve wallet).shards
    let held ← shards.mapM shelveWallet
    keepEach name (held.map .wallet)
    pure (.wallets shards)
  | .absorb name shard => do
    let receiver ← wallet name
    let giver ← wallet shard
    let session ← get
    let merged ← given ((session.resolve receiver).absorb (session.resolve giver))
    replace receiver.format merged.format
    pure (.shares merged.format.shares)
  | .set name value => do
    let old ← wallet name
    keep name (.wallet (change old value))
    pure .done
  | .describe name => do
    let wallet ← wallet name
    pure (.wallet ((← get).resolve wallet))
  | .info name => do
    let wallet ← wallet name
    let info ← given (Keystore.info ((← get).resolve wallet))
    pure (.info info)
  | .properties name => do
    let held ← wallet name
    let wallet := (← get).resolve held
    pure (.properties wallet.format.isSharded wallet.isLegacy wallet.address wallet.heliumAddress
      wallet.summary)

/-!
# Files
-/

omit [Suite] in
/-- Works on the files of the session by a path, which faults name as it was given. -/
def filing (path : String) (action : FileSystem -> Path -> Except FileSystem.Stop FileSystem) :
    Sessional Reply := do
  let session ← get
  let place := Path.ofString path
  if FileSystem.hasNull place then throw (.fault (.misuse .nullInPath))
  match action session.machine.files place with
  | .ok files =>
    set { session with machine := { session.machine with files } }
    pure .done
  | .error .null => throw (.fault (.misuse .nullInPath))
  | .error (.fault (.refused refusal _)) =>
    throw (.fault (.misuse (.system (.refused refusal path))))
  | .error (.fault cause) => throw (.fault (.misuse (.system cause)))

def stepFile : FileStep -> Sessional Reply
  | .put path source => do
    let data ← bytesOf source
    filing path (fun files place => files.writeFile place data)
  | .makeDirectory path =>
    filing path (fun files place => (files.makeDirectory place).mapError .fault)
  | .remove path =>
    filing path (fun files place => (files.removeFile place).mapError .fault)
  | .list => do
    pure (.listing (← get).machine.files.listing)
  | .writeWallet path name force => do
    let held ← wallet name
    let session ← get
    let written ← vaulting (Machine.filing
      (Store.writeWallet session.keystore.settings.ownerOnly force path (session.resolve held)))
    pure (.path written)
  | .writeShards path name force => do
    let held ← wallet name
    let session ← get
    let written ← vaulting (Machine.filing
      (Store.writeShards session.keystore.settings.ownerOnly force path (session.resolve held)))
    pure (.paths written)
  | .readWallet path name => do
    let wallet ← given (Store.readWallet (← get).machine.files path)
    keepFresh name wallet
    pure (.wallet wallet)
  | .loadWallet paths name => do
    let wallet ← given (Store.loadWallet (← get).machine.files paths)
    keepFresh name wallet
    pure (.wallet wallet)

/-!
# The keystore
-/

omit [Suite] in
def choice : HashRequest -> Sessional HashChoice
  | .standard => pure .standard
  | .named name => pure (.named name)
  | .described hash => do
    let hash ← given hash.make
    pure (.ready hash)

omit [Suite] in
def prepare (request : WalletRequest) : Sessional (KeySource × Options) := do
  let held ← request.key.mapM key
  let hash ← choice request.hash
  pure (⟨held, request.words, request.entropy⟩, ⟨hash, request.iterations, request.force⟩)

def stepVault : VaultStep -> Sessional Reply
  | .buildHash request iterations => do
    let hash ← choice request
    let hash ← vaulting (Machine.drawing ((← get).keystore.buildHash hash iterations))
    pure (.hash hash)
  | .createBasic output password request name => do
    let (source, options) ← prepare request
    let wallet ← vaulting ((← get).keystore.createBasic output password source options)
    keepFresh name wallet
    pure (.wallet wallet)
  | .createSharded output password count threshold request name => do
    let (source, options) ← prepare request
    let (wallet, paths) ← vaulting
      ((← get).keystore.createSharded output password count threshold source options)
    keepFresh name wallet
    pure (.written wallet paths)
  | .load inputs name => do
    let wallet ← given (Keystore.load (← get).machine.files inputs)
    keepFresh name wallet
    pure (.wallet wallet)
  | .loadSigningKey inputs password => do
    let key ← given (Keystore.loadSigningKey (← get).machine.files inputs password)
    pure (.key key)
  | .upgrade inputs password output form request name => do
    let (_, options) ← prepare request
    let (wallet, paths) ← vaulting
      ((← get).keystore.upgrade inputs password output form options)
    keepFresh name wallet
    pure (.written wallet paths)
  | .exportSeed inputs password exportPassword => do
    let (address, record) ← vaulting
      ((← get).keystore.exportSeed inputs password exportPassword)
    pure (.record address record)
  | .run arguments environment => fun session =>
    let (ending, machine) := Cli.run session.keystore environment arguments session.machine
    (.ok (.ending ending), { session with machine })

/-!
# Steps
-/

def step : Step -> Sessional Reply
  | .format step => stepFormat step
  | .wallet step => stepWallet step
  | .file step => stepFile step
  | .vault step => stepVault step

def start (keystore : Keystore) (random : RandomSource) : Session where
  keystore
  machine := ⟨⟨[(["vault"], .directory)], ["vault"], false, []⟩, random⟩
  formats := []
  registers := []

/-- Carries out steps one after the other; a step that fails does not stop the later ones. -/
def steps (session : Session) : List Step -> List (Except Trouble Reply) × Session
  | [] => ([], session)
  | first :: rest =>
    let (reply, session) := step first session
    let (replies, session) := steps session rest
    (reply :: replies, session)

end Session
end WalletVault
