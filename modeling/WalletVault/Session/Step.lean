import WalletVault.Cli.Invocation
import WalletVault.Cli.Report
import WalletVault.Session.Description

/-!
# Steps and replies

What can be asked of a session, step by step, and the shapes of the answers.
Things are named by the names they were given when they were made.
-/

namespace WalletVault

/-!
# What can be done
-/

inductive Source where
  | data (data : Bytes)
  | named (name : String)
  deriving DecidableEq, Repr

inductive FieldValue where
  | kind (tag : Int)
  | publicKey (data : Bytes)
  | iv (data : Bytes)
  | tag (data : Bytes)
  | encrypted (data : Bytes)
  deriving DecidableEq, Repr

inductive HashRequest where
  | standard
  | named (name : String)
  | described (hash : HashDescription)
  deriving DecidableEq, Repr

structure WalletRequest where
  key : Option String
  words : Option Phrase.Given
  entropy : Option Bytes
  hash : HashRequest
  iterations : Option Int
  force : Bool
  deriving DecidableEq, Repr

abbrev Inputs := Option (List (Option String))

inductive FormatStep where
  | makeKey (origin : KeyOrigin) (name : String)
  | sign (key : String) (message : Bytes)
  | make (description : FormatDescription) (name : String)
  | describe (format : String)
  | copy (format name : String)
  | derive (format : String) (password : Password) (create : Bool)
  | shards (format name : String)
  | absorb (format other : String)
  | write (format : String)
  | read (format : String) (data : Bytes)

inductive WalletStep where
  | encrypt (key : String) (password : Password) (format name : String)
  | encryptChecked (key : String) (password : Password) (format name : String)
  | make (publicKey iv tag encrypted : Bytes) (format : String) (kind : Option Int) (name : String)
  | read (source : Source) (name : Option String)
  | write (wallet : String) (name : Option String)
  | decrypt (wallet : String) (password : Password) (name : Option String)
  | shards (wallet name : String)
  | absorb (wallet shard : String)
  | set (wallet : String) (value : FieldValue)
  | describe (wallet : String)
  | info (wallet : String)
  | properties (wallet : String)

inductive FileStep where
  | put (path : String) (source : Source)
  | makeDirectory (path : String)
  | remove (path : String)
  | list
  | writeWallet (path wallet : String) (force : Bool)
  | writeShards (path wallet : String) (force : Bool)
  | readWallet (path : String) (name : Option String)
  | loadWallet (paths : List String) (name : Option String)

inductive VaultStep where
  | buildHash (hash : HashRequest) (iterations : Option Int)
  | createBasic (output : Option String) (password : Password) (request : WalletRequest)
    (name : Option String)
  | createSharded (output : Option String) (password : Password) (count threshold : Option Int)
    (request : WalletRequest) (name : Option String)
  | load (inputs : Inputs) (name : Option String)
  | loadSigningKey (inputs : Inputs) (password : Password)
  | upgrade (inputs : Inputs) (password : Password) (output : Option String)
    (form : Keystore.Form) (request : WalletRequest) (name : Option String)
  | exportSeed (inputs : Inputs) (password exportPassword : Password)
  | run (arguments : List String) (environment : Cli.Environment)

inductive Step where
  | format (step : FormatStep)
  | wallet (step : WalletStep)
  | file (step : FileStep)
  | vault (step : VaultStep)

/-!
# What is answered
-/

inductive Reply where
  | done
  | key (key : SigningKey)
  | bytes (data : Bytes)
  | format (format : KeyFormat)
  | formats (formats : List KeyFormat)
  | derived (key : Bytes) (format : KeyFormat)
  | taken (format : KeyFormat) (rest : Bytes)
  | wallet (wallet : Wallet)
  | wallets (wallets : List Wallet)
  | shares (shares : List KeyShare)
  | info (info : Info)
  | properties (sharded : Bool) (legacy : Except Fault Bool) (address : Except Fault String)
    (helium : String) (summary : Except Fault String)
  | listing (entries : List (String × Entry))
  | path (path : Path)
  | paths (paths : List Path)
  | written (wallet : Wallet) (paths : List Path)
  | hash (hash : PasswordHash)
  | record (address : String) (record : SeedRecord)
  | ending (ending : Cli.Ending)

end WalletVault
