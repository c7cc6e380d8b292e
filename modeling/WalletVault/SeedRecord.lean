import WalletVault.Base64
import WalletVault.PasswordHash
import WalletVault.SigningKey

/-!
# Exported phrases

A phrase sealed under a password of its own, as a record of texts that renders
as JSON. Reading a record checks its fields; opening it fails alike for a wrong
password and a damaged box.
-/

namespace WalletVault

/-- A version as it stands in a record, where a truth value counts as zero or one. -/
inductive RecordVersion where
  | number (n : Int)
  | flag (b : Bool)
  deriving DecidableEq, Repr

def RecordVersion.value : RecordVersion -> Int
  | number n => n
  | flag b => if b then 1 else 0

def RecordVersion.toJson : RecordVersion -> Json
  | number n => .int n
  | flag b => .bool b

structure SeedRecord where
  version : RecordVersion
  salt : String
  nonce : String
  ciphertext : String
  deriving DecidableEq, Repr

namespace SeedRecord

/-!
# Records as JSON objects
-/

def toFields (record : SeedRecord) : List (String × Json) := [
  ("version", record.version.toJson), ("salt", .text record.salt),
  ("nonce", .text record.nonce), ("ciphertext", .text record.ciphertext)]

def field (fields : List (String × Json)) (name : String) : Except Fault Json :=
  match fields.lookup name with
  | some value => .ok value
  | none => .error (.request (.recordFieldMissing name))

def textOf (name : String) : Json -> Except Fault String
  | .text value => .ok value
  | _ => .error (.request (.recordText name))

/-- Reads the fields of an object. All fields have to be there before any is looked at. -/
def ofFields (fields : List (String × Json)) : Except Fault SeedRecord := do
  let version ← field fields "version"
  let salt ← field fields "salt"
  let nonce ← field fields "nonce"
  let ciphertext ← field fields "ciphertext"
  let version ← match version with
    | .int n => pure (RecordVersion.number n)
    | .bool b => pure (RecordVersion.flag b)
    | _ => throw (.request .recordVersion)
  let salt ← textOf "salt" salt
  let nonce ← textOf "nonce" nonce
  let ciphertext ← textOf "ciphertext" ciphertext
  pure { version, salt, nonce, ciphertext }

/-!
# Sealing and opening
-/

variable [Suite]

def exportKey (password : Password) (salt : Bytes) (limits : Argon2Limits) :
    Except Fault Bytes := do
  let params ← Argon2idParams.make salt limits
  PasswordHash.derive password (.argon2id params)

def ofKey (key : SigningKey) (password : Password) (limits : Argon2Limits) : Draw SeedRecord := do
  let salt ← draw 16
  let nonce ← draw 24
  let phrase ← ExceptT.mk (pure key.phrase)
  let secret ← ExceptT.mk (pure (exportKey password salt limits))
  pure {
    version := .number 1
    salt := Base64.encode salt
    nonce := Base64.encode nonce
    ciphertext := Base64.encode (Suite.boxEncrypt secret nonce (utf8 phrase)) }

omit [Suite] in
def bytesOf (text : String) : Except Fault Bytes :=
  match Base64.decode text with
  | .ok data => .ok data
  | .error _ => .error (.sealed .seedText)

/-- Opens a record. Everything that needs no key is checked before the key is derived. -/
def toPhrase (record : SeedRecord) (password : Password) (limits : Argon2Limits) :
    Except Fault String := do
  if record.version.value ≠ 1 then throw (.sealed .seedVersion)
  let salt ← bytesOf record.salt
  let nonce ← bytesOf record.nonce
  let box ← bytesOf record.ciphertext
  if salt.length ≠ 16 then throw (.sealed .seedSalt)
  if nonce.length ≠ 24 then throw (.sealed .seedNonce)
  let secret ← exportKey password salt limits
  match (Suite.boxDecrypt? secret nonce box).bind ofUtf8? with
  | some phrase => pure phrase
  | none => throw (.sealed .seedBox)

end SeedRecord
end WalletVault
