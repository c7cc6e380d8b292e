import WalletVault.Password
import WalletVault.RandomSource
import WalletVault.Suite
import WalletVault.Wire

/-!
# Password hashes

The two ways to stretch a password into a key of 32 bytes, each with its salt
and work factors. A wallet file names the way by a selector byte and holds the
parameters in a block of their own.
-/

namespace WalletVault

/-!
# Parameters
-/

structure Pbkdf2Params where
  salt : Bytes
  iterations : Int
  length_salt : salt.length = 8
  deriving DecidableEq

structure Argon2idParams where
  salt : Bytes
  memory : Int
  passes : Int
  length_salt : salt.length = 16
  deriving DecidableEq

inductive PasswordHash where
  | pbkdf2 (params : Pbkdf2Params)
  | argon2id (params : Argon2idParams)
  deriving DecidableEq

structure Argon2Limits where
  passes : Int
  memory : Int
  deriving DecidableEq, Repr

namespace Pbkdf2Params

def standardIterations : Int := 1000000

def make (salt : Bytes) (iterations : Int) : Except Fault Pbkdf2Params :=
  if h : salt.length = 8 then .ok ⟨salt, iterations, h⟩
  else .error (.request (.saltSize "PBKDF2" 8))

/-- The limit that is not met: an iteration at least, and a count of one machine word at most. -/
def flaw? (params : Pbkdf2Params) : Option HashLimit :=
  if params.iterations < 1 then some .iterations
  else if (Nat.pow 2 64 : Nat) <= params.iterations then some .iterationsWidth
  else none

def generate (iterations : Int) : Draw Pbkdf2Params := do
  if iterations < 1 then throw (.request .iterations)
  let salt ← draw 8
  ExceptT.mk (pure (make salt iterations))

end Pbkdf2Params

namespace Argon2idParams

def make (salt : Bytes) (limits : Argon2Limits) : Except Fault Argon2idParams :=
  if h : salt.length = 16 then .ok ⟨salt, limits.memory, limits.passes, h⟩
  else .error (.request (.saltSize "Argon2id" 16))

def generate (limits : Argon2Limits) : Draw Argon2idParams := do
  let salt ← draw 16
  ExceptT.mk (pure (make salt limits))

/-- The first limit that is not met, the memory before the passes. -/
def flaw? [Suite] (params : Argon2idParams) : Option HashLimit :=
  if params.memory < 8192 then some .memoryBelow
  else if params.memory > 4398046510080 then some .memoryAbove
  else if params.passes < 1 then some .passesBelow
  else if params.passes > 4294967295 then some .passesAbove
  else if Suite.hasMemory params.memory.toNat then none
  else some .memoryAtHand

end Argon2idParams

/-!
# Presets
-/

abbrev Presets := List (String × Argon2Limits)

namespace Presets

/-- The limits meant for an unlock that somebody waits for. -/
def interactive : Argon2Limits := ⟨2, 67108864⟩

def moderate : Argon2Limits := ⟨3, 268435456⟩

def sensitive : Argon2Limits := ⟨4, 1073741824⟩

def standard : Presets := [
  ("interactive", interactive), ("moderate", moderate), ("sensitive", sensitive)]

def find (presets : Presets) (name : String) : Except Fault Argon2Limits :=
  match presets.lookup name with
  | some limits => .ok limits
  | none => .error (.request (.unknownPreset name))

end Presets

namespace PasswordHash

/-!
# Names and selectors
-/

def selector : PasswordHash -> Nat
  | pbkdf2 _ => 0
  | argon2id _ => 1

def name : PasswordHash -> String
  | pbkdf2 _ => "pbkdf2"
  | argon2id _ => "argon2id"

def blankPbkdf2 : Pbkdf2Params :=
  ⟨Bytes.zeros 8, Pbkdf2Params.standardIterations, rfl⟩

def blankArgon2id : Argon2idParams :=
  ⟨Bytes.zeros 16, Presets.sensitive.memory, Presets.sensitive.passes, rfl⟩

def ofSelector (tag : Nat) : Except Fault PasswordHash :=
  match tag with
  | 0 => .ok (pbkdf2 blankPbkdf2)
  | 1 => .ok (argon2id blankArgon2id)
  | tag => .error (.malformed (.hashKind tag))

def generate (name : String) : Draw PasswordHash := do
  match String.ofList (name.toList.map Text.lowerLetter) with
  | "pbkdf2" => return pbkdf2 (← Pbkdf2Params.generate Pbkdf2Params.standardIterations)
  | "argon2id" => return argon2id (← Argon2idParams.generate Presets.sensitive)
  | _ => throw (.request (.unknownHash name))

/-!
# Derivation
-/

def derive [Suite] (password : Password) (hash : PasswordHash) : Except Fault Bytes :=
  match password.toBytes with
  | .error fault => .error fault
  | .ok secret =>
    match hash with
    | pbkdf2 params =>
      match params.flaw? with
      | some limit => .error (.derivation limit)
      | none => .ok (Suite.pbkdf2 secret params.salt params.iterations.toNat)
    | argon2id params =>
      match params.flaw? with
      | some limit => .error (.derivation limit)
      | none =>
        .ok (Suite.argon2id secret params.salt params.passes.toNat (params.memory.toNat / 1024))

/-!
# The parameter block
-/

def write : PasswordHash -> Except Fault Bytes
  | pbkdf2 params => do
    let iterations ← Wire.put .u32 params.iterations
    pure (params.salt ++ iterations)
  | argon2id params => do
    let memory ← Wire.put .u32 params.memory
    let passes ← Wire.put .u32 params.passes
    pure (params.salt ++ memory ++ passes)

def read (kind : PasswordHash) : Wire.Reader PasswordHash := do
  match kind with
  | pbkdf2 _ =>
    let salt ← Wire.exact 8
    let iterations ← Wire.u32
    return pbkdf2 (← ExceptT.mk (pure (Pbkdf2Params.make salt iterations)))
  | argon2id _ =>
    let salt ← Wire.exact 16
    let memory ← Wire.u32
    let passes ← Wire.u32
    return argon2id (← ExceptT.mk (pure (Argon2idParams.make salt ⟨passes, memory⟩)))

def readSelector : Wire.Reader PasswordHash := do
  ExceptT.mk (pure (ofSelector (← Wire.u8)))

end PasswordHash
end WalletVault
