import WalletVault.KeyFormat
import WalletVault.SigningKey

/-!
# Descriptions

Keys, password hashes and formats as somebody describes them. What a
description leaves out takes its usual value; what it says is checked when the
thing is made.
-/

namespace WalletVault

/-!
# Keys
-/

inductive KeyOrigin where
  | seed (seed : Bytes)
  | entropy (entropy : Bytes)
  | words (words : Phrase.Given)
  | keypair (data : Bytes)
  | secret (secret : Secret)
  | fresh
  deriving DecidableEq, Repr

def KeyOrigin.make [Suite] : KeyOrigin -> Draw SigningKey
  | .seed data => ExceptT.mk (pure (SigningKey.ofSeed data))
  | .entropy data => ExceptT.mk (pure (SigningKey.ofEntropy data))
  | .words given => ExceptT.mk (pure (SigningKey.ofWords given.words))
  | .keypair data => ExceptT.mk (pure (SigningKey.ofBytes data))
  | .secret given => ExceptT.mk (pure (SigningKey.ofSecret given))
  | .fresh => SigningKey.generate

/-!
# Password hashes
-/

inductive HashDescription where
  | pbkdf2 (salt : Option Bytes) (iterations : Option Int)
  | argon2id (salt : Option Bytes) (memory passes : Option Int)
  deriving DecidableEq, Repr

def HashDescription.make : HashDescription -> Except Fault PasswordHash
  | .pbkdf2 salt iterations =>
    let blank := PasswordHash.blankPbkdf2
    (Pbkdf2Params.make (salt.getD blank.salt) (iterations.getD blank.iterations)).map .pbkdf2
  | .argon2id salt memory passes =>
    let blank := PasswordHash.blankArgon2id
    (Argon2idParams.make (salt.getD blank.salt)
      ⟨passes.getD blank.passes, memory.getD blank.memory⟩).map .argon2id

/-!
# Formats
-/

inductive FormatDescription where
  | basic (hash : HashDescription)
  | sharded (hash : HashDescription) (count threshold : Option Int) (shares : List Bytes)
  deriving DecidableEq, Repr

/-- Makes the format. Shares are looked at before the hash, and the rule last. -/
def FormatDescription.make : FormatDescription -> Except Fault KeyFormat
  | .basic hash => hash.make.map .basic
  | .sharded hash count threshold shares => do
    let shares ← shares.mapM KeyShare.ofBytes
    let hash ← hash.make
    match ShareRule.make (count.getD ShareRule.standard.count)
        (threshold.getD ShareRule.standard.threshold) with
    | .ok rule => pure (.sharded ⟨hash, rule, shares⟩)
    | .error cause => throw (.request cause)

end WalletVault
