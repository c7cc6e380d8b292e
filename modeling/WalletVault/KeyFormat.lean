import WalletVault.KeyShare
import WalletVault.PasswordHash

/-!
# Key formats

How the key of a wallet follows from a password. In a basic format it is the
stretched password. In a sharded format it is the authentication code of the
stretched password under a secret, and the secret is split into key shares. A
format that holds no shares yet makes its secret when it first encrypts, and
keeps the shares even if the encryption fails later on.
-/

namespace WalletVault

/-!
# Share rules
-/

structure ShareRule where
  count : Nat
  threshold : Nat
  one_le_threshold : 1 <= threshold
  threshold_le_count : threshold <= count
  count_le : count <= 255
  deriving DecidableEq

namespace ShareRule

def standard : ShareRule :=
  ⟨5, 3, by decide, by decide, by decide⟩

def make (count threshold : Int) : Except Request ShareRule :=
  if ht : 1 <= threshold ∧ threshold <= 255 then
    if hc : 1 <= count ∧ count <= 255 then
      if h : threshold <= count then
        .ok ⟨count.toNat, threshold.toNat, by omega, by omega, by omega⟩
      else .error (.thresholdAboveCount threshold count)
    else .error .countRange
  else .error .thresholdRange

def read : Wire.Reader ShareRule := do
  let count ← Wire.u8
  let threshold ← Wire.u8
  match make count threshold with
  | .ok rule => pure rule
  | .error cause => throw (.malformed (.shards cause))

end ShareRule

def KeyShare.read : Wire.Reader KeyShare := do
  ExceptT.mk (pure (KeyShare.ofBytes (← Wire.exact 33)))

/-!
# Formats
-/

structure ShardedFormat where
  hash : PasswordHash
  rule : ShareRule
  shares : List KeyShare
  deriving DecidableEq

inductive KeyFormat where
  | basic (hash : PasswordHash)
  | sharded (format : ShardedFormat)
  deriving DecidableEq

namespace ShardedFormat

/-- One format for each share, holding only that share. -/
def shards (format : ShardedFormat) : List ShardedFormat :=
  format.shares.map (fun share => { format with shares := [share] })

def absorb (format other : ShardedFormat) : Except Fault ShardedFormat :=
  if format.rule.count = other.rule.count ∧ format.rule.threshold = other.rule.threshold then
    .ok { format with shares := format.shares ++ other.shares }
  else .error .incongruent

def recover (format : ShardedFormat) : Except Fault Bytes :=
  if format.shares.length < format.rule.threshold then
    .error (.fewShares format.shares.length format.rule.threshold)
  else KeyShare.combine format.shares (some format.rule.threshold)

def keyOf [Suite] (format : ShardedFormat) (secret : Bytes) (password : Password) :
    Except Fault Bytes :=
  (format.hash.derive password).map (Suite.hmac secret)

def write (format : ShardedFormat) : Except Fault Bytes :=
  match format.shares with
  | [share] =>
    .ok (UInt8.ofNat format.rule.count :: UInt8.ofNat format.rule.threshold :: share.data)
  | shares => .error (.request (.shareNumber shares.length))

end ShardedFormat

namespace KeyFormat

def isSharded : KeyFormat -> Bool
  | basic _ => false
  | sharded _ => true

def hash : KeyFormat -> PasswordHash
  | basic hash => hash
  | sharded format => format.hash

def withHash (hash : PasswordHash) : KeyFormat -> KeyFormat
  | basic _ => basic hash
  | sharded format => sharded { format with hash }

def shares : KeyFormat -> List KeyShare
  | basic _ => []
  | sharded format => format.shares

def toSharded : KeyFormat -> Except Fault ShardedFormat
  | basic _ => .error (.request .notSharded)
  | sharded format => .ok format

/-!
# Deriving keys
-/

structure Bench where
  format : KeyFormat
  random : RandomSource

abbrev Working := ExceptT Fault (StateM Bench)

def drawing {α : Type} (action : Draw α) : Working α := fun bench =>
  let (result, random) := action bench.random
  (result, { bench with random })

variable [Suite]

def existingKey (password : Password) : KeyFormat -> Except Fault Bytes
  | basic hash => hash.derive password
  | sharded format => format.recover.bind (fun secret => format.keyOf secret password)

/-- The wallet key. If `create` is set and there are no shares, a fresh secret is split first,
and the format keeps the shares whatever happens next. -/
def deriveKey (password : Password) (create : Bool) : Working Bytes := do
  match (← get).format with
  | basic hash => ExceptT.mk (pure (hash.derive password))
  | sharded format =>
    if format.shares.isEmpty && create then
      let secret ← drawing (draw 32)
      let shares ← drawing (KeyShare.split secret format.rule.count format.rule.threshold)
      modify (fun bench => { bench with format := sharded { format with shares } })
      ExceptT.mk (pure (format.keyOf secret password))
    else ExceptT.mk (pure (existingKey password (sharded format)))

/-!
# The block in a file
-/

omit [Suite] in
def write : KeyFormat -> Except Fault Bytes
  | basic _ => .ok []
  | sharded format => format.write

structure Intake where
  format : KeyFormat
  rest : Bytes

def reading {α : Type} (action : Wire.Reader α) : ExceptT Fault (StateM Intake) α := fun intake =>
  let (result, rest) := action intake.rest
  (result, { intake with rest })

/-- Reads the block of a format into it. The rule is taken over before the share is read. -/
def readInto : ExceptT Fault (StateM Intake) Unit := do
  match (← get).format with
  | basic _ => pure ()
  | sharded format =>
    let rule ← reading ShareRule.read
    modify (fun intake => { intake with format := sharded { format with rule } })
    let share ← reading KeyShare.read
    modify (fun intake =>
      { intake with format := sharded { format with rule, shares := format.shares ++ [share] } })

def read (format : KeyFormat) : Wire.Reader KeyFormat := fun rest =>
  let (result, intake) := readInto ⟨format, rest⟩
  (result.map (fun _ => intake.format), intake.rest)

end KeyFormat
end WalletVault
