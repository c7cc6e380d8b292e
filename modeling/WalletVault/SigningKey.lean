import WalletVault.Base58
import WalletVault.Phrase.Codec
import WalletVault.RandomSource

/-!
# Signing keys

A key is its 32-byte seed; everything else follows from it. Keys come from
entropy, phrases and exported keypairs, and a keypair is accepted only if its
public half belongs to its seed.
-/

namespace WalletVault

structure SigningKey where
  seed : Bytes
  length_seed : seed.length = 32
  deriving DecidableEq

/-!
# Key tags of older files
-/

namespace KeyTag

def current : UInt8 := 1

/-- Checks that a tag names a known network and the supported type, and gives the type. -/
def keyType (tag : Int) : Except Fault Int :=
  let network := tag / 16 % 16
  let type := tag % 16
  if network ≠ 0 ∧ network ≠ 1 then .error (.malformed (.keyNetwork tag))
  else if type = 1 then .ok type
  else if type = 0 then .error (.malformed (.keyUnsupported tag))
  else .error (.malformed (.keyType tag))

end KeyTag

namespace Address

variable [Suite]

def solana (publicKey : Bytes) : Except Fault String :=
  Base58.encode publicKey

def helium (publicKey : Bytes) : String :=
  Base58.encodeVersion 0 (KeyTag.current :: publicKey)

end Address

inductive Secret where
  | text (value : String)
  | numbers (values : List Int)
  | bytes (value : Bytes)
  deriving DecidableEq, Repr

def Bytes.ofInts (values : List Int) : Except ByteListFlaw Bytes :=
  if values.all (fun n => 0 <= n && n < 256) then
    .ok (values.map (fun n => UInt8.ofNat n.toNat))
  else .error .outOfRange

namespace SigningKey

/-!
# Making keys
-/

def ofSeed (seed : Bytes) : Except Fault SigningKey :=
  if h : seed.length = 32 then .ok ⟨seed, h⟩ else .error (.request .seedSize)

def generate : Draw SigningKey := do
  let seed ← draw 32
  ExceptT.mk (pure (ofSeed seed))

def ofEntropy (entropy : Bytes) : Except Fault SigningKey :=
  if h : 32 <= entropy.length then
    .ok ⟨entropy.take 32, by rw [List.length_take]; omega⟩
  else .error (.request .entropySize)

variable [Suite]

def publicKey (key : SigningKey) : Bytes :=
  Suite.publicKey key.seed

def ofWords (words : List String) : Except Fault SigningKey :=
  (Phrase.toEntropy words).bind ofEntropy

/-- The keypair: the seed, then the public key. -/
def toBytes (key : SigningKey) : Bytes :=
  key.seed ++ key.publicKey

def ofBytes (data : Bytes) : Except Fault SigningKey :=
  if h : data.length = 64 then
    let key : SigningKey := ⟨data.take 32, by rw [List.length_take]; omega⟩
    if key.publicKey = data.drop 32 then .ok key else .error (.malformed .keypair)
  else .error (.malformed .keypair)

def ofSecret : Secret -> Except Fault SigningKey
  | .text value => (Base58.decode (String.ofList (Text.trim value.toList))).bind ofBytes
  | .numbers values =>
    match Bytes.ofInts values with
    | .error flaw => .error (.misuse (.byteList flaw))
    | .ok data => ofBytes data
  | .bytes value => ofBytes value

/-!
# Using keys
-/

def address (key : SigningKey) : String :=
  String.ofList (Base58.encodeChars key.publicKey)

def words (key : SigningKey) : Except Fault (List String) :=
  Phrase.ofEntropy key.seed

def phrase (key : SigningKey) : Except Fault String :=
  key.words.map (String.intercalate " ")

def sign (key : SigningKey) (message : Bytes) : Bytes :=
  Suite.sign key.seed message

def summary (key : SigningKey) : String :=
  s!"SigningKey(address={key.address})"

end SigningKey
end WalletVault
