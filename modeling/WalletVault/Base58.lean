import WalletVault.Fault
import WalletVault.Suite

/-!
# Base-58

Byte strings as numbers to base 58 over an alphabet without look-alikes. Each
leading zero byte is a leading one-letter of its own. The checked form puts a
version in front and the start of a double digest behind.
-/

namespace WalletVault
namespace Base58

def alphabet : List Char :=
  "123456789ABCDEFGHJKLMNPQRSTUVWXYZabcdefghijkmnopqrstuvwxyz".toList

def letter (n : Nat) : Char :=
  alphabet.getD n '1'

def value? (c : Char) : Option Nat :=
  alphabet.idxOf? c

/-!
# Writing
-/

/-- The digits of a number to base 58, least significant first. -/
def digits (n : Nat) : List Nat :=
  if n = 0 then [] else n % 58 :: digits (n / 58)

def encodeChars (data : Bytes) : List Char :=
  List.replicate (data.takeWhile (· == 0)).length '1' ++
    (digits (Bytes.toNatBE data)).reverse.map letter

def encode (data : Bytes) : Except Fault String :=
  if data = [] then .error (.base58 .emptyData) else .ok (String.ofList (encodeChars data))

/-!
# Reading
-/

def ofDigits (values : List Nat) : Nat :=
  values.foldl (fun n d => n * 58 + d) 0

def decodeValues (values : List Nat) : Bytes :=
  Bytes.zeros (values.takeWhile (· == 0)).length ++ Bytes.minimalBE (ofDigits values)

def isValid (text : String) : Bool :=
  !text.isEmpty && text.toList.all (fun c => (value? c).isSome)

def decode (text : String) : Except Fault Bytes :=
  if text.isEmpty then .error (.base58 .emptyText)
  else
    match text.toList.mapM value? with
    | none => .error (.base58 .foreignLetter)
    | some values => .ok (decodeValues values)

/-!
# The checked form
-/

variable [Suite]

def checksum (data : Bytes) : Bytes :=
  (Suite.sha256 (Suite.sha256 data)).take 4

def encodeVersion (version : UInt8) (payload : Bytes) : String :=
  let versioned := version :: payload
  String.ofList (encodeChars (versioned ++ checksum versioned))

def encodeCheck (payload : Bytes) (version : Int) : Except Fault String :=
  if 0 <= version ∧ version < 256 then
    .ok (encodeVersion (UInt8.ofNat version.toNat) payload)
  else .error (.misuse (.byteList .outOfRange))

def decodeCheck (text : String) : Except Fault (UInt8 × Bytes) :=
  match decode text with
  | .error fault => .error fault
  | .ok raw =>
    let versioned := raw.take (raw.length - 4)
    match versioned with
    | [] => .error (.base58 .tooShort)
    | version :: payload =>
      if raw.drop (raw.length - 4) = checksum versioned then .ok (version, payload)
      else .error (.base58 .checksum)

end Base58
end WalletVault
