import WalletVault.Bytes

/-!
# Base-64

The encoding of RFC 4648 with padding, and a strict reader. The reader accepts
nothing but letters of the alphabet and padding at the end, ignores the bits
that the last letter has too many, and skips padding that comes before it could
complete a group.
-/

namespace WalletVault
namespace Base64

/-!
# The alphabet
-/

def letter (n : Nat) : Char :=
  if n < 26 then Char.ofNat (65 + n)
  else if n < 52 then Char.ofNat (71 + n)
  else if n < 62 then Char.ofNat (n - 4)
  else if n = 62 then '+'
  else '/'

def value? (c : Char) : Option Nat :=
  let n := c.toNat
  if 65 <= n ∧ n <= 90 then some (n - 65)
  else if 97 <= n ∧ n <= 122 then some (n - 71)
  else if 48 <= n ∧ n <= 57 then some (n + 4)
  else if c = '+' then some 62
  else if c = '/' then some 63
  else none

/-!
# Writing
-/

def encodeChars : Bytes -> List Char
  | a :: b :: c :: rest =>
    let n := 65536 * a.toNat + 256 * b.toNat + c.toNat
    letter (n / 262144) :: letter (n / 4096 % 64) :: letter (n / 64 % 64) :: letter (n % 64) ::
      encodeChars rest
  | [a, b] =>
    let n := 256 * a.toNat + b.toNat
    [letter (n / 1024), letter (n / 16 % 64), letter (n % 16 * 4), '=']
  | [a] => [letter (a.toNat / 4), letter (a.toNat % 4 * 16), '=', '=']
  | [] => []

def encode (data : Bytes) : String :=
  String.ofList (encodeChars data)

/-!
# Reading
-/

inductive Flaw where
  | nonAscii
  | leadingPadding
  | dataAfterPadding
  | foreignLetter
  | paddingInside
  | loneLetter (letters : Nat)
  | missingPadding
  deriving DecidableEq, Repr

def Flaw.message : Flaw -> String
  | nonAscii => "string argument should contain only ASCII characters"
  | leadingPadding => "Leading padding not allowed"
  | dataAfterPadding => "Excess data after padding"
  | foreignLetter => "Only base64 data is allowed"
  | paddingInside => "Discontinuous padding not allowed"
  | loneLetter n =>
    s!"Invalid base64-encoded string: number of data characters ({n}) cannot be 1 more than a multiple of 4"
  | missingPadding => "Incorrect padding"

/-- The values of the letters up to the padding. `seen` holds those read so far, last first;
`pads` counts the padding that can complete a group; `padded` tells whether any was met. -/
def scan (seen : List Nat) (pads : Nat) (padded : Bool) : List Char -> Except Flaw (List Nat)
  | [] =>
    match seen.length % 4 with
    | 0 => .ok seen.reverse
    | 1 => .error (.loneLetter seen.length)
    | _ => .error .missingPadding
  | c :: rest =>
    if c = '=' then
      if seen.length % 4 < 2 then scan seen pads true rest
      else if seen.length % 4 + (pads + 1) < 4 then scan seen (pads + 1) true rest
      else if rest = [] then .ok seen.reverse
      else .error .dataAfterPadding
    else
      match value? c with
      | none => .error .foreignLetter
      | some n => if padded then .error .paddingInside else scan (n :: seen) 0 false rest

/-- The bytes of six-bit values; bits that fill no byte are dropped. -/
def join : List Nat -> Bytes
  | a :: b :: c :: d :: rest =>
    let n := 262144 * a + 4096 * b + 64 * c + d
    UInt8.ofNat (n / 65536) :: UInt8.ofNat (n / 256 % 256) :: UInt8.ofNat (n % 256) :: join rest
  | [a, b, c] =>
    let n := 4096 * a + 64 * b + c
    [UInt8.ofNat (n / 1024), UInt8.ofNat (n / 4 % 256)]
  | [a, b] => [UInt8.ofNat ((64 * a + b) / 16)]
  | _ => []

def decode (text : String) : Except Flaw Bytes :=
  let chars := text.toList
  if chars.any (fun c => 128 <= c.toNat) then .error .nonAscii
  else if chars.head? = some '=' then .error .leadingPadding
  else (scan [] 0 false chars).map join

end Base64
end WalletVault
