import WalletVault.Field.Gf256

/-!
# AES-256

The block cipher of FIPS 197 in the encrypting direction, which is all that
counter mode needs. A block is sixteen bytes, column by column.
-/

namespace WalletVault
namespace Aes

def substitute (b : UInt8) : UInt8 :=
  let i := Gf256.inv b
  let turn (n : UInt8) := (i <<< n) ||| (i >>> (8 - n))
  i ^^^ turn 1 ^^^ turn 2 ^^^ turn 3 ^^^ turn 4 ^^^ 0x63

def substitutions : Array UInt8 :=
  Array.ofFn (n := 256) (fun i => substitute (UInt8.ofNat i))

def substituteBytes (block : Bytes) : Bytes :=
  block.map (fun b => substitutions.getD b.toNat 0)

def shiftRows (block : Bytes) : Bytes :=
  (List.range 16).map (fun i => block.getD ((i + 4 * (i % 4)) % 16) 0)

def mixColumn (a b c d : UInt8) : Bytes :=
  let two := Gf256.double
  let three (x : UInt8) := two x ^^^ x
  [two a ^^^ three b ^^^ c ^^^ d, a ^^^ two b ^^^ three c ^^^ d,
    a ^^^ b ^^^ two c ^^^ three d, three a ^^^ b ^^^ c ^^^ two d]

def mixColumns : Bytes -> Bytes
  | a :: b :: c :: d :: rest => mixColumn a b c d ++ mixColumns rest
  | _ => []

/-!
# Round keys
-/

def roundConstant : Nat -> UInt8
  | 0 => 1
  | n + 1 => Gf256.double (roundConstant n)

def nextWord (ws : Array Bytes) (i : Nat) : Bytes :=
  let last := ws.getD (i - 1) []
  let mixed :=
    if i % 8 = 0 then
      Bytes.xor (substituteBytes (last.drop 1 ++ last.take 1)) [roundConstant (i / 8 - 1), 0, 0, 0]
    else if i % 8 = 4 then substituteBytes last
    else last
  Bytes.xor (ws.getD (i - 8) []) mixed

def roundKeys (key : Bytes) : List Bytes :=
  let ws := Nat.fold 52 (fun i _ ws => ws.push (nextWord ws (i + 8))) (Bytes.chunks 4 key).toArray
  Bytes.chunks 16 ws.toList.flatten

/-!
# The cipher
-/

/-- The rounds after the first key has been added; the last one mixes no columns. -/
def rounds : List Bytes -> Bytes -> Bytes
  | [], block => block
  | [key], block => Bytes.xor (shiftRows (substituteBytes block)) key
  | key :: rest, block =>
    rounds rest (Bytes.xor (mixColumns (shiftRows (substituteBytes block))) key)

def encryptBlock (keys : List Bytes) (block : Bytes) : Bytes :=
  rounds keys.tail (Bytes.xor block (keys.headD []))

end Aes
end WalletVault
