import WalletVault.Bytes

/-!
# Secret boxes

XSalsa20 with a Poly1305 tag in front of the ciphertext. The key has 32 bytes,
the nonce 24. The first 32 bytes of the key stream key the tag; the text is
encrypted with the bytes after them.
-/

namespace WalletVault
namespace SecretBox

/-!
# The Salsa20 core
-/

/-- Rotation to the left; the amount lies strictly between 0 and 32. -/
@[inline] def rotl (x n : UInt32) : UInt32 :=
  (x <<< n) ||| (x >>> (32 - n))

def words (data : Bytes) : List UInt32 :=
  (Bytes.chunks 4 data).map (fun piece => UInt32.ofNat (Bytes.toNatLE piece))

def wordBytes (ws : List UInt32) : Bytes :=
  ws.flatMap (fun w => Bytes.ofNatLE 4 w.toNat)

def quarter (v : Array UInt32) (a b c d : Nat) : Array UInt32 :=
  let add (v : Array UInt32) (target x y : Nat) (turn : UInt32) : Array UInt32 :=
    v.setIfInBounds target (v.getD target 0 ^^^ rotl (v.getD x 0 + v.getD y 0) turn)
  add (add (add (add v b a d 7) c b a 9) d c b 13) a d c 18

def doubleRound (v : Array UInt32) : Array UInt32 :=
  let v := quarter (quarter (quarter (quarter v 0 4 8 12) 5 9 13 1) 10 14 2 6) 15 3 7 11
  quarter (quarter (quarter (quarter v 0 1 2 3) 5 6 7 4) 10 11 8 9) 15 12 13 14

def core (v : Array UInt32) : Array UInt32 :=
  Nat.fold 10 (fun _ _ v => doubleRound v) v

def state (key input : Bytes) : Array UInt32 :=
  let k := words key
  ([0x61707865] ++ k.take 4 ++ [0x3320646e] ++ words input ++ [0x79622d32] ++ k.drop 4 ++
    [0x6b206574]).toArray

def subkey (key input : Bytes) : Bytes :=
  let v := core (state key input)
  wordBytes ([0, 5, 10, 15, 6, 7, 8, 9].map (fun i => v.getD i 0))

def block (key nonce : Bytes) (counter : Nat) : Bytes :=
  let s := state key (nonce ++ Bytes.ofNatLE 8 counter)
  let v := core s
  wordBytes ((List.range 16).map (fun i => v.getD i 0 + s.getD i 0))

def stream (key nonce : Bytes) (size : Nat) : Bytes :=
  let inner := subkey key (nonce.take 16)
  (List.range ((size + 63) / 64)).flatMap (block inner (nonce.drop 16))

/-!
# The tag
-/

def tag (key message : Bytes) : Bytes :=
  let r := Bytes.toNatLE (key.take 16) &&& 0x0ffffffc0ffffffc0ffffffc0fffffff
  let sum := (Bytes.chunks 16 message).foldl (fun sum piece =>
    (sum + Bytes.toNatLE (piece ++ [1])) * r % (Nat.pow 2 130 - 5)) 0
  Bytes.ofNatLE 16 (sum + Bytes.toNatLE (key.drop 16))

/-!
# Encryption and decryption
-/

def encrypt (key nonce text : Bytes) : Bytes :=
  let keys := stream key nonce (32 + text.length)
  let ciphertext := Bytes.xor text (keys.drop 32)
  tag (keys.take 32) ciphertext ++ ciphertext

def decrypt? (key nonce box : Bytes) : Option Bytes :=
  let ciphertext := box.drop 16
  let keys := stream key nonce (32 + ciphertext.length)
  if box.take 16 = tag (keys.take 32) ciphertext then some (Bytes.xor ciphertext (keys.drop 32))
  else none

end SecretBox
end WalletVault
