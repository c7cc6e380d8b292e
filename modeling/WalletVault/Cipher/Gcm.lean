import WalletVault.Cipher.Aes

/-!
# AES-256-GCM

Authenticated encryption with a nonce of twelve bytes and a detached tag of
sixteen. Encryption and decryption are the same exclusive or with a key
stream, so what `encrypt` writes is what `decrypt?` gives back.
-/

namespace WalletVault
namespace Gcm

/-!
# The universal hash
-/

def product : (left : Nat) -> (x v sum : Nat) -> Nat
  | 0, _, _, sum => sum
  | left + 1, x, v, sum =>
    product left x
      (if v.testBit 0 then (v >>> 1) ^^^ (0xe1 <<< 120) else v >>> 1)
      (if x.testBit left then sum ^^^ v else sum)

/-- Feeds the blocks of a string into the hash; the last block is filled up with zeros. -/
def absorb (h : Nat) (sum : Nat) (data : Bytes) : Nat :=
  (Bytes.chunks 16 data).foldl (fun sum block =>
    product 128 (sum ^^^ Bytes.toNatBE (block ++ Bytes.zeros (16 - block.length))) h 0) sum

def universalHash (h : Nat) (aad ciphertext : Bytes) : Nat :=
  let sum := absorb h (absorb h 0 aad) ciphertext
  absorb h sum (Bytes.ofNatBE 8 (8 * aad.length) ++ Bytes.ofNatBE 8 (8 * ciphertext.length))

/-!
# Encryption and decryption
-/

/-- The key stream of at least `size` bytes; counters start at two. -/
def keyStream (keys : List Bytes) (iv : Bytes) (size : Nat) : Bytes :=
  (List.range ((size + 15) / 16)).flatMap (fun i =>
    (Aes.encryptBlock keys (iv ++ Bytes.ofNatBE 4 (i + 2)) ++ Bytes.zeros 16).take 16)

def stream (keys : List Bytes) (iv text : Bytes) : Bytes :=
  Bytes.xor text (keyStream keys iv text.length)

def tag (keys : List Bytes) (iv aad ciphertext : Bytes) : Bytes :=
  let h := Bytes.toNatBE (Aes.encryptBlock keys (Bytes.zeros 16))
  let mask := Bytes.toNatBE (Aes.encryptBlock keys (iv ++ [0, 0, 0, 1]))
  Bytes.ofNatBE 16 (universalHash h aad ciphertext ^^^ mask)

def encrypt (key iv plaintext aad : Bytes) : Bytes × Bytes :=
  let keys := Aes.roundKeys key
  let ciphertext := stream keys iv plaintext
  (ciphertext, tag keys iv aad ciphertext)

def decrypt? (key iv ciphertext tag aad : Bytes) : Option Bytes :=
  let keys := Aes.roundKeys key
  if tag = Gcm.tag keys iv aad ciphertext then some (stream keys iv ciphertext) else none

/-!
# Lengths
-/

theorem length_keyStream (keys : List Bytes) (iv : Bytes) (size : Nat) :
    (keyStream keys iv size).length = 16 * ((size + 15) / 16) := by
  unfold keyStream
  induction (size + 15) / 16 with
  | zero => rfl
  | succ n ih =>
    rw [List.range_succ, List.flatMap_append, List.length_append, ih]
    simp only [List.flatMap_cons, List.flatMap_nil, List.append_nil, List.length_take,
      List.length_append, Bytes.length_zeros]
    omega

@[simp] theorem length_stream (keys : List Bytes) (iv text : Bytes) :
    (stream keys iv text).length = text.length := by
  rw [stream, Bytes.length_xor, length_keyStream]
  omega

end Gcm
end WalletVault
