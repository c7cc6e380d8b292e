import WalletVault.Bytes

/-!
# SHA-256

The hash of FIPS 180-4 with 32-bit words. `State` is the chaining value; a
digest is always its eight words, so every digest has 32 bytes.
-/

namespace WalletVault
namespace Sha256

/-!
# Words
-/

/-- Rotation to the right; the amount lies strictly between 0 and 32. -/
@[inline] def rotr (x n : UInt32) : UInt32 :=
  (x >>> n) ||| (x <<< (32 - n))

@[inline] def word (a b c d : UInt8) : UInt32 :=
  (a.toUInt32 <<< 24) ||| (b.toUInt32 <<< 16) ||| (c.toUInt32 <<< 8) ||| d.toUInt32

def words : Bytes -> List UInt32
  | a :: b :: c :: d :: rest => word a b c d :: words rest
  | _ => []

def wordBytes (x : UInt32) : Bytes :=
  [(x >>> 24).toUInt8, (x >>> 16).toUInt8, (x >>> 8).toUInt8, x.toUInt8]

def roundConstants : Array UInt32 := #[
  0x428a2f98, 0x71374491, 0xb5c0fbcf, 0xe9b5dba5, 0x3956c25b, 0x59f111f1, 0x923f82a4, 0xab1c5ed5,
  0xd807aa98, 0x12835b01, 0x243185be, 0x550c7dc3, 0x72be5d74, 0x80deb1fe, 0x9bdc06a7, 0xc19bf174,
  0xe49b69c1, 0xefbe4786, 0x0fc19dc6, 0x240ca1cc, 0x2de92c6f, 0x4a7484aa, 0x5cb0a9dc, 0x76f988da,
  0x983e5152, 0xa831c66d, 0xb00327c8, 0xbf597fc7, 0xc6e00bf3, 0xd5a79147, 0x06ca6351, 0x14292967,
  0x27b70a85, 0x2e1b2138, 0x4d2c6dfc, 0x53380d13, 0x650a7354, 0x766a0abb, 0x81c2c92e, 0x92722c85,
  0xa2bfe8a1, 0xa81a664b, 0xc24b8b70, 0xc76c51a3, 0xd192e819, 0xd6990624, 0xf40e3585, 0x106aa070,
  0x19a4c116, 0x1e376c08, 0x2748774c, 0x34b0bcb5, 0x391c0cb3, 0x4ed8aa4a, 0x5b9cca4f, 0x682e6ff3,
  0x748f82ee, 0x78a5636f, 0x84c87814, 0x8cc70208, 0x90befffa, 0xa4506ceb, 0xbef9a3f7, 0xc67178f2]

/-!
# Compression
-/

structure State where
  a : UInt32
  b : UInt32
  c : UInt32
  d : UInt32
  e : UInt32
  f : UInt32
  g : UInt32
  h : UInt32

def State.start : State :=
  ⟨0x6a09e667, 0xbb67ae85, 0x3c6ef372, 0xa54ff53a, 0x510e527f, 0x9b05688c, 0x1f83d9ab, 0x5be0cd19⟩

def State.words (s : State) : List UInt32 :=
  [s.a, s.b, s.c, s.d, s.e, s.f, s.g, s.h]

def State.digest (s : State) : Bytes :=
  s.words.flatMap wordBytes

@[simp] theorem State.length_digest (s : State) : s.digest.length = 32 := rfl

def schedule (block : Array UInt32) : Array UInt32 :=
  Nat.fold 48 (fun t _ w =>
    let x := w.getD (t + 1) 0
    let y := w.getD (t + 14) 0
    let s0 := rotr x 7 ^^^ rotr x 18 ^^^ (x >>> 3)
    let s1 := rotr y 17 ^^^ rotr y 19 ^^^ (y >>> 10)
    w.push (w.getD t 0 + s0 + w.getD (t + 9) 0 + s1)) block

def rounds (w : Array UInt32) : (left : Nat) -> (a b c d e f g h : UInt32) -> State
  | 0, a, b, c, d, e, f, g, h => ⟨a, b, c, d, e, f, g, h⟩
  | left + 1, a, b, c, d, e, f, g, h =>
    let t := 63 - left
    let s1 := rotr e 6 ^^^ rotr e 11 ^^^ rotr e 25
    let choice := (e &&& f) ^^^ ((~~~ e) &&& g)
    let t1 := h + s1 + choice + roundConstants.getD t 0 + w.getD t 0
    let s0 := rotr a 2 ^^^ rotr a 13 ^^^ rotr a 22
    let majority := (a &&& b) ^^^ (a &&& c) ^^^ (b &&& c)
    rounds w left (t1 + (s0 + majority)) a b c (d + t1) e f g

def compress (s : State) (block : Array UInt32) : State :=
  let r := rounds (schedule block) 64 s.a s.b s.c s.d s.e s.f s.g s.h
  ⟨s.a + r.a, s.b + r.b, s.c + r.c, s.d + r.d, s.e + r.e, s.f + r.f, s.g + r.g, s.h + r.h⟩

/-- Feeds whole blocks; an incomplete last block is dropped. -/
def absorb (s : State) (ws : List UInt32) : State :=
  if ws.length < 16 then s
  else absorb (compress s (ws.take 16).toArray) (ws.drop 16)
termination_by ws.length
decreasing_by simp only [List.length_drop]; omega

/-!
# The hash
-/

/-- The end of a message of `size` bytes: a one bit, zeros, and the length in bits. -/
def padding (size : Nat) : Bytes :=
  0x80 :: Bytes.zeros ((119 - size % 64) % 64) ++ Bytes.ofNatBE 8 (8 * size)

/-- Finishes a message of which `before` bytes, whole blocks, are already absorbed. -/
def finish (s : State) (before : Nat) (message : Bytes) : State :=
  absorb s (words (message ++ padding (before + message.length)))

def hash (message : Bytes) : Bytes :=
  (finish .start 0 message).digest

@[simp] theorem length_hash (message : Bytes) : (hash message).length = 32 :=
  State.length_digest _

end Sha256
end WalletVault
