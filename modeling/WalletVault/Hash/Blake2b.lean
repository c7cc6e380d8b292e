import WalletVault.Bytes

/-!
# BLAKE2b

The unkeyed hash of RFC 7693 with digests of 1 to 64 bytes.
-/

namespace WalletVault
namespace Blake2b

/-- Rotation to the right; the amount lies strictly between 0 and 64. -/
@[inline] def rotr (x n : UInt64) : UInt64 :=
  (x >>> n) ||| (x <<< (64 - n))

def start : Array UInt64 := #[
  0x6a09e667f3bcc908, 0xbb67ae8584caa73b, 0x3c6ef372fe94f82b, 0xa54ff53a5f1d36f1,
  0x510e527fade682d1, 0x9b05688c2b3e6c1f, 0x1f83d9abfb41bd6b, 0x5be0cd19137e2179]

def orders : List (Array Nat) := [
  #[0, 1, 2, 3, 4, 5, 6, 7, 8, 9, 10, 11, 12, 13, 14, 15],
  #[14, 10, 4, 8, 9, 15, 13, 6, 1, 12, 0, 2, 11, 7, 5, 3],
  #[11, 8, 12, 0, 5, 2, 15, 13, 10, 14, 3, 6, 7, 1, 9, 4],
  #[7, 9, 3, 1, 13, 12, 11, 14, 2, 6, 5, 10, 4, 0, 15, 8],
  #[9, 0, 5, 7, 2, 4, 10, 15, 14, 1, 11, 12, 6, 8, 3, 13],
  #[2, 12, 6, 10, 0, 11, 8, 3, 4, 13, 7, 5, 15, 14, 1, 9],
  #[12, 5, 1, 15, 14, 13, 4, 10, 0, 7, 6, 3, 9, 2, 8, 11],
  #[13, 11, 7, 14, 12, 1, 3, 9, 5, 0, 15, 4, 8, 6, 2, 10],
  #[6, 15, 14, 9, 11, 3, 0, 8, 12, 2, 13, 7, 1, 4, 10, 5],
  #[10, 2, 8, 4, 7, 6, 1, 5, 15, 11, 9, 14, 3, 12, 13, 0],
  #[0, 1, 2, 3, 4, 5, 6, 7, 8, 9, 10, 11, 12, 13, 14, 15],
  #[14, 10, 4, 8, 9, 15, 13, 6, 1, 12, 0, 2, 11, 7, 5, 3]]

def lanes : List (Nat × Nat × Nat × Nat) := [
  (0, 4, 8, 12), (1, 5, 9, 13), (2, 6, 10, 14), (3, 7, 11, 15),
  (0, 5, 10, 15), (1, 6, 11, 12), (2, 7, 8, 13), (3, 4, 9, 14)]

def mix (v : Array UInt64) (lane : Nat × Nat × Nat × Nat) (x y : UInt64) : Array UInt64 :=
  let (i, j, k, l) := lane
  let a := v.getD i 0 + v.getD j 0 + x
  let d := rotr (v.getD l 0 ^^^ a) 32
  let c := v.getD k 0 + d
  let b := rotr (v.getD j 0 ^^^ c) 24
  let a := a + b + y
  let d := rotr (d ^^^ a) 16
  let c := c + d
  let b := rotr (b ^^^ c) 63
  (((v.setIfInBounds i a).setIfInBounds j b).setIfInBounds k c).setIfInBounds l d

def round (m v : Array UInt64) (order : Array Nat) : Array UInt64 :=
  (lanes.zipIdx).foldl (fun v (lane, i) =>
    mix v lane (m.getD (order.getD (2 * i) 0) 0) (m.getD (order.getD (2 * i + 1) 0) 0)) v

/-- Feeds a block of 128 bytes; `count` is the number of message bytes so far. -/
def compress (h : Array UInt64) (block : Bytes) (count : Nat) (last : Bool) : Array UInt64 :=
  let m := ((Bytes.chunks 8 block).map (fun piece => UInt64.ofNat (Bytes.toNatLE piece))).toArray
  let v := h ++ start
  let v := v.setIfInBounds 12 (v.getD 12 0 ^^^ UInt64.ofNat (count % Nat.pow 2 64))
  let v := v.setIfInBounds 13 (v.getD 13 0 ^^^ UInt64.ofNat (count / Nat.pow 2 64))
  let v := if last then v.setIfInBounds 14 (~~~ v.getD 14 0) else v
  let v := orders.foldl (round m) v
  Array.ofFn (n := 8) (fun i => h.getD i 0 ^^^ v.getD i 0 ^^^ v.getD (i + 8) 0)

def absorb (h : Array UInt64) (count : Nat) : List Bytes -> Array UInt64
  | [] => compress h (Bytes.zeros 128) count true
  | [block] =>
    compress h (block ++ Bytes.zeros (128 - block.length)) (count + block.length) true
  | block :: rest => absorb (compress h block (count + 128) false) (count + 128) rest

/-- The BLAKE2b digest of `size` bytes, at most 64. -/
def hash (size : Nat) (message : Bytes) : Bytes :=
  let h := start.setIfInBounds 0 (start.getD 0 0 ^^^ 0x01010000 ^^^ UInt64.ofNat size)
  let words := absorb h 0 (Bytes.chunks 128 message)
  ((List.range 8).flatMap (fun i => Bytes.ofNatLE 8 (words.getD i 0).toNat)).take size

@[simp] theorem length_hash (size : Nat) (message : Bytes) :
    (hash size message).length = min size 64 := by
  simp [hash, List.range, List.range.loop]

end Blake2b
end WalletVault
