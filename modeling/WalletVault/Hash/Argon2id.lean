import WalletVault.Hash.Blake2b

/-!
# Argon2id

Version 1.3 of RFC 9106 with a single lane, as it turns a password and a salt
into a key of 32 bytes. The memory is an array of blocks of 128 words; the
first half of the first pass picks its reference blocks from the position
alone, all later steps from the block just written.
-/

namespace WalletVault
namespace Argon2id

abbrev Block := Array UInt64

def Block.zero : Block :=
  Array.replicate 128 0

def Block.xor (x y : Block) : Block :=
  Array.zipWith (fun a b => a ^^^ b) x y

def Block.ofBytes (data : Bytes) : Block :=
  ((Bytes.chunks 8 data).map (fun piece => UInt64.ofNat (Bytes.toNatLE piece))).toArray

def Block.toBytes (x : Block) : Bytes :=
  x.toList.flatMap (fun w => Bytes.ofNatLE 8 w.toNat)

/-!
# The permutation
-/

/-- Addition strengthened by the product of the low halves. -/
@[inline] def mulAdd (x y : UInt64) : UInt64 :=
  x + y + 2 * ((x &&& 0xffffffff) * (y &&& 0xffffffff))

def mix (v : Block) (i j k l : Nat) : Block :=
  let a := mulAdd (v.getD i 0) (v.getD j 0)
  let d := Blake2b.rotr (v.getD l 0 ^^^ a) 32
  let c := mulAdd (v.getD k 0) d
  let b := Blake2b.rotr (v.getD j 0 ^^^ c) 24
  let a := mulAdd a b
  let d := Blake2b.rotr (d ^^^ a) 16
  let c := mulAdd c d
  let b := Blake2b.rotr (b ^^^ c) 63
  (((v.setIfInBounds i a).setIfInBounds j b).setIfInBounds k c).setIfInBounds l d

def permute (place : Nat -> Nat) (v : Block) : Block :=
  Blake2b.lanes.foldl (fun v (i, j, k, l) => mix v (place i) (place j) (place k) (place l)) v

def compress (x y : Block) : Block :=
  let r := x.xor y
  let rows := (List.range 8).foldl (fun v i => permute (fun p => 16 * i + p) v) r
  let columns := (List.range 8).foldl
    (fun v i => permute (fun p => 16 * (p / 2) + 2 * i + p % 2) v) rows
  columns.xor r

/-!
# Hashes of any length
-/

/-- The 64-byte links after `link`, of which all but the last give 32 bytes. -/
def links : (left : Nat) -> (link : Bytes) -> Bytes
  | 0, link => link
  | left + 1, link => link.take 32 ++ links left (Blake2b.hash 64 link)

def expand (data : Bytes) : Bytes :=
  links 30 (Blake2b.hash 64 (Bytes.ofNatLE 4 1024 ++ data))

/-!
# Filling the memory
-/

structure Shape where
  /-- Blocks in one of the four slices. -/
  segment : Nat
  passes : Nat

def Shape.size (shape : Shape) : Nat :=
  4 * shape.segment

/-- The pseudorandom words that position-driven steps use, 128 at a time. -/
def addresses (shape : Shape) (pass slice counter : Nat) : Block :=
  let input := #[UInt64.ofNat pass, 0, UInt64.ofNat slice, UInt64.ofNat shape.size,
    UInt64.ofNat shape.passes, 2, UInt64.ofNat counter] ++ Array.replicate 121 0
  compress .zero (compress .zero input)

def reference (shape : Shape) (pass slice index : Nat) (word : UInt64) : Nat :=
  let area :=
    if pass = 0 then slice * shape.segment + index - 1
    else shape.size - shape.segment + index - 1
  let j := (word &&& 0xffffffff).toNat
  let relative := area - 1 - area * (j * j / Nat.pow 2 32) / Nat.pow 2 32
  let first := if pass = 0 then 0 else (slice + 1) % 4 * shape.segment
  (first + relative) % shape.size

def step (shape : Shape) (pass slice : Nat) (memory : Array Block) (index : Nat)
    (table : Block) : Array Block :=
  let position := slice * shape.segment + index
  let previous := memory.getD ((position + shape.size - 1) % shape.size) .zero
  let word :=
    if pass = 0 ∧ slice < 2 then table.getD (index % 128) 0 else previous.getD 0 0
  let other := memory.getD (reference shape pass slice index word) .zero
  let fresh := compress previous other
  if pass = 0 then memory.setIfInBounds position fresh
  else memory.setIfInBounds position (fresh.xor (memory.getD position .zero))

/-- Fills one slice; the first two blocks of the memory are given. -/
def fillSlice (shape : Shape) (pass slice : Nat) (memory : Array Block) : Array Block :=
  let first := if pass = 0 ∧ slice = 0 then 2 else 0
  let table (index : Nat) : Block :=
    if pass = 0 ∧ slice < 2 then addresses shape pass slice (index / 128 + 1) else #[]
  ((List.range shape.segment).foldl (fun (memory, current) index =>
    if index < first then (memory, current)
    else
      let current := if index % 128 = 0 then table index else current
      (step shape pass slice memory index current, current)) (memory, table 0)).1

def fill (shape : Shape) (memory : Array Block) : Array Block :=
  (List.range shape.passes).foldl (fun memory pass =>
    (List.range 4).foldl (fun memory slice => fillSlice shape pass slice memory) memory) memory

/-!
# The derivation
-/

def seed (password salt : Bytes) (passes kibibytes : Nat) : Bytes :=
  Blake2b.hash 64 <|
    [1, 32, kibibytes, passes, 0x13, 2, password.length].flatMap (Bytes.ofNatLE 4) ++ password ++
      Bytes.ofNatLE 4 salt.length ++ salt ++ Bytes.zeros 8

def derive (password salt : Bytes) (passes kibibytes : Nat) : Bytes :=
  let shape : Shape := ⟨kibibytes / 4, passes⟩
  let h := seed password salt passes kibibytes
  let block (i : Nat) := Block.ofBytes (expand (h ++ Bytes.ofNatLE 4 i ++ Bytes.zeros 4))
  let memory := ((Array.replicate shape.size Block.zero).setIfInBounds 0 (block 0)).setIfInBounds 1
    (block 1)
  let last := (fill shape memory).getD (shape.size - 1) .zero
  Blake2b.hash 32 (Bytes.ofNatLE 4 32 ++ last.toBytes)

@[simp] theorem length_derive (password salt : Bytes) (passes kibibytes : Nat) :
    (derive password salt passes kibibytes).length = 32 := by
  simp [derive]

end Argon2id
end WalletVault
