/-!
# Byte strings

Byte strings are plain lists, so that fields of a file are cut with `take` and
`drop` and lengths are those of lists. The two digit readings (most and least
significant byte first) and the fixed-width writers are the only places where
bytes meet numbers.
-/

namespace WalletVault

abbrev Bytes := List UInt8

namespace Bytes

/-- Whether a number can be a size at all, be it that of no byte string: sizes are signed
machine words. -/
def isSize (n : Int) : Bool :=
  -(Nat.pow 2 63 : Nat) <= n && n < (Nat.pow 2 63 : Nat)

/-!
# Numbers as digits to base 256
-/

def toNatBE (data : Bytes) : Nat :=
  data.foldl (fun n b => 256 * n + b.toNat) 0

def toNatLE : Bytes -> Nat
  | [] => 0
  | b :: rest => b.toNat + 256 * toNatLE rest

def ofNatLE : (width n : Nat) -> Bytes
  | 0, _ => []
  | width + 1, n => UInt8.ofNat (n % 256) :: ofNatLE width (n / 256)

def ofNatBE (width n : Nat) : Bytes :=
  (ofNatLE width n).reverse

/-- How many digits a number has; zero has none. -/
def digitCount (n : Nat) : Nat :=
  if n = 0 then 0 else n.log2 / 8 + 1

def minimalBE (n : Nat) : Bytes :=
  ofNatBE (digitCount n) n

@[simp] theorem length_ofNatLE (width n : Nat) : (ofNatLE width n).length = width := by
  induction width generalizing n with
  | zero => rfl
  | succ width ih => simp [ofNatLE, ih]

@[simp] theorem length_ofNatBE (width n : Nat) : (ofNatBE width n).length = width := by
  simp [ofNatBE]

/-!
# Simple operations
-/

def zeros (n : Nat) : Bytes :=
  List.replicate n 0

/-- Bytewise exclusive or; the longer string is cut. -/
def xor (a b : Bytes) : Bytes :=
  a.zipWith (fun x y => x ^^^ y) b

@[simp] theorem length_zeros (n : Nat) : (zeros n).length = n := by
  simp [zeros]

@[simp] theorem length_xor (a b : Bytes) : (xor a b).length = min a.length b.length := by
  simp [xor]

/-- The first bytes of a repeated pattern; an empty pattern gives nothing. -/
def cycle (pattern : Bytes) (size : Nat) : Bytes :=
  if pattern.isEmpty then []
  else (List.replicate (size / pattern.length + 1) pattern).flatten.take size

/-- Cuts a string into pieces of `size` bytes; the last piece may be shorter. -/
def chunks (size : Nat) (data : Bytes) : List Bytes :=
  if size = 0 ∨ data = [] then []
  else data.take size :: chunks size (data.drop size)
termination_by data.length
decreasing_by
  rename_i h
  obtain ⟨h₁, h₂⟩ := not_or.1 h
  have := List.length_pos_iff.2 h₂
  simp only [List.length_drop]
  omega

end Bytes
end WalletVault
