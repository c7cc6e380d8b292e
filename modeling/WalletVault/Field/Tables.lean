import WalletVault.Field.Gf256

/-!
# Tables of the field

Every nonzero element is a power of three. One table has the powers in order,
each of them written down once more after the 255th, and the other one has their
exponents. A product or a quotient of nonzero elements is looked up by the sum or
the difference of the exponents; there is no result where a table has no entry.
-/

namespace WalletVault
namespace Gf256

/-!
# Powers and exponents
-/

def power : Nat -> UInt8
  | 0 => 1
  | n + 1 => mul (power n) 3

/-- One more entry: the one that stands 255 places before it. -/
def repeatEntry (table : List UInt8) (i : Nat) : List UInt8 :=
  table ++ [table.getD i 0]

def powers : List UInt8 :=
  (List.range 257).foldl repeatEntry ((List.range 255).map power)

def setExponent (table : List Nat) (i : Nat) : List Nat :=
  table.set (power i).toNat i

/-- The place of zero, which is no power, keeps a zero. -/
def exponents : List Nat :=
  (List.range 255).foldl setExponent (List.replicate 256 0)

/-!
# Products and quotients
-/

def productByTable (a b : UInt8) : Option UInt8 :=
  if a = 0 ∨ b = 0 then some 0
  else do
    let m ← exponents[a.toNat]?
    let n ← exponents[b.toNat]?
    powers[m + n]?

def quotientByTable (a b : UInt8) : Option UInt8 :=
  if b = 0 then none
  else if a = 0 then some 0
  else do
    let m ← exponents[a.toNat]?
    let n ← exponents[b.toNat]?
    powers[(m + 255 - n) % 255]?

end Gf256
end WalletVault
