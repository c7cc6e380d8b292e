import WalletVault.Fault
import WalletVault.Field.Gf256

/-!
# Field elements by number

Products and quotients of elements that are given as numbers. The elements stand
in a table of 256 places, and a negative number counts from the end of it. Zero
has no logarithm: the number −256, which leads to the place of zero without
being zero, stands for one.
-/

namespace WalletVault
namespace Gf256

def element? (n : Int) : Option UInt8 :=
  if n = -256 then some 1
  else if -256 < n ∧ n < 256 then some (UInt8.ofNat (n % 256).toNat)
  else none

def elements (a b : Int) : Except Fault (UInt8 × UInt8) :=
  match element? a, element? b with
  | some a, some b => .ok (a, b)
  | _, _ => .error (.misuse .outsideTable)

/-- The product by numbers. A factor zero decides before the other one is looked up. -/
def mulNumbers (a b : Int) : Except Fault UInt8 :=
  if a = 0 ∨ b = 0 then .ok 0
  else (elements a b).map (fun (a, b) => mul a b)

def divNumbers (a b : Int) : Except Fault UInt8 :=
  if b = 0 then .error (.misuse .divisionByZero)
  else if a = 0 then .ok 0
  else (elements a b).map (fun (a, b) => mul a (inv b))

example : (divNumbers (-1) 3).toOption = some 85 ∧ (divNumbers 5 (-256)).toOption = some 5 := by
  decide +kernel

example : (divNumbers 0 999).toOption = some 0 ∧ (mulNumbers 256 1).toOption = none := by
  decide +kernel

end Gf256
end WalletVault
