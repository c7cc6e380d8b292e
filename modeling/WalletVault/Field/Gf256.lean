import WalletVault.Bytes

/-!
# The field of 256 elements

Bytes as polynomials over two elements, modulo `x^8 + x^4 + x^3 + x + 1`. The
sum is exclusive or. The product adds up the doublings of one factor that the
bits of the other one select.
-/

namespace WalletVault
namespace Gf256

def double (a : UInt8) : UInt8 :=
  (a <<< 1) ^^^ (if a &&& 0x80 = 0 then 0 else 0x1b)

/-- The sum of the doublings of `a` that the lowest `bits` bits of `b` select. -/
def mulBits : (bits : Nat) -> (a b : UInt8) -> UInt8
  | 0, _, _ => 0
  | bits + 1, a, b => (if b &&& 1 = 0 then 0 else a) ^^^ mulBits bits (double a) (b >>> 1)

def mul (a b : UInt8) : UInt8 :=
  mulBits 8 a b

/-- The inverse of a nonzero element: its power with exponent `254 = 2 + 4 + ⋯ + 128`. -/
def inv (a : UInt8) : UInt8 :=
  let a2 := mul a a
  let a4 := mul a2 a2
  let a8 := mul a4 a4
  let a16 := mul a8 a8
  let a32 := mul a16 a16
  let a64 := mul a32 a32
  let a128 := mul a64 a64
  mul a2 (mul a4 (mul a8 (mul a16 (mul a32 (mul a64 a128)))))

def div? (a b : UInt8) : Option UInt8 :=
  if b = 0 then none else some (mul a (inv b))

theorem div?_eq_none_iff (a b : UInt8) : div? a b = none <-> b = 0 := by
  simp [div?]

end Gf256
end WalletVault
