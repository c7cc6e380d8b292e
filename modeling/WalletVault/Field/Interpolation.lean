import WalletVault.Field.Gf256

/-!
# Interpolation over the field of 256 elements

Polynomials are lists of coefficients, the constant term first. `evaluate` is
Horner's rule; `weights` are the values at one place of the polynomials that
are one at one of the given places and zero at the others.
-/

namespace WalletVault
namespace Gf256

/-- The value of a polynomial, constant term first, at `x`. -/
def evaluate (coefficients : List UInt8) (x : UInt8) : UInt8 :=
  coefficients.foldr (fun c value => mul value x ^^^ c) 0

def differences (places : List UInt8) (x : UInt8) : UInt8 :=
  places.foldl (fun value y => mul value (x ^^^ y)) 1

/-- For each place the value at `x` of the polynomial that is one there and zero at the other
places; there is none when a place is repeated. -/
def weights (places : List UInt8) (x : UInt8) : Option (List UInt8) :=
  places.zipIdx.mapM (fun (place, i) =>
    let others := places.eraseIdx i
    div? (differences others x) (differences others place))

def combination (size : Nat) (weights : List UInt8) (rows : List Bytes) : Bytes :=
  (weights.zip rows).foldl (fun sum (weight, row) =>
    Bytes.xor sum (row.map (fun y => mul y weight))) (Bytes.zeros size)

/-- Reads each row as the values of several polynomials at one place and gives their values at
`x`. -/
def interpolate (places : List UInt8) (rows : List Bytes) (x : UInt8) (size : Nat) :
    Option Bytes :=
  (weights places x).map (fun ws => combination size ws rows)

end Gf256
end WalletVault
