import WalletVault.Hash.Sha512

/-!
# Ed25519

Public keys, signatures and their verification on the twisted Edwards curve
`-x² + y² = 1 + d x² y²` over the integers modulo `2^255 - 19`. Verification
recomputes the commitment without the cofactor and refuses a scalar that is
not below the group order.
-/

namespace WalletVault
namespace Ed25519

/-!
# The prime field
-/

def fieldPrime : Nat :=
  Nat.pow 2 255 - 19

def groupOrder : Nat :=
  Nat.pow 2 252 + 27742317777372353535851937790883648493

def add (a b : Nat) : Nat := (a + b) % fieldPrime

def sub (a b : Nat) : Nat := (a + (fieldPrime - b)) % fieldPrime

def mul (a b : Nat) : Nat := a * b % fieldPrime

/-- Multiplies `value` by the power of `a` whose exponent has the given number of bits. -/
def powBits (a exponent : Nat) : (bits : Nat) -> (value : Nat) -> Nat
  | 0, value => value
  | bits + 1, value =>
    let square := mul value value
    powBits a exponent bits (if exponent.testBit bits then mul square a else square)

def pow (a exponent : Nat) : Nat :=
  powBits a exponent 256 1

def inv (a : Nat) : Nat :=
  pow a (fieldPrime - 2)

/-!
# The curve
-/

def curveConstant : Nat :=
  37095705934669439343138083508754565189542113879843219016388785533085940283555

def rootOfMinusOne : Nat :=
  19681161376707505956807079304988542015446066515923890162744021073123829784752

/-- A point in extended coordinates: `x = X / Z`, `y = Y / Z`, `x y = T / Z`. -/
structure Point where
  x : Nat
  y : Nat
  z : Nat
  t : Nat

namespace Point

def zero : Point := ⟨0, 1, 1, 0⟩

def base : Point :=
  let x := 15112221349535400772501151409588531511454012693041857206046113283949847762202
  let y := 46316835694926478169428394003475163141307993866256225615783033603165251855960
  ⟨x, y, 1, Ed25519.mul x y⟩

def add (p q : Point) : Point :=
  let a := Ed25519.mul (sub p.y p.x) (sub q.y q.x)
  let b := Ed25519.mul (Ed25519.add p.y p.x) (Ed25519.add q.y q.x)
  let c := Ed25519.mul (Ed25519.mul (2 * p.t) curveConstant) q.t
  let d := Ed25519.mul (2 * p.z) q.z
  let e := sub b a
  let f := sub d c
  let g := Ed25519.add d c
  let h := Ed25519.add b a
  ⟨Ed25519.mul e f, Ed25519.mul g h, Ed25519.mul f g, Ed25519.mul e h⟩

def neg (p : Point) : Point :=
  ⟨sub 0 p.x, p.y, p.z, sub 0 p.t⟩

/-- Adds the multiples of `p` that the lowest bits of `scalar` select, most significant first. -/
def smulBits (p : Point) (scalar : Nat) : (bits : Nat) -> (value : Point) -> Point
  | 0, value => value
  | bits + 1, value =>
    let twice := value.add value
    smulBits p scalar bits (if scalar.testBit bits then twice.add p else twice)

def smul (scalar : Nat) (p : Point) : Point :=
  smulBits p scalar 256 zero

def encode (p : Point) : Bytes :=
  let i := inv p.z
  let x := Ed25519.mul p.x i
  let y := Ed25519.mul p.y i
  Bytes.ofNatLE 32 (y + Nat.pow 2 255 * (x % 2))

/-- Reads the 32-byte form; `y` is taken modulo the prime. -/
def decode? (data : Bytes) : Option Point :=
  let n := Bytes.toNatLE data
  let y := n % Nat.pow 2 255 % fieldPrime
  let u := sub (Ed25519.mul y y) 1
  let v := Ed25519.add (Ed25519.mul curveConstant (Ed25519.mul y y)) 1
  let v3 := Ed25519.mul v (Ed25519.mul v v)
  let v7 := Ed25519.mul v (Ed25519.mul v3 v3)
  let root := Ed25519.mul (Ed25519.mul u v3)
    (pow (Ed25519.mul u v7) ((fieldPrime - 5) / 8))
  let check := Ed25519.mul v (Ed25519.mul root root)
  let x? :=
    if check = u then some root
    else if check = sub 0 u then some (Ed25519.mul root rootOfMinusOne)
    else none
  x?.map (fun x =>
    let x := if x % 2 = n / Nat.pow 2 255 % 2 then x else sub 0 x
    ⟨x, y, 1, Ed25519.mul x y⟩)

end Point

/-!
# Keys and signatures
-/

def scalar (seed : Bytes) : Nat :=
  Bytes.toNatLE ((Sha512.hash seed).take 32) % Nat.pow 2 254 / 8 * 8 + Nat.pow 2 254

def publicKey (seed : Bytes) : Bytes :=
  (Point.base.smul (scalar seed)).encode

def hashScalar (data : Bytes) : Nat :=
  Bytes.toNatLE (Sha512.hash data) % groupOrder

def sign (seed message : Bytes) : Bytes :=
  let a := scalar seed
  let key := (Point.base.smul a).encode
  let r := hashScalar ((Sha512.hash seed).drop 32 ++ message)
  let commitment := (Point.base.smul r).encode
  let k := hashScalar (commitment ++ key ++ message)
  commitment ++ Bytes.ofNatLE 32 ((r + k * a) % groupOrder)

def verify (key message signature : Bytes) : Bool :=
  if key.length = 32 ∧ signature.length = 64 then
    let commitment := signature.take 32
    let s := Bytes.toNatLE (signature.drop 32)
    if s < groupOrder then
      match Point.decode? key with
      | none => false
      | some p =>
        let k := hashScalar (commitment ++ key ++ message)
        ((Point.base.smul s).add (p.neg.smul k)).encode == commitment
    else false
  else false

@[simp] theorem Point.length_encode (p : Point) : p.encode.length = 32 := by
  simp [Point.encode]

@[simp] theorem length_publicKey (seed : Bytes) : (publicKey seed).length = 32 := by
  simp [publicKey]

@[simp] theorem length_sign (seed message : Bytes) : (sign seed message).length = 64 := by
  simp [sign]

end Ed25519
end WalletVault
