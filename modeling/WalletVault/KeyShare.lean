import WalletVault.Field.Interpolation
import WalletVault.RandomSource

/-!
# Key shares

Threshold sharing of 32-byte secrets. Every byte of the secret is the constant
term of a polynomial of its own; the other coefficients are random. A share is
an index and the values of the 32 polynomials there. Any shares up to the
threshold fix the polynomials, and every further share has to lie on them.
-/

namespace WalletVault

/-- An index followed by the values of 32 polynomials at that index. -/
structure KeyShare where
  data : Bytes
  length_data : data.length = 33
  deriving DecidableEq

namespace KeyShare

def ofBytes (data : Bytes) : Except Fault KeyShare :=
  if h : data.length = 33 then .ok ⟨data, h⟩ else .error (.misuse (.shareSize data.length))

def index (share : KeyShare) : UInt8 :=
  share.data.headD 0

def values (share : KeyShare) : Bytes :=
  share.data.tail

def summary (share : KeyShare) : String :=
  s!"KeyShare(index={share.index.toNat})"

/-!
# Splitting
-/

/-- The polynomials of a secret: each byte with the next `degree` bytes of randomness. -/
def polynomials (degree : Nat) : (secret randomness : Bytes) -> List (List UInt8)
  | [], _ => []
  | b :: secret, randomness =>
    (b :: randomness.take degree) :: polynomials degree secret (randomness.drop degree)

@[simp] theorem length_polynomials (degree : Nat) (secret randomness : Bytes) :
    (polynomials degree secret randomness).length = secret.length := by
  induction secret generalizing randomness with
  | nil => rfl
  | cons b secret ih => simp [polynomials, ih]

def atPlace (curves : List (List UInt8)) (h : curves.length = 32) (x : UInt8) : KeyShare :=
  ⟨x :: curves.map (fun curve => Gf256.evaluate curve x), by simp [h]⟩

def shareOut (count degree : Nat) (secret randomness : Bytes) (h : secret.length = 32) :
    List KeyShare :=
  let curves := polynomials degree secret randomness
  (List.range count).map (fun i => atPlace curves (by simp [curves, h]) (UInt8.ofNat (i + 1)))

def split (secret : Bytes) (count threshold : Int) : Draw (List KeyShare) := do
  if h : secret.length = 32 then
    if threshold < 1 then throw (.request .thresholdBelowOne)
    if count < threshold then throw (.request (.countBelowThreshold count threshold))
    if count > 255 then throw (.request (.countAboveField count))
    let degree := threshold.toNat - 1
    let randomness ← draw (32 * degree)
    pure (shareOut count.toNat degree secret randomness h)
  else throw (.request .secretSize)

/-!
# Combining
-/

/-- The values at `x` of the polynomials through some shares. -/
def through (basis : List KeyShare) (x : UInt8) : Except Fault Bytes :=
  if basis = [] then .error (.misuse .outsideTable)
  else
    match Gf256.interpolate (basis.map index) (basis.map values) x 32 with
    | some result => .ok result
    | none => .error (.misuse .divisionByZero)

def checkExtras (basis : List KeyShare) : List KeyShare -> Except Fault Unit
  | [] => .ok ()
  | extra :: rest =>
    match through basis extra.index with
    | .error fault => .error fault
    | .ok expected =>
      if expected = extra.values then checkExtras basis rest
      else .error (.combination .differentSplits)

/-- How many of `present` shares a threshold selects as the basis; a negative threshold counts
from the end. -/
def basisSize (present : Nat) : Option Int -> Nat
  | none => present
  | some threshold =>
    if 0 <= threshold then threshold.toNat else present - (-threshold).toNat

/-- Recovers the secret from shares in any order; a repeated share counts once. A threshold of more
digits than a message can show (`Text.maxDigits`) is left out: the message of the first fault cannot
be made for it. -/
def combine (shares : List KeyShare) (threshold : Option Int) : Except Fault Bytes :=
  let distinct := shares.eraseDups
  let needed := threshold.getD 1
  let places := distinct.map index
  let basis := distinct.take (basisSize distinct.length threshold)
  if distinct = [] ∨ (distinct.length : Int) < needed then
    .error (.fewShares distinct.length needed)
  else if places.contains 0 then .error (.combination .zeroIndex)
  else if places.eraseDups ≠ places then .error (.combination .repeatedIndex)
  else
    match checkExtras basis (distinct.drop basis.length) with
    | .error fault => .error fault
    | .ok () => through basis 0

end KeyShare
end WalletVault
