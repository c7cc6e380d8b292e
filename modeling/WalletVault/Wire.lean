import WalletVault.Fault

/-!
# Fields of wallet files

Little-endian numbers and byte strings, read one after the other from a byte
string and appended to one. A read that finds too little still consumes what is
there; a number that does not fit its field is refused. Single reads and writes
are also there as data, so that sequences of them can be carried out.
-/

namespace WalletVault
namespace Wire

/-!
# Reading
-/

abbrev Reader := ExceptT Fault (StateM Bytes)

/-- Reads exactly `needed` bytes. A negative number asks for everything and is never met; a
number that is no size at all consumes nothing. -/
def exact (needed : Int) : Reader Bytes := fun rest =>
  if !Bytes.isSize needed then (.error (.misuse .sizeWidth), rest)
  else
    let size := if needed < 0 then rest.length else needed.toNat
    let got := rest.take size
    (if (got.length : Int) = needed then .ok got
      else .error (.malformed (.truncated needed got.length)), rest.drop size)

def number (width : Nat) : Reader Nat := do
  let data ← exact width
  pure (Bytes.toNatLE data)

def u8 : Reader Nat := number 1

def u16 : Reader Nat := number 2

def u32 : Reader Nat := number 4

def toEnd : Reader Bytes := fun rest => (.ok rest, [])

/-!
# Writing
-/

def size : Width -> Nat
  | .u8 => 1
  | .u16 => 2
  | .u32 => 4

/-- Whether a number is too wide to be compared with the limit of a field at all. Only the two
narrow fields take signed numbers that far. -/
def isWide (width : Width) (value : Int) : Bool :=
  match width with
  | .u32 => value < 0 || (Nat.pow 2 64 : Nat) <= value
  | _ => !Bytes.isSize value

def put (width : Width) (value : Int) : Except Fault Bytes :=
  if isWide width value then .error (.misuse .wideNumber)
  else if value < 0 ∨ (Nat.pow 256 (size width) : Nat) <= value then .error (.misuse (.width width))
  else .ok (Bytes.ofNatLE (size width) value.toNat)

abbrev Writer := ExceptT Fault (StateM Bytes)

def append (data : Bytes) : Writer PUnit :=
  modify (fun content => content ++ data)

def field (width : Width) (value : Int) : Writer PUnit := do
  let data ← ExceptT.mk (pure (put width value))
  append data

/-!
# Single reads and writes
-/

inductive Read where
  | number (width : Width)
  | exact (needed : Int)
  | toEnd
  deriving DecidableEq, Repr

inductive Write where
  | number (width : Width) (value : Int)
  | bytes (data : Bytes)
  deriving DecidableEq, Repr

inductive Item where
  | number (value : Int)
  | bytes (data : Bytes)
  deriving DecidableEq, Repr

def Read.run : Read -> Reader Item
  | .number width => do
    let n ← Wire.number (size width)
    pure (.number n)
  | .exact needed => do
    let data ← Wire.exact needed
    pure (.bytes data)
  | .toEnd => do
    let data ← Wire.toEnd
    pure (.bytes data)

def Write.run : Write -> Writer PUnit
  | .number width value => field width value
  | .bytes data => append data

end Wire
end WalletVault
