import WalletVault.Fault
import WalletVault.Suite

/-!
# Secret buffers

A buffer stands in an array of bytes, one of its own or one that somebody else
holds, and overwrites that array in place: with a value of the same size, or with
zeros when the block that uses the buffer ends. A value of another size is refused.
-/

namespace WalletVault

/-- A buffer among the arrays of bytes that are around. It stands in the one at its place. -/
structure SecretBuffer where
  arrays : List Bytes
  place : Nat
  place_lt : place < arrays.length
  deriving DecidableEq, Repr

namespace SecretBuffer

abbrev Using := ExceptT Fault (StateM SecretBuffer)

/-!
# Making buffers
-/

/-- What a buffer is made from: a number of zeros, a copy of some bytes, or an array that is
handed over. -/
inductive Origin (arrays : List Bytes) where
  | size (size : Int)
  | data (data : Bytes)
  | lent (place : Fin arrays.length)

def fresh (arrays : List Bytes) (data : Bytes) : SecretBuffer where
  arrays := arrays ++ [data]
  place := arrays.length
  place_lt := by simp

def make [Suite] {arrays : List Bytes} : Origin arrays -> Except Fault SecretBuffer
  | .size size =>
    if !Bytes.isSize size then .error (.misuse .sizeWidth)
    else if size < 0 then .error (.misuse .negativeSize)
    else if Suite.hasMemory size.toNat then .ok (fresh arrays (Bytes.zeros size.toNat))
    else .error (.misuse .sizeAtHand)
  | .data data => .ok (fresh arrays data)
  | .lent place => .ok ⟨arrays, place, place.isLt⟩

/-!
# Content
-/

def content (buffer : SecretBuffer) : Bytes :=
  buffer.arrays.get ⟨buffer.place, buffer.place_lt⟩

def overwrite (buffer : SecretBuffer) (data : Bytes) : SecretBuffer where
  arrays := buffer.arrays.set buffer.place data
  place := buffer.place
  place_lt := by rw [List.length_set]; exact buffer.place_lt

def zeroed (buffer : SecretBuffer) : SecretBuffer :=
  (List.range buffer.content.length).foldl
    (fun buffer i => buffer.overwrite (buffer.content.set i 0)) buffer

def summary (buffer : SecretBuffer) : String :=
  s!"SecretBuffer(<{buffer.content.length} bytes>)"

/-!
# Use
-/

def set (value : Bytes) : Using PUnit := do
  let buffer ← get
  if value.length ≠ buffer.content.length then
    throw (.misuse (.bufferSize buffer.content.length value.length))
  modify (fun buffer => buffer.overwrite value)

def wipe : Using PUnit :=
  modify zeroed

def enter : Using PUnit :=
  pure ⟨⟩

def leave : Using PUnit :=
  wipe

/-- Uses the buffer in a block, which is left however its body ends. -/
def block {α : Type} (body : Using α) : Using α := do
  enter
  try body finally leave

/-!
# Equations
-/

@[simp] theorem content_overwrite (buffer : SecretBuffer) (data : Bytes) :
    (buffer.overwrite data).content = data := by
  simp [content, overwrite]

@[simp] theorem overwrite_content (buffer : SecretBuffer) :
    buffer.overwrite buffer.content = buffer := by
  simp [content, overwrite]

@[simp] theorem overwrite_overwrite (buffer : SecretBuffer) (data later : Bytes) :
    (buffer.overwrite data).overwrite later = buffer.overwrite later := by
  simp [overwrite]

theorem getElem?_arrays (buffer : SecretBuffer) :
    buffer.arrays[buffer.place]? = some buffer.content := by
  simp [content, buffer.place_lt]

theorem getElem?_arrays_overwrite {buffer : SecretBuffer} {place : Nat} (data : Bytes)
    (h : place ≠ buffer.place) :
    (buffer.overwrite data).arrays[place]? = buffer.arrays[place]? :=
  List.getElem?_set_ne h.symm

end SecretBuffer
end WalletVault
