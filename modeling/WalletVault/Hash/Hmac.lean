import WalletVault.Hash.Sha256

/-!
# HMAC-SHA256 and PBKDF2

A key is kept as the two chaining values after its padded block, so that a tag
costs two further blocks. PBKDF2 needs one output block, because the derived
keys have the size of a digest.
-/

namespace WalletVault
namespace Hmac

open Sha256 (State)

structure Key where
  inner : State
  outer : State

/-- A key of any length; one longer than a block is hashed first. -/
def Key.ofBytes (key : Bytes) : Key :=
  let short := if key.length > 64 then Sha256.hash key else key
  let block := short ++ Bytes.zeros (64 - short.length)
  let start (pad : UInt8) := Sha256.absorb .start (Sha256.words (block.map (fun b => b ^^^ pad)))
  ⟨start 0x36, start 0x5c⟩

def Key.close (key : Key) (inner : State) : State :=
  Sha256.compress key.outer
    (inner.words ++ [0x80000000, 0, 0, 0, 0, 0, 0, 768]).toArray

def Key.tag (key : Key) (message : Bytes) : State :=
  key.close (Sha256.finish key.inner 64 message)

def Key.again (key : Key) (tag : State) : State :=
  key.close (Sha256.compress key.inner
    (tag.words ++ [0x80000000, 0, 0, 0, 0, 0, 0, 768]).toArray)

def hash (key message : Bytes) : Bytes :=
  ((Key.ofBytes key).tag message).digest

@[simp] theorem length_hash (key message : Bytes) : (hash key message).length = 32 :=
  State.length_digest _

end Hmac

namespace Pbkdf2

open Sha256 (State)

def mix (s t : State) : State :=
  ⟨s.a ^^^ t.a, s.b ^^^ t.b, s.c ^^^ t.c, s.d ^^^ t.d,
    s.e ^^^ t.e, s.f ^^^ t.f, s.g ^^^ t.g, s.h ^^^ t.h⟩

/-- Adds `left` further tags to the sum, each the tag of the one before. -/
def iterate (key : Hmac.Key) : (left : Nat) -> (tag sum : State) -> State
  | 0, _, sum => sum
  | left + 1, tag, sum =>
    let next := key.again tag
    iterate key left next (mix sum next)

def derive (password salt : Bytes) (iterations : Nat) : Bytes :=
  let key := Hmac.Key.ofBytes password
  let first := key.tag (salt ++ [0, 0, 0, 1])
  (iterate key (iterations - 1) first first).digest

@[simp] theorem length_derive (password salt : Bytes) (iterations : Nat) :
    (derive password salt iterations).length = 32 :=
  State.length_digest _

end Pbkdf2
end WalletVault
