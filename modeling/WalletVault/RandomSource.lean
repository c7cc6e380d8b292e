import WalletVault.Fault
import WalletVault.Hash.Sha256

/-!
# Random sources

A source answers requests for bytes, and its answer may depend on all requests
before. A request is spent even when the operation that made it fails later.
-/

namespace WalletVault

/-- A source of random bytes with the sizes it was asked for, latest first. -/
structure RandomSource where
  /-- The answer to the latest of the given requests. -/
  answer : (requests : List Nat) -> Bytes
  asked : List Nat

abbrev Draw := ExceptT Fault (StateM RandomSource)

namespace RandomSource

/-!
# Kinds of sources
-/

def ofBytes (data : Bytes) : RandomSource where
  answer requests := (data.drop (requests.tail.foldl (· + ·) 0)).take (requests.headD 0)
  asked := []

def ofPattern (pattern : Bytes) : RandomSource where
  answer requests := Bytes.cycle pattern (requests.headD 0)
  asked := []

def digests (size : Nat) : Nat :=
  (size + 31) / 32

/-- The digests of a seed with a running number; each request starts with a fresh digest. -/
def ofSeed (seed : Bytes) : RandomSource where
  answer requests :=
    let size := requests.headD 0
    let first := (requests.tail.map digests).foldl (· + ·) 0
    ((List.range (digests size)).flatMap (fun i =>
      Sha256.hash (seed ++ Bytes.ofNatBE 8 (first + i)))).take size
  asked := []

end RandomSource

def draw (size : Nat) : Draw Bytes := fun source =>
  let requests := size :: source.asked
  let data := source.answer requests
  (if data.length = size then .ok data else .error (.shortRandom data.length size),
    { source with asked := requests })

end WalletVault
