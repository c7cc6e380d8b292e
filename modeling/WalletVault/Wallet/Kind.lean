import WalletVault.Fault

/-!
# Wallet kinds

A tag of two bytes names the generation of a wallet and whether its key is
sharded. All generations are read; only the third is written.
-/

namespace WalletVault

inductive Generation where
  | first
  | second
  | third
  deriving DecidableEq, Repr

structure WalletKind where
  sharded : Bool
  generation : Generation
  deriving DecidableEq, Repr

def Generation.number : Generation -> Nat
  | first => 1
  | second => 2
  | third => 3

namespace WalletKind

def all : List WalletKind := [
  ⟨false, .first⟩, ⟨false, .second⟩, ⟨false, .third⟩,
  ⟨true, .first⟩, ⟨true, .second⟩, ⟨true, .third⟩]

def tag (kind : WalletKind) : Nat :=
  kind.generation.number + if kind.sharded then 0x100 else 0

def current (sharded : Bool) : WalletKind :=
  ⟨sharded, .third⟩

/-- Whether the password hash is named by a selector byte; before, it was always PBKDF2. -/
def hasSelector (kind : WalletKind) : Bool :=
  kind.generation ≠ .first

/-- Whether a tag byte stands before the public key and before the plaintext. -/
def taggedKey (kind : WalletKind) : Bool :=
  kind.generation ≠ .third

def ofTag (tag : Int) : Except Fault WalletKind :=
  match all.find? (fun kind => (kind.tag : Int) = tag) with
  | some kind => .ok kind
  | none => .error (.malformed (.kind tag))

end WalletKind
end WalletVault
