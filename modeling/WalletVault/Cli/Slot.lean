import WalletVault.Fault

/-!
# Slots

What a switch is given. A switch can be there without a value: a flag takes
none, a value may be left out where that is allowed, and two dashes in place of
a value that is joined to its switch are none. An empty slot is noticed only when
its value is needed.
-/

namespace WalletVault
namespace Cli

inductive Slot (α : Type) where
  | filled (value : α)
  | empty
  deriving DecidableEq, Repr

namespace Slot

variable {α : Type}

def value? : Slot α -> Option α
  | filled value => some value
  | empty => none

def getD (slot : Slot α) (other : α) : α :=
  slot.value?.getD other

def need (use : ValueUse) : Slot α -> Except Fault α
  | filled value => .ok value
  | empty => .error (.misuse (.noValue use))

def ofJoined (text : List Char) : Slot String :=
  if text = ['-', '-'] then empty else filled (String.ofList text)

end Slot
end Cli
end WalletVault
