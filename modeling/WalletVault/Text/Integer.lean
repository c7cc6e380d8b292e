import WalletVault.Text.Blank
import WalletVault.Text.Digit

/-!
# Integers as text

An optional sign and decimal digits of any script, with single underscores
between digits and blanks around the whole. The four control characters that
separate records are no blanks here.
-/

namespace WalletVault
namespace Text

/-- The longest integer that is read, in digits. -/
def maxDigits : Nat := 4300

def ofDigits (digits : List Nat) : Nat :=
  digits.foldl (fun n d => 10 * n + d) 0

def natural? (text : List Char) : Option Nat :=
  let groups := text.splitOnP (· == '_')
  if groups.any List.isEmpty then none
  else
    (groups.flatten.mapM digitValue?).bind (fun digits =>
      if digits.length <= maxDigits then some (ofDigits digits) else none)

def isMargin (c : Char) : Bool :=
  isBlank c && !(0x1c <= c.toNat && c.toNat <= 0x1f)

def integer? (text : String) : Option Int :=
  match strip isMargin text.toList with
  | '-' :: rest => (natural? rest).map (fun n => -(n : Int))
  | '+' :: rest => (natural? rest).map (fun n => (n : Int))
  | rest => (natural? rest).map (fun n => (n : Int))

example : integer? " -1_0 " = some (-10) ∧ integer? "1__0" = none ∧ integer? "" = none := by
  decide +kernel

example : integer? "\x1c5" = none := by decide +kernel

end Text
end WalletVault
