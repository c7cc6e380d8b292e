import WalletVault.Text.Printable

/-!
# Quoted names

How a message shows a name: between quotes, with escapes for the quote, the
backslash and every character that has no visible form.
-/

namespace WalletVault
namespace Text

def hexDigits (width n : Nat) : List Char :=
  let digits := Nat.toDigits 16 n
  List.replicate (width - digits.length) '0' ++ digits

def quoteChar (mark c : Char) : List Char :=
  if c = mark ∨ c = '\\' then ['\\', c]
  else if c = '\t' then ['\\', 't']
  else if c = '\n' then ['\\', 'n']
  else if c = '\r' then ['\\', 'r']
  else if isPrintable c then [c]
  else if c.toNat < 0x100 then '\\' :: 'x' :: hexDigits 2 c.toNat
  else if c.toNat < 0x10000 then '\\' :: 'u' :: hexDigits 4 c.toNat
  else '\\' :: 'U' :: hexDigits 8 c.toNat

/-- A name between quotes: single ones, unless that would force escapes which double ones
avoid. -/
def quoted (name : String) : String :=
  let chars := name.toList
  let mark := if chars.contains '\'' && !chars.contains '"' then '"' else '\''
  String.ofList (mark :: chars.flatMap (quoteChar mark) ++ [mark])

example : quoted "a'b" = "\"a'b\"" ∧ quoted "a'\"\\" = "'a\\'\"\\\\'" := by decide +kernel

example : quoted "\x00\n" = "'\\x00\\n'" := by decide +kernel

end Text
end WalletVault
