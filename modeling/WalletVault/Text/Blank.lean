/-!
# Blanks

The characters that separate words, how a text is trimmed, and how it is cut
into words. A run of blanks counts as one separation.
-/

namespace WalletVault
namespace Text

def isBlank (c : Char) : Bool :=
  let n := c.toNat
  (0x09 <= n && n <= 0x0d) || (0x1c <= n && n <= 0x20) || n == 0x85 || n == 0xa0 || n == 0x1680 ||
    (0x2000 <= n && n <= 0x200a) || n == 0x2028 || n == 0x2029 || n == 0x202f || n == 0x205f ||
    n == 0x3000

def strip (isOuter : Char -> Bool) (text : List Char) : List Char :=
  ((text.dropWhile isOuter).reverse.dropWhile isOuter).reverse

def trim (text : List Char) : List Char :=
  strip isBlank text

def words (text : String) : List String :=
  ((text.toList.splitOnP isBlank).filter (fun word => !word.isEmpty)).map String.ofList

/-- The lower case of a character as far as it is one of the 26 letters: of those characters
only the letters themselves and the Kelvin sign have one. -/
def lowerLetter (c : Char) : Char :=
  if c = '\u212a' then 'k' else c.toLower

end Text
end WalletVault
