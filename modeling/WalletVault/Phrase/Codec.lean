import WalletVault.Fault
import WalletVault.Phrase.WordList
import WalletVault.Suite
import WalletVault.Text.Blank

/-!
# Phrases

Entropy of 16 or 32 bytes as 12 or 24 words. The indices of the words are the
digits to base 2048 of the entropy followed by the first bits of its digest. A
word may be cut to its first four letters or more. Reading always gives 32
bytes; those of a short phrase are its 16 bytes twice.
-/

namespace WalletVault
namespace Phrase

/-!
# Words
-/

/-- The index of a word as somebody types it: with blanks around, in any case, and possibly cut
to a beginning of at least four letters. -/
def find? (typed : String) : Option Nat :=
  let word := (Text.trim typed.toList).map Text.lowerLetter
  match wordList.findIdx? (fun entry => entry.toList == word) with
  | some index => some index
  | none =>
    if word.length < 4 then none
    else wordList.findIdx? (fun entry => word.isPrefixOf entry.toList)

/-- The indices of the words; the first word that is not found is named. -/
def indices : List String -> Except Fault (List Nat)
  | [] => .ok []
  | word :: rest =>
    match find? word with
    | none => .error (.unknownWord word)
    | some index => (indices rest).map (index :: ·)

/-!
# Entropy to words
-/

variable [Suite]

/-- The first `bits` bits, at most eight, of the digest of some entropy. -/
def checkBits (bits : Nat) (entropy : Bytes) : Nat :=
  ((Suite.sha256 entropy).headD 0).toNat / Nat.pow 2 (8 - bits)

def digits (count n : Nat) : List Nat :=
  (List.range count).reverse.map (fun i => n / Nat.pow 2048 i % 2048)

/-- One half of a doubled string of 32 bytes, or the string itself. -/
def shorten (entropy : Bytes) : Bytes :=
  if entropy.length = 32 ∧ entropy.take 16 = entropy.drop 16 then entropy.take 16 else entropy

def indicesOf (entropy : Bytes) : List Nat :=
  let bits := entropy.length / 4
  digits (entropy.length * 3 / 4) (Bytes.toNatBE entropy * Nat.pow 2 bits + checkBits bits entropy)

def ofEntropy (entropy : Bytes) : Except Fault (List String) :=
  let short := shorten entropy
  if short.length = 16 ∨ short.length = 32 then
    .ok ((indicesOf short).map (fun index => wordList.getD index ""))
  else .error (.entropyLength entropy.length)

/-!
# Words to entropy
-/

def ofDigits (indices : List Nat) : Nat :=
  indices.foldl (fun n index => n * 2048 + index) 0

/-- The entropy of word indices, 12 or 24 of them. The check bits are right if they are those of
the digest, or all zero. -/
def entropyOf (indices : List Nat) : Except Fault Bytes :=
  let bits := indices.length / 3
  let n := ofDigits indices
  let entropy := Bytes.ofNatBE (4 * bits) (n / Nat.pow 2 bits)
  let check := n % Nat.pow 2 bits
  if check = checkBits bits entropy ∨ check = 0 then
    .ok (if indices.length = 12 then entropy ++ entropy else entropy)
  else .error .phraseChecksum

def toEntropy (words : List String) : Except Fault Bytes :=
  if words.length = 12 ∨ words.length = 24 then (indices words).bind entropyOf
  else .error (.wordCount words.length)

/-!
# Phrases as they are given
-/

inductive Given where
  | text (phrase : String)
  | list (words : List String)
  deriving DecidableEq, Repr

def Given.words : Given -> List String
  | text phrase => Text.words phrase
  | list words => words

end Phrase
end WalletVault
