import WalletVault.Text.Integer
import WalletVault.Text.Quoted

/-!
# Templates

Texts with places that are filled from named parameters. A place starts with a
percent sign. It may name its parameter in brackets; then come flags, a width, a
precision, a size letter, all of which may be missing, and the letter that says
how the parameter is written. A place without a name takes what the place before
it has left over, at first all parameters as one thing. Two percent signs in a
row stand for one. `Template.flaw?` tells why a template cannot be filled.
-/

namespace WalletVault
namespace Text

inductive Parameter where
  | text (value : String)
  | number
  /-- Something with a general form only, by the name of its type. -/
  | other (typeName : String)
  deriving DecidableEq, Repr

def Parameter.typeName : Parameter -> String
  | text _ => "str"
  | number => "int"
  | other typeName => typeName

structure Template where
  text : String
  parameters : List (String × Parameter)
  deriving DecidableEq, Repr

inductive TemplateFlaw where
  | openName
  | unknownName (name : String)
  | nothingLeft
  | measure
  | width
  | precision
  | cutShort
  | number (letter : Char) (typeName : String)
  | integer (letter : Char) (typeName : String)
  | decimal (typeName : String)
  | character
  | unknownLetter (letter : Char) (offset : Nat)
  deriving DecidableEq, Repr

def TemplateFlaw.message : TemplateFlaw -> String
  | openName => "incomplete format key"
  | unknownName name => quoted name
  | nothingLeft => "not enough arguments for format string"
  | measure => "* wants int"
  | width => "width too big"
  | precision => "precision too big"
  | cutShort => "incomplete format"
  | number letter typeName =>
    s!"%{letter} format: a real number is required, not {typeName}"
  | integer letter typeName => s!"%{letter} format: an integer is required, not {typeName}"
  | decimal typeName => s!"must be real number, not {typeName}"
  | character => "%c requires int or char"
  | unknownLetter letter offset =>
    let shown := if 31 <= letter.toNat ∧ letter.toNat <= 126 then letter else '?'
    let code := String.ofList (Nat.toDigits 16 letter.toNat)
    s!"unsupported format character '{shown}' (0x{code}) at index {offset}"

namespace Template

/-!
# The parts of a place
-/

/-- Where filling has come to: the text that is left, and what a place without a name takes. -/
structure Progress where
  rest : List Char
  left : Option Parameter

def closing : (inner : Nat) -> List Char -> Option (List Char × List Char)
  | _, [] => none
  | 0, ')' :: rest => some ([], rest)
  | inner + 1, ')' :: rest => (closing inner rest).map (fun (name, rest) => (')' :: name, rest))
  | inner, '(' :: rest => (closing (inner + 1) rest).map (fun (name, rest) => ('(' :: name, rest))
  | inner, c :: rest => (closing inner rest).map (fun (name, rest) => (c :: name, rest))

def readName (parameters : List (String × Parameter)) (progress : Progress) :
    Except TemplateFlaw Progress :=
  match progress.rest with
  | '(' :: rest =>
    match closing 0 rest with
    | none => .error .openName
    | some (name, rest) =>
      match parameters.lookup (String.ofList name) with
      | none => .error (.unknownName (String.ofList name))
      | some parameter => .ok ⟨rest, some parameter⟩
  | _ => .ok progress

def skipFlags (progress : Progress) : Progress :=
  { progress with rest := progress.rest.dropWhile ("-+ #0".toList.contains ·) }

def take (progress : Progress) : Except TemplateFlaw (Parameter × Progress) :=
  match progress.left with
  | none => .error .nothingLeft
  | some parameter => .ok (parameter, { progress with left := none })

/-- Reads a number up to a greatest one, or a star, which takes a parameter instead. -/
def readMeasure (greatest : Nat) (flaw : TemplateFlaw) (progress : Progress) :
    Except TemplateFlaw Progress :=
  match progress.rest with
  | '*' :: rest =>
    match take progress with
    | .error flaw => .error flaw
    | .ok (.number, progress) => .ok { progress with rest }
    | .ok _ => .error .measure
  | rest =>
    let digits := rest.takeWhile Char.isDigit
    if ofDigits (digits.map (fun c => c.toNat - 48)) > greatest then .error flaw
    else .ok { progress with rest := rest.dropWhile Char.isDigit }

def readPrecision (progress : Progress) : Except TemplateFlaw Progress :=
  match progress.rest with
  | '.' :: rest => readMeasure (Nat.pow 2 31 - 1) .precision { progress with rest }
  | _ => .ok progress

def skipSize (progress : Progress) : Progress :=
  match progress.rest with
  | c :: rest => if "hlL".toList.contains c then { progress with rest } else progress
  | [] => progress

/-- Why a parameter cannot be written in the way of a letter, which stands at an offset. -/
def letterFlaw? (letter : Char) (offset : Nat) (parameter : Parameter) : Option TemplateFlaw :=
  let unlessNumber (flaw : TemplateFlaw) := if parameter = .number then none else some flaw
  if "sra".toList.contains letter then none
  else if "diu".toList.contains letter then unlessNumber (.number letter parameter.typeName)
  else if "oxX".toList.contains letter then unlessNumber (.integer letter parameter.typeName)
  else if "eEfFgG".toList.contains letter then unlessNumber (.decimal parameter.typeName)
  else if letter = 'c' then
    match parameter with
    | .text value => if value.length = 1 then none else some .character
    | _ => unlessNumber .character
  else some (.unknownLetter letter offset)

def readLetter (size : Nat) (progress : Progress) : Except TemplateFlaw Progress :=
  match progress.rest with
  | [] => .error .cutShort
  | letter :: rest =>
    match take progress with
    | .error flaw => .error flaw
    | .ok (parameter, progress) =>
      match letterFlaw? letter (size - rest.length - 1) parameter with
      | some flaw => .error flaw
      | none => .ok { progress with rest }

/-- Fills one place, whose percent sign is passed; `size` is the length of the whole text. -/
def fillPlace (parameters : List (String × Parameter)) (size : Nat) (progress : Progress) :
    Except TemplateFlaw Progress :=
  match progress.rest with
  | '%' :: rest => .ok { progress with rest }
  | _ => do
    let progress ← readName parameters progress
    let progress ← readMeasure (Nat.pow 2 63 - 1) .width (skipFlags progress)
    let progress ← readPrecision progress
    readLetter size (skipSize progress)

/-!
# Templates as a whole
-/

/-- Fills the places one after the other. Each has its own percent sign, so that the length of
the text bounds their number. -/
def fill (parameters : List (String × Parameter)) (size : Nat) :
    (fuel : Nat) -> Progress -> Except TemplateFlaw Unit
  | 0, _ => .ok ()
  | fuel + 1, progress =>
    match progress.rest.dropWhile (· ≠ '%') with
    | [] => .ok ()
    | _ :: rest =>
      match fillPlace parameters size { progress with rest } with
      | .error flaw => .error flaw
      | .ok progress => fill parameters size fuel progress

def flaw? (template : Template) : Option TemplateFlaw :=
  let text := template.text.toList
  match fill template.parameters text.length text.length ⟨text, some (.other "dict")⟩ with
  | .ok () => none
  | .error flaw => some flaw

example : flaw? ⟨"100%)", []⟩ = some (.unknownLetter ')' 4) ∧ flaw? ⟨"100%%", []⟩ = none := by
  decide +kernel

example : flaw? ⟨"%(a)s %s", [("a", .number)]⟩ = some .nothingLeft := by decide +kernel

end Template
end Text
end WalletVault
