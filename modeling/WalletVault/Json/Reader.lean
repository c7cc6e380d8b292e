import WalletVault.Json.Basic
import WalletVault.Text.Integer

/-!
# Reading JSON

A reader that names the place of the first flaw by line, column and offset.
Each function takes the text from its place on; a flaw keeps the text from the
place it names on, and the offset follows from the length of that rest.
-/

namespace WalletVault
namespace Json

/-!
# Flaws
-/

inductive Cause where
  | value
  | comma
  | name
  | colon
  | openString
  | control
  | escape
  | codeEscape
  | extra
  deriving DecidableEq, Repr

def Cause.message : Cause -> String
  | value => "Expecting value"
  | comma => "Expecting ',' delimiter"
  | name => "Expecting property name enclosed in double quotes"
  | colon => "Expecting ':' delimiter"
  | openString => "Unterminated string starting at"
  | control => "Invalid control character at"
  | escape => "Invalid \\escape"
  | codeEscape => "Invalid \\uXXXX escape"
  | extra => "Extra data"

inductive Bracket where
  | square
  | curly
  deriving DecidableEq, Repr

def Bracket.message : Bracket -> String
  | square => "array"
  | curly => "object"

/-- Why reading stopped: a flaw with the text from its place on, an integer with too many digits,
or a bracket inside too many others. -/
inductive Stop where
  | flaw (cause : Cause) (rest : List Char)
  | tooLong (digits : Nat)
  | tooDeep (bracket : Bracket)

structure Flaw where
  cause : Cause
  line : Nat
  column : Nat
  offset : Nat
  deriving DecidableEq, Repr

def Flaw.message (flaw : Flaw) : String :=
  s!"{flaw.cause.message}: line {flaw.line} column {flaw.column} (char {flaw.offset})"

def Flaw.locate (text : List Char) (cause : Cause) (offset : Nat) : Flaw :=
  let before := text.take offset
  ⟨cause, before.count '\n' + 1, (before.reverse.takeWhile (· ≠ '\n')).length + 1, offset⟩

/-!
# Words of the language
-/

def isSpace (c : Char) : Bool :=
  c = ' ' || c = '\t' || c = '\n' || c = '\r'

def skip (text : List Char) : List Char :=
  text.dropWhile isSpace

def literals : List (List Char × Json) := [
  ("null".toList, .null), ("true".toList, .bool true), ("false".toList, .bool false),
  ("NaN".toList, .float "NaN"), ("Infinity".toList, .float "Infinity"),
  ("-Infinity".toList, .float "-Infinity")]

def literal? (text : List Char) : Option (Json × List Char) :=
  (literals.find? (fun (word, _) => word.isPrefixOf text)).map (fun (word, value) =>
    (value, text.drop word.length))

def unit? (a b c d : Char) : Option Nat :=
  let value? (c : Char) : Option Nat :=
    let n := c.toNat
    if 48 <= n ∧ n <= 57 then some (n - 48)
    else if 97 <= n ∧ n <= 102 then some (n - 87)
    else if 65 <= n ∧ n <= 70 then some (n - 55)
    else none
  do
    let a ← value? a
    let b ← value? b
    let c ← value? c
    let d ← value? d
    pure (4096 * a + 256 * b + 16 * c + d)

def escaped? (c : Char) : Option Char :=
  match c with
  | '"' => some '"'
  | '\\' => some '\\'
  | '/' => some '/'
  | 'b' => some '\x08'
  | 'f' => some '\x0c'
  | 'n' => some '\n'
  | 'r' => some '\r'
  | 't' => some '\t'
  | _ => none

/-- A unit that is half of a pair without the other half has no character of its own. -/
def ofUnit (n : Nat) : Char :=
  if 0xd800 <= n ∧ n < 0xe000 then '\ufffd' else Char.ofNat n

def isHigh (n : Nat) : Bool := 0xd800 <= n && n < 0xdc00

def isLow (n : Nat) : Bool := 0xdc00 <= n && n < 0xe000

/-- The character of a code escape, whose text starts with the letter, and the number of
characters behind the letter that belong to it. A pair of units makes one character. A further
character has to follow. -/
def codeEscape (source : List Char) : Except Stop (Char × Nat) :=
  match source with
  | _ :: a :: b :: c :: d :: e :: rest =>
    match unit? a b c d with
    | none => .error (.flaw .codeEscape source)
    | some n =>
      match isHigh n, e, rest with
      | true, '\\', 'u' :: a' :: b' :: c' :: d' :: _ :: _ =>
        match unit? a' b' c' d' with
        | none => .error (.flaw .codeEscape rest)
        | some m =>
          if isLow m then .ok (Char.ofNat (0x10000 + 0x400 * (n - 0xd800) + (m - 0xdc00)), 10)
          else .ok (ofUnit n, 4)
      | _, _, _ => .ok (ofUnit n, 4)
  | _ => .error (.flaw .codeEscape source)

/-- Reads a string behind its first quote. `whole` is the text from that quote on; `seen` holds
the characters so far, last first. -/
def string (whole seen : List Char) : List Char -> Except Stop (String × List Char)
  | [] => .error (.flaw .openString whole)
  | '"' :: rest => .ok (String.ofList seen.reverse, rest)
  | ['\\'] => .error (.flaw .openString whole)
  | '\\' :: c :: rest =>
    if c = 'u' then
      match codeEscape (c :: rest) with
      | .error stop => .error stop
      | .ok (c', size) => string whole (c' :: seen) (rest.drop size)
    else
      match escaped? c with
      | none => .error (.flaw .escape ('\\' :: c :: rest))
      | some c' => string whole (c' :: seen) rest
  | c :: rest =>
    if c.toNat < 0x20 then .error (.flaw .control (c :: rest))
    else string whole (c :: seen) rest
termination_by source => source.length
decreasing_by all_goals (simp only [List.length_drop, List.length_cons]; omega)

/-!
# Numbers
-/

def isDigit (c : Char) : Bool :=
  '0' <= c && c <= '9'

def integerPart? : List Char -> Option (List Char × List Char)
  | '0' :: rest => some (['0'], rest)
  | c :: rest =>
    if isDigit c then some (c :: rest.takeWhile isDigit, rest.dropWhile isDigit) else none
  | [] => none

def fraction? : List Char -> Option (List Char)
  | '.' :: d :: rest => if isDigit d then some (rest.dropWhile isDigit) else none
  | _ => none

def exponent? : List Char -> Option (List Char)
  | e :: rest =>
    if e = 'e' ∨ e = 'E' then
      let body := match rest with
        | '+' :: body => body
        | '-' :: body => body
        | body => body
      if (body.takeWhile isDigit).isEmpty then none else some (body.dropWhile isDigit)
    else none
  | [] => none

def number (text : List Char) : Except Stop (Json × List Char) :=
  let (negative, body) := match text with
    | '-' :: body => (true, body)
    | body => (false, body)
  match integerPart? body with
  | none => .error (.flaw .value text)
  | some (digits, rest) =>
    let behind := (fraction? rest).getD rest
    let rest' := (exponent? behind).getD behind
    if rest'.length < rest.length then
      .ok (.float (String.ofList (text.take (text.length - rest'.length))), rest')
    else if digits.length > Text.maxDigits then .error (.tooLong digits.length)
    else
      let n := Text.ofDigits (digits.map (fun c => c.toNat - 48))
      .ok (.int (if negative then -(n : Int) else n), rest)

/-!
# Values
-/

def maxDepth : Nat := 985

mutual

/-- Reads a value at the start of the text, inside as many brackets as `depth` still allows. Every
step into a nested value passes a bracket, so the length of the text bounds the steps. -/
def value : (fuel depth : Nat) -> (source : List Char) -> Except Stop (Json × List Char)
  | 0, _, source => .error (.flaw .value source)
  | fuel + 1, depth, source =>
    match source, depth with
    | [], _ => .error (.flaw .value [])
    | '"' :: rest, _ => (string source [] rest).map (fun (s, rest) => (.text s, rest))
    | '[' :: _, 0 => .error (.tooDeep .square)
    | '[' :: rest, depth + 1 =>
      match skip rest with
      | ']' :: rest => .ok (.array [], rest)
      | rest => (items fuel depth rest).map (fun (items, rest) => (.array items, rest))
    | '\x7b' :: _, 0 => .error (.tooDeep .curly)
    | '\x7b' :: rest, depth + 1 =>
      match skip rest with
      | '\x7d' :: rest => .ok (.object [], rest)
      | rest => (fields fuel depth rest).map (fun (fields, rest) => (.object fields, rest))
    | source, _ =>
      match literal? source with
      | some result => .ok result
      | none => number source

def items : (fuel depth : Nat) -> (source : List Char) -> Except Stop (List Json × List Char)
  | 0, _, source => .error (.flaw .value source)
  | fuel + 1, depth, source =>
    match value fuel depth source with
    | .error stop => .error stop
    | .ok (item, rest) =>
      match skip rest with
      | ']' :: rest => .ok ([item], rest)
      | ',' :: rest =>
        (items fuel depth (skip rest)).map (fun (more, rest) => (item :: more, rest))
      | rest => .error (.flaw .comma rest)

def fields : (fuel depth : Nat) -> (source : List Char) ->
    Except Stop (List (String × Json) × List Char)
  | 0, _, source => .error (.flaw .name source)
  | fuel + 1, depth, source =>
    match source with
    | '"' :: rest =>
      match string source [] rest with
      | .error stop => .error stop
      | .ok (name, rest) =>
        match skip rest with
        | ':' :: rest =>
          match value fuel depth (skip rest) with
          | .error stop => .error stop
          | .ok (item, rest) =>
            match skip rest with
            | '\x7d' :: rest => .ok ([(name, item)], rest)
            | ',' :: rest =>
              (fields fuel depth (skip rest)).map (fun (more, rest) => ((name, item) :: more, rest))
            | rest => .error (.flaw .comma rest)
        | rest => .error (.flaw .colon rest)
    | source => .error (.flaw .name source)

end

inductive Refusal where
  | flaw (flaw : Flaw)
  | tooLong (digits : Nat)
  | tooDeep (bracket : Bracket)
  deriving DecidableEq, Repr

def Refusal.message : Refusal -> String
  | .flaw f => f.message
  | .tooLong digits =>
    s!"Exceeds the limit ({Text.maxDigits} digits) for integer string conversion: value has {digits} digits; use sys.set_int_max_str_digits() to increase the limit"
  | .tooDeep bracket =>
    s!"maximum recursion depth exceeded while decoding a JSON {bracket.message} from a unicode string"

def read (text : String) : Except Refusal Json :=
  let chars := text.toList
  let flawAt (cause : Cause) (rest : List Char) : Refusal :=
    .flaw (Flaw.locate chars cause (chars.length - rest.length))
  match value (2 * chars.length + 2) maxDepth (skip chars) with
  | .error (.flaw cause rest) => .error (flawAt cause rest)
  | .error (.tooLong digits) => .error (.tooLong digits)
  | .error (.tooDeep bracket) => .error (.tooDeep bracket)
  | .ok (result, rest) =>
    match skip rest with
    | [] => .ok result
    | rest => .error (flawAt .extra rest)

end Json
end WalletVault
