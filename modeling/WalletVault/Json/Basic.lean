import WalletVault.Text.Quoted

/-!
# JSON values and their text

Values keep the order of their fields. The text is pure ASCII: every other
character is escaped, above the basic plane as a pair of units.
-/

namespace WalletVault

/-- A JSON value. Of a number that is no integer only the text is kept. -/
inductive Json where
  | null
  | bool (value : Bool)
  | int (value : Int)
  | float (text : String)
  | text (value : String)
  | array (items : List Json)
  | object (fields : List (String × Json))
  deriving Inhabited

namespace Json

/-!
# Strings
-/

def escapeUnit (n : Nat) : List Char :=
  '\\' :: 'u' :: Text.hexDigits 4 n

def escapeChar (c : Char) : List Char :=
  let n := c.toNat
  if c = '"' ∨ c = '\\' then ['\\', c]
  else if c = '\n' then ['\\', 'n']
  else if c = '\r' then ['\\', 'r']
  else if c = '\t' then ['\\', 't']
  else if n = 0x0c then ['\\', 'f']
  else if n = 0x08 then ['\\', 'b']
  else if 0x20 <= n ∧ n <= 0x7e then [c]
  else if n < 0x10000 then escapeUnit n
  else escapeUnit (0xd800 + (n - 0x10000) / 0x400) ++ escapeUnit (0xdc00 + (n - 0x10000) % 0x400)

def quote (s : String) : String :=
  String.ofList ('"' :: s.toList.flatMap escapeChar ++ ['"'])

/-!
# Values
-/

/-- How nested values are laid out: on one line, or one item a line with two blanks a level. -/
inductive Layout where
  | line
  | indented
  deriving DecidableEq, Repr

def enclose (layout : Layout) (depth : Nat) (first last : String) (parts : List String) : String :=
  if parts.isEmpty then first ++ last
  else
    match layout with
    | .line => first ++ String.intercalate ", " parts ++ last
    | .indented =>
      let margin (d : Nat) := "\n" ++ String.ofList (List.replicate (2 * d) ' ')
      first ++ margin (depth + 1) ++ String.intercalate ("," ++ margin (depth + 1)) parts ++
        margin depth ++ last

mutual

def write (layout : Layout) (depth : Nat) : Json -> String
  | null => "null"
  | bool b => if b then "true" else "false"
  | int n => toString n
  | float s => s
  | text s => quote s
  | array items => enclose layout depth "[" "]" (writeItems layout (depth + 1) items)
  | object fields => enclose layout depth "\x7b" "\x7d" (writeFields layout (depth + 1) fields)

def writeItems (layout : Layout) (depth : Nat) : List Json -> List String
  | [] => []
  | item :: rest => write layout depth item :: writeItems layout depth rest

def writeFields (layout : Layout) (depth : Nat) : List (String × Json) -> List String
  | [] => []
  | (name, value) :: rest =>
    (quote name ++ ": " ++ write layout depth value) :: writeFields layout depth rest

end

def render (layout : Layout) (value : Json) : String :=
  write layout 0 value

end Json
end WalletVault
