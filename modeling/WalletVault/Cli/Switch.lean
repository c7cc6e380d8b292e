import WalletVault.Cli.Slot
import WalletVault.Text.Template

/-!
# Switches

How a list of arguments is taken apart into switches with their values. An
argument is first given its role, which depends on no other argument but the
fence `--`. Then the roles are read from the left, and what they set is applied
in that order, so that a request for help wins over every error behind it.
-/

namespace WalletVault
namespace Cli

/-!
# Switches and roles
-/

inductive Stop where
  | help
  /-- Help with a text that cannot be filled. -/
  | brokenHelp (flaw : Text.TemplateFlaw)
  | usage
  deriving DecidableEq, Repr

inductive Arity where
  | flag
  | one
  | optional
  deriving DecidableEq, Repr

structure Switch (σ : Type) where
  names : List String
  arity : Arity
  take : Slot String -> σ -> Except Stop σ

inductive Role (σ : Type) where
  /-- A switch, whether its name is a long one, and the text that is joined to the name. -/
  | switch (switch : Switch σ) (isLong : Bool) (joined : Option (List Char))
  | unknown
  | value
  | fence

structure Piece (σ : Type) where
  text : String
  role : Role σ

namespace Switch

variable {σ : Type}

/-- The switch that asks for help, in which the first text that cannot be filled is noticed. -/
def help (texts : List Text.Template) : Switch σ :=
  ⟨["-h", "--help"], .flag, fun _ _ =>
    match texts.findSome? Text.Template.flaw? with
    | none => .error .help
    | some flaw => .error (.brokenHelp flaw)⟩

def flag (names : List String) (set : σ -> σ) : Switch σ :=
  ⟨names, .flag, fun _ state => .ok (set state)⟩

def text (names : List String) (set : Slot String -> σ -> σ) : Switch σ :=
  ⟨names, .one, fun value state => .ok (set value state)⟩

def optionalText (names : List String) (set : Slot String -> σ -> σ) : Switch σ :=
  ⟨names, .optional, fun value state => .ok (set value state)⟩

def number (names : List String) (set : Slot Int -> σ -> σ) : Switch σ :=
  ⟨names, .one, fun value state =>
    match value with
    | .empty => .ok (set .empty state)
    | .filled text =>
      match Text.integer? text with
      | some n => .ok (set (.filled n) state)
      | none => .error .usage⟩

def choice (names : List String) (choices : List String) (set : Slot String -> σ -> σ) :
    Switch σ :=
  ⟨names, .one, fun value state =>
    match value with
    | .empty => .ok (set .empty state)
    | .filled text => if choices.contains text then .ok (set value state) else .error .usage⟩

end Switch

/-!
# Giving roles
-/

section Roles

variable {σ : Type} (switches : List (Switch σ))

def named? (name : List Char) : Option (Switch σ) :=
  switches.find? (fun switch => switch.names.contains (String.ofList name))

/-- A minus sign and decimal digits, possibly with a point before the last of them; one line
end at the end is overlooked. -/
def looksNegative (text : List Char) : Bool :=
  let isDigit := fun c => (Text.digitValue? c).isSome
  let text := if text.getLast? = some '\n' then text.dropLast else text
  match text with
  | '-' :: digits =>
    match digits.dropWhile isDigit with
    | [] => !digits.isEmpty
    | '.' :: rest => !rest.isEmpty && rest.all isDigit
    | _ => false
  | _ => false

def isLong (name : List Char) : Bool :=
  name.take 2 = ['-', '-']

def behindEquals? (text : List Char) : Option (List Char) :=
  match text.dropWhile (· ≠ '=') with
  | _ :: rest => some rest
  | [] => none

/-- The switches that an argument may abbreviate, with what is joined to them. A long name may be
cut short anywhere; a name with one dash may be cut short too, or have its value right behind
it. -/
def candidates (text : List Char) : List (Switch σ × Option (List Char)) :=
  switches.flatMap (fun switch => switch.names.filterMap (fun name =>
    let name := name.toList
    if isLong text then
      if (text.takeWhile (· ≠ '=')).isPrefixOf name then some (switch, behindEquals? text)
      else none
    else if name = text.take 2 then some (switch, some (text.drop 2))
    else if text.isPrefixOf name then some (switch, none)
    else none))

def roleOf (text : List Char) : Except Stop (Role σ) :=
  if text.head? ≠ some '-' then .ok .value
  else
    match named? switches text with
    | some switch => .ok (.switch switch (isLong text) none)
    | none =>
      if text.length = 1 then .ok .value
      else
        match named? switches (text.takeWhile (· ≠ '=')) with
        | some switch => .ok (.switch switch (isLong text) (behindEquals? text))
        | none =>
          match candidates switches text with
          | [(switch, joined)] => .ok (.switch switch (isLong text) joined)
          | [] =>
            if looksNegative text || text.contains ' ' then .ok .value else .ok .unknown
          | _ => .error .usage

/-- The roles of all arguments; behind a fence everything is a value. -/
def pieces : List String -> Except Stop (List (Piece σ))
  | [] => .ok []
  | text :: rest =>
    if text = "--" then .ok (⟨text, .fence⟩ :: rest.map (fun text => ⟨text, .value⟩))
    else
      match roleOf switches text.toList with
      | .error stop => .error stop
      | .ok role => (pieces rest).map (fun rest => ⟨text, role⟩ :: rest)

end Roles

/-!
# Reading roles
-/

inductive Event (σ : Type) where
  | set (switch : Switch σ) (value : Slot String)
  /-- Something that belongs to no switch. -/
  | stray
  /-- A switch without its value, a flag with one, or flags of which one is unknown. -/
  | refused
  /-- A command with the arguments behind it. -/
  | command (name : String) (arguments : List String)

/-- What one argument with switches in it does, and the switch at its end that may take a value
from the argument behind it. -/
structure Unrolled (σ : Type) where
  events : List (Event σ)
  last : Option (Switch σ)

section Reading

variable {σ : Type} (switches : List (Switch σ))

/-- Takes apart the letters behind a switch of one letter: its value, or further switches of one
letter if it is a flag. Nothing if one of them is unknown. -/
def unrollLetters : Switch σ -> List Char -> Option (Unrolled σ)
  | switch, [] => some ⟨[], some switch⟩
  | switch, c :: rest =>
    if switch.arity ≠ .flag then some ⟨[.set switch (.ofJoined (c :: rest))], none⟩
    else
      match named? switches ['-', c] with
      | none => none
      | some next =>
        (unrollLetters next rest).map (fun after =>
          ⟨.set switch .empty :: after.events, after.last⟩)

/-- Takes apart what is joined to a switch. Nothing if a flag with a long name is given a text, or
one with a short name an empty one. -/
def unroll (switch : Switch σ) (isLong : Bool) : Option (List Char) -> Option (Unrolled σ)
  | none => some ⟨[], some switch⟩
  | some text =>
    if switch.arity ≠ .flag then some ⟨[.set switch (.ofJoined text)], none⟩
    else if isLong || text.isEmpty then none
    else unrollLetters switches switch text

def Piece.isValue (piece : Piece σ) : Bool :=
  match piece.role with
  | .value => true
  | _ => false

/-- What the pieces do. If commands are expected, the first value is one and takes all that
follows. -/
def events (commands : Bool) : List (Piece σ) -> List (Event σ)
  | [] => []
  | piece :: rest =>
    match piece.role with
    | .unknown => .stray :: events commands rest
    | .value | .fence =>
      if commands then [.command piece.text (rest.map Piece.text)]
      else .stray :: events commands rest
    | .switch switch isLong joined =>
      match unroll switches switch isLong joined with
      | none => [.refused]
      | some ⟨done, none⟩ => done ++ events commands rest
      | some ⟨done, some last⟩ =>
        match last.arity, rest with
        | .flag, rest => done ++ .set last .empty :: events commands rest
        | .one, [] => [.refused]
        | .one, next :: rest =>
          if next.isValue then done ++ .set last (.filled next.text) :: events commands rest
          else [.refused]
        | .optional, [] => done ++ [.set last .empty]
        | .optional, next :: rest =>
          if next.isValue then done ++ .set last (.filled next.text) :: events commands rest
          else done ++ .set last .empty :: events commands (next :: rest)

end Reading

/-!
# Applying events
-/

structure Parsed (σ : Type) where
  state : σ
  /-- Whether something belongs to no switch. -/
  stray : Bool
  command : Option (String × List String)

variable {σ : Type}

def Parsed.apply (parsed : Parsed σ) : Event σ -> Except Stop (Parsed σ)
  | .set switch value =>
    (switch.take value parsed.state).map (fun state => { parsed with state })
  | .stray => .ok { parsed with stray := true }
  | .refused => .error .usage
  | .command name arguments => .ok { parsed with command := some (name, arguments) }

def parse (switches : List (Switch σ)) (commands : Bool) (start : σ) (arguments : List String) :
    Except Stop (Parsed σ) := do
  let pieces ← pieces switches arguments
  (events switches commands pieces).foldlM Parsed.apply ⟨start, false, none⟩

end Cli
end WalletVault
