import WalletVault.Fault

/-!
# Passwords

A password is text or bytes; text counts as its UTF-8 bytes. A text from outside
need not be made of characters: halves of a pair can stand alone in it, and such
a text has no bytes. What else a caller may hand over is kept apart, because
absence, emptiness and a wrong kind are told apart.
-/

namespace WalletVault

/-!
# Text
-/

def utf8 (text : String) : Bytes :=
  text.toUTF8.data.toList

def ofUtf8? (data : Bytes) : Option String :=
  String.fromUTF8? ⟨data.toArray⟩

theorem ofUtf8?_utf8 (text : String) : ofUtf8? (utf8 text) = some text := by
  have h : text.toByteArray.IsValidUTF8 := text.isValidUTF8
  simp [ofUtf8?, utf8, String.toUTF8, String.fromUTF8?, String.fromUTF8, h]

/-- A character, or half of a pair by its place among the halves. -/
inductive CodePoint where
  | char (c : Char)
  | half (place : Fin 2048)
  deriving DecidableEq, Repr

def CodePoint.half? : CodePoint -> Option (Fin 2048)
  | char _ => none
  | half place => some place

/-- A text in which some half of a pair stands alone. -/
structure BrokenText where
  points : List CodePoint
  exists_half : exists place, .half place ∈ points
  deriving DecidableEq, Repr

/-- What keeps a broken text from being encoded: the first halves that stand side by side. -/
def BrokenText.flaw (text : BrokenText) : EncodingFlaw :=
  let front := text.points.takeWhile (fun point => point.half?.isNone)
  let halves := (text.points.drop front.length).map CodePoint.half?
  let run := (halves.takeWhile Option.isSome).filterMap id
  ⟨run.headD 0, front.length, run.length⟩

/-!
# What is handed over
-/

inductive Password where
  | text (value : String)
  | broken (value : BrokenText)
  | bytes (value : Bytes)
  | absent
  /-- Something of another kind that has a length. -/
  | sized (length : Nat)
  /-- Something of another kind without a length. -/
  | unsized (typeName : String)
  deriving DecidableEq, Repr

namespace Password

def toBytes : Password -> Except Fault Bytes
  | text value => .ok (utf8 value)
  | broken value => .error (.misuse (.encoding value.flaw))
  | bytes value => .ok value
  | _ => .error (.request .passwordKind)

def validate (label : String) : Password -> Except Fault Unit
  | absent => .error (.request (.passwordMissing label))
  | unsized typeName => .error (.misuse (.unsized typeName))
  | text value => if value.isEmpty then .error (.request (.passwordEmpty label)) else .ok ()
  | broken _ => .ok ()
  | bytes value => if value.isEmpty then .error (.request (.passwordEmpty label)) else .ok ()
  | sized length => if length = 0 then .error (.request (.passwordEmpty label)) else .ok ()

end Password
end WalletVault
