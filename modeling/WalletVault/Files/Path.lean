import WalletVault.Fault

/-!
# Paths

A path is an optional root and the names between its slashes. Empty names and
single dots vanish when a path is read; double dots stay, because they depend
on the files.
-/

namespace WalletVault

/-- A path. The root is empty, one slash or exactly two. -/
structure Path where
  root : String
  names : List String
  deriving DecidableEq, Repr

namespace Path

def ofString (text : String) : Path :=
  let chars := text.toList
  let slashes := (chars.takeWhile (· == '/')).length
  let names := (chars.splitOnP (· == '/')).filter (fun name => name ≠ [] ∧ name ≠ ['.'])
  { root := if slashes = 0 then "" else if slashes = 2 then "//" else "/"
    names := names.map String.ofList }

/-- The text of a path; the empty path is a single dot. -/
def toString (path : Path) : String :=
  if path.root.isEmpty && path.names.isEmpty then "."
  else path.root ++ String.intercalate "/" path.names

def name (path : Path) : String :=
  path.names.getLastD ""

def parent (path : Path) : Path :=
  { path with names := path.names.dropLast }

def extend (path : Path) (ending : String) : Except Fault Path :=
  if path.names = [] then .error (.misuse (.emptyName path.toString))
  else .ok { path with names := path.names.dropLast ++ [path.name ++ ending] }

def child (path : Path) (name : String) : Path :=
  { path with names := path.names ++ [name] }

def shardPaths (output : String) (count : Nat) : Except Fault (List Path) :=
  (List.range count).mapM (fun i => (ofString output).extend s!".{i + 1}")

def validateOutput : Option String -> Except Fault Unit
  | none => .error (.request .outputMissing)
  | some text =>
    if text.toList.all Text.isBlank then .error (.request .outputEmpty) else .ok ()

def validateInputs (paths : Option (List (Option String))) : Except Fault Unit :=
  match paths.getD [] with
  | [] => .error (.request .noFiles)
  | paths => paths.forM validateOutput

end Path
end WalletVault
