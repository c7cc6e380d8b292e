import WalletVault.Cli.Invocation
import WalletVault.Files.FileSystem

/-!
# Footprints

Which files a run can look at, as far as its arguments tell. Whoever lays a real
tree before the program needs to show it no more than these.
-/

namespace WalletVault

def Path.locations (path : Path) (working : Location) : List Location :=
  let start := if path.root.isEmpty then working else []
  let step (here : Location) (name : String) : Location :=
    if name = ".." then here.dropLast else here ++ [name]
  (List.range (path.names.length + 1)).map (fun n => (path.names.take n).foldl step start)

namespace Cli

/-- A path, the temporary file beside it, and that file inside it. -/
def aroundPath (path : Path) : List Path :=
  let temp := path.name ++ ".temp"
  [path, path.parent.child temp, path.child temp]

def targetPaths (form : TargetForm) (target : Target) : List Path :=
  match form, target.output with
  | _, .empty => []
  | .basic, .filled output => aroundPath (Path.ofString output)
  | .sharded, .filled output =>
    match Path.shardPaths output (min (target.shareCount.getD 0).toNat 255) with
    | .ok paths => paths.flatMap aroundPath
    | .error _ => []

namespace Invocation

/-- The paths that a run can look at. -/
def paths (settings : Settings) (invocation : Invocation) : List Path :=
  let named := invocation.common.files.filterMap Slot.value?
  let inputs := if invocation.common.files.isEmpty then [settings.output] else named
  let written :=
    match invocation.command with
    | some (.create (some (form, target))) => targetPaths form target
    | some (.upgrade (some (form, target))) => targetPaths form target
    | _ => []
  inputs.map Path.ofString ++ written

def variableNames (settings : Settings) (invocation : Invocation) : List String :=
  [settings.passwordVariable, invocation.common.passwordVariable] ++
    settings.seedWordsVariable.toList

end Invocation
end Cli
end WalletVault
