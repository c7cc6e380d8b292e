import WalletVault.Cli.Footprint
import WalletVault.Cli.Program

/-!
# The command line

Lays the files that a run can look at before the program, runs it, and carries
out what it changed.
-/

namespace WalletVault
namespace CommandLine

def locationText (location : Location) : String :=
  "/" ++ String.intercalate "/" location

/-- What stands at a location. A file that cannot be read is there all the same. -/
def probe (location : Location) : IO (Option Entry) := do
  try
    let data ← IO.FS.readBinFile (locationText location)
    pure (some (.file false data.data.toList))
  catch
    | .inappropriateType none _ _ => pure (some .directory)
    | .permissionDenied _ _ _ => pure (some (.file false []))
    | _ => pure none

def snapshot (working : Location) (locations : List Location) : IO FileSystem := do
  let mut entries : List (Location × Entry) := []
  for location in locations do
    if location ≠ [] && (entries.lookup location).isNone then
      match ← probe location with
      | some entry => entries := (location, entry) :: entries
      | none => pure ()
  pure ⟨entries, working, false, []⟩

def placeFile (location : Location) (ownerOnly : Bool) (content : Bytes) : IO Unit := do
  let path := locationText location
  let temp := path ++ ".temp"
  IO.FS.writeBinFile temp ⟨content.toArray⟩
  if ownerOnly then
    IO.setAccessRights temp { user := { read := true, write := true } }
  IO.FS.rename temp path

/-- Carries out the changes between two states, directories first. -/
def commit (before after : FileSystem) : IO Unit := do
  let changed := after.entries.filter (fun (location, entry) => before.entry? location ≠ some entry)
  for (location, entry) in changed do
    if entry = .directory then IO.FS.createDirAll (locationText location)
  for (location, _) in before.entries do
    if (after.entry? location).isNone then IO.FS.removeFile (locationText location)
  for (location, entry) in changed do
    match entry with
    | .directory => pure ()
    | .file ownerOnly content => placeFile location ownerOnly content

def environment (names : List String) : IO Cli.Environment :=
  names.filterMapM (fun name => do
    pure ((← IO.getEnv name).map (fun value => (name, value))))

def usage : String :=
  "usage: wallet-vault [-h] [-f FILE] [-p PASSWORD | -ep VARIABLE] [--pretty]\n" ++
  "                    (create | upgrade) (basic | sharded) [options]\n" ++
  "                    | info | export | sign | verify [options]\n"

def finish : Cli.Ending -> IO UInt32
  | .help => do
    IO.print usage
    pure 0
  | .usage => do
    IO.eprint usage
    pure 2
  | .finished status output logged errors => do
    IO.print output
    IO.eprint (Cli.Ending.finished status output logged errors).errorStream
    pure (UInt32.ofNat status)

def runOnDisk (arguments : List String) : IO UInt32 := do
  let keystore : Keystore := ⟨Settings.standard, Presets.standard⟩
  match Cli.Invocation.read keystore.settings arguments with
  | .error stop => finish (Cli.Report.ofStop stop)
  | .ok invocation =>
    let working := (Path.ofString (toString (← IO.currentDir))).names
    let paths := Path.mk "/" working :: invocation.paths keystore.settings
    let before ← snapshot working (paths.flatMap (fun path => path.locations working))
    let environment ← environment (invocation.variableNames keystore.settings)
    let noise ← IO.getRandomBytes 16384
    let machine : Machine := ⟨before, RandomSource.ofBytes noise.data.toList⟩
    let _ : Suite := Suite.standard
    let (ending, after) := Cli.run keystore environment arguments machine
    commit before after.files
    finish ending

end CommandLine
end WalletVault

def main (arguments : List String) : IO UInt32 :=
  WalletVault.CommandLine.runOnDisk arguments
