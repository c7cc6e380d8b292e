import WalletVault.Files.FileSystem
import WalletVault.Wallet.Codec

/-!
# Wallet files on disk

A file is written under a temporary name first and then moved into place, so
that a write which fails leaves no half of a file behind. Shards go to numbered
files, one after the other. Loading several files merges their shares.
-/

namespace WalletVault
namespace Store

abbrev Filing := ExceptT Fault (StateM FileSystem)

/-!
# Writing
-/

def place (ownerOnly : Bool) (path temp : Path) (data : Bytes) (fs : FileSystem) :
    Except FileSystem.Stop Unit × FileSystem :=
  if FileSystem.hasNull path.parent then (.error .null, fs)
  else
    match fs.makeDirectories path.parent with
    | (.error fault, fs) => (.error (.fault fault), fs)
    | (.ok (), fs) =>
      match fs.writeFile temp data with
      | .error stop => (.error stop, fs)
      | .ok fs =>
        let fs := if ownerOnly then fs.restrict temp else fs
        match fs.moveFile temp path with
        | .error fault => (.error (.fault fault), fs)
        | .ok fs => (.ok (), fs)

def cleanUp (temp : Path) (fs : FileSystem) : Except SystemFault FileSystem :=
  match fs.look temp with
  | .error fault => .error fault
  | .ok none => .ok fs
  | .ok (some _) => fs.removeFile temp

/-- Writes a file; without `force` the name has to be free. -/
def writeBytes (ownerOnly force : Bool) (path : Path) (data : Bytes) : Filing Unit := fun fs =>
  match fs.look path with
  | .error fault => (.error (.misuse (.system fault)), fs)
  | .ok found =>
    if found.isSome && !force then (.error (.file (.taken [path.toString])), fs)
    else
      match path.extend ".temp" with
      | .error fault => (.error fault, fs)
      | .ok temp =>
        match place ownerOnly path temp data fs with
        | (.ok (), fs) => (.ok (), fs)
        | (.error .null, fs) => (.error (.misuse .nullInPath), fs)
        | (.error (.fault cause), fs) =>
          match cleanUp temp fs with
          | .error fault => (.error (.misuse (.system fault)), fs)
          | .ok fs => (.error (.file (.unwritten path.toString cause)), fs)

def writeWallet (ownerOnly force : Bool) (output : String) (wallet : Wallet) : Filing Path := do
  let path := Path.ofString output
  let data ← ExceptT.mk (pure wallet.write)
  writeBytes ownerOnly force path data
  pure path

def existing (fs : FileSystem) : List Path -> Except SystemFault (List Path)
  | [] => .ok []
  | path :: rest =>
    match fs.look path with
    | .error fault => .error fault
    | .ok found =>
      (existing fs rest).map (fun paths => if found.isSome then path :: paths else paths)

def writeEach (ownerOnly force : Bool) : List (Path × Wallet) -> Filing Unit
  | [] => pure ()
  | (path, shard) :: rest => do
    let data ← ExceptT.mk (pure shard.write)
    writeBytes ownerOnly force path data
    writeEach ownerOnly force rest

/-- Writes one numbered file for each share. Without `force` all names have to be free before the
first is written. -/
def writeShards (ownerOnly force : Bool) (output : String) (wallet : Wallet) :
    Filing (List Path) := do
  let shards ← ExceptT.mk (pure wallet.shards)
  let paths ← ExceptT.mk (pure (Path.shardPaths output shards.length))
  if !force then
    match existing (← get) paths with
    | .error fault => throw (.misuse (.system fault))
    | .ok [] => pure ()
    | .ok taken => throw (.file (.taken (taken.map Path.toString)))
  writeEach ownerOnly force (paths.zip shards)
  pure paths

/-!
# Reading
-/

def readWallet (fs : FileSystem) (input : String) : Except Fault Wallet :=
  let path := Path.ofString input
  match fs.readFile path with
  | .error .null => .error (.misuse .nullInPath)
  | .error (.fault cause) => .error (.file (.unread path.toString cause))
  | .ok data => Wallet.read data

/-- A fault with a further file. A name that no file can have is not logged. -/
def unabsorbed (input : String) : Fault -> Fault
  | .misuse cause => .misuse cause
  | cause => .unabsorbed input cause

def absorbFiles (fs : FileSystem) (wallet : Wallet) : List String -> Except Fault Wallet
  | [] => .ok wallet
  | input :: rest =>
    match readWallet fs input with
    | .error fault => .error (unabsorbed input fault)
    | .ok shard =>
      match wallet.absorb shard with
      | .error fault => .error (unabsorbed input fault)
      | .ok merged => absorbFiles fs merged rest

def loadWallet (fs : FileSystem) : List String -> Except Fault Wallet
  | [] => .error (.request .noFiles)
  | input :: rest =>
    match readWallet fs input with
    | .error fault => .error fault
    | .ok wallet => absorbFiles fs wallet rest

end Store
end WalletVault
