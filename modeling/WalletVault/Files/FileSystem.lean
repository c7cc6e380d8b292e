import WalletVault.Files.Path
import WalletVault.Password

/-!
# File systems

Directories and regular files by their location, which is the list of names
from the root. A path is followed name by name from the root or from the
working directory; what is refused on the way is told as the operating system
tells it.
-/

namespace WalletVault

abbrev Location := List String

/-- What stands at a location. Files carry whether only their owner may read them. -/
inductive Entry where
  | directory
  | file (ownerOnly : Bool) (content : Bytes)
  deriving DecidableEq, Repr

/-- Entries by location, and the working directory. The root is always a directory. -/
structure FileSystem where
  entries : List (Location × Entry)
  working : Location
  /-- Whether a change of permissions is refused. -/
  fixedModes : Bool
  /-- The files that kept their permissions because of that, in order. -/
  unrestricted : List Path
  deriving DecidableEq, Repr

namespace FileSystem

abbrev ofEntries (entries : List (Location × Entry)) : FileSystem :=
  ⟨entries, [], false, []⟩

/-!
# Entries
-/

def entry? (fs : FileSystem) (location : Location) : Option Entry :=
  if location = [] then some .directory else fs.entries.lookup location

def put (fs : FileSystem) (location : Location) (entry : Entry) : FileSystem :=
  { fs with entries := (location, entry) :: fs.entries.filter (fun e => e.1 ≠ location) }

def erase (fs : FileSystem) (location : Location) : FileSystem :=
  { fs with entries := fs.entries.filter (fun e => e.1 ≠ location) }

/-!
# Following paths
-/

def walk (fs : FileSystem) (location : Location) : List String -> Except SystemRefusal Location
  | [] => .ok location
  | name :: rest =>
    if name = ".." then walk fs location.dropLast rest
    else if (utf8 name).length > 255 then .error .nameTooLong
    else
      match fs.entry? (location ++ [name]) with
      | none => .error .notFound
      | some .directory => walk fs (location ++ [name]) rest
      | some (.file _ _) => .error .notDirectory

/-- The location of a path of which only the last name need not exist. A path of a page or more is
not followed at all. -/
def locate (fs : FileSystem) (path : Path) : Except SystemRefusal Location :=
  let start := if path.root.isEmpty then fs.working else []
  if (utf8 path.toString).length >= 4096 then .error .nameTooLong
  else
    match path.names.getLast? with
    | none => .ok start
    | some name =>
      match fs.walk start path.names.dropLast with
      | .error refusal => .error refusal
      | .ok location =>
        if name = ".." then .ok location.dropLast
        else if (utf8 name).length > 255 then .error .nameTooLong
        else .ok (location ++ [name])

def hasNull (path : Path) : Bool :=
  path.names.any (fun name => name.toList.contains '\x00')

def refused (refusal : SystemRefusal) (path : Path) : SystemFault :=
  .refused refusal path.toString

/-- What stands at a path; nothing if the way to it does not exist. -/
def look (fs : FileSystem) (path : Path) : Except SystemFault (Option Entry) :=
  if hasNull path then .ok none
  else
    match fs.locate path with
    | .ok location => .ok (fs.entry? location)
    | .error .nameTooLong => .error (refused .nameTooLong path)
    | .error _ => .ok none

def isDirectory (fs : FileSystem) (path : Path) : Bool :=
  match fs.look path with
  | .ok (some .directory) => true
  | _ => false

/-!
# Changes and reads
-/

inductive Stop where
  | fault (cause : SystemFault)
  | null

def readFile (fs : FileSystem) (path : Path) : Except Stop Bytes :=
  if hasNull path then .error .null
  else
    match fs.locate path with
    | .error refusal => .error (.fault (refused refusal path))
    | .ok location =>
      match fs.entry? location with
      | none => .error (.fault (refused .notFound path))
      | some .directory => .error (.fault (refused .isDirectory path))
      | some (.file _ content) => .ok content

/-- Writes a file; one that is there keeps its permissions. -/
def writeFile (fs : FileSystem) (path : Path) (content : Bytes) : Except Stop FileSystem :=
  if hasNull path then .error .null
  else
    match fs.locate path with
    | .error refusal => .error (.fault (refused refusal path))
    | .ok location =>
      match fs.entry? location with
      | some .directory => .error (.fault (refused .isDirectory path))
      | some (.file ownerOnly _) => .ok (fs.put location (.file ownerOnly content))
      | none => .ok (fs.put location (.file false content))

def makeDirectory (fs : FileSystem) (path : Path) : Except SystemFault FileSystem :=
  match fs.locate path with
  | .error refusal => .error (refused refusal path)
  | .ok location =>
    match fs.entry? location with
    | some _ => .error (refused .taken path)
    | none => .ok (fs.put location .directory)

def ensureDirectory (fs : FileSystem) (path : Path) : Except SystemFault FileSystem :=
  match fs.makeDirectory path with
  | .ok fs => .ok fs
  | .error fault => if fs.isDirectory path then .ok fs else .error fault

/-- Makes a directory and those on the way to it, as far as they are not there. What was made
stays when a later step is refused. -/
def makeDirectories (fs : FileSystem) (path : Path) : Except SystemFault Unit × FileSystem :=
  match fs.makeDirectory path with
  | .ok fs => (.ok (), fs)
  | .error fault =>
    if fault = refused .notFound path ∧ path.names ≠ [] then
      match makeDirectories fs path.parent with
      | (.error fault, fs) => (.error fault, fs)
      | (.ok (), fs) =>
        match fs.ensureDirectory path with
        | .ok fs => (.ok (), fs)
        | .error fault => (.error fault, fs)
    else if fs.isDirectory path then (.ok (), fs)
    else (.error fault, fs)
termination_by path.names.length
decreasing_by
  rename_i h
  have := List.length_pos_iff.2 h.2
  simp only [Path.parent, List.length_dropLast]
  omega

/-- Gives a file to its owner only. It stays as it is if that is refused. -/
def restrict (fs : FileSystem) (path : Path) : FileSystem :=
  if fs.fixedModes then { fs with unrestricted := fs.unrestricted ++ [path] }
  else
    match fs.locate path with
    | .error _ => fs
    | .ok location =>
      match fs.entry? location with
      | some (.file _ content) => fs.put location (.file true content)
      | _ => fs

def linesSince (before after : FileSystem) : List String :=
  (after.unrestricted.drop before.unrestricted.length).map
    (fun path => unrestrictedLine path.toString)

def removeFile (fs : FileSystem) (path : Path) : Except SystemFault FileSystem :=
  match fs.locate path with
  | .error refusal => .error (refused refusal path)
  | .ok location =>
    match fs.entry? location with
    | none => .error (refused .notFound path)
    | some .directory => .error (refused .isDirectory path)
    | some (.file _ _) => .ok (fs.erase location)

def rename (fs : FileSystem) (source target : Path) : Except SystemFault FileSystem :=
  match fs.locate source, fs.locate target with
  | .error refusal, _ => .error (refused refusal source)
  | _, .error refusal => .error (refused refusal target)
  | .ok start, .ok goal =>
    match fs.entry? start, fs.entry? goal with
    | none, _ => .error (refused .notFound source)
    | some _, some .directory => .error (refused .isDirectory target)
    | some entry, _ => .ok ((fs.erase start).put goal entry)

/-- Moves a file to a path, or into it if it is a directory. In a directory the name has to be
free. -/
def moveFile (fs : FileSystem) (source target : Path) : Except SystemFault FileSystem :=
  if fs.isDirectory target then
    let inside := target.child source.name
    match fs.look inside with
    | .error fault => .error fault
    | .ok (some _) => .error (.destinationTaken inside.toString)
    | .ok none => fs.rename source inside
  else fs.rename source target

end FileSystem
end WalletVault
