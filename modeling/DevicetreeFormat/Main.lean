import DevicetreeFormat.CommandLine.Listing

/-!
# The program

Reads what a run may need into a file system value, runs it, and writes what
has changed. Nothing is decided here.
-/

namespace DevicetreeFormat.CommandLine

set_option autoImplicit false

def locationText (location : Location) : String :=
  "/" ++ "/".intercalate location

def addEntry (files : FileSystem) (location : Location) (entry : Entry) : FileSystem :=
  if (files.entryAt location).isSome then files
  else { files with entries := files.entries ++ [(location, entry)] }

def readEntry (files : FileSystem) (location : Location) : IO FileSystem := do
  let place := (← IO.currentDir) / locationText location
  if ← place.isDir then return addEntry files location .directory
  else if ← place.pathExists then
    return addEntry files location (.file (← IO.FS.readBinFile place))
  else return files

/-- Reads everything at and below a location. -/
partial def readBelow (files : FileSystem) (location : Location) : IO FileSystem := do
  let mut files ← readEntry files location
  let place := (← IO.currentDir) / locationText location
  if ← place.isDir then
    for child in ← place.readDir do
      files ← readBelow files (location ++ [child.fileName])
  return files

/-- Reads a location, its listing, and all directories and settings files above
it. -/
def readAround (files : FileSystem) (location : Location) : IO FileSystem := do
  let mut files := files
  for above in (Settings.ancestors location).reverse do
    files ← readEntry files above
    files ← readEntry files (above ++ [Settings.fileName])
  match location.getLast? with
  | some name => readEntry files (location.dropLast ++ [name ++ listingSuffix])
  | none => return files

def readPath (files : FileSystem) (path : Path) : IO FileSystem := do
  let mut files := files
  for count in List.range (path.parts.length + 1) do
    files ← readAround files (files.resolve { path with parts := path.parts.take count })
  readBelow files (files.resolve path)

/-- Reads standard input to its end. -/
partial def readInput (stream : IO.FS.Stream) (content : ByteArray) : IO ByteArray := do
  let chunk ← stream.read 65536
  if chunk.isEmpty then return content else readInput stream (content ++ chunk)

end DevicetreeFormat.CommandLine

open DevicetreeFormat DevicetreeFormat.CommandLine in
def main (arguments : List String) : IO UInt32 := do
  let here := (Path.ofText (← IO.currentDir).toString).parts
  let mut files ← readAround ⟨[], here⟩ here
  files ← readEntry files (here ++ [inputListing])
  for path in pathsRead arguments do
    files ← readPath files path
  let input ←
    if readsInput arguments then readInput (← IO.getStdin) ByteArray.empty
    else pure ByteArray.empty
  let (session, ending) := run (listedGrammar files input) Yaml.load files arguments input
  for (location, content) in files.changedFiles session.files do
    IO.FS.writeBinFile (locationText location) content
  IO.print session.output
  IO.eprint session.errors
  match ending with
  | .exit code => return code.toUInt32
  | .broken cause =>
      IO.eprintln cause.message
      return 1
