import DevicetreeFormat.Files.Path
import DevicetreeFormat.Text.Lines
import DevicetreeFormat.Text.Quoted

/-!
# File systems

A file system without links, as a value: what lies at each location, and the
directory in which the program runs. Reading and writing follow a path part by
part, so a double dot after a file or after nothing is a fault. Well-formed
file systems list every location once and every file inside directories; the
operations do not depend on it.
-/

namespace DevicetreeFormat

set_option autoImplicit false

/-- A place in the file system: the names that lead to it from the top. -/
abbrev Location := List String

inductive Entry
  | directory
  | file (content : ByteArray)

/-- The entries of a file system and the directory in which paths start. -/
structure FileSystem where
  entries : List (Location × Entry)
  workingDirectory : Location

inductive AccessFault
  | notFound
  | isDirectory
  | notDirectory
  | unnameable
deriving DecidableEq

def AccessFault.message (path : Path) : AccessFault → String
  | notFound => "[Errno 2] No such file or directory: " ++ Text.quoted path.text
  | isDirectory => "[Errno 21] Is a directory: " ++ Text.quoted path.text
  | notDirectory => "[Errno 20] Not a directory: " ++ Text.quoted path.text
  | unnameable => "embedded null byte"

inductive ReadFault
  | access (fault : AccessFault)
  | undecodable
deriving DecidableEq

namespace FileSystem

def entryAt (files : FileSystem) (location : Location) : Option Entry :=
  if location = [] then some .directory else files.entries.lookup location

def isDirectoryAt (files : FileSystem) (location : Location) : Bool :=
  match files.entryAt location with
  | some .directory => true
  | _ => false

def isFileAt (files : FileSystem) (location : Location) : Bool :=
  match files.entryAt location with
  | some (.file _) => true
  | _ => false

def holds (files : FileSystem) (location : Location) (content : ByteArray) : Bool :=
  match files.entryAt location with
  | some (.file other) => other.data == content.data
  | _ => false

def walk (files : FileSystem) : Location → List String → Except AccessFault Location
  | here, [] => .ok here
  | here, part :: rest =>
      if !files.isDirectoryAt here then .error .notDirectory
      else if part = ".." then walk files here.dropLast rest
      else if (files.entryAt (here ++ [part])).isSome then walk files (here ++ [part]) rest
      else .error .notFound

def startOf (files : FileSystem) (path : Path) : Location :=
  if path.isAbsolute then [] else files.workingDirectory

def locate (files : FileSystem) (path : Path) : Except AccessFault Location :=
  files.walk (files.startOf path) path.parts

def isDirectory (files : FileSystem) (path : Path) : Bool :=
  match files.locate path with
  | .ok location => files.isDirectoryAt location
  | .error _ => false

/-- The location that a path means if every part is there or can be made: a
double dot takes the part before it away. -/
def resolve (files : FileSystem) (path : Path) : Location :=
  path.parts.foldl
    (fun location part => if part = ".." then location.dropLast else location ++ [part])
    (files.startOf path)

def read (files : FileSystem) (path : Path) : Except AccessFault ByteArray :=
  if !path.isNameable then .error .unnameable
  else
    match files.locate path with
    | .error fault => .error fault
    | .ok location =>
        match files.entryAt location with
        | some (.file content) => .ok content
        | some .directory => .error .isDirectory
        | none => .error .notFound

/-- The text of a file, with every line ending as a line feed. -/
def readText (files : FileSystem) (path : Path) : Except ReadFault String :=
  match files.read path with
  | .error fault => .error (.access fault)
  | .ok content =>
      match String.fromUTF8? content with
      | some text => .ok (Text.normalizeNewlines text)
      | none => .error .undecodable

def setEntry (location : Location) (entry : Entry) :
    List (Location × Entry) → List (Location × Entry)
  | [] => [(location, entry)]
  | other :: rest =>
      if other.1 = location then (location, entry) :: rest
      else other :: setEntry location entry rest

def put (files : FileSystem) (location : Location) (content : ByteArray) : FileSystem :=
  { files with entries := setEntry location (.file content) files.entries }

def target (files : FileSystem) (path : Path) : Except AccessFault Location :=
  match path.parts.getLast? with
  | none => .error .isDirectory
  | some name =>
      match files.walk (files.startOf path) path.parts.dropLast with
      | .error fault => .error fault
      | .ok parent =>
          if !files.isDirectoryAt parent then .error .notDirectory
          else if name = ".." then .error .isDirectory
          else if files.isDirectoryAt (parent ++ [name]) then .error .isDirectory
          else .ok (parent ++ [name])

def writeText (files : FileSystem) (path : Path) (text : String) :
    Except AccessFault FileSystem :=
  if !path.isNameable then .error .unnameable
  else
    match files.target path with
    | .error fault => .error fault
    | .ok location => .ok (files.put location text.toUTF8)

def changedFiles (before after : FileSystem) : List (Location × ByteArray) :=
  after.entries.filterMap fun
    | (location, .file content) =>
        if before.holds location content then none else some (location, content)
    | (_, .directory) => none

end FileSystem

end DevicetreeFormat
