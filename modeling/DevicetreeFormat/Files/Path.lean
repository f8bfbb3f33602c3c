/-!
# Paths

A path as a person writes it: a root and a list of parts. Empty parts and
single dots vanish when a path is read, while double dots stay, because what
they mean depends on the files that are there.
-/

namespace DevicetreeFormat

set_option autoImplicit false

/-- A written path. The root is empty for a path that starts where the program
runs. -/
structure Path where
  root : String
  parts : List String
deriving DecidableEq

namespace Path

/-- The root that so many slashes at the front stand for. Two are kept as they
are; more than two count as one. -/
def rootOfSlashes : Nat → String
  | 0 => ""
  | 2 => "//"
  | _ => "/"

def ofText (text : String) : Path :=
  let characters := text.toList
  let slashes := (characters.takeWhile (· == '/')).length
  let parts := ((characters.splitOn '/').map String.ofList).filter fun part =>
    part ≠ "" && part ≠ "."
  ⟨rootOfSlashes slashes, parts⟩

def text (path : Path) : String :=
  if path.root = "" && path.parts.isEmpty then "."
  else path.root ++ "/".intercalate path.parts

/-- Whether files can have such a path: no name holds a null character. -/
def isNameable (path : Path) : Bool :=
  path.parts.all fun part => !part.toList.contains '\x00'

def isAbsolute (path : Path) : Bool :=
  path.root ≠ ""

def below (path : Path) (parts : List String) : Path :=
  { path with parts := path.parts ++ parts }

/-- The last dot of a file name and what follows it, unless the dot is the
first or the last character of the name. -/
def suffixOfName (name : String) : Option String :=
  let reversed := name.toList.reverse
  let extension := reversed.takeWhile (· != '.')
  match reversed.dropWhile (· != '.') with
  | _ :: _ :: _ => if extension.isEmpty then none else some (String.ofList ('.' :: extension.reverse))
  | _ => none

end Path

end DevicetreeFormat
