import DevicetreeFormat.Files.FileSystem

/-!
# Source files

Which files a list of paths asks for. A directory stands for the devicetree
sources at any depth below it, in the order of their parts; any other path
stands for itself.
-/

namespace DevicetreeFormat.FileSystem

set_option autoImplicit false

def sourceSuffixes : List String :=
  [".dts", ".dtsi", ".overlay", ".keymap"]

def isSourceName (name : String) : Bool :=
  match Path.suffixOfName name with
  | some suffix => sourceSuffixes.contains suffix
  | none => false

def sourceBelow (directory : Location) (entry : Location × Entry) : Option (List String) :=
  match entry.2, entry.1.getLast? with
  | .file _, some name =>
      if directory.isPrefixOf entry.1 && directory.length < entry.1.length && isSourceName name then
        some (entry.1.drop directory.length)
      else none
  | _, _ => none

/-- Whether one list of parts stands before another or is the same: the first
part that differs decides, and a list stands before its continuations. -/
def partsOrdered : List String → List String → Bool
  | [], _ => true
  | _ :: _, [] => false
  | part :: rest, other :: others =>
      if part = other then partsOrdered rest others else decide (part < other)

/-- The source files below a directory, in increasing order of their parts. -/
def sourcesBelow (files : FileSystem) (directory : Location) : List (List String) :=
  (files.entries.filterMap (sourceBelow directory)).mergeSort partsOrdered

def sourcesOf (files : FileSystem) (path : Path) : List Path :=
  match files.locate path with
  | .ok location =>
      if files.isDirectoryAt location then (files.sourcesBelow location).map path.below else [path]
  | .error _ => [path]

def collectSources (files : FileSystem) (paths : List Path) : List Path :=
  paths.flatMap files.sourcesOf

end DevicetreeFormat.FileSystem
