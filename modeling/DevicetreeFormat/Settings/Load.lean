import DevicetreeFormat.Files.FileSystem
import DevicetreeFormat.Validation.SettingsCheck
import DevicetreeFormat.Yaml.Document

/-!
# Loading settings

Settings come from a file that is named, or from the nearest settings file at
or above a path. Values given by the caller take precedence over the file. The
reader of settings files is a parameter: a function that gives the value that
bytes describe, or what is wrong with them.
-/

namespace DevicetreeFormat.Settings

set_option autoImplicit false

abbrev Loader := ByteArray → Except Yaml.Fault Value

def fileName : String := ".dtsfmtrc.yaml"

/-- Why settings cannot be loaded: for a reason that is reported, or because a
text cannot be decoded, a file cannot be named, a scalar has no value or is
beyond measure, or no file is named. -/
inductive LoadFault
  | refused (message : String)
  | undecodable
  | unnameable
  | valueless
  | immeasurable
  | unnamed
deriving DecidableEq

def malformedText : String := "<yaml error>"

/-- The entries of a settings file. A file that says nothing has none. -/
def readEntries (loader : Loader) (files : FileSystem) (path : Path) :
    Except LoadFault Entries :=
  match files.read path with
  | .error .unnameable => .error .unnameable
  | .error fault => .error (.refused ("cannot read " ++ path.text ++ ": " ++ fault.message path))
  | .ok content =>
      match loader content with
      | .error .malformed => .error (.refused ("cannot read " ++ path.text ++ ": " ++ malformedText))
      | .error .valueless => .error .valueless
      | .error .immeasurable => .error .immeasurable
      | .error .undecodable => .error .undecodable
      | .ok (.mapping entries) => .ok entries
      | .ok value =>
          if value.isEmpty then .ok []
          else .error (.refused (path.text ++ ": expected a mapping at the top level"))

def ofEntries (source : String) (entries : Entries) : Except LoadFault Settings :=
  match ofValue source (.mapping entries) with
  | .ok settings => .ok settings
  | .error message => .error (.refused message)

def load (loader : Loader) (files : FileSystem) (path : Path) (overrides : Entries) :
    Except LoadFault Settings :=
  match readEntries loader files path with
  | .error fault => .error fault
  | .ok entries => ofEntries path.text (Value.override entries overrides)

def ancestors (location : Location) : List Location :=
  (List.range (location.length + 1)).map fun level => location.take (location.length - level)

def searchStart (files : FileSystem) (start : Path) : Location :=
  let location := files.resolve start
  if files.isDirectoryAt location then location else location.dropLast

def findFile (files : FileSystem) (start : Path) : Option Path :=
  ((ancestors (searchStart files start)).map fun directory => directory ++ [fileName]).find?
      files.isFileAt
    |>.map fun location => ⟨"/", location⟩

def loadFound (loader : Loader) (files : FileSystem) (found : Option Path)
    (overrides : Entries) : Except LoadFault Settings :=
  match found with
  | none => ofEntries "<config>" overrides
  | some path => load loader files path overrides

def discover (loader : Loader) (files : FileSystem) (start : Path) (overrides : Entries) :
    Except LoadFault Settings :=
  if start.isNameable then loadFound loader files (findFile files start) overrides
  else .error .unnameable

end DevicetreeFormat.Settings
