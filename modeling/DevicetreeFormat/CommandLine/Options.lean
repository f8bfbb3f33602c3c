import DevicetreeFormat.CommandLine.Argument
import DevicetreeFormat.Delivery

/-!
# Options

What the arguments ask for. Options are acted on from left to right, so a
request for help comes before the faults after it. The paths are one group of
neighbouring words; words of a later group are not recognized.
-/

namespace DevicetreeFormat.CommandLine

set_option autoImplicit false

/-- The settings file that a run is asked to use: the nearest one, one that is
named, or one whose name was left blank. -/
inductive SettingsFile
  | nearest
  | named (path : Path)
  | blank
deriving DecidableEq

/-- What a run is asked to do. There is no delivery if its mode was left
blank. -/
structure Options where
  check : Bool := false
  delivery : Option Delivery := some .inPlace
  config : SettingsFile := .nearest
  layout : Option String := none
  listLayouts : Bool := false
  paths : List Path := []

inductive Halt
  | help
  | usage (message : String)
deriving DecidableEq

/-- Whether the group of paths is still to come, being read, or over. -/
inductive Group
  | waiting
  | reading
  | over
deriving DecidableEq

structure Progress where
  options : Options := {}
  group : Group := .waiting
  unrecognized : List String := []

def optionFault (flag : Flag) (message : String) : Halt :=
  .usage ("argument " ++ flag.displayName ++ ": " ++ message)

def ignoredValue (flag : Flag) (value : String) : Halt :=
  optionFault flag ("ignored explicit argument " ++ Text.quoted value)

def invalidChoice (value : String) : Halt :=
  let choices := ", ".intercalate (Delivery.modes.map Text.quoted)
  optionFault .emit ("invalid choice: " ++ Text.quoted value ++ " (choose from " ++ choices ++ ")")

def setFlag (flag : Flag) (options : Options) : Except Halt Options :=
  match flag with
  | .help => .error .help
  | .check => .ok { options with check := true }
  | .listLayouts => .ok { options with listLayouts := true }
  | .emit | .config | .layout => .error (optionFault flag "expected one argument")

def setValue (flag : Flag) (value : String) (options : Options) : Except Halt Options :=
  match flag with
  | .emit =>
      match Delivery.ofName value with
      | some delivery => .ok { options with delivery := some delivery }
      | none => .error (invalidChoice value)
  | .config => .ok { options with config := .named (Path.ofText value) }
  | .layout => .ok { options with layout := some value }
  | .help | .check | .listLayouts => .error (ignoredValue flag value)

def setBlank (flag : Flag) (options : Options) : Options :=
  match flag with
  | .emit => { options with delivery := none }
  | .config => { options with config := .blank }
  | .layout => { options with layout := none }
  | .help | .check | .listLayouts => options

/-- The options that letters after a one-letter option stand for. -/
def letterFlags (flag : Flag) : List Char → Except Halt (List Flag)
  | [] => .ok [flag]
  | letter :: rest =>
      match spellings.lookup (String.ofList ['-', letter]) with
      | none => .error (ignoredValue flag (String.ofList (letter :: rest)))
      | some next => do
          let others ← letterFlags next rest
          return flag :: others

/-- The options after one with something attached: its value, or further
letters. The divider is no value and leaves it blank. -/
def setAttached (flag : Flag) (spelling attached : String) (options : Options) :
    Except Halt Options :=
  if flag.takesValue then
    if attached = "--" then .ok (setBlank flag options) else setValue flag attached options
  else if Text.beginsWith "--" spelling || attached.isEmpty then .error (ignoredValue flag attached)
  else do
    let flags ← letterFlags flag attached.toList
    flags.foldlM (fun options flag => setFlag flag options) options

namespace Progress

def word (progress : Progress) (text : String) : Progress :=
  match progress.group with
  | .over => { progress with unrecognized := progress.unrecognized ++ [text] }
  | _ =>
      let paths := progress.options.paths ++ [Path.ofText text]
      { progress with group := .reading, options := { progress.options with paths } }

/-- Reads the divider, which belongs to the group of paths. -/
def divider (progress : Progress) : Progress :=
  match progress.group with
  | .over => { progress with unrecognized := progress.unrecognized ++ ["--"] }
  | _ => { progress with group := .reading }

def endGroup (progress : Progress) : Progress :=
  match progress.group with
  | .reading => { progress with group := .over }
  | _ => progress

def withOptions (progress : Progress) (options : Options) : Progress :=
  { progress.endGroup with options }

def stranger (progress : Progress) (text : String) : Progress :=
  let ended := progress.endGroup
  { ended with unrecognized := ended.unrecognized ++ [text] }

def read : Progress → List Argument → Except Halt Progress
  | progress, [] => .ok progress
  | progress, .word text :: rest => read (progress.word text) rest
  | progress, .divider :: rest => read progress.divider rest
  | progress, .stranger text :: rest => read (progress.stranger text) rest
  | progress, .option flag spelling (some attached) :: rest =>
      match setAttached flag spelling attached progress.options with
      | .error halt => .error halt
      | .ok options => read (progress.withOptions options) rest
  | progress, .option flag _ none :: .word value :: rest =>
      if flag.takesValue then
        match setValue flag value progress.options with
        | .error halt => .error halt
        | .ok options => read (progress.withOptions options) rest
      else
        match setFlag flag progress.options with
        | .error halt => .error halt
        | .ok options => read ((progress.withOptions options).word value) rest
  | progress, .option flag _ none :: rest =>
      match setFlag flag progress.options with
      | .error halt => .error halt
      | .ok options => read (progress.withOptions options) rest

end Progress

def parseArguments (arguments : List String) : Except Halt Options :=
  match classifyAll arguments with
  | .error message => .error (.usage message)
  | .ok classified =>
      match Progress.read {} classified with
      | .error halt => .error halt
      | .ok progress =>
          if progress.unrecognized.isEmpty then .ok progress.options
          else .error (.usage ("unrecognized arguments: " ++ " ".intercalate progress.unrecognized))

def usageText : String :=
  "usage: dtsfmt [-h] [-c] [--emit \x7bfiles,stdout\x7d] [--config CONFIG]\n" ++
  "              [--layout LAYOUT] [--list-layouts]\n" ++
  "              [PATH ...]\n"

def helpText : String :=
  usageText ++
  "\nFormat devicetree sources and ZMK keymaps\n" ++
  "\npositional arguments:\n" ++
  "  PATH                  Files or directories to format (default: read stdin,\n" ++
  "                        write stdout)\n" ++
  "\noptions:\n" ++
  "  -h, --help            show this help message and exit\n" ++
  "  -c, --check           Report files that are not formatted instead of writing\n" ++
  "                        them\n" ++
  "  --emit \x7bfiles,stdout\x7d\n" ++
  "                        Where to write formatted output (default: files)\n" ++
  "  --config CONFIG       Configuration file (default: nearest .dtsfmtrc.yaml)\n" ++
  "  --layout LAYOUT       Keyboard layout for keymap bindings (overrides the\n" ++
  "                        configuration)\n" ++
  "  --list-layouts        List available keyboard layouts and exit\n"

def usageFault (message : String) : String :=
  usageText ++ "dtsfmt: error: " ++ message ++ "\n"

end DevicetreeFormat.CommandLine
