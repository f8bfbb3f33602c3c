import DevicetreeFormat.CommandLine.Options
import DevicetreeFormat.Files.Sources
import DevicetreeFormat.Printer.Document
import DevicetreeFormat.Settings.Load

/-!
# Sessions

One run of the program over a file system. The grammar and the reader of
settings files are parameters: a function that gives the raw tree of every source
text, and one that gives the value of every settings file. A run ends with an
exit code, or it breaks off when a text cannot be decoded, a tree or an
identifier cannot be printed, or an argument leaves open what it needs. What it
wrote before breaking off stays.
-/

namespace DevicetreeFormat.CommandLine

set_option autoImplicit false

/-- The parser: the raw tree of a source text. -/
abbrev Grammar := String → RawTree

inductive Breakdown
  | undecodable
  | unnameable
  | valueless
  | immeasurable
  | blankConfig
  | blankMode
  | unprintable
  | printing (fault : Printer.Fault)
deriving DecidableEq

inductive Ending
  | exit (code : Nat)
  | broken (cause : Breakdown)
deriving DecidableEq

structure Session where
  files : FileSystem
  output : String := ""
  errors : String := ""

namespace Session

def print (session : Session) (text : String) : Session :=
  { session with output := session.output ++ text }

def complain (session : Session) (text : String) : Session :=
  { session with errors := session.errors ++ text }

def complainAll (session : Session) (messages : List String) : Session :=
  session.complain (String.join (messages.map fun message => message ++ "\n"))

end Session

/-- The settings that the options give directly. An empty layout is none. -/
def overrides (options : Options) : Entries :=
  match options.layout with
  | some layout => if layout.isEmpty then [] else [(.text "layout", .scalar (.text layout))]
  | none => []

/-- The settings of each path, loading each settings file once; `loaded` are
the settings by file. A path that cannot be named has no settings file to look
for. -/
def loadEach (loader : Settings.Loader) (files : FileSystem) (given : Entries) :
    List (Option Path × Settings) → List Path → Except Settings.LoadFault (List Settings)
  | _, [] => .ok []
  | loaded, path :: rest =>
      if !path.isNameable then .error .unnameable
      else
        let found := Settings.findFile files path
        match loaded.lookup found with
        | some settings => do
            let others ← loadEach loader files given loaded rest
            return settings :: others
        | none => do
            let settings ← Settings.discover loader files path given
            let others ← loadEach loader files given ((found, settings) :: loaded) rest
            return settings :: others

/-- The settings of each path. A settings file that is named holds for all. -/
def settingsFor (loader : Settings.Loader) (files : FileSystem) (options : Options)
    (paths : List Path) : Except Settings.LoadFault (List Settings) :=
  match options.config with
  | .named config => do
      let settings ← Settings.load loader files config (overrides options)
      return paths.map fun _ => settings
  | .nearest => loadEach loader files (overrides options) [] paths
  | .blank => .error .unnamed

def settingsHere (loader : Settings.Loader) (files : FileSystem) (options : Options) :
    Except Settings.LoadFault Settings :=
  match options.config with
  | .named config => Settings.load loader files config (overrides options)
  | .nearest =>
      Settings.discover loader files ⟨"/", files.workingDirectory⟩ (overrides options)
  | .blank => .error .unnamed

def refuseSettings (session : Session) : Settings.LoadFault → Session × Ending
  | .refused message => (session.complain ("Error: " ++ message ++ "\n"), .exit 1)
  | .undecodable => (session, .broken .undecodable)
  | .unnameable => (session, .broken .unnameable)
  | .valueless => (session, .broken .valueless)
  | .immeasurable => (session, .broken .immeasurable)
  | .unnamed => (session, .broken .blankConfig)

def sourceError (name message : String) : String :=
  "Error: " ++ name ++ ": " ++ message ++ "\n"

def layoutLine (settings : Settings) (name : LooseText) : Option String :=
  let marker := if name = settings.layout then " (active)" else ""
  name.text?.map fun text => "  - " ++ text ++ marker ++ "\n"

/-- Prints a line for each layout, up to the first that cannot be printed. -/
def printLayouts (settings : Settings) : Session → List LooseText → Session × Ending
  | session, [] => (session, .exit 0)
  | session, name :: rest =>
      match layoutLine settings name with
      | some line => printLayouts settings (session.print line) rest
      | none => (session, .broken .unprintable)

def runList (loader : Settings.Loader) (session : Session) (options : Options) :
    Session × Ending :=
  match settingsHere loader session.files options with
  | .error fault => refuseSettings session fault
  | .ok settings =>
      printLayouts settings (session.print "Available layouts:\n")
        (Layout.available settings.layouts)

inductive Attempt
  | text (formatted : String)
  | refused (message : String)
  | broken (cause : Breakdown)

def attemptOf : Except FormatFault String → Attempt
  | .ok formatted => .text formatted
  | .error (.source .undecodable) => .broken .undecodable
  | .error (.source fault) => .refused fault.message
  | .error (.printing fault) => .broken (.printing fault)

def runInput (grammar : Grammar) (loader : Settings.Loader) (session : Session)
    (options : Options) (input : ByteArray) : Session × Ending :=
  match settingsHere loader session.files options with
  | .error fault => refuseSettings session fault
  | .ok settings =>
      match String.fromUTF8? input with
      | none => (session, .broken .undecodable)
      | some decoded =>
          let source := Text.normalizeNewlines decoded
          let formatted := formatSource settings source (grammar source)
          let session := session.complainAll formatted.reports
          match attemptOf formatted.outcome with
          | .broken cause => (session, .broken cause)
          | .refused message => (session.complain (sourceError "<stdin>" message), .exit 1)
          | .text text =>
              let delivery : Delivery := if options.check then .check else .print
              let delivered := delivery.deliver session.files ⟨none, source, text⟩
              match delivered.verdict with
              | .ok wanting =>
                  ({ session with files := delivered.files }.print delivered.output,
                    .exit (if wanting then 1 else 0))
              | .error fault => (session.complain (sourceError "<stdin>" fault.message), .exit 1)

/-- Formats one file. The flag says that the run is to report failure. -/
def formatFile (grammar : Grammar) (delivery : Delivery) (session : Session) (path : Path)
    (settings : Settings) : Session × Except Breakdown Bool :=
  match session.files.readText path with
  | .error .undecodable => (session, .error .undecodable)
  | .error (.access .unnameable) => (session, .error .unnameable)
  | .error (.access fault) =>
      (session.complain (sourceError path.text (fault.message path)), .ok true)
  | .ok source =>
      let formatted := formatSource settings source (grammar source)
      let session := session.complainAll formatted.reports
      match attemptOf formatted.outcome with
      | .broken cause => (session, .error cause)
      | .refused message => (session.complain (sourceError path.text message), .ok true)
      | .text text =>
          let delivered := delivery.deliver session.files ⟨some path, source, text⟩
          let session := { session with files := delivered.files }.print delivered.output
          match delivered.verdict with
          | .ok wanting => (session, .ok wanting)
          | .error fault => (session.complain (sourceError path.text fault.message), .ok true)

def formatFiles (grammar : Grammar) (delivery : Delivery) :
    Session → Bool → List (Path × Settings) → Session × Ending
  | session, failed, [] => (session, .exit (if failed then 1 else 0))
  | session, failed, (path, settings) :: rest =>
      match formatFile grammar delivery session path settings with
      | (session, .error cause) => (session, .broken cause)
      | (session, .ok wanting) => formatFiles grammar delivery session (failed || wanting) rest

/-- Formats every file that the paths ask for. All settings are loaded before
any file is touched. -/
def runFiles (grammar : Grammar) (loader : Settings.Loader) (session : Session)
    (options : Options) : Session × Ending :=
  let paths := session.files.collectSources options.paths
  match settingsFor loader session.files options paths with
  | .error fault => refuseSettings session fault
  | .ok settings =>
      match if options.check then some .check else options.delivery with
      | some delivery => formatFiles grammar delivery session false (paths.zip settings)
      | none => (session, .broken .blankMode)

def runOptions (grammar : Grammar) (loader : Settings.Loader) (session : Session)
    (options : Options) (input : ByteArray) : Session × Ending :=
  if options.listLayouts then runList loader session options
  else if options.paths.isEmpty then runInput grammar loader session options input
  else runFiles grammar loader session options

def run (grammar : Grammar) (loader : Settings.Loader) (files : FileSystem)
    (arguments : List String) (input : ByteArray) : Session × Ending :=
  let session : Session := { files }
  match parseArguments arguments with
  | .error .help => (session.print helpText, .exit 0)
  | .error (.usage message) => (session.complain (usageFault message), .exit 2)
  | .ok options => runOptions grammar loader session options input

end DevicetreeFormat.CommandLine
