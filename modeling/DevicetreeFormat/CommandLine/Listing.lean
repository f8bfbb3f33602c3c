import DevicetreeFormat.CommandLine.Session

/-!
# Tree listings

The grammar is not part of this library, so the program reads the raw trees
from listings that stand beside the sources. A listing has one line per node,
parents before children: the depth, the marks, the byte range and the grammar's
name, separated by spaces. The marks are the letters `n` for named, `e` for an
error, `m` for missing and `h` for a node with an error in it, or a single dash.
-/

namespace DevicetreeFormat.CommandLine

set_option autoImplicit false

structure ListedNode where
  depth : Nat
  marks : Marks
  start : Nat
  stop : Nat
  name : String

def readNatural (characters : List Char) : Option Nat :=
  if !characters.isEmpty && characters.all Char.isDigit then
    some (Validation.digitsNumber characters)
  else none

/-- Reads a line of a listing. The name may hold spaces. -/
def ListedNode.ofLine (line : String) : Option ListedNode :=
  match line.toList.splitOn ' ' with
  | depth :: letters :: start :: stop :: name => do
      let depth ← readNatural depth
      let start ← readNatural start
      let stop ← readNatural stop
      let marks : Marks :=
        { named := letters.contains 'n', error := letters.contains 'e',
          missing := letters.contains 'm', faulty := letters.contains 'h' }
      return ⟨depth, marks, start, stop, String.ofList ([' '].intercalate name)⟩
  | _ => none

/-- The trees of nodes at `depth` and below, and the lines that belong to none
of them. The number of lines is enough steps. -/
def treesAt : Nat → Nat → List ListedNode → List RawTree × List ListedNode
  | 0, _, lines => ([], lines)
  | _, _, [] => ([], [])
  | steps + 1, depth, node :: rest =>
      if node.depth = depth then
        let (children, after) := treesAt steps (depth + 1) rest
        let (siblings, others) := treesAt steps depth after
        (.branch node.name node.marks node.start node.stop children :: siblings, others)
      else ([], node :: rest)

def treeOfListing (listing : String) : Option RawTree := do
  let lines := (Text.splitLineFeeds listing).filter fun line => !line.isEmpty
  let nodes ← lines.mapM ListedNode.ofLine
  match treesAt (nodes.length + 1) 0 nodes with
  | ([tree], []) => some tree
  | _ => none

def listingSuffix : String := ".tree"

def inputListing : String := ".stdin.tree"

def listedSource (files : FileSystem) (entry : Location × Entry) : Option (String × RawTree) :=
  match entry.2, entry.1.getLast? with
  | .file content, some name => do
      let text ← String.fromUTF8? content
      let place := entry.1.dropLast ++ [name ++ listingSuffix]
      let listing ← (files.readText ⟨"/", place⟩).toOption
      let tree ← treeOfListing listing
      return (Text.normalizeNewlines text, tree)
  | _, _ => none

def listedInput (files : FileSystem) (input : ByteArray) : Option (String × RawTree) := do
  let text ← String.fromUTF8? input
  let listing ← (files.readText ⟨"/", files.workingDirectory ++ [inputListing]⟩).toOption
  let tree ← treeOfListing listing
  return (Text.normalizeNewlines text, tree)

def unlisted : RawTree :=
  .branch "document" { named := true, error := true, missing := false, faulty := true } 0 0 []

def listedGrammar (files : FileSystem) (input : ByteArray) : Grammar :=
  let known := (listedInput files input).toList ++ files.entries.filterMap (listedSource files)
  fun source => (known.lookup source).getD unlisted

def pathsRead (arguments : List String) : List Path :=
  match parseArguments arguments with
  | .ok options =>
      match options.config with
      | .named config => config :: options.paths
      | _ => options.paths
  | .error _ => []

def readsInput (arguments : List String) : Bool :=
  match parseArguments arguments with
  | .ok options => !options.listLayouts && options.paths.isEmpty
  | .error _ => false

def Breakdown.message : Breakdown → String
  | undecodable => "a text is not valid UTF-8"
  | unnameable => "a path holds a null character"
  | valueless => "a number, date or character code of the settings has no value"
  | immeasurable => "a number or character code of the settings is too large"
  | blankConfig => "the settings file is left blank"
  | blankMode => "the mode of delivery is left blank"
  | unprintable => "the identifier of a layout holds half of a surrogate pair"
  | printing .childlessDirective => "a directive has no keyword"
  | printing .childlessInclude => "an include has no path"
  | printing (.table _) => "a binding table has no cells"

end DevicetreeFormat.CommandLine
