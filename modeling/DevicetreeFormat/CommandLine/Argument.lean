import DevicetreeFormat.Text.Blank
import DevicetreeFormat.Text.Digit

/-!
# Arguments

Before any option is acted on, every argument is sorted: it is a word, the
divider after which all arguments are words, an option with or without an
attached value, or a stranger that looks like an option. A long option may be
shortened as long as one option alone is meant.
-/

namespace DevicetreeFormat.CommandLine

set_option autoImplicit false

inductive Flag
  | help
  | check
  | emit
  | config
  | layout
  | listLayouts
deriving DecidableEq

def spellings : List (String × Flag) :=
  [("-h", .help), ("--help", .help), ("-c", .check), ("--check", .check), ("--emit", .emit),
   ("--config", .config), ("--layout", .layout), ("--list-layouts", .listLayouts)]

namespace Flag

def takesValue : Flag → Bool
  | emit | config | layout => true
  | help | check | listLayouts => false

def displayName (flag : Flag) : String :=
  "/".intercalate ((spellings.filter fun spelling => spelling.2 = flag).map Prod.fst)

end Flag

inductive Argument
  | word (text : String)
  | divider
  | option (flag : Flag) (spelling : String) (attached : Option String)
  | stranger (text : String)
deriving DecidableEq

def cutValue (text : String) : Option (String × String) :=
  let characters := text.toList
  match characters.dropWhile (· != '=') with
  | _ :: value => some (String.ofList (characters.takeWhile (· != '=')), String.ofList value)
  | [] => none

def longCandidates (text : String) : List Argument :=
  let (lead, attached) :=
    match cutValue text with
    | some (name, value) => (name, some value)
    | none => (text, none)
  (spellings.filter fun spelling => Text.beginsWith lead spelling.1).map fun spelling =>
    .option spelling.2 spelling.1 attached

/-- The options that an argument with one dash can mean: a one-letter option
with something attached, or the beginning of an option. -/
def shortCandidates (text : String) : List Argument :=
  let short := String.ofList (text.toList.take 2)
  let attached := String.ofList (text.toList.drop 2)
  spellings.filterMap fun spelling =>
    if spelling.1 = short then some (.option spelling.2 spelling.1 (some attached))
    else if Text.beginsWith text spelling.1 then some (.option spelling.2 spelling.1 none)
    else none

def candidates (text : String) : List Argument :=
  if Text.beginsWith "--" text then longCandidates text else shortCandidates text

def areDigits (characters : List Char) : Bool :=
  !characters.isEmpty && characters.all Text.isDecimalDigit

/-- An argument without the line feed that may end it. -/
def withoutLineFeed (characters : List Char) : List Char :=
  if characters.getLast? = some '\n' then characters.dropLast else characters

def isNegativeNumber (text : String) : Bool :=
  match withoutLineFeed text.toList with
  | '-' :: number =>
      areDigits number ||
        match number.dropWhile Text.isDecimalDigit with
        | '.' :: places => areDigits places
        | _ => false
  | _ => false

/-- The option that an argument spells out, alone or before an equals sign. -/
def exactOption (text : String) : Option Argument :=
  match spellings.lookup text with
  | some flag => some (.option flag text none)
  | none => do
      let (name, value) ← cutValue text
      let flag ← spellings.lookup name
      return .option flag name (some value)

def ambiguousMessage (text : String) (options : List Argument) : String :=
  let names := options.filterMap fun
    | .option _ spelling _ => some spelling
    | _ => none
  "ambiguous option: " ++ text ++ " could match " ++ ", ".intercalate names

def classify (text : String) : Except String Argument :=
  match text.toList with
  | '-' :: _ :: _ =>
      match exactOption text with
      | some option => .ok option
      | none =>
          match candidates text with
          | [option] => .ok option
          | [] =>
              if isNegativeNumber text || text.toList.contains ' ' then .ok (.word text)
              else .ok (.stranger text)
          | options => .error (ambiguousMessage text options)
  | _ => .ok (.word text)

def classifyAll : List String → Except String (List Argument)
  | [] => .ok []
  | text :: rest =>
      if text = "--" then .ok (.divider :: rest.map .word)
      else do
        let first ← classify text
        let others ← classifyAll rest
        return first :: others

end DevicetreeFormat.CommandLine
