import DevicetreeFormat.Diff.Hunk
import DevicetreeFormat.Files.FileSystem

/-!
# Delivery

What happens to a formatted text: it is written over its file, printed, or
compared with what was there. Only a comparison can find a file wanting.
-/

namespace DevicetreeFormat

set_option autoImplicit false

/-- A source text next to its formatted version. A text without a path came
from standard input. -/
structure Result where
  path : Option Path
  source : String
  formatted : String

namespace Result

def displayName (result : Result) : String :=
  match result.path with
  | some path => path.text
  | none => "<stdin>"

def isChanged (result : Result) : Bool :=
  result.source ≠ result.formatted

end Result

inductive Delivery
  | inPlace
  | print
  | check
deriving DecidableEq

inductive DeliveryFault
  | standardInput
  | access (path : Path) (fault : AccessFault)
deriving DecidableEq

def DeliveryFault.message : DeliveryFault → String
  | standardInput => "cannot format <stdin> and emit to files"
  | access path fault => fault.message path

/-- A delivery: the files after it, what it printed, and whether the source was
found wanting. -/
structure Delivered where
  files : FileSystem
  output : String
  verdict : Except DeliveryFault Bool

namespace Delivery

def modes : List String := ["files", "stdout"]

def ofName (mode : String) : Option Delivery :=
  if mode = "files" then some .inPlace
  else if mode = "stdout" then some .print
  else none

/-- The delivery for a mode. A check takes precedence over the mode. -/
def ofMode (mode : String) (check : Bool) : Except String Delivery :=
  if check then .ok .check
  else
    match ofName mode with
    | some delivery => .ok delivery
    | none =>
        let choices := ", ".intercalate modes
        .error s!"unknown emit mode '{mode}', expected one of {choices}"

def checkReport (result : Result) : String :=
  let name := result.displayName
  let lines := Diff.report (name ++ " (original)") (name ++ " (formatted)")
    (Text.linesWithEnds result.source) (Text.linesWithEnds result.formatted)
  name ++ "\n" ++ String.join (lines.map Diff.closeLine)

def deliver (delivery : Delivery) (files : FileSystem) (result : Result) : Delivered :=
  match delivery with
  | .print => ⟨files, result.formatted, .ok false⟩
  | .check =>
      if result.isChanged then ⟨files, checkReport result, .ok true⟩ else ⟨files, "", .ok false⟩
  | .inPlace =>
      match result.path with
      | none => ⟨files, "", .error .standardInput⟩
      | some path =>
          if result.isChanged then
            match files.writeText path result.formatted with
            | .ok written => ⟨written, "Formatted " ++ path.text ++ "\n", .ok false⟩
            | .error fault => ⟨files, "", .error (.access path fault)⟩
          else ⟨files, "", .ok false⟩

end Delivery

end DevicetreeFormat
