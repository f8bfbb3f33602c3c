import DevicetreeFormat.Printer.Part

/-!
# Items of one line

Comments, file declarations, statements, file includes and directives. Each of
them is one line, made from the tokens of its children.
-/

namespace DevicetreeFormat.Printer

set_option autoImplicit false

/-- A blank line before a comment, unless it follows another comment or nothing. -/
def apart (place : Place) : List Command :=
  match place.before with
  | some kind => if kind = .comment then [] else [.separate]
  | none => []

def printComment (place : Place) (text : String) (context : Context) : List Command :=
  apart place ++ writes [context.indentation, normalComment text, "\n"]

def printHeader (place : Place) (cells : List Cell) (context : Context) : List Command :=
  writes [context.indentation, String.join (cells.map Cell.token), "\n"] ++
    endRun place Kind.isHeader

/-- Adds a token to the words of a statement, newest word first. A colon and an
address belong to the word before them. -/
def joinWord (words : List String) (cell : Cell) : List String :=
  match words with
  | [] => [cell.token]
  | word :: older =>
      if cell.kind = .colon then (word ++ ":") :: older
      else if cell.kind = .atSign || Text.endsWith "@" word then (word ++ cell.token) :: older
      else cell.token :: word :: older

def statementWords (cells : List Cell) : List String :=
  ((cells.takeWhile fun cell => cell.kind ≠ .semicolon).foldl joinWord []).reverse

def printStatement (cells : List Cell) (context : Context) : List Command :=
  writes [context.indentation, " ".intercalate (statementWords cells), ";\n"]

/-- The path of a file include: its last named child, or else its last child. -/
def includedPath (parts : List Part) : Option Part :=
  ((parts.filter fun part => part.named).getLast?).or parts.getLast?

def printInclude (place : Place) (parts : List Part) (context : Context) : List Command :=
  match includedPath parts with
  | none => [.fail .childlessInclude]
  | some path =>
      writes [context.indentation, "/include/ ", path.token, "\n"] ++
        endRun place fun kind => kind = .fileInclude

/-- The words after a directive's keyword. The parameters of a function
directive stay glued to its name. -/
def directiveOperands (kind : Kind) (cells : List Cell) : List String :=
  match kind, (cells.map Cell.token).filter (fun token => !token.isEmpty) with
  | .functionDirective, name :: parameters :: rest => (name ++ parameters) :: rest
  | _, operands => operands

def printDirective (place : Place) (kind : Kind) (cells : List Cell) (context : Context) :
    List Command :=
  match cells with
  | [] => [.fail .childlessDirective]
  | head :: rest =>
      let words := directiveKeyword head.text :: directiveOperands kind rest
      writes [context.indentation, " ".intercalate words, "\n"] ++
        endRun place fun kind => kind.isDirective || kind.isBranch

end DevicetreeFormat.Printer
