/-!
# Reading positions

A position in a text of the settings format, with the line and column that
indentation is measured by.
-/

namespace DevicetreeFormat.Yaml

set_option autoImplicit false

structure Cursor where
  rest : List Char
  index : Nat := 0
  line : Nat := 0
  column : Nat := 0

def isBreak (c : Char) : Bool :=
  c == '\n' || c == '\r' || c == '\x85' || c == '\u2028' || c == '\u2029'

def isGap (c : Char) : Bool :=
  c == ' ' || c == '\t' || isBreak c

def endsWord : Option Char → Bool
  | none => true
  | some c => isGap c

namespace Cursor

def ofText (text : String) : Cursor :=
  { rest := text.toList }

def peek (cursor : Cursor) (offset : Nat) : Option Char :=
  cursor.rest[offset]?

def sees (cursor : Cursor) (c : Char) : Bool :=
  cursor.rest.head? == some c

/-- Moves past one character. A byte order mark takes no column. -/
def next (cursor : Cursor) : Cursor :=
  match cursor.rest with
  | [] => cursor
  | c :: rest =>
      let index := cursor.index + 1
      if isBreak c && !(c == '\r' && rest.head? == some '\n') then
        { rest, index, line := cursor.line + 1, column := 0 }
      else
        { rest, index, line := cursor.line,
          column := if c == '\ufeff' then cursor.column else cursor.column + 1 }

def skip : Nat → Cursor → Cursor
  | 0, cursor => cursor
  | count + 1, cursor => skip count cursor.next

def run (cursor : Cursor) (inClass : Char → Bool) : Nat :=
  (cursor.rest.takeWhile inClass).length

def ahead (cursor : Cursor) (count : Nat) : List Char :=
  cursor.rest.take count

/-- Reads the end of a line. All ends but two are read as a line feed. -/
def lineBreak (cursor : Cursor) : Option (Char × Cursor) :=
  match cursor.rest with
  | '\r' :: '\n' :: _ => some ('\n', cursor.skip 2)
  | c :: _ =>
      if c == '\u2028' || c == '\u2029' then some (c, cursor.next)
      else if isBreak c then some ('\n', cursor.next)
      else none
  | [] => none

/-- Whether three dashes or three dots stand here as a word of their own. -/
def atMarker (cursor : Cursor) (mark : Char) : Bool :=
  cursor.ahead 3 == [mark, mark, mark] && endsWord (cursor.peek 3)

def atSeparator (cursor : Cursor) : Bool :=
  cursor.atMarker '-' || cursor.atMarker '.'

end Cursor

end DevicetreeFormat.Yaml
