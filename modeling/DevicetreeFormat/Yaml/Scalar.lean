import DevicetreeFormat.Text.Loose
import DevicetreeFormat.Yaml.Cursor
import DevicetreeFormat.Yaml.Fault

/-!
# Texts of scalars

Reading plain and quoted scalars. Line breaks inside a scalar are folded: one
break is a space, and each further break a line feed. The readers take a number
of steps that bounds their work; one more than the length of the remaining text
is always enough. They gather a text newest character first.
-/

namespace DevicetreeFormat.Yaml

set_option autoImplicit false

/-! ## Plain scalars -/

def isFlowMark (c : Char) : Bool :=
  [',', '?', '[', ']', '\x7b', '\x7d'].contains c

def endsKey (inFlow : Bool) (following : Option Char) : Bool :=
  endsWord following ||
    match following with
    | some c => inFlow && c != '?' && isFlowMark c
    | none => true

def wordLength (inFlow : Bool) : List Char → Nat
  | [] => 0
  | c :: rest =>
      if isGap c || (c == ':' && endsKey inFlow rest.head?) || (inFlow && isFlowMark c) then 0
      else wordLength inFlow rest + 1

/-- Skips spaces and gathers line breaks, up to a separator of documents. The
flag says that there was none. `breaks` are the breaks before, newest first. -/
def plainBreaks : Nat → Cursor → List Char → List Char × Cursor × Bool
  | 0, cursor, breaks => (breaks.reverse, cursor, true)
  | steps + 1, cursor, breaks =>
      if cursor.sees ' ' then plainBreaks steps cursor.next breaks
      else
        match cursor.lineBreak with
        | none => (breaks.reverse, cursor, true)
        | some (c, after) =>
            if after.atSeparator then (breaks.reverse, after, false)
            else plainBreaks steps after (c :: breaks)

def foldBreaks (first : Char) (breaks : List Char) : List Char :=
  if first != '\n' then first :: breaks
  else if breaks.isEmpty then [' ']
  else breaks

/-- What stands between two words of a plain scalar, where it ends, and whether
a line was broken. There is nothing between them if the scalar ends here. -/
def plainSpaces (steps : Nat) (cursor : Cursor) : List Char × Cursor × Bool :=
  let width := cursor.run (· == ' ')
  let after := cursor.skip width
  match after.lineBreak with
  | none => (List.replicate width ' ', after, false)
  | some (first, broken) =>
      if broken.atSeparator then ([], broken, true)
      else
        match plainBreaks steps broken [] with
        | (breaks, last, true) => (foldBreaks first breaks, last, true)
        | (_, last, false) => ([], last, true)

/-- Reads a plain scalar whose lines are indented by at least `indent`, after
the characters `text`. The flag of the result says that the scalar ended after a
line break. -/
def readPlain (inFlow : Bool) (indent : Int) :
    Nat → Cursor → List Char → Bool → List Char × Cursor × Bool
  | 0, cursor, text, broken => (text.reverse, cursor, broken)
  | steps + 1, cursor, text, broken =>
      let length := if cursor.sees '#' then 0 else wordLength inFlow cursor.rest
      if length = 0 then (text.reverse, cursor, broken)
      else
        let longer := (cursor.ahead length).reverseAux text
        let (spaces, after, newLine) := plainSpaces steps (cursor.skip length)
        if spaces.isEmpty || after.sees '#' || (!inFlow && (after.column : Int) < indent) then
          (longer.reverse, after, newLine)
        else
          match readPlain inFlow indent steps after (spaces.reverseAux longer) newLine with
          | (result, last, ended) =>
              if last.index = after.index then (longer.reverse, last, ended)
              else (result, last, ended)

/-! ## Quoted scalars -/

def escapes : List (Char × Char) :=
  [('0', '\x00'), ('a', '\x07'), ('b', '\x08'), ('t', '\t'), ('\t', '\t'), ('n', '\n'),
   ('v', '\x0b'), ('f', '\x0c'), ('r', '\r'), ('e', '\x1b'), (' ', ' '), ('\x22', '\x22'),
   ('/', '/'), ('\\', '\\'), ('N', '\x85'), ('_', '\xa0'), ('L', '\u2028'), ('P', '\u2029')]

def codeLengths : List (Char × Nat) :=
  [('x', 2), ('u', 4), ('U', 8)]

def hexDigit (c : Char) : Option Nat :=
  if c.isDigit then some (c.toNat - '0'.toNat)
  else if 'a' ≤ c && c ≤ 'f' then some (c.toNat - 'a'.toNat + 10)
  else if 'A' ≤ c && c ≤ 'F' then some (c.toNat - 'A'.toNat + 10)
  else none

def codeOfNumber (number : Nat) : Except Fault Code :=
  if number.isValidChar then .ok (.character (Char.ofNat number))
  else if number < 0x110000 then .ok (.half (Fin.ofNat 2048 (number - Code.firstHalf)))
  else if number < 0x80000000 then .error .valueless
  else .error .immeasurable

/-- The code that so many hexadecimal digits give. The text may be over before
they are; then `ending` is the fault. -/
def readCode (ending : Fault) (length : Nat) (characters : List Char) : Except Fault Code :=
  match (characters.take length).mapM hexDigit with
  | none => .error .malformed
  | some digits =>
      if digits.length = length then
        codeOfNumber (digits.foldl (fun number digit => number * 16 + digit) 0)
      else .error ending

/-- Skips blanks and gathers line breaks inside quotes. A separator of
documents may not stand there. `breaks` are the breaks before, newest first. -/
def quotedBreaks : Nat → Cursor → List Char → Except Fault (List Char × Cursor)
  | 0, _, _ => .error .malformed
  | steps + 1, cursor, breaks =>
      if cursor.atSeparator then .error .malformed
      else
        let after := cursor.skip (cursor.run fun c => c == ' ' || c == '\t')
        match after.lineBreak with
        | none => .ok (breaks.reverse, after)
        | some (c, broken) => quotedBreaks steps broken (c :: breaks)

def readEscape (ending : Fault) (steps : Nat) (cursor : Cursor) :
    Except Fault (List Code × Cursor) :=
  match cursor.rest with
  | [] => .error ending
  | c :: rest =>
      match escapes.lookup c with
      | some meaning => .ok ([.character meaning], cursor.next)
      | none =>
          match codeLengths.lookup c with
          | some length => do
              let code ← readCode ending length rest
              return ([code], cursor.skip (length + 1))
          | none =>
              match cursor.lineBreak with
              | some (_, broken) => do
                  let (breaks, after) ← quotedBreaks steps broken []
                  return (breaks.map .character, after)
              | none => .error .malformed

/-- Reads a quoted scalar after its opening quote and the codes `text`. Single
quotes are escaped by doubling, and only double quotes know other escapes. If the
text is over before the scalar is, `ending` is the fault. -/
def readQuoted (ending : Fault) (double : Bool) :
    Nat → Cursor → List Code → Except Fault (LooseText × Cursor)
  | 0, _, _ => .error .malformed
  | steps + 1, cursor, text =>
      let mark := if double then '\x22' else '\x27'
      match cursor.rest with
      | [] => .error ending
      | c :: rest =>
          if c == mark then
            if !double && rest.head? == some mark then
              readQuoted ending double steps (cursor.skip 2) (.character mark :: text)
            else .ok (⟨text.reverse⟩, cursor.next)
          else if double && c == '\\' then do
            let (meaning, after) ← readEscape ending steps cursor.next
            readQuoted ending double steps after (meaning.reverseAux text)
          else if isGap c then
            let width := cursor.run fun c => c == ' ' || c == '\t'
            let after := cursor.skip width
            match after.lineBreak with
            | none =>
                readQuoted ending double steps after
                  (((cursor.ahead width).map .character).reverseAux text)
            | some (first, broken) => do
                let (breaks, last) ← quotedBreaks steps broken []
                readQuoted ending double steps last
                  (((foldBreaks first breaks).map .character).reverseAux text)
          else readQuoted ending double steps cursor.next (.character c :: text)

end DevicetreeFormat.Yaml
