import DevicetreeFormat.Yaml.Scalar
import DevicetreeFormat.Yaml.Source

/-!
# Tokens

Cuts a text of the settings format into tokens. Blocks have no brackets in the
text, so the scanner follows the indentation and writes the tokens that open
and close them. A scalar or a flow collection is found to be a key only at the
colon after it, so its position is remembered as a candidate until then, and no
token from there on counts as read.
-/

namespace DevicetreeFormat.Yaml

set_option autoImplicit false

inductive Written
  | plain (text : String)
  | quoted (text : LooseText)
deriving DecidableEq

/-- The tokens between which blanks and comments have gone. -/
inductive Token
  | documentStart
  | documentEnd
  | blockSequenceStart
  | blockMappingStart
  | blockEnd
  | flowSequenceStart
  | flowSequenceEnd
  | flowMappingStart
  | flowMappingEnd
  | blockEntry
  | flowEntry
  | key
  | value
  | scalar (written : Written)
deriving DecidableEq

/-- A place where a key may have begun. `required` says that nothing but a key
can stand there. -/
structure Candidate where
  position : Nat
  required : Bool
  index : Nat
  line : Nat
  column : Nat

/-- The state of the scanner. Tokens and enclosing indents are kept newest
first, and the tokens are counted; candidates are kept by the number of open
brackets around them. -/
structure Scanner where
  cursor : Cursor
  tokens : List Token := []
  count : Nat := 0
  indent : Int := -1
  outerIndents : List Int := []
  openBrackets : Nat := 0
  keyAllowed : Bool := true
  candidates : List (Nat × Candidate) := []
  cut : Option Fault := none

namespace Scanner

def ending (scanner : Scanner) : Fault :=
  scanner.cut.getD .malformed

def inFlow (scanner : Scanner) : Bool :=
  scanner.openBrackets != 0

def push (scanner : Scanner) (token : Token) : Scanner :=
  { scanner with tokens := token :: scanner.tokens, count := scanner.count + 1 }

def insertAt (scanner : Scanner) (position : Nat) (token : Token) : Scanner :=
  let later := scanner.count - position
  { scanner with
    tokens := scanner.tokens.take later ++ token :: scanner.tokens.drop later
    count := scanner.count + 1 }

/-- Forgets the candidate of the current bracket level; one that had to be a
key is an error. -/
def dropCandidate (scanner : Scanner) : Except Fault Scanner :=
  match scanner.candidates.lookup scanner.openBrackets with
  | some candidate =>
      if candidate.required then .error .malformed
      else
        .ok { scanner with
          candidates := scanner.candidates.filter fun entry => entry.1 != scanner.openBrackets }
  | none => .ok scanner

def saveCandidate (scanner : Scanner) : Except Fault Scanner :=
  if scanner.keyAllowed then do
    let scanner ← scanner.dropCandidate
    let cursor := scanner.cursor
    let candidate : Candidate :=
      { position := scanner.count
        required := !scanner.inFlow && scanner.indent == (cursor.column : Int)
        index := cursor.index, line := cursor.line, column := cursor.column }
    return { scanner with
      candidates := (scanner.openBrackets, candidate) :: scanner.candidates }
  else .ok scanner

def keyLimit : Nat := 1024

def isStale (scanner : Scanner) (candidate : Candidate) : Bool :=
  candidate.line != scanner.cursor.line || keyLimit < scanner.cursor.index - candidate.index

def dropStale (scanner : Scanner) : Except Fault Scanner :=
  if scanner.candidates.any fun entry => scanner.isStale entry.2 && entry.2.required then
    .error .malformed
  else
    .ok { scanner with
      candidates := scanner.candidates.filter fun entry => !scanner.isStale entry.2 }

def closeBlocks (column : Int) : List Int → Scanner → Scanner
  | [], scanner => scanner
  | outer :: rest, scanner =>
      if column < scanner.indent then
        closeBlocks column rest
          ({ scanner with indent := outer, outerIndents := rest }.push .blockEnd)
      else scanner

/-- Closes the blocks that end before `column`; inside brackets there are none. -/
def unwind (scanner : Scanner) (column : Int) : Scanner :=
  if scanner.inFlow then scanner else closeBlocks column scanner.outerIndents scanner

/-- Opens a block at `column` if it is indented further than the current one. -/
def openBlock (scanner : Scanner) (column : Int) (position : Nat) (token : Token) : Scanner :=
  if scanner.indent < column then
    { scanner with indent := column, outerIndents := scanner.indent :: scanner.outerIndents }
      |>.insertAt position token
  else scanner

/-- Moves past spaces, comments and line breaks. A line break outside brackets
lets a key begin. -/
def skipGaps : Nat → Scanner → Scanner
  | 0, scanner => scanner
  | steps + 1, scanner =>
      let spaced := scanner.cursor.skip (scanner.cursor.run (· == ' '))
      let cursor :=
        if spaced.sees '#' then spaced.skip (spaced.run fun c => !isBreak c) else spaced
      match cursor.lineBreak with
      | none => { scanner with cursor }
      | some (_, after) =>
          skipGaps steps
            { scanner with cursor := after, keyAllowed := scanner.keyAllowed || !scanner.inFlow }

def mark (scanner : Scanner) (token : Token) : Scanner :=
  { scanner with cursor := scanner.cursor.next }.push token

def separator (scanner : Scanner) (token : Token) : Except Fault Scanner := do
  let scanner ← (scanner.unwind (-1)).dropCandidate
  return { scanner with cursor := scanner.cursor.skip 3, keyAllowed := false }.push token

def openFlow (scanner : Scanner) (token : Token) : Except Fault Scanner := do
  let scanner ← scanner.saveCandidate
  return { scanner with openBrackets := scanner.openBrackets + 1, keyAllowed := true }.mark token

def closeFlow (scanner : Scanner) (token : Token) : Except Fault Scanner := do
  let scanner ← scanner.dropCandidate
  if scanner.inFlow then
    return { scanner with openBrackets := scanner.openBrackets - 1, keyAllowed := false }.mark token
  else .error .malformed

def flowEntry (scanner : Scanner) : Except Fault Scanner := do
  let scanner ← { scanner with keyAllowed := true }.dropCandidate
  return scanner.mark .flowEntry

def blockEntry (scanner : Scanner) : Except Fault Scanner :=
  if !scanner.inFlow && !scanner.keyAllowed then .error .malformed
  else do
    let opened :=
      if scanner.inFlow then scanner
      else scanner.openBlock scanner.cursor.column scanner.count .blockSequenceStart
    let scanner ← { opened with keyAllowed := true }.dropCandidate
    return scanner.mark .blockEntry

def keyValue (scanner : Scanner) : Except Fault Scanner :=
  match scanner.candidates.lookup scanner.openBrackets with
  | some candidate =>
      let forgotten := { scanner with
        candidates := scanner.candidates.filter fun entry => entry.1 != scanner.openBrackets }
      let keyed := forgotten.insertAt candidate.position .key
      let opened :=
        if scanner.inFlow then keyed
        else keyed.openBlock candidate.column candidate.position .blockMappingStart
      .ok ({ opened with keyAllowed := false }.mark .value)
  | none =>
      if scanner.inFlow then .ok ({ scanner with keyAllowed := false }.mark .value)
      else if scanner.keyAllowed then
        let opened := scanner.openBlock scanner.cursor.column scanner.count .blockMappingStart
        .ok ({ opened with keyAllowed := true }.mark .value)
      else .error .malformed

def plainScalar (steps : Nat) (scanner : Scanner) : Except Fault Scanner := do
  let scanner ← scanner.saveCandidate
  let cursor := scanner.cursor
  let (text, after, broken) :=
    readPlain scanner.inFlow (scanner.indent + 1) steps cursor [] false
  return { scanner with cursor := after, keyAllowed := broken }.push
    (.scalar (.plain (String.ofList text)))

def quotedScalar (steps : Nat) (scanner : Scanner) (double : Bool) : Except Fault Scanner := do
  let scanner ← scanner.saveCandidate
  let cursor := scanner.cursor.next
  let (text, after) ← readQuoted scanner.ending double steps cursor []
  return { scanner with cursor := after, keyAllowed := false }.push (.scalar (.quoted text))

/-- The characters with which no plain scalar begins, unless the next character
allows it. -/
def isIndicator (c : Char) : Bool :=
  ['-', '?', ':', ',', '[', ']', '\x7b', '\x7d', '#', '&', '*', '!', '|', '>', '\x27', '\x22', '%',
   '@', '\x60'].contains c

def startsPlain (scanner : Scanner) (c : Char) : Bool :=
  (!isGap c && !isIndicator c) ||
    (!endsWord (scanner.cursor.peek 1) && (c == '-' || (!scanner.inFlow && (c == '?' || c == ':'))))

/-- The number of characters that tell which token begins with `c`. -/
def lookahead (scanner : Scanner) (c : Char) : Nat :=
  if scanner.cursor.column = 0 && (c == '-' || c == '.') then
    if scanner.cursor.ahead 3 == [c, c, c] then 4 else 3
  else if c == '-' || (!scanner.inFlow && (c == '?' || c == ':')) then 2
  else if ['?', '#', '&', '*', '!', '|', '>', '%', '@', '\x60'].contains c then 2
  else 1

def readToken (steps : Nat) (scanner : Scanner) (c : Char) : Except Fault Scanner :=
  let wordEnds := endsWord (scanner.cursor.peek 1)
  if scanner.cursor.column = 0 && scanner.cursor.atMarker '-' then scanner.separator .documentStart
  else if scanner.cursor.column = 0 && scanner.cursor.atMarker '.' then
    scanner.separator .documentEnd
  else if c == '[' then scanner.openFlow .flowSequenceStart
  else if c == '\x7b' then scanner.openFlow .flowMappingStart
  else if c == ']' then scanner.closeFlow .flowSequenceEnd
  else if c == '\x7d' then scanner.closeFlow .flowMappingEnd
  else if c == ',' then scanner.flowEntry
  else if c == '-' && wordEnds then scanner.blockEntry
  else if c == ':' && (scanner.inFlow || wordEnds) then scanner.keyValue
  else if c == '\x27' then quotedScalar steps scanner false
  else if c == '\x22' then quotedScalar steps scanner true
  else if scanner.startsPlain c then plainScalar steps scanner
  else .error .malformed

/-- Whatever needs `count` characters more than a text has that is cut off meets
the fault there. -/
def meetCut (count : Nat) (scanner : Scanner) : Except Fault Scanner :=
  match scanner.cursor.rest.drop (count - 1), scanner.cut with
  | [], some fault => .error fault
  | _, _ => .ok scanner

def advance (steps : Nat) (scanner : Scanner) : Except Fault Scanner := do
  let scanner ← meetCut 1 (skipGaps steps scanner)
  let scanner ← scanner.dropStale
  let scanner := scanner.unwind scanner.cursor.column
  match scanner.cursor.rest with
  | [] => (scanner.unwind (-1)).dropCandidate
  | c :: _ => do
      let known ← meetCut (scanner.lookahead c) scanner
      let next ← readToken steps known c
      meetCut 1 next

/-- The tokens that have been read for good: those before every candidate. -/
def settled (scanner : Scanner) : List Token :=
  let live := scanner.candidates.filter fun entry => !scanner.isStale entry.2
  let limit := live.foldl (fun limit entry => min limit entry.2.position) scanner.count
  scanner.tokens.reverse.take limit

end Scanner

/-- The tokens of a text as far as they can be read, and the fault that stops
the reading, if one does. -/
structure TokenStream where
  tokens : List Token
  fault : Option Fault := none

namespace TokenStream

/-- Reads tokens to the end of the text. Two more than the length of the text are
enough steps, also for each token. -/
def readAll : Nat → Scanner → TokenStream
  | 0, scanner => ⟨scanner.settled, some .malformed⟩
  | steps + 1, scanner =>
      match scanner.advance (steps + 1) with
      | .error fault => ⟨scanner.settled, some fault⟩
      | .ok next =>
          if scanner.cursor.rest.isEmpty then ⟨next.tokens.reverse, none⟩ else readAll steps next

/-- The tokens of a source. A byte order mark in front is skipped. -/
def ofSource (source : Source) : TokenStream :=
  let characters :=
    match source.characters with
    | '\ufeff' :: rest => rest
    | other => other
  readAll (characters.length + 2) { cursor := { rest := characters }, cut := source.cut }

end TokenStream

end DevicetreeFormat.Yaml
