/-!
# Patterns

Regular patterns of characters. A pattern is matched by taking its derivative
for one character after the other: what is left to match once that character
has been read. Derivatives are simplified on the way, so they stay small.
-/

namespace DevicetreeFormat.Text

set_option autoImplicit false

/-- A set of texts: none, the empty one, those of one character in a class,
concatenations, unions and repetitions. -/
inductive Pattern
  | never
  | nothing
  | one (inClass : Char → Bool)
  | followed (first second : Pattern)
  | either (left right : Pattern)
  | many (body : Pattern)

namespace Pattern

def acceptsEmpty : Pattern → Bool
  | never => false
  | nothing => true
  | one _ => false
  | followed first second => first.acceptsEmpty && second.acceptsEmpty
  | either left right => left.acceptsEmpty || right.acceptsEmpty
  | many _ => true

def join : Pattern → Pattern → Pattern
  | never, _ => never
  | _, never => never
  | nothing, second => second
  | first, second => followed first second

def union : Pattern → Pattern → Pattern
  | never, right => right
  | left, never => left
  | left, right => either left right

def derivative (c : Char) : Pattern → Pattern
  | never => never
  | nothing => never
  | one inClass => if inClass c then nothing else never
  | followed first second =>
      let continued := join (first.derivative c) second
      if first.acceptsEmpty then union continued (second.derivative c) else continued
  | either left right => union (left.derivative c) (right.derivative c)
  | many body => join (body.derivative c) (many body)

def accepts (pattern : Pattern) (characters : List Char) : Bool :=
  (characters.foldl (fun left c => left.derivative c) pattern).acceptsEmpty

def oneOf (characters : String) : Pattern :=
  one fun c => characters.toList.contains c

def exactly (text : String) : Pattern :=
  text.toList.foldr (fun c rest => followed (one (· == c)) rest) nothing

def anyOf (texts : List String) : Pattern :=
  texts.foldr (fun text rest => either (exactly text) rest) never

def optional (body : Pattern) : Pattern :=
  either body nothing

def several (body : Pattern) : Pattern :=
  followed body (many body)

def sequence (patterns : List Pattern) : Pattern :=
  patterns.foldr followed nothing

def choice (patterns : List Pattern) : Pattern :=
  patterns.foldr either never

end Pattern

end DevicetreeFormat.Text
