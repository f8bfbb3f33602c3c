import DevicetreeFormat.Text.Printable

/-!
# Quoted texts

How a message shows a name that a person typed: between single quotes, or
between double quotes when the name holds a single quote and no double quote.
The quote in use and the backslash are escaped, and so is every character that
would not show.
-/

namespace DevicetreeFormat.Text

set_option autoImplicit false

def singleQuote : Char := '\x27'

def doubleQuote : Char := '\x22'

def hexadecimal (width number : Nat) : List Char :=
  let digits := Nat.toDigits 16 number
  List.replicate (width - digits.length) '0' ++ digits

def quotedCharacter (mark c : Char) : List Char :=
  if c = mark || c = '\\' then ['\\', c]
  else if c = '\n' then ['\\', 'n']
  else if c = '\r' then ['\\', 'r']
  else if c = '\t' then ['\\', 't']
  else if isPrintable c then [c]
  else if c.toNat < 0x100 then '\\' :: 'x' :: hexadecimal 2 c.toNat
  else if c.toNat < 0x10000 then '\\' :: 'u' :: hexadecimal 4 c.toNat
  else '\\' :: 'U' :: hexadecimal 8 c.toNat

def quoted (text : String) : String :=
  let characters := text.toList
  let mark :=
    if characters.contains singleQuote && !characters.contains doubleQuote then doubleQuote
    else singleQuote
  String.ofList (mark :: characters.flatMap (quotedCharacter mark) ++ [mark])

end DevicetreeFormat.Text
