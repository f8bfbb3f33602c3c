import DevicetreeFormat.Scalar.Basic

/-!
# Values

The data that settings are read from: what a configuration file or a caller
supplies before it is checked. A mapping keeps its entries in order and holds
each key once.
-/

namespace DevicetreeFormat

set_option autoImplicit false

inductive Value
  | scalar (content : Scalar)
  | list (items : List Value)
  | mapping (entries : List (Scalar × Value))

abbrev Entries := List (Scalar × Value)

namespace Value

/-- Sets a key. A key that is there keeps its position and its form. -/
def insertEntry (entries : Entries) (key : Scalar) (value : Value) : Entries :=
  match entries with
  | [] => [(key, value)]
  | entry :: rest =>
      if entry.1.sameKey key then (entry.1, value) :: rest else entry :: insertEntry rest key value

def override (entries overrides : Entries) : Entries :=
  overrides.foldl (fun merged entry => insertEntry merged entry.1 entry.2) entries

def field? (entries : Entries) (key : String) : Option Value :=
  (entries.find? fun entry => entry.1 = .text key).map Prod.snd

def isEmpty : Value → Bool
  | scalar content => content.isEmpty
  | list items => items.isEmpty
  | mapping entries => entries.isEmpty

end Value

end DevicetreeFormat
