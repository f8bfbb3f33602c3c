import DevicetreeFormat.Layout.Basic

/-!
# Settings

The choices that a configuration makes. Only settings whose active layout
exists and whose indentation is blank can be built, so that printing never has
to look for a layout that is not there and never indents with anything that
could be read.
-/

namespace DevicetreeFormat

set_option autoImplicit false

def isIndentUnit (text : String) : Bool :=
  !text.isEmpty && text.toList.all fun c => c == ' ' || c == '\t'

def IndentUnit : Type :=
  { text : String // isIndentUnit text = true }

def IndentUnit.ofText? (text : String) : Option IndentUnit :=
  if blank : isIndentUnit text = true then some ⟨text, blank⟩ else none

/-- The choices that govern formatting. `layouts` are the custom layouts by
identifier, and `layout` is the identifier of the active one. -/
structure Settings where
  layout : LooseText
  indentUnit : String
  warnUnhandled : Bool
  layouts : List (LooseText × Layout)
  layout_known : (Layout.find? layouts layout).isSome
  indentUnit_blank : isIndentUnit indentUnit = true

namespace Settings

def activeLayout (settings : Settings) : Layout :=
  (Layout.find? settings.layouts settings.layout).get settings.layout_known

end Settings

end DevicetreeFormat
