import DevicetreeFormat.Settings.Basic
import DevicetreeFormat.Validation.LayoutCheck

/-!
# Checking settings

Settings are read from a mapping with four known keys, all optional. Custom
layouts are named by their keys, and the active layout has to exist.
-/

namespace DevicetreeFormat.Validation

set_option autoImplicit false

def settingsKeys : List LooseText :=
  ["layout", "indent_unit", "warn_on_unhandled_tokens", "layouts"]

def checkIndentUnit (value : Value) : Checked IndentUnit :=
  match checkText value with
  | .error issues => .error issues
  | .ok text =>
      match text.text?.bind IndentUnit.ofText? with
      | some unit => .ok unit
      | none => Checked.refuse (.rejected "indent_unit must be a non-empty run of spaces or tabs")

def checkIdentifier : Scalar → Checked LooseText
  | .text name => .ok name
  | key => ((Checked.refuse .notText).located "[key]").located key.shown

def checkNamedLayout (entry : Scalar × Value) : Checked (LooseText × Layout) :=
  match Checked.both (checkIdentifier entry.1) ((checkLayout entry.2).located entry.1.shown) with
  | .ok (name, layout) => .ok (name, layout.rename name)
  | .error issues => .error issues

def checkLayouts : Value → Checked (List (LooseText × Layout))
  | .mapping entries => Checked.all (entries.map checkNamedLayout)
  | _ => Checked.refuse .notDictionary

def keyIssue? : Scalar → Option Issue
  | .text name => if settingsKeys.contains name then none else some ⟨[name.shown], .extraKey⟩
  | key => some ⟨[key.shown], .invalidKey⟩

def checkExtraKeys (entries : Entries) : Checked Unit :=
  match entries.filterMap fun entry => keyIssue? entry.1 with
  | [] => .ok ()
  | issues => .error issues

def assembleSettings (layout : LooseText) (indentUnit : IndentUnit) (warnUnhandled : Bool)
    (layouts : List (LooseText × Layout)) : Checked Settings :=
  if known : (Layout.find? layouts layout).isSome then
    .ok ⟨layout, indentUnit.val, warnUnhandled, layouts, known, indentUnit.property⟩
  else Checked.refuse (.rejected (Layout.unknownMessage layouts layout))

/-- Whether a key holds halves of surrogate pairs. -/
def isGarbled : Scalar → Bool
  | .text name => name.text?.isNone
  | _ => false

/-- Checks settings. With a garbled key nothing else is looked at. -/
def checkSettings : Value → Checked Settings
  | .mapping entries =>
      if entries.any fun entry => isGarbled entry.1 then Checked.refuse .garbledText
      else
        let layout := optional entries "layout" Layout.adv360.name checkText
        let indentUnit := optional entries "indent_unit" ⟨"  ", rfl⟩ checkIndentUnit
        let warn := optional entries "warn_on_unhandled_tokens" false checkTruth
        let layouts := optional entries "layouts" [] checkLayouts
        let fields := Checked.both layout (Checked.both indentUnit (Checked.both warn layouts))
        match Checked.both fields (checkExtraKeys entries) with
        | .ok ((layout, indentUnit, warn, layouts), ()) =>
            assembleSettings layout indentUnit warn layouts
        | .error issues => .error issues
  | _ => Checked.refuse (.notModel "Config")

end DevicetreeFormat.Validation

namespace DevicetreeFormat.Settings

def ofValue (source : String) (data : Value) : Except String Settings :=
  match Validation.checkSettings data with
  | .ok settings => .ok settings
  | .error issues => .error (source ++ ": " ++ Issue.report "Config" issues)

end DevicetreeFormat.Settings
