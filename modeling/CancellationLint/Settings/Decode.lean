import CancellationLint.Settings.Basic
import CancellationLint.Toml.Document

/-! # Settings from a TOML document

Every table and every key may be left out, and there are no others. A table may also be given by the
list of its values, in the order of its keys. -/

namespace CancellationLint

/-- Why a text gives no settings. -/
inductive SettingsFault where
  | malformed
  | invalid (issues : List SettingsIssue)
  deriving DecidableEq, Repr

namespace Settings

open Toml (Item Entries)

/-- The items of a table, or of a list in its place, for the given keys. -/
def fields (keys : List String) : Item → Option (List (Option Item))
  | .inline entries | .table _ entries =>
    if entries.all fun entry => keys.contains entry.1 then some (keys.map fun key => entries.lookup key) else none
  | .array items => some ((List.range keys.length).map (items[·]?))
  | .tables list => some ((List.range keys.length).map fun i => list[i]?.map (.table .header))
  | _ => none

/-- The value of a key, or the default if the key is left out. -/
def orDefault (default : α) (decode : Item → Option α) : Option Item → Option α
  | none => some default
  | some item => decode item

def boolean : Item → Option Bool
  | .boolean value => some value
  | _ => none

def text : Item → Option String
  | .text value => some value
  | _ => none

def texts : Item → Option (List String)
  | .array items => items.mapM text
  | _ => none

def isEmpty : Item → Bool
  | .array [] | .inline [] | .table _ [] => true
  | _ => false

/-- A severity is given by its name, as a text or as the only key of a table, with nothing in it. -/
def severityOf : Item → Option Severity
  | .text name => Severity.ofName? name
  | .inline [(name, item)] | .table _ [(name, item)] =>
    (Severity.ofName? name).filter fun _ => isEmpty item
  | _ => none

def rule (s : Settings) (item : Item) : Option Settings :=
  match fields ["enabled", "severity"] item with
  | some [enabled, severity] => do
    let enabled ← orDefault s.enabled boolean enabled
    let severity ← orDefault s.severity severityOf severity
    return { s with enabled, severity }
  | _ => none

def fix (s : Settings) (item : Item) : Option Settings :=
  match fields ["format"] item with
  | some [format] => do
    let format ← orDefault s.format boolean format
    return { s with format }
  | _ => none

def files (s : Settings) (item : Item) : Option Settings :=
  match fields ["extensions", "exclude"] item with
  | some [extensions, exclude] => do
    let extensions ← orDefault s.extensions texts extensions
    let exclude ← orDefault s.exclude texts exclude
    return { s with extensions, exclude }
  | _ => none

/-- The settings of a document. -/
def ofEntries? (entries : Entries) : Option Settings :=
  match fields ["rule", "fix", "files"] (.inline entries) with
  | some [ruleItem, fixItem, filesItem] => do
    let s : Settings := {}
    let s ← orDefault s s.rule ruleItem
    let s ← orDefault s s.fix fixItem
    orDefault s s.files filesItem
  | _ => none

/-- Reads settings and checks them. -/
def ofText (source : String) : Except SettingsFault Settings :=
  match (Toml.document? source).bind ofEntries? with
  | none => .error .malformed
  | some s => if s.issues = [] then .ok s else .error (.invalid s.issues)

end Settings
end CancellationLint
