import CancellationLint.Rule

/-! # Settings

What a workspace can set: whether the rule is on and how loud it is, whether fixed statements are
laid out, and which files are looked at. -/

namespace CancellationLint

/-- Directories of build output and tools, which are neither searched nor written to. -/
def defaultExclude : List String := ["bin", "obj", ".git", ".vs"]

structure Settings where
  enabled : Bool := Rule.useThrowIfCancelled.enabled
  severity : Severity := Rule.useThrowIfCancelled.severity
  format : Bool := true
  extensions : List String := ["cs"]
  exclude : List String := defaultExclude
  deriving DecidableEq, Repr, Inhabited

/-- What is wrong with a setting. -/
inductive SettingsIssue where
  | noExtensions
  | badExtension (value : String)
  | badDirectory (value : String)
  deriving DecidableEq, Repr

def SettingsIssue.message : SettingsIssue → String
  | .noExtensions => "'files.extensions' must not be empty"
  | .badExtension value =>
    s!"'files.extensions' has invalid entry '{value}': expected a bare extension such as \"cs\""
  | .badDirectory value =>
    s!"'files.exclude' has invalid entry '{value}': expected a single directory name"

namespace Settings

/-- An extension has no dot in front and no slash in it. -/
def isExtension (value : String) : Bool :=
  value ≠ "" && value.toList.head? ≠ some '.' && !value.toList.contains '/'

def isDirectoryName (value : String) : Bool :=
  value ≠ "" && !value.toList.contains '/' && !value.toList.contains '\\'

def issues (s : Settings) : List SettingsIssue :=
  (if s.extensions = [] then [.noExtensions] else []) ++
    (s.extensions.filter (!isExtension ·)).map .badExtension ++
    (s.exclude.filter (!isDirectoryName ·)).map .badDirectory

/-- Whether files with this extension are looked at; the case of ASCII letters does not count. -/
def isSourceExtension (s : Settings) (extension : String) : Bool :=
  s.extensions.any fun candidate =>
    candidate.toList.map Char.toLower = extension.toList.map Char.toLower

end Settings
end CancellationLint
