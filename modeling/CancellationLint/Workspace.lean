import CancellationLint.Concrete.Build
import CancellationLint.Edit.Batch
import CancellationLint.Files.Guard
import CancellationLint.Fix.All
import CancellationLint.Layout
import CancellationLint.Runs
import CancellationLint.Settings.Decode
import CancellationLint.Validation

/-! # Workspaces

The steps of a run: find the source files, analyze each, plan its fixes, and write what was planned.
Each step takes the store of files as it is and leaves it alone, but for the last. -/

namespace CancellationLint

/-! ## What can go wrong -/

/-- Why a source file gives no tree. -/
inductive SourceError where
  | unreadable (file : PathName) (cause : FileError)
  | noTree
  deriving DecidableEq, Repr

def SourceError.message : SourceError → String
  | .unreadable file cause => s!"I/O error reading {file.text}: {cause.message}"
  | .noTree => "failed to parse source code"

inductive WorkspaceError where
  | source (error : SourceError)
  | fix (file : PathName) (error : FixError)
  | validation (file : PathName) (error : ValidationError)
  | guard (error : GuardError)
  | edit (error : EditError)
  deriving DecidableEq, Repr

def WorkspaceError.message : WorkspaceError → String
  | .source error => error.message
  | .fix file error => s!"{file.text}: {error.message}"
  | .validation file error => s!"{file.text}: {error.message}"
  | .guard error => error.message
  | .edit error => error.message

/-- Why there are no settings; faults of a text come with the file it was read from. -/
inductive SettingsError where
  | unreadable (file : PathName) (cause : FileError)
  | malformed (file : Option PathName)
  | invalid (file : Option PathName) (issues : List SettingsIssue)
  deriving DecidableEq, Repr

def SettingsError.ofFault (file : Option PathName) : SettingsFault → SettingsError
  | .malformed => .malformed file
  | .invalid issues => .invalid file issues

/-- The issues, one on a line. -/
def issuesText (issues : List SettingsIssue) : String :=
  "\n".intercalate (issues.map SettingsIssue.message)

def SettingsError.message : SettingsError → String
  | .unreadable file cause => s!"failed to read config from {file.text}: {cause.message}"
  | .malformed (some file) => s!"failed to parse config TOML ({file.text})"
  | .malformed none => "failed to parse config TOML"
  | .invalid (some file) issues => s!"invalid config ({file.text}): {issuesText issues}"
  | .invalid none issues => s!"invalid config: {issuesText issues}"

/-! ## Settings -/

namespace Settings

/-- The file that settings are looked for in. -/
def fileName : PathName := { text := "cancelcheck.toml" }

def load (store : FileStore) (file : PathName) : Except SettingsError Settings :=
  match store.readText file with
  | .error cause => .error (.unreadable file cause)
  | .ok source =>
    match Settings.ofText source with
    | .ok s => .ok s
    | .error fault => .error (.ofFault (some file) fault)

/-- The settings of a directory; without a file they are the default ones. -/
def discover (store : FileStore) (root : PathName) : Except SettingsError Settings :=
  let file := root.join fileName
  if store.isFile file then load store file else .ok {}

end Settings

/-! ## Workspaces -/

structure Workspace where
  root : PathName
  settings : Settings
  deriving Repr

/-- A file that was read, and what was found in it. -/
structure Analysis where
  file : PathName
  tree : Tree
  diagnostics : List Diagnostic
  deriving Repr

/-- A fix of a plan, by where it was in the text before. -/
structure FixAction where
  title : String
  start : Text.Position
  deriving DecidableEq, Repr

/-- The text of a file after its fixes, not yet written. -/
structure FilePlan where
  file : PathName
  before : String
  after : String
  actions : List FixAction
  conflicts : Nat
  deriving Repr

/-- The plan as an edit of the whole file. -/
def FilePlan.toEdit [Digest] (plan : FilePlan) : Edit := .replaceFile plan.file plan.before plan.after

/-- Reads a file and remembers its name. -/
def Tree.read (grammar : Grammar) (l : Label) (store : FileStore) (file : PathName) :
    Except SourceError Tree :=
  match store.readText file with
  | .error cause => .error (.unreadable file cause)
  | .ok source =>
    match Tree.parse? grammar l source with
    | some tree => .ok { tree with file }
    | none => .error .noTree

namespace Workspace

/-- Whether the name of a file ends in one of the extensions. -/
def isSourceName (w : Workspace) (name : String) : Bool :=
  match PathName.extensionOf? name.toList with
  | some extension => w.settings.isSourceExtension (String.ofList extension)
  | none => false

/-- The source files in a directory, which is written as `directory`, and in the directories in it.
Links are taken for files, and excluded directories are not entered. -/
def sourcesBelow (w : Workspace) (store : FileStore) (directory : PathName) (place : Place) :
    List PathName :=
  (store.inside place).attach.flatMap fun inner =>
    let path := directory.join { text := inner.1.1 }
    match inner.1.2 with
    | .directory =>
      if w.settings.exclude.contains inner.1.1 then []
      else w.sourcesBelow store path (place ++ [inner.1.1])
    | _ => if w.isSourceName inner.1.1 then [path] else []
termination_by store.depth - place.length
decreasing_by exact store.depth_sub_lt inner.2

/-- The source files that a path stands for. A file is taken as it is, whatever its name. -/
def sources (w : Workspace) (store : FileStore) (path : PathName) : List PathName :=
  if store.isFile path then [path]
  else
    match store.resolve path with
    | .error _ => []
    | .ok place =>
      -- The directory itself is entered whatever its name. A link to a directory is searched, but
      -- by itself it counts as a file.
      let isLink := match (store.locate path).map store.at? with
        | .ok (some (.link _)) => true
        | _ => false
      let itself := if isLink && path.extension?.any w.settings.isSourceExtension then [path] else []
      itself ++ w.sourcesBelow store path place

/-- Of path names in a row with the same parts, the first. -/
def dropSame (paths : List PathName) : List PathName := dropRuns PathName.parts paths

/-- The source files under the paths, in the order of path names and each once. -/
def discover (w : Workspace) (store : FileStore) (paths : List PathName) : List PathName :=
  dropSame ((paths.flatMap (w.sources store)).mergeSort fun a b => a.compare b ≠ .gt)

/-- Reads a file and checks it, if the rule is on. -/
def analyze (w : Workspace) (grammar : Grammar) (l : Label) (store : FileStore) (file : PathName) :
    Except WorkspaceError Analysis :=
  match Tree.read grammar l store file with
  | .error error => .error (.source error)
  | .ok tree =>
    let diagnostics :=
      if w.settings.enabled then tree.detect Scope.oracle w.settings.severity else []
    .ok { file, tree, diagnostics }

/-- The `i`-th file gets the `i`-th label below. -/
def analyzeAll (w : Workspace) (grammar : Grammar) (l : Label) (store : FileStore)
    (files : List PathName) : List (Except WorkspaceError Analysis) :=
  files.mapIdx fun i file => w.analyze grammar (l.sub i) store file

/-- Fixes all that was found in a file. There is no plan if nothing was found. -/
def plan (w : Workspace) (grammar : Grammar) (l : Label) (a : Analysis) :
    Except WorkspaceError (Option FilePlan) :=
  if a.diagnostics = [] then .ok none
  else
    match a.tree.fixAll (l.sub 0) a.diagnostics with
    | .error error => .error (.fix a.file error)
    | .ok fixed =>
      let tree := if w.settings.format then fixed.tree.format (l.sub 1) else fixed.tree
      let before := a.tree.source
      let after := tree.source
      match validateEdit grammar before after with
      | .error error => .error (.validation a.file error)
      | .ok () =>
        let lines := Text.LineIndex.ofText before
        let actions := fixed.applied.map fun fix =>
          { title := fixTitle, start := lines.position fix.span.start : FixAction }
        .ok (some { file := a.file, before, after, actions, conflicts := fixed.conflicts.length })

/-- The edits of plans, at the places that the guard allows. -/
def guardedEdits [Digest] (guard : Guard) (store : FileStore) :
    List FilePlan → Except GuardError (List Edit)
  | [] => .ok []
  | plan :: rest =>
    (guard.check store plan.file).bind fun place =>
      (guardedEdits guard store rest).map ({ plan.toEdit with file := .ofNames place } :: ·)

/-- Writes plans. All paths are checked before anything is written. -/
def write [Digest] (w : Workspace) (store : FileStore) (plans : List FilePlan) :
    Except WorkspaceError (List EditOutcome) × FileStore :=
  match (Guard.ofRoot store w.root w.settings.exclude).bind fun guard =>
      guardedEdits guard store plans with
  | .error error => (.error (.guard error), store)
  | .ok edits =>
    let written := Edit.applyBatch store edits
    (written.1.mapError .edit, written.2)

end Workspace
end CancellationLint
