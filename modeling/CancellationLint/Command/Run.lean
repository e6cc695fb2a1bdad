import CancellationLint.Command.Basic
import CancellationLint.JsonText
import CancellationLint.LineDiff.Hunk
import CancellationLint.Workspace

/-! # Running a command

A run turns a store of files into another one and into what is printed. -/

namespace CancellationLint

/-- What stops a whole run. -/
inductive RunError where
  | settings (error : SettingsError)
  | workspace (error : WorkspaceError)
  deriving DecidableEq, Repr

/-- The message of an error, and the messages of its causes. -/
def SettingsError.chain (e : SettingsError) : List String :=
  match e with
  | .unreadable _ cause => [e.message, cause.message]
  | .malformed _ => [e.message]
  | .invalid _ issues => [e.message, issuesText issues]

def WorkspaceError.chain (e : WorkspaceError) : List String :=
  match e with
  | .guard (.unresolved _ cause) | .edit (.unusable _ cause) => [e.message, cause.message]
  | _ => [e.message]

def RunError.chain : RunError → List String
  | .settings error => error.chain
  | .workspace error => error.chain

/-- What a run leaves behind. -/
structure Outcome where
  result : Except RunError Nat
  out : String
  err : List String
  store : FileStore

namespace Outcome

/-- The exit status; a run that was stopped has status 2. -/
def status (o : Outcome) : Nat :=
  match o.result with
  | .ok status => status
  | .error _ => 2

/-- What is printed as errors, one message after the other. -/
def messages (o : Outcome) : List String :=
  match o.result with
  | .ok _ => o.err
  | .error e => o.err ++ ["error: " ++ ": ".intercalate e.chain]

end Outcome

namespace Command

def openWorkspace (store : FileStore) (config : Option PathName) : Except SettingsError Workspace :=
  let root := PathName.ofNames store.here
  let settings := match config with
    | some file => Settings.load store file
    | none => Settings.discover store root
  settings.map fun settings => { root, settings }

/-- The source files to work on; without paths those of the working directory. -/
def sourceFiles (w : Workspace) (store : FileStore) (paths : List PathName) : List PathName :=
  w.discover store (if paths = [] then [{ text := "." }] else paths)

def successes (results : List (Except ε α)) : List α := results.filterMap Except.toOption

/-- One message for each failure. -/
def failures (results : List (Except WorkspaceError α)) : List String :=
  results.filterMap fun
    | .ok _ => none
    | .error e => some ("error: " ++ e.message)

/-! ## Checking -/

def positionText (p : Text.Position) : List String :=
  JsonText.record [("line", JsonText.number p.line), ("column", JsonText.number p.column)]

def diagnosticText (d : Diagnostic) : List String :=
  JsonText.record
    [("id", JsonText.text d.id), ("message", JsonText.text d.message),
      ("severity", JsonText.text d.severity.name),
      ("location", JsonText.record
        [("file", JsonText.text d.location.file.text),
          ("byte_start", JsonText.number d.location.span.start),
          ("byte_end", JsonText.number d.location.span.stop),
          ("start", positionText d.location.start), ("end", positionText d.location.stop)])]

def joinLines (lines : List String) : String := String.join (lines.map (· ++ "\n"))

/-- Reports what is found. Hidden diagnostics are not reported and do not count. -/
def runCheck (w : Workspace) (grammar : Grammar) (store : FileStore) (paths : List PathName)
    (format : ReportFormat) : Outcome :=
  let files := sourceFiles w store paths
  let analyses := w.analyzeAll grammar [] store files
  let failed := failures analyses
  let diagnostics :=
    ((successes analyses).flatMap Analysis.diagnostics).filter fun d => d.severity ≠ .hidden
  let status := if failed ≠ [] then 2 else if diagnostics = [] then 0 else 1
  match format with
  | .json =>
    { result := .ok status, out := joinLines (JsonText.list (diagnostics.map diagnosticText))
      err := failed, store }
  | .text =>
    let summary := s!"{diagnostics.length} issue(s) in {files.length} file(s) checked"
    { result := .ok status, out := joinLines (diagnostics.map Diagnostic.report)
      err := failed ++ [summary], store }

/-! ## Fixing -/

def plural (count : Nat) (noun : String) : String :=
  if count = 1 then s!"{count} {noun}" else s!"{count} {noun}s"

def diffText (plan : FilePlan) : String :=
  joinLines [s!"--- {plan.file.text} (original)", s!"+++ {plan.file.text} (fixed)"] ++
    LineDiff.text plan.before plan.after

def planText (dryRun showDiff : Bool) (plan : FilePlan) : String :=
  let verb := if dryRun then "Would fix" else "Fixed"
  let statements := plural plan.actions.length "statement"
  (if showDiff then diffText plan else "") ++
    joinLines (
      [s!"{verb} {statements} in {plan.file.text}"] ++
      plan.actions.map (fun a => s!"  {a.start.line}:{a.start.column}: {a.title}") ++
      if plan.conflicts > 0 then [s!"  {plan.conflicts} nested fix(es) skipped, run again"] else [])

/-- The plans for files, and what has failed. -/
def plansFor (w : Workspace) (grammar : Grammar) (store : FileStore) (files : List PathName) :
    List FilePlan × List String :=
  let analyses := w.analyzeAll grammar [0] store files
  let planned := (successes analyses).mapIdx fun i a => w.plan grammar [i, 1] a
  ((successes planned).filterMap id, failures analyses ++ failures planned)

/-- Writes what was planned and reports it. A dry run writes nothing. -/
def runFix [Digest] (w : Workspace) (grammar : Grammar) (store : FileStore) (paths : List PathName)
    (dryRun showDiff : Bool) : Outcome :=
  let (plans, failed) := plansFor w grammar store (sourceFiles w store paths)
  let written := if dryRun || plans = [] then (.ok [], store) else w.write store plans
  match written with
  | (.error e, store) => { result := .error (.workspace e), out := "", err := failed, store }
  | (.ok _, store) =>
    let statements := plural (plans.flatMap fun plan => plan.actions).length "statement"
    let files := plural plans.length "file"
    { result := .ok (if failed ≠ [] then 2 else 0)
      out := String.join (plans.map (planText dryRun showDiff)) ++
        if dryRun then joinLines ["[DRY RUN - no files written]"] else ""
      err := failed ++ [s!"{statements} in {files}"]
      store }

/-- Runs a command in the working directory of a store. -/
def run [Digest] (grammar : Grammar) (store : FileStore) (command : Command) : Outcome :=
  let config := match command with
    | .check _ _ config | .fix _ _ _ config => config
  match openWorkspace store config with
  | .error e => { result := .error (.settings e), out := "", err := [], store }
  | .ok w =>
    match command with
    | .check paths format _ => runCheck w grammar store paths format
    | .fix paths dryRun showDiff _ => runFix w grammar store paths dryRun showDiff

/-- What is printed when the version is asked for. -/
def versionText : String := "cancelcheck 0.1.0\n"

end Command
end CancellationLint
