import CancellationLint.Files.PathName

/-! # Commands and their arguments -/

namespace CancellationLint

inductive ReportFormat where
  | text
  | json
  deriving DecidableEq, Repr

inductive Command where
  | check (paths : List PathName) (format : ReportFormat) (config : Option PathName)
  | fix (paths : List PathName) (dryRun showDiff : Bool) (config : Option PathName)
  deriving DecidableEq, Repr

/-- Why arguments are not a command to run. -/
inductive Refusal where
  | usage
  | help
  | version
  deriving DecidableEq, Repr

namespace Command

inductive Verb where
  | check
  | fix
  deriving DecidableEq, Repr

inductive Flag where
  | verbose
  | help
  | version
  | dryRun
  | showDiff
  | format
  | config
  deriving DecidableEq, Repr

/-- The flags of a verb, and those that stand before any verb, by their letters and words. -/
def flags : Option Verb → List (Option Char × String × Flag)
  | none => [(some 'v', "verbose", .verbose), (some 'h', "help", .help), (some 'V', "version", .version)]
  | some .check =>
    [(some 'v', "verbose", .verbose), (some 'h', "help", .help), (none, "format", .format),
      (some 'c', "config", .config)]
  | some .fix =>
    [(some 'v', "verbose", .verbose), (some 'h', "help", .help), (some 'n', "dry-run", .dryRun),
      (some 'd', "diff", .showDiff), (some 'c', "config", .config)]

def flagOfLetter? (verb : Option Verb) (c : Char) : Option Flag :=
  ((flags verb).find? fun f => f.1 = some c).map fun f => f.2.2

def flagOfWord? (verb : Option Verb) (word : String) : Option Flag :=
  ((flags verb).find? fun f => f.2.1 = word).map fun f => f.2.2

def Flag.takesValue : Flag → Bool
  | .format | .config => true
  | _ => false

/-- What was read so far. -/
structure Options where
  paths : List PathName := []
  format : Option ReportFormat := none
  config : Option PathName := none
  dryRun : Bool := false
  showDiff : Bool := false
  /-- A flag whose value comes next. -/
  awaiting : Option Flag := none
  /-- Everything that comes is a path. -/
  pathsOnly : Bool := false
  deriving Repr

namespace Options

/-- Sets a flag that takes no value. But for verbosity, none may be set twice. -/
def set (o : Options) : Flag → Except Refusal Options
  | .verbose => .ok o
  | .help => .error .help
  | .version => .error .version
  | .dryRun => if o.dryRun then .error .usage else .ok { o with dryRun := true }
  | .showDiff => if o.showDiff then .error .usage else .ok { o with showDiff := true }
  | .format | .config => .error .usage

def setValue (o : Options) (flag : Flag) (value : String) : Except Refusal Options :=
  match flag, o.format, o.config, value with
  | .format, none, _, "text" => .ok { o with format := some .text }
  | .format, none, _, "json" => .ok { o with format := some .json }
  | .config, _, none, value =>
    if value = "" then .error .usage else .ok { o with config := some { text := value } }
  | _, _, _, _ => .error .usage

def addPath (o : Options) (path : String) : Except Refusal Options :=
  if path = "" then .error .usage else .ok { o with paths := o.paths ++ [{ text := path }] }

/-- Reads letters behind one dash. A flag that takes a value takes the letters left, or else the
next argument; an equals sign in front of the value does not belong to it. -/
def readLetters (verb : Option Verb) (o : Options) : List Char → Except Refusal Options
  | [] => .ok o
  | c :: cs =>
    match flagOfLetter? verb c with
    | none => .error .usage
    | some flag =>
      if flag.takesValue then
        match cs with
        | [] => .ok { o with awaiting := some flag }
        | '=' :: value => o.setValue flag (String.ofList value)
        | value => o.setValue flag (String.ofList value)
      else (o.set flag).bind fun o => readLetters verb o cs

/-- Reads a word behind two dashes, with its value if there is an equals sign. -/
def readWord (verb : Option Verb) (o : Options) (cs : List Char) : Except Refusal Options :=
  let name := String.ofList (cs.takeWhile (· ≠ '='))
  match flagOfWord? verb name, cs.dropWhile (· ≠ '=') with
  | none, _ => .error .usage
  | some flag, [] => if flag.takesValue then .ok { o with awaiting := some flag } else o.set flag
  | some flag, _ :: value =>
    if flag.takesValue then o.setValue flag (String.ofList value) else .error .usage

/-- Reads the next argument. One dash alone is a path or a value like any other. -/
def read (verb : Option Verb) (o : Options) (argument : String) : Except Refusal Options :=
  if o.pathsOnly then o.addPath argument
  else
    match o.awaiting, argument.toList with
    | some _, '-' :: _ :: _ => .error .usage
    | some flag, _ => { o with awaiting := none }.setValue flag argument
    | none, ['-', '-'] => .ok { o with pathsOnly := true }
    | none, '-' :: '-' :: cs => o.readWord verb cs
    | none, '-' :: c :: cs => o.readLetters verb (c :: cs)
    | none, _ => o.addPath argument

end Options

/-- The command of a verb. A value that was to come must have come. -/
def ofOptions (o : Options) (verb : Verb) : Except Refusal Command :=
  if o.awaiting.isSome then .error .usage
  else
    match verb with
    | .check => .ok (.check o.paths (o.format.getD .text) o.config)
    | .fix => .ok (.fix o.paths o.dryRun o.showDiff o.config)

def ofRest (verb : Verb) (arguments : List String) : Except Refusal Command :=
  (arguments.foldlM (Options.read (some verb)) {}).bind fun o => ofOptions o verb

/-- Reads the arguments of a run: flags, a verb, and what belongs to the verb. -/
def ofArguments : List String → Except Refusal Command
  | [] => .error .usage
  | "check" :: rest => ofRest .check rest
  | "fix" :: rest => ofRest .fix rest
  | ["help"] | ["help", "check"] | ["help", "fix"] | ["help", "help"] => .error .help
  | argument :: rest =>
    match argument.toList with
    | '-' :: _ :: _ =>
      (Options.read none {} argument).bind fun o =>
        if o.pathsOnly then .error .usage else ofArguments rest
    | _ => .error .usage

end Command
end CancellationLint
