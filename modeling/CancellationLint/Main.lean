import CancellationLint.Command.Run
import CancellationLint.Snapshot

/-! # The command line

Runs a command on a snapshot of a workspace, which is read from standard input. -/

namespace CancellationLint

def usageText : String :=
  "usage: cancelcheck [-v] check [PATHS] [--format text|json] [-c FILE] < SNAPSHOT\n" ++
  "       cancelcheck [-v] fix [PATHS] [-n] [-d] [-c FILE] < SNAPSHOT\n"

partial def readAll (input : IO.FS.Stream) (text : String) : IO String := do
  let line ← input.getLine
  if line.isEmpty then return text else readAll input (text ++ line)

end CancellationLint

open CancellationLint

def main (arguments : List String) : IO UInt32 := do
  match Command.ofArguments arguments with
  | .error .version =>
    IO.print Command.versionText
    return 0
  | .error .help =>
    IO.print usageText
    return 0
  | .error .usage =>
    IO.eprint usageText
    return 2
  | .ok command =>
    match Snapshot.ofText? (← readAll (← IO.getStdin) "") with
    | none =>
      IO.eprintln "error: the snapshot cannot be read"
      return 2
    | some snapshot =>
      let outcome := command.run snapshot.grammar snapshot.store
      IO.print outcome.out
      outcome.messages.forM fun message => IO.eprintln message
      return outcome.status.toUInt32
