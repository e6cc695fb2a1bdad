import CancellationLint.Files.Store

/-! # Guarding a workspace

Fixes stay inside of the workspace and out of some directories. Paths are judged by the place they
lead to, links followed. -/

namespace CancellationLint

inductive GuardError where
  | outside (file workspace : PathName)
  | forbidden (file : PathName) (directory : String)
  | unresolved (file : PathName) (cause : FileError)
  deriving DecidableEq, Repr

def GuardError.message : GuardError → String
  | .outside file workspace =>
    s!"path is outside workspace: {file.text} (workspace: {workspace.text})"
  | .forbidden file directory =>
    "path is in forbidden directory `" ++ directory ++ "`: " ++ file.text
  | .unresolved file cause => s!"failed to canonicalize {file.text}: {cause.message}"

structure Guard where
  root : Place
  forbidden : List String
  deriving DecidableEq, Repr

namespace Guard

def resolve (store : FileStore) (p : PathName) : Except GuardError Place :=
  match store.canonical p with
  | .ok place => .ok place
  | .error cause => .error (.unresolved p cause)

/-- The guard of a directory. -/
def ofRoot (store : FileStore) (root : PathName) (forbidden : List String) :
    Except GuardError Guard :=
  (resolve store root).map fun root => { root, forbidden }

/-- Judges a place. The last name is not the name of a directory on the way. -/
def checkPlace (guard : Guard) (place : Place) : Except GuardError Place :=
  if guard.root.isPrefixOf place then
    let directories := (place.drop guard.root.length).dropLast
    match directories.find? guard.forbidden.contains with
    | some directory => .error (.forbidden (.ofNames place) directory)
    | none => .ok place
  else .error (.outside (.ofNames place) (.ofNames guard.root))

/-- The place of a file that may be written to. A relative path is seen from the workspace. -/
def check (guard : Guard) (store : FileStore) (p : PathName) : Except GuardError Place :=
  (resolve store ((PathName.ofNames guard.root).join p)).bind guard.checkPlace

end Guard
end CancellationLint
