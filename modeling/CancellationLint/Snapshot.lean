import CancellationLint.Concrete.Rows
import CancellationLint.Files.Store
import CancellationLint.Toml.Document

/-! # Snapshots of a workspace

A snapshot is a TOML document with the files of a workspace and the concrete trees of texts: the
table `files` gives a text for each name, and every table `parse` gives a `text` and the rows of its
tree as `nodes`. -/

namespace CancellationLint

structure Snapshot where
  store : FileStore
  grammar : Grammar

namespace Snapshot

open Toml (Item Entries)

/-- A row is given as kind, start, stop, flags and number of children. -/
def row? : Item → Option ConcreteRow
  | .array [.text kind, .integer start, .integer stop, .integer flags, .integer children] =>
    some { head := .ofFlags kind start.toNat stop.toNat flags.toNat, children := children.toNat }
  | _ => none

/-- A text with its tree. -/
def parse? (entries : Entries) : Option (String × Concrete) :=
  match entries.lookup "text", entries.lookup "nodes" with
  | some (.text text), some (.array nodes) =>
    ((nodes.mapM row?).bind Concrete.ofRows?).map fun tree => (text, tree)
  | _, _ => none

/-- The working directory of a snapshot, in which all of its files are. -/
def here : Place := ["workspace"]

/-- Adds a file, and the directories that it is in. -/
def addFile (store : FileStore) : String × Item → Option FileStore
  | (name, .text content) =>
    let place := here ++ (PathName.steps { text := name }).filterMap fun
      | .name part => some part
      | _ => none
    some ((store.makeDirectories place.dropLast).put place (.file content.toUTF8))
  | _ => none

def files? : Option Item → Option FileStore
  | some (.table _ files) => files.foldlM addFile (FileStore.makeDirectories ⟨[], here⟩ here)
  | none => some (FileStore.makeDirectories ⟨[], here⟩ here)
  | some _ => none

def grammar? : Option Item → Option Grammar
  | some (.tables parses) => (parses.mapM parse?).map fun known text => known.lookup text
  | none => some fun _ => none
  | some _ => none

def ofText? (source : String) : Option Snapshot := do
  let entries ← Toml.document? source
  let store ← files? (entries.lookup "files")
  let grammar ← grammar? (entries.lookup "parse")
  return { store, grammar }

end Snapshot
end CancellationLint
