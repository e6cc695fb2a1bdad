import CancellationLint.Edit.Basic

/-! # Edits of files

The edits of a batch are applied file by file, each file being written once. All edits of a file are
checked against its content before it is written, so a file gets all of its edits or none. -/

namespace CancellationLint

inductive EditOutcome where
  | applied (file : PathName) (size : Nat)
  | already (file : PathName)
  deriving DecidableEq, Repr

namespace Edit

/-- By file, and in a file from the end to the start. -/
def before (a b : Edit) : Bool :=
  match a.file.compare b.file with
  | .lt => true
  | .eq => b.span.start ≤ a.span.start
  | .gt => false

/-- The start of an edit that the next one, which starts no later, reaches into. -/
def overlap? : List Edit → Option Nat
  | later :: earlier :: rest =>
    if earlier.span.stop > later.span.start then some later.span.start
    else overlap? (earlier :: rest)
  | _ => none

variable [Digest]

/-- Works edits into `content`, starting from the last; each is checked against the file's content
before any edit. -/
def weave (file : PathName) (whole content : String) :
    List Edit → Except EditError (String × List EditOutcome)
  | [] => .ok (content, [])
  | edit :: rest =>
    (edit.current whole).bind fun found =>
      if found = edit.newText then
        (weave file whole content rest).map fun r => (r.1, .already file :: r.2)
      else
        match Text.splice? content edit.span.start edit.span.stop edit.newText with
        | none => .error (.splitsCharacter file)
        | some content =>
          (weave file whole content rest).map fun r =>
            (r.1, .applied file edit.newText.utf8ByteSize :: r.2)

/-- Applies the edits of one file, which come from the end to the start. -/
def applyFile (store : FileStore) (file : PathName) (edits : List Edit) :
    Except EditError (List EditOutcome × FileStore) :=
  match store.read file with
  | .error cause => .error (.unusable file cause)
  | .ok bytes =>
    match String.fromUTF8? bytes with
    | none => .error (.notText file)
    | some content =>
      match overlap? edits with
      | some start => .error (.overlap file start)
      | none =>
        (weave file content content edits).bind fun woven =>
          if woven.1 = content then .ok (woven.2, store)
          else
            match store.replace file woven.1.toUTF8 with
            | .ok store => .ok (woven.2, store)
            | .error cause => .error (.unusable file cause)

/-- Applies one edit to its file. -/
def apply (edit : Edit) (store : FileStore) : Except EditError (EditOutcome × FileStore) :=
  (applyFile store edit.file [edit]).map fun r => (r.1.headD (.already edit.file), r.2)

/-- Applies groups of edits, one file each, up to the first that fails. What was written before that
stays written. -/
def applyGroups (store : FileStore) : List (List Edit) → Except EditError (List EditOutcome) × FileStore
  | [] => (.ok [], store)
  | [] :: rest => applyGroups store rest
  | (edit :: edits) :: rest =>
    match applyFile store edit.file (edit :: edits) with
    | .error e => (.error e, store)
    | .ok (outcomes, store) =>
      let others := applyGroups store rest
      (others.1.map (outcomes ++ ·), others.2)

/-- Applies edits of any number of files. -/
def applyBatch (store : FileStore) (edits : List Edit) :
    Except EditError (List EditOutcome) × FileStore :=
  applyGroups store ((edits.mergeSort before).splitBy fun a b => a.file.same b.file)

end Edit
end CancellationLint
