import CancellationLint.Files.Store
import CancellationLint.Text.Cut
import CancellationLint.Text.Span

/-! # Edits of texts

An edit replaces a span of bytes, and knows what the span held when the edit was planned. It is
refused when the span holds something else by now, unless that is already the new text. -/

namespace CancellationLint

/-- What is remembered of a text that is too long to be kept. -/
class Digest where
  ofText : String → Nat

/-- The characters of a text as digits, the first one last. -/
def Digest.number : List Char → Nat
  | [] => 0
  | c :: cs => c.toNat + 1 + 0x110001 * number cs

/-- A digest that loses nothing. -/
instance Digest.whole : Digest where
  ofText s := number s.toList

/-- What a span must hold before an edit: a text, or a text with a digest. -/
inductive Expected where
  | exact (text : String)
  | digest (digest : Nat)
  deriving DecidableEq, Repr

/-- Longer texts are remembered by their digest only. -/
def Expected.exactLimit : Nat := 1024

variable [Digest]

def Expected.ofText (text : String) : Expected :=
  if text.utf8ByteSize > exactLimit then .digest (Digest.ofText text) else .exact text

def Expected.admits : Expected → String → Bool
  | .exact expected, text => text = expected
  | .digest expected, text => Digest.ofText text = expected

structure Edit where
  file : PathName
  span : Span
  newText : String
  expected : Expected
  deriving DecidableEq, Repr

/-- Why edits are refused. -/
inductive EditError where
  | invalidRange (span : Span) (size : Nat)
  | splitsCharacter (file : PathName)
  | changed (file : PathName) (span : Span) (found : String)
  | overlap (file : PathName) (start : Nat)
  | unusable (file : PathName) (cause : FileError)
  | notText (file : PathName)
  deriving DecidableEq, Repr

def EditError.message : EditError → String
  | .invalidRange span size =>
    s!"invalid byte range [{span.start}, {span.stop}) in file of length {size}"
  | .splitsCharacter file => s!"edit would split a UTF-8 character in {file.text}"
  | .changed file span _ =>
    s!"{file.text} changed since it was analyzed (bytes {span.start}..{span.stop})"
  | .overlap file start => s!"overlapping edits in {file.text} at byte {start}"
  | .unusable file cause => s!"I/O error on {file.text}: {cause.message}"
  | .notText file => s!"{file.text} is not valid UTF-8"

namespace Edit

def ofTexts (file : PathName) (span : Span) (newText before : String) : Edit :=
  { file, span, newText, expected := .ofText before }

/-- Replaces a whole file that reads `before`. -/
def replaceFile (file : PathName) (before after : String) : Edit :=
  ofTexts file { start := 0, stop := before.utf8ByteSize } after before

/-- The text in the span, if the edit may be applied to `content`. -/
def current (edit : Edit) (content : String) : Except EditError String :=
  let span := edit.span
  if span.start > span.stop || span.stop > content.utf8ByteSize then
    .error (.invalidRange span content.utf8ByteSize)
  else
    match Text.slice? content span.start span.stop with
    | none => .error (.splitsCharacter edit.file)
    | some found =>
      if found = edit.newText || edit.expected.admits found then .ok found
      else .error (.changed edit.file span found)

/-- The content after the edit. -/
def applyTo (edit : Edit) (content : String) : Except EditError String :=
  (edit.current content).bind fun _ =>
    match Text.splice? content edit.span.start edit.span.stop edit.newText with
    | some result => .ok result
    | none => .error (.splitsCharacter edit.file)

end Edit
end CancellationLint
