import CancellationLint.Toml.Item
import CancellationLint.Toml.Moment
import CancellationLint.Toml.Number

/-! # Reading a TOML document -/

namespace CancellationLint.Toml

/-! ## Values -/

def isWordPart (c : Char) : Bool := isBare c || c = '+' || c = '.' || c = ':'

/-- The characters of a value without quotes or brackets. A time may follow a date after one space. -/
def word (cs : List Char) : List Char × List Char :=
  let first := cs.takeWhile isWordPart
  match cs.dropWhile isWordPart with
  | ' ' :: rest =>
    if isDate first && (rest.head?).any Char.isDigit then
      (first ++ ' ' :: rest.takeWhile isWordPart, rest.dropWhile isWordPart)
    else (first, ' ' :: rest)
  | rest => (first, rest)

/-- The value that a word stands for. -/
def ofWord? (cs : List Char) : Option Item :=
  if cs = ['t', 'r', 'u', 'e'] then some (.boolean true)
  else if cs = ['f', 'a', 'l', 's', 'e'] then some (.boolean false)
  else
    match integer? cs with
    | some n => some (.integer n)
    | none =>
      if isFloat cs then some (.float (String.ofList cs))
      else if isMoment cs then some (.moment (String.ofList cs))
      else none

/-- What stands on either side of an equals sign: blanks, and between braces also line breaks and
comments. -/
def skipGap (between : Bool) (cs : List Char) : Option (List Char) :=
  if between then skipLines false cs else some (skipSpaces cs)

mutual

/-- A value, in which `depth` arrays and tables may stand in each other. Each step into one, and to
the next entry of one, takes fuel. -/
def value (fuel depth : Nat) (cs : List Char) : Option (Item × List Char) :=
  match fuel with
  | 0 => none
  | fuel + 1 =>
    match cs, depth with
    | '"' :: _, _ | '\'' :: _, _ => (text cs).map fun r => (.text r.1, r.2)
    | '[' :: _, 0 | '\x7b' :: _, 0 => none
    | '[' :: rest, depth + 1 =>
      (arrayItems fuel depth [] rest).map fun r => (.array r.1, r.2)
    | '\x7b' :: rest, depth + 1 =>
      (inlineEntries fuel depth [] rest).map fun r => (.inline r.1, r.2)
    | cs, _ => (ofWord? (word cs).1).map fun item => (item, (word cs).2)

/-- The items up to the closing bracket, after those already read. A comma may follow the last. -/
def arrayItems (fuel depth : Nat) (items : List Item) (cs : List Char) :
    Option (List Item × List Char) :=
  match fuel with
  | 0 => none
  | fuel + 1 =>
    match skipLines false cs with
    | some (']' :: rest) => some (items, rest)
    | some cs =>
      (value fuel depth cs).bind fun read =>
        match skipLines false read.2 with
        | some (',' :: rest) => arrayItems fuel depth (items ++ [read.1]) rest
        | some (']' :: rest) => some (items ++ [read.1], rest)
        | _ => none
    | none => none

/-- The entries up to the closing brace, after those already read. A comma may follow the last. -/
def inlineEntries (fuel depth : Nat) (entries : Entries) (cs : List Char) :
    Option (Entries × List Char) :=
  match fuel with
  | 0 => none
  | fuel + 1 =>
    match skipLines false cs with
    | some ('\x7d' :: rest) => some (entries, rest)
    | some cs =>
      (keyValue fuel depth true cs).bind fun read =>
        (Entries.addDotted read.1.2.1 read.1.2.2 read.1.1 entries).bind fun entries =>
          match skipLines false read.2 with
          | some (',' :: rest) => inlineEntries fuel depth entries rest
          | some ('\x7d' :: rest) => some (entries, rest)
          | _ => none
    | none => none

/-- A key, an equals sign and a value, which stand between braces or on a line of their own. -/
def keyValue (fuel depth : Nat) (between : Bool) (cs : List Char) :
    Option ((List String × String × Item) × List Char) :=
  match fuel with
  | 0 => none
  | fuel + 1 =>
    (key cs).bind fun k =>
      match skipGap between k.2.2 with
      | some ('=' :: rest) =>
        (skipGap between rest).bind fun rest =>
          (value fuel depth rest).map fun v => ((k.1, k.2.1, v.1), v.2)
      | _ => none

end

/-! ## Documents -/

/-- The key of a header between its brackets. -/
def headerKey (cs : List Char) : Option (List String × String × List Char) :=
  (key (skipSpaces cs)).map fun k => (k.1, k.2.1, skipSpaces k.2.2)

/-- Reads the lines of a document one by one, each of which takes fuel. `header` is the path of the
table that keys go to. -/
def lines (fuel : Nat) (header : List String) (root : Entries) (cs : List Char) : Option Entries :=
  match fuel with
  | 0 => none
  | fuel + 1 =>
    match skipLines false cs with
    | none => none
    | some [] => some root
    | some ('[' :: '[' :: rest) =>
      (headerKey rest).bind fun k =>
        (root.extend k.1 k.2.1).bind fun root =>
          match k.2.2 with
          | ']' :: ']' :: rest =>
            (lineEnd? rest).bind (lines fuel (k.1 ++ [k.2.1]) root)
          | _ => none
    | some ('[' :: rest) =>
      (headerKey rest).bind fun k =>
        (root.define k.1 k.2.1).bind fun root =>
          match k.2.2 with
          | ']' :: rest => (lineEnd? rest).bind (lines fuel (k.1 ++ [k.2.1]) root)
          | _ => none
    | some cs =>
      (keyValue cs.length.succ nestingLimit false cs).bind fun read =>
        (root.within (Entries.addDotted read.1.2.1 read.1.2.2 read.1.1) header).bind fun root =>
          (lineEnd? read.2).bind (lines fuel header root)

/-- The table of a document. A byte order mark in front is dropped. -/
def document? (source : String) : Option Entries :=
  let cs := source.toList
  let cs := if cs.head? = some '\ufeff' then cs.tail else cs
  lines (cs.length + 1) [] [] cs

end CancellationLint.Toml
