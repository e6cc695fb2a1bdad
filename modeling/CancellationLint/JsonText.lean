/-! # JSON text

A value is written as its lines, so that it can be indented inside of another one. -/

namespace CancellationLint.JsonText

/-- How a character is written in a text. -/
def escape (c : Char) : List Char :=
  match c with
  | '"' => ['\\', '"']
  | '\\' => ['\\', '\\']
  | '\n' => ['\\', 'n']
  | '\r' => ['\\', 'r']
  | '\t' => ['\\', 't']
  | '\x08' => ['\\', 'b']
  | '\x0c' => ['\\', 'f']
  | _ =>
    if c.toNat < 0x20 then
      ['\\', 'u', '0', '0', Nat.digitChar (c.toNat / 16), Nat.digitChar (c.toNat % 16)]
    else [c]

def quoted (s : String) : String := "\"" ++ String.ofList (s.toList.flatMap escape) ++ "\""

def text (s : String) : List String := [quoted s]

def number (n : Nat) : List String := [toString n]

/-- Ends a value with a comma. -/
def withComma : List String → List String
  | [] => []
  | [line] => [line ++ ","]
  | line :: rest => line :: withComma rest

/-- The lines of all values, with commas between them. -/
def separated : List (List String) → List String
  | [] => []
  | [value] => value
  | value :: rest => withComma value ++ separated rest

/-- Values between two brackets, two blanks further in. -/
def enclosed (left right : String) (values : List (List String)) : List String :=
  if values = [] then [left ++ right]
  else [left] ++ (separated values).map ("  " ++ ·) ++ [right]

def list (values : List (List String)) : List String := enclosed "[" "]" values

def field (name : String) : List String → List String
  | [] => []
  | line :: rest => (quoted name ++ ": " ++ line) :: rest

def record (fields : List (String × List String)) : List String :=
  enclosed "\x7b" "\x7d" (fields.map fun f => field f.1 f.2)

end CancellationLint.JsonText
