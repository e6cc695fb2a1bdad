import CancellationLint.Text.Blank

/-! # Names of types -/

namespace CancellationLint

/-- A type by its name as written and by its simple name. -/
structure TypeName where
  name : String
  qualified : String
  deriving DecidableEq, Repr, Inhabited

namespace TypeName

/-- What follows the last `::`, or else `kept`. -/
def afterAlias (kept : List Char) : List Char → List Char
  | [] => kept
  | ':' :: rest => afterAlias (if rest.head? = some ':' then rest.tail else kept) rest
  | _ :: rest => afterAlias kept rest

/-- What follows the last dot outside of angle brackets, given how deep in brackets the text starts.
A closing bracket too many is ignored. -/
def lastSegment (depth : Nat) (kept : List Char) : List Char → List Char
  | [] => kept
  | c :: rest =>
    if c = '<' then lastSegment (depth + 1) kept rest
    else if c = '>' then lastSegment (depth - 1) kept rest
    else if c = '.' && depth = 0 then lastSegment depth rest rest
    else lastSegment depth kept rest

/-- The name without alias, namespaces, containing types and type arguments. -/
def simpleName (qualified : String) : String :=
  let plain := afterAlias qualified.toList qualified.toList
  let last := lastSegment 0 plain plain
  String.ofList (Text.trim (last.takeWhile (· ≠ '<')))

def ofQualified (qualified : String) : TypeName := { name := simpleName qualified, qualified }

/-- The type that a declaration names, blanks aside. Implicitly typed declarations, tuples, arrays
and pointers name none; a nullable type is one of its own. -/
def ofDeclared? (text : String) : Option TypeName :=
  let compact := Text.compact text.toList
  if compact = [] || compact = ['v', 'a', 'r'] || compact.head? = some '(' ||
      compact.getLast? = some ']' || compact.getLast? = some '*' then none
  else if compact.getLast? = some '?' then
    some
      { name := "Nullable"
        qualified := "System.Nullable<" ++ String.ofList compact.dropLast ++ ">" }
  else some (ofQualified (String.ofList compact))

end TypeName
end CancellationLint
