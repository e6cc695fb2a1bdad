/-! # Texts, keys and blanks of a TOML document

The readers take the characters that are left and give back what they read together with the rest. -/

namespace CancellationLint.Toml

/-- What a reader gives: a value and the rest of the characters. -/
abbrev Reader (α : Type) := List Char → Option (α × List Char)

/-- A character that may not stand for itself; a tab may. -/
def isControl (c : Char) : Bool := (c.toNat < 0x20 && c ≠ '\t') || c.toNat = 0x7F

def isSpace (c : Char) : Bool := c = ' ' || c = '\t'

def skipSpaces (cs : List Char) : List Char := cs.dropWhile isSpace

/-- The rest after a line break, which is a line feed or a carriage return with a line feed. -/
def lineBreak? : List Char → Option (List Char)
  | '\n' :: rest => some rest
  | '\r' :: '\n' :: rest => some rest
  | _ => none

/-- What follows the text of a comment, from the line break on. -/
def afterComment : List Char → Option (List Char)
  | [] => some []
  | '\n' :: rest => some ('\n' :: rest)
  | '\r' :: '\n' :: rest => some ('\r' :: '\n' :: rest)
  | c :: rest => if isControl c then none else afterComment rest

/-- What follows the end of a line: blanks, perhaps a comment, then a line break or the end. -/
def lineEnd? (cs : List Char) : Option (List Char) :=
  match skipSpaces cs with
  | [] => some []
  | '#' :: rest =>
    match afterComment rest with
    | some [] => some []
    | some rest => lineBreak? rest
    | none => none
  | cs => lineBreak? cs

/-- What follows blanks, line breaks and comments; `comment` tells whether the first character is in
one. -/
def skipLines (comment : Bool) : List Char → Option (List Char)
  | [] => some []
  | '\n' :: rest => skipLines false rest
  | '\r' :: '\n' :: rest => skipLines false rest
  | c :: rest =>
    if comment then if isControl c then none else skipLines true rest
    else if isSpace c then skipLines false rest
    else if c = '#' then skipLines true rest
    else some (c :: rest)

/-! ## Texts -/

def hexDigit? (c : Char) : Option Nat :=
  if '0' ≤ c && c ≤ '9' then some (c.toNat - '0'.toNat)
  else if 'a' ≤ c && c ≤ 'f' then some (c.toNat - 'a'.toNat + 10)
  else if 'A' ≤ c && c ≤ 'F' then some (c.toNat - 'A'.toNat + 10)
  else none

/-- The character with a hexadecimal code; surrogates are none. -/
def hexChar? (digits : List Char) : Option Char :=
  (digits.mapM hexDigit?).bind fun values =>
    let code := values.foldl (fun n d => n * 16 + d) 0
    if h : code.isValidChar then some (Char.ofNatAux code h) else none

/-- The character that a backslash and one letter stand for. -/
def escape? : Char → Option Char
  | 'b' => some '\x08'
  | 't' => some '\t'
  | 'n' => some '\n'
  | 'f' => some '\x0c'
  | 'r' => some '\r'
  | 'e' => some '\x1b'
  | '"' => some '"'
  | '\\' => some '\\'
  | _ => none

def push (c : Char) (read : Option (List Char × List Char)) : Option (List Char × List Char) :=
  read.map fun r => (c :: r.1, r.2)

/-- The rest of a text between double quotes. -/
def basicText : Reader (List Char)
  | [] => none
  | '"' :: rest => some ([], rest)
  | '\\' :: 'x' :: a :: b :: rest => (hexChar? [a, b]).bind fun c => push c (basicText rest)
  | '\\' :: 'u' :: a :: b :: c :: d :: rest =>
    (hexChar? [a, b, c, d]).bind fun c => push c (basicText rest)
  | '\\' :: 'U' :: a :: b :: c :: d :: e :: f :: g :: h :: rest =>
    (hexChar? [a, b, c, d, e, f, g, h]).bind fun c => push c (basicText rest)
  | '\\' :: c :: rest => (escape? c).bind fun c => push c (basicText rest)
  | c :: rest => if isControl c || c = '\\' then none else push c (basicText rest)

/-- The rest of a text between single quotes, in which nothing is escaped. -/
def literalText : Reader (List Char)
  | [] => none
  | c :: rest =>
    if c = '\'' then some ([], rest) else if isControl c then none else push c (literalText rest)

/-- Whether a line ends here but for blanks. -/
def endsLine (cs : List Char) : Bool := (lineBreak? (skipSpaces cs)).isSome

/-- The rest of a text between three double quotes. Up to two quotes may stand before the closing
ones, and a backslash at the end of a line hides what is blank up to the next other character, which
`skipping` stands for. -/
def basicLines (skipping : Bool) : Reader (List Char)
  | [] => none
  | '\r' :: '\n' :: rest => if skipping then basicLines true rest else push '\n' (basicLines false rest)
  | '"' :: '"' :: '"' :: '"' :: '"' :: rest => some (['"', '"'], rest)
  | '"' :: '"' :: '"' :: '"' :: rest => some (['"'], rest)
  | '"' :: '"' :: '"' :: rest => some ([], rest)
  | '\\' :: 'x' :: a :: b :: rest => (hexChar? [a, b]).bind fun c => push c (basicLines false rest)
  | '\\' :: 'u' :: a :: b :: c :: d :: rest =>
    (hexChar? [a, b, c, d]).bind fun c => push c (basicLines false rest)
  | '\\' :: 'U' :: a :: b :: c :: d :: e :: f :: g :: h :: rest =>
    (hexChar? [a, b, c, d, e, f, g, h]).bind fun c => push c (basicLines false rest)
  | '\\' :: c :: rest =>
    match escape? c with
    | some c => push c (basicLines false rest)
    | none => if endsLine (c :: rest) then basicLines true rest else none
  | c :: rest =>
    if skipping && (isSpace c || c = '\n') then basicLines true rest
    else if c = '\\' || (isControl c && c ≠ '\n') then none
    else push c (basicLines false rest)

/-- The rest of a text between three single quotes. -/
def literalLines : Reader (List Char)
  | [] => none
  | '\r' :: '\n' :: rest => push '\n' (literalLines rest)
  | '\'' :: '\'' :: '\'' :: '\'' :: '\'' :: rest => some (['\'', '\''], rest)
  | '\'' :: '\'' :: '\'' :: '\'' :: rest => some (['\''], rest)
  | '\'' :: '\'' :: '\'' :: rest => some ([], rest)
  | c :: rest => if isControl c && c ≠ '\n' then none else push c (literalLines rest)

/-- A line break right after the opening quotes is no part of the text. -/
def dropFirstBreak (cs : List Char) : List Char := (lineBreak? cs).getD cs

/-- A text on one line. -/
def lineText : Reader String
  | '"' :: rest => (basicText rest).map fun r => (String.ofList r.1, r.2)
  | '\'' :: rest => (literalText rest).map fun r => (String.ofList r.1, r.2)
  | _ => none

def text : Reader String
  | '"' :: '"' :: '"' :: rest =>
    (basicLines false (dropFirstBreak rest)).map fun r => (String.ofList r.1, r.2)
  | '\'' :: '\'' :: '\'' :: rest =>
    (literalLines (dropFirstBreak rest)).map fun r => (String.ofList r.1, r.2)
  | cs => lineText cs

/-! ## Keys -/

def isBare (c : Char) : Bool := c.isAlphanum || c = '_' || c = '-'

/-- One part of a key. -/
def simpleKey (cs : List Char) : Option (String × List Char) :=
  match cs.takeWhile isBare with
  | [] => lineText cs
  | bare => some (String.ofList bare, cs.dropWhile isBare)

/-- A key of one or more parts with dots between them; at most `limit` parts are read. -/
def keyWithin (limit : Nat) (cs : List Char) : Option (List String × String × List Char) :=
  match limit with
  | 0 => none
  | limit + 1 =>
    (simpleKey cs).bind fun first =>
      match skipSpaces first.2 with
      | '.' :: rest =>
        (keyWithin limit (skipSpaces rest)).map fun others =>
          (first.1 :: others.1, others.2.1, others.2.2)
      | _ => some ([], first.1, first.2)

/-- How deep arrays and tables may stand in each other, and how many parts a key may have. -/
def nestingLimit : Nat := 80

/-- A key: the parts before the last, the last part, and the rest. -/
def key (cs : List Char) : Option (List String × String × List Char) := keyWithin nestingLimit cs

end CancellationLint.Toml
