import CancellationLint.Toml.Scalar

/-! # Numbers of a TOML document

A number is read from the word that it has to fill. -/

namespace CancellationLint.Toml

/-- Digits in which single underscores may stand between two of them. -/
def digits? (radix : Nat) : List Char → Option Nat
  | [] => none
  | cs =>
    let groups := cs.splitOn '_'
    if groups.any List.isEmpty then none
    else
      ((groups.flatten).mapM hexDigit?).bind fun values =>
        if values.all (· < radix) then some (values.foldl (fun n d => n * radix + d) 0) else none

def dropSign : List Char → List Char
  | '+' :: cs | '-' :: cs => cs
  | cs => cs

/-- Decimal digits of which the first is no needless zero. -/
def plainDigits? (cs : List Char) : Option Nat :=
  if cs.head? = some '0' && cs.length > 1 then none else digits? 10 cs

/-- The value of decimal digits with the sign in front of them. -/
def withSign (word : List Char) (n : Nat) : Int := if word.head? = some '-' then -(n : Int) else n

/-! ## Whole numbers -/

/-- A whole number of 64 bits. -/
def integer? (word : List Char) : Option Int :=
  let value : Option Int := match word with
    | '0' :: 'x' :: ds => (digits? 16 ds).map Int.ofNat
    | '0' :: 'o' :: ds => (digits? 8 ds).map Int.ofNat
    | '0' :: 'b' :: ds => (digits? 2 ds).map Int.ofNat
    | _ => (plainDigits? (dropSign word)).map (withSign word)
  value.filter fun n => -Int.pow 2 63 ≤ n && n < Int.pow 2 63

/-! ## Floating-point numbers -/

/-- The number `digits * 10 ^ power`. -/
structure Decimal where
  digits : Nat
  power : Int
  deriving DecidableEq, Repr

/-- From here on numbers are rounded up to infinity: the middle between the largest number of 64 bits
and the next power of two. -/
def overflowLimit : Nat := Nat.pow 2 1024 - Nat.pow 2 970

/-- Whether a number of 64 bits is near. Most numbers are decided by the place of their first digit. -/
def Decimal.isFinite (d : Decimal) : Bool :=
  let top := (Nat.toDigits 10 d.digits).length + d.power
  if d.digits = 0 || top < 308 then true
  else if top > 310 then false
  else d.digits * Nat.pow 10 d.power.toNat < overflowLimit * Nat.pow 10 (-d.power).toNat

def isPowerMark (c : Char) : Bool := c = 'e' || c = 'E'

/-- The digits behind a point, with their number. -/
def fraction? : List Char → Option (Nat × Nat)
  | [] => some (0, 0)
  | _ :: ds => (digits? 10 ds).map fun n => (n, (ds.filter (· ≠ '_')).length)

/-- The power of ten behind its mark. -/
def power? : List Char → Option Int
  | [] => some 0
  | _ :: ds => (digits? 10 (dropSign ds)).map (withSign ds)

/-- A number without sign that has a point or a power of ten. -/
def decimal? (cs : List Char) : Option Decimal :=
  let mantissa := cs.takeWhile fun c => !isPowerMark c
  let mark := cs.dropWhile fun c => !isPowerMark c
  let point := mantissa.dropWhile (· ≠ '.')
  if point = [] && mark = [] then none
  else do
    let whole ← plainDigits? (mantissa.takeWhile (· ≠ '.'))
    let fraction ← fraction? point
    let power ← power? mark
    return { digits := whole * Nat.pow 10 fraction.2 + fraction.1, power := power - fraction.2 }

def isFloat (word : List Char) : Bool :=
  let cs := dropSign word
  cs = ['i', 'n', 'f'] || cs = ['n', 'a', 'n'] || (decimal? cs).any Decimal.isFinite

end CancellationLint.Toml
