import CancellationLint.Text.Unprintable

/-! # Quoted texts

A text between double quotes in which whatever would not show as itself is written as an escape. -/

namespace CancellationLint.Text

/-- How a character is written. Backslashes and double quotes get a backslash. -/
def escapeChar (c : Char) : List Char :=
  if c = '\x00' then ['\\', '0']
  else if c = '\t' then ['\\', 't']
  else if c = '\n' then ['\\', 'n']
  else if c = '\r' then ['\\', 'r']
  else if c = '\\' || c = '"' then ['\\', c]
  else if isUnprintable c then
    ['\\', 'u', '\x7b'] ++ Nat.toDigits 16 c.toNat ++ ['\x7d']
  else [c]

def quoted (s : String) : String := String.ofList ('"' :: s.toList.flatMap escapeChar ++ ['"'])

end CancellationLint.Text
