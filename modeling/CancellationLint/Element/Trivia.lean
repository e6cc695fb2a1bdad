import CancellationLint.Element.Basic
import CancellationLint.Text.Cut

/-! # Outer trivia

The leading trivia of an element is that of its first token, and the trailing trivia that of its
last one. Changing either builds new objects along the way to that token. -/

namespace CancellationLint.Element

mutual

def leading : Element → String
  | .token t => t.leading
  | .node _ children => firstLeading children

def firstLeading : List Element → String
  | [] => ""
  | e :: rest => if e.hasTokens then e.leading else firstLeading rest

end

mutual

def trailing : Element → String
  | .token t => t.trailing
  | .node _ children => lastTrailing children

def lastTrailing : List Element → String
  | [] => ""
  | e :: rest =>
    if anyTokens rest then lastTrailing rest else if e.hasTokens then e.trailing else ""

end

/-- The text without the outer trivia. -/
def text : Element → String
  | .token t => t.text
  | e@(.node _ _) =>
    let start := e.leading.utf8ByteSize
    let stop := max (e.fullText.utf8ByteSize - e.trailing.utf8ByteSize) start
    (Text.slice? e.fullText start stop).getD ""

mutual

/-- The element with other leading trivia. -/
def withLeading (l : Label) (trivia : String) : Element → Element
  | .token t => .token { t with label := l, leading := trivia }
  | .node h children =>
    match withFirstLeading (l.sub 0) trivia children with
    | some (old, children) => .node (h.swap l old children) children
    | none => .node { h with label := l } children

/-- The first element with tokens, and the list with the trivia of that element changed. -/
def withFirstLeading (l : Label) (trivia : String) :
    List Element → Option (Element × List Element)
  | [] => none
  | e :: rest =>
    if e.hasTokens then some (e, withLeading l trivia e :: rest)
    else (withFirstLeading l trivia rest).map fun found => (found.1, e :: found.2)

end

mutual

/-- The element with other trailing trivia. -/
def withTrailing (l : Label) (trivia : String) : Element → Element
  | .token t => .token { t with label := l, trailing := trivia }
  | .node h children =>
    match withLastTrailing (l.sub 0) trivia children with
    | some (old, children) => .node (h.swap l old children) children
    | none => .node { h with label := l } children

/-- The last element with tokens, and the list with the trivia of that element changed. -/
def withLastTrailing (l : Label) (trivia : String) :
    List Element → Option (Element × List Element)
  | [] => none
  | e :: rest =>
    match withLastTrailing l trivia rest with
    | some found => some (found.1, e :: found.2)
    | none => if e.hasTokens then some (e, withTrailing l trivia e :: rest) else none

end

end CancellationLint.Element
