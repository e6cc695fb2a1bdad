import CancellationLint.Cursor.Basic

/-! # Finding tokens

First and last token of an element, the token at an offset, and the token before another one. -/

namespace CancellationLint.Cursor

mutual

def firstFrom (offset : Nat) (above : List Frame) : Element → Option Cursor
  | .token t => some { element := .token t, offset, above }
  | .node h children =>
    firstAmong { element := .node h children, offset, above } 0 offset children

/-- The first token among consecutive children of `parent`. -/
def firstAmong (parent : Cursor) : Nat → Nat → List Element → Option Cursor
  | _, _, [] => none
  | index, offset, e :: rest =>
    match firstFrom offset (parent.frames index) e with
    | some found => some found
    | none => firstAmong parent (index + 1) (offset + e.width) rest

end

mutual

def lastFrom (offset : Nat) (above : List Frame) : Element → Option Cursor
  | .token t => some { element := .token t, offset, above }
  | .node h children =>
    lastAmong { element := .node h children, offset, above } 0 offset children

/-- The last token among consecutive children of `parent`. -/
def lastAmong (parent : Cursor) : Nat → Nat → List Element → Option Cursor
  | _, _, [] => none
  | index, offset, e :: rest =>
    match lastAmong parent (index + 1) (offset + e.width) rest with
    | some found => some found
    | none => lastFrom offset (parent.frames index) e

end

mutual

/-- Goes down to the token at `target` through the first child whose full span contains it. -/
def tokenFrom (target offset : Nat) (above : List Frame) : Element → Option Cursor
  | .token t => some { element := .token t, offset, above }
  | .node h children =>
    tokenAmong target { element := .node h children, offset, above } 0 offset children

def tokenAmong (target : Nat) (parent : Cursor) : Nat → Nat → List Element → Option Cursor
  | _, _, [] => none
  | index, offset, e :: rest =>
    if offset ≤ target && target < offset + e.width then
      tokenFrom target offset (parent.frames index) e
    else tokenAmong target parent (index + 1) (offset + e.width) rest

end

def firstToken? (c : Cursor) : Option Cursor := firstFrom c.offset c.above c.element

def lastToken? (c : Cursor) : Option Cursor := lastFrom c.offset c.above c.element

/-- The token whose full span contains `target`; at the very end, the last token. -/
def tokenAt? (c : Cursor) (target : Nat) : Option Cursor :=
  if target = c.fullSpan.stop then c.lastToken?
  else if c.fullSpan.contains target then tokenFrom target c.offset c.above c.element
  else none

/-- The last token before the way down that the frames describe. -/
def lastBefore : List Frame → Option Cursor
  | [] => none
  | f :: above =>
    let parent : Cursor := { element := f.node, offset := f.offset, above }
    match lastAmong parent 0 f.offset (f.node.children.take f.index) with
    | some found => some found
    | none => lastBefore above

/-- The token right before this one in document order. -/
def prevToken? (c : Cursor) : Option Cursor := lastBefore c.above

end CancellationLint.Cursor
