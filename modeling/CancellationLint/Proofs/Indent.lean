import CancellationLint.Fix.Basic
import CancellationLint.Proofs.Locate

/-! # The indentation of a node

What the indentation of a node is read from: the tokens of the node and the last token before them,
wherever in the tree the two stand. -/

namespace CancellationLint

namespace Token

def ending? (ts : List Token) : Option String := ts.getLast?.map trailing

theorem ending?_append (as bs : List Token) : ending? (as ++ bs) = (ending? bs).or (ending? as) := by
  unfold ending?
  rw [List.getLast?_append]
  cases bs.getLast? <;> rfl

/-- The blanks before a row of tokens on its line, where the trivia before ends in `before?`. -/
def indent? (before? : Option String) (ts : List Token) : Option String :=
  ts.head?.bind fun first =>
    let parts := Text.splitLastLine first.leading.toList
    let startsLine := !parts.1.isEmpty || before?.all (·.endsWith "\n")
    if startsLine && parts.2.all (fun c => c = ' ' || c = '\t') then some (String.ofList parts.2)
    else none

end Token

namespace Cursor

theorem map_element_children (c : Cursor) : c.children.map Cursor.element = c.element.children := by
  refine List.ext_getElem? fun i => ?_
  rw [List.getElem?_map, children_getElem?, childAt?, Option.map_map]
  simp [Function.comp_def]

/-! ## The token before -/

theorem element_lastAmong_of {es : List Element}
    (hes : ∀ e ∈ es, ∀ offset above,
      (lastFrom offset above e).map Cursor.element = e.tokens.getLast?.map .token)
    (parent : Cursor) (k offset : Nat) :
    (lastAmong parent k offset es).map Cursor.element =
      (es.flatMap Element.tokens).getLast?.map .token := by
  induction es generalizing k offset with
  | nil => rfl
  | cons e es ih =>
    have hor : lastAmong parent k offset (e :: es) =
        (lastAmong parent (k + 1) (offset + e.width) es).or
          (lastFrom offset (parent.frames k) e) := by
      rw [lastAmong]
      cases lastAmong parent (k + 1) (offset + e.width) es <;> rfl
    rw [hor, List.flatMap_cons, List.getLast?_append, Option.map_or, Option.map_or,
      ih fun d hd => hes d (by simp [hd]), hes e (by simp)]

theorem element_lastFrom (offset : Nat) (above : List Frame) (e : Element) :
    (lastFrom offset above e).map Cursor.element = e.tokens.getLast?.map .token := by
  induction e generalizing offset above with
  | token t => rfl
  | node h es ih =>
    rw [lastFrom, Element.tokens_node]
    exact element_lastAmong_of ih _ _ _

theorem Of.element_prevToken {root : Element} {d : Cursor} (hd : Of root d) :
    d.prevToken?.map Cursor.element = (root.before d.path).getLast?.map .token := by
  induction hd with
  | root => rfl
  | @child c d i hc hi ih =>
    have hbefore : root.before d.path =
        root.before c.path ++ (c.element.children.take i).flatMap Element.tokens := by
      rw [path_childAt hi, Element.before_append hc.element_at,
        Element.before_cons (element_childAt hi)]
      simp [Element.before]
    have hor : d.prevToken? =
        (lastAmong c 0 c.offset (c.element.children.take i)).or c.prevToken? := by
      obtain ⟨e, -, rfl⟩ := childAt?_iff.1 hi
      unfold prevToken? frames
      rw [lastBefore]
      cases lastAmong c 0 c.offset (c.element.children.take i) <;> rfl
    rw [hor, hbefore, List.getLast?_append, Option.map_or, Option.map_or, ih,
      element_lastAmong_of fun e _ offset above => element_lastFrom offset above e]

theorem Of.ending_before {root : Element} {d : Cursor} (hd : Of root d) :
    Token.ending? (root.before d.path) = d.prevToken?.map (·.element.trailing) := by
  have htrailing := congrArg (Option.map Element.trailing) hd.element_prevToken
  rw [Option.map_map, Option.map_map] at htrailing
  exact htrailing.symm

/-! ## The first token -/

theorem element_firstAmong_of {es : List Element}
    (hes : ∀ e ∈ es, ∀ offset above,
      (firstFrom offset above e).map Cursor.element = e.tokens.head?.map .token)
    (parent : Cursor) (k offset : Nat) :
    (firstAmong parent k offset es).map Cursor.element =
      (es.flatMap Element.tokens).head?.map .token := by
  induction es generalizing k offset with
  | nil => rfl
  | cons e es ih =>
    have hor : firstAmong parent k offset (e :: es) =
        (firstFrom offset (parent.frames k) e).or
          (firstAmong parent (k + 1) (offset + e.width) es) := by
      rw [firstAmong]
      cases firstFrom offset (parent.frames k) e <;> rfl
    rw [hor, List.flatMap_cons, List.head?_append, Option.map_or, Option.map_or,
      ih fun d hd => hes d (by simp [hd]), hes e (by simp)]

theorem element_firstToken (c : Cursor) :
    c.firstToken?.map Cursor.element = c.element.tokens.head?.map .token := by
  obtain ⟨e, offset, above⟩ := c
  unfold firstToken?
  induction e generalizing offset above with
  | token t => rfl
  | node h es ih =>
    simp only at ih ⊢
    rw [firstFrom, Element.tokens_node]
    exact element_firstAmong_of ih _ _ _

theorem tokens_of_firstToken_none {c : Cursor} (h : c.firstToken? = none) :
    c.element.tokens = [] := by
  have hhead := c.element_firstToken
  rw [h] at hhead
  simpa using hhead.symm

theorem firstAmong_eq (parent : Cursor) (k offset : Nat) (es : List Element) :
    firstAmong parent k offset es =
      (childrenFrom parent k offset es).findSome? firstToken? := by
  induction es generalizing k offset with
  | nil => rfl
  | cons e es ih =>
    rw [firstAmong, childrenFrom, List.findSome?_cons, firstToken?]
    cases firstFrom offset (parent.frames k) e with
    | none => exact ih _ _
    | some d => rfl

theorem exists_path_firstToken {c d : Cursor} (h : c.firstToken? = some d) :
    ∃ p, at? p c = some d ∧ c.element.before p = [] := by
  obtain ⟨e, offset, above⟩ := c
  induction e generalizing offset above with
  | token t =>
    cases h
    exact ⟨[], rfl, rfl⟩
  | node g es ih =>
    have hfound : (children ⟨.node g es, offset, above⟩).findSome? firstToken? = some d := by
      rw [firstToken?, firstFrom, firstAmong_eq] at h
      exact h
    have hes := map_element_children ⟨.node g es, offset, above⟩
    obtain ⟨as, x, bs, hsplit, hx, has⟩ := List.findSome?_eq_some_iff.1 hfound
    have hi : childAt? ⟨.node g es, offset, above⟩ as.length = some x := by
      rw [← children_getElem?, hsplit]
      simp
    rw [hsplit, List.map_append, List.map_cons] at hes
    obtain ⟨p, hp, hbefore⟩ := ih x.element
      (List.mem_of_getElem? (element_childAt hi)) x.offset x.above hx
    refine ⟨as.length :: p, by rw [at?, hi]; exact hp, ?_⟩
    have hnone : (as.map Cursor.element).flatMap Element.tokens = [] := by
      rw [List.flatMap_map, List.flatMap_eq_nil_iff]
      exact fun y hy => tokens_of_firstToken_none (has y hy)
    rw [Element.before_cons (element_childAt hi), hbefore, ← hes]
    simp [hnone]

/-- The indentation of a node depends on its tokens and the token before them. -/
theorem Of.lineIndent_eq {root : Element} {c : Cursor} (hc : Of root c) :
    c.lineIndent? =
      Token.indent? (Token.ending? (root.before c.path)) c.element.tokens := by
  have hhead := c.element_firstToken
  unfold lineIndent? Token.indent?
  cases hfirst : c.firstToken? with
  | none =>
    rw [tokens_of_firstToken_none hfirst]
    rfl
  | some d =>
    rw [hfirst, Option.map_some, eq_comm, Option.map_eq_some_iff] at hhead
    obtain ⟨t, htokens, helem⟩ := hhead
    obtain ⟨p, hp, hbefore⟩ := exists_path_firstToken hfirst
    have hplace : root.before d.path = root.before c.path := by
      rw [path_at hp, Element.before_append hc.element_at, hbefore, List.append_nil]
    simp only [Option.bind_some, htokens, ← helem, Element.leading, ← hplace,
      (hc.at hp).ending_before]
    cases d.prevToken? <;> rfl

end Cursor
end CancellationLint
