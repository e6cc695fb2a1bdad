import CancellationLint.Fix.Basic
import CancellationLint.Proofs.Shape

/-! # Finding a statement by an offset

The search for the token at an offset ends at a cursor of the tree, and finds every token that has a
byte there. An if statement that starts with a token of its own is found by the offset of that
token. -/

namespace CancellationLint
namespace Cursor

/-! ## The token at an offset -/

theorem tokenAmong_eq (target : Nat) (parent : Cursor) (k offset : Nat) (es : List Element) :
    tokenAmong target parent k offset es =
      ((childrenFrom parent k offset es).find? fun d => d.fullSpan.contains target).bind fun d =>
        tokenFrom target d.offset d.above d.element := by
  induction es generalizing k offset with
  | nil => rfl
  | cons e es ih =>
    rw [tokenAmong, childrenFrom, ih]
    by_cases h : (fullSpan { element := e, offset, above := parent.frames k }).contains target
    · rw [List.find?_cons_of_pos (p := fun d : Cursor => d.fullSpan.contains target) h]
      exact if_pos h
    · rw [List.find?_cons_of_neg (p := fun d : Cursor => d.fullSpan.contains target) h]
      exact if_neg h

theorem tokenFrom_of_isNode {c : Cursor} (target : Nat) (h : c.isNode = true) :
    tokenFrom target c.offset c.above c.element =
      (c.children.find? fun d => d.fullSpan.contains target).bind fun d =>
        tokenFrom target d.offset d.above d.element := by
  obtain ⟨e, offset, above⟩ := c
  cases e with
  | token t => cases h
  | node g es => rw [tokenFrom, tokenAmong_eq]; rfl

theorem lastAmong_eq (parent : Cursor) (k offset : Nat) (es : List Element) :
    lastAmong parent k offset es =
      (childrenFrom parent k offset es).reverse.findSome? lastToken? := by
  induction es generalizing k offset with
  | nil => rfl
  | cons e es ih =>
    rw [lastAmong, childrenFrom, List.reverse_cons, List.findSome?_append, ih]
    cases (childrenFrom parent (k + 1) (offset + e.width) es).reverse.findSome? lastToken? with
    | none => simp [lastToken?]
    | some d => rfl

theorem lastToken?_of_isNode {c : Cursor} (h : c.isNode = true) :
    c.lastToken? = c.children.reverse.findSome? lastToken? := by
  obtain ⟨e, offset, above⟩ := c
  cases e with
  | token t => cases h
  | node g es => rw [lastToken?, lastFrom, lastAmong_eq]; rfl

theorem Of.tokenFrom {root : Element} {target : Nat} {c d : Cursor} (hc : Of root c)
    (h : Cursor.tokenFrom target c.offset c.above c.element = some d) : Of root d := by
  obtain ⟨e, offset, above⟩ := c
  induction e generalizing offset above with
  | token t =>
    cases h
    exact hc
  | node g es ih =>
    rw [tokenFrom_of_isNode target rfl] at h
    obtain ⟨x, hx, hd⟩ := Option.bind_eq_some_iff.1 h
    obtain ⟨i, hi⟩ := mem_children_iff.1 (List.mem_of_find?_eq_some hx)
    exact ih x.element (List.mem_of_getElem? (element_childAt hi)) _ _ (hc.child hi) hd

theorem Of.lastToken {root : Element} {c d : Cursor} (hc : Of root c) (h : c.lastToken? = some d) :
    Of root d := by
  obtain ⟨e, offset, above⟩ := c
  induction e generalizing offset above with
  | token t =>
    cases h
    exact hc
  | node g es ih =>
    rw [lastToken?_of_isNode rfl] at h
    obtain ⟨x, hx, hd⟩ := List.exists_of_findSome?_eq_some h
    obtain ⟨i, hi⟩ := mem_children_iff.1 (List.mem_reverse.1 hx)
    exact ih x.element (List.mem_of_getElem? (element_childAt hi)) _ _ (hc.child hi) hd

theorem Of.tokenAt {root : Element} {target : Nat} {c d : Cursor} (hc : Of root c)
    (h : c.tokenAt? target = some d) : Of root d := by
  unfold tokenAt? at h
  split at h
  · exact hc.lastToken h
  · split at h
    · exact hc.tokenFrom h
    · cases h

theorem widthOf_take_mono {es : List Element} {i j : Nat} (h : i ≤ j) :
    Element.widthOf (es.take i) ≤ Element.widthOf (es.take j) := by
  induction es generalizing i j with
  | nil => simp
  | cons e es ih =>
    cases i with
    | zero => simp [Element.widthOf]
    | succ i =>
      cases j with
      | zero => omega
      | succ j =>
        simp only [List.take_succ_cons, Element.widthOf]
        have := @ih i j (by omega)
        omega

theorem widthOf_take_succ {es : List Element} {i : Nat} {e : Element} (h : es[i]? = some e) :
    Element.widthOf (es.take (i + 1)) = Element.widthOf (es.take i) + e.width := by
  induction es generalizing i with
  | nil => cases h
  | cons d es ih =>
    cases i with
    | zero =>
      cases h
      simp [Element.widthOf]
    | succ i =>
      simp only [List.take_succ_cons, Element.widthOf, ih h]
      omega

theorem stop_le_offset {c x y : Cursor} {i j : Nat} (hx : c.childAt? i = some x)
    (hy : c.childAt? j = some y) (hij : i < j) : x.fullSpan.stop ≤ y.offset := by
  obtain ⟨e, he, rfl⟩ := childAt?_iff.1 hx
  obtain ⟨f, hf, rfl⟩ := childAt?_iff.1 hy
  have hmono := @widthOf_take_mono c.element.children (i + 1) j hij
  rw [widthOf_take_succ he] at hmono
  simp only [fullSpan]
  omega

theorem contains_iff {s : Span} {target : Nat} :
    s.contains target = true ↔ s.start ≤ target ∧ target < s.stop := by
  simp [Span.contains]

theorem fullSpan_at {p : Path} {c d : Cursor} (hc : c.element.sound = true) (h : at? p c = some d) :
    c.offset ≤ d.offset ∧ d.fullSpan.stop ≤ c.fullSpan.stop := by
  have hoff := offset_at hc h
  have hd : d.element.sound = true := Element.all_at hc (element_at h)
  have htok := congrArg (fun ts => (Token.fullOf ts).utf8ByteSize) (Element.tokens_at (element_at h))
  simp only [Token.fullOf_append, String.utf8ByteSize_append] at htok
  simp only [fullSpan, Element.width_eq hc, Element.width_eq hd, Element.fullText_eq]
  omega

/-- The search finds the token that has a byte at the offset. -/
theorem tokenFrom_eq {p : Path} {target : Nat} {c d : Cursor} (hc : c.element.sound = true)
    (h : at? p c = some d) (hd : d.isNode = false) (hlo : d.offset ≤ target)
    (hhi : target < d.fullSpan.stop) :
    Cursor.tokenFrom target c.offset c.above c.element = some d := by
  induction p generalizing c with
  | nil =>
    cases h
    obtain ⟨e, offset, above⟩ := d
    cases e with
    | token t => rfl
    | node g es => cases hd
  | cons i p ih =>
    obtain ⟨x, hx, hp⟩ := Option.bind_eq_some_iff.1 h
    have hxs : x.element.sound = true :=
      Element.all_of_mem hc (List.mem_of_getElem? (element_childAt hx))
    obtain ⟨hstart, hstop⟩ := fullSpan_at hxs hp
    -- The children before `x` end before the offset, so `x` is the first that contains it.
    have hfind : (c.children.find? fun d => d.fullSpan.contains target) = some x := by
      obtain ⟨hi, hxi⟩ := List.getElem?_eq_some_iff.1 ((children_getElem? c i).trans hx)
      refine List.find?_eq_some_iff_getElem.2
        ⟨contains_iff.2 ⟨hstart.trans hlo, hhi.trans_le hstop⟩, i, hi, hxi, fun j hj => ?_⟩
      have hy := (children_getElem? c j).symm.trans (List.getElem?_eq_getElem (hj.trans hi))
      have hend := stop_le_offset hy hx hj
      rw [Bool.not_eq_true', ← Bool.not_eq_true, contains_iff]
      omega
    rw [tokenFrom_of_isNode target (isNode_of_childAt hx), hfind, Option.bind_some]
    exact ih hxs hp

theorem isNode_of_mem_onFrames {root : Element} {c s : Cursor} (hc : Of root c)
    (hs : s ∈ onFrames c.above) : s.isNode = true := by
  induction hc with
  | root => cases hs
  | child hc hd ih =>
    rw [onFrames_childAt hd, List.mem_cons] at hs
    rcases hs with rfl | hs
    · exact isNode_of_childAt hd
    · exact ih hs

theorem isNode_of_mem_enclosing {root : Element} {c s : Cursor} (hc : Of root c)
    (hs : s ∈ c.enclosing) : s.isNode = true := by
  unfold enclosing at hs
  split at hs
  · rcases List.mem_cons.1 hs with rfl | hs
    · assumption
    · exact isNode_of_mem_onFrames hc hs
  · exact isNode_of_mem_onFrames hc hs

end Cursor

/-! ## The statement at an offset -/

namespace Element

def ifLed (e : Element) : Bool :=
  !(e.isNode && e.kind = .ifStatement) || (e.children.find? hasTokens).all fun
    | .token t => t.text ≠ ""
    | .node _ _ => false

theorem exists_firstToken {e : Element} (hled : e.ifLed = true) (hnode : e.isNode = true)
    (hkind : e.kind = .ifStatement) (htokens : e.tokens ≠ []) :
    ∃ i t, e.children[i]? = some (.token t) ∧ (e.children.take i).flatMap tokens = [] ∧
      t.text ≠ "" := by
  have hany : e.children.any hasTokens = true := by
    cases e with
    | token t => cases hnode
    | node g es => rwa [children, ← anyTokens_eq, anyTokens_iff, ← tokens_node g es]
  obtain ⟨x, hx⟩ := Option.isSome_iff_exists.1 (List.find?_isSome.2 (List.any_eq_true.1 hany))
  simp only [ifLed, hnode, hkind, hx, Option.all_some, decide_true, Bool.and_self, Bool.not_true,
    Bool.false_or] at hled
  obtain ⟨-, i, hi, rfl, hbefore⟩ := List.find?_eq_some_iff_getElem.1 hx
  split at hled
  · rename_i t heq
    refine ⟨i, t, by rw [List.getElem?_eq_getElem hi, heq], ?_, by simpa using hled⟩
    refine List.flatMap_eq_nil_iff.2 fun d hd => ?_
    obtain ⟨j, hj, rfl⟩ := List.getElem_of_mem hd
    rw [List.length_take] at hj
    rw [List.getElem_take]
    exact tokens_eq_nil (by simpa using hbefore j (by omega))
  · cases hled

end Element

/-- The first token of such an if statement is right below it, and starts where it starts. -/
theorem Cursor.exists_firstChild {c : Cursor} (hc : c.element.sound = true)
    (hled : c.element.ifLed = true) (hnode : c.isNode = true) (hkind : c.kind = .ifStatement)
    (htokens : c.element.tokens ≠ []) :
    ∃ i d t, c.childAt? i = some d ∧ d.element = .token t ∧ t.text ≠ "" ∧
      (c.element.children.take i).flatMap Element.tokens = [] ∧ d.span.start = c.span.start := by
  obtain ⟨i, t, hi, hnone, htext⟩ := Element.exists_firstToken hled hnode hkind htokens
  refine ⟨i, _, t, childAt?_iff.2 ⟨_, hi, rfl⟩, rfl, htext, hnone, ?_⟩
  have hlead : c.element.leading = t.leading := by
    rw [Element.leading_eq, Element.tokens_of_child hi, hnone]
    rfl
  rw [span_eq hc, hlead, span, widthOf_eq fun e he => Element.all_of_mem hc (List.mem_of_mem_take he),
    hnone]
  rfl

namespace Tree

theorem of_locate {t : Tree} {offset : Nat} {c : Cursor} (h : t.locate offset = .ok c) :
    Cursor.Of t.root c ∧ c.isNode = true ∧ c.kind = .ifStatement := by
  unfold locate at h
  split at h
  · rename_i statement hfound
    cases h
    obtain ⟨token, htoken, hfind⟩ := Option.bind_eq_some_iff.1 hfound
    have hof := Cursor.Of.root.tokenAt htoken
    have hmem := List.mem_of_find?_eq_some hfind
    refine ⟨hof.enclosing hmem, ?_, by simpa using List.find?_some hfind⟩
    exact Cursor.isNode_of_mem_enclosing hof hmem
  · cases h

/-- An if statement that starts with a token of its own is found by its start. -/
theorem locate_start {t : Tree} {c : Cursor} (ht : t.root.sound = true)
    (hled : t.root.all Element.ifLed = true) (hc : Cursor.Of t.root c) (hnode : c.isNode = true)
    (hkind : c.kind = .ifStatement) (htokens : c.element.tokens ≠ []) :
    t.locate c.span.start = .ok c := by
  obtain ⟨i, d, tk, hd, helem, htext, -, hstart⟩ := Cursor.exists_firstChild (hc.sound ht)
    (Element.test_of_all (Element.all_at hled hc.element_at)) hnode hkind htokens
  have hpath : Cursor.at? (c.path ++ [i]) t.cursor = some d := by
    rw [Cursor.at?_append, cursor, hc.at_path, Option.bind_some, Cursor.at?, hd]
    rfl
  have hspan : c.span.start = d.offset + tk.leading.utf8ByteSize := by
    rw [← hstart, Cursor.span, helem]
  have hstop : c.span.start < d.fullSpan.stop := by
    have hpos : 0 < tk.text.utf8ByteSize := by
      have := String.utf8ByteSize_eq_zero_iff.not.2 htext
      omega
    simp only [Cursor.fullSpan, helem, Element.width, Token.width]
    omega
  have hin := Cursor.fullSpan_at (c := t.cursor) ht hpath
  have hfound : t.cursor.tokenAt? c.span.start = some d := by
    unfold Cursor.tokenAt?
    rw [if_neg (by omega), if_pos (Cursor.contains_iff.2 ⟨Nat.zero_le _, by omega⟩)]
    exact Cursor.tokenFrom_eq ht hpath (by simp [Cursor.isNode, helem, Element.isNode]) (by omega)
      hstop
  -- The node right above the token is the statement.
  have hup : d.enclosing = c :: Cursor.onFrames c.above := by
    simp [Cursor.enclosing, Cursor.isNode, helem, Element.isNode, Cursor.onFrames_childAt hd]
  rw [locate, hfound, Option.bind_some, hup, List.find?_cons_of_pos (by simp [hkind])]

end Tree
end CancellationLint
