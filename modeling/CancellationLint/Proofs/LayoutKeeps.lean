import CancellationLint.Proofs.FixInvariants
import CancellationLint.Proofs.LastLine
import CancellationLint.Proofs.SameText

/-! # What a pass of the layout keeps

A node that asks for an indentation keeps the trivia before it up to the last line feed. What follows
on the line of the node gives way to the indentation. Where these are blanks, a pass changes nothing
but blanks; a comment that stands there is lost. -/

namespace CancellationLint

/-! ## Texts without their blanks -/

namespace Text

def blank (c : Char) : Bool := c = ' ' || c = '\t'

/-- What is left of a text without its blanks. -/
def inked (cs : List Char) : List Char := cs.filter fun c => !blank c

theorem inked_append (as bs : List Char) : inked (as ++ bs) = inked as ++ inked bs :=
  List.filter_append ..

theorem inked_eq_nil_iff {cs : List Char} : inked cs = [] ↔ cs.all blank = true := by
  simp [inked]

theorem count_inked (cs : List Char) : (inked cs).count '\n' = cs.count '\n' :=
  List.count_filter (by decide)

/-- The second text is the first one with some of it left out, but no line feed. -/
structure Thinned (before after : List Char) : Prop where
  sublist : after.Sublist before
  feeds : after.count '\n' = before.count '\n'

namespace Thinned

variable {as as' bs bs' : List Char}

theorem refl (as : List Char) : Thinned as as := ⟨List.Sublist.refl as, rfl⟩

theorem append (ha : Thinned as as') (hb : Thinned bs bs') : Thinned (as ++ bs) (as' ++ bs') :=
  ⟨ha.sublist.append hb.sublist, by rw [List.count_append, List.count_append, ha.feeds, hb.feeds]⟩

theorem append_eq_iff (ha : Thinned as as') (hb : Thinned bs bs') :
    as' ++ bs' = as ++ bs ↔ as' = as ∧ bs' = bs := by
  constructor
  · intro heq
    have hlen := congrArg List.length heq
    rw [List.length_append, List.length_append] at hlen
    have hlea := ha.sublist.length_le
    have hleb := hb.sublist.length_le
    exact ⟨ha.sublist.eq_of_length (by omega), hb.sublist.eq_of_length (by omega)⟩
  · rintro ⟨rfl, rfl⟩
    rfl

end Thinned
end Text

namespace Element

def ink (e : Element) : List Char := Text.inked e.fullText.toList

theorem ink_node (h : Head) (es : List Element) : (Element.node h es).ink = es.flatMap ink := by
  unfold ink
  rw [fullText_node]
  induction es with
  | nil => simp [Text.inked]
  | cons e es ih =>
    rw [List.map_cons, String.join_cons, String.toList_append, Text.inked_append, ih,
      List.flatMap_cons]

theorem thinned_mapIdx {es : List Element} {f : Nat → Element → Element}
    (h : ∀ i e, es[i]? = some e → Text.Thinned e.ink (f i e).ink) :
    Text.Thinned (es.flatMap ink) ((es.mapIdx f).flatMap ink) := by
  induction es generalizing f with
  | nil => exact Text.Thinned.refl _
  | cons e es ih =>
    rw [List.mapIdx_cons, List.flatMap_cons, List.flatMap_cons]
    exact (h 0 e rfl).append (ih fun i d hd => h (i + 1) d hd)

theorem ink_mapIdx_eq_iff {es : List Element} {f : Nat → Element → Element}
    (h : ∀ i e, es[i]? = some e → Text.Thinned e.ink (f i e).ink) :
    (es.mapIdx f).flatMap ink = es.flatMap ink ↔
      ∀ i e, es[i]? = some e → (f i e).ink = e.ink := by
  induction es generalizing f with
  | nil => simp
  | cons e es ih =>
    have hrest : ∀ i d, es[i]? = some d → Text.Thinned d.ink (f (i + 1) d).ink :=
      fun i d hd => h (i + 1) d hd
    rw [List.mapIdx_cons, List.flatMap_cons, List.flatMap_cons,
      (h 0 e rfl).append_eq_iff (thinned_mapIdx hrest), ih hrest]
    constructor
    · rintro ⟨hfirst, hothers⟩ i d hd
      cases i with
      | zero =>
        cases hd
        exact hfirst
      | succ i => exact hothers i d hd
    · intro hall
      exact ⟨hall 0 e rfl, fun i d hd => hall (i + 1) d hd⟩

/-! ## The nodes that a pass touches -/

/-- The element at a path asks for a layout, and none on the way to it does. -/
def asksFirst (p : Path) (r : Reformat) (e : Element) : Prop :=
  e.requests p = List.replicate p.length none ++ [some r]

theorem asksFirst_nil_iff {r : Reformat} {e : Element} :
    e.asksFirst [] r ↔ e.reformat = some r := by
  simp [asksFirst, requests]

theorem asksFirst_cons_iff {i : Nat} {p : Path} {r : Reformat} {e : Element} :
    e.asksFirst (i :: p) r ↔
      e.reformat = none ∧ ∃ d, e.children[i]? = some d ∧ d.asksFirst p r := by
  unfold asksFirst
  rw [requests, List.length_cons, List.replicate_succ, List.cons_append, List.cons.injEq]
  cases e.children[i]? with
  | none => simp
  | some d => simp

/-- Only blanks stand before the nodes that a pass indents, on the line of each. -/
def Clear (e : Element) : Prop :=
  ∀ p x s, e.asksFirst p { indent := some s } → e.at? p = some x →
    (Text.splitLastLine x.leading.toList).2.all Text.blank = true

theorem clear_token (t : Token) : (Element.token t).Clear := by
  intro p x s hasks
  cases p with
  | nil =>
    rw [asksFirst_nil_iff] at hasks
    cases hasks
  | cons i p =>
    obtain ⟨-, d, hd, -⟩ := asksFirst_cons_iff.1 hasks
    cases hd

theorem clear_of_request {h : Head} {es : List Element} {r : Reformat}
    (href : h.reformat = some r) :
    (Element.node h es).Clear ↔ ∀ s, r.indent = some s →
      (Text.splitLastLine (Element.node h es).leading.toList).2.all Text.blank = true := by
  constructor
  · intro hclear s hs
    refine hclear [] _ s (asksFirst_nil_iff.2 ?_) rfl
    rw [reformat, href, ← hs]
  · intro hline p x s hasks hx
    cases p with
    | nil =>
      cases hx
      rw [asksFirst_nil_iff, reformat, href, Option.some.injEq] at hasks
      exact hline s (by rw [hasks])
    | cons i p =>
      rw [asksFirst_cons_iff, reformat, href] at hasks
      cases hasks.1

theorem clear_of_none {h : Head} {es : List Element} (href : h.reformat = none) :
    (Element.node h es).Clear ↔ ∀ e ∈ es, e.Clear := by
  constructor
  · intro hclear e he p x s hasks hx
    obtain ⟨i, hi⟩ := List.mem_iff_getElem?.1 he
    exact hclear (i :: p) x s (asksFirst_cons_iff.2 ⟨href, e, hi, hasks⟩)
      (at?_cons_iff.2 ⟨e, hi, hx⟩)
  · intro hes p x s hasks hx
    cases p with
    | nil =>
      rw [asksFirst_nil_iff, reformat, href] at hasks
      cases hasks
    | cons i p =>
      obtain ⟨-, e, hi, hasks⟩ := asksFirst_cons_iff.1 hasks
      obtain ⟨d, hd, hx⟩ := at?_cons_iff.1 hx
      obtain rfl : e = d := Option.some.inj (hi.symm.trans hd)
      exact hes e (List.mem_of_getElem? hi) p x s hasks hx

end Element

/-! ## Requests for blanks -/

def Reformat.neat (r : Reformat) : Bool := r.indent.all fun s => s.toList.all Text.blank

namespace Element

def neat (e : Element) : Bool := e.all fun x => x.reformat.all Reformat.neat

theorem neat_node_iff {h : Head} {es : List Element} :
    (Element.node h es).neat = true ↔
      h.reformat.all Reformat.neat = true ∧ ∀ e ∈ es, e.neat = true :=
  all_node_iff _ h es

theorem neat_of_plain {e : Element} (h : e.plain = true) : e.neat = true := by
  induction e with
  | token t => rfl
  | node g es ih =>
    obtain ⟨href, hes⟩ := plain_node_iff.1 h
    exact neat_node_iff.2 ⟨by rw [href]; rfl, fun e he => ih e he (hes e he)⟩

theorem neat_iff {e : Element} :
    e.neat = true ↔ ∀ p r, some r ∈ e.requests p → r.neat = true := by
  induction e with
  | token t =>
    refine ⟨fun _ p r hr => ?_, fun _ => rfl⟩
    cases p <;> simp [requests, reformat, children] at hr
  | node h es ih =>
    rw [neat_node_iff]
    constructor
    · rintro ⟨hself, hes⟩ p r hr
      have hhead : some r = h.reformat → r.neat = true := by
        intro heq
        rwa [← heq] at hself
      cases p with
      | nil => exact hhead (List.mem_singleton.1 hr)
      | cons i p =>
        rcases List.mem_cons.1 hr with heq | hr
        · exact hhead heq
        cases hi : es[i]? with
        | none => simp [children, hi] at hr
        | some e =>
          have hmem := List.mem_of_getElem? hi
          exact (ih e hmem).1 (hes e hmem) p r (by simpa [children, hi] using hr)
    · intro hp
      constructor
      · cases href : h.reformat with
        | none => rfl
        | some r => exact hp [] r (by simp [requests, reformat, href])
      · intro e he
        obtain ⟨i, hi⟩ := List.mem_iff_getElem?.1 he
        exact (ih e he).2 fun p r hr => hp (i :: p) r (by simp [requests, children, hi, hr])

theorem neat_swap {h : Head} {es : List Element} {new : Element} {i : Nat} (l : Label)
    (old : Element) (hs : (Element.node h es).neat = true) (hnew : new.neat = true) :
    (Element.node (h.swap l old (es.set i new)) (es.set i new)).neat = true := by
  obtain ⟨hself, hes⟩ := neat_node_iff.1 hs
  refine neat_node_iff.2 ⟨hself, fun e he => ?_⟩
  rcases List.mem_or_eq_of_mem_set he with he | rfl
  · exact hes e he
  · exact hnew

end Element

theorem Cursor.all_blank_lineIndent {c : Cursor} {s : String} (h : c.lineIndent? = some s) :
    s.toList.all Text.blank = true := by
  unfold lineIndent? at h
  obtain ⟨first, -, hparts⟩ := Option.bind_eq_some_iff.1 h
  simp only [Option.ite_none_right_eq_some, Bool.and_eq_true, Option.some.injEq] at hparts
  obtain ⟨⟨-, hall⟩, rfl⟩ := hparts
  rw [String.toList_ofList]
  exact hall

namespace Fix

theorem neat_callStatement (l : Label) {receiver : Element} (h : receiver.neat = true) :
    (callStatement l receiver).neat = true := by
  have htoken : ∀ t, (Element.token t).neat = true := fun _ => rfl
  simp [callStatement, Element.make, Element.neat_node_iff, h, htoken]

/-- The call that replaces a check asks for the blanks before the check. -/
theorem neat_replacementFor (l : Label) {check : Check}
    (h : check.receiver.element.neat = true) :
    (replacementFor l check check.statement.lineIndent?).neat = true := by
  obtain ⟨led, hnode, -, hrequests, heq⟩ := exists_led l check
  have hcall := Element.neat_iff.1 (neat_callStatement (l.sub 0) h)
  rw [heq, Element.neat_iff]
  intro p r hr
  rw [Element.requests_withReformat (by rwa [Element.isNode_withTrailing]),
    Element.requests_withTrailing, hrequests] at hr
  rcases List.mem_cons.1 hr with hr | hr
  · cases hr
    rw [Reformat.neat, Option.all_eq_true]
    exact fun s hs => Cursor.all_blank_lineIndent hs
  · exact hcall p r (List.mem_of_mem_tail hr)

theorem kept_neat : Kept fun e => e.neat = true where
  part := Element.all_at
  swap l h _ hnew := Element.neat_swap l _ h hnew
  call l h := neat_replacementFor l h

end Fix

/-! ## One node -/

namespace Layout

theorem fullText_settleNode (l : Label) (s : String) {h : Head} {es : List Element}
    (htokens : (Element.node h es).tokens ≠ []) :
    ∃ rest, (Element.node h es).fullText = (Element.node h es).leading ++ rest ∧
      (settleNode l { indent := some s } (.node h es)).fullText =
        reindent (Element.node h es).leading s ++ rest := by
  obtain ⟨t, ts, heq⟩ := List.exists_cons_of_ne_nil htokens
  have hbare : (settleNode l { indent := some s } (.node h es)).tokens.map Token.bare =
      ({ t with leading := reindent t.leading s } :: ts).map Token.bare := by
    rw [bare_settleNode, heq]
    rfl
  refine ⟨t.text ++ t.trailing ++ Token.fullOf ts, ?_, ?_⟩
  · rw [Element.leading_eq, Element.fullText_eq, heq, Token.fullOf_cons, Token.fullText,
      Token.leadingOf_cons]
    simp only [String.append_assoc]
  · rw [Element.leading_eq, Element.fullText_eq, Token.fullOf_of_bare hbare, heq,
      Token.fullOf_cons, Token.fullText, Token.leadingOf_cons]
    simp only [String.append_assoc]

theorem ink_settleNode (l : Label) {s : String} (hs : s.toList.all Text.blank = true) (h : Head)
    (es : List Element) :
    ∃ front rest, (Element.node h es).ink = front ++
        (Text.inked (Text.splitLastLine (Element.node h es).leading.toList).2 ++ rest) ∧
      (settleNode l { indent := some s } (.node h es)).ink = front ++ rest := by
  by_cases htokens : (Element.node h es).tokens = []
  · -- Without tokens there is nothing to indent, and the leading trivia is empty.
    have hbare := bare_settleNode l { indent := some s } h es
    rw [htokens] at hbare
    have hnone := List.map_eq_nil_iff.1 hbare
    refine ⟨[], [], ?_, ?_⟩
    · rw [Element.ink, Element.fullText_eq, Element.leading_eq, htokens]
      rfl
    · rw [Element.ink, Element.fullText_eq, hnone]
      rfl
  · obtain ⟨rest, hbefore, hafter⟩ := fullText_settleNode l s htokens
    have hsplit := Text.splitLastLine_append (Element.node h es).leading.toList
    refine ⟨Text.inked (Text.splitLastLine (Element.node h es).leading.toList).1,
      Text.inked rest.toList, ?_, ?_⟩
    · rw [Element.ink, hbefore, String.toList_append, Text.inked_append]
      conv_lhs => rw [← hsplit]
      rw [Text.inked_append, List.append_assoc]
    · rw [Element.ink, hafter, reindent, String.toList_append, String.toList_append,
        String.toList_ofList, Text.inked_append, Text.inked_append, Text.inked_eq_nil_iff.2 hs,
        List.append_nil]

theorem thinned_settleNode (l : Label) {r : Reformat} (hr : r.neat = true) (h : Head)
    (es : List Element) :
    Text.Thinned (Element.node h es).ink (settleNode l r (.node h es)).ink ∧
      ((settleNode l r (.node h es)).ink = (Element.node h es).ink ↔
        ∀ s, r.indent = some s →
          (Text.splitLastLine (Element.node h es).leading.toList).2.all Text.blank = true) := by
  obtain ⟨indent⟩ := r
  cases indent with
  | none =>
    have hsame : (settleNode l { indent := none } (.node h es)).ink = (Element.node h es).ink := by
      rw [settleNode, Element.ink, Element.fullText_eq, Element.tokens_withReformat rfl]
      rfl
    rw [hsame]
    simp [Text.Thinned.refl]
  | some s =>
    obtain ⟨front, rest, hbefore, hafter⟩ := ink_settleNode l hr h es
    have hline : Text.Thinned
        (Text.inked (Text.splitLastLine (Element.node h es).leading.toList).2) [] := by
      refine ⟨List.nil_sublist _, ?_⟩
      rw [Text.count_inked, List.count_eq_zero.2 (Text.feed_notMem_lastLine _)]
      rfl
    have hrest := hline.append (Text.Thinned.refl rest)
    rw [hbefore, hafter]
    refine ⟨(Text.Thinned.refl front).append hrest, ?_⟩
    rw [List.append_cancel_left_eq, List.self_eq_append_left, Text.inked_eq_nil_iff]
    simp

/-! ## The whole tree -/

theorem thinned_laid (l : Label) {e : Element} (he : e.neat = true) :
    Text.Thinned e.ink (laid l e).ink := by
  induction e generalizing l with
  | token t => exact Text.Thinned.refl _
  | node h es ih =>
    obtain ⟨hself, hes⟩ := Element.neat_node_iff.1 he
    cases href : h.reformat with
    | some r =>
      rw [href] at hself
      rw [laid_of_request href]
      exact (thinned_settleNode l hself h es).1
    | none =>
      obtain ⟨h', heq, -⟩ := @laid_of_none l h es href
      rw [heq, Element.ink_node, Element.ink_node]
      refine Element.thinned_mapIdx fun i e hi => ?_
      have hmem := List.mem_of_getElem? hi
      exact ih e hmem (l.sub i) (hes e hmem)

theorem ink_laid_eq_iff (l : Label) {e : Element} (he : e.neat = true) :
    (laid l e).ink = e.ink ↔ e.Clear := by
  induction e generalizing l with
  | token t => exact ⟨fun _ => Element.clear_token t, fun _ => rfl⟩
  | node h es ih =>
    obtain ⟨hself, hes⟩ := Element.neat_node_iff.1 he
    cases href : h.reformat with
    | some r =>
      rw [href] at hself
      rw [laid_of_request href, (thinned_settleNode l hself h es).2, Element.clear_of_request href]
    | none =>
      obtain ⟨h', heq, -⟩ := @laid_of_none l h es href
      rw [heq, Element.ink_node, Element.ink_node, Element.clear_of_none href,
        Element.ink_mapIdx_eq_iff fun i e hi => thinned_laid _ (hes e (List.mem_of_getElem? hi))]
      constructor
      · intro hall e hmem
        obtain ⟨i, hi⟩ := List.mem_iff_getElem?.1 hmem
        exact (ih e hmem (l.sub i) (hes e hmem)).1 (hall i e hi)
      · intro hclear i e hi
        have hmem := List.mem_of_getElem? hi
        exact (ih e hmem (l.sub i) (hes e hmem)).2 (hclear e hmem)

theorem at?_laid_of_none {l : Label} {h : Head} {es : List Element} {i : Nat} {d : Element}
    (href : h.reformat = none) (hd : es[i]? = some d) (p : Path) :
    (laid l (.node h es)).at? (i :: p) = (laid (l.sub i) d).at? p := by
  obtain ⟨h', heq, -⟩ := @laid_of_none l h es href
  simp [heq, Element.at?, hd]

theorem at?_laid {l : Label} {e x : Element} {p : Path} {r : Reformat} (hasks : e.asksFirst p r)
    (hx : e.at? p = some x) :
    x.reformat = some r ∧ ∃ m, (laid l e).at? p = some (laid m x) := by
  induction p generalizing e l with
  | nil =>
    cases hx
    exact ⟨Element.asksFirst_nil_iff.1 hasks, l, rfl⟩
  | cons i p ih =>
    obtain ⟨d, hd, hbelow⟩ := Element.at?_cons_iff.1 hx
    cases e with
    | token t => cases hd
    | node h es =>
      obtain ⟨href, d', hd', hasks⟩ := Element.asksFirst_cons_iff.1 hasks
      obtain rfl : d = d' := Option.some.inj (hd.symm.trans hd')
      obtain ⟨hreq, m, hm⟩ := ih (l := l.sub i) hasks hbelow
      exact ⟨hreq, m, (at?_laid_of_none href hd p).trans hm⟩

end Layout

namespace Tree.Rewritten

/-- After fixes, a pass loses nothing but blanks exactly if nothing else stands before the calls. -/
theorem format_ink {t t' : Tree} (ht : t.root.plain = true) (h : Rewritten t t') (l : Label) :
    (Text.inked (t'.format l).source.toList).Sublist (Text.inked t'.source.toList) ∧
    (t'.format l).source.toList.count '\n' = t'.source.toList.count '\n' ∧
    (∀ p x s, t'.root.asksFirst p { indent := some s } → t'.root.at? p = some x → x.tokens ≠ [] →
      ∃ y rest, (t'.format l).at? p = some y ∧ x.fullText = x.leading ++ rest ∧
        y.fullText = String.ofList (Text.splitLastLine x.leading.toList).1 ++ s ++ rest) ∧
    (Text.inked (t'.format l).source.toList = Text.inked t'.source.toList ↔
      ∀ p x s, t'.root.asksFirst p { indent := some s } → t'.root.at? p = some x →
        (Text.splitLastLine x.leading.toList).2.all Text.blank = true) := by
  have hneat := Fix.kept_neat.rewritten (Element.neat_of_plain ht) h
  have hthin := Layout.thinned_laid l hneat
  have hroot := t'.root_format l
  refine ⟨?_, ?_, ?_, ?_⟩
  · rw [source, hroot]
    exact hthin.sublist
  · rw [← Text.count_inked, ← Text.count_inked t'.source.toList, source, hroot]
    exact hthin.feeds
  · intro p x s hasks hx htokens
    obtain ⟨hreq, m, hm⟩ := Layout.at?_laid (l := l) hasks hx
    cases x with
    | token _ => cases hreq
    | node g es =>
      obtain ⟨rest, hbefore, hafter⟩ := Layout.fullText_settleNode m s htokens
      rw [Layout.laid_of_request hreq, ← hroot] at hm
      exact ⟨_, rest, hm, hbefore, hafter⟩
  · rw [source, hroot]
    exact Layout.ink_laid_eq_iff l hneat

end Tree.Rewritten

namespace Sample

def commented : Tree :=
  let led (leading : String) (kind : Kind) (text : String) : Element :=
    .token { label := [], kind, text, leading }
  { root := .make [] .compilationUnit
      [.make [] .ifStatement
        [led "\n  " .ifKeyword "if", token .openParen "(",
          .make [] .memberAccessExpression
            [token .identifier "ct", token .dot ".", token .identifier cancellationFlag],
          token .closeParen ")",
          .make [] .throwStatement
            [led "\n\t// stop\n\t/* why */ " .throwKeyword "throw", token .semicolon ";"]]] }

end Sample

theorem Sample.fixAt_commented :
    ∃ fixed, Sample.commented.fixAt [0] 3 = .ok fixed ∧
      fixed.source = "\n\t// stop\n\t/* why */ ct .ThrowIfCancellationRequested(); " ∧
      (fixed.format [1]).source = "\n\t// stop\n  ct .ThrowIfCancellationRequested(); " := by
  have hrun : ((Sample.commented.fixAt [0] 3).toOption.any fun fixed =>
      fixed.source = "\n\t// stop\n\t/* why */ ct .ThrowIfCancellationRequested(); " &&
        (fixed.format [1]).source = "\n\t// stop\n  ct .ThrowIfCancellationRequested(); ") =
          true := by
    decide +kernel
  cases hfix : Sample.commented.fixAt [0] 3 with
  | error e =>
    rw [hfix] at hrun
    cases hrun
  | ok fixed =>
    rw [hfix] at hrun
    exact ⟨fixed, rfl, by simpa [Except.toOption] using hrun⟩

/-- One comment stays, and the other one, on the line of the call, is lost. -/
theorem Sample.ink_commented :
    Sample.commented.root.plain = true ∧ ∃ fixed, Sample.commented.fixAt [0] 3 = .ok fixed ∧
      Text.inked (fixed.format [1]).source.toList ≠ Text.inked fixed.source.toList := by
  obtain ⟨fixed, hfix, hbefore, hafter⟩ := Sample.fixAt_commented
  refine ⟨by decide, fixed, hfix, ?_⟩
  rw [hbefore, hafter]
  decide

theorem Sample.format_commented :
    Sample.commented.root.plain = true ∧ ∃ fixed, Tree.Rewritten Sample.commented fixed ∧
      (Text.inked (fixed.format [1]).source.toList).Sublist (Text.inked fixed.source.toList) ∧
      (fixed.format [1]).source.toList.count '\n' = fixed.source.toList.count '\n' ∧
      ∃ p x s, fixed.root.asksFirst p { indent := some s } ∧ fixed.root.at? p = some x ∧
        ¬ (Text.splitLastLine x.leading.toList).2.all Text.blank = true := by
  obtain ⟨fixed, hfix, hbefore, hafter⟩ := Sample.fixAt_commented
  have hplain : Sample.commented.root.plain = true := by decide
  have hrewritten := Tree.Rewritten.refl.fixAt hfix
  obtain ⟨hsub, hfeeds, -, hiff⟩ := hrewritten.format_ink hplain [1]
  refine ⟨hplain, fixed, hrewritten, hsub, hfeeds, ?_⟩
  have hlost : ¬ Text.inked (fixed.format [1]).source.toList = Text.inked fixed.source.toList := by
    rw [hbefore, hafter]
    decide
  rw [hiff] at hlost
  simpa only [not_forall, exists_prop] using hlost

end CancellationLint
