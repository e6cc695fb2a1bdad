import CancellationLint.Proofs.Attributed
import CancellationLint.Proofs.CallText
import CancellationLint.Proofs.Positions
import CancellationLint.Proofs.LayoutKeeps

/-! # The line of a call

In a tree that was built from a concrete one, a check that starts its line has nothing but blanks
before it there. After the fix and a pass of the layout, the call has the same blanks before it, and
again starts its line. The trivia of the check are gone by then: that a line ends before them is
known from the way trivia go to tokens. -/

namespace CancellationLint

/-! ## Last lines -/

namespace Text

/-- The text between the last line feed before an offset, or the start, and the offset. -/
def lineBefore? (s : String) (offset : Nat) : Option String :=
  (cutChars offset s.toList).map fun parts => String.ofList (splitLastLine parts.1).2

theorem lineBefore?_append (a b : String) :
    lineBefore? (a ++ b) a.utf8ByteSize = some (String.ofList (splitLastLine a.toList).2) := by
  unfold lineBefore?
  rw [String.toList_append, ← size_toList, cutChars_append]
  rfl

theorem lastLine_of_blank {cs : List Char} (h : cs.all blank = true) :
    (splitLastLine cs).2 = cs := by
  have hall : ∀ c ∈ cs.reverse, decide (c ≠ '\n') = true := by
    intro c hc
    have hblank := List.all_eq_true.1 h c (List.mem_reverse.1 hc)
    rw [decide_eq_true_eq]
    rintro rfl
    cases hblank
  unfold splitLastLine
  rw [List.takeWhile_eq_self_iff.2 hall, List.reverse_reverse]

theorem lastLine_reindent (leading : String) {indent : String}
    (h : indent.toList.all blank = true) :
    (splitLastLine (Layout.reindent leading indent).toList).2 = indent.toList := by
  unfold Layout.reindent
  rw [String.toList_append, String.toList_ofList, lastLine_append (endsLine_front _),
    lastLine_of_blank h]

end Text

/-! ## Rows of tokens -/

namespace Token

theorem endsLine_fullOf {ts : List Token}
    (h : (ending? ts).all (·.endsWith "\n") = true) : Text.EndsLine (fullOf ts).toList := by
  rcases List.eq_nil_or_concat' ts with rfl | ⟨front, last, rfl⟩
  · exact Or.inl (by simp)
  · rw [ending?, List.getLast?_concat, Option.map_some, Option.all_some,
      Text.endsWith_feed_iff] at h
    right
    simp only [fullOf_append, fullOf_cons, fullOf_nil, fullText, String.toList_append]
    simp only [String.toList_empty, List.append_nil, ← List.append_assoc]
    exact h.trans (List.suffix_append _ _)

theorem indent?_eq_some {before ts : List Token} {s : String}
    (hrow : (before ++ ts).IsChain Follows) (h : indent? (ending? before) ts = some s) :
    Text.EndsLine (fullOf before).toList ∧ ts ≠ [] ∧
      (Text.splitLastLine (leadingOf ts).toList).2 = s.toList := by
  cases ts with
  | nil => cases h
  | cons first rest =>
    unfold indent? at h
    simp only [List.head?_cons, Option.bind_some, Option.ite_none_right_eq_some,
      Bool.and_eq_true, Bool.or_eq_true, Option.some.injEq] at h
    obtain ⟨⟨hstarts, -⟩, rfl⟩ := h
    refine ⟨endsLine_fullOf ?_, List.cons_ne_nil _ _, by simp⟩
    rcases hstarts with hfeed | hends
    · -- With a line feed in them, the trivia before the row are not empty.
      rw [Option.all_eq_true]
      intro trailing htrailing
      obtain ⟨last, hlast, rfl⟩ := Option.map_eq_some_iff.1 htrailing
      have hfollows := (List.isChain_append.1 hrow).2.2 last hlast first rfl
      refine hfollows.resolve_left fun hnone => ?_
      rw [hnone] at hfeed
      cases hfeed
    · exact hends

end Token

/-! ## The line before a node -/

def Tree.lineBefore? (t : Tree) (c : Cursor) : Option String :=
  c.firstToken?.bind fun first => Text.lineBefore? t.source first.span.start

theorem Cursor.Of.lineBefore_span {root : Element} {c : Cursor} (hroot : root.sound = true)
    (hc : Of root c) :
    Text.lineBefore? root.fullText c.span.start = some (String.ofList (Text.splitLastLine
      ((Token.fullOf (root.before c.path)).toList ++ c.element.leading.toList)).2) := by
  have hsplit : root.fullText = (Token.fullOf (root.before c.path) ++ c.element.leading) ++
      (c.text ++ c.element.trailing ++ Token.fullOf (root.after c.path)) := by
    rw [hc.fullText_root, c.element.fullText_split, text]
    simp only [String.append_assoc]
  have hstart : c.span.start =
      (Token.fullOf (root.before c.path) ++ c.element.leading).utf8ByteSize := by
    rw [span_eq (hc.sound hroot), hc.offset_eq hroot, String.utf8ByteSize_append]
  rw [hsplit, hstart, Text.lineBefore?_append, String.toList_append]

theorem Tree.lineBefore?_eq {t : Tree} {c : Cursor} (ht : t.root.sound = true)
    (hc : Cursor.Of t.root c) (htokens : c.element.tokens ≠ []) :
    t.lineBefore? c = some (String.ofList (Text.splitLastLine
      ((Token.fullOf (t.root.before c.path)).toList ++ c.element.leading.toList)).2) := by
  unfold lineBefore?
  cases hfirst : c.firstToken? with
  | none => exact absurd (Cursor.tokens_of_firstToken_none hfirst) htokens
  | some first =>
    obtain ⟨p, hp, hnone⟩ := Cursor.exists_path_firstToken hfirst
    have hbefore : t.root.before first.path = t.root.before c.path := by
      rw [Cursor.path_at hp, Element.before_append hc.element_at, hnone, List.append_nil]
    have hleading : first.element.leading = c.element.leading := by
      have hhead := c.element_firstToken
      rw [hfirst, Option.map_some, eq_comm, Option.map_eq_some_iff] at hhead
      obtain ⟨token, htoken, helem⟩ := hhead
      rw [← helem, Element.leading_eq c.element, Token.leadingOf, htoken]
      rfl
    rw [Option.bind_some, source, (hc.at hp).lineBefore_span ht, hbefore, hleading]

/-! ## What a fix keeps -/

namespace Element

theorem lasting_sound : Lasting fun e e' => e.sound = true → e'.sound = true where
  token _ _ _ _ _ := rfl
  relabel h es l he := by
    rw [sound_node_iff] at he ⊢
    exact he
  swap l hold hnew he := by
    have hes := ((sound_node_iff _ _).1 he).2.2
    exact sound_set he (hnew (hes _ (List.mem_of_getElem? hold)))
  refl _ he := he
  trans hab hbc he := hbc (hab he)
  withReformat _ _ _ he := sound_withReformat he

end Element

namespace Fix

theorem sound_replacementFor (l : Label) {check : Check} (indent : Option String)
    (h : check.receiver.element.sound = true) :
    (replacementFor l check indent).sound = true := by
  have hcall := sound_callStatement (l.sub 0) h
  unfold replacementFor
  apply Element.sound_withReformat
  apply Element.lasting_sound.withTrailing
  split
  · exact hcall
  · exact Element.lasting_sound.withLeading _ _ _ hcall

theorem kept_sound : Kept fun e => e.sound = true where
  part := Element.all_at
  swap _ he _ hnew := Element.sound_set he hnew
  call l h := sound_replacementFor l _ h

theorem reformat_replacementFor (l : Label) (check : Check) (indent : Option String) :
    (replacementFor l check indent).reformat = some { indent } := by
  obtain ⟨led, hnode, -, -, heq⟩ := exists_led l check
  rw [heq]
  rw [← Element.isNode_withTrailing (l.sub 2) check.body.element.trailing] at hnode
  cases hled : led.withTrailing (l.sub 2) check.body.element.trailing with
  | token t =>
    rw [hled] at hnode
    cases hnode
  | node g es => rfl

end Fix

namespace Layout

theorem leading_settleNode (l : Label) (s : String) {h : Head} {es : List Element}
    (htokens : (Element.node h es).tokens ≠ []) :
    (settleNode l { indent := some s } (.node h es)).leading =
      reindent (Element.node h es).leading s := by
  obtain ⟨t, ts, heq⟩ := List.exists_cons_of_ne_nil htokens
  rw [Element.leading_eq, ← Token.leadingOf_map_bare, bare_settleNode, Element.leading_eq, heq]
  rfl

/-- A pass reaches what was put in place, and leaves the tokens before it alone. -/
theorem laid_put {l n : Label} {new e e' : Element} {p : Path} (he : e.plain = true)
    (hput : Element.put? l new p e = some e') :
    (∃ m, (laid n e').at? p = some (laid m new)) ∧ (laid n e').before p = e.before p := by
  induction p generalizing e e' l n with
  | nil =>
    cases hput
    exact ⟨⟨n, rfl⟩, rfl⟩
  | cons i p ih =>
    obtain ⟨g, es, old, child, rfl, hold, hchild, rfl⟩ := Element.put?_cons_iff.1 hput
    obtain ⟨href, hes⟩ := Element.plain_node_iff.1 he
    obtain ⟨⟨m, hat⟩, hbefore⟩ := ih (n := n.sub i) (hes old (List.mem_of_getElem? hold)) hchild
    obtain ⟨g', heq, -⟩ := @laid_of_none n (g.swap l old (es.set i child)) (es.set i child) href
    have hi := (List.getElem?_eq_some_iff.1 hold).1
    have hself : (Element.node g' ((es.set i child).mapIdx fun j e =>
        laid (n.sub j) e)).children[i]? = some (laid (n.sub i) child) := by
      rw [Element.children, List.getElem?_mapIdx, List.getElem?_set_self hi]
      rfl
    have hfront : ((es.set i child).mapIdx fun j e => laid (n.sub j) e).take i = es.take i := by
      refine List.ext_getElem? fun j => ?_
      rw [List.getElem?_take, List.getElem?_take]
      split
      · rename_i hj
        rw [List.getElem?_mapIdx, List.getElem?_set_ne (by omega)]
        cases hx : es[j]? with
        | none => rfl
        | some x => simp [laid_of_plain _ (hes x (List.mem_of_getElem? hx))]
      · rfl
    rw [heq]
    refine ⟨⟨m, Element.at?_cons_iff.2 ⟨_, hself, hat⟩⟩, ?_⟩
    rw [Element.before_cons hself, Element.before_cons (e := .node g es) hold, hbefore,
      Element.children, Element.children, hfront]

end Layout

/-! ## The call in its line -/

theorem Fix.tokens_replacementFor (l : Label) (check : Check) (indent : Option String) :
    (replacementFor l check indent).tokens ≠ [] := by
  obtain ⟨led, hnode, hne, -, heq⟩ := exists_led l check
  obtain ⟨ts, t, htokens⟩ := (List.eq_nil_or_concat' led.tokens).resolve_left hne
  obtain ⟨m, hm⟩ := Element.tokens_withTrailing (l.sub 2) check.body.element.trailing htokens
  rw [heq, Element.tokens_withReformat (by rwa [Element.isNode_withTrailing]), hm]
  simp

theorem Fix.laid_replacementFor (m l : Label) (check : Check) (s : String) :
    (Layout.laid m (replacementFor l check (some s))).isNode = true ∧
      (Layout.laid m (replacementFor l check (some s))).kind = .expressionStatement ∧
      (Layout.laid m (replacementFor l check (some s))).tokens ≠ [] ∧
      (Layout.laid m (replacementFor l check (some s))).leading =
        Layout.reindent (replacementFor l check (some s)).leading s := by
  have hasks := reformat_replacementFor l check (some s)
  have htokens := tokens_replacementFor l check (some s)
  have houtline := outline_replacementFor l [] check (some s)
  cases hnew : replacementFor l check (some s) with
  | token token =>
    rw [hnew] at hasks
    cases hasks
  | node g es =>
    rw [hnew] at hasks htokens houtline
    rw [Layout.laid_of_request hasks]
    have hsettled := Layout.settleNode_of_lasting Element.lasting_outline m { indent := some s }
      (.node g es)
    obtain ⟨hnode, hkind⟩ := Element.of_outline_node (hsettled.trans houtline)
    refine ⟨hnode, hkind, ?_, Layout.leading_settleNode m s htokens⟩
    obtain ⟨t, ts, heq⟩ := List.exists_cons_of_ne_nil htokens
    have hbare := Layout.bare_settleNode m { indent := some s } g es
    rw [heq] at hbare
    exact fun hnone => by simp [hnone, Layout.reindented] at hbare

namespace Tree

variable {t : Tree} {c : Cursor} {check : Check} {s : String}

theorem exists_fix (hc : Cursor.Of t.root c) (hpath : c.path ≠ [])
    (hcheck : Check.ofNode c = .ok check) (l : Label) :
    ∃ root, t.fix l c = .ok { t with root } ∧ Element.put? (l.sub 1)
      (Fix.replacementFor (l.sub 0) check c.lineIndent?) c.path t.root = some root := by
  obtain rfl : check.statement = c := Check.statement_of_ofNode hcheck
  have hplan : Fix.plan (l.sub 0) t check.statement = .ok (.ofCheck (l.sub 0) check) := by
    rw [FixAll.plan_eq hc, hcheck]
  obtain ⟨root, hroot⟩ := @Element.exists_put (l.sub 1)
    (Fix.ofCheck (l.sub 0) check).replacement _ _ _ hc.element_at
  refine ⟨root, ?_, hroot⟩
  rw [fix, hplan, Except.bind, FixAll.apply_eq_ok_iff]
  exact ⟨hpath, _, root, hc.element_at, rfl, hroot, rfl⟩

/-- Here trivia must lead a token only behind the end of a line. -/
theorem lineBefore?_of_lineIndent (ht : t.root.sound = true)
    (hrow : t.root.tokens.IsChain Token.Follows) (hc : Cursor.Of t.root c)
    (h : c.lineIndent? = some s) :
    Text.EndsLine (Token.fullOf (t.root.before c.path)).toList ∧ t.lineBefore? c = some s := by
  rw [Element.tokens_at hc.element_at] at hrow
  rw [hc.lineIndent_eq] at h
  obtain ⟨hends, htokens, hline⟩ := Token.indent?_eq_some (List.isChain_append.1 hrow).1 h
  refine ⟨hends, ?_⟩
  rw [lineBefore?_eq ht hc htokens, Text.lastLine_append hends, Element.leading_eq, hline,
    String.ofList_toList]

theorem exists_call (ht : t.root.sound = true) (hplain : t.root.plain = true)
    (hc : Cursor.Of t.root c) (hpath : c.path ≠ []) (hcheck : Check.ofNode c = .ok check)
    (hindent : c.lineIndent? = some s)
    (hends : Text.EndsLine (Token.fullOf (t.root.before c.path)).toList) (l n : Label) :
    ∃ fixed d, t.fix l c = .ok fixed ∧ Cursor.Of (fixed.format n).root d ∧ d.path = c.path ∧
      d.isNode = true ∧ d.kind = .expressionStatement ∧
      (fixed.format n).lineBefore? d = some s := by
  obtain ⟨root, hfix, hput⟩ := exists_fix hc hpath hcheck l
  have hformat : (format { t with root } n).root = Layout.laid n root := root_format _ n
  have hsound : (Layout.laid n root).sound = true :=
    Layout.laid_of_lasting Element.lasting_sound n root (Fix.kept_sound.fix ht hc hfix)
  obtain ⟨⟨m, hat⟩, hbefore⟩ := Layout.laid_put (n := n) hplain hput
  rw [hindent] at hat
  obtain ⟨hnode, hkind, htokens, hleading⟩ := Fix.laid_replacementFor m (l.sub 0) check s
  obtain ⟨d, hd, helem⟩ := Cursor.exists_at (c := Cursor.ofRoot (Layout.laid n root)) hat
  have hof : Cursor.Of (format { t with root } n).root d := by
    rw [hformat]
    exact Cursor.Of.root.at hd
  have hdpath : d.path = c.path := Cursor.path_at hd
  rw [← helem] at hnode hkind htokens hleading
  refine ⟨_, d, hfix, hof, hdpath, hnode, hkind, ?_⟩
  rw [lineBefore?_eq (by rw [hformat]; exact hsound) hof htokens, hdpath, hformat, hbefore,
    Text.lastLine_append hends, hleading,
    Text.lastLine_reindent _ (Cursor.all_blank_lineIndent hindent), String.ofList_toList]

/-- The recorded indentation stands before the check, and again before the call after a layout. -/
theorem indent_of_plan {concrete : Concrete} {l k : Label} {source : String} {fix : Fix}
    (hbuild : concrete.build? l source = some t.root) (hc : Cursor.Of t.root c)
    (hpath : c.path ≠ []) (hplan : Fix.plan k t c = .ok fix)
    (hindent : fix.replacement.reformat = some { indent := some s }) :
    s.toList.all Text.blank = true ∧
      ((∀ leaf ∈ Concrete.leavesOf concrete.children, leaf.fitsIn source = true) →
        t.source = source) ∧
      t.lineBefore? c = some s ∧
      ∀ m n, ∃ fixed d, t.fix m c = .ok fixed ∧ Cursor.Of (fixed.format n).root d ∧
        d.path = c.path ∧ d.isNode = true ∧ d.kind = .expressionStatement ∧
        (fixed.format n).lineBefore? d = some s := by
  obtain ⟨check, rfl, hcheck, rfl⟩ := FixAll.exists_check_of_plan hc hplan
  have hline : check.statement.lineIndent? = some s := by
    have hrequest := Fix.reformat_replacementFor k check check.statement.lineIndent?
    rw [show (Fix.ofCheck k check).replacement.reformat = _ from hrequest] at hindent
    simpa using hindent
  have hsound := Concrete.sound_of_build hbuild
  have hplain := Concrete.plain_of_build hbuild
  obtain ⟨hends, hbefore⟩ :=
    lineBefore?_of_lineIndent hsound (Concrete.follows_of_build hbuild) hc hline
  exact ⟨Cursor.all_blank_lineIndent hline, Concrete.fullText_of_build hbuild, hbefore,
    exists_call hsound hplain hc hpath hcheck hline hends⟩

end Tree

namespace Sample

def branch (kind : String) (start stop : Nat) (children : List Concrete) : Concrete :=
  .node { kind, start, stop, extra := false, missing := false, error := false, hasError := false }
    children

def tabbedText : String :=
  "\x7b\n\n\tif(c.IsCancellationRequested)\n    // so\n      throw;\n\x7d"

def tabbed : Concrete :=
  branch "compilation_unit" 0 58
    [branch "block" 0 58
      [leaf "\x7b" 0 1,
        branch "if_statement" 4 56
          [leaf "if" 4 6, leaf "(" 6 7,
            branch "member_access_expression" 7 32
              [leaf "identifier" 7 8, leaf "." 8 9, leaf "identifier" 9 32],
            leaf ")" 32 33,
            branch "throw_statement" 50 56 [leaf "throw" 50 55, leaf ";" 55 56]],
        leaf "\x7d" 57 58]]

end Sample

theorem Sample.indent_tabbed :
    ∃ t c fix, Sample.tabbed.build? [] Sample.tabbedText = some t.root ∧
      Cursor.Of t.root c ∧ c.path = [0, 1] ∧ Fix.plan [1] t c = .ok fix ∧
      fix.replacement.reformat = some { indent := some "\t" } ∧ t.source = Sample.tabbedText ∧
      t.lineBefore? c = some "\t" ∧
      ∃ fixed d, t.fix [2] c = .ok fixed ∧ d.path = [0, 1] ∧
        (fixed.format [3]).lineBefore? d = some "\t" := by
  have hrun : ((Sample.tabbed.build? [] Sample.tabbedText).bind fun root =>
      ((Cursor.ofRoot root).at? [0, 1]).bind fun c =>
        (Fix.plan [1] { root } c).toOption.filter fun fix =>
          fix.replacement.reformat = some { indent := some "\t" }).isSome = true := by
    decide +kernel
  obtain ⟨fix, hrun⟩ := Option.isSome_iff_exists.1 hrun
  simp only [Option.bind_eq_some_iff, Option.filter_eq_some_iff, decide_eq_true_eq] at hrun
  obtain ⟨root, hbuild, c, hc, hplan, hindent⟩ := hrun
  have hof : Cursor.Of root c := Cursor.of_iff.2 ⟨_, hc⟩
  have hpath : c.path = [0, 1] := Cursor.path_at hc
  have hplan : Fix.plan [1] { root } c = .ok fix := by
    cases h : Fix.plan [1] { root } c with
    | error e =>
      rw [h] at hplan
      cases hplan
    | ok found =>
      rw [h] at hplan
      cases hplan
      rfl
  obtain ⟨-, hsource, hbefore, hfixed⟩ := Tree.indent_of_plan (t := { root }) hbuild hof
    (by rw [hpath]; decide) hplan hindent
  obtain ⟨fixed, d, hfix, -, hdpath, -, -, hafter⟩ := hfixed [2] [3]
  exact ⟨{ root }, c, fix, hbuild, hof, hpath, hplan, hindent, hsource (by decide), hbefore,
    fixed, d, hfix, hdpath.trans hpath, hafter⟩

end CancellationLint
