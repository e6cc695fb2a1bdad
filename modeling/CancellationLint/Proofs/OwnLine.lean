import CancellationLint.Proofs.Neighbours
import CancellationLint.Proofs.TriviaPieces
import CancellationLint.Proofs.Realigned

/-! # Nodes that start their line

What is given as the indentation of a node is always all that stands before it on its line. But it
is given only where the line starts in the trivia between the text of the token before and the node,
and where no trivia of the token before are on the line. In a tree that was built from a concrete
one, this is so for every node that only blanks stand before, unless the token before has no visible
end. -/

namespace CancellationLint

/-! ## Lines that start in trivia -/

namespace Text

theorem size_pos {cs : List Char} (h : cs ≠ []) : 0 < size cs :=
  Nat.pos_of_ne_zero fun hzero => h (eq_nil_of_size hzero)

theorem feed_iff_lastLine (front before last : List Char) :
    '\n' ∈ last ∨ ['\n'] <:+ before ↔
      size (splitLastLine (front ++ before ++ last)).2 < size before + size last ∧
        size (splitLastLine (front ++ before ++ last)).2 ≤ size last := by
  by_cases hlast : '\n' ∈ last
  · have hparts := congrArg size (splitLastLine_append last)
    have hpos := size_pos (front_ne_nil hlast)
    rw [size_append] at hparts
    rw [lastLine_append_of_mem _ hlast]
    simp only [hlast, true_or, true_iff]
    omega
  · -- All of the last part is on the last line, so nothing else may be.
    have hline : size (splitLastLine (front ++ before)).2 = 0 ↔ EndsLine (front ++ before) := by
      rw [← lastLine_eq_nil_iff]
      exact ⟨eq_nil_of_size, fun h => by rw [h, size_nil]⟩
    rw [lastLine_append_of_notMem _ hlast, size_append]
    constructor
    · intro hfeed
      have hbefore := hfeed.resolve_left hlast
      have hpos := size_pos (List.ne_nil_of_mem (hbefore.subset (List.mem_singleton_self _)))
      have hnone := hline.2 (.inr (hbefore.trans (List.suffix_append _ _)))
      omega
    · rintro ⟨hlt, hle⟩
      have hne : before ≠ [] := by
        rintro rfl
        simp only [size_nil] at hlt
        omega
      have hends := (hline.1 (by omega)).resolve_left (List.append_ne_nil_of_right_ne_nil _ hne)
      exact .inr (List.suffix_of_suffix_length_le hends (List.suffix_append _ _)
        (List.length_pos_of_ne_nil hne))

end Text

theorem Token.indent?_cons_iff {before? : Option String} {first : Token} {rest : List Token}
    {s : String} :
    indent? before? (first :: rest) = some s ↔
      ('\n' ∈ first.leading.toList ∨ before?.all (·.endsWith "\n") = true) ∧
        (Text.splitLastLine first.leading.toList).2 = s.toList ∧
        s.toList.all Text.blank = true := by
  have hstarts : (!(Text.splitLastLine first.leading.toList).1.isEmpty) = true ↔
      '\n' ∈ first.leading.toList := by
    rw [← Text.front_ne_nil_iff]
    simp
  have hline : String.ofList (Text.splitLastLine first.leading.toList).2 = s ↔
      (Text.splitLastLine first.leading.toList).2 = s.toList := by
    rw [← String.toList_inj, String.toList_ofList]
  unfold indent?
  simp only [List.head?_cons, Option.bind_some, Option.ite_none_right_eq_some, Bool.and_eq_true,
    Bool.or_eq_true, hstarts, Option.some.injEq, hline]
  constructor
  · rintro ⟨⟨hfeed, hblank⟩, heq⟩
    exact ⟨hfeed, heq, heq ▸ hblank⟩
  · rintro ⟨hfeed, heq, hblank⟩
    exact ⟨⟨hfeed, heq.symm ▸ hblank⟩, heq⟩

/-! ## Line feeds inside comments -/

/-- Without a line feed outside of comments, the last line feed is in a comment that is closed. -/
theorem Piece.slash_mem_lastLine {ps : List Piece} (h : Proper ps) (hfeed : feed ∉ ps)
    (hclosed : ∀ body, unclosed body ∉ ps) (hmem : '\n' ∈ textOf ps) :
    '/' ∈ (Text.splitLastLine (textOf ps)).2 := by
  induction ps with
  | nil => simp at hmem
  | cons p ps ih =>
    rw [List.mem_cons, not_or] at hfeed
    rw [textOf_cons] at hmem ⊢
    by_cases hrest : '\n' ∈ textOf ps
    · rw [Text.lastLine_append_of_mem _ hrest]
      exact ih h.2 hfeed.2 (fun body hbody => hclosed body (by simp [hbody])) hrest
    · rw [Text.lastLine_append_of_notMem _ hrest]
      refine List.mem_append_left _ ?_
      have hp := (List.mem_append.1 hmem).resolve_right hrest
      cases p with
      | char c =>
        obtain rfl := List.mem_singleton.1 hp
        exact absurd rfl hfeed.1
      | block body =>
        have hchars : (block body).chars = '/' :: '*' :: body ++ ['*', '/'] := rfl
        rw [hchars, Text.lastLine_append_of_notMem _ (by decide)]
        simp
      | unclosed body => exact absurd List.mem_cons_self (hclosed body)
      | line body => exact absurd (by simpa [chars] using hp) h.1.1

theorem Concrete.feed_notMem_of_reads {gap : List Char} {ps : List Piece}
    (h : Piece.Reads (splitTrivia .plain gap).1 ps)
    (hends : ¬ ['\n'] <:+ (splitTrivia .plain gap).1) : Piece.feed ∉ ps := by
  intro hmem
  rcases List.eq_nil_or_concat' ps with rfl | ⟨front, last, rfl⟩
  · cases hmem
  · have hfront := feed_notMem_dropLast h
    rw [List.dropLast_concat] at hfront
    obtain rfl : Piece.feed = last := by simpa [hfront] using hmem
    rw [← h.2, Piece.textOf_append] at hends
    exact hends (List.suffix_append _ _)

theorem Concrete.exists_gap_of_build {concrete : Concrete} {l : Label} {source : String}
    {root : Element} (h : concrete.build? l source = some root) {t : Token} (ht : t ∈ root.tokens) :
    ∃ gap, t.trailing.toList = (splitTrivia .plain gap).1 := by
  obtain ⟨ts, hattach, hbare⟩ := exists_attach h
  obtain ⟨u, hu, heq⟩ := List.mem_map.1 (hbare ▸ List.mem_map_of_mem (f := Token.bare) ht)
  obtain ⟨gap, hgap⟩ := exists_gap_of_attach hattach hu
  have htrailing : u.bare.trailing = t.bare.trailing := congrArg Token.trailing heq
  exact ⟨gap, (congrArg String.toList htrailing).symm.trans hgap⟩

/-! ## The token before a node -/

namespace Cursor

variable {root : Element} {c d : Cursor}

theorem Of.before_prevToken (hc : Of root c) (h : c.prevToken? = some d) :
    Of root d ∧ ∃ t, d.element = .token t ∧ root.before c.path = root.before d.path ++ [t] := by
  obtain ⟨front, back, hrow, hprev, hfront⟩ := hc.exists_front
  rw [h, eq_comm, List.getLast?_eq_some_iff] at hprev
  obtain ⟨others, rfl⟩ := hprev
  have hmem : d ∈ (ofRoot root).leaves := by rw [hrow]; simp
  have hd := mem_leaves_ofRoot.1 hmem
  obtain ⟨front', back', hrow', -, hfront'⟩ := hd.1.exists_front
  -- In the row `d` is there once.
  have hothers : front' = others := by
    have hnodup := nodup_leaves (ofRoot root)
    rw [leaves_of_not_isNode hd.2, List.append_assoc, List.singleton_append] at hrow'
    rw [hrow', List.nodup_middle, List.nodup_cons, List.mem_append, not_or] at hnodup
    rw [hrow', List.append_assoc, List.append_assoc, List.singleton_append,
      List.append_cons_inj_of_notMem hnodup.1.1 hnodup.1.2] at hrow
    exact hrow.1
  subst hothers
  obtain ⟨t, ht⟩ : ∃ t, d.element = .token t := by
    cases he : d.element with
    | token t => exact ⟨t, rfl⟩
    | node g es =>
      have hleaf := hd.2
      rw [isNode, he] at hleaf
      cases hleaf
  refine ⟨hd.1, t, ht, ?_⟩
  rw [List.map_append, List.map_singleton, ht, hfront', ← List.map_singleton,
    ← List.map_append] at hfront
  exact (List.map_injective_iff.2 (fun a b h => Element.token.inj h) hfront).symm

theorem Of.exists_text_before (hroot : root.sound = true) (hc : Of root c)
    (h : c.prevToken? = some d) :
    ∃ front, (Token.fullOf (root.before c.path)).toList =
        front ++ d.text.toList ++ d.element.trailing.toList ∧
      d.span.stop = Text.size (front ++ d.text.toList) ∧
      d.fullSpan.stop = Text.size (front ++ d.text.toList ++ d.element.trailing.toList) := by
  obtain ⟨hd, t, ht, hbefore⟩ := hc.before_prevToken h
  refine ⟨(Token.fullOf (root.before d.path)).toList ++ t.leading.toList, ?_, ?_, ?_⟩
  · simp [hbefore, text, ht, Token.fullText, Element.text, Element.trailing]
  · rw [span_eq (hd.sound hroot), hd.offset_eq hroot]
    simp [Text.size_toList, ht, Element.leading, Nat.add_assoc]
  · rw [fullSpan, hd.offset_eq hroot]
    simp [Text.size_toList, text, ht, Element.text, Element.trailing, Element.width, Token.width,
      Nat.add_assoc]

theorem Of.before_eq_nil (hc : Of root c) (h : c.prevToken? = none) : root.before c.path = [] := by
  have hlast := hc.element_prevToken
  rw [h, Option.map_none, eq_comm, Option.map_eq_none_iff, List.getLast?_eq_none_iff] at hlast
  exact hlast

/-- Whether the text of a token ends in neither a blank nor a line feed, behind which no comment
is left open. -/
def Solid (d : Cursor) : Prop :=
  (∃ v, [v] <:+ d.text.toList ∧ v ≠ '\n' ∧ Text.blank v = false) ∧
    ∀ ps, Piece.Reads d.element.trailing.toList ps → ∀ body, Piece.unclosed body ∉ ps

/-- Whether the line of a node, which `s` stands before on it, starts behind the token before. -/
def StartsBehind (d c : Cursor) (s : String) : Prop :=
  d.span.stop + s.utf8ByteSize < c.span.start ∧ d.fullSpan.stop + s.utf8ByteSize ≤ c.span.start

theorem Solid.exists_lastLine (hd : d.Solid) {gap : List Char}
    (hgap : d.element.trailing.toList = (Concrete.splitTrivia .plain gap).1)
    (hends : ¬ ['\n'] <:+ d.element.trailing.toList) (front : List Char) :
    ∃ v ∈ (Text.splitLastLine (front ++ d.text.toList ++ d.element.trailing.toList)).2,
      Text.blank v = false := by
  by_cases hfeed : '\n' ∈ d.element.trailing.toList
  · obtain ⟨ps, hps⟩ := Piece.exists_reads d.element.trailing.toList
    have hclosed := hd.2 ps hps
    rw [Text.lastLine_append_of_mem _ hfeed]
    rw [hgap] at hps hends
    have hnone := Concrete.feed_notMem_of_reads hps hends
    rw [hgap, ← hps.2] at hfeed ⊢
    exact ⟨'/', Piece.slash_mem_lastLine hps.1 hnone hclosed hfeed, rfl⟩
  · obtain ⟨⟨v, ⟨others, htext⟩, hv, hblank⟩, -⟩ := hd
    refine ⟨v, ?_, hblank⟩
    rw [← htext, ← List.append_assoc, List.append_assoc (front ++ others),
      Text.lastLine_append_of_notMem _ (by simp [hv.symm, hfeed])]
    simp

end Cursor

namespace Tree

variable {t : Tree} {c : Cursor}

theorem feed_iff_startsBehind {prev : Cursor} {s : String} (ht : t.root.sound = true)
    (hc : Cursor.Of t.root c) (hprev : c.prevToken? = some prev)
    (hline : Text.lineBefore? t.source c.span.start = some s) :
    '\n' ∈ c.element.leading.toList ∨ ['\n'] <:+ prev.element.trailing.toList ↔
      prev.StartsBehind c s := by
  obtain ⟨front, htext, hstop, hfullStop⟩ := hc.exists_text_before ht hprev
  have hstart : c.span.start = Text.size (front ++ prev.text.toList) +
      Text.size prev.element.trailing.toList + Text.size c.element.leading.toList := by
    rw [Cursor.span_eq (hc.sound ht), hc.offset_eq ht, ← Text.size_toList, htext,
      ← Text.size_toList c.element.leading, Text.size_append]
  rw [source, hc.lineBefore_span ht, htext, Option.some.injEq] at hline
  rw [Text.feed_iff_lastLine (front ++ prev.text.toList), Cursor.StartsBehind, hstop, hfullStop,
    hstart, ← hline, ← Text.size_toList, String.toList_ofList,
    Text.size_append _ (Element.trailing _).toList]
  omega

theorem lineIndent?_iff_feed (ht : t.root.sound = true) (hc : Cursor.Of t.root c)
    (htokens : c.element.tokens ≠ []) {s : String} :
    c.lineIndent? = some s ↔
      Text.lineBefore? t.source c.span.start = some s ∧ s.toList.all Text.blank = true ∧
        ∀ prev, c.prevToken? = some prev →
          '\n' ∈ c.element.leading.toList ∨ ['\n'] <:+ prev.element.trailing.toList := by
  obtain ⟨first, rest, htokens⟩ := List.exists_cons_of_ne_nil htokens
  have hleading : c.element.leading = first.leading := by
    rw [Element.leading_eq, htokens, Token.leadingOf_cons]
  rw [hc.lineIndent_eq, htokens, Token.indent?_cons_iff, hc.ending_before, source,
    hc.lineBefore_span ht, Option.some.injEq, ← String.toList_inj, String.toList_ofList, hleading]
  cases hprev : c.prevToken? with
  | none => simp [hc.before_eq_nil hprev]
  | some prev =>
    obtain ⟨front, htext, -, -⟩ := hc.exists_text_before ht hprev
    have hline : '\n' ∈ first.leading.toList ∨ ['\n'] <:+ prev.element.trailing.toList →
        (Text.splitLastLine (front ++ prev.text.toList ++ prev.element.trailing.toList ++
          first.leading.toList)).2 = (Text.splitLastLine first.leading.toList).2 := by
      rintro (hfeed | hends)
      · exact Text.lastLine_append_of_mem _ hfeed
      · exact Text.lastLine_append (.inr (hends.trans (List.suffix_append _ _))) _
    simp only [Option.map_some, Option.all_some, Text.endsWith_feed_iff, Option.some.injEq,
      forall_eq', htext]
    constructor
    · rintro ⟨hfeed, heq, hblank⟩
      exact ⟨(hline hfeed).trans heq, hblank, hfeed⟩
    · rintro ⟨heq, hblank, hfeed⟩
      exact ⟨hfeed, (hline hfeed).symm.trans heq, hblank⟩

theorem feed_of_solid {concrete : Concrete} {l : Label} {source : String}
    (hbuild : concrete.build? l source = some t.root) (hc : Cursor.Of t.root c)
    (htokens : c.element.tokens ≠ []) {prev : Cursor} (hprev : c.prevToken? = some prev)
    (hsolid : prev.Solid) {s : String} (hline : Text.lineBefore? t.source c.span.start = some s)
    (hblank : s.toList.all Text.blank = true) :
    '\n' ∈ c.element.leading.toList ∨ ['\n'] <:+ prev.element.trailing.toList := by
  have ht := Concrete.sound_of_build hbuild
  by_contra hnot
  rw [not_or] at hnot
  obtain ⟨-, token, helem, hbefore⟩ := hc.before_prevToken hprev
  have hrow := Element.tokens_at hc.element_at
  -- Nothing leads the node, since the token before does not end a line.
  have hleading : c.element.leading = "" := by
    obtain ⟨first, rest, hfirst⟩ := List.exists_cons_of_ne_nil htokens
    have hchain := Concrete.follows_of_build hbuild
    rw [hrow, hbefore, hfirst] at hchain
    have hfollows : token.Follows first :=
      (List.isChain_append.1 (List.isChain_append.1 hchain).1).2.2 token (by simp) first rfl
    rw [Element.leading_eq, hfirst, Token.leadingOf_cons]
    refine hfollows.resolve_right fun hends => hnot.2 ?_
    rw [helem]
    exact Text.endsWith_feed_iff.1 hends
  obtain ⟨gap, hgap⟩ := Concrete.exists_gap_of_build hbuild (t := token) (by simp [hrow, hbefore])
  obtain ⟨front, htext, -, -⟩ := hc.exists_text_before ht hprev
  obtain ⟨v, hv, hseen⟩ := hsolid.exists_lastLine (by rw [helem]; exact hgap) hnot.2 front
  rw [Tree.source, hc.lineBefore_span ht, htext, hleading, Option.some.injEq] at hline
  rw [← hline, String.toList_ofList, String.toList_empty, List.append_nil] at hblank
  rw [List.all_eq_true.1 hblank v hv] at hseen
  cases hseen

/-- The indentation is all that stands before a node on its line, if that is blank. -/
theorem lineIndent_eq_some_iff (t : Tree) (c : Cursor) (s : String) (ht : t.root.sound = true)
    (hc : Cursor.Of t.root c) (htokens : c.element.tokens ≠ []) :
    (c.lineIndent? = some s ↔
      Text.lineBefore? t.source c.span.start = some s ∧ s.toList.all Text.blank = true ∧
        ∀ prev, c.prevToken? = some prev → prev.StartsBehind c s) ∧
    ∀ (concrete : Concrete) (l : Label) (source : String),
      concrete.build? l source = some t.root →
      (∀ prev, c.prevToken? = some prev → prev.Solid) →
      (c.lineIndent? = some s ↔
        Text.lineBefore? t.source c.span.start = some s ∧ s.toList.all Text.blank = true) := by
  rw [lineIndent?_iff_feed ht hc htokens]
  constructor
  · refine and_congr_right fun hline => and_congr_right fun _ => ?_
    exact forall₂_congr fun prev hprev => feed_iff_startsBehind ht hc hprev hline
  · intro concrete l source hbuild hsolid
    refine ⟨fun h => ⟨h.1, h.2.1⟩, fun h => ⟨h.1, h.2, fun prev hprev => ?_⟩⟩
    exact feed_of_solid hbuild hc htokens hprev (hsolid prev hprev) h.1 h.2

end Tree

theorem Sample.lineIndent_tabbed :
    ∃ (t : Tree) (c prev : Cursor), Sample.tabbed.build? [] Sample.tabbedText = some t.root ∧
      t.root.sound = true ∧ Cursor.Of t.root c ∧ c.path = [0, 1] ∧ c.element.tokens ≠ [] ∧
      c.prevToken? = some prev ∧ prev.Solid ∧
      Text.lineBefore? t.source c.span.start = some "\t" ∧ c.lineIndent? = some "\t" ∧
      prev.StartsBehind c "\t" := by
  have hrun : ((Sample.tabbed.build? [] Sample.tabbedText).bind fun root =>
      ((Cursor.ofRoot root).at? [0, 1]).bind fun c =>
        c.prevToken?.filter fun prev =>
          c.element.tokens ≠ [] ∧ prev.text = "\x7b" ∧ prev.element.trailing = "\n" ∧
            Text.lineBefore? (Tree.source { root }) c.span.start = some "\t").isSome = true := by
    decide +kernel
  obtain ⟨prev, hrun⟩ := Option.isSome_iff_exists.1 hrun
  simp only [Option.bind_eq_some_iff, Option.filter_eq_some_iff, decide_eq_true_eq] at hrun
  obtain ⟨root, hbuild, c, hc, hprev, htokens, htext, htrailing, hline⟩ := hrun
  have hof : Cursor.Of root c := Cursor.of_iff.2 ⟨_, hc⟩
  have hsound := Concrete.sound_of_build hbuild
  have hsolid : prev.Solid := by
    refine ⟨⟨'\x7b', by rw [htext]; decide, by decide, rfl⟩, fun ps hps body => ?_⟩
    rw [htrailing] at hps
    have hfeed : Piece.Proper [Piece.feed] := ⟨by simp [Piece.feed, Piece.Fits], trivial⟩
    obtain rfl := Piece.eq_of_proper hps.1 hfeed hps.2
    simp [Piece.feed]
  obtain ⟨hbehind, hblanks⟩ := Tree.lineIndent_eq_some_iff { root } c "\t" hsound hof htokens
  have hindent : c.lineIndent? = some "\t" := by
    refine (hblanks _ _ _ hbuild fun other hother => ?_).2 ⟨hline, by decide⟩
    rwa [← Option.some.inj (hprev.symm.trans hother)]
  exact ⟨{ root }, c, prev, hbuild, hsound, hof, Cursor.path_at hc, htokens, hprev, hsolid, hline,
    hindent, (hbehind.1 hindent).2.2 prev hprev⟩

namespace Sample

def patched : Concrete :=
  branch "block" 0 6
    [leaf "\x7b" 0 1,
      .node { kind := ";", start := 2, stop := 2, extra := false, missing := true, error := false,
              hasError := true } [],
      branch "expression_statement" 4 6 [leaf "identifier" 4 5, leaf ";" 5 6]]

def patchedText : String := "\x7b\n  x;"

end Sample

/-- Behind a token that was made up there is no indentation. -/
theorem Sample.lineIndent_patched :
    ∃ (t : Tree) (c : Cursor), Sample.patched.build? [] Sample.patchedText = some t.root ∧
      t.root.sound = true ∧ Cursor.Of t.root c ∧ c.element.tokens ≠ [] ∧
      Text.lineBefore? t.source c.span.start = some "  " ∧ "  ".toList.all Text.blank = true ∧
      c.lineIndent? = none := by
  have hrun : ((Sample.patched.build? [] Sample.patchedText).bind fun root =>
      ((Cursor.ofRoot root).at? [2]).filter fun c =>
        c.element.tokens ≠ [] ∧ Text.lineBefore? (Tree.source { root }) c.span.start = some "  " ∧
          c.lineIndent? = none).isSome = true := by
    decide +kernel
  obtain ⟨c, hrun⟩ := Option.isSome_iff_exists.1 hrun
  simp only [Option.bind_eq_some_iff, Option.filter_eq_some_iff, decide_eq_true_eq] at hrun
  obtain ⟨root, hbuild, hc, htokens, hline, hnone⟩ := hrun
  exact ⟨{ root }, c, hbuild, Concrete.sound_of_build hbuild, Cursor.of_iff.2 ⟨_, hc⟩, htokens,
    hline, by decide, hnone⟩

end CancellationLint
