import CancellationLint.Proofs.Positions
import CancellationLint.Proofs.Detected

/-! # What is reported

Each if statement that is flagged gives one diagnostic. In a tree whose if statements all start with
a token of their own, two spans are apart or one lies inside the other and starts later, so no two
diagnostics start at the same place. -/

namespace CancellationLint

/-- The first span starts earlier than the second and does not end earlier. -/
def Span.Encloses (outer inner : Span) : Prop :=
  outer.start < inner.start ∧ inner.stop ≤ outer.stop

namespace Cursor

variable {root : Element} {c d : Cursor}

theorem span_le_fullSpan (hc : c.element.sound = true) :
    c.offset ≤ c.span.start ∧ c.span.stop ≤ c.fullSpan.stop := by
  have hsplit := congrArg String.utf8ByteSize c.element.fullText_split
  simp only [String.utf8ByteSize_append] at hsplit
  simp only [span_eq hc, fullSpan, Element.width_eq hc, text]
  omega

theorem Of.span_le_of_precedes (hroot : root.sound = true) (hc : Of root c) (hd : Of root d)
    (h : Path.Precedes c.path d.path) : c.span.stop ≤ d.span.start := by
  obtain ⟨m, hm⟩ := Element.before_of_precedes h hc.element_at
  have hoffset : c.fullSpan.stop ≤ d.offset := by
    simp only [fullSpan, hc.offset_eq hroot, hd.offset_eq hroot, hm,
      Element.width_eq (hc.sound hroot), Element.fullText_eq, Token.fullOf_append,
      String.utf8ByteSize_append]
    omega
  have := (span_le_fullSpan (hc.sound hroot)).2
  have := (span_le_fullSpan (hd.sound hroot)).1
  omega

theorem Of.encloses_of_below {p : Path} (hroot : root.sound = true) (hc : Of root c)
    (hled : c.element.ifLed = true) (hnode : c.isNode = true) (hkind : c.kind = .ifStatement)
    (hp : p ≠ []) (hd : at? p c = some d) (hdnode : d.isNode = true)
    (hdtokens : d.element.tokens ≠ []) : c.span.Encloses d.span := by
  have hat := Cursor.element_at hd
  have htokens : c.element.tokens ≠ [] := by
    rw [Element.tokens_at hat]
    simp [hdtokens]
  obtain ⟨i, first, t, hi, helem, htext, hnone, hstart⟩ :=
    exists_firstChild (hc.sound hroot) hled hnode hkind htokens
  refine ⟨?_, (span_at (hc.sound hroot) hd hdtokens).2⟩
  obtain ⟨j, q, rfl⟩ := List.exists_cons_of_ne_nil hp
  obtain ⟨x, hx, hq⟩ := Option.bind_eq_some_iff.1 hd
  have hij : i < j := by
    by_contra hle
    rcases Nat.lt_or_eq_of_le (Nat.le_of_not_lt hle) with hlt | rfl
    · -- To the left of the first token there are no tokens.
      have hempty := Element.tokens_of_left hnone hlt (element_childAt hx)
      rw [Element.tokens_at (Cursor.element_at hq)] at hempty
      simp [hdtokens] at hempty
    · obtain rfl : first = x := Option.some.inj (hi.symm.trans hx)
      cases q with
      | nil =>
        cases hq
        rw [isNode, helem] at hdnode
        cases hdnode
      | cons k q =>
        obtain ⟨y, hy, -⟩ := Option.bind_eq_some_iff.1 hq
        have := isNode_of_childAt hy
        rw [isNode, helem] at this
        cases this
  have hfirst : Path.Precedes first.path d.path := by
    rw [path_childAt hi, path_at hd]
    exact Path.Precedes.append_left c.path (Or.inl hij)
  have hle := (hc.child hi).span_le_of_precedes hroot (hc.at hd) hfirst
  have hstop : first.span.start < first.span.stop := by
    have := String.utf8ByteSize_eq_zero_iff.not.2 htext
    rw [span, helem]
    simp only
    omega
  omega

end Cursor

namespace Tree

variable {t : Tree} {oracle : Oracle}

theorem mem_statements_iff {c : Cursor} :
    c ∈ (t.flagged oracle).map Check.statement ↔ Cursor.Of t.root c ∧ c.isNode = true ∧
      c.kind = .ifStatement ∧ (Check.flagged? oracle c).isSome = true := by
  rw [List.mem_map]
  constructor
  · rintro ⟨check, hcheck, rfl⟩
    obtain ⟨hof, hmatch⟩ := of_mem_flagged hcheck
    obtain ⟨c, hc, hflag⟩ := List.mem_filterMap.1 hcheck
    obtain ⟨-, rfl, -⟩ := flagged?_eq_some hflag
    obtain ⟨⟨hnode, hkind⟩, -⟩ := Check.ofNode_eq_ok_iff.1 hmatch
    exact ⟨hof, hnode, hkind, by rw [hflag]; rfl⟩
  · rintro ⟨hof, hnode, -, hsome⟩
    obtain ⟨check, hflag⟩ := Option.isSome_iff_exists.1 hsome
    exact ⟨check, List.mem_filterMap.2 ⟨c, Cursor.mem_nodes_ofRoot.2 ⟨hnode, hof⟩, hflag⟩,
      (flagged?_eq_some hflag).2.1⟩

theorem span_of_before {a b : Check} (ht : t.root.sound = true)
    (hled : t.root.all Element.ifLed = true) (ha : a ∈ t.flagged oracle)
    (hb : b ∈ t.flagged oracle) (h : Path.Before a.statement.path b.statement.path) :
    a.statement.span.stop ≤ b.statement.span.start ∨
      a.statement.span.Encloses b.statement.span := by
  obtain ⟨haof, hamatch⟩ := of_mem_flagged ha
  obtain ⟨hbof, hbmatch⟩ := of_mem_flagged hb
  obtain ⟨⟨hanode, hakind⟩, -⟩ := Check.ofNode_eq_ok_iff.1 hamatch
  obtain ⟨⟨hbnode, -⟩, -⟩ := Check.ofNode_eq_ok_iff.1 hbmatch
  by_cases hpre : a.statement.path <+: b.statement.path
  · right
    obtain ⟨p, hp⟩ := hpre
    have hbelow := hbof.at_path
    rw [← hp, Cursor.at?_append, haof.at_path, Option.bind_some] at hbelow
    refine haof.encloses_of_below ht (Element.test_of_all (Element.all_at hled haof.element_at))
      hanode hakind ?_ hbelow hbnode (tokens_ne_nil_of_check hbmatch)
    rintro rfl
    exact h.2 (by rw [← hp, List.append_nil])
  · exact Or.inl (haof.span_le_of_precedes ht hbof (Path.precedes_of_le h.1 hpre))

theorem span_start_lt_stop {check : Check} (ht : t.root.sound = true)
    (h : check ∈ t.flagged oracle) :
    check.statement.span.start < check.statement.span.stop := by
  obtain ⟨hof, hmatch⟩ := of_mem_flagged h
  have hflag := Check.flag_le_text hmatch
  have hpos : 0 < cancellationFlag.utf8ByteSize := by decide
  rw [Cursor.span_eq (hof.sound ht)]
  simp only
  omega

end Tree

/-- The diagnostic points at the text of the element, without the trivia around it. -/
structure Diagnostic.PointsAt (t : Tree) (c : Cursor) (d : Diagnostic) : Prop where
  file : d.location.file = t.file
  span : d.location.span = c.span
  source : ∃ text, Text.slice? t.source d.location.span.start d.location.span.stop = some text ∧
    c.element.fullText = c.element.leading ++ text ++ c.element.trailing

/-- There is one diagnostic for each if statement that is flagged, in the order of their starts. -/
theorem Tree.detect_reports (t : Tree) (oracle : Oracle) (severity : Severity)
    (ht : t.root.sound = true) (hled : t.root.all Element.ifLed = true) :
    (∃ statements : List Cursor, statements.Nodup ∧
      (∀ c, c ∈ statements ↔ Cursor.Of t.root c ∧ c.isNode = true ∧ c.kind = .ifStatement ∧
        (Check.flagged? oracle c).isSome = true) ∧
      List.Forall₂ (Diagnostic.PointsAt t) statements (t.detect oracle severity)) ∧
    ((t.detect oracle severity).Pairwise fun a b =>
      a.location.span.start < b.location.span.start) ∧
    ((t.detect oracle severity).Pairwise fun a b =>
      a.location.span.stop ≤ b.location.span.start ∨
        a.location.span.Encloses b.location.span) := by
  have hsorted := flagged_sorted t oracle
  refine ⟨⟨(t.flagged oracle).map Check.statement, ?_, fun c => mem_statements_iff, ?_⟩, ?_, ?_⟩
  · refine List.Pairwise.map _ (fun a b hlt heq => ?_) hsorted
    rw [heq] at hlt
    exact hlt.2 rfl
  · rw [detect, List.forall₂_map_left_iff, List.forall₂_map_right_iff, List.forall₂_same]
    intro check hcheck
    obtain ⟨hof, -⟩ := of_mem_flagged hcheck
    exact ⟨rfl, rfl, _, hof.slice_span ht, Element.fullText_split _⟩
  · refine List.Pairwise.map _ (fun a b h => h) (hsorted.imp_of_mem fun ha hb hlt => ?_)
    have hstop := span_start_lt_stop ht ha
    rcases span_of_before ht hled ha hb hlt with hle | henc
    · exact hstop.trans_le hle
    · exact henc.1
  · exact List.Pairwise.map _ (fun a b h => h)
      (hsorted.imp_of_mem fun ha hb hlt => span_of_before ht hled ha hb hlt)

theorem Sample.detect_reports_tree :
    Sample.tree.root.sound = true ∧ Sample.tree.root.all Element.ifLed = true ∧
      (Sample.tree.detect Scope.oracle .warning).map (·.location.span) =
        [{ start := 27, stop := 118 }, { start := 71, stop := 114 },
          { start := 119, stop := 162 }] ∧
      (∃ statements : List Cursor, statements.Nodup ∧
        List.Forall₂ (Diagnostic.PointsAt Sample.tree) statements
          (Sample.tree.detect Scope.oracle .warning)) ∧
      (Sample.tree.detect Scope.oracle .warning).Pairwise fun a b =>
        a.location.span.stop ≤ b.location.span.start ∨
          a.location.span.Encloses b.location.span := by
  have hsound : Sample.tree.root.sound = true := by decide
  have hled : Sample.tree.root.all Element.ifLed = true := by decide
  obtain ⟨⟨statements, hnodup, -, hpoints⟩, -, hspans⟩ :=
    Tree.detect_reports Sample.tree Scope.oracle .warning hsound hled
  exact ⟨hsound, hled, by decide +kernel, ⟨statements, hnodup, hpoints⟩, hspans⟩

end CancellationLint
