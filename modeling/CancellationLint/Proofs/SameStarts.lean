import CancellationLint.Proofs.UpToLabels
import CancellationLint.Proofs.Detected

/-! # Fixing depends on where the diagnostics start

Neither the order nor the number of the diagnostics matters, and nothing else of them than the
offsets at which they start. -/

namespace CancellationLint

namespace Fix

theorem alike_callStatement {l m : Label} (receiver : Element) :
    (callStatement l receiver).alike (callStatement m receiver) = true := by
  unfold callStatement
  refine Element.alike_make ?_
  refine List.Forall₂.cons ?_ (List.Forall₂.cons (by rfl) List.Forall₂.nil)
  refine Element.alike_make ?_
  refine List.Forall₂.cons ?_ (List.Forall₂.cons (by rfl) List.Forall₂.nil)
  refine Element.alike_make ?_
  refine List.Forall₂.cons (Element.alike_refl receiver) ?_
  exact List.Forall₂.cons (by rfl) (List.Forall₂.cons (by rfl) List.Forall₂.nil)

theorem alike_replacementFor {l m : Label} (check : Check) (indent : Option String) :
    (replacementFor l check indent).alike (replacementFor m check indent) = true := by
  have hcall := @alike_callStatement (l.sub 0) (m.sub 0) check.receiver.element
  unfold replacementFor
  refine Element.alike_withReformat (Element.alike_withTrailing ?_)
  rw [Element.leading_of_alike hcall]
  split
  · exact hcall
  · exact Element.alike_withLeading hcall

/-- Where a fix applies and the text it puts there. -/
def shown (fix : Fix) : Path × Span × Span × String :=
  (fix.path, fix.span, fix.fullSpan, fix.replacement.fullText)

theorem Mends.shown_eq {check : Check} {fix : Fix} (h : Mends check fix) :
    fix.shown = (ofCheck [] check).shown := by
  obtain ⟨l, rfl⟩ := h
  have := Element.fullText_of_alike
    (@alike_replacementFor l [] check check.statement.lineIndent?)
  simp [shown, ofCheck, this]

end Fix

namespace FixAll

theorem map_shown_eq {checks : List Check} {fixes : List Fix}
    (h : List.Forall₂ Fix.Mends checks fixes) :
    fixes.map Fix.shown = checks.map fun k => (Fix.ofCheck [] k).shown := by
  induction h with
  | nil => rfl
  | cons hmend _ ih => rw [List.map_cons, List.map_cons, ih, hmend.shown_eq]

theorem alike_applyAll {l m : Label} {i j : Nat} {checks : List Check} {fs gs : List Fix}
    {s s' t t' : Tree} (hf : List.Forall₂ Fix.Mends checks fs)
    (hg : List.Forall₂ Fix.Mends checks gs) (h : s.root.alike t.root = true)
    (hs : applyAll l i s fs = .ok s') (ht : applyAll m j t gs = .ok t') :
    s'.root.alike t'.root = true := by
  induction hf generalizing gs s t i j with
  | nil =>
    cases hg
    cases hs
    cases ht
    exact h
  | @cons check f checks fs hfix _ ih =>
    cases hg with
    | @cons _ g _ gs hfix' hrest =>
      obtain ⟨lf, rfl⟩ := hfix
      obtain ⟨lg, rfl⟩ := hfix'
      obtain ⟨-, a, ha, hs⟩ := applyAll_cons_eq_ok hs
      obtain ⟨-, b, hb, ht⟩ := applyAll_cons_eq_ok ht
      exact ih hrest (Element.alike_put h (Fix.alike_replacementFor check _) ha hb) hs ht

end FixAll

namespace Tree

/-- Diagnostics that start at the same offsets are fixed alike, or neither are fixed. -/
theorem fixAll_of_same_starts (t : Tree) (l m : Label) (ds es : List Diagnostic)
    (h : ∀ n, n ∈ starts ds ↔ n ∈ starts es) :
    (∃ e e', t.fixAll l ds = .error e ∧ t.fixAll m es = .error e') ∨
      ∃ a b, t.fixAll l ds = .ok a ∧ t.fixAll m es = .ok b ∧
        a.tree.source = b.tree.source ∧ a.tree.root.alike b.tree.root = true ∧
        a.applied.map Fix.shown = b.applied.map Fix.shown ∧
        a.conflicts.map Fix.shown = b.conflicts.map Fix.shown := by
  have hiff : (∃ out, t.fixAll l ds = .ok out) ↔ ∃ out, t.fixAll m es = .ok out := by
    simp only [fixAll_ok_iff, h]
  cases hl : t.fixAll l ds with
  | error e =>
    cases hm : t.fixAll m es with
    | error e' => exact Or.inl ⟨e, e', rfl, rfl⟩
    | ok b =>
      obtain ⟨a, ha⟩ := hiff.2 ⟨b, hm⟩
      rw [hl] at ha
      cases ha
  | ok a =>
    obtain ⟨b, hb⟩ := hiff.1 ⟨a, hl⟩
    obtain ⟨-, checks, haims, hrun⟩ := run_of_fixAll hl
    obtain ⟨-, checks', haims', hrun'⟩ := run_of_fixAll hb
    obtain rfl := haims.unique haims' h
    have halike : a.tree.root.alike b.tree.root = true :=
      FixAll.alike_applyAll hrun.applied hrun'.applied (Element.alike_refl t.root) hrun.tree
        hrun'.tree
    refine Or.inr ⟨a, b, rfl, hb, Element.fullText_of_alike halike, halike, ?_, ?_⟩
    · rw [FixAll.map_shown_eq hrun.applied, FixAll.map_shown_eq hrun'.applied]
    · rw [FixAll.map_shown_eq hrun.conflicts, FixAll.map_shown_eq hrun'.conflicts]

end Tree

theorem Sample.fixAll_backwards :
    let found := Sample.tree.detect Scope.oracle .warning
    (∀ n, n ∈ Tree.starts found ↔ n ∈ Tree.starts (found.reverse ++ found)) ∧
      ∃ a b, Sample.tree.fixAll [] found = .ok a ∧
        Sample.tree.fixAll [1] (found.reverse ++ found) = .ok b ∧
        a.tree.source = b.tree.source ∧
        a.applied.map Fix.shown = b.applied.map Fix.shown := by
  intro found
  have hsame : ∀ n, n ∈ Tree.starts found ↔ n ∈ Tree.starts (found.reverse ++ found) := by
    intro n
    simp [Tree.starts, found]
  refine ⟨hsame, ?_⟩
  have hok : ∃ out, Sample.tree.fixAll [] found = .ok out := by
    have hall : ((Tree.starts found).all fun n =>
        (Sample.tree.checkAt? n).any (·.statement.path ≠ [])) = true := by decide
    rw [Tree.fixAll_ok_iff]
    intro n hn
    simpa [Option.any_eq_true] using List.all_eq_true.1 hall n hn
  rcases Tree.fixAll_of_same_starts Sample.tree [] [1] found (found.reverse ++ found) hsame with
    ⟨e, e', he, -⟩ | ⟨a, b, ha, hb, hsource, -, happlied, -⟩
  · obtain ⟨out, hout⟩ := hok
    rw [he] at hout
    cases hout
  · exact ⟨a, b, ha, hb, hsource, happlied⟩

end CancellationLint
