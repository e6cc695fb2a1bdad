import CancellationLint.Proofs.Plan

/-! # Fixing what was detected

In a tree whose if statements all start with a token of their own, a diagnostic leads back to the
statement it was made for. So whatever is picked from the diagnostics of a tree can be fixed. -/

namespace CancellationLint
namespace Tree

theorem flagged?_eq_some {oracle : Oracle} {c : Cursor} {check : Check}
    (h : Check.flagged? oracle c = some check) :
    Check.ofNode c = .ok check ∧ check.statement = c ∧
      (oracle check.receiver).any (·.name = tokenType) = true := by
  unfold Check.flagged? at h
  cases hcheck : Check.ofNode c with
  | error m =>
    simp only [hcheck] at h
    cases h
  | ok found =>
    simp only [hcheck] at h
    split at h
    · rename_i htype
      cases h
      exact ⟨rfl, Check.statement_of_ofNode hcheck, htype⟩
    · cases h

theorem of_mem_flagged {t : Tree} {oracle : Oracle} {check : Check}
    (h : check ∈ t.flagged oracle) :
    Cursor.Of t.root check.statement ∧ Check.ofNode check.statement = .ok check := by
  obtain ⟨c, hc, hflag⟩ := List.mem_filterMap.1 h
  obtain ⟨hcheck, hst, -⟩ := flagged?_eq_some hflag
  rw [hst]
  exact ⟨(Cursor.mem_nodes_ofRoot.1 hc).2, hcheck⟩

theorem flagged_sorted (t : Tree) (oracle : Oracle) :
    (t.flagged oracle).Pairwise fun a b => Path.Before a.statement.path b.statement.path := by
  refine List.Pairwise.filterMap _ (fun c d hlt a ha b hb => ?_) (Cursor.pairwise_nodes t.cursor)
  rw [(flagged?_eq_some ha).2.1, (flagged?_eq_some hb).2.1]
  exact hlt

theorem tokens_ne_nil_of_check {c : Cursor} {check : Check} (h : Check.ofNode c = .ok check) :
    c.element.tokens ≠ [] := by
  intro hnil
  have hflag := Check.flag_le_text h
  rw [Cursor.text, Element.text_eq, hnil] at hflag
  exact absurd hflag (by decide)

/-- A diagnostic leads back to the check that it was made for. -/
theorem checkAt?_start {t : Tree} {check : Check} (ht : t.root.sound = true)
    (hled : t.root.all Element.ifLed = true) (hof : Cursor.Of t.root check.statement)
    (hcheck : Check.ofNode check.statement = .ok check) :
    t.checkAt? check.statement.span.start = some check := by
  obtain ⟨⟨hnode, hkind⟩, -⟩ := Check.ofNode_eq_ok_iff.1 hcheck
  exact checkAt?_of_locate
    (locate_start ht hled hof hnode hkind (tokens_ne_nil_of_check hcheck)) hcheck

theorem path_ne_nil_of_kind {t : Tree} {c : Cursor} (hroot : t.root.kind ≠ .ifStatement)
    (hof : Cursor.Of t.root c) (hkind : c.kind = .ifStatement) : c.path ≠ [] := by
  intro hnil
  rw [hof.eq_of_path Cursor.Of.root hnil] at hkind
  exact hroot hkind

theorem fixAll_picked {t : Tree} {oracle : Oracle} {picked : List Check} (l : Label)
    (lines : Text.LineIndex) (severity : Severity) (ht : t.root.sound = true)
    (hroot : t.root.kind ≠ .ifStatement) (hled : t.root.all Element.ifLed = true)
    (hpicked : ∀ check ∈ picked, check ∈ t.flagged oracle) :
    ∃ out checks, t.fixAll l (picked.map (t.diagnostic lines severity)) = .ok out ∧
      (∀ check, check ∈ checks ↔ check ∈ picked) ∧
      t.Aims (starts (picked.map (t.diagnostic lines severity))) checks ∧
      FixAll.Run t l checks out := by
  have hback : ∀ check ∈ picked, t.checkAt? check.statement.span.start = some check := by
    intro check hmem
    obtain ⟨hof, hcheck⟩ := of_mem_flagged (hpicked check hmem)
    exact checkAt?_start ht hled hof hcheck
  have hstarts : starts (picked.map (t.diagnostic lines severity)) =
      picked.map (·.statement.span.start) := by
    simp [starts, diagnostic]
  have hok : ∃ out, t.fixAll l (picked.map (t.diagnostic lines severity)) = .ok out := by
    rw [fixAll_ok_iff, hstarts]
    intro n hn
    obtain ⟨check, hmem, rfl⟩ := List.mem_map.1 hn
    obtain ⟨hof, hcheck⟩ := of_mem_flagged (hpicked check hmem)
    exact ⟨check, hback check hmem,
      path_ne_nil_of_kind hroot hof (Check.ofNode_eq_ok_iff.1 hcheck).1.2⟩
  obtain ⟨out, hout⟩ := hok
  obtain ⟨-, checks, haims, hrun⟩ := run_of_fixAll hout
  refine ⟨out, checks, hout, fun check => ?_, haims, hrun⟩
  rw [haims.mem_iff, hstarts]
  constructor
  · rintro ⟨n, hn, hcheck⟩
    obtain ⟨k, hk, rfl⟩ := List.mem_map.1 hn
    obtain rfl : check = k := Option.some.inj (hcheck.symm.trans (hback k hk))
    exact hk
  · intro hmem
    exact ⟨_, List.mem_map_of_mem hmem, hback check hmem⟩

theorem fullSpan_start_lt {t : Tree} {a b : Check} (ht : t.root.sound = true)
    (ha : Cursor.Of t.root a.statement) (hb : Cursor.Of t.root b.statement)
    (hcheck : Check.ofNode a.statement = .ok a)
    (h : Path.Precedes a.statement.path b.statement.path) :
    a.statement.fullSpan.start < b.statement.fullSpan.start := by
  obtain ⟨m, hm⟩ := Element.before_of_precedes h ha.element_at
  have hsplit := congrArg String.utf8ByteSize (Token.fullOf_eq a.statement.element.tokens)
  have hflag := Check.flag_le_text hcheck
  have hsize : 0 < cancellationFlag.utf8ByteSize := by decide
  simp only [Cursor.text, Element.text_eq] at hflag
  simp only [String.utf8ByteSize_append] at hsplit
  simp only [Cursor.fullSpan, ha.offset_eq ht, hb.offset_eq ht, hm, Token.fullOf_append,
    String.utf8ByteSize_append]
  omega

/-- The outermost of the detected statements are replaced, and the others are conflicts. -/
theorem fixAll_detect (t : Tree) (l : Label) (oracle : Oracle) (severity : Severity)
    (ht : t.root.sound = true) (hroot : t.root.kind ≠ .ifStatement)
    (hled : t.root.all Element.ifLed = true) :
    ∃ out, t.fixAll l (t.detect oracle severity) = .ok out ∧
      List.Forall₂ Fix.Mends ((t.flagged oracle).filter (FixAll.outermost (t.flagged oracle)))
        out.applied ∧
      List.Forall₂ Fix.Mends ((t.flagged oracle).filter (!FixAll.outermost (t.flagged oracle) ·))
        out.conflicts ∧
      ((out.applied ++ out.conflicts).map Fix.path).Perm
        ((t.flagged oracle).map (·.statement.path)) ∧
      ((out.applied ++ out.conflicts).map Fix.path).Nodup ∧
      out.applied.Pairwise fun a b => a.fullSpan.start < b.fullSpan.start := by
  obtain ⟨out, checks, hout, hmem, haims, hrun⟩ :=
    fixAll_picked l (Text.LineIndex.ofText t.source) severity ht hroot hled
      (fun check (h : check ∈ t.flagged oracle) => h)
  obtain rfl : checks = t.flagged oracle :=
    Path.eq_of_mem_iff (f := fun k : Check => k.statement.path) haims.sorted
      (flagged_sorted t oracle) hmem
  have hperm : ((out.applied ++ out.conflicts).map Fix.path).Perm
      ((t.flagged oracle).map (·.statement.path)) := by
    rw [List.map_append, FixAll.map_path_eq hrun.applied, FixAll.map_path_eq hrun.conflicts,
      ← List.map_append]
    exact (List.filter_append_perm _ _).map _
  have hnodup : ((t.flagged oracle).map (·.statement.path)).Nodup := by
    refine List.Pairwise.map _ (fun a b hlt => ?_) (flagged_sorted t oracle)
    exact hlt.2
  refine ⟨out, hout, hrun.applied, hrun.conflicts, hperm, hperm.nodup_iff.2 hnodup, ?_⟩
  refine (FixAll.precedes_of_mends haims hrun.applied).imp_of_mem fun ha hb hpre => ?_
  obtain ⟨a, hamem, la, rfl⟩ := FixAll.exists_check_of_mem hrun.applied ha
  obtain ⟨b, hbmem, lb, rfl⟩ := FixAll.exists_check_of_mem hrun.applied hb
  obtain ⟨haof, hcheck⟩ := of_mem_flagged (List.mem_of_mem_filter hamem)
  obtain ⟨hbof, -⟩ := of_mem_flagged (List.mem_of_mem_filter hbmem)
  exact fullSpan_start_lt ht haof hbof hcheck hpre

end Tree

namespace Sample

/-! ## A tree to look at

A method with two checks, the first of which holds a third one in the exception it throws. -/

def token (kind : Kind) (text : String) : Element :=
  .token { label := [], kind, text, trailing := " " }

def check (name : String) (thrown : List Element) : Element :=
  .make [] .ifStatement
    [token .ifKeyword "if", token .openParen "(",
      .make [] .memberAccessExpression
        [token .identifier name, token .dot ".", token .identifier cancellationFlag],
      token .closeParen ")",
      .make [] .throwStatement (token .throwKeyword "throw" :: thrown ++ [token .semicolon ";"])]

def block (statements : List Element) : Element :=
  .make [] .block (token .openBrace "\x7b" :: statements ++ [token .closeBrace "\x7d"])

def method (type : Element) (name : String) (body : Element) : Element :=
  .make [] .methodDeclaration
    [.make [] .parameterList
      [token .openParen "(", .make [] .parameter [type, token .identifier name],
        token .closeParen ")"],
      body]

def tree : Tree :=
  { root := .make [] .compilationUnit
      [method (token .identifier "CancellationToken") "ct"
        (block [check "ct" [block [check "ct" []]], check "ct" []])] }

end Sample

theorem Sample.fixAll_detect_tree :
    Sample.tree.root.sound = true ∧ Sample.tree.root.kind ≠ .ifStatement ∧
      Sample.tree.root.all Element.ifLed = true ∧
      (Sample.tree.flagged Scope.oracle).map (·.statement.path) =
        [[0, 1, 1], [0, 1, 1, 4, 1, 1], [0, 1, 2]] ∧
      ∃ out, Sample.tree.fixAll [] (Sample.tree.detect Scope.oracle .warning) = .ok out ∧
        out.applied.map Fix.path = [[0, 1, 1], [0, 1, 2]] ∧
        out.conflicts.map Fix.path = [[0, 1, 1, 4, 1, 1]] := by
  have hsound : Sample.tree.root.sound = true := by decide
  have hroot : Sample.tree.root.kind ≠ .ifStatement := by decide
  have hled : Sample.tree.root.all Element.ifLed = true := by decide
  have hpaths : (Sample.tree.flagged Scope.oracle).map (·.statement.path) =
      [[0, 1, 1], [0, 1, 1, 4, 1, 1], [0, 1, 2]] := by decide
  obtain ⟨out, hout, happlied, hconflicts, -⟩ :=
    Tree.fixAll_detect Sample.tree [] Scope.oracle .warning hsound hroot hled
  refine ⟨hsound, hroot, hled, hpaths, out, hout, ?_, ?_⟩
  · rw [FixAll.map_path_eq happlied]
    decide
  · rw [FixAll.map_path_eq hconflicts]
    decide

end CancellationLint
