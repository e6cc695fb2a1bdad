import CancellationLint.Proofs.Attributed
import CancellationLint.Proofs.SameScope

/-! # What is left to flag

After fixes, the rule flags the checks that it flagged before, but for those that were fixed and
those inside of them. The same holds after the layout of the calls. -/

namespace CancellationLint

/-! ## What is flagged -/

namespace Tree

/-- Where the flagged statements are. -/
def flaggedPaths (t : Tree) : List Path := (t.flagged Scope.oracle).map (·.statement.path)

/-- Where the flagged statements are that diagnostics were made for. -/
def pointedAt (t : Tree) (diagnostics : List Diagnostic) : List Path :=
  ((t.flagged Scope.oracle).filter fun check =>
    diagnostics.any (·.location.span = check.statement.span)).map (·.statement.path)

theorem mem_flaggedPaths_iff {t : Tree} {p : Path} :
    p ∈ t.flaggedPaths ↔ ∃ c, Cursor.Of t.root c ∧ c.path = p ∧
      (Check.flagged? Scope.oracle c).isSome = true := by
  constructor
  · intro hp
    obtain ⟨check, hcheck, rfl⟩ := List.mem_map.1 hp
    obtain ⟨c, hc, hflag⟩ := List.mem_filterMap.1 hcheck
    rw [(flagged?_eq_some hflag).2.1]
    exact ⟨c, (Cursor.mem_nodes_ofRoot.1 hc).2, rfl, by rw [hflag]; rfl⟩
  · rintro ⟨c, hc, rfl, hflag⟩
    obtain ⟨check, hcheck⟩ := Option.isSome_iff_exists.1 hflag
    obtain ⟨hok, hst, -⟩ := flagged?_eq_some hcheck
    have hnode := (Check.ofNode_eq_ok_iff.1 hok).1.1
    refine List.mem_map.2 ⟨check, List.mem_filterMap.2 ⟨c, ?_, hcheck⟩, by rw [hst]⟩
    exact Cursor.mem_nodes_ofRoot.2 ⟨hnode, hc⟩

theorem sorted_flaggedPaths (t : Tree) : t.flaggedPaths.Pairwise Path.Before :=
  List.pairwise_map.2 (flagged_sorted t Scope.oracle)

end Tree

namespace Repair

theorem mem_flaggedPaths_new (r : Repair) {t t' : Tree} (hold : t.root = r.old)
    (hnew : t'.root = r.new) {p : Path} :
    p ∈ t'.flaggedPaths ↔ p ∈ t.flaggedPaths ∧ ∀ q, q <+: p → ¬ r.cut q := by
  rw [Tree.mem_flaggedPaths_iff, Tree.mem_flaggedPaths_iff, hold, hnew]
  constructor
  · rintro ⟨c', hc', rfl, hflag⟩
    -- An if statement afterwards is in no call.
    have hcut : ∀ q, q <+: c'.path → ¬ r.cut q := by
      intro q hq hcut
      obtain ⟨check, hcheck⟩ := Option.isSome_iff_exists.1 hflag
      obtain ⟨⟨hnode, hkind⟩, -⟩ := Check.ofNode_eq_ok_iff.1 (Tree.flagged?_eq_some hcheck).1
      exact r.mended.not_ifStatement hcut hq hc'.element_at hnode hkind
    obtain ⟨c, h⟩ := exists_twin_of_new hc' hcut
    rw [h.path_eq] at hcut ⊢
    rw [h.isSome_flagged_eq (hcut _ (List.prefix_refl _))] at hflag
    exact ⟨⟨c, h.of_old, rfl, hflag⟩, hcut⟩
  · rintro ⟨⟨c, hc, rfl, hflag⟩, hcut⟩
    obtain ⟨c', h⟩ := exists_twin hc hcut
    rw [← h.isSome_flagged_eq (hcut _ (List.prefix_refl _))] at hflag
    exact ⟨c', h.of_new, h.path_eq, hflag⟩

theorem flaggedPaths_eq (r : Repair) (t t' : Tree) (hold : t.root = r.old) (hnew : t'.root = r.new)
    {ps : List Path} (hps : ∀ q, r.cut q ↔ q ∈ ps ∧ Path.outermost ps q = true) :
    t'.flaggedPaths = t.flaggedPaths.filter fun p => !ps.any (·.isPrefixOf p) := by
  refine Path.eq_of_mem_iff (f := id) t'.sorted_flaggedPaths
    (t.sorted_flaggedPaths.filter _) fun p => ?_
  rw [r.mem_flaggedPaths_new hold hnew, List.mem_filter]
  refine and_congr_right fun _ => ?_
  simp only [Bool.not_eq_true', List.any_eq_false, List.isPrefixOf_iff_prefix]
  constructor
  · intro hcut q hq hpre
    obtain ⟨o, ho, hoq, hout⟩ := Path.exists_outermost hq
    exact hcut o (hoq.trans hpre) ((hps o).2 ⟨ho, hout⟩)
  · intro hnone q hpre hcut
    exact hnone q ((hps q).1 hcut).1 hpre

end Repair

/-! ## Fixing -/

/-- A receiver with a type holds no if statement. -/
theorem Scope.ifFree_of_oracle {root : Element} {c : Cursor} (hplain : root.plainNames = true)
    (hc : Cursor.Of root c) (h : (oracle c).isSome = true) : c.element.ifFree = true := by
  cases hnode : c.isNode with
  | false => exact Cursor.ifFree_of_token hnode
  | true =>
    have hread : c ∈ readParts c := by
      unfold readParts
      by_cases hid : c.kind = .identifier
      · simp [hid]
      by_cases haccess : c.kind = .memberAccessExpression
      · rw [oracle_of_memberAccess haccess hnode] at h
        rw [haccess]
        simp only
        cases hrec : c.receiver? with
        | none => simp [hrec] at h
        | some d =>
          cases hthis : isThis d with
          | true => simp [expression_of_isThis hthis]
          | false => simp [hrec, hthis] at h
      · rw [oracle_eq_none hid fun hk => absurd hk haccess] at h
        cases h
    exact ifFree_of_read hplain hc hnode hread

namespace Tree

theorem call_of_mem_flagged {t : Tree} {check : Check} {fix : Fix} (ht : t.root.sound = true)
    (hplain : t.root.plainNames = true) (hcheck : check ∈ t.flagged Scope.oracle)
    (hmend : Fix.Mends check fix) :
    Call fix.target fix.replacement ∧ fix.replacement.reformat.isSome = true := by
  obtain ⟨hof, hok⟩ := of_mem_flagged hcheck
  obtain ⟨c, -, hflag⟩ := List.mem_filterMap.1 hcheck
  obtain ⟨l, rfl⟩ := hmend
  have htyped : (Scope.oracle check.receiver).isSome = true := by
    have hany := (flagged?_eq_some hflag).2.2
    cases hor : Scope.oracle check.receiver with
    | none => simp [hor] at hany
    | some type => rfl
  have huse := Check.use_of_ofNode hof hok
  have hfree := Scope.ifFree_of_oracle hplain (huse.of.child huse.first) htyped
  obtain ⟨hcall, hasked⟩ := call_of_check l check.statement.lineIndent? ht hof hok hfree
  exact ⟨hcall, by rw [Fix.ofCheck, hasked]; rfl⟩

theorem mem_pointedAt_iff {t : Tree} {picked : List Check} {lines : Text.LineIndex}
    {severity : Severity} {p : Path} (ht : t.root.sound = true)
    (hled : t.root.all Element.ifLed = true)
    (hpicked : ∀ check ∈ picked, check ∈ t.flagged Scope.oracle) :
    p ∈ t.pointedAt (picked.map (t.diagnostic lines severity)) ↔
      p ∈ picked.map (·.statement.path) := by
  constructor
  · intro hp
    obtain ⟨check, hcheck, rfl⟩ := List.mem_map.1 hp
    obtain ⟨hflag, hany⟩ := List.mem_filter.1 hcheck
    obtain ⟨d, hd, hspan⟩ := List.any_eq_true.1 hany
    obtain ⟨k, hk, rfl⟩ := List.mem_map.1 hd
    have hstart : k.statement.span.start = check.statement.span.start :=
      congrArg Span.start (of_decide_eq_true hspan)
    obtain ⟨hof, hok⟩ := of_mem_flagged hflag
    obtain ⟨hkof, hkok⟩ := of_mem_flagged (hpicked k hk)
    have hback := checkAt?_start ht hled hof hok
    rw [← hstart, checkAt?_start ht hled hkof hkok] at hback
    cases hback
    exact List.mem_map_of_mem hk
  · intro hp
    obtain ⟨k, hk, rfl⟩ := List.mem_map.1 hp
    refine List.mem_map.2 ⟨k, List.mem_filter.2 ⟨hpicked k hk, ?_⟩, rfl⟩
    refine List.any_eq_true.2 ⟨_, List.mem_map_of_mem hk, ?_⟩
    exact decide_eq_true rfl

theorem exists_picked {t : Tree} {severity : Severity} {diagnostics : List Diagnostic}
    (h : ∀ d ∈ diagnostics, d ∈ t.detect Scope.oracle severity) :
    ∃ picked : List Check, (∀ check ∈ picked, check ∈ t.flagged Scope.oracle) ∧
      diagnostics = picked.map (t.diagnostic (Text.LineIndex.ofText t.source) severity) := by
  induction diagnostics with
  | nil => exact ⟨[], by simp, rfl⟩
  | cons d ds ih =>
    obtain ⟨picked, hpicked, rfl⟩ := ih fun x hx => h x (by simp [hx])
    obtain ⟨check, hcheck, rfl⟩ := List.mem_map.1 (h d (by simp))
    exact ⟨check :: picked, by simpa [hcheck] using hpicked, rfl⟩

theorem exists_mended {t : Tree} {severity : Severity} {diagnostics : List Diagnostic} (l : Label)
    (ht : t.root.sound = true) (hroot : t.root.kind ≠ .ifStatement)
    (hled : t.root.all Element.ifLed = true) (hplain : t.root.plainNames = true)
    (hd : ∀ d ∈ diagnostics, d ∈ t.detect Scope.oracle severity) :
    ∃ out, t.fixAll l diagnostics = .ok out ∧
      Mended true (fun p => p ∈ t.pointedAt diagnostics ∧
        Path.outermost (t.pointedAt diagnostics) p = true) t.root out.tree.root ∧
      out.tree.root.sound = true := by
  obtain ⟨picked, hpicked, rfl⟩ := exists_picked hd
  obtain ⟨out, checks, hout, hmem, haims, hrun⟩ :=
    fixAll_picked l (Text.LineIndex.ofText t.source) severity ht hroot hled hpicked
  have hflagged : ∀ check ∈ checks, check ∈ t.flagged Scope.oracle := fun check hcheck =>
    hpicked check ((hmem check).1 hcheck)
  have hstart : Mended true (fun _ => False) t.root t.root :=
    Mended.refl (fun _ => not_false) t.root
  obtain ⟨hm, hsound⟩ := hstart.applyAll ht (FixAll.precedes_of_mends haims hrun.applied)
    (fun _ _ _ hcut => hcut.elim)
    (fun fix hfix => by
      obtain ⟨check, hcheck, hmend⟩ := FixAll.exists_check_of_mem hrun.applied hfix
      exact FixAll.at?_of_mends haims (List.mem_of_mem_filter hcheck) hmend)
    (fun fix hfix => by
      obtain ⟨check, hcheck, hmend⟩ := FixAll.exists_check_of_mem hrun.applied hfix
      exact call_of_mem_flagged ht hplain (hflagged check (List.mem_of_mem_filter hcheck)) hmend)
    hrun.tree
  -- Which paths are outermost does not depend on how the checks are listed.
  have hsame : ∀ p, p ∈ checks.map (·.statement.path) ↔
      p ∈ t.pointedAt (picked.map (t.diagnostic (Text.LineIndex.ofText t.source) severity)) := by
    intro p
    rw [mem_pointedAt_iff ht hled hpicked, List.mem_map, List.mem_map]
    simp only [hmem]
  refine ⟨out, hout, hm.congr fun p => ?_, hsound⟩
  rw [FixAll.map_path_eq hrun.applied, ← hsame, false_or, Path.outermost_iff]
  simp only [← hsame, ← Path.outermost_iff]
  constructor
  · intro hp
    obtain ⟨check, hcheck, rfl⟩ := List.mem_map.1 hp
    obtain ⟨hin, houter⟩ := List.mem_filter.1 hcheck
    exact ⟨List.mem_map.2 ⟨check, hin, rfl⟩, houter⟩
  · rintro ⟨hp, houter⟩
    obtain ⟨check, hcheck, rfl⟩ := List.mem_map.1 hp
    exact List.mem_map.2 ⟨check, List.mem_filter.2 ⟨hcheck, houter⟩, rfl⟩

theorem pointedAt_detect (t : Tree) (severity : Severity) :
    t.pointedAt (t.detect Scope.oracle severity) = t.flaggedPaths := by
  unfold pointedAt flaggedPaths
  rw [List.filter_eq_self.2]
  intro check hcheck
  exact List.any_eq_true.2 ⟨_, List.mem_map_of_mem hcheck, decide_eq_true rfl⟩

/-- Fixes take away the flagged statements that were pointed at and what is inside of them, and a
layout brings back none. -/
theorem flagged_of_fixAll (t : Tree) (l l' : Label) (severity : Severity)
    (diagnostics : List Diagnostic) (ht : t.root.sound = true)
    (hroot : t.root.kind ≠ .ifStatement) (hled : t.root.all Element.ifLed = true)
    (hplain : t.root.plainNames = true)
    (hd : ∀ d ∈ diagnostics, d ∈ t.detect Scope.oracle severity) :
    ∃ out, t.fixAll l diagnostics = .ok out ∧
      out.tree.flaggedPaths =
        t.flaggedPaths.filter (fun p => !(t.pointedAt diagnostics).any (·.isPrefixOf p)) ∧
      (diagnostics = t.detect Scope.oracle severity → out.tree.flaggedPaths = []) ∧
      (t.root.settledNames = true ∨
          (∃ (concrete : Concrete) (k : Label) (source : String),
            concrete.build? k source = some t.root) →
        (out.tree.format l').flaggedPaths = out.tree.flaggedPaths) := by
  obtain ⟨out, hout, hmended, hsound⟩ := exists_mended l ht hroot hled hplain hd
  have hfixed := Repair.flaggedPaths_eq
    { old := t.root, new := out.tree.root, cut := _, asked := true, mended := hmended,
      old_sound := ht, new_sound := hsound, plain := hplain, settled := .inl rfl }
    t out.tree rfl rfl fun _ => Iff.rfl
  refine ⟨out, hout, hfixed, ?_, ?_⟩
  · rintro rfl
    rw [hfixed, pointedAt_detect, List.filter_eq_nil_iff]
    intro p hp
    have hself : t.flaggedPaths.any (·.isPrefixOf p) = true :=
      List.any_eq_true.2 ⟨p, hp, List.isPrefixOf_iff_prefix.2 (List.prefix_refl p)⟩
    rw [hself]
    decide
  · -- The layout puts calls for calls, so the tree is mended at the same places.
    intro hread
    have hsettled : t.root.settledNames = true := by
      rcases hread with hsettled | ⟨concrete, k, source, hbuild⟩
      · exact hsettled
      · exact Element.settledNames_of_plain (Concrete.plain_of_build hbuild)
    obtain ⟨hlaid, hlaidSound⟩ := hmended.format hsound l'
    have hformatted := Repair.flaggedPaths_eq
      { old := t.root, new := _, cut := _, asked := false, mended := hlaid,
        old_sound := ht, new_sound := hlaidSound, plain := hplain, settled := .inr hsettled }
      t (out.tree.format l') rfl (root_format _ _) fun _ => Iff.rfl
    rw [hformatted, hfixed]

end Tree

namespace Sample

def halfway : Tree :=
  { root := .make [] .compilationUnit
      [method (token .identifier "CancellationToken") "ct"
        (block [check "ct" [block [check "ct" []]],
          (Fix.callStatement [] (token .identifier "ct")).withReformat [] (some { indent := some "" }),
          check "ct" []])] }

end Sample

/-- Fixing the first of the three checks takes away the one in it too. -/
theorem Sample.flagged_of_fixAll_first :
    (Sample.halfway.root.sound = true ∧ Sample.halfway.root.kind ≠ .ifStatement ∧
      Sample.halfway.root.all Element.ifLed = true ∧ Sample.halfway.root.plainNames = true ∧
      Sample.halfway.root.settledNames = true ∧ Sample.halfway.root.plain = false ∧
      Sample.halfway.flaggedPaths = [[0, 1, 1], [0, 1, 1, 4, 1, 1], [0, 1, 3]] ∧
      ∃ out, Sample.halfway.fixAll [] ((Sample.halfway.detect Scope.oracle .warning).take 1) =
          .ok out ∧
        out.tree.flaggedPaths = [[0, 1, 3]] ∧ (out.tree.format []).flaggedPaths = [[0, 1, 3]]) ∧
    ∃ root, Sample.lone.build? [] Sample.loneText = some root ∧ root.sound = true ∧
      root.kind ≠ .ifStatement ∧ root.all Element.ifLed = true ∧ root.plainNames = true ∧
      Tree.flaggedPaths { root } = [[0, 2, 1]] ∧
      ∃ out, Tree.fixAll { root } [] (Tree.detect { root } Scope.oracle .warning) = .ok out ∧
        out.tree.flaggedPaths = [] ∧ (out.tree.format []).flaggedPaths = [] := by
  have hsound : Sample.halfway.root.sound = true := by decide
  have hroot : Sample.halfway.root.kind ≠ .ifStatement := by decide
  have hled : Sample.halfway.root.all Element.ifLed = true := by decide
  have hplain : Sample.halfway.root.plainNames = true := by decide
  have hsettled : Sample.halfway.root.settledNames = true := by decide
  obtain ⟨out, hout, hleft, -, hlaid⟩ := Tree.flagged_of_fixAll Sample.halfway [] [] .warning
    ((Sample.halfway.detect Scope.oracle .warning).take 1) hsound hroot hled hplain
    fun d hd => List.mem_of_mem_take hd
  have hpaths : out.tree.flaggedPaths = [[0, 1, 3]] := by
    rw [hleft]
    decide
  refine ⟨⟨hsound, hroot, hled, hplain, hsettled, by decide, by decide, out, hout, hpaths,
    (hlaid (.inl hsettled)).trans hpaths⟩, ?_⟩
  have hlone : (Sample.lone.build? [] Sample.loneText).any (fun root => root.sound &&
      root.kind ≠ .ifStatement && root.all Element.ifLed && root.plainNames &&
      Tree.flaggedPaths { root } = [[0, 2, 1]]) = true := by decide +kernel
  cases hbuild : Sample.lone.build? [] Sample.loneText with
  | none =>
    rw [hbuild] at hlone
    cases hlone
  | some root =>
    rw [hbuild] at hlone
    simp only [Option.any_some, Bool.and_eq_true, decide_eq_true_eq] at hlone
    obtain ⟨⟨⟨⟨hsound, hroot⟩, hled⟩, hplain⟩, hpaths⟩ := hlone
    obtain ⟨out, hout, -, hnone, hlaid⟩ := Tree.flagged_of_fixAll { root } [] [] .warning
      (Tree.detect { root } Scope.oracle .warning) hsound hroot hled hplain fun _ hd => hd
    exact ⟨root, rfl, hsound, hroot, hled, hplain, hpaths, out, hout, hnone rfl,
      (hlaid (.inr ⟨_, _, _, hbuild⟩)).trans (hnone rfl)⟩

namespace Sample

def remarkedName : Element :=
  let name : Token :=
    { label := [], kind := .identifier, text := "CancellationToken", leading := "/*c*/" }
  (Element.make [] .identifier [.token name]).withReformat [] (some { indent := some "" })

def remarked : Tree :=
  { root := .make [] .compilationUnit
      [method (.make [] (.other "qualified_name")
          [token .identifier "System", token .dot ".", remarkedName])
        "ct" (block [check "ct" []])] }

-- A layout inside of the type of a parameter can give a receiver its type.
example : remarked.root.settledNames = false ∧ remarked.flaggedPaths = [] ∧
    (remarked.format []).flaggedPaths = [[0, 1, 1]] := by decide

end Sample
end CancellationLint
