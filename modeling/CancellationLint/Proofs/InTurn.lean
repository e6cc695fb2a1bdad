import CancellationLint.Proofs.RelatedCursors
import CancellationLint.Proofs.SameStarts
import CancellationLint.Proofs.SameText

/-! # Fixing one statement after the other

Checks that lie apart can be fixed one by one, each planned on the tree that the ones before left, or
all together, planned on the tree as it was. Either way the tree reads the same. The recorded layout is
the same too, as long as no check has tokens behind its body: otherwise a line that started after the
check may not start after the call. -/

namespace CancellationLint

theorem Element.bare_of_alike {a b : Element} (h : a.alike b = true) :
    a.tokens.map Token.bare = b.tokens.map Token.bare := by
  have htokens := tokens_of_alike h
  generalize a.tokens = ss at htokens
  generalize b.tokens = ts at htokens
  induction htokens with
  | nil => rfl
  | cons hst _ ih =>
    simp only [Token.alike, Bool.and_eq_true, decide_eq_true_eq] at hst
    simp [Token.bare, hst, ih]

namespace Tree

def checkOn? (t : Tree) (p : Path) : Option Check :=
  (t.cursor.at? p).bind fun c => (Check.ofNode c).toOption

/-- Fixes the statements one after the other, each planned on the tree as it is by then. -/
def fixInTurn (l : Label) : Nat → Tree → List Path → Except FixError Tree
  | _, t, [] => .ok t
  | i, t, p :: rest =>
    match t.cursor.at? p with
    | none => .error .foreign
    | some target => (t.fix (l.sub i) target).bind fun t => fixInTurn l (i + 1) t rest

/-- The fixes of the statements at the paths, all planned on the same tree. -/
def planEach (l : Label) (t : Tree) : Nat → List Path → Except FixError (List Fix)
  | _, [] => .ok []
  | i, p :: rest =>
    match t.cursor.at? p with
    | none => .error .foreign
    | some target =>
      (Fix.plan (l.sub i) t target).bind fun fix => (planEach l t (i + 1) rest).map (fix :: ·)

def fixTogether (t : Tree) (l : Label) (ps : List Path) : Except FixError Tree :=
  (planEach (l.sub 0) t 0 ps).bind (FixAll.applyAll (l.sub 1) 0 t)

theorem checkOn?_eq_some_iff {t : Tree} {p : Path} {check : Check} :
    t.checkOn? p = some check ↔ Cursor.Of t.root check.statement ∧ check.statement.path = p ∧
      Check.ofNode check.statement = .ok check := by
  unfold checkOn?
  rw [Option.bind_eq_some_iff]
  constructor
  · rintro ⟨c, hc, hcheck⟩
    cases hnode : Check.ofNode c with
    | error m =>
      rw [hnode] at hcheck
      cases hcheck
    | ok found =>
      rw [hnode] at hcheck
      cases hcheck
      obtain rfl : check.statement = c := Check.statement_of_ofNode hnode
      refine ⟨Cursor.Of.root.at hc, ?_, hnode⟩
      simpa [cursor, Cursor.path, Cursor.ofRoot] using Cursor.path_at hc
  · rintro ⟨hof, rfl, hcheck⟩
    exact ⟨check.statement, hof.at_path, by rw [hcheck]; rfl⟩

end Tree

/-! ## What takes the place of a check -/

theorem Element.ending_eq_trailing {e : Element} (h : e.tokens ≠ []) :
    Token.ending? e.tokens = some e.trailing := by
  obtain ⟨t, ht⟩ := Option.isSome_iff_exists.1 (List.getLast?_isSome.2 h)
  rw [trailing_eq, Token.trailingOf, Token.ending?, ht]
  rfl

theorem Element.tokens_of_isNode {e : Element} (h : e.isNode = true) :
    e.tokens = e.children.flatMap tokens := by
  cases e with
  | token t => cases h
  | node g es => exact tokens_node g es

theorem Cursor.index_childAt {c d : Cursor} {i : Nat} (h : c.childAt? i = some d) :
    d.index = i := by
  obtain ⟨e, -, rfl⟩ := childAt?_iff.1 h
  rfl

theorem Cursor.tokens_eq_flatMap {c : Cursor} (h : c.isNode = true) :
    c.element.tokens =
      (c.children.filter (·.element.hasTokens)).flatMap (·.element.tokens) := by
  rw [Element.tokens_of_isNode h, ← c.map_element_children, List.flatMap_map]
  induction c.children with
  | nil => rfl
  | cons d ds ih =>
    rw [List.filter_cons, List.flatMap_cons, ih]
    split
    · rw [List.flatMap_cons]
    · rename_i hno
      rw [Element.tokens_eq_nil hno, List.nil_append]

namespace Check

/-- Whether no token of the statement stands behind its body. -/
def endsInBody (check : Check) : Bool :=
  (check.statement.children.filter (·.element.hasTokens)).getLast?.map Cursor.index =
    some check.body.index

theorem ending_of_endsInBody {check : Check} (hcheck : ofNode check.statement = .ok check)
    (h : check.endsInBody = true) :
    Token.ending? check.statement.element.tokens = some check.body.element.trailing := by
  obtain ⟨⟨hnode, -⟩, -, -, -, -, hbody, -⟩ := ofNode_eq_ok_iff.1 hcheck
  obtain ⟨j, hj⟩ := Cursor.mem_children_iff.1
    (Cursor.mem_of_childAfter (Option.filter_eq_some_iff.1 hbody).1)
  obtain ⟨last, hlast, hindex⟩ := Option.map_eq_some_iff.1 (of_decide_eq_true h)
  obtain ⟨front, hfront⟩ := List.getLast?_eq_some_iff.1 hlast
  have hmem : last ∈ check.statement.children.filter (·.element.hasTokens) := by simp [hfront]
  obtain ⟨i, hi⟩ := Cursor.mem_children_iff.1 (List.mem_of_mem_filter hmem)
  obtain rfl : last = check.body := by
    rw [Cursor.index_childAt hi, Cursor.index_childAt hj] at hindex
    rw [hindex, hj] at hi
    exact (Option.some.inj hi).symm
  have hne := (Element.hasTokens_iff _).1 (List.mem_filter.1 hmem).2
  rw [Cursor.tokens_eq_flatMap hnode, hfront, List.flatMap_append, Token.ending?_append,
    List.flatMap_singleton, Element.ending_eq_trailing hne]
  rfl

end Check

namespace Fix

theorem ending_replacementFor (l : Label) (check : Check) (indent : Option String) :
    Token.ending? (replacementFor l check indent).tokens = some check.body.element.trailing := by
  obtain ⟨led, hnode, hne, -, heq⟩ := exists_led l check
  obtain ⟨ts, t, htokens⟩ := (List.eq_nil_or_concat' led.tokens).resolve_left hne
  obtain ⟨m, hm⟩ := Element.tokens_withTrailing (l.sub 2) check.body.element.trailing htokens
  rw [heq, Element.tokens_withReformat (by rwa [Element.isNode_withTrailing]), hm]
  simp [Token.ending?]

theorem bare_replacementFor (l m : Label) (check : Check) (i j : Option String) :
    (replacementFor l check i).tokens.map Token.bare =
      (replacementFor m check j).tokens.map Token.bare := by
  obtain ⟨led, hnode, -, -, heq⟩ := exists_led m check
  rw [Element.bare_of_alike (@alike_replacementFor l m check i), heq i, heq j,
    Element.tokens_withReformat (by rwa [Element.isNode_withTrailing]),
    Element.tokens_withReformat (by rwa [Element.isNode_withTrailing])]

theorem replacementFor_of_akin {check check' : Check} (l : Label) (indent : Option String)
    (hreceiver : Cursor.Akin check.receiver check'.receiver)
    (hbody : Cursor.Akin check.body check'.body) :
    replacementFor l check' indent = replacementFor l check indent := by
  unfold replacementFor
  rw [show check'.receiver.element = check.receiver.element from hreceiver,
    show check'.body.element = check.body.element from hbody]

theorem bare_laid_replacementFor (l m l' m' : Label) (check : Check) (indent : Option String) :
    (Layout.laid l' (replacementFor l check indent)).tokens.map Token.bare =
      (Layout.laid m' (replacementFor m check indent)).tokens.map Token.bare := by
  have hbare := bare_replacementFor l m check indent indent
  have hlaid : ∀ k k' : Label,
      (Layout.laid k (replacementFor k' check indent)).tokens.map Token.bare =
        Layout.reindented { indent } ((replacementFor k' check indent).tokens.map Token.bare) := by
    intro k k'
    obtain ⟨led, hnode, -, -, heq⟩ := exists_led k' check
    rw [heq indent]
    cases hled : led.withTrailing (k'.sub 2) check.body.element.trailing with
    | token t =>
      rw [← Element.isNode_withTrailing (k'.sub 2) check.body.element.trailing, hled] at hnode
      cases hnode
    | node g es =>
      rw [Element.withReformat, Layout.laid_of_request rfl, Layout.bare_settleNode]
  rw [hlaid, hlaid, hbare]

end Fix

namespace Tree

/-- What may take the place of the check at a path. -/
def Stands (t : Tree) (aligned : Prop) (p : Path) (x : Element) : Prop :=
  ∃ check l indent, t.checkOn? p = some check ∧ x = Fix.replacementFor l check indent ∧
    (aligned → indent = check.statement.lineIndent?)

/-- Reads the same, and after a pass of the layout too if `aligned` says so. -/
def ReadsLike (aligned : Prop) (a b : Tree) : Prop :=
  a.source = b.source ∧ (aligned → ∀ l m, (a.format l).source = (b.format m).source)

theorem readsLike_of_refitted {t a b : Tree} {cut : Path → Prop} {aligned : Prop}
    (ha : Refitted cut (t.Stands aligned) t.root a.root)
    (hb : Refitted cut (t.Stands aligned) t.root b.root) : ReadsLike aligned a b := by
  have hfit : ∀ p x y, cut p → t.Stands aligned p x → t.Stands aligned p y →
      x.tokens.map Token.bare = y.tokens.map Token.bare := by
    rintro p x y - ⟨check, l, i, hcheck, rfl, -⟩ ⟨check', m, j, hcheck', rfl, -⟩
    rw [hcheck] at hcheck'
    cases hcheck'
    exact Fix.bare_replacementFor l m check i j
  refine ⟨Token.fullOf_of_bare (ha.bare_tokens_eq hb hfit), fun haligned l m => ?_⟩
  have hlaid : ∀ p x y, cut p → t.Stands aligned p x → t.Stands aligned p y → ∀ l m,
      (Layout.laid l x).tokens.map Token.bare = (Layout.laid m y).tokens.map Token.bare := by
    rintro p x y - ⟨check, l, i, hcheck, rfl, hi⟩ ⟨check', m, j, hcheck', rfl, hj⟩ l' m'
    rw [hcheck] at hcheck'
    cases hcheck'
    rw [hi haligned, hj haligned]
    exact Fix.bare_laid_replacementFor l m l' m' check _
  rw [source, source, root_format, root_format]
  exact Token.fullOf_of_bare (ha.bare_laid_eq hb hfit hlaid l m)

theorem stands_of_mends {t : Tree} {check : Check} {fix : Fix} (aligned : Prop)
    (hcheck : t.checkOn? fix.path = some check) (h : Fix.Mends check fix) :
    t.at? fix.path = some fix.target ∧ t.Stands aligned fix.path fix.replacement := by
  obtain ⟨hof, -, -⟩ := checkOn?_eq_some_iff.1 hcheck
  obtain ⟨l, rfl⟩ := h
  exact ⟨hof.element_at, check, l, _, hcheck, rfl, fun _ => rfl⟩

/-! ## One after the other -/

theorem lineIndent_of_refitted {t s : Tree} {aligned : Prop} {cut : Path → Prop} {check : Check}
    {target : Cursor} (hrefit : Refitted cut (t.Stands aligned) t.root s.root)
    (hcut : ∀ q, cut q → Path.Apart q check.statement.path)
    (hends : ∀ q other, cut q → t.checkOn? q = some other → other.endsInBody = true)
    (hof : Cursor.Of t.root check.statement) (htarget : Cursor.Of s.root target)
    (hpath : target.path = check.statement.path)
    (hsame : target.element = check.statement.element) :
    target.lineIndent? = check.statement.lineIndent? := by
  rw [htarget.lineIndent_eq, hof.lineIndent_eq, hpath, hsame]
  congr 1
  refine hrefit.ending_before_eq ?_ hcut hof.element_at
  rintro q x y hq hx ⟨other, l, indent, hother, rfl, -⟩
  obtain ⟨hofother, hpathother, hnode⟩ := checkOn?_eq_some_iff.1 hother
  obtain rfl : other.statement.element = x := by
    have hat := hofother.element_at
    rw [hpathother, hx] at hat
    exact (Option.some.inj hat).symm
  rw [Fix.ending_replacementFor, Check.ending_of_endsInBody hnode (hends q other hq hother)]

theorem exists_fix_on {t s : Tree} {aligned : Prop} {cut : Path → Prop} {p : Path} {check : Check}
    (l : Label) (hrefit : Refitted cut (t.Stands aligned) t.root s.root)
    (hcut : ∀ q, cut q → Path.Apart q p)
    (hends : aligned → ∀ q other, cut q → t.checkOn? q = some other → other.endsInBody = true)
    (hat : s.root.at? p = t.root.at? p) (hp : p ≠ []) (hcheck : t.checkOn? p = some check) :
    ∃ target s', s.cursor.at? p = some target ∧ s.fix l target = .ok s' ∧
      Refitted (fun q => cut q ∨ q = p) (t.Stands aligned) t.root s'.root ∧
      ∀ q, Path.Apart p q → s'.root.at? q = s.root.at? q := by
  obtain ⟨hof, rfl, hnode⟩ := checkOn?_eq_some_iff.1 hcheck
  obtain ⟨target, htarget, hsame⟩ := Cursor.exists_at (c := s.cursor) (hat.trans hof.element_at)
  have hof' : Cursor.Of s.root target := Cursor.Of.root.at htarget
  have hpath : target.path = check.statement.path := by
    simpa [cursor, Cursor.path, Cursor.ofRoot] using Cursor.path_at htarget
  obtain ⟨check', hcheck', hreceiver, hbody⟩ := Check.exists_ofNode hsame hnode
  have hstatement : check'.statement = target := Check.statement_of_ofNode hcheck'
  have hplan : Fix.plan (l.sub 0) s target = .ok (.ofCheck (l.sub 0) check') := by
    rw [FixAll.plan_eq hof', hcheck']
  have hstands : t.Stands aligned check.statement.path
      (Fix.ofCheck (l.sub 0) check').replacement := by
    refine ⟨check, l.sub 0, target.lineIndent?, hcheck, ?_, fun haligned => ?_⟩
    · rw [Fix.ofCheck, hstatement]
      exact Fix.replacementFor_of_akin _ _ hreceiver hbody
    · exact lineIndent_of_refitted hrefit hcut (hends haligned) hof hof' hpath hsame
  have hx := hat.trans hof.element_at
  obtain ⟨root, hroot⟩ := @Element.exists_put (l.sub 1)
    (Fix.ofCheck (l.sub 0) check').replacement _ _ _ hx
  have happly : (Fix.ofCheck (l.sub 0) check').apply (l.sub 1) s = .ok { s with root } := by
    have hfix : (Fix.ofCheck (l.sub 0) check').path = check.statement.path := by
      rw [Fix.ofCheck, hstatement, hpath]
    refine FixAll.apply_eq_ok_iff.2 ⟨hfix ▸ hp, check.statement.element, root, hfix ▸ hx, ?_,
      hfix ▸ hroot, rfl⟩
    rw [Fix.ofCheck, hstatement, hsame]
  refine ⟨target, { s with root }, htarget, ?_, hrefit.put hcut hof.element_at hstands hroot,
    fun q hq => Element.at?_put_of_apart hq hroot⟩
  rw [fix, hplan]
  exact happly

theorem exists_fixInTurn {t s : Tree} {aligned : Prop} {cut : Path → Prop} {qs : List Path}
    (l : Label) (i : Nat) (hrefit : Refitted cut (t.Stands aligned) t.root s.root)
    (hcut : ∀ p ∈ qs, ∀ q, cut q → Path.Apart q p) (hapart : qs.Pairwise Path.Apart)
    (hends : aligned → ∀ q other, cut q ∨ q ∈ qs → t.checkOn? q = some other →
      other.endsInBody = true)
    (hat : ∀ p ∈ qs, s.root.at? p = t.root.at? p)
    (hchecks : ∀ p ∈ qs, p ≠ [] ∧ ∃ check, t.checkOn? p = some check) :
    ∃ a, fixInTurn l i s qs = .ok a ∧
      Refitted (fun q => cut q ∨ q ∈ qs) (t.Stands aligned) t.root a.root := by
  induction qs generalizing s cut i with
  | nil => exact ⟨s, rfl, hrefit.congr fun q => by simp⟩
  | cons p qs ih =>
    obtain ⟨hfirst, hrest⟩ := List.pairwise_cons.1 hapart
    obtain ⟨hp, check, hcheck⟩ := hchecks p (by simp)
    obtain ⟨target, next, htarget, hfix, hnext, hkeep⟩ := exists_fix_on (l.sub i) hrefit
      (hcut p (by simp)) (fun haligned q other hq => hends haligned q other (Or.inl hq))
      (hat p (by simp)) hp hcheck
    obtain ⟨a, ha, hlast⟩ := ih (i + 1) hnext
      (fun r hr q hq => by
        rcases hq with hq | rfl
        · exact hcut r (by simp [hr]) q hq
        · exact hfirst r hr)
      hrest
      (fun haligned q other hq => hends haligned q other (by
        rcases hq with (hq | rfl) | hq
        · exact Or.inl hq
        · simp
        · simp [hq]))
      (fun r hr => (hkeep r (hfirst r hr)).trans (hat r (by simp [hr])))
      (fun r hr => hchecks r (by simp [hr]))
    refine ⟨a, ?_, hlast.congr fun q => by simp [or_assoc]⟩
    rw [fixInTurn, htarget]
    simp only [hfix]
    exact ha

/-! ## All together -/

theorem exists_planEach {t : Tree} {ps : List Path} (l : Label) (i : Nat)
    (h : ∀ p ∈ ps, ∃ check, t.checkOn? p = some check) :
    ∃ fixes, planEach l t i ps = .ok fixes ∧ fixes.map Fix.path = ps ∧
      ∀ fix ∈ fixes, ∃ check, t.checkOn? fix.path = some check ∧ Fix.Mends check fix := by
  induction ps generalizing i with
  | nil => exact ⟨[], rfl, rfl, by simp⟩
  | cons p ps ih =>
    obtain ⟨check, hcheck⟩ := h p (by simp)
    obtain ⟨fixes, hfixes, hpaths, hmends⟩ := ih (i + 1) fun q hq => h q (by simp [hq])
    obtain ⟨hof, rfl, hnode⟩ := checkOn?_eq_some_iff.1 hcheck
    refine ⟨.ofCheck (l.sub i) check :: fixes, ?_, ?_, ?_⟩
    · rw [planEach, show t.cursor.at? check.statement.path = some check.statement from hof.at_path]
      simp only [FixAll.plan_eq hof, hnode, hfixes]
      rfl
    · rw [List.map_cons, hpaths]
      rfl
    · intro fix hfix
      rcases List.mem_cons.1 hfix with rfl | hfix
      · exact ⟨check, hcheck, l.sub i, rfl⟩
      · exact hmends fix hfix

theorem exists_fixTogether {t : Tree} {ps : List Path} (aligned : Prop) (l : Label)
    (hchecks : ∀ p ∈ ps, p ≠ [] ∧ ∃ check, t.checkOn? p = some check)
    (hapart : ps.Pairwise Path.Apart) :
    ∃ b, t.fixTogether l ps = .ok b ∧
      Refitted (· ∈ ps) (t.Stands aligned) t.root b.root := by
  obtain ⟨fixes, hfixes, rfl, hmends⟩ := exists_planEach (l.sub 0) 0 fun p hp => (hchecks p hp).2
  have hstands : ∀ fix ∈ fixes, t.at? fix.path = some fix.target ∧
      t.Stands aligned fix.path fix.replacement := by
    intro fix hfix
    obtain ⟨check, hcheck, hmend⟩ := hmends fix hfix
    exact stands_of_mends aligned hcheck hmend
  have hpaths : fixes.Pairwise fun a b => Path.Apart a.path b.path := List.pairwise_map.1 hapart
  obtain ⟨b, hb⟩ := @FixAll.exists_applyAll (l.sub 1) 0 t fixes hpaths
    (fun fix hfix => (hchecks fix.path (List.mem_map.2 ⟨fix, hfix, rfl⟩)).1)
    fun fix hfix => (hstands fix hfix).1
  refine ⟨b, by rw [fixTogether, hfixes]; exact hb, ?_⟩
  have hrefit := Refitted.applyAll (Refitted.refl (fun _ => id) t.root) hpaths (by simp)
    (fun fix hfix => (hstands fix hfix).1) (fun fix hfix => (hstands fix hfix).2) hb
  exact hrefit.congr fun p => by simp

theorem refitted_of_fixAll {t : Tree} {l : Label} {ds : List Diagnostic} {out : FixAll}
    (aligned : Prop) (h : t.fixAll l ds = .ok out) :
    Refitted (· ∈ out.applied.map Fix.path) (t.Stands aligned) t.root out.tree.root := by
  refine refitted_fixAll h fun check fix hof hnode hmend => ?_
  have hcheck : t.checkOn? fix.path = some check :=
    checkOn?_eq_some_iff.2 ⟨hof, hmend.path_eq.symm, hnode⟩
  exact (stands_of_mends aligned hcheck hmend).2

/-- Checks apart from each other can be fixed in turn, in any order, as well as together. -/
theorem fixInTurn_readsLike {t : Tree} {ps qs : List Path}
    (hchecks : ∀ p ∈ ps, p ≠ [] ∧ (t.checkOn? p).isSome = true) (hapart : ps.Pairwise Path.Apart)
    (hqs : qs.Perm ps) (l m : Label) :
    ∃ a b, fixInTurn l 0 t qs = .ok a ∧ t.fixTogether m ps = .ok b ∧
      ReadsLike (∀ p ∈ ps, (t.checkOn? p).all Check.endsInBody = true) a b ∧
      ∀ k ds out, t.fixAll k ds = .ok out → (∀ p, p ∈ out.applied.map Fix.path ↔ p ∈ ps) →
        ReadsLike (∀ p ∈ ps, (t.checkOn? p).all Check.endsInBody = true) a out.tree := by
  generalize haligned : (∀ p ∈ ps, (t.checkOn? p).all Check.endsInBody = true) = aligned
  have hsome : ∀ p ∈ ps, p ≠ [] ∧ ∃ check, t.checkOn? p = some check :=
    fun p hp => ⟨(hchecks p hp).1, Option.isSome_iff_exists.1 (hchecks p hp).2⟩
  have hends : aligned → ∀ q other, False ∨ q ∈ qs → t.checkOn? q = some other →
      other.endsInBody = true := by
    rintro h q other (hno | hq) hother
    · exact hno.elim
    · rw [← haligned] at h
      simpa [hother] using h q (hqs.mem_iff.1 hq)
  obtain ⟨a, ha, hrefit⟩ := exists_fixInTurn l 0
    (@Refitted.refl (fun _ => False) _ (fun _ => id) t.root) (by simp)
    ((hqs.pairwise_iff fun h => h.symm).2 hapart) hends (fun _ _ => rfl)
    (fun p hp => hsome p (hqs.mem_iff.1 hp))
  have hrefit' : Refitted (· ∈ ps) (t.Stands aligned) t.root a.root :=
    hrefit.congr fun p => by simp [hqs.mem_iff]
  obtain ⟨b, hb, hrefitb⟩ := exists_fixTogether aligned m hsome hapart
  refine ⟨a, b, ha, hb, readsLike_of_refitted hrefit' hrefitb, fun k ds out hout hpaths => ?_⟩
  exact readsLike_of_refitted hrefit' ((refitted_of_fixAll aligned hout).congr hpaths)

end Tree

namespace Sample

def rowCheck : Element :=
  .make [] .ifStatement
    [token .ifKeyword "if", token .openParen "(",
      .make [] .memberAccessExpression
        [token .identifier "ct", token .dot ".", token .identifier cancellationFlag],
      token .closeParen ")",
      .make [] .throwStatement
        [token .throwKeyword "throw",
          .token { label := [], kind := .semicolon, text := ";", trailing := "\n" }]]

def rows : Tree := { root := .make [] .compilationUnit [block [rowCheck, rowCheck, rowCheck]] }

end Sample

theorem Sample.fixInTurn_rows :
    let ps : List Path := [[0, 1], [0, 2], [0, 3]]
    let qs : List Path := [[0, 2], [0, 1], [0, 3]]
    (∀ p ∈ ps, p ≠ [] ∧ (Sample.rows.checkOn? p).isSome = true) ∧ ps.Pairwise Path.Apart ∧
      qs.Perm ps ∧ ∃ a b, Tree.fixInTurn [0] 0 Sample.rows qs = .ok a ∧
        Sample.rows.fixTogether [1] ps = .ok b ∧ a.source = b.source ∧
        (a.format [2]).source = (b.format [3]).source := by
  intro ps qs
  have hchecks : ∀ p ∈ ps, p ≠ [] ∧ (Sample.rows.checkOn? p).isSome = true := by decide
  have hapart : ps.Pairwise Path.Apart := by simp [ps, Path.Apart]
  have hqs : qs.Perm ps := by decide
  obtain ⟨a, b, ha, hb, ⟨hsource, hlaid⟩, -⟩ :=
    Tree.fixInTurn_readsLike hchecks hapart hqs [0] [1]
  exact ⟨hchecks, hapart, hqs, a, b, ha, hb, hsource, hlaid (by decide) [2] [3]⟩

end CancellationLint
