import CancellationLint.Proofs.Rounds
import CancellationLint.Proofs.StaleFixes

/-! # Errors through fixes and layout

Every edit computes the error marks of the nodes above it anew, from the old mark, the child that gave
way and the one that came. A check has no error in it and neither has its call, so no mark changes: none
is lost, not even one without an error below it, and none is set. -/

namespace CancellationLint

namespace Element

/-- Elsewhere than at the places in `gone` there are the same errors in both elements. -/
def SameErrors (gone : Path → Prop) (e e' : Element) : Prop :=
  ∀ q, ¬ gone q → (e'.at? q).map hasError = (e.at? q).map hasError

theorem SameErrors.trans {gone : Path → Prop} {a b c : Element} (hab : SameErrors gone a b)
    (hbc : SameErrors gone b c) : SameErrors gone a c := by
  intro q hq
  rw [hbc q hq, hab q hq]

theorem SameErrors.hasError_eq {gone : Path → Prop} {e e' : Element} (h : SameErrors gone e e')
    (hgone : ¬ gone []) : e'.hasError = e.hasError :=
  Option.some.inj (h [] hgone)

theorem showsErrors_swap {h : Head} {l : Label} {old : Element} {es : List Element}
    (hes : ∀ e ∈ es, e.showsErrors = true) :
    (Element.node (h.swap l old es) es).showsErrors = true := by
  refine showsErrors_node_iff.2 ⟨?_, hes⟩
  rintro (hkind | hany)
  · have hkind : h.kind = .error := hkind
    simp [Head.swap, hkind]
  · simp [Head.swap, hany]

theorem sameErrors_swap {gone : Path → Prop} {h : Head} {l : Label} {es : List Element}
    {old new : Element} {i : Nat} (hs : (Element.node h es).showsErrors = true)
    (hold : es[i]? = some old) (hnew : new.showsErrors = true) (hsame : new.hasError = old.hasError)
    (herr : SameErrors (fun r => gone (i :: r)) old new) :
    (Element.node (h.swap l old (es.set i new)) (es.set i new)).showsErrors = true ∧
      SameErrors gone (.node h es) (.node (h.swap l old (es.set i new)) (es.set i new)) := by
  have hi : i < es.length := (List.getElem?_eq_some_iff.1 hold).1
  refine ⟨showsErrors_swap fun e he => ?_, fun q hq => ?_⟩
  · rcases List.mem_or_eq_of_mem_set he with he | rfl
    · exact (showsErrors_node_iff.1 hs).2 e he
    · exact hnew
  · cases q with
    | nil => exact congrArg some (hasError_swap hs hold hsame)
    | cons j r =>
      unfold Element.at?
      by_cases hij : i = j
      · subst hij
        simp only [List.getElem?_set_self hi, hold]
        exact herr r hq
      · simp only [List.getElem?_set_ne hij]

theorem sameErrors_put {l : Label} {new e e' old : Element} {p : Path} (he : e.showsErrors = true)
    (hold : e.at? p = some old) (hnew : new.showsErrors = true)
    (hsame : new.hasError = old.hasError) (h : put? l new p e = some e') :
    e'.showsErrors = true ∧ e'.hasError = e.hasError ∧ SameErrors (p <+: ·) e e' := by
  induction p generalizing e e' l with
  | nil =>
    cases h
    cases hold
    exact ⟨hnew, hsame, fun q hq => absurd List.nil_prefix hq⟩
  | cons i p ih =>
    obtain ⟨g, es, d, child, rfl, hd, hchild, rfl⟩ := put?_cons_iff.1 h
    obtain ⟨d', hd', hold⟩ := at?_cons_iff.1 hold
    cases hd.symm.trans hd'
    have hshows := (showsErrors_node_iff.1 he).2 d (List.mem_of_getElem? hd)
    obtain ⟨hnew', hsame', herr⟩ := ih hshows hold hchild
    have hbelow : SameErrors (fun r => i :: p <+: i :: r) d child := by
      intro r hr
      exact herr r fun hpre => hr (List.cons_prefix_cons.2 ⟨rfl, hpre⟩)
    obtain ⟨hnode, hboth⟩ :=
      @sameErrors_swap (i :: p <+: ·) g l es d child i he hd hnew' hsame' hbelow
    exact ⟨hnode, hasError_swap he hd hsame', hboth⟩

/-! ## Trivia and layout -/

/-- The second element has the errors of the first one, if those show. -/
def KeepsErrors (e e' : Element) : Prop :=
  e.showsErrors = true → e'.showsErrors = true ∧ SameErrors (fun _ => False) e e'

theorem keepsErrors_relabel (h : Head) (es : List Element) (l : Label) (r : Option Reformat) :
    KeepsErrors (.node h es) (.node { h with label := l, reformat := r } es) := by
  intro hs
  refine ⟨showsErrors_node_iff.2 (showsErrors_node_iff.1 hs), fun q _ => ?_⟩
  cases q <;> rfl

theorem lasting_keepsErrors : Lasting KeepsErrors where
  token t l leading trailing := fun _ => ⟨rfl, fun q _ => by cases q <;> rfl⟩
  relabel h es l := keepsErrors_relabel h es l h.reformat
  swap l hold hkeep := by
    intro hs
    obtain ⟨hnew, herr⟩ := hkeep ((showsErrors_node_iff.1 hs).2 _ (List.mem_of_getElem? hold))
    exact sameErrors_swap hs hold hnew (herr.hasError_eq id) herr
  refl e := fun hs => ⟨hs, fun _ _ => rfl⟩
  trans hab hbc := by
    intro hs
    obtain ⟨hb, herr⟩ := hab hs
    obtain ⟨hc, herr'⟩ := hbc hb
    exact ⟨hc, herr.trans herr'⟩
  withReformat l r e := by
    cases e with
    | token t => exact fun _ => ⟨rfl, fun q _ => by cases q <;> rfl⟩
    | node h es => exact keepsErrors_relabel h es l r

end Element

/-! ## Fixes -/

structure Fix.ErrorFree (t : Tree) (fix : Fix) : Prop where
  at_path : t.at? fix.path = some fix.target
  target : fix.target.hasError = false
  replacement : fix.replacement.hasError = false
  shows : fix.replacement.showsErrors = true

theorem Fix.errorFree_of_mends {t : Tree} {check : Check} {fix : Fix}
    (ht : t.root.showsErrors = true) (hof : Cursor.Of t.root check.statement)
    (hcheck : Check.ofNode check.statement = .ok check) (h : Mends check fix) : fix.ErrorFree t := by
  obtain ⟨l, rfl⟩ := h
  obtain ⟨-, herr, -⟩ := Check.ofNode_eq_ok_iff.1 hcheck
  obtain ⟨i, j, name, hi, hrec, -⟩ := Check.places_of_ofNode hcheck
  have hat : check.statement.element.at? [i, 0] = some check.receiver.element :=
    Element.at?_cons_iff.2 ⟨_, Cursor.element_childAt hi,
      Element.at?_cons_iff.2 ⟨_, Cursor.element_childAt hrec, rfl⟩⟩
  have hshows : check.statement.element.showsErrors = true := Element.all_at ht hof.element_at
  have hreceiver := Element.hasError_at hshows herr hat
  have hcall := hasError_callStatement (l.sub 0) hreceiver
  have hkeep : Element.KeepsErrors (callStatement (l.sub 0) check.receiver.element)
      (replacementFor l check check.statement.lineIndent?) := by
    have hlast := Element.lasting_keepsErrors
    unfold replacementFor
    refine hlast.trans (hlast.trans ?_ (hlast.withTrailing _ _ _)) (hlast.withReformat _ _ _)
    split
    · exact hlast.refl _
    · exact hlast.withLeading _ _ _
  obtain ⟨hnew, hsame⟩ := hkeep
    (all_callStatement (fun _ => rfl) Element.shows_make (l.sub 0) (Element.all_at hshows hat))
  exact ⟨hof.element_at, herr, (hsame.hasError_eq id).trans hcall, hnew⟩

/-- The fixes changed no error mark elsewhere, and brought no error. -/
structure Tree.Unharmed (fixes : List Fix) (t t' : Tree) : Prop where
  kept : Element.SameErrors (fun q => ∃ fix ∈ fixes, fix.path <+: q) t.root t'.root
  hasErrors_eq : t'.hasErrors = t.hasErrors
  placed : ∀ fix ∈ fixes, t'.at? fix.path = some fix.replacement
  clean : ∀ fix ∈ fixes, ∀ q x, fix.replacement.at? q = some x → x.hasError = false
  shows : t'.root.showsErrors = true

namespace Tree.Unharmed

theorem of_keepsErrors {t t' : Tree} (ht : t.root.showsErrors = true)
    (h : Element.KeepsErrors t.root t'.root) : t.Unharmed [] t' := by
  obtain ⟨hshows, herr⟩ := h ht
  exact ⟨fun q _ => herr q id, herr.hasError_eq id, by simp, by simp, hshows⟩

variable {t s s' : Tree} {fixes : List Fix} {fix : Fix} {l : Label}

theorem apply (h : t.Unharmed fixes s) (hapart : ∀ f ∈ fixes, Path.Apart f.path fix.path)
    (hfix : fix.ErrorFree t) (happ : fix.apply l s = .ok s') : t.Unharmed (fixes ++ [fix]) s' := by
  obtain ⟨-, old, root, hold, -, hput, rfl⟩ := FixAll.apply_eq_ok_iff.1 happ
  have hsame : old.hasError = false := by
    have hkept := h.kept fix.path fun ⟨f, hf, hpre⟩ => (hapart f hf).1 hpre
    rw [show s.root.at? fix.path = some old from hold,
      show t.root.at? fix.path = some fix.target from hfix.at_path] at hkept
    exact (Option.some.inj hkept).trans hfix.target
  obtain ⟨hshows, hroot, herr⟩ := Element.sameErrors_put h.shows hold hfix.shows
    (hfix.replacement.trans hsame.symm) hput
  refine ⟨fun q hq => ?_, hroot.trans h.hasErrors_eq, ?_, ?_, hshows⟩
  · simp only [List.mem_append, List.mem_singleton, not_exists, not_and] at hq
    rw [herr q (hq _ (Or.inr rfl)), h.kept q fun ⟨f, hf, hpre⟩ => hq f (Or.inl hf) hpre]
  · simp only [List.mem_append, List.mem_singleton]
    rintro f (hf | rfl)
    · exact (Element.at?_put_of_apart (hapart f hf).symm hput).trans (h.placed f hf)
    · exact Element.at?_put_same hput
  · simp only [List.mem_append, List.mem_singleton]
    rintro f (hf | rfl) q x hx
    · exact h.clean f hf q x hx
    · exact Element.hasError_at hfix.shows hfix.replacement hx

theorem applyAll {rest : List Fix} {i : Nat} (h : t.Unharmed fixes s)
    (hpaths : rest.Pairwise fun a b => Path.Apart a.path b.path)
    (hapart : ∀ fix ∈ rest, ∀ f ∈ fixes, Path.Apart f.path fix.path)
    (hrest : ∀ fix ∈ rest, fix.ErrorFree t) (happ : FixAll.applyAll l i s rest = .ok s') :
    t.Unharmed (fixes ++ rest) s' := by
  induction rest generalizing s fixes i with
  | nil =>
    cases happ
    simpa using h
  | cons fix rest ih =>
    obtain ⟨hfirst, hothers⟩ := List.pairwise_cons.1 hpaths
    obtain ⟨next, hnext, hrun⟩ := exists_of_bind_eq_ok happ
    have hstep := h.apply (hapart fix (by simp)) (hrest fix (by simp)) hnext
    have hlast := ih hstep hothers (fun f hf g hg => ?_) (fun f hf => hrest f (by simp [hf])) hrun
    · rwa [List.append_assoc] at hlast
    · rcases List.mem_append.1 hg with hg | hg
      · exact hapart f (by simp [hf]) g hg
      · obtain rfl := List.mem_singleton.1 hg
        exact hfirst f hf

end Tree.Unharmed

/-- Fixes and layout leave every error mark as it was, but for the statements that gave way. -/
theorem Tree.errors_unharmed {t : Tree} (l : Label) (ht : t.root.showsErrors = true) :
    (∀ target t', Cursor.Of t.root target → t.fix l target = .ok t' →
      ∃ fix, fix.path = target.path ∧ t.Unharmed [fix] t') ∧
    (∀ k target fix t', Cursor.Of t.root target → Fix.plan k t target = .ok fix →
      fix.apply l t = .ok t' → t.Unharmed [fix] t') ∧
    (∀ ds out, t.fixAll l ds = .ok out → t.Unharmed out.applied out.tree) ∧
    t.Unharmed [] (t.format l) := by
  have hnone : t.Unharmed [] t := Unharmed.of_keepsErrors ht (Element.lasting_keepsErrors.refl _)
  have hone : ∀ {k m target fix t'}, Cursor.Of t.root target → Fix.plan k t target = .ok fix →
      fix.apply m t = .ok t' → t.Unharmed [fix] t' := by
    intro k m target fix t' hof hplan happ
    obtain ⟨check, rfl, hcheck, rfl⟩ := FixAll.exists_check_of_plan hof hplan
    exact hnone.apply (by simp) (Fix.errorFree_of_mends ht hof hcheck ⟨k, rfl⟩) happ
  refine ⟨fun target t' hof hfix => ?_, fun k target fix t' => hone, fun ds out h => ?_, ?_⟩
  · obtain ⟨fix, hplan, happ⟩ := exists_of_bind_eq_ok hfix
    exact ⟨fix, (FixAll.at?_of_plan hof hplan).1, hone hof hplan happ⟩
  · obtain ⟨-, checks, haims, hrun⟩ := run_of_fixAll h
    have hpaths := (FixAll.precedes_of_mends haims hrun.applied).imp fun hab => hab.apart
    refine hnone.applyAll hpaths (by simp) (fun fix hfix => ?_) hrun.tree
    obtain ⟨check, hmem, hmends⟩ := FixAll.exists_check_of_mem hrun.applied hfix
    obtain ⟨n, -, hn⟩ := (haims.mem_iff check).1 (List.mem_of_mem_filter hmem)
    obtain ⟨hof, hcheck, -⟩ := checkAt?_eq_some hn
    exact Fix.errorFree_of_mends ht hof hcheck hmends
  · refine Unharmed.of_keepsErrors ht ?_
    rw [root_format]
    exact Layout.laid_of_lasting Element.lasting_keepsErrors l t.root

def Sample.scarred : Tree :=
  { root := .make [] .compilationUnit
      [block [check "ct" [], gap], (block [check "ct" [], check "ct" []]).markError [1]] }

theorem Sample.errors_unharmed_scarred :
    Sample.scarred.root.showsErrors = true ∧
      (∃ target t', target.path = [1, 2] ∧ Sample.scarred.fix [] target = .ok t' ∧
        (t'.at? [1]).map Element.hasError = some true ∧
        (t'.at? [1, 1]).map Element.hasError = some false ∧ t'.hasErrors = true) ∧
      (∃ out, Sample.scarred.fixAll [] (Sample.scarred.detect Sample.anyToken .warning) = .ok out ∧
        out.applied.map Fix.path = [[0, 1], [1, 1], [1, 2]] ∧
        (out.tree.at? [0]).map Element.hasError = some true ∧
        (out.tree.at? [0, 2]).map Element.hasError = some true ∧
        (out.tree.at? [1]).map Element.hasError = some true ∧
        ∀ fix ∈ out.applied, ∀ q x, fix.replacement.at? q = some x → x.hasError = false) ∧
      ((Sample.scarred.format []).at? [1]).map Element.hasError = some true := by
  have hshows : Sample.scarred.root.showsErrors = true := by decide
  obtain ⟨hfix, happly, hall, hformat⟩ := Tree.errors_unharmed (t := Sample.scarred) [] hshows
  refine ⟨hshows, ?_, ?_, ?_⟩
  · obtain ⟨c, f, hc, hf, hfp⟩ := @Sample.exists_plan Sample.scarred [0] [1, 2] (by decide +kernel)
    obtain ⟨t', ht'⟩ := Fix.exists_apply [1] (FixAll.at?_of_plan hc hf).2 (by simp [hfp])
    have hrun : Sample.scarred.fix [] c = .ok t' := by
      rw [Tree.fix, show Fix.plan (Label.sub [] 0) _ c = .ok f from hf]
      exact ht'
    have hcp : c.path = [1, 2] := (FixAll.at?_of_plan hc hf).1.symm.trans hfp
    obtain ⟨fix, hpath, h⟩ := hfix c t' hc hrun
    rw [hcp] at hpath
    exact ⟨c, t', hcp, hrun, h.kept [1] (by simp [hpath]), h.kept [1, 1] (by simp [hpath]),
      h.hasErrors_eq⟩
  · obtain ⟨out, checks, hout, hmem, haims, hrun⟩ :=
      Tree.fixAll_picked (t := Sample.scarred) [] (Text.LineIndex.ofText Sample.scarred.source)
        .warning (by decide) (by decide) (by decide)
        (fun check (h : check ∈ Sample.scarred.flagged Sample.anyToken) => h)
    obtain rfl : checks = Sample.scarred.flagged Sample.anyToken :=
      Path.eq_of_mem_iff (f := fun k : Check => k.statement.path) haims.sorted
        (Tree.flagged_sorted _ _) hmem
    have hpaths : out.applied.map Fix.path = [[0, 1], [1, 1], [1, 2]] := by
      rw [FixAll.map_path_eq hrun.applied]
      decide
    have h := hall _ out hout
    have hkept : ∀ q, (∀ p ∈ out.applied.map Fix.path, ¬ p <+: q) →
        (out.tree.at? q).map Element.hasError = (Sample.scarred.at? q).map Element.hasError := by
      intro q hq
      exact h.kept q fun ⟨fix, hmem, hpre⟩ => hq _ (List.mem_map_of_mem hmem) hpre
    rw [hpaths] at hkept
    exact ⟨out, hout, hpaths, hkept [0] (by decide), hkept [0, 2] (by decide), hkept [1] (by decide),
      h.clean⟩
  · exact hformat.kept [1] (by simp)

end CancellationLint
