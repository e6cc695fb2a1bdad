import CancellationLint.Proofs.Arrange
import CancellationLint.Proofs.Locate
import Mathlib.Data.List.Forall2

/-! # What fixing a whole file does

An offset is fixable if it leads to a check below the root. Fixing succeeds exactly if every offset
is fixable, and then the checks they lead to are settled: the fixes of the outermost ones go into the
tree. -/

namespace CancellationLint

theorem exists_of_bind_eq_ok {ε α β : Type} {x : Except ε α} {f : α → Except ε β} {b : β}
    (h : x.bind f = .ok b) : ∃ a, x = .ok a ∧ f a = .ok b := by
  cases x with
  | error e => cases h
  | ok a => exact ⟨a, rfl, h⟩

/-- The fix replaces the statement of the check. -/
def Fix.Mends (check : Check) (fix : Fix) : Prop := ∃ l, fix = .ofCheck l check

theorem Fix.Mends.path_eq {check : Check} {fix : Fix} (h : Fix.Mends check fix) :
    fix.path = check.statement.path := by
  obtain ⟨l, rfl⟩ := h
  rfl

theorem Fix.all_callStatement {test : Element → Bool} (htoken : ∀ t, test (.token t) = true)
    (hmake : ∀ l kind es, test (.make l kind es) = true) (l : Label) {receiver : Element}
    (h : receiver.all test = true) : (callStatement l receiver).all test = true := by
  have hnode : ∀ l kind es, (Element.make l kind es).all test = true ↔
      ∀ e ∈ es, e.all test = true := by
    intro l kind es
    rw [Element.make, Element.all_node_iff]
    exact and_iff_right (hmake l kind es)
  simp [callStatement, hnode, Element.all, htoken, h]

def Tree.checkAt? (t : Tree) (offset : Nat) : Option Check :=
  match t.locate offset with
  | .ok target => (Check.ofNode target).toOption
  | .error _ => none

/-- The checks that the offsets lead to, in the order of their paths. -/
structure Tree.Aims (t : Tree) (offsets : List Nat) (checks : List Check) : Prop where
  sorted : checks.Pairwise fun a b => Path.Before a.statement.path b.statement.path
  mem_iff : ∀ check, check ∈ checks ↔ ∃ offset ∈ offsets, t.checkAt? offset = some check

namespace Tree

theorem checkAt?_eq_some {t : Tree} {offset : Nat} {check : Check}
    (h : t.checkAt? offset = some check) :
    Cursor.Of t.root check.statement ∧ Check.ofNode check.statement = .ok check ∧
      t.locate offset = .ok check.statement := by
  unfold checkAt? at h
  split at h
  · rename_i target hloc
    cases hcheck : Check.ofNode target with
    | error m =>
      rw [hcheck] at h
      cases h
    | ok found =>
      rw [hcheck] at h
      cases h
      obtain rfl : check.statement = target := Check.statement_of_ofNode hcheck
      exact ⟨(of_locate hloc).1, hcheck, hloc⟩
  · cases h

theorem checkAt?_of_locate {t : Tree} {offset : Nat} {check : Check}
    (hloc : t.locate offset = .ok check.statement)
    (h : Check.ofNode check.statement = .ok check) : t.checkAt? offset = some check := by
  rw [checkAt?, hloc]
  simp only [h]
  rfl

theorem contains_of {t : Tree} {c : Cursor} (hc : Cursor.Of t.root c) : t.contains c = true := by
  rw [contains, hc.root_element]
  simp

theorem check_eq_of_path {t : Tree} {a b : Check} (ha : Cursor.Of t.root a.statement)
    (hb : Cursor.Of t.root b.statement) (hca : Check.ofNode a.statement = .ok a)
    (hcb : Check.ofNode b.statement = .ok b) (h : a.statement.path = b.statement.path) : a = b := by
  rw [ha.eq_of_path hb h, hcb] at hca
  exact (Except.ok.inj hca).symm

theorem Aims.unique {t : Tree} {ms ns : List Nat} {as bs : List Check} (ha : t.Aims ms as)
    (hb : t.Aims ns bs) (h : ∀ n, n ∈ ms ↔ n ∈ ns) : as = bs := by
  refine Path.eq_of_mem_iff (f := fun k : Check => k.statement.path) ha.sorted hb.sorted ?_
  intro check
  rw [ha.mem_iff, hb.mem_iff]
  simp only [h]

end Tree

namespace FixAll

/-! ## Planning -/

theorem plan_eq {l : Label} {t : Tree} {c : Cursor} (hc : Cursor.Of t.root c) :
    Fix.plan l t c = match Check.ofNode c with
      | .error mismatch => .error (.shape mismatch)
      | .ok check => .ok (.ofCheck l check) := by
  rw [Fix.plan, Tree.contains_of hc]
  rfl

theorem exists_check_of_plan {l : Label} {t : Tree} {c : Cursor} {fix : Fix}
    (hc : Cursor.Of t.root c) (h : Fix.plan l t c = .ok fix) :
    ∃ check, check.statement = c ∧ Check.ofNode check.statement = .ok check ∧
      fix = .ofCheck l check := by
  rw [plan_eq hc] at h
  cases hcheck : Check.ofNode c with
  | error mismatch =>
    rw [hcheck] at h
    cases h
  | ok check =>
    rw [hcheck] at h
    cases h
    obtain rfl : check.statement = c := Check.statement_of_ofNode hcheck
    exact ⟨check, rfl, hcheck, rfl⟩

theorem at?_of_plan {l : Label} {t : Tree} {c : Cursor} {fix : Fix} (hc : Cursor.Of t.root c)
    (h : Fix.plan l t c = .ok fix) : fix.path = c.path ∧ t.at? fix.path = some fix.target := by
  obtain ⟨check, rfl, -, rfl⟩ := exists_check_of_plan hc h
  exact ⟨rfl, hc.element_at⟩

theorem planAll_cons_of_some {l : Label} {t : Tree} {i offset : Nat} {rest : List Nat}
    {check : Check} (h : t.checkAt? offset = some check) :
    planAll l t i (offset :: rest) =
      (planAll l t (i + 1) rest).map (Fix.ofCheck (l.sub i) check :: ·) := by
  obtain ⟨hof, hcheck, hloc⟩ := Tree.checkAt?_eq_some h
  rw [planAll, hloc, Except.bind, plan_eq hof, hcheck]
  rfl

theorem planAll_cons_of_none {l : Label} {t : Tree} {i offset : Nat} {rest : List Nat}
    (h : t.checkAt? offset = none) : ∃ e, planAll l t i (offset :: rest) = .error e := by
  rw [planAll]
  cases hloc : t.locate offset with
  | error e => exact ⟨e, rfl⟩
  | ok target =>
    rw [Except.bind, plan_eq (Tree.of_locate hloc).1]
    cases hcheck : Check.ofNode target with
    | error mismatch => exact ⟨_, rfl⟩
    | ok check =>
      rw [Tree.checkAt?, hloc] at h
      simp only [hcheck] at h
      cases h

theorem exists_planAll {l : Label} {t : Tree} {offsets : List Nat} (i : Nat)
    (h : ∀ n ∈ offsets, ∃ check, t.checkAt? n = some check) :
    ∃ fixes, planAll l t i offsets = .ok fixes := by
  induction offsets generalizing i with
  | nil => exact ⟨[], rfl⟩
  | cons offset rest ih =>
    obtain ⟨check, hcheck⟩ := h offset (by simp)
    obtain ⟨fixes, hfixes⟩ := ih (i + 1) fun n hn => h n (by simp [hn])
    exact ⟨_, by rw [planAll_cons_of_some hcheck, hfixes]; rfl⟩

/-- The fixes are those of the checks that the offsets lead to. -/
structure Planned (t : Tree) (offsets : List Nat) (fixes : List Fix) : Prop where
  exists_check : ∀ fix ∈ fixes, ∃ check,
    (∃ n ∈ offsets, t.checkAt? n = some check) ∧ Fix.Mends check fix
  exists_fix : ∀ n ∈ offsets, ∃ check, t.checkAt? n = some check ∧
    ∃ fix ∈ fixes, Fix.Mends check fix

theorem planned_of_planAll {l : Label} {t : Tree} {i : Nat} {offsets : List Nat}
    {fixes : List Fix} (h : planAll l t i offsets = .ok fixes) : Planned t offsets fixes := by
  induction offsets generalizing i fixes with
  | nil =>
    cases h
    exact ⟨by simp, by simp⟩
  | cons offset rest ih =>
    cases hcheck : t.checkAt? offset with
    | none =>
      obtain ⟨e, he⟩ := @planAll_cons_of_none l t i offset rest hcheck
      rw [he] at h
      cases h
    | some check =>
      rw [planAll_cons_of_some hcheck] at h
      cases hplan : planAll l t (i + 1) rest with
      | error e =>
        rw [hplan] at h
        cases h
      | ok others =>
        rw [hplan] at h
        cases h
        obtain ⟨hback, hforth⟩ := ih hplan
        constructor
        · intro fix hfix
          rcases List.mem_cons.1 hfix with rfl | hfix
          · exact ⟨check, ⟨offset, by simp, hcheck⟩, _, rfl⟩
          · obtain ⟨k, ⟨n, hn, hk⟩, hmends⟩ := hback fix hfix
            exact ⟨k, ⟨n, by simp [hn], hk⟩, hmends⟩
        · intro n hn
          rcases List.mem_cons.1 hn with rfl | hn
          · exact ⟨check, hcheck, _, List.mem_cons_self, _, rfl⟩
          · obtain ⟨k, hk, fix, hfix, hmends⟩ := hforth n hn
            exact ⟨k, hk, fix, by simp [hfix], hmends⟩

theorem Planned.exists_aims {t : Tree} {offsets : List Nat} {fixes : List Fix}
    (h : Planned t offsets fixes) :
    ∃ checks, t.Aims offsets checks ∧ List.Forall₂ Fix.Mends checks (arrange fixes) := by
  choose! check haim hmends using h.exists_check
  have hkept : ∀ fix ∈ arrange fixes, fix ∈ fixes := fun fix => mem_of_mem_arrange
  have hpath : ∀ fix ∈ arrange fixes, (check fix).statement.path = fix.path :=
    fun fix hfix => (hmends fix (hkept fix hfix)).path_eq.symm
  refine ⟨(arrange fixes).map check, ⟨?_, ?_⟩, ?_⟩
  · rw [List.pairwise_map]
    refine (arrange_pairwise fixes).imp_of_mem fun ha hb hlt => ?_
    rw [hpath _ ha, hpath _ hb]
    exact hlt
  · intro k
    rw [List.mem_map]
    constructor
    · rintro ⟨fix, hfix, rfl⟩
      exact haim fix (hkept fix hfix)
    · -- The fix that is kept for the path of `k` can only be one of `k`.
      rintro ⟨n, hn, hk⟩
      obtain ⟨k', hk', fix, hfix, hmend⟩ := h.exists_fix n hn
      obtain rfl : k = k' := Option.some.inj (hk.symm.trans hk')
      obtain ⟨kept, hkeep, hsame⟩ := exists_mem_arrange hfix
      refine ⟨kept, hkeep, ?_⟩
      obtain ⟨m, -, hm⟩ := haim kept (hkept kept hkeep)
      obtain ⟨hof, hcheck, -⟩ := Tree.checkAt?_eq_some hm
      obtain ⟨hof', hcheck', -⟩ := Tree.checkAt?_eq_some hk
      refine Tree.check_eq_of_path hof hof' hcheck hcheck' ?_
      rw [hpath kept hkeep, hsame, hmend.path_eq]
  · rw [List.forall₂_map_left_iff, List.forall₂_same]
    exact fun fix hfix => hmends fix (hkept fix hfix)

/-! ## Applying -/

theorem apply_eq_ok_iff {fix : Fix} {l : Label} {t t' : Tree} :
    fix.apply l t = .ok t' ↔ fix.path ≠ [] ∧ ∃ e root, t.at? fix.path = some e ∧
      e.label = fix.target.label ∧ Element.put? l fix.replacement fix.path t.root = some root ∧
        t' = { t with root } := by
  unfold Fix.apply Tree.replaceAt?
  cases hat : t.at? fix.path with
  | none => simp
  | some e =>
    by_cases hlabel : e.label = fix.target.label
    · by_cases hpath : fix.path = []
      · simp [hlabel, hpath]
      · cases hput : Element.put? l fix.replacement fix.path t.root with
        | none => simp [hlabel, hpath]
        | some root => simp [hlabel, hpath, eq_comm]
    · simp [hlabel]

theorem applyAll_cons_eq_ok {l : Label} {i : Nat} {t t' : Tree} {fix : Fix} {rest : List Fix}
    (h : applyAll l i t (fix :: rest) = .ok t') :
    fix.path ≠ [] ∧ ∃ root, Element.put? (l.sub i) fix.replacement fix.path t.root = some root ∧
      applyAll l (i + 1) { t with root } rest = .ok t' := by
  obtain ⟨next, happ, hrest⟩ := exists_of_bind_eq_ok h
  obtain ⟨hpath, -, root, -, -, hroot, rfl⟩ := apply_eq_ok_iff.1 happ
  exact ⟨hpath, root, hroot, hrest⟩

theorem path_ne_nil_of_applyAll {l : Label} {i : Nat} {t t' : Tree} {fixes : List Fix}
    (h : applyAll l i t fixes = .ok t') : ∀ fix ∈ fixes, fix.path ≠ [] := by
  induction fixes generalizing i t with
  | nil => simp
  | cons fix rest ih =>
    obtain ⟨hpath, root, -, hnext⟩ := applyAll_cons_eq_ok h
    intro f hf
    rcases List.mem_cons.1 hf with rfl | hf
    · exact hpath
    · exact ih hnext f hf

/-- Fixes whose places part from each other do not disturb one another. -/
theorem exists_applyAll {l : Label} {i : Nat} {t : Tree} {fixes : List Fix}
    (hpaths : fixes.Pairwise fun a b => Path.Apart a.path b.path)
    (hne : ∀ fix ∈ fixes, fix.path ≠ [])
    (hat : ∀ fix ∈ fixes, t.at? fix.path = some fix.target) :
    ∃ t', applyAll l i t fixes = .ok t' := by
  induction fixes generalizing i t with
  | nil => exact ⟨t, rfl⟩
  | cons fix rest ih =>
    obtain ⟨hfirst, hrest⟩ := List.pairwise_cons.1 hpaths
    have htarget := hat fix (by simp)
    obtain ⟨root, hroot⟩ := @Element.exists_put (l.sub i) fix.replacement _ _ _ htarget
    have happ : fix.apply (l.sub i) t = .ok { t with root } :=
      apply_eq_ok_iff.2 ⟨hne fix (by simp), _, root, htarget, rfl, hroot, rfl⟩
    rw [applyAll, happ]
    refine ih hrest (fun f hf => hne f (by simp [hf])) fun f hf => ?_
    have hsame := Element.at?_put_of_apart (hfirst f hf) hroot
    exact hsame.trans (hat f (by simp [hf]))

/-! ## The whole run -/

theorem map_path_eq {checks : List Check} {fixes : List Fix}
    (h : List.Forall₂ Fix.Mends checks fixes) :
    fixes.map Fix.path = checks.map (·.statement.path) := by
  induction h with
  | nil => rfl
  | cons hmend _ ih => rw [List.map_cons, List.map_cons, ih, hmend.path_eq]

theorem filter_mends {checks : List Check} {fixes : List Fix} (test : Path → Bool)
    (h : List.Forall₂ Fix.Mends checks fixes) :
    List.Forall₂ Fix.Mends (checks.filter fun k => test k.statement.path)
      (fixes.filter fun f => test f.path) := by
  refine List.rel_filter (fun k f hmend => ?_) h
  simp only [hmend.path_eq]

theorem exists_check_of_mem {checks : List Check} {fixes : List Fix} {fix : Fix}
    (h : List.Forall₂ Fix.Mends checks fixes) (hfix : fix ∈ fixes) :
    ∃ check ∈ checks, Fix.Mends check fix := by
  induction h with
  | nil => cases hfix
  | cons hmend _ ih =>
    rcases List.mem_cons.1 hfix with rfl | hfix
    · exact ⟨_, List.mem_cons_self, hmend⟩
    · obtain ⟨check, hcheck, hm⟩ := ih hfix
      exact ⟨check, List.mem_cons_of_mem _ hcheck, hm⟩

def outermost (checks : List Check) (check : Check) : Bool :=
  Path.outermost (checks.map (·.statement.path)) check.statement.path

/-- What a run without an error did, when the diagnostics point at `checks`. -/
structure Run (t : Tree) (l : Label) (checks : List Check) (out : FixAll) : Prop where
  applied : List.Forall₂ Fix.Mends (checks.filter (outermost checks)) out.applied
  conflicts : List.Forall₂ Fix.Mends (checks.filter (!outermost checks ·)) out.conflicts
  tree : applyAll (l.sub 1) 0 t out.applied = .ok out.tree

theorem settle_mends {checks : List Check} {fixes : List Fix}
    (h : List.Forall₂ Fix.Mends checks (arrange fixes)) :
    List.Forall₂ Fix.Mends (checks.filter (outermost checks)) (settle [] (arrange fixes)).1 ∧
      List.Forall₂ Fix.Mends (checks.filter (!outermost checks ·))
        (settle [] (arrange fixes)).2 := by
  rw [settle_eq (arrange_pairwise fixes), map_path_eq h]
  exact ⟨filter_mends _ h, filter_mends (fun p => !Path.outermost _ p) h⟩

theorem precedes_of_mends {t : Tree} {offsets : List Nat} {checks : List Check} {fixes : List Fix}
    (haims : t.Aims offsets checks)
    (h : List.Forall₂ Fix.Mends (checks.filter (outermost checks)) fixes) :
    fixes.Pairwise fun a b => Path.Precedes a.path b.path := by
  have hpaths : (fixes.map Fix.path).Pairwise Path.Precedes := by
    rw [map_path_eq h, List.pairwise_map]
    refine (haims.sorted.filter _).imp_of_mem fun ha hb hlt => ?_
    refine Path.precedes_of_outermost ?_ (List.mem_filter.1 hb).2 hlt
    exact List.mem_map.2 ⟨_, List.mem_of_mem_filter ha, rfl⟩
  exact List.pairwise_map.1 hpaths

theorem at?_of_mends {t : Tree} {offsets : List Nat} {checks : List Check} {check : Check}
    {fix : Fix} (haims : t.Aims offsets checks) (hcheck : check ∈ checks)
    (h : Fix.Mends check fix) : t.at? fix.path = some fix.target := by
  obtain ⟨n, -, hn⟩ := (haims.mem_iff check).1 hcheck
  obtain ⟨l, rfl⟩ := h
  exact (Tree.checkAt?_eq_some hn).1.element_at

theorem Run.path_ne_nil {t : Tree} {l : Label} {checks : List Check} {out : FixAll}
    (h : Run t l checks out) : ∀ check ∈ checks, check.statement.path ≠ [] := by
  intro check hcheck hroot
  have hout : outermost checks check = true :=
    Path.outermost_iff.2 fun q _ hpre => by
      rw [hroot] at hpre ⊢
      exact List.prefix_nil.1 hpre
  have hmem : [] ∈ out.applied.map Fix.path := by
    rw [map_path_eq h.applied, ← hroot]
    exact List.mem_map.2 ⟨check, List.mem_filter.2 ⟨hcheck, hout⟩, rfl⟩
  obtain ⟨fix, hfix, hpath⟩ := List.mem_map.1 hmem
  exact path_ne_nil_of_applyAll h.tree fix hfix hpath

end FixAll

namespace Tree

def starts (ds : List Diagnostic) : List Nat := ds.map (·.location.span.start)

theorem run_of_fixAll {t : Tree} {l : Label} {ds : List Diagnostic} {out : FixAll}
    (h : t.fixAll l ds = .ok out) :
    (∀ n ∈ starts ds, ∃ check, t.checkAt? n = some check) ∧
      ∃ checks, t.Aims (starts ds) checks ∧ FixAll.Run t l checks out := by
  obtain ⟨fixes, hplan, h⟩ := exists_of_bind_eq_ok h
  have hplanned := FixAll.planned_of_planAll hplan
  obtain ⟨checks, haims, hmends⟩ := hplanned.exists_aims
  obtain ⟨happlied, hconflicts⟩ := FixAll.settle_mends hmends
  cases happly : FixAll.applyAll (l.sub 1) 0 t (FixAll.settle [] (FixAll.arrange fixes)).1 with
  | error e =>
    simp only [happly] at h
    cases h
  | ok tree =>
    simp only [happly] at h
    cases h
    refine ⟨fun n hn => ?_, checks, haims, happlied, hconflicts, happly⟩
    obtain ⟨check, hcheck, -⟩ := hplanned.exists_fix n hn
    exact ⟨check, hcheck⟩

/-- Fixing succeeds exactly if every diagnostic leads to a check below the root. -/
theorem fixAll_ok_iff {t : Tree} {l : Label} {ds : List Diagnostic} :
    (∃ out, t.fixAll l ds = .ok out) ↔
      ∀ n ∈ starts ds, ∃ check, t.checkAt? n = some check ∧ check.statement.path ≠ [] := by
  constructor
  · rintro ⟨out, h⟩ n hn
    obtain ⟨hall, checks, haims, hrun⟩ := run_of_fixAll h
    obtain ⟨check, hcheck⟩ := hall n hn
    exact ⟨check, hcheck, hrun.path_ne_nil check ((haims.mem_iff check).2 ⟨n, hn, hcheck⟩)⟩
  · intro h
    obtain ⟨fixes, hplan⟩ := @FixAll.exists_planAll (l.sub 0) t (starts ds) 0
      fun n hn => (h n hn).imp fun check hcheck => hcheck.1
    obtain ⟨checks, haims, hmends⟩ := (FixAll.planned_of_planAll hplan).exists_aims
    obtain ⟨happlied, -⟩ := FixAll.settle_mends hmends
    have hcheck := fun fix hfix => @FixAll.exists_check_of_mem _ _ fix happlied hfix
    obtain ⟨tree, htree⟩ : ∃ tree, FixAll.applyAll (l.sub 1) 0 t
        (FixAll.settle [] (FixAll.arrange fixes)).1 = .ok tree := by
      refine FixAll.exists_applyAll ((FixAll.precedes_of_mends haims happlied).imp fun h => h.apart)
        ?_ ?_
      · intro fix hfix
        obtain ⟨check, hmem, hmend⟩ := hcheck fix hfix
        obtain ⟨n, hn, hk⟩ := (haims.mem_iff check).1 (List.mem_of_mem_filter hmem)
        obtain ⟨k, hk', hne⟩ := h n hn
        obtain rfl : check = k := Option.some.inj (hk.symm.trans hk')
        rwa [hmend.path_eq]
      · intro fix hfix
        obtain ⟨check, hmem, hmend⟩ := hcheck fix hfix
        exact FixAll.at?_of_mends haims (List.mem_of_mem_filter hmem) hmend
    exact ⟨_, by rw [fixAll, show ds.map (·.location.span.start) = starts ds from rfl, hplan,
      Except.bind]; simp only [htree]; rfl⟩

end Tree
end CancellationLint
