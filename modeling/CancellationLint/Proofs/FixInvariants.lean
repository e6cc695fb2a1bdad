import CancellationLint.Proofs.Plan

/-! # What fixing keeps

A fix makes a call around a part of the tree and puts it in place of another part. So a property that
passes to the parts of an element, to calls and to nodes with a child replaced is kept by any number of
fixes. -/

namespace CancellationLint

structure Fix.Kept (P : Element → Prop) : Prop where
  part {e x : Element} {p : Path} : P e → e.at? p = some x → P x
  swap {h : Head} {es : List Element} {i : Nat} {old new : Element} (l : Label) :
    P (.node h es) → es[i]? = some old → P new →
    P (.node (h.swap l old (es.set i new)) (es.set i new))
  call {check : Check} (l : Label) : P check.receiver.element →
    P (replacementFor l check check.statement.lineIndent?)

namespace Fix.Kept

variable {P : Element → Prop} (hP : Fix.Kept P)

include hP

theorem put {l : Label} {new e e' : Element} {p : Path} (he : P e) (hnew : P new)
    (h : Element.put? l new p e = some e') : P e' := by
  induction p generalizing e e' l with
  | nil =>
    cases h
    exact hnew
  | cons i p ih =>
    obtain ⟨g, es, old, child, rfl, hold, hchild, rfl⟩ := Element.put?_cons_iff.1 h
    have hat : (Element.node g es).at? [i] = some old := Element.at?_cons_iff.2 ⟨old, hold, rfl⟩
    exact hP.swap l he hold (ih (hP.part he hat) hchild)

theorem mends {root : Element} {check : Check} {fix : Fix} (hroot : P root)
    (hof : Cursor.Of root check.statement) (hcheck : Check.ofNode check.statement = .ok check)
    (h : Fix.Mends check fix) : P fix.replacement := by
  obtain ⟨l, rfl⟩ := h
  obtain ⟨i, j, name, hi, hrec, -⟩ := Check.places_of_ofNode hcheck
  exact hP.call l (hP.part hroot (hof.child hi |>.child hrec).element_at)

theorem plan {t : Tree} {target : Cursor} {fix : Fix} {l : Label} (ht : P t.root)
    (hof : Cursor.Of t.root target) (h : Fix.plan l t target = .ok fix) : P fix.replacement := by
  obtain ⟨check, rfl, hcheck, rfl⟩ := FixAll.exists_check_of_plan hof h
  exact hP.mends ht hof hcheck ⟨l, rfl⟩

theorem apply {fix : Fix} {l : Label} {t t' : Tree} (ht : P t.root) (hfix : P fix.replacement)
    (h : fix.apply l t = .ok t') : P t'.root := by
  obtain ⟨-, -, root, -, -, hroot, rfl⟩ := FixAll.apply_eq_ok_iff.1 h
  exact hP.put ht hfix hroot

theorem fix {t t' : Tree} {target : Cursor} {l : Label} (ht : P t.root)
    (hof : Cursor.Of t.root target) (h : t.fix l target = .ok t') : P t'.root := by
  obtain ⟨fix, hplan, happ⟩ := exists_of_bind_eq_ok h
  exact hP.apply ht (hP.plan ht hof hplan) happ

theorem applyAll {fixes : List Fix} {l : Label} {i : Nat} {t t' : Tree} (ht : P t.root)
    (hfixes : ∀ fix ∈ fixes, P fix.replacement) (h : FixAll.applyAll l i t fixes = .ok t') :
    P t'.root := by
  induction fixes generalizing t i with
  | nil =>
    cases h
    exact ht
  | cons fix rest ih =>
    obtain ⟨-, root, hroot, hnext⟩ := FixAll.applyAll_cons_eq_ok h
    have hstep : P root := hP.put ht (hfixes fix (by simp)) hroot
    exact ih (t := { t with root }) hstep (fun f hf => hfixes f (by simp [hf])) hnext

theorem fixAll {t : Tree} {l : Label} {ds : List Diagnostic} {out : FixAll} (ht : P t.root)
    (h : t.fixAll l ds = .ok out) : P out.tree.root := by
  obtain ⟨-, checks, haims, hrun⟩ := Tree.run_of_fixAll h
  refine hP.applyAll ht (fun fix hfix => ?_) hrun.tree
  obtain ⟨check, hmem, hmends⟩ := FixAll.exists_check_of_mem hrun.applied hfix
  obtain ⟨n, -, hn⟩ := (haims.mem_iff check).1 (List.mem_of_mem_filter hmem)
  obtain ⟨hof, hnode, -⟩ := Tree.checkAt?_eq_some hn
  exact hP.mends ht hof hnode hmends

end Fix.Kept

/-- The second tree comes from the first one by fixes of single statements and of all at once. -/
inductive Tree.Rewritten (t : Tree) : Tree → Prop
  | refl : Rewritten t t
  | fix {s s' : Tree} {target : Cursor} {l : Label} : Rewritten t s → Cursor.Of s.root target →
    s.fix l target = .ok s' → Rewritten t s'
  | fixAll {s : Tree} {l : Label} {ds : List Diagnostic} {out : FixAll} : Rewritten t s →
    s.fixAll l ds = .ok out → Rewritten t out.tree

theorem Tree.Rewritten.fixAt {t s s' : Tree} {l : Label} {offset : Nat} (h : Rewritten t s)
    (hfix : s.fixAt l offset = .ok s') : Rewritten t s' := by
  obtain ⟨target, hlocate, hfix⟩ := exists_of_bind_eq_ok hfix
  exact h.fix (of_locate hlocate).1 hfix

theorem Fix.Kept.rewritten {P : Element → Prop} (hP : Fix.Kept P) {t t' : Tree} (ht : P t.root)
    (h : Tree.Rewritten t t') : P t'.root := by
  induction h with
  | refl => exact ht
  | fix _ hof hfix ih => exact hP.fix ih hof hfix
  | fixAll _ hfix ih => exact hP.fixAll ih hfix

end CancellationLint
