import CancellationLint.Proofs.Plan

/-! # Trees with elements replaced

A tree in which some elements gave way to others, whatever they were and in whatever order it was
done. The nodes around them are built anew and keep what they ask for. -/

namespace CancellationLint

/-- The second element is the first one with others at the paths in `cut`. -/
inductive Refitted : (Path → Prop) → (Path → Element → Prop) → Element → Element → Prop
  | new {cut : Path → Prop} {fit : Path → Element → Prop} {old x : Element} : cut [] → fit [] x →
    Refitted cut fit old x
  | token {cut : Path → Prop} {fit : Path → Element → Prop} (t : Token) : ¬ cut [] →
    Refitted cut fit (.token t) (.token t)
  | node {cut : Path → Prop} {fit : Path → Element → Prop} {h h' : Head} {es es' : List Element} :
    ¬ cut [] → h'.reformat = h.reformat → es'.length = es.length →
    (∀ i e e', es[i]? = some e → es'[i]? = some e' →
      Refitted (fun p => cut (i :: p)) (fun p => fit (i :: p)) e e') →
    Refitted cut fit (.node h es) (.node h' es')

namespace Refitted

variable {cut : Path → Prop} {fit : Path → Element → Prop} {e e' : Element}

theorem refl (hcut : ∀ p, ¬ cut p) (e : Element) : Refitted cut fit e e := by
  induction e generalizing cut fit with
  | token t => exact token t (hcut [])
  | node h es ih =>
    refine node (hcut []) rfl rfl fun i e e' he he' => ?_
    obtain rfl : e = e' := Option.some.inj (he.symm.trans he')
    exact ih e (List.mem_of_getElem? he) fun p => hcut (i :: p)

theorem congr {cut' : Path → Prop} (hcut : ∀ p, cut p ↔ cut' p) (h : Refitted cut fit e e') :
    Refitted cut' fit e e' := by
  rw [← show cut = cut' from funext fun p => propext (hcut p)]
  exact h

theorem put {root new x : Element} {p : Path} {l : Label} (h : Refitted cut fit root e)
    (hp : ∀ q, cut q → Path.Apart q p) (hx : root.at? p = some x) (hnew : fit p new)
    (hput : Element.put? l new p e = some e') :
    Refitted (fun q => cut q ∨ q = p) fit root e' := by
  -- What was cut before is apart from `p`, so the way down `p` meets none of it.
  induction p generalizing root e e' cut fit l with
  | nil =>
    cases hput
    exact .new (Or.inr rfl) hnew
  | cons i p ih =>
    obtain ⟨g', es', old', child', rfl, hold', hchild', rfl⟩ := Element.put?_cons_iff.1 hput
    cases h with
    | new hcut => exact absurd List.nil_prefix (hp [] hcut).1
    | @node _ _ g _ es _ hcut href hlen hall =>
      obtain ⟨d, hd, hx⟩ := Element.at?_cons_iff.1 hx
      have hi := (List.getElem?_eq_some_iff.1 hold').1
      have hchild := ih (hall i d old' hd hold')
        (fun q hq => (Path.apart_cons_iff i q p).1 (hp (i :: q) hq)) hx hnew hchild'
      refine node (by simp [hcut]) href (by simp [hlen]) fun j a b ha hb => ?_
      by_cases hij : i = j
      · subst hij
        rw [List.getElem?_set_self hi] at hb
        cases hb
        obtain rfl : d = a := Option.some.inj (hd.symm.trans ha)
        exact hchild.congr fun q => by simp
      · rw [List.getElem?_set_ne hij] at hb
        exact (hall j a b ha hb).congr fun q => by simp [Ne.symm hij]

theorem applyAll {t s t' : Tree} {fixes : List Fix} {l : Label} {i : Nat}
    (h : Refitted cut fit t.root s.root)
    (hpaths : fixes.Pairwise fun a b => Path.Apart a.path b.path)
    (hcut : ∀ fix ∈ fixes, ∀ q, cut q → Path.Apart q fix.path)
    (hat : ∀ fix ∈ fixes, t.root.at? fix.path = some fix.target)
    (hfit : ∀ fix ∈ fixes, fit fix.path fix.replacement)
    (happ : FixAll.applyAll l i s fixes = .ok t') :
    Refitted (fun p => cut p ∨ p ∈ fixes.map Fix.path) fit t.root t'.root := by
  induction fixes generalizing s cut i with
  | nil =>
    cases happ
    exact h.congr fun p => by simp
  | cons fix rest ih =>
    obtain ⟨hfirst, hrest⟩ := List.pairwise_cons.1 hpaths
    obtain ⟨-, root, hroot, hnext⟩ := FixAll.applyAll_cons_eq_ok happ
    have hput := h.put (hcut fix (by simp)) (hat fix (by simp)) (hfit fix (by simp)) hroot
    have hlast := ih hput hrest
      (fun f hf q hq => by
        rcases hq with hq | rfl
        · exact hcut f (by simp [hf]) q hq
        · exact hfirst f hf)
      (fun f hf => hat f (by simp [hf])) (fun f hf => hfit f (by simp [hf])) hnext
    exact hlast.congr fun p => by simp [or_assoc]

end Refitted

theorem Tree.refitted_fixAll {t : Tree} {l : Label} {ds : List Diagnostic} {out : FixAll}
    {fit : Path → Element → Prop} (h : t.fixAll l ds = .ok out)
    (hfit : ∀ check fix, Cursor.Of t.root check.statement →
      Check.ofNode check.statement = .ok check → Fix.Mends check fix →
      fit fix.path fix.replacement) :
    Refitted (· ∈ out.applied.map Fix.path) fit t.root out.tree.root := by
  obtain ⟨-, checks, haims, hrun⟩ := run_of_fixAll h
  have hcheck := fun fix hfix => @FixAll.exists_check_of_mem _ _ fix hrun.applied hfix
  have hpaths := (FixAll.precedes_of_mends haims hrun.applied).imp fun hab => hab.apart
  refine (Refitted.applyAll (Refitted.refl (fun _ => id) t.root) hpaths (by simp) ?_ ?_
    hrun.tree).congr fun p => by simp
  · intro fix hfix
    obtain ⟨check, hmem, hmends⟩ := hcheck fix hfix
    exact FixAll.at?_of_mends haims (List.mem_of_mem_filter hmem) hmends
  · intro fix hfix
    obtain ⟨check, hmem, hmends⟩ := hcheck fix hfix
    obtain ⟨n, -, hn⟩ := (haims.mem_iff check).1 (List.mem_of_mem_filter hmem)
    obtain ⟨hof, hnode, -⟩ := checkAt?_eq_some hn
    exact hfit check fix hof hnode hmends

end CancellationLint
