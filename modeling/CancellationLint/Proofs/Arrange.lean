import CancellationLint.Fix.All
import CancellationLint.Proofs.Place

/-! # The order of fixes

Arranging puts the fixes in the order of their paths and keeps one for each path. Settling then
takes those that no other one encloses. -/

namespace CancellationLint

namespace Path

/-- Whether no other path of the row runs into this one. -/
def outermost (ps : List Path) (p : Path) : Bool := ps.all fun q => q = p || !q.isPrefixOf p

theorem outermost_iff {ps : List Path} {p : Path} :
    outermost ps p = true ↔ ∀ q ∈ ps, q <+: p → q = p := by
  simp only [outermost, List.all_eq_true, Bool.or_eq_true, decide_eq_true_eq, Bool.not_eq_true',
    ← Bool.not_eq_true, List.isPrefixOf_iff_prefix, or_iff_not_imp_right, not_not]

theorem exists_outermost {ps : List Path} {p : Path} (hp : p ∈ ps) :
    ∃ q ∈ ps, q <+: p ∧ outermost ps q = true := by
  by_cases hout : outermost ps p = true
  · exact ⟨p, hp, List.prefix_refl p, hout⟩
  · rw [outermost_iff] at hout
    push Not at hout
    obtain ⟨r, hr, hrp, hne⟩ := hout
    have hlt : r.length < p.length := by
      refine lt_of_le_of_ne hrp.length_le fun hlen => hne (hrp.eq_of_length hlen)
    obtain ⟨q, hq, hqr, hqout⟩ := exists_outermost hr
    exact ⟨q, hq, hqr.trans hrp, hqout⟩
termination_by p.length

theorem precedes_of_outermost {ps : List Path} {p q : Path} (hp : p ∈ ps)
    (hq : outermost ps q = true) (h : Before p q) : Precedes p q :=
  precedes_of_le h.1 fun hpre => h.2 (outermost_iff.1 hq p hp hpre)

end Path

namespace FixAll

/-! ## Arranging -/

theorem arrange_pairwise (fixes : List Fix) :
    (arrange fixes).Pairwise fun a b => Path.Before a.path b.path := by
  refine @dropRuns_pairwise _ _ _ Fix.path (fun p q => Path.le p q = true)
    (fun _ _ => Path.le_antisymm) _ ?_
  refine @List.pairwise_mergeSort _ (fun a b => Path.le a.path b.path) ?_ ?_ fixes
  · intro a b c
    exact Path.le_trans
  · intro a b
    simpa using Path.le_total a.path b.path

theorem mem_of_mem_arrange {fixes : List Fix} {fix : Fix} (h : fix ∈ arrange fixes) :
    fix ∈ fixes :=
  List.mem_mergeSort.1 ((dropRuns_sublist Fix.path _).subset h)

theorem exists_mem_arrange {fixes : List Fix} {fix : Fix} (h : fix ∈ fixes) :
    ∃ kept ∈ arrange fixes, kept.path = fix.path :=
  exists_mem_dropRuns Fix.path (List.mem_mergeSort.2 h)

/-! ## Settling -/

/-- The fixes taken so far are the outermost ones of those seen. -/
theorem any_encloses_iff {seen rest : List Fix} {fix : Fix} {ps : List Path}
    (hps : ps = (seen ++ fix :: rest).map Fix.path)
    (hsorted : (seen ++ fix :: rest).Pairwise fun a b => Path.Before a.path b.path) :
    (seen.filter fun f => Path.outermost ps f.path).any (·.encloses fix) = true ↔
      ¬ Path.outermost ps fix.path = true := by
  obtain ⟨-, hfix, hcross⟩ := List.pairwise_append.1 hsorted
  obtain ⟨hafter, -⟩ := List.pairwise_cons.1 hfix
  simp only [List.any_eq_true, List.mem_filter, Fix.encloses, List.isPrefixOf_iff_prefix]
  constructor
  · rintro ⟨f, ⟨hf, -⟩, hpre⟩ hout
    have hmem : f.path ∈ ps := by simp [hps, List.mem_map_of_mem hf]
    exact (hcross f hf fix (by simp)).2 (Path.outermost_iff.1 hout _ hmem hpre)
  · intro hnot
    obtain ⟨q, hq, hpre, hout⟩ := @Path.exists_outermost ps fix.path (by simp [hps])
    rw [hps] at hq
    obtain ⟨f, hf, rfl⟩ := List.mem_map.1 hq
    refine ⟨f, ⟨?_, hout⟩, hpre⟩
    rcases List.mem_append.1 hf with hf | hf
    · exact hf
    · exfalso
      rcases List.mem_cons.1 hf with rfl | hf
      · exact hnot hout
      · have hlt := hafter f hf
        exact hlt.2 (Path.le_antisymm hlt.1 (Path.le_of_prefix hpre))

theorem settle_seen {seen rest : List Fix} {ps : List Path}
    (hps : ps = (seen ++ rest).map Fix.path)
    (hsorted : (seen ++ rest).Pairwise fun a b => Path.Before a.path b.path) :
    settle (seen.filter fun f => Path.outermost ps f.path) rest =
      (rest.filter fun f => Path.outermost ps f.path,
        rest.filter fun f => !Path.outermost ps f.path) := by
  induction rest generalizing seen with
  | nil => rfl
  | cons fix rest ih =>
    have happ : seen ++ fix :: rest = seen ++ [fix] ++ rest := by simp
    have hnext := @ih (seen ++ [fix]) (by rw [hps, happ]) (by rw [← happ]; exact hsorted)
    have hany := any_encloses_iff hps hsorted
    rw [List.filter_append] at hnext
    rw [settle]
    by_cases hout : Path.outermost ps fix.path = true
    · rw [if_neg (by simpa [hout] using hany)]
      rw [List.filter_cons_of_pos (by simpa using hout), List.filter_nil] at hnext
      simp [hnext, hout]
    · rw [if_pos (hany.2 hout)]
      rw [List.filter_cons_of_neg (by simpa using hout), List.filter_nil, List.append_nil] at hnext
      simp [hnext, hout]

theorem settle_eq {fixes : List Fix}
    (hsorted : fixes.Pairwise fun a b => Path.Before a.path b.path) :
    settle [] fixes =
      (fixes.filter fun f => Path.outermost (fixes.map Fix.path) f.path,
        fixes.filter fun f => !Path.outermost (fixes.map Fix.path) f.path) :=
  @settle_seen [] fixes _ rfl hsorted

end FixAll
end CancellationLint
