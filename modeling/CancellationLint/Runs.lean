/-! # Runs of equal keys

What stands in a row with the same key is taken for the same thing, and the first stands for all. -/

namespace CancellationLint

variable {α β : Type} [DecidableEq β] (key : α → β)

/-- Of things in a row with the same key, the first. -/
def dropRuns : List α → List α
  | [] => []
  | a :: rest =>
    match dropRuns rest with
    | [] => [a]
    | b :: others => if key a = key b then a :: others else a :: b :: others

@[simp] theorem dropRuns_nil : dropRuns key [] = [] := rfl

theorem dropRuns_sublist (l : List α) : (dropRuns key l).Sublist l := by
  induction l with
  | nil => exact List.Sublist.refl _
  | cons a rest ih =>
    rw [dropRuns]
    split
    · exact List.Sublist.cons_cons a (List.nil_sublist rest)
    · rename_i b others heq
      rw [heq] at ih
      split
      · exact (List.sublist_of_cons_sublist ih).cons_cons a
      · exact ih.cons_cons a

theorem exists_mem_dropRuns {l : List α} {a : α} (h : a ∈ l) :
    ∃ b, b ∈ dropRuns key l ∧ key b = key a := by
  induction l with
  | nil => cases h
  | cons first rest ih =>
    rw [dropRuns]
    rcases List.mem_cons.1 h with rfl | h
    · refine ⟨a, ?_, rfl⟩
      split
      · simp
      · split <;> simp
    · obtain ⟨kept, hkept, hkey⟩ := ih h
      split
      · rename_i heq
        rw [heq] at hkept
        cases hkept
      · rename_i next others heq
        rw [heq] at hkept
        split
        · rename_i hsame
          rcases List.mem_cons.1 hkept with rfl | hkept
          · exact ⟨first, by simp, hsame.trans hkey⟩
          · exact ⟨kept, by simp [hkept], hkey⟩
        · exact ⟨kept, List.mem_cons_of_mem _ hkept, hkey⟩

/-- In a sorted list equal keys are in a row, so each key is left once. -/
theorem dropRuns_pairwise {le : β → β → Prop} (antisymm : ∀ a b, le a b → le b a → a = b)
    {l : List α} (h : l.Pairwise fun a b => le (key a) (key b)) :
    (dropRuns key l).Pairwise fun a b => le (key a) (key b) ∧ key a ≠ key b := by
  induction l with
  | nil => exact List.Pairwise.nil
  | cons a rest ih =>
    obtain ⟨ha, hrest⟩ := List.pairwise_cons.1 h
    have hkept := ih hrest
    have hsub := (dropRuns_sublist key rest).subset
    rw [dropRuns]
    split
    · exact List.pairwise_singleton _ _
    · rename_i next others heq
      rw [heq] at hkept hsub
      obtain ⟨hnext, hothers⟩ := List.pairwise_cons.1 hkept
      split
      · rename_i hsame
        refine List.pairwise_cons.2 ⟨fun b hb => ?_, hothers⟩
        rw [hsame]
        exact hnext b hb
      · rename_i hne
        refine List.pairwise_cons.2 ⟨fun b hb => ⟨ha b (hsub hb), ?_⟩, hkept⟩
        rcases List.mem_cons.1 hb with rfl | hb
        · exact hne
        · -- What comes after `next` cannot have come back to the key of `a`.
          intro hback
          have hle := (hnext b hb).1
          rw [← hback] at hle
          exact hne (antisymm _ _ (ha next (hsub (by simp))) hle)

end CancellationLint
