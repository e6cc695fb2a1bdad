import CancellationLint.Text.LastLine
import Mathlib.Data.List.Basic
import Mathlib.Data.List.TakeWhile

/-! # Cutting a text before its last line

There is one way to cut a text so that the first part is empty or ends in a line feed and the second
one has no line feed. -/

namespace CancellationLint.Text

/-- Whether what follows a text starts a line. -/
def EndsLine (cs : List Char) : Prop := cs = [] ∨ ['\n'] <:+ cs

theorem splitLastLine_append (cs : List Char) :
    (splitLastLine cs).1 ++ (splitLastLine cs).2 = cs := by
  unfold splitLastLine
  rw [← List.reverse_append, List.takeWhile_append_dropWhile, List.reverse_reverse]

theorem endsLine_front (cs : List Char) : EndsLine (splitLastLine cs).1 := by
  unfold splitLastLine EndsLine
  cases h : cs.reverse.dropWhile (· ≠ '\n') with
  | nil => exact Or.inl rfl
  | cons c rest =>
    have hhead := List.head?_dropWhile_not (fun c : Char => decide (c ≠ '\n')) cs.reverse
    rw [h] at hhead
    obtain rfl : c = '\n' := by simpa using hhead
    exact Or.inr ⟨rest.reverse, by simp⟩

theorem feed_notMem_lastLine (cs : List Char) : '\n' ∉ (splitLastLine cs).2 := by
  unfold splitLastLine
  intro hmem
  simpa using List.mem_takeWhile_imp (List.mem_reverse.1 hmem)

/-- The two parts are known by how the first one ends and what the second one lacks. -/
theorem splitLastLine_eq {front line : List Char} (hfront : EndsLine front) (hline : '\n' ∉ line) :
    splitLastLine (front ++ line) = (front, line) := by
  have hall : ∀ c ∈ line.reverse, decide (c ≠ '\n') = true := by
    intro c hc
    rw [decide_eq_true_eq]
    rintro rfl
    exact hline (List.mem_reverse.1 hc)
  unfold splitLastLine
  rw [List.reverse_append, List.takeWhile_append_of_pos hall, List.dropWhile_append_of_pos hall]
  rcases hfront with rfl | ⟨before, rfl⟩ <;> simp

theorem lastLine_append {as : List Char} (h : EndsLine as) (bs : List Char) :
    (splitLastLine (as ++ bs)).2 = (splitLastLine bs).2 := by
  have hends : EndsLine (as ++ (splitLastLine bs).1) := by
    rcases endsLine_front bs with hnone | ⟨front, hfront⟩
    · rwa [hnone, List.append_nil]
    · exact Or.inr ⟨as ++ front, by rw [List.append_assoc, hfront]⟩
  conv_lhs => rw [← splitLastLine_append bs, ← List.append_assoc]
  rw [splitLastLine_eq hends (feed_notMem_lastLine bs)]

theorem lastLine_append_of_notMem (as : List Char) {bs : List Char} (h : '\n' ∉ bs) :
    (splitLastLine (as ++ bs)).2 = (splitLastLine as).2 ++ bs := by
  conv_lhs => rw [← splitLastLine_append as, List.append_assoc]
  rw [splitLastLine_eq (endsLine_front as)]
  simp [feed_notMem_lastLine, h]

theorem front_ne_nil {cs : List Char} (h : '\n' ∈ cs) : (splitLastLine cs).1 ≠ [] := by
  intro hnone
  have happend := splitLastLine_append cs
  rw [hnone, List.nil_append] at happend
  exact feed_notMem_lastLine cs (happend.symm ▸ h)

theorem lastLine_append_of_mem (as : List Char) {bs : List Char} (h : '\n' ∈ bs) :
    (splitLastLine (as ++ bs)).2 = (splitLastLine bs).2 := by
  have hends : EndsLine (as ++ (splitLastLine bs).1) :=
    .inr (((endsLine_front bs).resolve_left (front_ne_nil h)).trans (List.suffix_append _ _))
  conv_lhs => rw [← splitLastLine_append bs, ← List.append_assoc]
  rw [splitLastLine_eq hends (feed_notMem_lastLine bs)]

theorem lastLine_eq_nil_iff {cs : List Char} : (splitLastLine cs).2 = [] ↔ EndsLine cs := by
  constructor
  · intro h
    have happend := splitLastLine_append cs
    rw [h, List.append_nil] at happend
    exact happend ▸ endsLine_front cs
  · intro h
    have hline := lastLine_append h []
    rwa [List.append_nil] at hline

theorem front_ne_nil_iff {cs : List Char} : (splitLastLine cs).1 ≠ [] ↔ '\n' ∈ cs := by
  refine ⟨fun h => ?_, front_ne_nil⟩
  have hfeed := ((endsLine_front cs).resolve_left h).subset (List.mem_singleton_self _)
  rw [← splitLastLine_append cs]
  exact List.mem_append_left _ hfeed

end CancellationLint.Text
