import CancellationLint.Check.Shape
import CancellationLint.Proofs.TreeCursors

/-! # The parts of a matched check

Where the parts of a cancellation check stand in its statement. -/

namespace CancellationLint

namespace Cursor

theorem mem_of_childAfter {c d : Cursor} {kind : Kind} (h : c.childAfter? kind = some d) :
    d ∈ c.children := by
  unfold childAfter? at h
  exact (List.dropWhile_sublist _).subset (List.mem_of_getElem? h)

theorem receiver?_eq_some {c d : Cursor} (h : c.receiver? = some d) : c.childAt? 0 = some d := by
  unfold receiver? at h
  rw [← children_getElem?]
  split at h
  · rename_i heq
    rw [heq, ← h]
    rfl
  · cases h

theorem memberName?_eq_some {c d : Cursor} (h : c.memberName? = some d) :
    3 ≤ c.element.children.length ∧ c.childAt? (c.element.children.length - 1) = some d := by
  unfold memberName? at h
  simp only at h
  split at h
  · cases h
  · exact ⟨by omega, h⟩

theorem expression_eq_memberAccess {c a : Cursor} (h : c.expression = .memberAccess a) :
    a = c ∧ c.isNode = true ∧ c.kind = .memberAccessExpression := by
  unfold expression at h
  split at h
  · split at h
    · rename_i hk hn
      cases h
      exact ⟨rfl, hn, hk⟩
    · cases h
  · repeat' split at h
    all_goals cases h
  all_goals cases h

end Cursor

namespace Check

theorem access?_eq_some {c a : Cursor} (h : access? c = some a) :
    a ∈ c.children ∧ a.isNode = true ∧ a.kind = .memberAccessExpression := by
  unfold access? at h
  split at h
  · rename_i x heq
    cases h
    obtain ⟨d, hd, hx⟩ := Option.map_eq_some_iff.1 heq
    obtain ⟨rfl, hn, hk⟩ := Cursor.expression_eq_memberAccess hx
    unfold Cursor.condition? at hd
    exact ⟨Cursor.mem_of_childAfter (Option.filter_eq_some_iff.1 hd).1, hn, hk⟩
  · cases h

/-- What a node has to be for a check to be matched there, and what its parts are. -/
theorem ofNode_eq_ok_iff {c : Cursor} {check : Check} :
    ofNode c = .ok check ↔
      (c.isNode = true ∧ c.kind = .ifStatement) ∧ c.hasError = false ∧
      access? c = some check.access ∧ check.access.receiver? = some check.receiver ∧
      check.access.memberName?.map Cursor.text = some cancellationFlag ∧
      c.body? = some check.body ∧ abort? check.body = some check.abort ∧
      c.elseBranch? = none ∧ check.statement = c := by
  obtain ⟨statement, access, receiver, body, abort⟩ := check
  unfold ofNode
  by_cases hnode : (!c.isNode || decide (c.kind ≠ .ifStatement)) = true
  · rw [if_pos hnode]
    simp only [Bool.or_eq_true, Bool.not_eq_true', decide_eq_true_eq] at hnode
    constructor
    · intro h
      cases h
    · rintro ⟨⟨hn, hk⟩, -⟩
      rcases hnode with h | h
      · rw [hn] at h
        cases h
      · exact absurd hk h
  rw [if_neg hnode]
  simp only [Bool.or_eq_true, Bool.not_eq_true', decide_eq_true_eq, not_or, not_not,
    Bool.not_eq_false] at hnode
  by_cases herr : c.hasError = true
  · simp [herr]
  rw [if_neg herr]
  simp only [hnode, herr, and_self, true_and]
  -- Each part is looked for only when the ones before were found.
  cases access? c with
  | none => simp
  | some a =>
    cases hr : a.receiver? with
    | none =>
      simp only [hr, reduceCtorEq, false_iff]
      rintro ⟨ha, hrec, -⟩
      cases ha
      rw [hr] at hrec
      cases hrec
    | some r =>
      by_cases hname : a.memberName?.map Cursor.text = some cancellationFlag
      case neg =>
        simp only [hr, ne_eq, hname, not_false_eq_true, if_true, reduceCtorEq, false_iff]
        rintro ⟨ha, -, hflag, -⟩
        cases ha
        exact hname hflag
      case pos =>
        simp only [hr, ne_eq, hname, not_true_eq_false, if_false]
        cases c.body? with
        | none => simp
        | some b =>
          cases hb : abort? b with
          | none =>
            simp only [hb, reduceCtorEq, false_iff]
            rintro ⟨-, -, -, hbody, habort, -⟩
            cases hbody
            rw [hb] at habort
            cases habort
          | some x =>
            cases helse : c.elseBranch? with
            | some e => simp [hb]
            | none => grind

theorem statement_of_ofNode {c : Cursor} {check : Check} (h : ofNode c = .ok check) :
    check.statement = c :=
  (ofNode_eq_ok_iff.1 h).2.2.2.2.2.2.2.2

/-- The receiver stands in the condition, and the flag is read further to the right. -/
theorem places_of_ofNode {c : Cursor} {check : Check} (h : ofNode c = .ok check) :
    ∃ i j name, c.childAt? i = some check.access ∧ check.access.childAt? 0 = some check.receiver ∧
      0 < j ∧ check.access.childAt? j = some name ∧ name.text = cancellationFlag := by
  obtain ⟨-, -, ha, hr, hname, -⟩ := ofNode_eq_ok_iff.1 h
  obtain ⟨i, hi⟩ := Cursor.mem_children_iff.1 (access?_eq_some ha).1
  obtain ⟨name, hn, htext⟩ := Option.map_eq_some_iff.1 hname
  obtain ⟨hlen, hj⟩ := Cursor.memberName?_eq_some hn
  exact ⟨i, _, name, hi, Cursor.receiver?_eq_some hr, by omega, hj, htext⟩

theorem flag_le_text {c : Cursor} {check : Check} (h : ofNode c = .ok check) :
    cancellationFlag.utf8ByteSize ≤ c.text.utf8ByteSize := by
  obtain ⟨i, j, name, hi, -, -, hj, htext⟩ := places_of_ofNode h
  have hat : c.element.at? [i, j] = some name.element :=
    Element.at?_cons_iff.2 ⟨_, Cursor.element_childAt hi,
      Element.at?_cons_iff.2 ⟨_, Cursor.element_childAt hj, rfl⟩⟩
  rw [← htext]
  exact Element.text_size_at hat

end Check
end CancellationLint
