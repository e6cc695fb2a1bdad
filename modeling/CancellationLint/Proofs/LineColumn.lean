import CancellationLint.Proofs.LastLine
import CancellationLint.Proofs.Lossless
import CancellationLint.Text.LineIndex

/-! # Lines and columns of offsets

The table of line starts is in order, so a search in it finds the line of an offset: the last line
that starts no later. The line and the column are what a count of the line feeds, and of the
characters since the last of them, gives. -/

namespace CancellationLint.Text

/-! ## Where lines start -/

theorem startsAfter_append (offset : Nat) (as bs : List Char) :
    startsAfter offset (as ++ bs) = startsAfter offset as ++ startsAfter (offset + size as) bs := by
  induction as generalizing offset with
  | nil => rfl
  | cons c as ih =>
    rw [List.cons_append, startsAfter, startsAfter, ih, size_cons, Nat.add_assoc]
    split <;> rfl

theorem length_startsAfter (offset : Nat) (cs : List Char) :
    (startsAfter offset cs).length = cs.count '\n' := by
  induction cs generalizing offset with
  | nil => rfl
  | cons c cs ih =>
    rw [startsAfter, List.count_cons]
    split <;> simp_all

theorem mem_startsAfter {offset n : Nat} {cs : List Char} (h : n ∈ startsAfter offset cs) :
    offset < n ∧ n ≤ offset + size cs := by
  induction cs generalizing offset with
  | nil => cases h
  | cons c cs ih =>
    have hc := Char.utf8Size_pos c
    have hrest : n ∈ startsAfter (offset + c.utf8Size) cs →
        offset < n ∧ n ≤ offset + size (c :: cs) := by
      intro h
      have := ih h
      rw [size_cons]
      omega
    rw [startsAfter] at h
    split at h
    · rcases List.mem_cons.1 h with rfl | h
      · rw [size_cons]
        omega
      · exact hrest h
    · exact hrest h

theorem pairwise_startsAfter (offset : Nat) (cs : List Char) :
    (startsAfter offset cs).Pairwise (· < ·) := by
  induction cs generalizing offset with
  | nil => exact List.Pairwise.nil
  | cons c cs ih =>
    rw [startsAfter]
    split
    · exact List.Pairwise.cons (fun n hn => (mem_startsAfter hn).1) (ih _)
    · exact ih _

theorem getLast?_startsAfter (offset : Nat) {cs : List Char} (h : EndsLine cs) :
    (offset :: startsAfter offset cs).getLast? = some (offset + size cs) := by
  rcases h with rfl | ⟨front, rfl⟩
  · rfl
  · have hfeed : startsAfter (offset + size front) ['\n'] = [offset + size (front ++ ['\n'])] := by
      rw [size_append, ← Nat.add_assoc]
      rfl
    rw [startsAfter_append, hfeed, ← List.cons_append, List.getLast?_concat]

namespace LineIndex

theorem pairwise_starts (text : String) : (ofText text).starts.Pairwise (· < ·) :=
  List.Pairwise.cons (fun _ hn => (mem_startsAfter hn).1) (pairwise_startsAfter 0 text.toList)

/-! ## The search for a line -/

/-- In a row in order, the members up to a bound come first. -/
theorem le_iff_lt_length {row : List Nat} (hrow : row.Pairwise (· < ·)) {bound i m : Nat}
    (hi : row[i]? = some m) : m ≤ bound ↔ i < (row.takeWhile (· ≤ bound)).length := by
  induction row generalizing i with
  | nil => cases hi
  | cons first rest ih =>
    obtain ⟨hfirst, hrest⟩ := List.pairwise_cons.1 hrow
    rw [List.takeWhile_cons]
    cases i with
    | zero =>
      cases hi
      split <;> simp_all
    | succ i =>
      rw [List.getElem?_cons_succ] at hi
      have hlt := hfirst m (List.mem_of_getElem? hi)
      split
      · rw [List.length_cons, Nat.add_lt_add_iff_right]
        exact ih hrest hi
      · simp_all
        omega

theorem exists_last {row : List Nat} (hrow : row.Pairwise (· < ·)) (hfirst : row[0]? = some 0)
    (bound : Nat) :
    ∃ k last, row[k]? = some last ∧ last ≤ bound ∧
      (∀ i m, row[i]? = some m → (m ≤ bound ↔ i ≤ k)) ∧
      (row.takeWhile (· ≤ bound)).length = k + 1 ∧
      (row.takeWhile (· ≤ bound)).getLast? = some last := by
  have hpos := (le_iff_lt_length hrow hfirst).1 (Nat.zero_le bound)
  obtain ⟨k, hk⟩ := Nat.exists_eq_succ_of_ne_zero hpos.ne'
  have hlt : k < (row.takeWhile (· ≤ bound)).length := by omega
  have hlast : row[k]? = some (row.takeWhile (· ≤ bound))[k] := by
    have htaken := List.takeWhile_prefix (l := row) (· ≤ bound)
    rw [htaken.getElem hlt, List.getElem?_eq_getElem]
  refine ⟨k, _, hlast, (le_iff_lt_length hrow hlast).2 hlt, fun i m hi => ?_, hk, ?_⟩
  · rw [le_iff_lt_length hrow hi]
    omega
  · rw [List.getLast?_eq_getElem?, hk, Nat.succ_sub_one, List.getElem?_eq_getElem hlt]

/-- The search finds the last line that starts no later than the offset. -/
theorem exists_line (text : String) (offset : Nat) :
    ∃ k start, (ofText text).starts[k]? = some start ∧ start ≤ min offset text.utf8ByteSize ∧
      (∀ i m, (ofText text).starts[i]? = some m →
        (m ≤ min offset text.utf8ByteSize ↔ i ≤ k)) ∧
      ((ofText text).position offset).line = k + 1 ∧
      (isBoundary text (min offset text.utf8ByteSize) = false →
        start + ((ofText text).position offset).column = min offset text.utf8ByteSize + 1) := by
  obtain ⟨k, start, hk, hle, hpart, hlength, hlast⟩ :=
    exists_last (pairwise_starts text) rfl (min offset text.utf8ByteSize)
  refine ⟨k, start, hk, hle, hpart, hlength, fun hinside => ?_⟩
  have hslice : slice? text start (min offset text.utf8ByteSize) = none := by
    rw [Option.eq_none_iff_forall_ne_some]
    intro part hpart
    obtain ⟨a, c, htext, -, hstop⟩ := slice?_eq_some_iff.1 hpart
    rw [isBoundary, hstop, ← String.utf8ByteSize_append, htext, cutChars_append_text] at hinside
    cases hinside
  unfold position
  simp only [show (ofText text).text = text from rfl, hlast, Option.getD_some, hslice]
  rw [← Nat.add_assoc, Nat.add_sub_cancel' hle]

/-! ## The position of an offset -/

theorem takeWhile_starts (before rest : List Char) :
    (0 :: startsAfter 0 (before ++ rest)).takeWhile (· ≤ size before) =
      0 :: startsAfter 0 before := by
  have hbefore : ∀ n ∈ 0 :: startsAfter 0 before, decide (n ≤ size before) = true := by
    intro n hn
    rw [decide_eq_true_eq]
    rcases List.mem_cons.1 hn with rfl | hn
    · exact Nat.zero_le _
    · have := mem_startsAfter hn
      omega
  have hrest : (startsAfter (0 + size before) rest).takeWhile (· ≤ size before) = [] := by
    cases h : startsAfter (0 + size before) rest with
    | nil => rfl
    | cons n ns =>
      have hn : n ∈ startsAfter (0 + size before) rest := by
        rw [h]
        exact List.mem_cons_self
      have := mem_startsAfter hn
      exact List.takeWhile_cons_of_neg (by simp; omega)
  rw [startsAfter_append, ← List.cons_append, List.takeWhile_append_of_pos hbefore, hrest,
    List.append_nil]

theorem position_eq {text : String} {offset : Nat} {before rest : List Char}
    (htext : text.toList = before ++ rest)
    (hoffset : min offset text.utf8ByteSize = size before) :
    (ofText text).position offset =
      { line := 1 + before.count '\n', column := 1 + (splitLastLine before).2.length } := by
  have hstarts : (ofText text).starts.takeWhile (· ≤ size before) = 0 :: startsAfter 0 before := by
    rw [ofText, htext]
    exact takeWhile_starts before rest
  -- The line of the offset starts behind the whole lines before it.
  have hlast : (0 :: startsAfter 0 before).getLast? = some (size (splitLastLine before).1) := by
    have hnone : startsAfter (0 + size (splitLastLine before).1) (splitLastLine before).2 = [] := by
      rw [← List.length_eq_zero_iff, length_startsAfter]
      exact List.count_eq_zero.2 (feed_notMem_lastLine before)
    have hfront := getLast?_startsAfter 0 (endsLine_front before)
    conv_lhs => rw [← splitLastLine_append before, startsAfter_append, hnone, List.append_nil]
    rw [hfront, Nat.zero_add]
  have hslice : slice? text (size (splitLastLine before).1) (size before) =
      some (String.ofList (splitLastLine before).2) := by
    have hsplit := splitLastLine_append before
    have hparts : text.toList = (splitLastLine before).1 ++ ((splitLastLine before).2 ++ rest) := by
      rw [htext, ← List.append_assoc, hsplit]
    have hslice := slice?_of_toList hparts
    rwa [hsplit] at hslice
  unfold position
  simp only [show (ofText text).text = text from rfl, hoffset, hstarts, hlast, Option.getD_some,
    hslice, List.length_cons, length_startsAfter, String.length_ofList, Nat.add_comm]

theorem exists_between {text : String} {m n : Nat} (hm : isBoundary text m = true)
    (hn : isBoundary text n = true) (h : m < n) :
    ∃ before between rest, text.toList = before ++ (between ++ rest) ∧ between ≠ [] ∧
      m = size before ∧ n = size (before ++ between) := by
  obtain ⟨⟨before, rest⟩, hcut⟩ := Option.isSome_iff_exists.1 hm
  obtain ⟨htext, rfl⟩ := eq_append_of_cutChars hcut
  obtain ⟨between, after, rfl, hsize⟩ := exists_gap htext hn
  refine ⟨before, between, after, htext, ?_, rfl, by omega⟩
  rintro rfl
  simp only [List.append_nil] at hsize
  omega

end LineIndex

def Position.Before (p q : Position) : Prop :=
  p.line < q.line ∨ p.line = q.line ∧ p.column < q.column

theorem Position.Before.ne {p q : Position} (h : p.Before q) : p ≠ q := by
  rintro rfl
  unfold Before at h
  omega

namespace LineIndex

theorem position_of_boundary {text : String} {offset : Nat}
    (h : isBoundary text offset = true ∨ text.utf8ByteSize ≤ offset) :
    ∃ before rest, text = before ++ rest ∧
      before.utf8ByteSize = min offset text.utf8ByteSize ∧
      (ofText text).position offset =
        { line := 1 + before.toList.count '\n'
          column := 1 + (splitLastLine before.toList).2.length } := by
  rcases h with h | h
  · obtain ⟨⟨before, rest⟩, hcut⟩ := Option.isSome_iff_exists.1 h
    obtain ⟨htext, hsize⟩ := cutChars_eq_some hcut
    have hle : offset ≤ text.utf8ByteSize := by
      rw [htext, String.utf8ByteSize_append]
      omega
    refine ⟨String.ofList before, String.ofList rest, htext, by omega, ?_⟩
    apply position_eq
    · rw [← String.toList_append, ← htext]
    · rw [size_toList]
      omega
  · refine ⟨text, "", by simp, by omega, ?_⟩
    apply position_eq (List.append_nil _).symm
    rw [size_toList]
    omega

theorem position_before {text : String} {m n : Nat} (hm : isBoundary text m = true)
    (hn : isBoundary text n = true) (h : m < n) :
    ((ofText text).position m).Before ((ofText text).position n) := by
  obtain ⟨before, between, rest, htext, hne, rfl, rfl⟩ := exists_between hm hn h
  have hsize := congrArg size htext
  simp only [size_toList, size_append] at hsize
  have hfirst := @position_eq text (size before) before _ htext (by omega)
  have hsecond := @position_eq text (size (before ++ between)) (before ++ between) rest
    (by rw [htext, List.append_assoc]) (by rw [size_append]; omega)
  rw [hfirst, hsecond]
  simp only [Position.Before, List.count_append]
  by_cases hfeed : '\n' ∈ between
  · left
    have := List.count_pos_iff.2 hfeed
    omega
  · right
    have := List.length_pos_of_ne_nil hne
    rw [lastLine_append_of_notMem before hfeed, List.length_append, List.count_eq_zero.2 hfeed]
    omega

/-- A position counts the line feeds before an offset and the characters since the last one. -/
theorem position_counts (text : String) :
    (∀ offset, ∃ k start, (ofText text).starts[k]? = some start ∧
      start ≤ min offset text.utf8ByteSize ∧
      (∀ i m, (ofText text).starts[i]? = some m →
        (m ≤ min offset text.utf8ByteSize ↔ i ≤ k)) ∧
      ((ofText text).position offset).line = k + 1 ∧
      (isBoundary text (min offset text.utf8ByteSize) = false →
        start + ((ofText text).position offset).column = min offset text.utf8ByteSize + 1)) ∧
    (∀ offset, isBoundary text offset = true ∨ text.utf8ByteSize ≤ offset →
      ∃ before rest, text = before ++ rest ∧
        before.utf8ByteSize = min offset text.utf8ByteSize ∧
        (ofText text).position offset =
          { line := 1 + before.toList.count '\n'
            column := 1 + (splitLastLine before.toList).2.length }) ∧
    (∀ m n, isBoundary text m = true → isBoundary text n = true → m < n →
      ((ofText text).position m).Before ((ofText text).position n)) ∧
    (∀ m n, isBoundary text m = true → isBoundary text n = true →
      (ofText text).position m = (ofText text).position n → m = n) := by
  refine ⟨exists_line text, fun offset => position_of_boundary, fun m n => position_before,
    fun m n hm hn heq => ?_⟩
  rcases Nat.lt_trichotomy m n with h | h | h
  · exact absurd heq (position_before hm hn h).ne
  · exact h
  · exact absurd heq.symm (position_before hn hm h).ne

end LineIndex

end CancellationLint.Text

namespace CancellationLint

namespace Sample

def stanza : String := "ab\né\n\nx"

end Sample

theorem Sample.position_counts_stanza :
    Text.isBoundary Sample.stanza 5 = true ∧ Text.isBoundary Sample.stanza 7 = true ∧
      ((Text.LineIndex.ofText Sample.stanza).position 5).Before
        ((Text.LineIndex.ofText Sample.stanza).position 7) ∧
      (Text.LineIndex.ofText Sample.stanza).position 5 = { line := 2, column := 2 } ∧
      (Text.LineIndex.ofText Sample.stanza).position 7 = { line := 4, column := 1 } ∧
      ∃ before rest, Sample.stanza = before ++ rest ∧ before.utf8ByteSize = 8 ∧
        (Text.LineIndex.ofText Sample.stanza).position 18446744073709551615 =
          { line := 1 + before.toList.count '\n'
            column := 1 + (Text.splitLastLine before.toList).2.length } := by
  obtain ⟨-, hposition, hbefore, -⟩ := Text.LineIndex.position_counts Sample.stanza
  have hfive : Text.isBoundary Sample.stanza 5 = true := by decide
  have hseven : Text.isBoundary Sample.stanza 7 = true := by decide
  exact ⟨hfive, hseven, hbefore 5 7 hfive hseven (by decide), by decide +kernel,
    by decide +kernel, hposition 18446744073709551615 (Or.inr (by decide))⟩

end CancellationLint
