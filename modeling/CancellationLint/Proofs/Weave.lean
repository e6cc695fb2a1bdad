import CancellationLint.Edit.Batch
import CancellationLint.Proofs.Splice
import Mathlib.Data.List.Basic

/-! # Edits of separate pieces

Edits that replace separate pieces of a text, listed from the last one to the first. Applied one after
the other, or worked into the text at once, they replace every piece. -/

namespace CancellationLint
namespace Edit

theorem overlap?_cons_iff {edit : Edit} {edits : List Edit} :
    overlap? (edit :: edits) = none ↔
      (∀ next ∈ edits.head?, next.span.stop ≤ edit.span.start) ∧ overlap? edits = none := by
  cases edits with
  | nil => simp [overlap?]
  | cons next others =>
    rw [overlap?]
    by_cases hover : next.span.stop > edit.span.start
    · simp only [if_pos hover, reduceCtorEq, List.head?_cons, Option.mem_def, Option.some.injEq,
        forall_eq', false_iff]
      omega
    · simp only [if_neg hover, List.head?_cons, Option.mem_def, Option.some.injEq, forall_eq']
      exact ⟨fun h => ⟨by omega, h⟩, And.right⟩

theorem getElem?_toUTF8_append (a b : String) (i : Nat) :
    (a ++ b).toUTF8.data[i]? =
      if i < a.utf8ByteSize then a.toUTF8.data[i]? else b.toUTF8.data[i - a.utf8ByteSize]? := by
  have hdata : (a ++ b).toUTF8.data = a.toUTF8.data ++ b.toUTF8.data := by
    rw [← ByteArray.data_append]
    exact congrArg ByteArray.data String.toByteArray_append
  rw [hdata, Array.getElem?_append]
  rfl

variable [Digest]

/-- The edits replace pieces of the first text, from its end to its start, and leave the second. -/
inductive Replaces : List Edit → String → String → Prop
  | nil (text : String) : Replaces [] text text
  | cons {edit : Edit} {edits : List Edit} {a a' old b : String} :
    Replaces edits a a' → edit.span.start = a.utf8ByteSize →
    edit.span.stop = a.utf8ByteSize + old.utf8ByteSize →
    (old = edit.newText ∨ edit.expected.admits old = true) →
    Replaces (edit :: edits) (a ++ old ++ b) (a' ++ edit.newText ++ b)

theorem Replaces.eq_of_nil {old new : String} (h : Replaces [] old new) : old = new := by
  cases h
  rfl

theorem Replaces.stop_le {edits : List Edit} {old new : String} (h : Replaces edits old new) :
    ∀ edit ∈ edits, edit.span.stop ≤ old.utf8ByteSize := by
  induction h with
  | nil text => simp
  | cons _ _ hstop _ ih =>
    intro e he
    simp only [String.utf8ByteSize_append]
    rcases List.mem_cons.1 he with rfl | he
    · omega
    · have := ih e he
      omega

theorem Replaces.apart {edits : List Edit} {old new : String} (h : Replaces edits old new) :
    (∀ edit ∈ edits, edit.span.start ≤ edit.span.stop) ∧
      edits.Pairwise fun later earlier => earlier.span.stop ≤ later.span.start := by
  induction h with
  | nil text => exact ⟨by simp, List.Pairwise.nil⟩
  | cons hrest hstart hstop _ ih =>
    refine ⟨List.forall_mem_cons.2 ⟨by omega, ih.1⟩, List.pairwise_cons.2 ⟨?_, ih.2⟩⟩
    intro e he
    rw [hstart]
    exact hrest.stop_le e he

theorem Replaces.overlap? {edits : List Edit} {old new : String} (h : Replaces edits old new) :
    Edit.overlap? edits = none := by
  induction h with
  | nil text => rfl
  | cons hrest hstart _ _ ih =>
    refine overlap?_cons_iff.2 ⟨fun next hnext => ?_, ih⟩
    rw [hstart]
    exact hrest.stop_le next (List.mem_of_mem_head? hnext)

theorem admits_self (text : String) : (Expected.ofText text).admits text = true := by
  unfold Expected.ofText
  split <;> simp [Expected.admits]

theorem admits_ofText_iff (hdigest : Function.Injective Digest.ofText) {text found : String} :
    (Expected.ofText text).admits found = true ↔ found = text := by
  unfold Expected.ofText
  split <;> simp [Expected.admits, hdigest.eq_iff]

theorem current_eq_ok_iff {edit : Edit} {content found : String} :
    edit.current content = .ok found ↔
      ∃ a b, content = a ++ found ++ b ∧ edit.span.start = a.utf8ByteSize ∧
        edit.span.stop = a.utf8ByteSize + found.utf8ByteSize ∧
        (found = edit.newText ∨ edit.expected.admits found = true) := by
  unfold current
  constructor
  · intro h
    simp only at h
    split at h
    · cases h
    · split at h
      · cases h
      · rename_i piece hslice
        split at h
        · rename_i hadmits
          cases h
          obtain ⟨a, b, hs, hstart, hstop⟩ := Text.slice?_eq_some_iff.1 hslice
          exact ⟨a, b, hs, hstart, hstop, by simpa using hadmits⟩
        · cases h
  · rintro ⟨a, b, rfl, hstart, hstop, hadmits⟩
    have hrange : ¬ (decide (edit.span.start > edit.span.stop) ||
        decide (edit.span.stop > (a ++ found ++ b).utf8ByteSize)) = true := by
      simp only [Bool.or_eq_true, decide_eq_true_eq, String.utf8ByteSize_append]
      omega
    rw [if_neg hrange, hstart, hstop, Text.slice?_append]
    exact if_pos (by simpa using hadmits)

theorem applyTo_eq_ok_iff {edit : Edit} {content result : String} :
    edit.applyTo content = .ok result ↔
      ∃ a found b, content = a ++ found ++ b ∧ edit.span.start = a.utf8ByteSize ∧
        edit.span.stop = a.utf8ByteSize + found.utf8ByteSize ∧
        (found = edit.newText ∨ edit.expected.admits found = true) ∧
        result = a ++ edit.newText ++ b := by
  unfold applyTo
  constructor
  · intro h
    cases hfound : edit.current content with
    | error e =>
      rw [hfound] at h
      cases h
    | ok found =>
      obtain ⟨a, b, rfl, hstart, hstop, hadmits⟩ := current_eq_ok_iff.1 hfound
      rw [hfound, hstart, hstop, Text.splice?_append] at h
      cases h
      exact ⟨a, found, b, rfl, hstart, hstop, hadmits, rfl⟩
  · rintro ⟨a, found, b, rfl, hstart, hstop, hadmits, rfl⟩
    rw [current_eq_ok_iff.2 ⟨a, b, rfl, hstart, hstop, hadmits⟩, hstart, hstop,
      Text.splice?_append]
    rfl

theorem exists_piece_of_current {edit : Edit} {a rest found : String}
    (h : edit.current (a ++ rest) = .ok found) (hstop : edit.span.stop ≤ a.utf8ByteSize) :
    ∃ x b, a = x ++ found ++ b ∧ edit.span.start = x.utf8ByteSize ∧
      edit.span.stop = x.utf8ByteSize + found.utf8ByteSize ∧
      (found = edit.newText ∨ edit.expected.admits found = true) := by
  obtain ⟨x, y, htext, hstart, hend, hadmits⟩ := current_eq_ok_iff.1 h
  obtain ⟨b, rfl, -⟩ := Text.exists_piece htext.symm
    (by rw [String.utf8ByteSize_append]; omega)
  exact ⟨x, b, rfl, hstart, hend, hadmits⟩

theorem applyTo_eq_bind (edit : Edit) (content : String) :
    edit.applyTo content = (edit.current content).bind fun _ => edit.applyTo content := by
  unfold applyTo
  cases edit.current content <;> rfl

section Step

variable {edit : Edit} {edits : List Edit} {x found b : String}
  (hstart : edit.span.start = x.utf8ByteSize)
  (hstop : edit.span.stop = x.utf8ByteSize + found.utf8ByteSize)
  (hadmits : found = edit.newText ∨ edit.expected.admits found = true)

include hstart hstop hadmits

theorem applyTo_piece (tail : String) :
    edit.applyTo (x ++ found ++ b ++ tail) = .ok (x ++ (edit.newText ++ (b ++ tail))) := by
  refine applyTo_eq_ok_iff.2 ⟨x, found, b ++ tail, ?_, hstart, hstop, hadmits, ?_⟩ <;>
    simp only [String.append_assoc]

theorem weave_piece (file : PathName) (rest tail : String) :
    ∃ outcome, weave file (x ++ found ++ b ++ rest) (x ++ found ++ b ++ tail) (edit :: edits) =
      (weave file (x ++ (found ++ (b ++ rest))) (x ++ (edit.newText ++ (b ++ tail))) edits).map
        fun r => (r.1, outcome :: r.2) := by
  have hcurrent : edit.current (x ++ found ++ (b ++ rest)) = .ok found :=
    current_eq_ok_iff.2 ⟨x, b ++ rest, rfl, hstart, hstop, hadmits⟩
  have hsplice := Text.splice?_append x found (b ++ tail) edit.newText
  simp only [String.append_assoc] at hcurrent hsplice ⊢
  rw [weave, hcurrent, Except.bind]
  split
  · -- The piece reads as the new text already, so the text stays as it is.
    rename_i hsame
    exact ⟨.already file, by rw [hsame]⟩
  · rw [hstart, hstop, hsplice]
    exact ⟨.applied file edit.newText.utf8ByteSize, rfl⟩

end Step

/-- One after the other, edits that do not overlap replace their pieces, or one of them fails. -/
theorem foldlM_applyTo_iff {edits : List Edit} {a tail c : String} (hover : overlap? edits = none)
    (hwithin : ∀ edit ∈ edits.head?, edit.span.stop ≤ a.utf8ByteSize) :
    edits.foldlM (fun content edit => edit.applyTo content) (a ++ tail) = .ok c ↔
      ∃ a', Replaces edits a a' ∧ c = a' ++ tail := by
  induction edits generalizing a tail with
  | nil =>
    constructor
    · intro h
      cases h
      exact ⟨a, Replaces.nil a, rfl⟩
    · rintro ⟨a', h, rfl⟩
      rw [h.eq_of_nil]
      rfl
  | cons edit edits ih =>
    obtain ⟨hnext, hover⟩ := overlap?_cons_iff.1 hover
    rw [List.foldlM_cons]
    constructor
    · intro h
      cases hfound : edit.current (a ++ tail) with
      | error e =>
        rw [applyTo_eq_bind, hfound] at h
        cases h
      | ok found =>
        obtain ⟨x, b, rfl, hstart, hstop, hadmits⟩ :=
          exists_piece_of_current hfound (hwithin edit rfl)
        rw [applyTo_piece hstart hstop hadmits] at h
        obtain ⟨x', hrest, rfl⟩ := (ih hover (hstart ▸ hnext)).1 h
        exact ⟨_, Replaces.cons hrest hstart hstop hadmits, by simp only [String.append_assoc]⟩
    · rintro ⟨a', h, rfl⟩
      cases h with
      | @cons _ _ x x' found b hrest hstart hstop hadmits =>
        rw [applyTo_piece hstart hstop hadmits]
        refine (ih hover (hstart ▸ hnext)).2 ⟨x', hrest, ?_⟩
        simp only [String.append_assoc]

/-- Worked in at once, with all checks against the text before any edit, they do the same. -/
theorem weave_iff {edits : List Edit} {a rest tail c : String} (file : PathName)
    (hover : overlap? edits = none)
    (hwithin : ∀ edit ∈ edits.head?, edit.span.stop ≤ a.utf8ByteSize) :
    (∃ outcomes, weave file (a ++ rest) (a ++ tail) edits = .ok (c, outcomes)) ↔
      ∃ a', Replaces edits a a' ∧ c = a' ++ tail := by
  induction edits generalizing a rest tail with
  | nil =>
    constructor
    · rintro ⟨outcomes, h⟩
      cases h
      exact ⟨a, Replaces.nil a, rfl⟩
    · rintro ⟨a', h, rfl⟩
      rw [h.eq_of_nil]
      exact ⟨[], rfl⟩
  | cons edit edits ih =>
    obtain ⟨hnext, hover⟩ := overlap?_cons_iff.1 hover
    constructor
    · rintro ⟨outcomes, h⟩
      cases hfound : edit.current (a ++ rest) with
      | error e =>
        rw [weave, hfound] at h
        cases h
      | ok found =>
        obtain ⟨x, b, rfl, hstart, hstop, hadmits⟩ :=
          exists_piece_of_current hfound (hwithin edit rfl)
        obtain ⟨outcome, hstep⟩ := @weave_piece _ edit edits x found b hstart hstop hadmits file rest
          tail
        rw [hstep] at h
        cases hwoven : weave file (x ++ (found ++ (b ++ rest)))
            (x ++ (edit.newText ++ (b ++ tail))) edits with
        | error e =>
          rw [hwoven] at h
          cases h
        | ok woven =>
          rw [hwoven] at h
          cases h
          obtain ⟨x', hrest, hc⟩ := (ih hover (hstart ▸ hnext)).1 ⟨woven.2, hwoven⟩
          exact ⟨_, Replaces.cons hrest hstart hstop hadmits,
            by rw [hc]; simp only [String.append_assoc]⟩
    · rintro ⟨a', h, rfl⟩
      cases h with
      | @cons _ _ x x' found b hrest hstart hstop hadmits =>
        obtain ⟨outcome, hstep⟩ := @weave_piece _ edit edits x found b hstart hstop hadmits file rest
          tail
        obtain ⟨outcomes, hwoven⟩ : ∃ outcomes, weave file (x ++ (found ++ (b ++ rest)))
            (x ++ (edit.newText ++ (b ++ tail))) edits =
              .ok (x' ++ edit.newText ++ b ++ tail, outcomes) :=
          (ih hover (hstart ▸ hnext)).2 ⟨x', hrest, by simp only [String.append_assoc]⟩
        rw [hstep, hwoven]
        exact ⟨outcome :: outcomes, rfl⟩

theorem stop_le_of_current {edit : Edit} {content found : String}
    (h : edit.current content = .ok found) : edit.span.stop ≤ content.utf8ByteSize := by
  obtain ⟨a, b, rfl, -, hstop, -⟩ := current_eq_ok_iff.1 h
  simp only [String.utf8ByteSize_append]
  omega

theorem foldlM_applyTo_eq_ok_iff {edits : List Edit} {content c : String}
    (hover : overlap? edits = none) :
    edits.foldlM (fun content edit => edit.applyTo content) content = .ok c ↔
      Replaces edits content c := by
  have hiff := fun hwithin => @foldlM_applyTo_iff _ edits content "" c hover hwithin
  simp only [String.append_empty, exists_eq_right'] at hiff
  constructor
  · intro h
    refine (hiff fun edit hedit => ?_).1 h
    obtain ⟨others, rfl⟩ := List.head?_eq_some_iff.1 hedit
    rw [List.foldlM_cons] at h
    cases hfound : edit.current content with
    | error e =>
      rw [applyTo_eq_bind, hfound] at h
      cases h
    | ok found => exact stop_le_of_current hfound
  · intro h
    exact (hiff fun edit hedit => h.stop_le edit (List.mem_of_mem_head? hedit)).2 h

theorem weave_eq_ok_iff {edits : List Edit} {content c : String} (file : PathName)
    (hover : overlap? edits = none) :
    (∃ outcomes, weave file content content edits = .ok (c, outcomes)) ↔
      Replaces edits content c := by
  have hiff := fun hwithin => @weave_iff _ edits content "" "" c file hover hwithin
  simp only [String.append_empty, exists_eq_right'] at hiff
  constructor
  · rintro ⟨outcomes, h⟩
    refine (hiff fun edit hedit => ?_).1 ⟨outcomes, h⟩
    obtain ⟨others, rfl⟩ := List.head?_eq_some_iff.1 hedit
    cases hfound : edit.current content with
    | error e =>
      rw [weave, hfound] at h
      cases h
    | ok found => exact stop_le_of_current hfound
  · intro h
    exact (hiff fun edit hedit => h.stop_le edit (List.mem_of_mem_head? hedit)).2 h

/-! ## What stays -/

/-- Where a byte outside the spans of the edits is found after them. -/
def offsetAfter : List Edit → Nat → Nat
  | [], i => i
  | edit :: edits, i =>
    if edit.span.stop ≤ i then
      offsetAfter edits i + edit.newText.utf8ByteSize - (edit.span.stop - edit.span.start)
    else offsetAfter edits i

theorem Replaces.offsetAfter_end {edits : List Edit} {old new : String} (h : Replaces edits old new)
    {i : Nat} (hi : old.utf8ByteSize ≤ i) :
    offsetAfter edits i = new.utf8ByteSize + (i - old.utf8ByteSize) := by
  induction h with
  | nil text =>
    unfold offsetAfter
    omega
  | cons _ hstart hstop _ ih =>
    simp only [String.utf8ByteSize_append] at hi ⊢
    rw [offsetAfter, if_pos (by omega), ih (by omega)]
    omega

/-- Every byte outside the spans is kept. -/
theorem Replaces.byte_eq {edits : List Edit} {old new : String} (h : Replaces edits old new)
    {i : Nat} (hout : ∀ edit ∈ edits, i < edit.span.start ∨ edit.span.stop ≤ i) :
    new.toUTF8.data[offsetAfter edits i]? = old.toUTF8.data[i]? := by
  induction h with
  | nil text => rfl
  | @cons edit edits a a' found b hrest hstart hstop _ ih =>
    obtain ⟨hedit, hothers⟩ := List.forall_mem_cons.1 hout
    rw [offsetAfter]
    by_cases hi : i < a.utf8ByteSize
    · have hkept := ih hothers
      have hsome : a.toUTF8.data[i]? ≠ none := by
        simpa [Array.getElem?_eq_none_iff] using hi
      have hlt : offsetAfter edits i < a'.utf8ByteSize := by
        by_contra hge
        exact hsome (hkept.symm.trans (Array.getElem?_eq_none_iff.2 (Nat.le_of_not_lt hge)))
      rw [if_neg (by omega), String.append_assoc, String.append_assoc, getElem?_toUTF8_append,
        getElem?_toUTF8_append a, if_pos hlt, if_pos hi, hkept]
    · rw [if_pos (by omega), hrest.offsetAfter_end (by omega), getElem?_toUTF8_append,
        getElem?_toUTF8_append (a ++ found)]
      simp only [String.utf8ByteSize_append]
      rw [if_neg (by omega), if_neg (by omega)]
      congr 1
      omega

/-! ## Texts that are expected -/

/-- As `Replaces`, with pieces that are not empty and are what the edits were made for. -/
inductive Splices : List Edit → String → String → Prop
  | nil (text : String) : Splices [] text text
  | cons {edit : Edit} {edits : List Edit} {a a' old b : String} :
    Splices edits a a' → edit.span.start = a.utf8ByteSize →
    edit.span.stop = a.utf8ByteSize + old.utf8ByteSize → 0 < old.utf8ByteSize →
    edit.expected = .ofText old →
    Splices (edit :: edits) (a ++ old ++ b) (a' ++ edit.newText ++ b)

theorem Splices.replaces {edits : List Edit} {old new : String} (h : Splices edits old new) :
    Replaces edits old new := by
  induction h with
  | nil text => exact Replaces.nil text
  | cons _ hstart hstop _ hexp ih =>
    exact Replaces.cons ih hstart hstop (Or.inr (by rw [hexp]; exact admits_self _))

theorem Splices.start_lt {edits : List Edit} {old new : String} (h : Splices edits old new) :
    ∀ edit ∈ edits, edit.span.start < edit.span.stop := by
  induction h with
  | nil text => simp
  | cons _ hstart hstop hpos _ ih =>
    intro e he
    rcases List.mem_cons.1 he with rfl | he
    · omega
    · exact ih e he

theorem Splices.descending {edits : List Edit} {old new : String} (h : Splices edits old new) :
    edits.Pairwise fun a b => b.span.start < a.span.start := by
  induction h with
  | nil text => exact List.Pairwise.nil
  | cons hrest hstart _ _ _ ih =>
    refine List.pairwise_cons.2 ⟨fun e he => ?_, ih⟩
    have hstop := hrest.replaces.stop_le e he
    have hlt := hrest.start_lt e he
    omega

end Edit
end CancellationLint
