import CancellationLint.Text.Cut

/-! # Slices and splices of joined texts

A text that is put together from pieces can be cut where the pieces meet. -/

namespace CancellationLint.Text

theorem size_toList (s : String) : size s.toList = s.utf8ByteSize := by
  rw [← String.ofList_toList (s := s)]
  generalize s.toList = cs
  rw [String.toList_ofList]
  induction cs with
  | nil => rfl
  | cons c cs ih =>
    rw [size_cons, ih, show c :: cs = [c] ++ cs from rfl, String.ofList_append,
      String.utf8ByteSize_append]
    congr 1
    exact String.utf8ByteSize_singleton.symm

theorem cutChars_append_text (a b : String) :
    cutChars a.utf8ByteSize (a ++ b).toList = some (a.toList, b.toList) := by
  rw [String.toList_append, ← size_toList]
  exact cutChars_append _ _

theorem slice?_append (a b c : String) :
    slice? (a ++ b ++ c) a.utf8ByteSize (a.utf8ByteSize + b.utf8ByteSize) = some b := by
  unfold slice?
  rw [if_pos (by omega), String.append_assoc, cutChars_append_text, Option.bind_some,
    Nat.add_sub_cancel_left, cutChars_append_text]
  simp

theorem cutChars_eq_some {n : Nat} {s : String} {a b : List Char}
    (h : cutChars n s.toList = some (a, b)) :
    s = String.ofList a ++ String.ofList b ∧ (String.ofList a).utf8ByteSize = n := by
  obtain ⟨hs, rfl⟩ := eq_append_of_cutChars h
  rw [← String.ofList_append, ← hs, String.ofList_toList, ← size_toList, String.toList_ofList]
  exact ⟨rfl, rfl⟩

/-- A slice is a piece of the text, at the offsets asked for. -/
theorem slice?_eq_some_iff {s b : String} {start stop : Nat} :
    slice? s start stop = some b ↔
      ∃ a c, s = a ++ b ++ c ∧ start = a.utf8ByteSize ∧ stop = a.utf8ByteSize + b.utf8ByteSize := by
  constructor
  · intro h
    unfold slice? at h
    split at h
    · rename_i hle
      obtain ⟨⟨a, r⟩, ha, h⟩ := Option.bind_eq_some_iff.1 h
      obtain ⟨⟨b, c⟩, hb, rfl⟩ := Option.map_eq_some_iff.1 h
      obtain ⟨hs, hstart⟩ := cutChars_eq_some ha
      rw [← String.toList_ofList (l := r)] at hb
      obtain ⟨hr, hstop⟩ := cutChars_eq_some hb
      refine ⟨String.ofList a, String.ofList c, ?_, hstart.symm, ?_⟩
      · rw [hs, hr, String.append_assoc]
      · simp only
        omega
    · cases h
  · rintro ⟨a, c, rfl, rfl, rfl⟩
    exact slice?_append a b c

theorem exists_piece {a b c d : String} (h : a ++ b = c ++ d)
    (hle : a.utf8ByteSize ≤ c.utf8ByteSize) : ∃ m, c = a ++ m ∧ b = m ++ d := by
  have hchars := congrArg String.toList h
  rw [String.toList_append, String.toList_append] at hchars
  rcases List.append_eq_append_iff.1 hchars with ⟨m, hc, hb⟩ | ⟨m, ha, hd⟩
  · refine ⟨String.ofList m, ?_, ?_⟩ <;>
      simp [← String.toList_inj, hc, hb]
  · have hsize : (String.ofList m).utf8ByteSize = 0 := by
      have ha : a = c ++ String.ofList m := by simp [← String.toList_inj, ha]
      rw [ha, String.utf8ByteSize_append] at hle
      omega
    obtain rfl : m = [] := by simpa using String.utf8ByteSize_eq_zero_iff.1 hsize
    refine ⟨"", ?_, ?_⟩ <;> simp_all [← String.toList_inj]

theorem splice?_append (a b c new : String) :
    splice? (a ++ b ++ c) a.utf8ByteSize (a.utf8ByteSize + b.utf8ByteSize) new =
      some (a ++ new ++ c) := by
  unfold splice?
  rw [if_pos (by omega), String.append_assoc, cutChars_append_text, Option.bind_some,
    Nat.add_sub_cancel_left, cutChars_append_text]
  simp

end CancellationLint.Text
