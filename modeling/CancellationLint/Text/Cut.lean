/-! # Cutting texts at byte offsets

Offsets count the bytes of a text in UTF-8. A text can be cut only between two characters: a cut
inside a character, or beyond the end, has no result. -/

namespace CancellationLint.Text

/-- The number of bytes that the characters take. -/
def size : List Char → Nat
  | [] => 0
  | c :: cs => c.utf8Size + size cs

/-- The characters before and after the first `n` bytes. -/
def cutChars (n : Nat) : List Char → Option (List Char × List Char)
  | [] => if n = 0 then some ([], []) else none
  | c :: cs =>
    if n = 0 then some ([], c :: cs)
    else if c.utf8Size ≤ n then
      (cutChars (n - c.utf8Size) cs).map fun parts => (c :: parts.1, parts.2)
    else none

@[simp] theorem size_nil : size [] = 0 := rfl

@[simp] theorem size_cons (c : Char) (cs : List Char) : size (c :: cs) = c.utf8Size + size cs := rfl

@[simp] theorem size_append (a b : List Char) : size (a ++ b) = size a + size b := by
  induction a with
  | nil => simp
  | cons c a ih => simp [ih, Nat.add_assoc]

/-- A cut right after `a` gives `a` back. -/
theorem cutChars_append (a b : List Char) : cutChars (size a) (a ++ b) = some (a, b) := by
  induction a with
  | nil => cases b <;> simp [cutChars]
  | cons c a ih =>
    have hc : 0 < c.utf8Size := Char.utf8Size_pos c
    simp [cutChars, ih]
    omega

/-- Nothing is lost in a cut, and the first part has the size asked for. -/
theorem eq_append_of_cutChars {n : Nat} {cs a b : List Char} (h : cutChars n cs = some (a, b)) :
    cs = a ++ b ∧ n = size a := by
  induction cs generalizing n a with
  | nil => grind [cutChars, size_nil]
  | cons c cs ih =>
    rw [cutChars] at h
    split at h
    · grind [size_nil]
    · split at h
      · obtain ⟨⟨a', b'⟩, h', heq⟩ := Option.map_eq_some_iff.1 h
        obtain ⟨rfl, rfl⟩ := Prod.mk.inj heq
        obtain ⟨rfl, hn⟩ := ih h'
        refine ⟨rfl, ?_⟩
        simp only [size_cons]
        omega
      · cases h

/-- The text between two offsets. -/
def slice? (s : String) (start stop : Nat) : Option String :=
  if start ≤ stop then
    (cutChars start s.toList).bind fun parts =>
      (cutChars (stop - start) parts.2).map fun inner => String.ofList inner.1
  else none

/-- The text with the part between two offsets replaced. -/
def splice? (s : String) (start stop : Nat) (new : String) : Option String :=
  if start ≤ stop then
    (cutChars start s.toList).bind fun parts =>
      (cutChars (stop - start) parts.2).map fun inner =>
        String.ofList parts.1 ++ new ++ String.ofList inner.2
  else none

end CancellationLint.Text
