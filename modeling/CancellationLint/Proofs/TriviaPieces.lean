import CancellationLint.Proofs.Attributed

/-! # Reading trivia

Trivia consist of comments and of single characters outside of comments, and there is one way to
read them so from left to right. Trivia between two tokens are divided after the first line feed
that is such a character; one inside a block comment does not count. -/

namespace CancellationLint

/-- What trivia consist of. The line feed behind a line comment is not part of it. -/
inductive Piece where
  | char (c : Char)
  | block (body : List Char)
  | unclosed (body : List Char)
  | line (body : List Char)
  deriving DecidableEq, Repr

namespace Piece

def chars : Piece → List Char
  | .char c => [c]
  | .block body => '/' :: '*' :: (body ++ ['*', '/'])
  | .unclosed body => '/' :: '*' :: body
  | .line body => '/' :: '/' :: body

def textOf (ps : List Piece) : List Char := ps.flatMap chars

def feed : Piece := .char '\n'

/-- Whether the piece is read as such where the text goes on with the character `next`. -/
def Fits (next : Option Char) : Piece → Prop
  | .char c => c = '/' → next ≠ some '*' ∧ next ≠ some '/'
  | .block body => ¬ ['*', '/'] <:+: body ++ ['*']
  | .unclosed body => next = none ∧ ¬ ['*', '/'] <:+: body
  | .line body => '\n' ∉ body ∧ ∀ c ∈ next, c = '\n'

def Proper : List Piece → Prop
  | [] => True
  | p :: ps => p.Fits (textOf ps).head? ∧ Proper ps

def Reads (cs : List Char) (ps : List Piece) : Prop := Proper ps ∧ textOf ps = cs

theorem chars_ne_nil (p : Piece) : p.chars ≠ [] := by
  cases p <;> simp [chars]

@[simp] theorem textOf_nil : textOf [] = [] := rfl

@[simp] theorem textOf_cons (p : Piece) (ps : List Piece) :
    textOf (p :: ps) = p.chars ++ textOf ps :=
  List.flatMap_cons

@[simp] theorem textOf_append (as bs : List Piece) : textOf (as ++ bs) = textOf as ++ textOf bs :=
  List.flatMap_append

/-! ## There is one way to read a text -/

theorem close_infix_cons {c : Char} {cs : List Char} :
    ['*', '/'] <:+: c :: cs ↔ c = '*' ∧ cs.head? = some '/' ∨ ['*', '/'] <:+: cs := by
  rw [List.infix_cons_iff]
  cases cs with
  | nil => simp
  | cons d ds =>
    simp only [List.cons_prefix_cons, List.nil_prefix, List.head?_cons, Option.some.injEq, and_true,
      eq_comm]

theorem eq_of_close {as bs xs ys : List Char} (ha : ¬ ['*', '/'] <:+: as ++ ['*'])
    (hb : ¬ ['*', '/'] <:+: bs ++ ['*']) (h : as ++ '*' :: '/' :: xs = bs ++ '*' :: '/' :: ys) :
    as = bs ∧ xs = ys := by
  induction as generalizing bs with
  | nil =>
    cases bs with
    | nil => simpa using h
    | cons b bs =>
      -- The second text would be closed after its first character.
      rw [List.cons_append, close_infix_cons] at hb
      cases bs <;> grind
  | cons a as ih =>
    rw [List.cons_append, close_infix_cons, not_or] at ha
    cases bs with
    | nil => cases as <;> grind
    | cons b bs =>
      rw [List.cons_append, close_infix_cons, not_or] at hb
      rw [List.cons_append, List.cons_append] at h
      obtain ⟨rfl, htail⟩ := List.cons.inj h
      obtain ⟨rfl, rfl⟩ := ih ha.2 hb.2 htail
      exact ⟨rfl, rfl⟩

theorem eq_of_line {as bs xs ys : List Char} (ha : '\n' ∉ as) (hb : '\n' ∉ bs)
    (hx : ∀ c ∈ xs.head?, c = '\n') (hy : ∀ c ∈ ys.head?, c = '\n') (h : as ++ xs = bs ++ ys) :
    as = bs ∧ xs = ys := by
  rcases List.append_eq_append_iff.1 h with ⟨cs, rfl, rfl⟩ | ⟨cs, rfl, rfl⟩ <;>
    cases cs <;> simp_all

/-- What comes first in a text does not depend on how it is read. -/
theorem eq_of_fits {p q : Piece} {xs ys : List Char} (hp : p.Fits xs.head?) (hq : q.Fits ys.head?)
    (h : p.chars ++ xs = q.chars ++ ys) : p = q ∧ xs = ys := by
  cases p with
  | char c => cases q <;> grind [Fits, chars]
  | block body =>
    cases q with
    | char c => grind [Fits, chars]
    | block body' =>
      obtain ⟨rfl, rfl⟩ := eq_of_close hp hq (by simpa [chars] using h)
      exact ⟨rfl, rfl⟩
    | unclosed body' =>
      obtain rfl := List.head?_eq_none_iff.1 hq.1
      exact absurd ⟨body, xs, by simpa [chars] using h⟩ hq.2
    | line body' => simp [chars] at h
  | unclosed body =>
    obtain rfl := List.head?_eq_none_iff.1 hp.1
    cases q with
    | char c => grind [Fits, chars]
    | block body' => exact absurd ⟨body', ys, by simpa [chars] using h.symm⟩ hp.2
    | unclosed body' =>
      obtain rfl := List.head?_eq_none_iff.1 hq.1
      simpa [chars] using h
    | line body' => simp [chars] at h
  | line body =>
    cases q with
    | char c => grind [Fits, chars]
    | block body' | unclosed body' => simp [chars] at h
    | line body' =>
      obtain ⟨rfl, rfl⟩ := eq_of_line hp.1 hq.1 hp.2 hq.2 (by simpa [chars] using h)
      exact ⟨rfl, rfl⟩

theorem eq_of_proper {ps qs : List Piece} (hps : Proper ps) (hqs : Proper qs)
    (h : textOf ps = textOf qs) : ps = qs := by
  induction ps generalizing qs with
  | nil =>
    cases qs with
    | nil => rfl
    | cons q qs => simp [chars_ne_nil] at h
  | cons p ps ih =>
    cases qs with
    | nil => simp [chars_ne_nil] at h
    | cons q qs =>
      obtain ⟨rfl, hrest⟩ := eq_of_fits hps.1 hqs.1 h
      rw [ih hps.2 hqs.2 hrest]

theorem exists_close (cs : List Char) : ¬ ['*', '/'] <:+: cs ∨
    ∃ body rest, cs = body ++ '*' :: '/' :: rest ∧ ¬ ['*', '/'] <:+: body ++ ['*'] := by
  induction cs with
  | nil => exact .inl (by simp)
  | cons c cs ih =>
    by_cases hc : c = '*' ∧ cs.head? = some '/'
    · obtain ⟨rfl, hhead⟩ := hc
      obtain ⟨rest, rfl⟩ := List.head?_eq_some_iff.1 hhead
      exact .inr ⟨[], rest, rfl, by decide⟩
    · rcases ih with h | ⟨body, rest, rfl, hbody⟩
      · exact .inl (by rw [close_infix_cons]; exact not_or.2 ⟨hc, h⟩)
      · refine .inr ⟨c :: body, rest, rfl, ?_⟩
        rw [List.cons_append, close_infix_cons]
        refine not_or.2 ⟨fun h => hc ⟨h.1, ?_⟩, hbody⟩
        cases body <;> simp_all

theorem exists_first {cs : List Char} (h : cs ≠ []) :
    ∃ (p : Piece) (rest : List Char), p.chars ++ rest = cs ∧ p.Fits rest.head? := by
  obtain ⟨c, cs, rfl⟩ := List.exists_cons_of_ne_nil h
  by_cases hblock : c = '/' ∧ cs.head? = some '*'
  · obtain ⟨rfl, hhead⟩ := hblock
    obtain ⟨cs, rfl⟩ := List.head?_eq_some_iff.1 hhead
    rcases exists_close cs with hnot | ⟨body, rest, rfl, hbody⟩
    · exact ⟨.unclosed cs, [], by simp [chars], rfl, hnot⟩
    · exact ⟨.block body, rest, by simp [chars], hbody⟩
  · by_cases hline : c = '/' ∧ cs.head? = some '/'
    · obtain ⟨rfl, hhead⟩ := hline
      obtain ⟨cs, rfl⟩ := List.head?_eq_some_iff.1 hhead
      refine ⟨.line (cs.takeWhile (· ≠ '\n')), cs.dropWhile (· ≠ '\n'), by simp [chars], ?_, ?_⟩
      · intro hmem
        simpa using List.all_eq_true.1 List.all_takeWhile _ hmem
      · intro d hd
        have hnot := List.head?_dropWhile_not (· ≠ '\n') cs
        rw [Option.mem_def.1 hd] at hnot
        simpa using hnot
    · exact ⟨.char c, cs, rfl, fun hc => ⟨fun h => hblock ⟨hc, h⟩, fun h => hline ⟨hc, h⟩⟩⟩

theorem exists_reads (cs : List Char) : ∃ ps, Reads cs ps := by
  induction h : cs.length using Nat.strong_induction_on generalizing cs with
  | _ n ih =>
    by_cases hcs : cs = []
    · exact ⟨[], trivial, hcs.symm⟩
    · obtain ⟨p, rest, rfl, hp⟩ := exists_first hcs
      have hlength := List.length_pos_of_ne_nil p.chars_ne_nil
      rw [List.length_append] at h
      obtain ⟨ps, hps, rfl⟩ := ih rest.length (by omega) rest rfl
      exact ⟨p :: ps, ⟨hp, hps⟩, rfl⟩

theorem existsUnique_reads (cs : List Char) : ∃! ps, Reads cs ps := by
  obtain ⟨ps, hps⟩ := exists_reads cs
  exact ⟨ps, hps, fun qs hqs => eq_of_proper hqs.1 hps.1 (hqs.2.trans hps.2.symm)⟩

/-! ## A front of a text -/

theorem Proper.up_to_feed {as bs : List Piece} (h : Proper (as ++ feed :: bs)) :
    Proper (as ++ [feed]) := by
  induction as with
  | nil => exact ⟨by simp [feed, Fits], trivial⟩
  | cons a as ih =>
    have hhead : (textOf (as ++ [feed])).head? = (textOf (as ++ feed :: bs)).head? := by
      cases ha : textOf as <;> simp [ha, feed, chars]
    rw [List.cons_append, Proper] at h ⊢
    exact ⟨hhead ▸ h.1, ih h.2⟩

end Piece

/-! ## Dividing trivia -/

namespace Concrete

/-- A character that neither ends a line nor starts or ends a comment. -/
theorem splitTrivia_skip {scan : Scan} {c : Char} {rest : List Char}
    (hfeed : c = '\n' → scan = .blockComment)
    (hstart : scan = .plain → c = '/' → rest.head? ≠ some '*' ∧ rest.head? ≠ some '/')
    (hclose : scan = .blockComment → c = '*' → rest.head? ≠ some '/') :
    splitTrivia scan (c :: rest) = (c :: (splitTrivia scan rest).1, (splitTrivia scan rest).2) := by
  rw [splitTrivia.eq_7]
  · rintro rfl rfl
    cases hfeed rfl
  · rintro tail hscan hc rfl
    exact (hstart hscan hc).1 rfl
  · rintro tail hscan hc rfl
    exact (hstart hscan hc).2 rfl
  · rintro tail hscan hc rfl
    exact hclose hscan hc rfl
  · rintro rfl rfl
    cases hfeed rfl

theorem splitTrivia_block {body : List Char} (rest : List Char)
    (h : ¬ ['*', '/'] <:+: body ++ ['*']) :
    splitTrivia .blockComment (body ++ '*' :: '/' :: rest) =
      (body ++ '*' :: '/' :: (splitTrivia .plain rest).1, (splitTrivia .plain rest).2) := by
  induction body with
  | nil => rfl
  | cons c body ih =>
    rw [List.cons_append, Piece.close_infix_cons, not_or] at h
    have hclose : c = '*' → (body ++ '*' :: '/' :: rest).head? ≠ some '/' := by
      intro hc hhead
      refine h.1 ⟨hc, ?_⟩
      cases body <;> simp_all
    rw [List.cons_append, splitTrivia_skip (fun _ => rfl) (by simp) fun _ => hclose, ih h.2]
    rfl

theorem splitTrivia_unclosed {body : List Char} (h : ¬ ['*', '/'] <:+: body) :
    splitTrivia .blockComment body = (body, []) := by
  induction body with
  | nil => rfl
  | cons c body ih =>
    rw [Piece.close_infix_cons, not_or] at h
    rw [splitTrivia_skip (fun _ => rfl) (by simp) fun _ hc hhead => h.1 ⟨hc, hhead⟩, ih h.2]

theorem splitTrivia_line {body rest : List Char} (h : '\n' ∉ body)
    (hrest : ∀ c ∈ rest.head?, c = '\n') :
    splitTrivia .lineComment (body ++ rest) =
      (body ++ (splitTrivia .plain rest).1, (splitTrivia .plain rest).2) := by
  induction body with
  | nil =>
    cases rest with
    | nil => rfl
    | cons c rest =>
      obtain rfl := hrest c rfl
      rfl
  | cons c body ih =>
    rw [List.mem_cons, not_or] at h
    rw [List.cons_append, splitTrivia_skip (fun hc => absurd hc.symm h.1) (by simp) (by simp),
      ih h.2]
    rfl

theorem splitTrivia_piece {p : Piece} {rest : List Char} (hp : p.Fits rest.head?)
    (hfeed : p ≠ Piece.feed) :
    splitTrivia .plain (p.chars ++ rest) =
      (p.chars ++ (splitTrivia .plain rest).1, (splitTrivia .plain rest).2) := by
  cases p with
  | char c =>
    have hc : c ≠ '\n' := fun h => hfeed (congrArg Piece.char h)
    exact splitTrivia_skip (fun h => absurd h hc) (fun _ => hp) (by simp)
  | block body => simp [Piece.chars, splitTrivia, splitTrivia_block rest hp]
  | unclosed body =>
    obtain rfl := List.head?_eq_none_iff.1 hp.1
    simp [Piece.chars, splitTrivia, splitTrivia_unclosed hp.2]
  | line body => simp [Piece.chars, splitTrivia, splitTrivia_line hp.1 hp.2]

theorem splitTrivia_feed_piece {front back : List Piece}
    (h : Piece.Proper (front ++ Piece.feed :: back)) (hfront : Piece.feed ∉ front) :
    splitTrivia .plain (Piece.textOf (front ++ Piece.feed :: back)) =
      (Piece.textOf (front ++ [Piece.feed]), Piece.textOf back) := by
  induction front with
  | nil => rfl
  | cons p front ih =>
    rw [List.mem_cons, not_or] at hfront
    rw [List.cons_append, Piece.Proper] at h
    rw [List.cons_append, Piece.textOf_cons, splitTrivia_piece h.1 (Ne.symm hfront.1),
      ih h.2 hfront.2]
    rfl

theorem splitTrivia_no_feed {ps : List Piece} (h : Piece.Proper ps) (hfeed : Piece.feed ∉ ps) :
    splitTrivia .plain (Piece.textOf ps) = (Piece.textOf ps, []) := by
  induction ps with
  | nil => rfl
  | cons p ps ih =>
    rw [List.mem_cons, not_or] at hfeed
    rw [Piece.textOf_cons, splitTrivia_piece h.1 (Ne.symm hfeed.1), ih h.2 hfeed.2]

/-- How trivia are divided, in terms of how they are read. -/
theorem splitTrivia_of_reads {gap : List Char} {ps : List Piece} (h : Piece.Reads gap ps) :
    Piece.feed ∉ ps ∧ splitTrivia .plain gap = (gap, []) ∨
      ∃ front back, ps = front ++ Piece.feed :: back ∧ Piece.feed ∉ front ∧
        splitTrivia .plain gap = (Piece.textOf (front ++ [Piece.feed]), Piece.textOf back) := by
  obtain ⟨hproper, rfl⟩ := h
  by_cases hfeed : Piece.feed ∈ ps
  · obtain ⟨front, back, rfl, hfront⟩ := List.eq_append_cons_of_mem hfeed
    exact .inr ⟨front, back, rfl, hfront, splitTrivia_feed_piece hproper hfront⟩
  · exact .inl ⟨hfeed, splitTrivia_no_feed hproper hfeed⟩

example : splitTrivia .plain " /* é\n // */ // /*\n  ".toList =
    (" /* é\n // */ // /*\n".toList, "  ".toList) := by
  decide

theorem feed_notMem_dropLast {gap : List Char} {ps : List Piece}
    (h : Piece.Reads (splitTrivia .plain gap).1 ps) : Piece.feed ∉ ps.dropLast := by
  obtain ⟨qs, hqs⟩ := Piece.exists_reads gap
  rcases splitTrivia_of_reads hqs with ⟨hfeed, hsplit⟩ | ⟨front, back, rfl, hfront, hsplit⟩
  · rw [hsplit] at h
    obtain rfl := Piece.eq_of_proper h.1 hqs.1 (h.2.trans hqs.2.symm)
    exact fun hmem => hfeed (List.dropLast_subset _ hmem)
  · rw [hsplit] at h
    obtain rfl := Piece.eq_of_proper h.1 hqs.1.up_to_feed h.2
    rwa [List.dropLast_concat]

theorem trailing_of_shareTrivia {previous : Option Token} {gap : List Char} {t : Token}
    (ht : t ∈ (shareTrivia previous gap).1) : t.trailing.toList = (splitTrivia .plain gap).1 := by
  cases previous with
  | none => simp [shareTrivia] at ht
  | some token =>
    obtain rfl := List.mem_singleton.1 ht
    exact String.toList_ofList

theorem exists_gap_of_attach {previous : Option Token} {offset : Nat} {rest : List Char}
    {leaves : List ConcreteHead} {ts : List Token}
    (h : attach previous offset rest leaves = some ts) {t : Token} (ht : t ∈ ts) :
    ∃ gap, t.trailing.toList = (splitTrivia .plain gap).1 := by
  induction leaves generalizing previous offset rest ts with
  | nil =>
    cases h
    rcases List.mem_append.1 ht with ht | ht
    · exact ⟨rest, trailing_of_shareTrivia ht⟩
    · obtain rfl := List.mem_singleton.1 ht
      exact ⟨[], rfl⟩
  | cons leaf leaves ih =>
    rw [attach] at h
    obtain ⟨⟨gap, behind⟩, -, h⟩ := Option.bind_eq_some_iff.1 h
    obtain ⟨⟨covered, tail⟩, -, h⟩ := Option.bind_eq_some_iff.1 h
    obtain ⟨others, hothers, rfl⟩ := Option.map_eq_some_iff.1 h
    rcases List.mem_append.1 ht with ht | ht
    · exact ⟨gap, trailing_of_shareTrivia ht⟩
    · exact ih hothers ht

end Concrete
end CancellationLint
