import CancellationLint.Proofs.TriviaPieces

/-! # Scanning trivia byte by byte

Trivia can be divided by a scan over their bytes that jumps over comments. No byte of a longer
character is that of a line feed, a slash or a star, so the scan sees the same comments as a reader
of the characters, and it never cuts a character. Hence which trivia the tokens of a text get. -/

namespace CancellationLint

namespace Text

/-! ## Bytes -/

def bytes (cs : List Char) : List UInt8 := cs.flatMap String.utf8EncodeChar

@[simp] theorem bytes_nil : bytes [] = [] := rfl

@[simp] theorem bytes_cons (c : Char) (cs : List Char) :
    bytes (c :: cs) = String.utf8EncodeChar c ++ bytes cs :=
  List.flatMap_cons

@[simp] theorem bytes_append (as bs : List Char) : bytes (as ++ bs) = bytes as ++ bytes bs :=
  List.flatMap_append

@[simp] theorem length_bytes (cs : List Char) : (bytes cs).length = size cs := by
  induction cs with
  | nil => rfl
  | cons c cs ih => simp [ih]

theorem high_or (b : UInt8) : 128 ≤ (b &&& 0x1f ||| 0xc0) ∧ 128 ≤ (b &&& 0x0f ||| 0xe0) ∧
    128 ≤ (b &&& 0x07 ||| 0xf0) ∧ 128 ≤ (b &&& 0x3f ||| 0x80) := by
  have hall : ∀ n < 256, 128 ≤ (UInt8.ofNat n &&& 0x1f ||| 0xc0) ∧
      128 ≤ (UInt8.ofNat n &&& 0x0f ||| 0xe0) ∧ 128 ≤ (UInt8.ofNat n &&& 0x07 ||| 0xf0) ∧
      128 ≤ (UInt8.ofNat n &&& 0x3f ||| 0x80) := by
    decide +kernel
  simpa using hall b.toNat b.toNat_lt

theorem high_of_mem {c : Char} (hc : c.utf8Size ≠ 1) {b : UInt8}
    (hb : b ∈ String.utf8EncodeChar c) : 128 ≤ b := by
  rcases Char.utf8Size_eq c with h | h | h | h
  · exact absurd h hc
  · rw [String.utf8EncodeChar_eq_cons_cons h] at hb
    rcases List.mem_pair.1 hb with rfl | rfl
    · exact (high_or _).1
    · exact (high_or _).2.2.2
  · rw [String.utf8EncodeChar_eq_cons_cons_cons h] at hb
    rcases List.mem_cons.1 hb with rfl | hb
    · exact (high_or _).2.1
    · rcases List.mem_pair.1 hb with rfl | rfl <;> exact (high_or _).2.2.2
  · rw [String.utf8EncodeChar_eq_cons_cons_cons_cons h] at hb
    rcases List.mem_cons.1 hb with rfl | hb
    · exact (high_or _).2.2.1
    · simp only [List.mem_cons, List.not_mem_nil, or_false] at hb
      rcases hb with rfl | rfl | rfl <;> exact (high_or _).2.2.2

theorem toNat_le_of_utf8Size {c : Char} (h : c.utf8Size = 1) : c.toNat ≤ 127 := by
  rw [Char.utf8Size_eq_one_iff, UInt32.le_iff_toNat_le] at h
  exact h

theorem toNat_toUInt8 {c : Char} (h : c.utf8Size = 1) : c.val.toUInt8.toNat = c.toNat := by
  have hle := toNat_le_of_utf8Size h
  rw [UInt32.toNat_toUInt8]
  exact Nat.mod_eq_of_lt (by change c.toNat < 256; omega)

/-- A byte that is a character of its own is the next character. -/
theorem getElem?_bytes (front rest : List Char) {a : Char} (ha : a.utf8Size = 1) :
    (bytes (front ++ rest))[size front]? = some a.val.toUInt8 ↔ rest.head? = some a := by
  rw [bytes_append, List.getElem?_append_right (by simp), length_bytes, Nat.sub_self]
  cases rest with
  | nil => simp
  | cons c cs =>
    rw [bytes_cons, List.head?_cons, Option.some.injEq]
    by_cases hc : c.utf8Size = 1
    · rw [String.utf8EncodeChar_eq_singleton hc, List.singleton_append, List.getElem?_cons_zero,
        Option.some.injEq]
      refine ⟨fun h => Char.toNat_inj.1 ?_, fun h => h ▸ rfl⟩
      rw [← toNat_toUInt8 hc, h, toNat_toUInt8 ha]
    · refine ⟨fun h => ?_, fun h => absurd (h ▸ ha) hc⟩
      -- The first byte of `c` is high, that of `a` is not.
      obtain ⟨b, bs, hbs⟩ := List.exists_cons_of_ne_nil (l := String.utf8EncodeChar c) (by
        rw [← List.length_pos_iff_ne_nil, String.length_utf8EncodeChar]; exact c.utf8Size_pos)
      have hhigh := UInt8.le_iff_toNat_le.1 (high_of_mem hc (b := b) (by simp [hbs]))
      rw [hbs, List.cons_append, List.getElem?_cons_zero, Option.some.injEq] at h
      have hlow := toNat_le_of_utf8Size ha
      rw [← toNat_toUInt8 ha, ← h] at hlow
      change 128 ≤ b.toNat at hhigh
      omega

theorem getElem?_bytes_next (front : List Char) {c : Char} (rest : List Char) {a : Char}
    (hc : c.utf8Size = 1) (ha : a.utf8Size = 1) :
    (bytes (front ++ c :: rest))[size front + 1]? = some a.val.toUInt8 ↔ rest.head? = some a := by
  simpa [hc] using getElem?_bytes (front ++ [c]) rest ha

/-! ## Searching -/

/-- How many bytes stand before the first place where `pattern` is. -/
def find? (pattern : List Char) : List Char → Option Nat
  | [] => none
  | c :: cs => if pattern <+: c :: cs then some 0 else (find? pattern cs).map (c.utf8Size + ·)

theorem find?_eq_none {pattern cs : List Char} (h : ¬ pattern <:+: cs) :
    find? pattern cs = none := by
  induction cs with
  | nil => rfl
  | cons c cs ih =>
    rw [List.infix_cons_iff, not_or] at h
    rw [find?, if_neg h.1, ih h.2]
    rfl

theorem find?_append {pattern body tail : List Char} (hne : tail ≠ []) (htail : pattern <+: tail)
    (hbody : ∀ back, back <:+ body → back ≠ [] → ¬ pattern <+: back ++ tail) :
    find? pattern (body ++ tail) = some (size body) := by
  induction body with
  | nil =>
    obtain ⟨c, cs, rfl⟩ := List.exists_cons_of_ne_nil hne
    rw [List.nil_append, find?, if_pos htail]
    rfl
  | cons c body ih =>
    have hfirst : ¬ pattern <+: c :: (body ++ tail) :=
      hbody (c :: body) List.suffix_rfl (List.cons_ne_nil _ _)
    rw [List.cons_append, find?, if_neg hfirst,
      ih fun back hback => hbody back (hback.trans (List.suffix_cons _ _))]
    rfl

theorem find?_close {body : List Char} (rest : List Char) (h : ¬ ['*', '/'] <:+: body ++ ['*']) :
    find? ['*', '/'] (body ++ '*' :: '/' :: rest) = some (size body) := by
  refine find?_append (by simp) (by simp) fun back hback hne hpre => h ?_
  -- Two characters at the start of `back` and what follows it are in `body ++ ['*']`.
  have hstar : ['*', '/'] <+: back ++ ['*'] := by
    rcases back with _ | ⟨b, _ | ⟨d, back⟩⟩
    · exact absurd rfl hne
    · simp at hpre
    · simpa using hpre
  obtain ⟨front, rfl⟩ := hback
  exact hstar.isInfix.trans ⟨front, [], by simp⟩

theorem find?_feed {body : List Char} (rest : List Char) (h : '\n' ∉ body) :
    find? ['\n'] (body ++ '\n' :: rest) = some (size body) := by
  refine find?_append (by simp) (by simp) fun back hback hne hpre => h ?_
  obtain ⟨b, back, rfl⟩ := List.exists_cons_of_ne_nil hne
  rw [List.cons_append, List.cons_prefix_cons] at hpre
  rw [hpre.1]
  exact hback.subset (by simp)

end Text

namespace Concrete

/-! ## The scan -/

/-- Where the scan of a gap ends that has come to byte `i`, if no character is cut on the way. -/
def scanBytes (gap : List Char) (i : Nat) : Option Nat :=
  if i < Text.size gap then
    if (Text.bytes gap)[i]? = some '\n'.val.toUInt8 then some (i + 1)
    else if (Text.bytes gap)[i]? = some '/'.val.toUInt8 ∧
        (Text.bytes gap)[i + 1]? = some '*'.val.toUInt8 then
      (Text.cutChars (i + 2) gap).bind fun parts =>
        (Text.find? ['*', '/'] parts.2).elim (some (Text.size gap)) fun n =>
          scanBytes gap (i + 2 + n + 2)
    else if (Text.bytes gap)[i]? = some '/'.val.toUInt8 ∧
        (Text.bytes gap)[i + 1]? = some '/'.val.toUInt8 then
      (Text.cutChars i gap).bind fun parts =>
        (Text.find? ['\n'] parts.2).elim (some (Text.size gap)) fun n => some (i + n + 1)
    else scanBytes gap (i + 1)
  else some (Text.size gap)
termination_by Text.size gap - i

theorem scanBytes_skip {gap : List Char} {i : Nat} (hi : i < Text.size gap)
    (hfeed : (Text.bytes gap)[i]? ≠ some '\n'.val.toUInt8)
    (hstart : (Text.bytes gap)[i]? = some '/'.val.toUInt8 →
      (Text.bytes gap)[i + 1]? ≠ some '*'.val.toUInt8 ∧
        (Text.bytes gap)[i + 1]? ≠ some '/'.val.toUInt8) :
    scanBytes gap i = scanBytes gap (i + 1) := by
  rw [scanBytes, if_pos hi, if_neg hfeed, if_neg fun h => (hstart h.1).1 h.2,
    if_neg fun h => (hstart h.1).2 h.2]

theorem scanBytes_high {gap : List Char} {i k : Nat}
    (h : ∀ j < k, ∃ b, (Text.bytes gap)[i + j]? = some b ∧ 128 ≤ b) :
    scanBytes gap i = scanBytes gap (i + k) := by
  induction k with
  | zero => rfl
  | succ k ih =>
    obtain ⟨b, hb, hhigh⟩ := h k (by omega)
    have hi : i + k < Text.size gap := by
      rw [← Text.length_bytes]
      exact (List.getElem?_eq_some_iff.1 hb).1
    rw [ih fun j hj => h j (by omega), ← Nat.add_assoc]
    refine scanBytes_skip hi ?_ fun hslash => ?_
    · rw [hb]
      rintro ⟨⟩
      exact absurd hhigh (by decide)
    · rw [hb] at hslash
      cases hslash
      exact absurd hhigh (by decide)

theorem lt_size_cons (front : List Char) (c : Char) (rest : List Char) :
    Text.size front < Text.size (front ++ c :: rest) := by
  have := c.utf8Size_pos
  rw [Text.size_append, Text.size_cons]
  omega

theorem scanBytes_char (front : List Char) {c : Char} {rest : List Char} (hc : c ≠ '\n')
    (hstart : c = '/' → rest.head? ≠ some '*' ∧ rest.head? ≠ some '/') :
    scanBytes (front ++ c :: rest) (Text.size front) =
      scanBytes (front ++ c :: rest) (Text.size front + c.utf8Size) := by
  by_cases hsize : c.utf8Size = 1
  · rw [hsize]
    refine scanBytes_skip (lt_size_cons front c rest) ?_ ?_
    · rw [ne_eq, Text.getElem?_bytes front (c :: rest) rfl]
      simpa using hc
    · rw [Text.getElem?_bytes front (c :: rest) rfl, ne_eq, ne_eq,
        Text.getElem?_bytes_next front rest hsize rfl,
        Text.getElem?_bytes_next front rest hsize rfl]
      simpa using hstart
  · refine scanBytes_high fun j hj => ?_
    rw [← String.length_utf8EncodeChar] at hj
    refine ⟨(String.utf8EncodeChar c)[j], ?_, Text.high_of_mem hsize (List.getElem_mem hj)⟩
    rw [Text.bytes_append, List.getElem?_append_right (by simp), Text.length_bytes,
      Nat.add_sub_cancel_left, Text.bytes_cons, List.getElem?_append_left hj,
      List.getElem?_eq_getElem hj]

theorem scanBytes_slash_star (front tail : List Char) :
    scanBytes (front ++ '/' :: '*' :: tail) (Text.size front) =
      (Text.find? ['*', '/'] tail).elim (some (Text.size (front ++ '/' :: '*' :: tail))) fun n =>
        scanBytes (front ++ '/' :: '*' :: tail) (Text.size front + 2 + n + 2) := by
  have hslash := (Text.getElem?_bytes front ('/' :: '*' :: tail) rfl).2 rfl
  have hstar := (@Text.getElem?_bytes_next front '/' ('*' :: tail) '*' rfl rfl).2 rfl
  have hcut : Text.cutChars (Text.size front + 2) (front ++ '/' :: '*' :: tail) =
      some (front ++ ['/', '*'], tail) := by
    have h := Text.cutChars_append (front ++ ['/', '*']) tail
    rwa [Text.size_append, List.append_assoc] at h
  rw [scanBytes, if_pos (lt_size_cons front _ _), if_neg (by rw [hslash]; decide),
    if_pos ⟨hslash, hstar⟩, hcut, Option.bind_some]

theorem scanBytes_slash_slash (front tail : List Char) :
    scanBytes (front ++ '/' :: '/' :: tail) (Text.size front) =
      (Text.find? ['\n'] ('/' :: '/' :: tail)).elim
        (some (Text.size (front ++ '/' :: '/' :: tail))) fun n =>
          some (Text.size front + n + 1) := by
  have hslash := (Text.getElem?_bytes front ('/' :: '/' :: tail) rfl).2 rfl
  have hnext := (@Text.getElem?_bytes_next front '/' ('/' :: tail) '/' rfl rfl).2 rfl
  rw [scanBytes, if_pos (lt_size_cons front _ _), if_neg (by rw [hslash]; decide),
    if_neg fun h => absurd (hnext.symm.trans h.2) (by decide), if_pos ⟨hslash, hnext⟩,
    Text.cutChars_append, Option.bind_some]

theorem scanBytes_size (gap : List Char) :
    scanBytes gap (Text.size gap) = some (Text.size gap) := by
  rw [scanBytes, if_neg (Nat.lt_irrefl _)]

theorem scanBytes_newline (front rest : List Char) :
    scanBytes (front ++ '\n' :: rest) (Text.size front) = some (Text.size front + 1) := by
  rw [scanBytes, if_pos (lt_size_cons front _ _), if_pos ((Text.getElem?_bytes front _ rfl).2 rfl)]

theorem scanBytes_piece (front : List Char) {p : Piece} {rest : List Char} (hp : p.Fits rest.head?)
    (hfeed : p ≠ Piece.feed) :
    scanBytes (front ++ (p.chars ++ rest)) (Text.size front) =
      scanBytes (front ++ (p.chars ++ rest)) (Text.size (front ++ p.chars)) := by
  have hslash : '/'.utf8Size = 1 := rfl
  have hstar : '*'.utf8Size = 1 := rfl
  cases p with
  | char c =>
    have hc : c ≠ '\n' := fun h => hfeed (congrArg Piece.char h)
    simpa [Piece.chars] using scanBytes_char front hc hp
  | block body =>
    have htext : (Piece.block body).chars ++ rest = '/' :: '*' :: (body ++ '*' :: '/' :: rest) := by
      simp [Piece.chars]
    have hsize : Text.size (front ++ (Piece.block body).chars) =
        Text.size front + 2 + Text.size body + 2 := by
      simp only [Piece.chars, Text.size_append, Text.size_cons, Text.size_nil, hslash, hstar]
      omega
    rw [htext, scanBytes_slash_star, Text.find?_close rest hp, Option.elim_some, hsize]
  | unclosed body =>
    obtain rfl := List.head?_eq_none_iff.1 hp.1
    rw [List.append_nil, scanBytes_size, Piece.chars, scanBytes_slash_star,
      Text.find?_eq_none hp.2, Option.elim_none]
  | line body =>
    have hbody : '\n' ∉ '/' :: '/' :: body := by simpa using hp.1
    cases rest with
    | nil =>
      have hnot : ¬ ['\n'] <:+: '/' :: '/' :: body := fun h => hbody (h.subset (by simp))
      rw [List.append_nil, scanBytes_size, Piece.chars, scanBytes_slash_slash,
        Text.find?_eq_none hnot, Option.elim_none]
    | cons c rest =>
      obtain rfl := hp.2 c rfl
      have hfind := Text.find?_feed rest hbody
      rw [← List.append_assoc, scanBytes_newline, List.append_assoc, Piece.chars, List.cons_append,
        List.cons_append, scanBytes_slash_slash]
      rw [List.cons_append, List.cons_append] at hfind
      rw [hfind, Option.elim_some, Text.size_append]

/-- The scan over the bytes ends where `splitTrivia` divides the characters. -/
theorem scanBytes_eq (front : List Char) {ps : List Piece} (h : Piece.Proper ps) :
    scanBytes (front ++ Piece.textOf ps) (Text.size front) =
      some (Text.size front + Text.size (splitTrivia .plain (Piece.textOf ps)).1) := by
  induction ps generalizing front with
  | nil => simpa [splitTrivia] using scanBytes_size front
  | cons p ps ih =>
    by_cases hfeed : p = Piece.feed
    · subst hfeed
      exact scanBytes_newline front _
    · rw [Piece.textOf_cons, scanBytes_piece front h.1 hfeed, splitTrivia_piece h.1 hfeed,
        ← List.append_assoc, ih _ h.2]
      simp [Nat.add_assoc]

/-! ## Tokens -/

theorem exists_attach_of_isBoundary {source : String} {front rest : List Char}
    {leaves : List ConcreteHead} (previous : Option Token) (hsource : source.toList = front ++ rest)
    (hleaves : ∀ leaf ∈ leaves, Text.isBoundary source leaf.start = true ∧
      Text.isBoundary source leaf.stop = true) :
    ∃ ts leading, attach previous (Text.size front) rest leaves =
      some (ts ++ [endToken leading]) := by
  induction leaves generalizing previous front rest with
  | nil => exact ⟨_, _, rfl⟩
  | cons leaf leaves ih =>
    obtain ⟨hfrom, hto⟩ := hleaves leaf (by simp)
    obtain ⟨gap, covered, tail, rfl, hstart, hstop⟩ := exists_covered hsource hfrom hto
    rw [← List.append_assoc, ← List.append_assoc] at hsource
    obtain ⟨ts, leading, hts⟩ := ih (some (leafToken leaf (shareTrivia previous gap).2
      (if leaf.missing then [] else covered))) hsource fun other hother =>
        hleaves other (by simp [hother])
    refine ⟨(shareTrivia previous gap).1 ++ ts, leading, ?_⟩
    rw [attach_cons previous tail leaves hstart hstop, hts, Option.map_some, ← List.append_assoc]

/-- Every gap is divided behind its first line feed outside of comments, and no character is cut. -/
theorem trivia_attributed (source : String) (leaves : List ConcreteHead)
    (hleaves : ∀ leaf ∈ leaves, Text.isBoundary source leaf.start = true ∧
      Text.isBoundary source leaf.stop = true) :
    (∃ tokens last, attach none 0 source.toList leaves = some (tokens ++ [last]) ∧
      tokens.length = leaves.length ∧ last.kind = .endOfFile ∧
      (tokens ++ [last]).IsChain Token.Follows ∧
      ∀ t ∈ tokens ++ [last], ∀ ps, Piece.Reads t.trailing.toList ps →
        Piece.feed ∉ ps.dropLast) ∧
    ∀ gap : List Char, (∃! ps, Piece.Reads gap ps) ∧ ∀ ps, Piece.Reads gap ps →
      ∃ n, scanBytes gap 0 = some n ∧ Text.cutChars n gap = some (splitTrivia .plain gap) ∧
        (Piece.feed ∉ ps ∧ n = Text.size gap ∨
          ∃ front back, ps = front ++ Piece.feed :: back ∧ Piece.feed ∉ front ∧
            n = Text.size (Piece.textOf front) + 1) := by
  refine ⟨?_, fun gap => ⟨Piece.existsUnique_reads gap, fun ps hps => ?_⟩⟩
  · obtain ⟨tokens, leading, hattach⟩ :=
      @exists_attach_of_isBoundary source [] source.toList leaves none rfl hleaves
    obtain ⟨hchain, hlength, -⟩ := attach_follows hattach
    refine ⟨tokens, endToken leading, hattach, by simpa using hlength, rfl, hchain, ?_⟩
    intro t ht ps hps
    obtain ⟨gap, hgap⟩ := exists_gap_of_attach hattach ht
    exact feed_notMem_dropLast (hgap ▸ hps)
  · have hscan := scanBytes_eq [] hps.1
    rw [hps.2] at hscan
    have hcut := Text.cutChars_append (splitTrivia .plain gap).1 (splitTrivia .plain gap).2
    rw [splitTrivia_append] at hcut
    refine ⟨_, hscan, by simpa using hcut, ?_⟩
    rcases splitTrivia_of_reads hps with ⟨hfeed, hsplit⟩ | ⟨front, back, rfl, hfront, hsplit⟩
    · exact .inl ⟨hfeed, by simp [hsplit]⟩
    · refine .inr ⟨front, back, rfl, hfront, ?_⟩
      rw [hsplit, Piece.textOf_append, Text.size_append, Text.size_nil, Nat.zero_add]
      rfl

end Concrete

namespace Sample

def mingledText : String := "a /* é\n // */ // /*\n  b"

def mingled : List ConcreteHead :=
  [{ kind := "identifier", start := 0, stop := 1, extra := false, missing := false, error := false,
     hasError := false },
    { kind := "identifier", start := 23, stop := 24, extra := false, missing := false,
      error := false, hasError := false }]

end Sample

theorem Sample.trivia_attributed_mingled :
    (∀ leaf ∈ Sample.mingled, Text.isBoundary Sample.mingledText leaf.start = true ∧
      Text.isBoundary Sample.mingledText leaf.stop = true) ∧
    ∃ tokens last,
      Concrete.attach none 0 Sample.mingledText.toList Sample.mingled = some (tokens ++ [last]) ∧
      tokens.length = 2 ∧ last.kind = .endOfFile ∧ (tokens ++ [last]).IsChain Token.Follows ∧
      ∀ t ∈ tokens ++ [last], ∀ ps, Piece.Reads t.trailing.toList ps →
        Piece.feed ∉ ps.dropLast := by
  have hleaves : ∀ leaf ∈ Sample.mingled, Text.isBoundary Sample.mingledText leaf.start = true ∧
      Text.isBoundary Sample.mingledText leaf.stop = true := by
    decide
  exact ⟨hleaves, (Concrete.trivia_attributed Sample.mingledText Sample.mingled hleaves).1⟩

end CancellationLint
