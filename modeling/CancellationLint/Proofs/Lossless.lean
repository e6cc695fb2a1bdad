import CancellationLint.Concrete.Build
import CancellationLint.Proofs.Tokens

/-! # Building loses nothing

A concrete tree whose leaves start and end between characters of the text gives a syntax tree that
prints as the text, with one token for each leaf, where the leaf is, and one for the end of the
file. Leaves may overlap or come in any order. -/

namespace CancellationLint

namespace Text

def isBoundary (s : String) (n : Nat) : Bool := (cutChars n s.toList).isSome

theorem eq_nil_of_size {cs : List Char} (h : size cs = 0) : cs = [] := by
  cases cs with
  | nil => rfl
  | cons c cs =>
    have := Char.utf8Size_pos c
    rw [size_cons] at h
    omega

/-- Up to the next place where it can be cut, a text has a part, maybe empty. -/
theorem exists_gap {s : String} {front rest : List Char} {n : Nat}
    (hs : s.toList = front ++ rest) (hn : isBoundary s n = true) :
    ∃ gap after, rest = gap ++ after ∧ max n (size front) = size (front ++ gap) := by
  obtain ⟨⟨a, b⟩, hcut⟩ := Option.isSome_iff_exists.1 hn
  obtain ⟨hab, rfl⟩ := eq_append_of_cutChars hcut
  rcases List.append_eq_append_iff.1 (hs.symm.trans hab) with ⟨gap, rfl, hrest⟩ | ⟨excess, rfl, hb⟩
  · exact ⟨gap, b, hrest, by simp only [size_append]; omega⟩
  · exact ⟨[], rest, rfl, by simp only [size_append, size_nil]; omega⟩

theorem slice?_of_toList {s : String} {a b c : List Char} (h : s.toList = a ++ (b ++ c)) :
    slice? s (size a) (size (a ++ b)) = some (String.ofList b) := by
  unfold slice?
  rw [size_append, if_pos (by omega), h, cutChars_append, Option.bind_some,
    Nat.add_sub_cancel_left, cutChars_append]
  rfl

end Text

/-- Whether a leaf starts and ends between characters; one that was made up covers nothing. -/
def ConcreteHead.fitsIn (source : String) (leaf : ConcreteHead) : Bool :=
  Text.isBoundary source leaf.start && Text.isBoundary source leaf.stop &&
    (!leaf.missing || leaf.start = leaf.stop)

namespace Concrete

/-! ## Leaves to tokens -/

/-- The tokens stand for the leaves, in order. The leaves before these ended at `offset`, and the
first token, with its trivia, starts at `place`. -/
inductive ReadInOrder (source : String) : Nat → Nat → List ConcreteHead → List Token → Prop
  | nil {offset place : Nat} : ReadInOrder source offset place [] []
  | cons {offset place start stop : Nat} {leaf : ConcreteHead} {leaves : List ConcreteHead}
    {t : Token} {ts : List Token} :
    start = max leaf.start offset → stop = max leaf.stop start →
    t.kind = .ofName leaf.kind → t.missing = leaf.missing →
    place + t.leading.utf8ByteSize = start → Text.slice? source start stop = some t.text →
    ReadInOrder source stop (place + t.width) leaves ts →
    ReadInOrder source offset place (leaf :: leaves) (t :: ts)

theorem ReadInOrder.length_eq {source : String} {offset place : Nat} {leaves : List ConcreteHead}
    {ts : List Token} (h : ReadInOrder source offset place leaves ts) :
    ts.length = leaves.length := by
  induction h with
  | nil => rfl
  | cons _ _ _ _ _ _ _ ih => rw [List.length_cons, List.length_cons, ih]

theorem ReadInOrder.relabel {source : String} {offset place : Nat} {leaves : List ConcreteHead}
    {ts us : List Token} (h : ReadInOrder source offset place leaves ts)
    (hus : us.map Token.bare = ts.map Token.bare) : ReadInOrder source offset place leaves us := by
  induction h generalizing us with
  | nil =>
    obtain rfl := List.map_eq_nil_iff.1 hus
    exact ReadInOrder.nil
  | cons hstart hstop hkind hmissing hplace htext _ ih =>
    obtain ⟨u, us, rfl, hu, hus⟩ := List.map_eq_cons_iff.1 hus
    simp only [Token.bare, Token.mk.injEq, true_and] at hu
    obtain ⟨hukind, hutext, huleading, hutrailing, humissing⟩ := hu
    refine ReadInOrder.cons hstart hstop (hukind.trans hkind) (humissing.trans hmissing)
      (by rw [huleading, hplace]) (by rw [hutext, htext]) ?_
    rw [Token.width, huleading, hutext, hutrailing]
    exact ih hus

theorem splitTrivia_append (scan : Scan) (gap : List Char) :
    (splitTrivia scan gap).1 ++ (splitTrivia scan gap).2 = gap := by
  fun_induction splitTrivia scan gap with
  | case1 | case2 | case6 => rfl
  | case3 rest parts ih | case4 rest parts ih | case5 rest parts ih => simpa [parts] using ih
  | case7 scan c rest parts _ _ _ _ _ ih => simpa [parts] using ih

def settled (previous : Option Token) (trailing : String) : List Token :=
  previous.toList.map ({ · with trailing })

/-- A gap goes to the token before and to the one after, and nowhere else. -/
theorem exists_shareTrivia {previous : Option Token} (gap : List Char)
    (h : ∀ t ∈ previous, t.trailing = "") :
    ∃ trailing leading, shareTrivia previous gap = (settled previous trailing, leading) ∧
      Token.fullOf (settled previous trailing) = Token.fullOf previous.toList ++ trailing ∧
      trailing ++ leading = String.ofList gap := by
  cases previous with
  | none => exact ⟨"", _, rfl, rfl, String.empty_append⟩
  | some t =>
    refine ⟨_, _, rfl, ?_, ?_⟩
    · simp [settled, Token.fullText, h t rfl]
    · rw [← String.ofList_append, splitTrivia_append]

def leafToken (leaf : ConcreteHead) (leading : String) (covered : List Char) : Token :=
  { label := [], kind := .ofName leaf.kind, text := String.ofList covered, leading,
    missing := leaf.missing }

def endToken (leading : String) : Token := { label := [], kind := .endOfFile, text := "", leading }

theorem exists_covered {source : String} {front rest : List Char} {leaf : ConcreteHead}
    (hsource : source.toList = front ++ rest) (hstart : Text.isBoundary source leaf.start = true)
    (hstop : Text.isBoundary source leaf.stop = true) :
    ∃ gap covered tail, rest = gap ++ (covered ++ tail) ∧
      max leaf.start (Text.size front) = Text.size (front ++ gap) ∧
      max leaf.stop (Text.size (front ++ gap)) = Text.size (front ++ gap ++ covered) := by
  obtain ⟨gap, after, rfl, hgap⟩ := Text.exists_gap hsource hstart
  rw [← List.append_assoc] at hsource
  obtain ⟨covered, tail, rfl, hcovered⟩ := Text.exists_gap hsource hstop
  exact ⟨gap, covered, tail, rfl, hgap, hcovered⟩

theorem covered_eq_nil {source : String} {front gap covered : List Char} {leaf : ConcreteHead}
    (hleaf : leaf.fitsIn source = true)
    (hstart : max leaf.start (Text.size front) = Text.size (front ++ gap))
    (hstop : max leaf.stop (Text.size (front ++ gap)) = Text.size (front ++ gap ++ covered))
    (hmade : leaf.missing = true) : covered = [] := by
  simp only [ConcreteHead.fitsIn, hmade, Bool.and_eq_true, Bool.not_true, Bool.false_or,
    decide_eq_true_eq] at hleaf
  refine Text.eq_nil_of_size ?_
  rw [Text.size_append (front ++ gap)] at hstop
  omega

theorem attach_cons {front gap covered : List Char} {leaf : ConcreteHead} (previous : Option Token)
    (tail : List Char) (leaves : List ConcreteHead)
    (hstart : max leaf.start (Text.size front) = Text.size (front ++ gap))
    (hstop : max leaf.stop (Text.size (front ++ gap)) = Text.size (front ++ gap ++ covered)) :
    attach previous (Text.size front) (gap ++ (covered ++ tail)) (leaf :: leaves) =
      (attach (some (leafToken leaf (shareTrivia previous gap).2
          (if leaf.missing then [] else covered)))
        (Text.size (front ++ gap ++ covered)) tail leaves).map
          ((shareTrivia previous gap).1 ++ ·) := by
  have htext : (if leaf.missing = true then "" else String.ofList covered) =
      String.ofList (if leaf.missing then [] else covered) := by
    split <;> rfl
  rw [attach]
  simp only [hstart, hstop]
  rw [Text.size_append (front ++ gap), Text.size_append, Nat.add_sub_cancel_left,
    Nat.add_sub_cancel_left, Text.cutChars_append, Option.bind_some, Text.cutChars_append,
    Option.bind_some]
  simp only [htext]
  rfl

/-- The leaves become tokens, and all of the text goes to them and to the token at the end. -/
theorem attach_eq {source : String} {front rest : List Char} {leaves : List ConcreteHead}
    {previous : Option Token} (hsource : source.toList = front ++ rest)
    (hfits : ∀ leaf ∈ leaves, leaf.fitsIn source = true)
    (hprevious : ∀ t ∈ previous, t.trailing = "") :
    ∃ trailing tokens leading,
      attach previous (Text.size front) rest leaves =
        some (settled previous trailing ++ (tokens ++ [endToken leading])) ∧
      Token.fullOf (settled previous trailing) = Token.fullOf previous.toList ++ trailing ∧
      ReadInOrder source (Text.size front) (Text.size front + trailing.utf8ByteSize) leaves tokens ∧
      trailing ++ (Token.fullOf tokens ++ leading) = String.ofList rest := by
  induction leaves generalizing front rest previous with
  | nil =>
    obtain ⟨trailing, leading, hshare, hfull, hgap⟩ := exists_shareTrivia rest hprevious
    refine ⟨trailing, [], leading, ?_, hfull, ReadInOrder.nil, ?_⟩
    · rw [attach, hshare]
      rfl
    · simpa using hgap
  | cons leaf leaves ih =>
    have hleaf := hfits leaf (by simp)
    obtain ⟨⟨hfrom, hto⟩, -⟩ : (Text.isBoundary source leaf.start = true ∧
        Text.isBoundary source leaf.stop = true) ∧ _ := by
      simpa only [ConcreteHead.fitsIn, Bool.and_eq_true] using hleaf
    obtain ⟨gap, covered, tail, rfl, hstart, hstop⟩ := exists_covered hsource hfrom hto
    have htext : (if leaf.missing then [] else covered) = covered := by
      split
      · exact (covered_eq_nil hleaf hstart hstop ‹_›).symm
      · rfl
    obtain ⟨shared, leading, hshare, hfull, hgap⟩ := exists_shareTrivia gap hprevious
    obtain ⟨trailing, tokens, last, hattach, hfull', hread, hrest⟩ :=
      @ih (front ++ gap ++ covered) tail (some (leafToken leaf leading covered))
        (by simp only [hsource, List.append_assoc])
        (fun other hother => hfits other (by simp [hother])) (by simp [leafToken])
    refine ⟨shared, { leafToken leaf leading covered with trailing } :: tokens, last, ?_, hfull,
      ?_, ?_⟩
    · rw [attach_cons previous tail leaves hstart hstop, hshare, htext, hattach]
      rfl
    · have hbytes := congrArg String.utf8ByteSize hgap
      rw [String.utf8ByteSize_append, ← Text.size_toList (String.ofList gap),
        String.toList_ofList] at hbytes
      have hcovered : (String.ofList covered).utf8ByteSize = Text.size covered := by
        rw [← Text.size_toList, String.toList_ofList]
      rw [← List.append_assoc] at hsource
      refine ReadInOrder.cons hstart.symm hstop.symm rfl rfl ?_ (Text.slice?_of_toList hsource) ?_
      · simp only [leafToken, Text.size_append]
        omega
      · convert hread using 1
        simp only [Token.width, leafToken, Text.size_append, hcovered]
        omega
    · rw [String.ofList_append, String.ofList_append, ← hgap, ← hrest]
      simp only [Token.fullOf_cons, Token.fullText, leafToken, String.append_assoc]

/-! ## Tokens to elements -/

@[elab_as_elim]
theorem induction {P : Concrete → Prop}
    (node : ∀ h children, (∀ c ∈ children, P c) → P (.node h children)) : ∀ c, P c
  | .node h children => node h children fun c _ => induction node c

theorem exists_assemble_of_mem {cs : List Concrete} {l : Label} {i : Nat} {ts : List Token}
    {e : Element} (he : e ∈ (assembleAll l i ts cs).1) :
    ∃ c ∈ cs, ∃ m us, (assemble m us c).1 = some e := by
  induction cs generalizing i ts with
  | nil => simp [assembleAll] at he
  | cons c cs ih =>
    rw [assembleAll, List.mem_append] at he
    rcases he with he | he
    · exact ⟨c, by simp, _, _, Option.mem_toList.1 he⟩
    · obtain ⟨d, hd, m, us, hfrom⟩ := ih he
      exact ⟨d, by simp [hd], m, us, hfrom⟩

/-- The element takes the tokens of its leaves from the front of a row. -/
def Takes (c : Concrete) : Prop :=
  ∀ (l : Label) (ts rest : List Token), ts.length = c.leaves.length →
    (assemble l (ts ++ rest) c).2 = rest ∧
      ((assemble l (ts ++ rest) c).1.toList.flatMap Element.tokens).map Token.bare = ts.map Token.bare

theorem assembleAll_takes {cs : List Concrete} (h : ∀ c ∈ cs, c.Takes) (l : Label) (i : Nat)
    (ts rest : List Token) (hlen : ts.length = (leavesOf cs).length) :
    (assembleAll l i (ts ++ rest) cs).2 = rest ∧
      ((assembleAll l i (ts ++ rest) cs).1.flatMap Element.tokens).map Token.bare =
        ts.map Token.bare := by
  induction cs generalizing i ts with
  | nil =>
    obtain rfl := List.eq_nil_of_length_eq_zero hlen
    exact ⟨rfl, rfl⟩
  | cons c cs ih =>
    rw [leavesOf, List.length_append] at hlen
    -- The first tokens are for the leaves of `c`.
    obtain ⟨us, vs, rfl, hus⟩ : ∃ us vs, ts = us ++ vs ∧ us.length = c.leaves.length :=
      ⟨ts.take c.leaves.length, ts.drop c.leaves.length, (List.take_append_drop _ _).symm,
        by rw [List.length_take]; omega⟩
    obtain ⟨hfirst, htokens⟩ := h c (by simp) (l.sub i) us (vs ++ rest) hus
    obtain ⟨hothers, htokens'⟩ := ih (fun d hd => h d (by simp [hd])) (i + 1) vs
      (by rw [List.length_append] at hlen; omega)
    rw [assembleAll, List.append_assoc]
    simp only [hfirst]
    refine ⟨hothers, ?_⟩
    rw [List.flatMap_append, List.map_append, htokens, htokens', List.map_append]

@[simp] theorem tokens_marked (mark : Bool) (e : Element) : (marked mark e).tokens = e.tokens := by
  cases mark with
  | false => rfl
  | true => cases e <;> simp [marked, Element.markError, Element.label]

theorem takes (c : Concrete) : c.Takes := by
  induction c using induction with
  | node h children ih =>
    intro l ts rest hlen
    unfold leaves at hlen
    unfold assemble
    split at hlen
    · rename_i htrivia
      obtain rfl := List.eq_nil_of_length_eq_zero hlen
      rw [if_pos htrivia]
      exact ⟨rfl, rfl⟩
    · rename_i htrivia
      rw [if_neg htrivia]
      split at hlen
      · rename_i hleaf
        obtain ⟨t, rfl⟩ := List.length_eq_one_iff.1 hlen
        rw [if_pos hleaf]
        exact ⟨rfl, rfl⟩
      · rename_i hinner
        rw [if_neg hinner]
        obtain ⟨hrest, htokens⟩ := assembleAll_takes ih l 0 ts rest hlen
        exact ⟨hrest, by simpa [Element.make] using htokens⟩

/-! ## The whole tree -/

/-- A tree built over a text prints as the text, with a token for each leaf where the leaf is. -/
theorem build?_lossless (l : Label) (source : String) (c : Concrete)
    (hfits : ∀ leaf ∈ leavesOf c.children, leaf.fitsIn source = true) :
    ∃ root tokens last, c.build? l source = some root ∧ root.fullText = source ∧
      root.tokens = tokens ++ [last] ∧ ReadInOrder source 0 0 (leavesOf c.children) tokens ∧
      last.kind = .endOfFile ∧ last.text = "" ∧ last.trailing = "" ∧ last.missing = false := by
  obtain ⟨h, children⟩ := c
  obtain ⟨trailing, tokens, leading, hattach, hfull, hread, hrest⟩ :=
    @attach_eq source [] source.toList (leavesOf children) none rfl hfits (by simp)
  obtain rfl : trailing = "" := by simpa [settled] using hfull.symm
  obtain ⟨hleft, htokens⟩ := assembleAll_takes (fun c _ => takes c) l 0 tokens
    [endToken leading] hread.length_eq
  have hbuild : (Concrete.node h children).build? l source = some (marked h.error
      (.make l (.ofName h.kind) ((assembleAll l 0 (tokens ++ [endToken leading]) children).1 ++
        [.token { endToken leading with label := l.sub children.length }]))) := by
    rw [build?, show attach none 0 source.toList (leavesOf children) = _ from hattach]
    simp only [settled, Option.toList_none, List.map_nil, List.nil_append, Option.map_some, hleft,
      List.map_cons]
  refine ⟨_, _, { endToken leading with label := l.sub children.length }, hbuild, ?_,
    by simp [Element.make], hread.relabel htokens, rfl, rfl, rfl, rfl⟩
  have hend : Token.fullText { endToken leading with label := l.sub children.length } = leading := by
    simp [Token.fullText, endToken]
  rw [String.empty_append, String.ofList_toList] at hrest
  simp [Element.fullText_eq, Element.make, Token.fullOf_of_bare htokens, hend, hrest]

end Concrete

namespace Sample

def leaf (kind : String) (start stop : Nat) : Concrete :=
  .node { kind, start, stop, extra := false, missing := false, error := false, hasError := false } []

def inner (kind : String) (start stop : Nat) (children : List Concrete) : Concrete :=
  .node { kind, start, stop, extra := false, missing := false, error := false, hasError := false }
    children

def loneText : String := "M(CancellationToken a)\x7bif(a.IsCancellationRequested)throw;\x7d"

def lone : Concrete :=
  inner "compilation_unit" 0 59
    [inner "method_declaration" 0 59
      [leaf "identifier" 0 1,
        inner "parameter_list" 1 22
          [leaf "(" 1 2, inner "parameter" 2 21 [leaf "identifier" 2 19, leaf "identifier" 20 21],
            leaf ")" 21 22],
        inner "block" 22 59
          [leaf "\x7b" 22 23,
            inner "if_statement" 23 58
              [leaf "if" 23 25, leaf "(" 25 26,
                inner "member_access_expression" 26 51
                  [leaf "identifier" 26 27, leaf "." 27 28, leaf "identifier" 28 51],
                leaf ")" 51 52, inner "throw_statement" 52 58 [leaf "throw" 52 57, leaf ";" 57 58]],
            leaf "\x7d" 58 59]]]

def tangled : Concrete :=
  .node { kind := "compilation_unit", start := 0, stop := 11, extra := false, missing := false,
          error := false, hasError := true }
    [leaf "identifier" 0 2,
      .node { kind := "comment", start := 3, stop := 7, extra := true, missing := false,
              error := false, hasError := false } [],
      leaf "identifier" 8 10,
      .node { kind := "ERROR", start := 2, stop := 10, extra := false, missing := false,
              error := true, hasError := true }
        [leaf ";" 9 10,
          .node { kind := ")", start := 2, stop := 2, extra := false, missing := true,
                  error := false, hasError := true } []]]

def tangledText : String := "é // c\nx;y"

end Sample

theorem Sample.build?_tangled :
    (∀ leaf ∈ Concrete.leavesOf Sample.tangled.children,
        leaf.fitsIn Sample.tangledText = true) ∧
      ∃ root tokens last, Sample.tangled.build? [] Sample.tangledText = some root ∧
        root.fullText = Sample.tangledText ∧ root.tokens = tokens ++ [last] ∧ tokens.length = 4 ∧
        last.kind = .endOfFile := by
  have hfits : ∀ leaf ∈ Concrete.leavesOf Sample.tangled.children,
      leaf.fitsIn Sample.tangledText = true := by decide
  obtain ⟨root, tokens, last, hbuild, hfull, htokens, hread, hkind, -⟩ :=
    Concrete.build?_lossless [] Sample.tangledText Sample.tangled hfits
  exact ⟨hfits, root, tokens, last, hbuild, hfull, htokens, hread.length_eq, hkind⟩

end CancellationLint
