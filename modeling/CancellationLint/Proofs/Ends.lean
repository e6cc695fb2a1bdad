import CancellationLint.Proofs.UpToLabels
import CancellationLint.Proofs.CallText

/-! # Trivia at both ends

The trivia at either end of an element can be read and set, and setting them changes nothing else. A
sound element is known, but for its labels, by its shape, by what is noted at each place and by its
row of tokens. So the laws of setting trivia come down to what happens at the two ends of a row. -/

namespace CancellationLint

/-! ## Rows of tokens -/

namespace Token

variable (s r : String) (ts : List Token)

theorem led_led : led s (led r ts) = led s ts := by
  cases ts <;> rfl

theorem leadingOf_led (h : ts ≠ []) : leadingOf (led s ts) = s := by
  obtain ⟨t, ts, rfl⟩ := List.exists_cons_of_ne_nil h
  rfl

theorem trailingOf_led : trailingOf (led s ts) = trailingOf ts := by
  cases ts with
  | nil => rfl
  | cons t ts => cases ts <;> simp [led, trailingOf]

theorem trailed_concat (t : Token) : trailed s (ts ++ [t]) = ts ++ [{ t with trailing := s }] :=
  trailed_append s ts (List.cons_ne_nil t [])

theorem trailed_trailed : trailed s (trailed r ts) = trailed s ts := by
  rcases List.eq_nil_or_concat' ts with rfl | ⟨ts, t, rfl⟩
  · rfl
  · rw [trailed_concat, trailed_concat, trailed_concat]

theorem trailed_trailingOf : trailed (trailingOf ts) ts = ts := by
  rcases List.eq_nil_or_concat' ts with rfl | ⟨ts, t, rfl⟩
  · rfl
  · rw [trailingOf, List.getLast?_concat, trailed_concat]
    rfl

theorem trailingOf_trailed (h : ts ≠ []) : trailingOf (trailed s ts) = s := by
  obtain ⟨ts, t, rfl⟩ := (List.eq_nil_or_concat' ts).resolve_left h
  rw [trailed_concat, trailingOf, List.getLast?_concat]
  rfl

theorem leadingOf_trailed : leadingOf (trailed s ts) = leadingOf ts := by
  fun_cases trailed s ts <;> rfl

theorem trailed_led : trailed r (led s ts) = led s (trailed r ts) := by
  fun_cases trailed r ts <;> rfl

theorem trailingOf_map_bare : trailingOf (ts.map bare) = trailingOf ts := by
  rw [trailingOf, trailingOf, List.getLast?_map, Option.map_map]
  rfl

end Token

namespace Element

/-! ## Shapes and notes -/

/-- What is noted at a place: an error, and the request for layout. -/
def noteAt (q : Path) (e : Element) : Option (Bool × Option Reformat) :=
  (e.at? q).map fun x => (x.hasError, x.reformat)

/-- The same shape, kinds and texts, and the same notes everywhere. -/
def SameFrame (a b : Element) : Prop := b.outline = a.outline ∧ ∀ q, b.noteAt q = a.noteAt q

theorem SameFrame.trans {a b c : Element} (hab : SameFrame a b) (hbc : SameFrame b c) :
    SameFrame a c :=
  ⟨hbc.1.trans hab.1, fun q => (hbc.2 q).trans (hab.2 q)⟩

theorem SameFrame.symm {a b : Element} (h : SameFrame a b) : SameFrame b a :=
  ⟨h.1.symm, fun q => (h.2 q).symm⟩

theorem noteAt_cons (i : Nat) (q : Path) (h : Head) (es : List Element) :
    (Element.node h es).noteAt (i :: q) = es[i]?.bind (noteAt q) := by
  rw [noteAt, at?, Option.map_bind]
  rfl

theorem noteAt_set {es : List Element} {i : Nat} {old new : Element} (hold : es[i]? = some old)
    (hnew : ∀ q, new.noteAt q = old.noteAt q) (j : Nat) (q : Path) :
    (es.set i new)[j]?.bind (noteAt q) = es[j]?.bind (noteAt q) := by
  by_cases hij : i = j
  · subst hij
    rw [List.getElem?_set_self (List.getElem?_eq_some_iff.1 hold).1, hold]
    exact hnew q
  · rw [List.getElem?_set_ne hij]

theorem outward_sameFrame :
    Outward fun e e' => e.sound = true → e'.sound = true ∧ SameFrame e e' where
  token _ _ _ _ _ := ⟨rfl, rfl, fun q => by cases q <;> rfl⟩
  relabel h es l he := by
    refine ⟨(sound_node_iff _ _).2 ((sound_node_iff _ _).1 he), rfl, fun q => ?_⟩
    cases q <;> rfl
  swap {h es i old new} l hold hnew he := by
    have hmem := List.mem_of_getElem? hold
    obtain ⟨hsound, houtline, hnotes⟩ := hnew (((sound_node_iff h es).1 he).2.2 old hmem)
    refine ⟨sound_set he hsound, outward_outline.swap l hold houtline, fun q => ?_⟩
    cases q with
    | nil =>
      have herr : new.hasError = old.hasError :=
        congrArg Prod.fst (Option.some.inj (hnotes []))
      have hkept := hasError_swap (l := l) (showsErrors_of_sound he) hold herr
      simp only [noteAt, at?, Option.map_some, hasError, reformat, hkept]
      rfl
    | cons j q =>
      rw [noteAt_cons, noteAt_cons]
      exact noteAt_set hold hnotes j q

theorem length_tokens_outline (e : Element) : e.outline.tokens.length = e.tokens.length := by
  induction e with
  | token t => rfl
  | node h es ih =>
    rw [outline, tokens_node, tokens_node, outlines_eq, List.flatMap_map, List.length_flatMap,
      List.length_flatMap]
    exact congrArg List.sum (List.map_congr_left ih)

theorem forall₂_alike {as bs : List Element}
    (halike : ∀ a ∈ as, ∀ b ∈ bs, SameFrame a b →
      a.tokens.map Token.bare = b.tokens.map Token.bare → a.alike b = true)
    (houtlines : bs.map outline = as.map outline)
    (hnotes : ∀ (i : Nat) q, bs[i]?.bind (noteAt q) = as[i]?.bind (noteAt q))
    (htokens : (as.flatMap tokens).map Token.bare = (bs.flatMap tokens).map Token.bare) :
    List.Forall₂ (fun a b => a.alike b = true) as bs := by
  induction as generalizing bs with
  | nil =>
    obtain rfl := List.map_eq_nil_iff.1 houtlines
    exact List.Forall₂.nil
  | cons a as ih =>
    obtain ⟨b, bs, rfl, houtline, houtlines⟩ := List.map_eq_cons_iff.1 houtlines
    rw [List.flatMap_cons, List.flatMap_cons, List.map_append, List.map_append] at htokens
    have hlength : (a.tokens.map Token.bare).length = (b.tokens.map Token.bare).length := by
      rw [List.length_map, List.length_map, ← length_tokens_outline, ← length_tokens_outline b,
        houtline]
    obtain ⟨hfirst, hrest⟩ := List.append_inj htokens hlength
    refine List.Forall₂.cons ?_ ?_
    · exact halike a (by simp) b (by simp) ⟨houtline, hnotes 0⟩ hfirst
    · exact ih (fun x hx y hy => halike x (by simp [hx]) y (by simp [hy])) houtlines
        (fun i => hnotes (i + 1)) hrest

/-- The widths follow from the tokens. -/
theorem alike_of_sameFrame {a b : Element} (ha : a.sound = true) (hb : b.sound = true)
    (h : SameFrame a b) (htokens : a.tokens.map Token.bare = b.tokens.map Token.bare) :
    a.alike b = true := by
  induction a generalizing b with
  | token s =>
    cases b with
    | node g bs => cases h.1
    | token t =>
      simp only [tokens_token, List.map_cons, List.map_nil, List.cons.injEq, and_true, Token.bare,
        Token.mk.injEq, true_and] at htokens
      simp [alike, Token.alike, htokens]
  | node g as ih =>
    cases b with
    | token t => cases h.1
    | node g' bs =>
      obtain ⟨houtline, hnotes⟩ := h
      simp only [outline, outlines_eq, Element.node.injEq, Head.mk.injEq, true_and, and_true]
        at houtline
      obtain ⟨hkind, houtlines⟩ := houtline
      obtain ⟨herr, href⟩ := Prod.mk.inj (Option.some.inj (hnotes []))
      have hwidth : g.width = g'.width := by
        have hbytes := congrArg String.utf8ByteSize (Token.fullOf_of_bare htokens)
        exact (width_eq ha).trans (hbytes.trans (width_eq hb).symm)
      rw [alike_node_iff]
      refine ⟨?_, forall₂_alike (fun a hmem b hmem' => ?_) houtlines (fun i q => ?_) ?_⟩
      · have herr : g'.hasError = g.hasError := herr
        have href : g'.reformat = g.reformat := href
        simp [Head.alike, hkind, hwidth, herr, href]
      · exact ih a hmem (all_of_mem ha hmem) (all_of_mem hb hmem')
      · rw [← noteAt_cons i q g', ← noteAt_cons i q g]
        exact hnotes (i :: q)
      · rwa [tokens_node, tokens_node] at htokens

/-! ## Setting trivia -/

def Redressed (e a : Element) : Prop := a.sound = true ∧ SameFrame e a

theorem Redressed.refl {e : Element} (he : e.sound = true) : Redressed e e :=
  ⟨he, rfl, fun _ => rfl⟩

theorem Redressed.withLeading {e a : Element} (h : Redressed e a) (l : Label) (s : String) :
    Redressed e (a.withLeading l s) :=
  (outward_sameFrame.withLeading l s a h.1).imp_right h.2.trans

theorem Redressed.withTrailing {e a : Element} (h : Redressed e a) (l : Label) (s : String) :
    Redressed e (a.withTrailing l s) :=
  (outward_sameFrame.withTrailing l s a h.1).imp_right h.2.trans

/-- However the trivia of an element were set, the tokens tell what has become of it. -/
theorem Redressed.alike {e a b : Element} (ha : Redressed e a) (hb : Redressed e b)
    (htokens : a.tokens.map Token.bare = b.tokens.map Token.bare) : a.alike b = true :=
  alike_of_sameFrame ha.1 hb.1 (ha.2.symm.trans hb.2) htokens

theorem leading_of_bare {e : Element} {ts : List Token} (h : e.tokens.map Token.bare = ts) :
    e.leading = Token.leadingOf ts := by
  rw [leading_eq, ← Token.leadingOf_map_bare, h]

theorem trailing_of_bare {e : Element} {ts : List Token} (h : e.tokens.map Token.bare = ts) :
    e.trailing = Token.trailingOf ts := by
  rw [trailing_eq, ← Token.trailingOf_map_bare, h]

section
variable (e : Element) (l : Label) (s : String)

theorem leading_withLeading (h : e.tokens ≠ []) : (e.withLeading l s).leading = s := by
  rw [leading_of_bare (e.bare_withLeading l s), Token.leadingOf_led _ _ (by simpa using h)]

theorem trailing_withLeading : (e.withLeading l s).trailing = e.trailing := by
  rw [trailing_of_bare (e.bare_withLeading l s), Token.trailingOf_led, ← trailing_of_bare rfl]

theorem trailing_withTrailing (h : e.tokens ≠ []) : (e.withTrailing l s).trailing = s := by
  rw [trailing_of_bare (e.bare_withTrailing l s), Token.trailingOf_trailed _ _ (by simpa using h)]

theorem leading_withTrailing : (e.withTrailing l s).leading = e.leading := by
  rw [leading_of_bare (e.bare_withTrailing l s), Token.leadingOf_trailed, ← leading_of_bare rfl]

end

/-! ## Laws -/

section
variable {e : Element} (he : e.sound = true)
include he

theorem withLeading_withLeading (l m n : Label) (s r : String) :
    ((e.withLeading l r).withLeading m s).alike (e.withLeading n s) = true := by
  have hself := Redressed.refl he
  refine ((hself.withLeading l r).withLeading m s).alike (hself.withLeading n s) ?_
  rw [bare_withLeading, bare_withLeading, bare_withLeading, Token.led_led]

theorem withTrailing_withTrailing (l m n : Label) (s r : String) :
    ((e.withTrailing l r).withTrailing m s).alike (e.withTrailing n s) = true := by
  have hself := Redressed.refl he
  refine ((hself.withTrailing l r).withTrailing m s).alike (hself.withTrailing n s) ?_
  rw [bare_withTrailing, bare_withTrailing, bare_withTrailing, Token.trailed_trailed]

theorem withLeading_leading (l : Label) : (e.withLeading l e.leading).alike e = true := by
  have hself := Redressed.refl he
  refine (hself.withLeading l e.leading).alike hself ?_
  rw [bare_withLeading, leading_of_bare rfl, Token.led_leadingOf]

theorem withTrailing_trailing (l : Label) : (e.withTrailing l e.trailing).alike e = true := by
  have hself := Redressed.refl he
  refine (hself.withTrailing l e.trailing).alike hself ?_
  rw [bare_withTrailing, trailing_of_bare rfl, Token.trailed_trailingOf]

theorem withTrailing_withLeading (l m n k : Label) (s r : String) :
    ((e.withLeading l s).withTrailing m r).alike
      ((e.withTrailing n r).withLeading k s) = true := by
  have hself := Redressed.refl he
  refine ((hself.withLeading l s).withTrailing m r).alike
    ((hself.withTrailing n r).withLeading k s) ?_
  rw [bare_withTrailing, bare_withLeading, bare_withLeading, bare_withTrailing, Token.trailed_led]

theorem alike_of_tokenless (h : e.tokens = []) (l : Label) (s : String) :
    (e.withLeading l s).alike e = true ∧ (e.withTrailing l s).alike e = true := by
  have hself := Redressed.refl he
  constructor
  · exact (hself.withLeading l s).alike hself (by rw [tokens_withLeading_nil l s h, h])
  · exact (hself.withTrailing l s).alike hself (by rw [tokens_withTrailing_nil l s h, h])

end

/-- Setting the trivia at one end changes nothing else, and the last of two settings counts. -/
theorem trivia_laws {e : Element} (he : e.sound = true) :
    (e.hasTokens = true → ∀ l s,
      ((e.withLeading l s).leading = s ∧ (e.withLeading l s).trailing = e.trailing ∧
        ∃ rest, e.fullText = e.leading ++ rest ∧ (e.withLeading l s).fullText = s ++ rest) ∧
      ((e.withTrailing l s).trailing = s ∧ (e.withTrailing l s).leading = e.leading ∧
        ∃ front, e.fullText = front ++ e.trailing ∧
          (e.withTrailing l s).fullText = front ++ s)) ∧
    (∀ l s, Redressed e (e.withLeading l s) ∧ Redressed e (e.withTrailing l s)) ∧
    (∀ l m n s r,
      ((e.withLeading l r).withLeading m s).alike (e.withLeading n s) = true ∧
      ((e.withTrailing l r).withTrailing m s).alike (e.withTrailing n s) = true) ∧
    (∀ l,
      (e.withLeading l e.leading).alike e = true ∧
      (e.withTrailing l e.trailing).alike e = true) ∧
    (∀ l m n k s r, ((e.withLeading l s).withTrailing m r).alike
      ((e.withTrailing n r).withLeading k s) = true) ∧
    (e.hasTokens = false → ∀ l s,
      (e.withLeading l s).alike e = true ∧ (e.withTrailing l s).alike e = true) := by
  have hself := Redressed.refl he
  refine ⟨fun hsome l s => ?_, fun l s => ⟨hself.withLeading l s, hself.withTrailing l s⟩,
    fun l m n s r => ⟨withLeading_withLeading he l m n s r, withTrailing_withTrailing he l m n s r⟩,
    fun l => ⟨withLeading_leading he l, withTrailing_trailing he l⟩,
    withTrailing_withLeading he, fun hnone => alike_of_tokenless he ?_⟩
  · have htokens := (hasTokens_iff e).1 hsome
    have hled := leading_withLeading e l s htokens
    have htrailed := trailing_withTrailing e l s htokens
    refine ⟨⟨hled, trailing_withLeading e l s, e.text ++ e.trailing, ?_, ?_⟩, htrailed,
      leading_withTrailing e l s, e.leading ++ e.text, e.fullText_split, ?_⟩
    · rw [fullText_split, String.append_assoc]
    · rw [fullText_split, hled, text_withLeading, trailing_withLeading, String.append_assoc]
    · rw [fullText_split, htrailed, text_withTrailing, leading_withTrailing]
  · exact tokens_eq_nil (by simp [hnone])

end Element

namespace Sample

def single : Element :=
  (Element.make [] .block
    [.make [] .block [],
      (Element.make [] .expressionStatement
        [.token { label := [], kind := .identifier, text := "x", leading := " ",
                  trailing := "\n" }]).withReformat [] (some { indent := none }),
      .make [] .block []]).markError []

end Sample

theorem Sample.trivia_laws_single :
    Sample.single.sound = true ∧ Sample.single.hasTokens = true ∧
      (∃ rest, " x\n" = " " ++ rest ∧
        (Sample.single.withLeading [1] "/**/").fullText = "/**/" ++ rest) ∧
      (Sample.single.withLeading [1] "/**/").trailing = "\n" ∧
      (Sample.single.withLeading [1] "/**/").noteAt [] = some (true, none) ∧
      ((Sample.single.withLeading [1] "/**/").withTrailing [2] "").alike
        ((Sample.single.withTrailing [3] "").withLeading [4] "/**/") = true ∧
      (Element.make [] .block []).hasTokens = false ∧
      ((Element.make [] .block []).withLeading [1] "/**/").alike (.make [] .block []) = true := by
  have hsound : Sample.single.sound = true := by decide
  obtain ⟨hends, hframe, -, -, hboth, -⟩ := Element.trivia_laws hsound
  obtain ⟨⟨-, htrailing, hrest⟩, -⟩ := hends rfl [1] "/**/"
  obtain ⟨-, -, -, -, -, hnone⟩ :=
    Element.trivia_laws (show (Element.make [] .block []).sound = true by decide)
  exact ⟨hsound, rfl, hrest, htrailing, (hframe [1] "/**/").1.2.2 [],
    hboth [1] [2] [3] [4] "/**/" "", rfl, (hnone rfl [1] "/**/").1⟩

end CancellationLint
