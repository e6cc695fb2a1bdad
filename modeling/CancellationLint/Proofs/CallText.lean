import CancellationLint.Proofs.SameText

/-! # The text of a replacement

What a check gives way to is the call around the receiver as it stands, in which the first token has
the leading trivia of the body and the last token its trailing trivia. Everything between them is
the text of the receiver and that of the call. -/

namespace CancellationLint

namespace Token

def led (trivia : String) : List Token → List Token
  | [] => []
  | t :: ts => { t with leading := trivia } :: ts

def trailed (trivia : String) : List Token → List Token
  | [] => []
  | [t] => [{ t with trailing := trivia }]
  | t :: next :: ts => t :: trailed trivia (next :: ts)

theorem led_leadingOf (ts : List Token) : led (leadingOf ts) ts = ts := by
  cases ts <;> rfl

theorem fullOf_map_bare (ts : List Token) : fullOf (ts.map bare) = fullOf ts :=
  fullOf_of_bare (by simp [Function.comp_def, bare])

theorem leadingOf_map_bare (ts : List Token) : leadingOf (ts.map bare) = leadingOf ts := by
  cases ts <;> rfl

theorem trailed_append (trivia : String) (as : List Token) {bs : List Token} (h : bs ≠ []) :
    trailed trivia (as ++ bs) = as ++ trailed trivia bs := by
  induction as with
  | nil => rfl
  | cons a as ih =>
    obtain ⟨b, rest, hrest⟩ : ∃ b rest, as ++ bs = b :: rest :=
      List.exists_cons_of_ne_nil (by simp [h])
    rw [List.cons_append, hrest, trailed, ← hrest, ih]
    rfl

end Token

namespace Element

theorem bare_withLeading (e : Element) (l : Label) (trivia : String) :
    (e.withLeading l trivia).tokens.map Token.bare =
      Token.led trivia (e.tokens.map Token.bare) := by
  cases h : e.tokens with
  | nil => rw [tokens_withLeading_nil l trivia h]; rfl
  | cons t ts =>
    obtain ⟨m, hm⟩ := tokens_withLeading l trivia h
    rw [hm]
    rfl

theorem bare_withTrailing (e : Element) (l : Label) (trivia : String) :
    (e.withTrailing l trivia).tokens.map Token.bare =
      Token.trailed trivia (e.tokens.map Token.bare) := by
  rcases List.eq_nil_or_concat' e.tokens with h | ⟨ts, t, h⟩
  · rw [tokens_withTrailing_nil l trivia h, h]
    rfl
  · obtain ⟨m, hm⟩ := tokens_withTrailing l trivia h
    rw [hm, h, List.map_append, List.map_append, Token.trailed_append _ _ (by simp)]
    rfl

/-! ## Shapes -/

mutual

/-- The element without its trivia and all that is stored about it. -/
def outline : Element → Element
  | .token t => .token { label := [], kind := t.kind, text := t.text, missing := t.missing }
  | .node h es => .node { label := [], kind := h.kind, width := 0, hasError := false } (outlines es)

def outlines : List Element → List Element
  | [] => []
  | e :: es => e.outline :: outlines es

end

theorem outlines_eq (es : List Element) : outlines es = es.map outline := by
  induction es with
  | nil => rfl
  | cons e es ih => rw [outlines, ih, List.map_cons]

theorem outward_outline : Outward fun e e' => e'.outline = e.outline where
  token _ _ _ _ := rfl
  relabel _ _ _ := rfl
  swap {h es i old new} l hold hnew := by
    have hset : (es.set i new).map outline = es.map outline := by
      obtain ⟨hi, rfl⟩ := List.getElem?_eq_some_iff.1 hold
      have hself := @List.set_getElem_self _ (es.map outline) i (by simpa using hi)
      rwa [List.getElem_map, ← hnew, ← List.map_set] at hself
    simp only [outline, outlines_eq, hset]
    rfl

theorem lasting_outline : Lasting fun e e' => e'.outline = e.outline where
  toOutward := outward_outline
  refl _ := rfl
  trans hab hbc := hbc.trans hab
  withReformat _ _ e := by cases e <;> rfl

theorem of_outline_node {e : Element} {h : Head} {es : List Element}
    (he : e.outline = (Element.node h es).outline) : e.isNode = true ∧ e.kind = h.kind := by
  cases e with
  | token t => cases he
  | node g ds => exact ⟨rfl, congrArg kind he⟩

end Element

/-! ## The call -/

namespace Fix

def callTokens : List Token :=
  [{ label := [], kind := .dot, text := "." },
    { label := [], kind := .identifier, text := throwMethod },
    { label := [], kind := .openParen, text := "(" },
    { label := [], kind := .closeParen, text := ")" },
    { label := [], kind := .semicolon, text := ";" }]

theorem bare_callStatement (l : Label) (receiver : Element) :
    (callStatement l receiver).tokens.map Token.bare =
      receiver.tokens.map Token.bare ++ callTokens := by
  simp [callStatement, Element.make, callTokens, Token.bare]

/-- The trivia of the body stand at both ends of the call, on whatever tokens are there. -/
theorem bare_replacementFor_eq (l : Label) (check : Check) (indent : Option String) :
    (replacementFor l check indent).tokens.map Token.bare =
      Token.trailed check.body.element.trailing (Token.led check.body.element.leading
        (check.receiver.element.tokens.map Token.bare ++ callTokens)) := by
  have hcall := bare_callStatement (l.sub 0) check.receiver.element
  unfold replacementFor
  simp only
  by_cases hlead : (callStatement (l.sub 0) check.receiver.element).leading =
      check.body.element.leading
  · -- The trivia that are there are those to be put there.
    rw [if_pos hlead, Element.tokens_withReformat (by rw [Element.isNode_withTrailing]; rfl),
      Element.bare_withTrailing, hcall, ← hlead, Element.leading_eq, ← Token.leadingOf_map_bare,
      hcall, Token.led_leadingOf]
  · rw [if_neg hlead, Element.tokens_withReformat
        (by rw [Element.isNode_withTrailing, Element.isNode_withLeading]; rfl),
      Element.bare_withTrailing, Element.bare_withLeading, hcall]

theorem outline_replacementFor (l m : Label) (check : Check) (indent : Option String) :
    (replacementFor l check indent).outline =
      (callStatement m check.receiver.element).outline := by
  have hlabel : ∀ k, (callStatement k check.receiver.element).outline =
      (callStatement m check.receiver.element).outline := fun _ => rfl
  unfold replacementFor
  simp only
  split
  · rw [Element.lasting_outline.withReformat, Element.outward_outline.withTrailing, hlabel]
  · rw [Element.lasting_outline.withReformat, Element.outward_outline.withTrailing,
      Element.outward_outline.withLeading, hlabel]

theorem fullOf_trailed_callTokens (trivia : String) :
    Token.fullOf (Token.trailed trivia callTokens) =
      ".ThrowIfCancellationRequested();" ++ trivia := by
  have hcall : "." ++ throwMethod ++ "(" ++ ")" ++ ";" = ".ThrowIfCancellationRequested();" := by
    decide
  have hpieces : Token.fullOf (Token.trailed trivia callTokens) =
      "." ++ (throwMethod ++ ("(" ++ (")" ++ (";" ++ trivia)))) := by
    simp [callTokens, Token.trailed, Token.fullText]
  rw [hpieces, ← hcall]
  simp only [String.append_assoc]

theorem fullOf_dressed (leading trailing : String) (ts : List Token) :
    ∃ rest, Token.fullOf ts = Token.leadingOf ts ++ rest ∧
      Token.fullOf (Token.trailed trailing (Token.led leading (ts ++ callTokens))) =
        leading ++ rest ++ ".ThrowIfCancellationRequested();" ++ trailing := by
  have hne : callTokens ≠ [] := List.cons_ne_nil _ _
  cases ts with
  | nil =>
    refine ⟨"", by simp [Token.leadingOf], ?_⟩
    have hcall : Token.fullOf (Token.trailed trailing (Token.led leading callTokens)) =
        leading ++ Token.fullOf (Token.trailed trailing callTokens) := by
      simp [callTokens, Token.led, Token.trailed, Token.fullText, String.append_assoc]
    rw [List.nil_append, hcall, fullOf_trailed_callTokens]
    simp [String.append_assoc]
  | cons t ts =>
    refine ⟨t.text ++ t.trailing ++ Token.fullOf ts, ?_, ?_⟩
    · simp [Token.fullText, String.append_assoc]
    · rw [List.cons_append, Token.led, ← List.cons_append, Token.trailed_append _ _ hne,
        Token.fullOf_append, fullOf_trailed_callTokens]
      simp [Token.fullText, String.append_assoc]

/-- A fix is planned for every check, and puts in place the call on the receiver as a statement. -/
theorem replacement_of_plan {t : Tree} {c : Cursor} {check : Check} (l : Label)
    (hc : Cursor.Of t.root c) (hcheck : Check.ofNode c = .ok check) :
    ∃ fix, Fix.plan l t c = .ok fix ∧
      fix.replacement.isNode = true ∧ fix.replacement.kind = .expressionStatement ∧
      fix.replacement.outline = (callStatement [] check.receiver.element).outline ∧
      fix.replacement.tokens.map Token.bare =
        Token.trailed check.body.element.trailing (Token.led check.body.element.leading
          (check.receiver.element.tokens.map Token.bare ++ callTokens)) ∧
      ∃ rest, check.receiver.element.fullText = check.receiver.element.leading ++ rest ∧
        fix.replacement.fullText = check.body.element.leading ++ rest ++
          ".ThrowIfCancellationRequested();" ++ check.body.element.trailing := by
  have hplan : Fix.plan l t c = .ok (.ofCheck l check) := by
    rw [FixAll.plan_eq hc, hcheck]
  have houtline := outline_replacementFor l [] check check.statement.lineIndent?
  have htokens := bare_replacementFor_eq l check check.statement.lineIndent?
  obtain ⟨rest, hreceiver, hfull⟩ := fullOf_dressed check.body.element.leading
    check.body.element.trailing (check.receiver.element.tokens.map Token.bare)
  rw [Token.fullOf_map_bare, Token.leadingOf_map_bare, ← Element.leading_eq] at hreceiver
  rw [← htokens, Token.fullOf_map_bare] at hfull
  obtain ⟨hnode, hkind⟩ := Element.of_outline_node houtline
  exact ⟨_, hplan, hnode, hkind, houtline, htokens, rest, hreceiver, hfull⟩

end Fix

namespace Sample

def explained (receiver : List Element) : Tree :=
  { root := .make [] .compilationUnit
      [.make [] .ifStatement
        [.token { label := [], kind := .ifKeyword, text := "if", leading := "\n" },
          .token { label := [], kind := .openParen, text := "(" },
          .make [] .memberAccessExpression
            [.make [] .invocationExpression receiver,
              .token { label := [], kind := .dot, text := "." },
              .token { label := [], kind := .identifier, text := cancellationFlag }],
          .token { label := [], kind := .closeParen, text := ")" },
          .make [] .block
            [.token { label := [], kind := .openBrace, text := "\x7b", leading := "/* why */ " },
              .make [] .throwStatement
                [.token { label := [], kind := .throwKeyword, text := "throw" },
                  .token { label := [], kind := .semicolon, text := ";" }],
              .token { label := [], kind := .closeBrace, text := "\x7d", trailing := " // so\n" }]]] }

def padded : List Element :=
  [.make [] .argumentList [],
    .token { label := [], kind := .identifier, text := "f", leading := " ", trailing := "/**/" }]

end Sample

/-- The second receiver has no tokens at all, so the trivia of the body go to the dot. -/
theorem Sample.replacement_explained :
    (∃ c check fix, Cursor.Of (Sample.explained Sample.padded).root c ∧
      Check.ofNode c = .ok check ∧ Fix.plan [] (Sample.explained Sample.padded) c = .ok fix ∧
      ∃ rest, " f/**/" = " " ++ rest ∧ fix.replacement.fullText =
        "/* why */ " ++ rest ++ ".ThrowIfCancellationRequested();" ++ " // so\n") ∧
    (∃ c check fix, Cursor.Of (Sample.explained []).root c ∧
      Check.ofNode c = .ok check ∧ Fix.plan [] (Sample.explained []) c = .ok fix ∧
      fix.replacement.tokens.map (·.leading) = ["/* why */ ", "", "", "", ""]) := by
  constructor
  · obtain ⟨c, hc⟩ : ∃ c, (Sample.explained Sample.padded).cursor.at? [0] = some c := ⟨_, rfl⟩
    have hof := Cursor.of_iff.2 ⟨[0], hc⟩
    cases hc
    obtain ⟨fix, hplan, -, -, -, -, hrest⟩ := Fix.replacement_of_plan [] hof rfl
    exact ⟨_, _, fix, hof, rfl, hplan, hrest⟩
  · obtain ⟨c, hc⟩ : ∃ c, (Sample.explained []).cursor.at? [0] = some c := ⟨_, rfl⟩
    have hof := Cursor.of_iff.2 ⟨[0], hc⟩
    cases hc
    obtain ⟨fix, hplan, -, -, -, htokens, -⟩ := Fix.replacement_of_plan [] hof rfl
    have hleading := congrArg (List.map Token.leading) htokens
    rw [List.map_map] at hleading
    exact ⟨_, _, fix, hof, rfl, hplan, hleading⟩

end CancellationLint
