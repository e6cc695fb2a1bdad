import CancellationLint.Element.Trivia
import CancellationLint.Proofs.Splice
import Mathlib.Data.List.Basic

/-! # Elements as rows of tokens

All of the text of an element is in its tokens, so trivia, text and full text of an element are
those of its row of tokens. -/

namespace CancellationLint

/-! ## Rows of tokens -/

namespace Token

def fullOf (ts : List Token) : String := String.join (ts.map fullText)

def leadingOf (ts : List Token) : String := (ts.head?.map leading).getD ""

def trailingOf (ts : List Token) : String := (ts.getLast?.map trailing).getD ""

/-- The full text without the trivia at both ends. -/
def textOf : List Token → String
  | [] => ""
  | [t] => t.text
  | t :: next :: rest => t.text ++ t.trailing ++ next.leading ++ textOf (next :: rest)

@[simp] theorem fullOf_nil : fullOf [] = "" := by simp [fullOf]

@[simp] theorem fullOf_cons (t : Token) (ts : List Token) :
    fullOf (t :: ts) = t.fullText ++ fullOf ts := by
  simp [fullOf]

@[simp] theorem fullOf_append (as bs : List Token) : fullOf (as ++ bs) = fullOf as ++ fullOf bs := by
  simp [fullOf]

@[simp] theorem leadingOf_cons (t : Token) (ts : List Token) : leadingOf (t :: ts) = t.leading := rfl

@[simp] theorem trailingOf_cons_cons (t next : Token) (ts : List Token) :
    trailingOf (t :: next :: ts) = trailingOf (next :: ts) := by
  simp [trailingOf]

theorem leadingOf_append {as : List Token} (bs : List Token) (h : as ≠ []) :
    leadingOf (as ++ bs) = leadingOf as := by
  obtain ⟨t, ts, rfl⟩ := List.exists_cons_of_ne_nil h
  rfl

theorem trailingOf_append (as : List Token) {bs : List Token} (h : bs ≠ []) :
    trailingOf (as ++ bs) = trailingOf bs := by
  obtain ⟨t, ht⟩ := Option.isSome_iff_exists.1 (List.getLast?_isSome.2 h)
  rw [trailingOf, trailingOf, List.getLast?_append, ht, Option.some_or]

theorem fullOf_eq (ts : List Token) : fullOf ts = leadingOf ts ++ textOf ts ++ trailingOf ts := by
  induction ts using textOf.induct with
  | case1 => simp [leadingOf, trailingOf, textOf]
  | case2 t => simp [fullText, textOf, trailingOf]
  | case3 t next rest ih =>
    rw [fullOf_cons, ih, trailingOf_cons_cons, leadingOf_cons, leadingOf_cons, textOf, fullText]
    simp only [String.append_assoc]

/-- Where two rows meet, the trivia in between belongs to the text. -/
theorem textOf_append {as bs : List Token} (ha : as ≠ []) (hb : bs ≠ []) :
    textOf (as ++ bs) = textOf as ++ trailingOf as ++ leadingOf bs ++ textOf bs := by
  induction as using textOf.induct with
  | case1 => exact absurd rfl ha
  | case2 t =>
    obtain ⟨u, us, rfl⟩ := List.exists_cons_of_ne_nil hb
    simp [textOf, trailingOf]
  | case3 t next rest ih =>
    have := ih (by simp)
    rw [List.cons_append] at this
    rw [List.cons_append, List.cons_append, textOf, this, textOf, trailingOf_cons_cons]
    simp only [String.append_assoc]

def bare (t : Token) : Token := { t with label := [] }

theorem fullOf_of_bare {ss ts : List Token} (h : ss.map bare = ts.map bare) :
    fullOf ss = fullOf ts := by
  have htexts := congrArg (List.map fullText) h
  rw [List.map_map, List.map_map] at htexts
  exact congrArg String.join htexts

theorem textOf_infix (as bs cs : List Token) (h : bs ≠ []) :
    ∃ a c, textOf (as ++ bs ++ cs) = a ++ textOf bs ++ c := by
  have hleft : ∃ a, textOf (as ++ bs) = a ++ textOf bs := by
    by_cases ha : as = []
    · exact ⟨"", by simp [ha]⟩
    · exact ⟨_, textOf_append ha h⟩
  obtain ⟨a, ha⟩ := hleft
  by_cases hc : cs = []
  · exact ⟨a, "", by simp [hc, ha]⟩
  · refine ⟨a, trailingOf (as ++ bs) ++ leadingOf cs ++ textOf cs, ?_⟩
    rw [textOf_append (by simp [h]) hc, ha]
    simp only [String.append_assoc]

end Token

/-! ## Elements -/

namespace Element

/-- Induction over elements, with the children of a node in a list. -/
@[elab_as_elim, induction_eliminator]
theorem induction {P : Element → Prop} (token : ∀ t, P (.token t))
    (node : ∀ h children, (∀ e ∈ children, P e) → P (.node h children)) : ∀ e, P e
  | .token t => token t
  | .node h children => node h children fun e _ => induction token node e

theorem tokensOf_eq (es : List Element) : tokensOf es = es.flatMap tokens := by
  induction es with
  | nil => rfl
  | cons e es ih => rw [tokensOf, ih, List.flatMap_cons]

theorem anyTokens_eq (es : List Element) : anyTokens es = es.any hasTokens := by
  induction es with
  | nil => rfl
  | cons e es ih => rw [anyTokens, ih, List.any_cons]

@[simp] theorem tokens_token (t : Token) : (Element.token t).tokens = [t] := rfl

@[simp] theorem tokens_node (h : Head) (es : List Element) :
    (Element.node h es).tokens = es.flatMap tokens := by
  rw [tokens, tokensOf_eq]

theorem hasTokens_iff (e : Element) : e.hasTokens = true ↔ e.tokens ≠ [] := by
  induction e with
  | token t => simp [hasTokens]
  | node h es ih =>
    rw [hasTokens, anyTokens_eq, tokens_node, ne_eq, List.flatMap_eq_nil_iff, List.any_eq_true]
    constructor
    · rintro ⟨e, he, htok⟩ hnone
      exact (ih e he).1 htok (hnone e he)
    · intro hsome
      by_contra hnone
      refine hsome fun e he => ?_
      by_contra htok
      exact hnone ⟨e, he, (ih e he).2 htok⟩

theorem tokens_eq_nil {e : Element} (h : ¬ e.hasTokens = true) : e.tokens = [] := by
  by_contra hne
  exact h ((hasTokens_iff e).2 hne)

theorem anyTokens_iff (es : List Element) :
    anyTokens es = true ↔ es.flatMap tokens ≠ [] := by
  have := hasTokens_iff (.node default es)
  rwa [tokens_node, hasTokens] at this

theorem fullText_eq (e : Element) : e.fullText = Token.fullOf e.tokens := rfl

@[simp] theorem fullText_node (h : Head) (es : List Element) :
    (Element.node h es).fullText = String.join (es.map fullText) := by
  rw [fullText_eq, tokens_node]
  induction es with
  | nil => simp
  | cons e es ih =>
    rw [List.flatMap_cons, Token.fullOf_append, ih, List.map_cons, String.join_cons, fullText_eq]

theorem leading_eq (e : Element) : e.leading = Token.leadingOf e.tokens := by
  induction e with
  | token t => rfl
  | node h es ih =>
    rw [leading, tokens_node]
    induction es with
    | nil => rfl
    | cons e es ihes =>
      rw [firstLeading, List.flatMap_cons]
      split
      case isTrue htok =>
        rw [Token.leadingOf_append _ ((hasTokens_iff e).1 htok)]
        exact ih e (by simp)
      case isFalse htok =>
        rw [tokens_eq_nil htok, List.nil_append]
        exact ihes fun d hd => ih d (by simp [hd])

theorem trailing_eq (e : Element) : e.trailing = Token.trailingOf e.tokens := by
  induction e with
  | token t => rfl
  | node h es ih =>
    rw [trailing, tokens_node]
    induction es with
    | nil => rfl
    | cons e es ihes =>
      rw [lastTrailing, List.flatMap_cons]
      split
      case isTrue htok =>
        rw [Token.trailingOf_append _ ((anyTokens_iff es).1 htok)]
        exact ihes fun d hd => ih d (by simp [hd])
      case isFalse htok =>
        have hnil : es.flatMap tokens = [] := by
          by_contra hne
          exact htok ((anyTokens_iff es).2 hne)
        rw [hnil, List.append_nil, ← ih e (by simp)]
        split
        case isTrue => rfl
        case isFalse hno =>
          rw [ih e (by simp), tokens_eq_nil hno]
          rfl

theorem text_eq (e : Element) : e.text = Token.textOf e.tokens := by
  cases e with
  | token t => rfl
  | node h es =>
    have hfull := Token.fullOf_eq (Element.node h es).tokens
    rw [← leading_eq, ← trailing_eq, ← fullText_eq] at hfull
    have hsize := congrArg String.utf8ByteSize hfull
    rw [String.utf8ByteSize_append, String.utf8ByteSize_append] at hsize
    have hmax : ∀ a b c d : Nat, a = b + c + d → max (a - d) b = b + c := by omega
    rw [text, hmax _ _ _ _ hsize, hfull, Text.slice?_append]
    rfl

/-- An element reads as its leading trivia, its text and its trailing trivia. -/
theorem fullText_split (e : Element) : e.fullText = e.leading ++ e.text ++ e.trailing := by
  rw [leading_eq, text_eq, trailing_eq]
  exact Token.fullOf_eq _

end Element
end CancellationLint
