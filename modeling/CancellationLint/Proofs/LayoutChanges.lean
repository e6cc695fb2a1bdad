import CancellationLint.Proofs.CallText
import CancellationLint.Proofs.LayoutKeeps

/-! # What a pass of the layout changes

A pass changes the leading trivia of the first token of each node that asks for an indentation and
is not inside another node with a request. Every other token stays where it is and as it is. -/

namespace CancellationLint

def Token.unled (t : Token) : Token := { t with label := [], leading := "" }

namespace Element

/-! ## The first token of an element -/

theorem leading_of_first {e : Element} {q : Path} {t : Token} (h : e.at? q = some (.token t))
    (hfirst : e.before q = []) : e.leading = t.leading := by
  rw [leading_eq, tokens_at h, hfirst]
  rfl

theorem at?_withLeading {e : Element} {q : Path} {t : Token} (l : Label) (trivia : String)
    (h : e.at? q = some (.token t)) :
    (e.before q = [] → ∃ m, (e.withLeading l trivia).at? q =
      some (.token { t with label := m, leading := trivia })) ∧
    (e.before q ≠ [] → (e.withLeading l trivia).at? q = some (.token t)) := by
  induction e generalizing l q with
  | token s =>
    cases q with
    | nil =>
      cases h
      exact ⟨fun _ => ⟨l, rfl⟩, fun hlater => absurd rfl hlater⟩
    | cons j q => cases h
  | node g es ih =>
    cases q with
    | nil => cases h
    | cons j q =>
      obtain ⟨child, hj, hx⟩ := at?_cons_iff.1 h
      have hchild : child.tokens ≠ [] := by
        rw [tokens_at hx]
        simp
      rw [withLeading, before_cons hj]
      rcases withFirstLeading_cases (l.sub 0) trivia es with
        ⟨i, old, hold, hne, hnone, heq⟩ | ⟨hnone, -⟩
      · rw [heq]
        simp only
        rcases Nat.lt_trichotomy i j with hlt | rfl | hlt
        · -- The first element with tokens is to the left of the way to the token.
          have hbefore : (es.take j).flatMap tokens ≠ [] :=
            fun hempty => hne (tokens_of_left hempty hlt hold)
          refine ⟨fun hfirst => absurd (List.append_eq_nil_iff.1 hfirst).1 hbefore, fun _ => ?_⟩
          rw [at?_cons_iff]
          exact ⟨child, (List.getElem?_set_ne (Nat.ne_of_lt hlt)).trans hj, hx⟩
        · obtain rfl : old = child := Option.some.inj (hold.symm.trans hj)
          obtain ⟨hfirst, hlater⟩ := ih old (List.mem_of_getElem? hold) (l.sub 0) hx
          have hset := List.getElem?_set_self (List.getElem?_eq_some_iff.1 hold).1
            (a := old.withLeading (l.sub 0) trivia)
          simp only [children, hnone, List.nil_append, at?, hset, Option.bind_some]
          exact ⟨hfirst, hlater⟩
        · exact absurd (tokens_of_left hnone hlt hj) hchild
      · exact absurd (List.flatMap_eq_nil_iff.1 hnone child (List.mem_of_getElem? hj)) hchild

theorem at?_withReformat {e : Element} {q : Path} {t : Token} (l : Label)
    (request : Option Reformat) (hnode : e.isNode = true) (h : e.at? q = some (.token t)) :
    (e.withReformat l request).at? q = some (.token t) := by
  cases e with
  | token _ => cases hnode
  | node g es =>
    cases q with
    | nil => cases h
    | cons j q => exact h

/-! ## The tokens that are indented -/

/-- The token is the first one of a node that asks for this indentation, with no request above. -/
def IndentedAt (q : Path) (s : String) (e : Element) : Prop :=
  ∃ p r x, q = p ++ r ∧ e.asksFirst p { indent := some s } ∧ e.at? p = some x ∧ x.before r = []

theorem indentedAt_of_request {h : Head} {es : List Element} {request : Reformat} {q : Path}
    {s : String} (href : h.reformat = some request) :
    (Element.node h es).IndentedAt q s ↔
      request.indent = some s ∧ (Element.node h es).before q = [] := by
  constructor
  · rintro ⟨p, r, x, rfl, hasks, hx, hfirst⟩
    cases p with
    | nil =>
      cases hx
      rw [asksFirst_nil_iff, reformat, href, Option.some.injEq] at hasks
      exact ⟨by rw [hasks], hfirst⟩
    | cons i p =>
      rw [asksFirst_cons_iff, reformat, href] at hasks
      cases hasks.1
  · rintro ⟨hs, hfirst⟩
    refine ⟨[], q, _, rfl, asksFirst_nil_iff.2 ?_, rfl, hfirst⟩
    rw [reformat, href, ← hs]

theorem indentedAt_of_none {h : Head} {es : List Element} {i : Nat} {d : Element} {q : Path}
    {s : String} (href : h.reformat = none) (hd : es[i]? = some d) :
    (Element.node h es).IndentedAt (i :: q) s ↔ d.IndentedAt q s := by
  constructor
  · rintro ⟨p, r, x, hq, hasks, hx, hfirst⟩
    cases p with
    | nil =>
      rw [asksFirst_nil_iff, reformat, href] at hasks
      cases hasks
    | cons j p =>
      obtain ⟨rfl, rfl⟩ := List.cons.inj hq
      obtain ⟨-, d', hd', hasks⟩ := asksFirst_cons_iff.1 hasks
      obtain ⟨d'', hd'', hx⟩ := at?_cons_iff.1 hx
      obtain rfl : d' = d := Option.some.inj (hd'.symm.trans hd)
      obtain rfl : d'' = d' := Option.some.inj (hd''.symm.trans hd)
      exact ⟨p, r, x, rfl, hasks, hx, hfirst⟩
  · rintro ⟨p, r, x, rfl, hasks, hx, hfirst⟩
    exact ⟨i :: p, r, x, rfl, asksFirst_cons_iff.2 ⟨href, d, hd, hasks⟩,
      at?_cons_iff.2 ⟨d, hd, hx⟩, hfirst⟩

theorem not_indentedAt_token (t : Token) (q : Path) (s : String) :
    ¬ (Element.token t).IndentedAt q s := by
  rintro ⟨p, r, x, -, hasks, -⟩
  cases p with
  | nil =>
    rw [asksFirst_nil_iff] at hasks
    cases hasks
  | cons i p =>
    obtain ⟨-, d, hd, -⟩ := asksFirst_cons_iff.1 hasks
    cases hd

end Element

namespace Layout

/-! ## One token -/

/-- A token before and after a pass, by whether it is indented. -/
def Indents (indented : String → Prop) (t t' : Token) : Prop :=
  (∀ s, indented s → ∃ m, t' = { t with label := m, leading := reindent t.leading s }) ∧
    ((∀ s, ¬ indented s) → t' = t)

theorem at?_settleNode {h : Head} {es : List Element} {q : Path} {t : Token} (l : Label)
    {request : Reformat} (href : h.reformat = some request)
    (ht : (Element.node h es).at? q = some (.token t)) :
    ∃ t', (settleNode l request (.node h es)).at? q = some (.token t') ∧
      Indents (fun s => (Element.node h es).IndentedAt q s) t t' := by
  simp only [Indents, Element.indentedAt_of_request href]
  unfold settleNode
  cases hindent : request.indent with
  | none =>
    refine ⟨t, Element.at?_withReformat l none rfl ht, fun s hs => ?_, fun _ => rfl⟩
    cases hs.1
  | some indent =>
    simp only
    obtain ⟨hfirst, hlater⟩ := Element.at?_withLeading (l.sub 0)
      (reindent (Element.node h es).leading indent) ht
    have hnode : ((Element.node h es).withLeading (l.sub 0)
        (reindent (Element.node h es).leading indent)).isNode = true := by
      rw [Element.isNode_withLeading]
      rfl
    by_cases hbefore : (Element.node h es).before q = []
    · obtain ⟨m, hm⟩ := hfirst hbefore
      refine ⟨_, Element.at?_withReformat l none hnode hm, ?_, fun hnot => ?_⟩
      · rintro s ⟨hs, -⟩
        cases hs
        exact ⟨m, by rw [Element.leading_of_first ht hbefore]⟩
      · exact absurd ⟨rfl, hbefore⟩ (hnot indent)
    · exact ⟨t, Element.at?_withReformat l none hnode (hlater hbefore),
        fun s hs => absurd hs.2 hbefore, fun _ => rfl⟩

theorem at?_laid_token {l : Label} {e : Element} {q : Path} {t : Token}
    (ht : e.at? q = some (.token t)) :
    ∃ t', (laid l e).at? q = some (.token t') ∧ Indents (fun s => e.IndentedAt q s) t t' := by
  induction e generalizing l q with
  | token s =>
    exact ⟨t, ht, fun s hs => absurd hs (Element.not_indentedAt_token _ q s), fun _ => rfl⟩
  | node h es ih =>
    cases href : h.reformat with
    | some request =>
      rw [laid_of_request href]
      exact at?_settleNode l href ht
    | none =>
      cases q with
      | nil => cases ht
      | cons i q =>
        obtain ⟨d, hchild, hbelow⟩ := Element.at?_cons_iff.1 ht
        have hd : es[i]? = some d := hchild
        obtain ⟨t', ht', hindents⟩ := ih d (List.mem_of_getElem? hd) (l := l.sub i) hbelow
        refine ⟨t', (at?_laid_of_none href hd q).trans ht', ?_⟩
        simp only [Indents, Element.indentedAt_of_none href hd]
        exact hindents

theorem exists_reindent (leading indent : String) :
    ∃ front line, leading = front ++ line ∧ Text.EndsLine front.toList ∧ '\n' ∉ line.toList ∧
      reindent leading indent = front ++ indent := by
  refine ⟨String.ofList (Text.splitLastLine leading.toList).1,
    String.ofList (Text.splitLastLine leading.toList).2, ?_, ?_, ?_, rfl⟩
  · rw [← String.ofList_append, Text.splitLastLine_append, String.ofList_toList]
  · rw [String.toList_ofList]
    exact Text.endsLine_front _
  · rw [String.toList_ofList]
    exact Text.feed_notMem_lastLine _

/-! ## All tokens -/

theorem unled_reindented (request : Reformat) (ts : List Token) :
    (reindented request ts).map Token.unled = ts.map Token.unled := by
  cases ts with
  | nil => rfl
  | cons t ts =>
    unfold reindented
    cases request.indent <;> rfl

theorem unled_settleNode (l : Label) (request : Reformat) (h : Head) (es : List Element) :
    (settleNode l request (.node h es)).tokens.map Token.unled =
      (Element.node h es).tokens.map Token.unled := by
  have hbare : ∀ ts : List Token, (ts.map Token.bare).map Token.unled = ts.map Token.unled := by
    intro ts
    rw [List.map_map]
    rfl
  rw [← hbare, bare_settleNode, unled_reindented, hbare]

theorem unled_laid (l : Label) (e : Element) :
    (laid l e).tokens.map Token.unled = e.tokens.map Token.unled := by
  induction e generalizing l with
  | token t => rfl
  | node h es ih =>
    cases href : h.reformat with
    | some request =>
      rw [laid_of_request href]
      exact unled_settleNode l request h es
    | none =>
      obtain ⟨h', heq, -⟩ := @laid_of_none l h es href
      rw [heq, Element.tokens_node, Element.tokens_node, List.map_flatMap, List.map_flatMap]
      refine flatMap_eq_of_getElem? (by simp) fun i d' d hd' hd => ?_
      rw [List.getElem?_mapIdx, hd] at hd'
      cases hd'
      exact ih d (List.mem_of_getElem? hd) (l.sub i)

end Layout

namespace Tree

/-- A pass changes nothing but the last line of what leads the tokens that it indents. -/
theorem format_indents_only (t : Tree) (l : Label) :
    (t.format l).file = t.file ∧ (t.format l).root.outline = t.root.outline ∧
    (t.format l).root.tokens.map Token.unled = t.root.tokens.map Token.unled ∧
    (∀ q k, t.root.at? q = some (.token k) → ∃ k', (t.format l).root.at? q = some (.token k') ∧
      (∀ s, t.root.IndentedAt q s → ∃ front line, k.leading = front ++ line ∧
        Text.EndsLine front.toList ∧ '\n' ∉ line.toList ∧
        ∃ m, k' = { k with label := m, leading := front ++ s }) ∧
      ((∀ s, ¬ t.root.IndentedAt q s) → k' = k)) ∧
    (t.root.plain = true → t.format l = t) := by
  have hroot := t.root_format l
  refine ⟨?_, ?_, ?_, ?_, fun hplain => format_of_plain hplain l⟩
  · unfold Tree.format
    cases Layout.format? l t.root <;> rfl
  · rw [hroot]
    exact Layout.laid_of_lasting Element.lasting_outline l t.root
  · rw [hroot]
    exact Layout.unled_laid l t.root
  · intro q k hk
    obtain ⟨k', hk', hindented, hother⟩ := Layout.at?_laid_token (l := l) hk
    refine ⟨k', by rwa [hroot], fun s hs => ?_, hother⟩
    obtain ⟨m, rfl⟩ := hindented s hs
    obtain ⟨front, line, hleading, hends, hline, heq⟩ := Layout.exists_reindent k.leading s
    exact ⟨front, line, hleading, hends, hline, m, by rw [heq]⟩

end Tree

namespace Sample

def shifted : Tree :=
  let led (leading text : String) : Element :=
    .token { label := [], kind := .identifier, text, leading }
  let asking (indent : String) (es : List Element) : Element :=
    (Element.make [] .expressionStatement es).withReformat [] (some { indent := some indent })
  { root := .make [] .compilationUnit
      [asking "  " [.make [] .block [], led "\n// a\n\t" "a", led "\n" "b"],
        .make [] .block [asking "    " [led "\t" "c", asking "" [led "\n " "d"]]]] }

end Sample

example : Sample.shifted.source = "\n// a\n\ta\nb\tc\n d" ∧
    (Sample.shifted.format [1]).source = "\n// a\n  a\nb    c\n d" := by
  decide +kernel

/-- The first token of each statement is indented, and the request inside is left. -/
theorem Sample.format_indents_shifted :
    (∀ q s, (q, s) = ([0, 1], "  ") ∨ (q, s) = ([1, 0, 0], "    ") →
      ∃ k k', Sample.shifted.root.at? q = some (.token k) ∧
        (Sample.shifted.format [1]).root.at? q = some (.token k') ∧
        ∃ front line, k.leading = front ++ line ∧ Text.EndsLine front.toList ∧
          '\n' ∉ line.toList ∧ ∃ m, k' = { k with label := m, leading := front ++ s }) ∧
    ∃ k, Sample.shifted.root.at? [1, 0, 1, 0] = some (.token k) ∧
      (Sample.shifted.format [1]).root.at? [1, 0, 1, 0] = some (.token k) := by
  obtain ⟨-, -, -, htokens, -⟩ := Sample.shifted.format_indents_only [1]
  constructor
  · rintro q s (hq | hq)
    · cases hq
      obtain ⟨k', hk', hindented, -⟩ := htokens [0, 1] _ rfl
      exact ⟨_, k', rfl, hk', hindented "  " ⟨[0], [1], _, rfl, rfl, rfl, rfl⟩⟩
    · cases hq
      obtain ⟨k', hk', hindented, -⟩ := htokens [1, 0, 0] _ rfl
      exact ⟨_, k', rfl, hk', hindented "    " ⟨[1, 0], [0], _, rfl, rfl, rfl, rfl⟩⟩
  · obtain ⟨k', hk', -, hother⟩ := htokens [1, 0, 1, 0] _ rfl
    refine ⟨_, rfl, ?_⟩
    rw [hk', hother]
    intro s hs
    have hblock := (Element.indentedAt_of_none rfl rfl).1 hs
    have hstatement := (Element.indentedAt_of_none rfl rfl).1 hblock
    cases ((Element.indentedAt_of_request rfl).1 hstatement).2

end CancellationLint
