import CancellationLint.Proofs.Indent
import CancellationLint.Proofs.LayoutPasses
import CancellationLint.Proofs.PlacesAfterFixes

/-! # Trees that read the same

When elements of a tree give way to others, the text of the tree depends on the tokens of those others,
and so does its text after a pass of the layout. -/

namespace CancellationLint

/-! ## The tokens of a node in its new layout -/

theorem Element.tokens_withReformat {e : Element} (hnode : e.isNode = true) (l : Label)
    (r : Option Reformat) : (e.withReformat l r).tokens = e.tokens := by
  cases e with
  | token t => cases hnode
  | node h es => rw [withReformat, tokens_node, tokens_node]

namespace Layout

/-- A row of tokens, the first of which is indented as asked. -/
def reindented (request : Reformat) : List Token → List Token
  | [] => []
  | t :: ts =>
    match request.indent with
    | some indent => { t with leading := reindent t.leading indent } :: ts
    | none => t :: ts

theorem bare_settleNode (l : Label) (request : Reformat) (h : Head) (es : List Element) :
    (settleNode l request (.node h es)).tokens.map Token.bare =
      reindented request ((Element.node h es).tokens.map Token.bare) := by
  unfold settleNode
  cases hindent : request.indent with
  | none =>
    simp only
    rw [Element.tokens_withReformat rfl]
    cases (Element.node h es).tokens with
    | nil => rfl
    | cons t ts => simp [reindented, hindent]
  | some indent =>
    simp only
    rw [Element.tokens_withReformat (by rw [Element.isNode_withLeading]; rfl),
      Element.leading_eq]
    cases htokens : (Element.node h es).tokens with
    | nil =>
      rw [Element.tokens_withLeading_nil _ _ htokens]
      rfl
    | cons t ts =>
      obtain ⟨m, hm⟩ := Element.tokens_withLeading (l.sub 0)
        (reindent (Token.leadingOf (t :: ts)) indent) htokens
      rw [hm]
      simp [reindented, hindent, Token.bare]

end Layout

/-! ## Replacements that read the same -/

namespace Refitted

variable {cut : Path → Prop} {fit fit' : Path → Element → Prop} {e a b : Element}

theorem bare_tokens_eq (ha : Refitted cut fit e a) (hb : Refitted cut fit' e b)
    (hfit : ∀ p x y, cut p → fit p x → fit' p y →
      x.tokens.map Token.bare = y.tokens.map Token.bare) :
    a.tokens.map Token.bare = b.tokens.map Token.bare := by
  induction ha generalizing fit' b with
  | new hcut hx =>
    cases hb with
    | new _ hy => exact hfit [] _ _ hcut hx hy
    | token _ hno => exact absurd hcut hno
    | node hno => exact absurd hcut hno
  | token t hno =>
    cases hb with
    | new hcut => exact absurd hcut hno
    | token => rfl
  | @node _ _ _ _ es _ hno href hlen _ ih =>
    cases hb with
    | new hcut => exact absurd hcut hno
    | node _ href' hlen' hall' =>
      rw [Element.tokens_node, Element.tokens_node, List.map_flatMap, List.map_flatMap]
      refine flatMap_eq_of_getElem? (hlen'.trans hlen.symm) fun i d d' hd hd' => ?_
      have hi := (List.getElem?_eq_some_iff.1 hd).1
      have hold := List.getElem?_eq_getElem (hlen ▸ hi : i < es.length)
      exact ih i _ d hold hd (hall' i _ d' hold hd') fun p x y => hfit (i :: p) x y

theorem bare_laid_eq (ha : Refitted cut fit e a) (hb : Refitted cut fit' e b)
    (hfit : ∀ p x y, cut p → fit p x → fit' p y →
      x.tokens.map Token.bare = y.tokens.map Token.bare)
    (hlaid : ∀ p x y, cut p → fit p x → fit' p y → ∀ l m,
      (Layout.laid l x).tokens.map Token.bare = (Layout.laid m y).tokens.map Token.bare)
    (l m : Label) :
    (Layout.laid l a).tokens.map Token.bare = (Layout.laid m b).tokens.map Token.bare := by
  induction ha generalizing fit' b l m with
  | new hcut hx =>
    cases hb with
    | new _ hy => exact hlaid [] _ _ hcut hx hy l m
    | token _ hno => exact absurd hcut hno
    | node hno => exact absurd hcut hno
  | token t hno =>
    cases hb with
    | new hcut => exact absurd hcut hno
    | token => rfl
  | @node _ _ g g₁ es es₁ hno href hlen hall ih =>
    cases hb with
    | new hcut => exact absurd hcut hno
    | @node _ _ _ g₂ _ es₂ _ href' hlen' hall' =>
      cases hreq : g.reformat with
      | some request =>
        -- What is inside of a node with a request stays as it is.
        have hbare := (Refitted.node hno href hlen hall).bare_tokens_eq
          (Refitted.node hno href' hlen' hall') hfit
        rw [Layout.laid_of_request (href.trans hreq), Layout.laid_of_request (href'.trans hreq),
          Layout.bare_settleNode, Layout.bare_settleNode, hbare]
      | none =>
        obtain ⟨h₁, heq₁, -⟩ := @Layout.laid_of_none l g₁ es₁ (href.trans hreq)
        obtain ⟨h₂, heq₂, -⟩ := @Layout.laid_of_none m g₂ es₂ (href'.trans hreq)
        rw [heq₁, heq₂, Element.tokens_node, Element.tokens_node, List.map_flatMap,
          List.map_flatMap]
        refine flatMap_eq_of_getElem? (by simp [hlen, hlen']) fun i d d' hd hd' => ?_
        rw [List.getElem?_mapIdx, Option.map_eq_some_iff] at hd hd'
        obtain ⟨x, hx, rfl⟩ := hd
        obtain ⟨y, hy, rfl⟩ := hd'
        have hi := (List.getElem?_eq_some_iff.1 hx).1
        have hold := List.getElem?_eq_getElem (hlen ▸ hi : i < es.length)
        exact ih i _ x hold hx (hall' i _ y hold hy) (fun p x y => hfit (i :: p) x y)
          (fun p x y => hlaid (i :: p) x y) _ _

/-! ## How the text before a place ends -/

theorem ending_flatMap_eq {es es' : List Element} (hlen : es'.length = es.length)
    (h : ∀ (i : Nat) (d d' : Element), es[i]? = some d → es'[i]? = some d' →
      Token.ending? d'.tokens = Token.ending? d.tokens) :
    Token.ending? (es'.flatMap Element.tokens) = Token.ending? (es.flatMap Element.tokens) := by
  have hall := forall₂_of_getElem? hlen h
  clear h hlen
  induction hall with
  | nil => rfl
  | cons hd _ ih =>
    rw [List.flatMap_cons, List.flatMap_cons, Token.ending?_append, Token.ending?_append, ih, hd]

theorem ending_eq (ha : Refitted cut fit e a)
    (hfit : ∀ p x y, cut p → e.at? p = some x → fit p y →
      Token.ending? y.tokens = Token.ending? x.tokens) :
    Token.ending? a.tokens = Token.ending? e.tokens := by
  induction ha with
  | new hcut hx => exact hfit [] _ _ hcut rfl hx
  | token t => rfl
  | node _ _ hlen _ ih =>
    rw [Element.tokens_node, Element.tokens_node]
    refine ending_flatMap_eq hlen fun i d d' hd hd' => ih i d d' hd hd' fun p x y hcut hx hy => ?_
    exact hfit (i :: p) x y hcut (Element.at?_cons_iff.2 ⟨d, hd, hx⟩) hy

theorem ending_before_eq {q : Path} {z : Element} (ha : Refitted cut fit e a)
    (hfit : ∀ p x y, cut p → e.at? p = some x → fit p y →
      Token.ending? y.tokens = Token.ending? x.tokens)
    (hq : ∀ p, cut p → Path.Apart p q) (hz : e.at? q = some z) :
    Token.ending? (a.before q) = Token.ending? (e.before q) := by
  induction q generalizing e a cut fit with
  | nil => rfl
  | cons i q ih =>
    cases ha with
    | new hcut => exact absurd List.nil_prefix (hq [] hcut).1
    | token t => cases hz
    | @node _ _ g g' es es' _ _ hlen hall =>
      obtain ⟨d, hd, hz⟩ := Element.at?_cons_iff.1 hz
      have hi : i < es.length := (List.getElem?_eq_some_iff.1 hd).1
      have hd' := List.getElem?_eq_getElem (hlen.symm ▸ hi : i < es'.length)
      have hfit' : ∀ j x, es[j]? = some x → ∀ p y z, cut (j :: p) → x.at? p = some y →
          fit (j :: p) z → Token.ending? z.tokens = Token.ending? y.tokens :=
        fun j x hx p y z hcut hy hz =>
          hfit (j :: p) y z hcut (Element.at?_cons_iff.2 ⟨x, hx, hy⟩) hz
      have htake : Token.ending? ((es'.take i).flatMap Element.tokens) =
          Token.ending? ((es.take i).flatMap Element.tokens) := by
        refine ending_flatMap_eq (by simp [hlen]) fun j x x' hx hx' => ?_
        rw [List.getElem?_take] at hx hx'
        split at hx
        · rename_i hj
          rw [if_pos hj] at hx'
          exact (hall j x x' hx hx').ending_eq (hfit' j x hx)
        · cases hx
      have hchild := ih (hall i d _ hd hd') (hfit' i d hd)
        (fun p hp => (Path.apart_cons_iff i p q).1 (hq (i :: p) hp)) hz
      rw [Element.before_cons (e := .node g es) hd, Element.before_cons (e := .node g' es') hd',
        Token.ending?_append, Token.ending?_append, hchild, Element.children, Element.children,
        htake]

end Refitted
end CancellationLint
