import CancellationLint.Layout
import CancellationLint.Proofs.MendedTree

/-! # Layout after fixing

The layout pass changes the trivia in front of the nodes that ask for it, and looks no further into
them. So it keeps the text of every element with no such node inside of it. -/

namespace CancellationLint
namespace Layout

theorem formatEach_getElem? (l : Label) (k : Nat) (es : List Element) (i : Nat) :
    (formatEach l k es)[i]? = es[i]?.map (format? (l.sub (k + i))) := by
  induction es generalizing k i with
  | nil => rfl
  | cons e es ih =>
    rw [formatEach]
    cases i with
    | zero => rfl
    | succ i => rw [List.getElem?_cons_succ, ih, List.getElem?_cons_succ, Nat.add_right_comm]; rfl

theorem length_formatEach (l : Label) (k : Nat) (es : List Element) :
    (formatEach l k es).length = es.length := by
  induction es generalizing k with
  | nil => rfl
  | cons e es ih => rw [formatEach, List.length_cons, List.length_cons, ih]

def replaced (rest : List Element) (news : List (Option Element)) : List Element :=
  List.zipWith (fun child new => new.getD child) rest news

theorem swapEach_eq {l : Label} {h : Head} {before rest : List Element}
    {news : List (Option Element)} (hlen : news.length = rest.length) :
    ∃ h', swapEach l h before rest news = .node h' (before ++ replaced rest news) ∧
      h'.kind = h.kind ∧ h'.reformat = h.reformat ∧
      ((Element.node h (before ++ rest)).sound = true →
        (∀ (i : Nat) (child new : Element), rest[i]? = some child →
          news[i]? = some (some new) → new.sound = true ∧ new.hasError = child.hasError) →
        h'.hasError = h.hasError ∧
          (Element.node h' (before ++ replaced rest news)).sound = true) := by
  -- At each stage the node with `before ++ rest` is sound, though its children are half replaced.
  induction rest generalizing h before news with
  | nil =>
    obtain rfl := List.eq_nil_of_length_eq_zero hlen
    exact ⟨h, rfl, rfl, rfl, fun hsound _ => ⟨rfl, hsound⟩⟩
  | cons child rest ih =>
    cases news with
    | nil => cases hlen
    | cons new news =>
      have hlen' : news.length = rest.length := Nat.succ.inj hlen
      cases new with
      | none =>
        have happ : before ++ child :: rest = before ++ [child] ++ rest := by simp
        obtain ⟨h', heq, hkind, href, hkeep⟩ := @ih h (before ++ [child]) news hlen'
        refine ⟨h', ?_, hkind, href, fun hsound hnews => ?_⟩
        · rw [swapEach, heq]
          simp [replaced]
        · rw [happ] at hsound
          simpa [replaced] using hkeep hsound fun i => hnews (i + 1)
      | some new =>
        obtain ⟨h', heq, hkind, href, hkeep⟩ :=
          @ih (h.swap l child (before ++ new :: rest)) (before ++ [new]) news hlen'
        refine ⟨h', ?_, hkind, href, fun hsound hnews => ?_⟩
        · rw [swapEach, heq]
          simp [replaced]
        obtain ⟨hnew, hsame⟩ := hnews 0 child new rfl rfl
        have hold : (before ++ child :: rest)[before.length]? = some child := by simp
        have hset : (before ++ child :: rest).set before.length new = before ++ new :: rest := by
          simp
        have herr := Element.hasError_swap (l := l) (Element.showsErrors_of_sound hsound) hold hsame
        rw [hset] at herr
        have hnext : (Element.node (h.swap l child (before ++ new :: rest))
            (before ++ [new] ++ rest)).sound = true := by
          rw [List.append_assoc, List.singleton_append, ← hset]
          exact Element.sound_set hsound hnew
        obtain ⟨herr', hs⟩ := hkeep hnext fun i => hnews (i + 1)
        exact ⟨herr'.trans herr, by simpa [replaced] using hs⟩

theorem replaced_getElem? {rest : List Element} {news : List (Option Element)} {i : Nat}
    {child : Element} {new : Option Element} (hchild : rest[i]? = some child)
    (hnew : news[i]? = some new) : (replaced rest news)[i]? = some (new.getD child) := by
  rw [replaced, List.getElem?_zipWith, hchild, hnew]

/-- The element after a pass. -/
def laid (l : Label) (e : Element) : Element := (format? l e).getD e

theorem laid_of_request {l : Label} {h : Head} {es : List Element} {request : Reformat}
    (href : h.reformat = some request) :
    laid l (.node h es) = settleNode l request (.node h es) := by
  rw [laid, format?, href]
  rfl

theorem formatEach_getElem?_of_some (l : Label) {es : List Element} {i : Nat} {e : Element}
    (he : es[i]? = some e) : (formatEach l 0 es)[i]? = some (format? (l.sub i) e) := by
  rw [formatEach_getElem?, he, Nat.zero_add]
  rfl

theorem replaced_formatEach (l : Label) (es : List Element) :
    replaced es (formatEach l 0 es) = es.mapIdx fun i e => laid (l.sub i) e := by
  refine List.ext_getElem? fun i => ?_
  cases hi : es[i]? with
  | none => simp [replaced, List.getElem?_zipWith, hi]
  | some e =>
    rw [replaced_getElem? hi (formatEach_getElem?_of_some l hi), List.getElem?_mapIdx, hi]
    rfl

theorem laid_of_none {l : Label} {h : Head} {es : List Element} (href : h.reformat = none) :
    ∃ h', laid l (.node h es) = .node h' (es.mapIdx fun i e => laid (l.sub i) e) ∧
      h'.kind = h.kind ∧ h'.reformat = none ∧
      ((Element.node h es).sound = true →
        (∀ (i : Nat) (e : Element), es[i]? = some e →
          (laid (l.sub i) e).sound = true ∧ (laid (l.sub i) e).hasError = e.hasError) →
        h'.hasError = h.hasError ∧
          (Element.node h' (es.mapIdx fun i e => laid (l.sub i) e)).sound = true) := by
  rw [← replaced_formatEach, laid, format?, href]
  simp only
  split
  · obtain ⟨h', heq, hkind, href', hkeep⟩ := @swapEach_eq l h [] es _ (length_formatEach l 0 es)
    refine ⟨h', heq, hkind, href'.trans href, fun hsound hes => hkeep hsound ?_⟩
    intro i child new hchild hnew
    rw [formatEach_getElem?_of_some l hchild] at hnew
    simpa [laid, Option.some.inj hnew] using hes i child hchild
  · rename_i hnone
    have hsame : replaced es (formatEach l 0 es) = es := by
      refine List.ext_getElem? fun i => ?_
      cases hi : es[i]? with
      | none => simp [replaced, List.getElem?_zipWith, hi]
      | some e =>
        have hget := formatEach_getElem?_of_some l hi
        have hformat : format? (l.sub i) e = none := by
          by_contra hsome
          exact hnone (List.any_eq_true.2
            ⟨_, List.mem_of_getElem? hget, Option.isSome_iff_ne_none.2 hsome⟩)
        rw [replaced_getElem? hi hget, hformat]
        rfl
    rw [hsame]
    exact ⟨h, rfl, rfl, href, fun hsound _ => ⟨rfl, hsound⟩⟩

theorem format?_of_plain {l : Label} {e : Element} (h : e.plain = true) : format? l e = none := by
  induction e generalizing l with
  | token t => rfl
  | node g es ih =>
    obtain ⟨href, hes⟩ := Element.plain_node_iff.1 h
    rw [format?, href]
    simp only
    refine if_neg fun hany => ?_
    obtain ⟨new, hnew, hsome⟩ := List.any_eq_true.1 hany
    obtain ⟨i, hi⟩ := List.mem_iff_getElem?.1 hnew
    rw [formatEach_getElem?] at hi
    obtain ⟨e, he, rfl⟩ := Option.map_eq_some_iff.1 hi
    have hmem := List.mem_of_getElem? he
    rw [ih e hmem (hes e hmem)] at hsome
    cases hsome

theorem laid_of_plain (l : Label) {e : Element} (h : e.plain = true) : laid l e = e := by
  rw [laid, format?_of_plain h]
  rfl

theorem mapIdx_laid_of_plain (l : Label) {es : List Element} (h : ∀ e ∈ es, e.plain = true) :
    es.mapIdx (fun i e => laid (l.sub i) e) = es := by
  refine List.ext_getElem? fun i => ?_
  rw [List.getElem?_mapIdx]
  cases hi : es[i]? with
  | none => rfl
  | some e => exact congrArg some (laid_of_plain (l.sub i) (h e (List.mem_of_getElem? hi)))

section
variable {R : Element → Element → Prop} (hR : Element.Lasting R)
include hR

theorem settleNode_of_lasting (l : Label) (request : Reformat) (e : Element) :
    R e (settleNode l request e) := by
  unfold settleNode
  split
  · exact hR.trans (hR.withLeading _ _ e) (hR.withReformat l none _)
  · exact hR.withReformat l none e

theorem swapEach_of_lasting {l : Label} {h : Head} {before rest : List Element}
    {news : List (Option Element)}
    (hnews : ∀ (i : Nat) (child new : Element), rest[i]? = some child →
      news[i]? = some (some new) → R child new) :
    R (.node h (before ++ rest)) (swapEach l h before rest news) := by
  induction rest generalizing h before news with
  | nil => exact hR.refl _
  | cons child rest ih =>
    cases news with
    | nil => exact hR.refl _
    | cons new news =>
      have hothers : ∀ (i : Nat) (child new : Element), rest[i]? = some child →
          news[i]? = some (some new) → R child new := fun i => hnews (i + 1)
      cases new with
      | none =>
        rw [swapEach, List.append_cons]
        exact ih hothers
      | some new =>
        have hold : (before ++ child :: rest)[before.length]? = some child := by simp
        have hstep := hR.swap (h := h) l hold (hnews 0 child new rfl rfl)
        rw [show (before ++ child :: rest).set before.length new = before ++ new :: rest by simp]
          at hstep
        rw [swapEach]
        refine hR.trans hstep ?_
        rw [List.append_cons]
        exact ih hothers

/-- Such a relation holds between an element and its layout. -/
theorem laid_of_lasting (l : Label) (e : Element) : R e (laid l e) := by
  induction e generalizing l with
  | token t => exact hR.refl _
  | node h es ih =>
    cases href : h.reformat with
    | some request =>
      rw [laid_of_request href]
      exact settleNode_of_lasting hR l request _
    | none =>
      rw [laid, format?, href]
      simp only
      split
      · refine @swapEach_of_lasting _ hR l h [] es _ fun i child new hchild hnew => ?_
        rw [formatEach_getElem?_of_some l hchild] at hnew
        have hlaid := ih child (List.mem_of_getElem? hchild) (l.sub i)
        rwa [laid, Option.some.inj hnew] at hlaid
      · exact hR.refl _

end

theorem sound_settleNode {e : Element} (h : e.sound = true) (l : Label) (request : Reformat) :
    (settleNode l request e).sound = true := by
  unfold settleNode
  split
  · exact Element.sound_withReformat (Element.retrimmed_withLeading _ _ h).sound
  · exact Element.sound_withReformat h

theorem call_settleNode {old new : Element} (h : Call old new) (l : Label) (request : Reformat) :
    Call old (settleNode l request new) ∧ (settleNode l request new).reformat = none := by
  unfold settleNode
  split
  · exact (h.of_retrimmed (Element.retrimmed_withLeading _ _ h.new_sound)).withReformat l none
  · exact h.withReformat l none

end Layout

namespace Mended

variable {asked : Bool} {cut : Path → Prop} {e e' : Element}

theorem relax (h : Mended asked cut e e') : Mended false cut e e' := by
  induction h with
  | token hcut hkind htext hmissing => exact token hcut hkind htext hmissing
  | call hcut hcall => exact call hcut hcall nofun
  | node hcut hkind herr _ hlen _ htext ih =>
    refine node hcut hkind herr nofun hlen ih fun hnone hsettled => htext hnone ?_
    exact hsettled.elim nofun .inr

theorem withReformat (h : Mended false cut e e') (l : Label) (request : Option Reformat) :
    Mended false cut e (e'.withReformat l request) := by
  cases h with
  | token hcut hkind htext hmissing => exact token hcut hkind htext hmissing
  | call hcut hcall => exact call hcut (hcall.withReformat l request).1 nofun
  | @node _ g g' es es' hcut hkind herr _ hlen hall htext =>
    refine node hcut hkind herr nofun hlen hall fun hnone hsettled => ?_
    rw [← htext hnone hsettled, Element.text_eq, Element.text_eq, Element.tokens_node,
      Element.tokens_node]

/-- Each part has its text without the trivia in front of it, so a layout keeps the texts. -/
theorem withLeading (h : Mended asked cut e e') (hsound : e'.sound = true) (l : Label)
    (trivia : String) : Mended false cut e (e'.withLeading l trivia) := by
  induction h generalizing l with
  | token hcut hkind htext hmissing => exact token hcut hkind htext hmissing
  | call hcut hcall =>
    exact call hcut (hcall.of_retrimmed (Element.retrimmed_withLeading l trivia hsound)) nofun
  | @node cut g g' es es' hcut hkind herr _ hlen hall htext ih =>
    have hsame := Element.text_withLeading (.node g' es') l trivia
    rw [Element.withLeading] at hsame ⊢
    rcases Element.withFirstLeading_cases (l.sub 0) trivia es' with
      ⟨i, old, hold, -, -, heq⟩ | ⟨-, heq⟩
    · rw [heq] at hsame ⊢
      have hi := (List.getElem?_eq_some_iff.1 hold).1
      have holdSound := Element.all_of_mem hsound (List.mem_of_getElem? hold)
      have hled := Element.retrimmed_withLeading (l.sub 0) trivia holdSound
      refine node hcut hkind ?_ nofun (by simp [hlen]) (fun j a b ha hb => ?_)
        fun hnone hsettled => hsame.trans (htext hnone (hsettled.elim nofun .inr))
      · rw [Element.hasError_swap (Element.showsErrors_of_sound hsound) hold hled.hasError_eq, herr]
      · by_cases hij : i = j
        · subst hij
          rw [List.getElem?_set_self hi] at hb
          cases hb
          exact ih i a old ha hold holdSound (l.sub 0)
        · rw [List.getElem?_set_ne hij] at hb
          exact (hall j a b ha hb).relax
    · rw [heq] at hsame ⊢
      exact node hcut hkind herr nofun hlen (fun j a b ha hb => (hall j a b ha hb).relax)
        fun hnone hsettled => hsame.trans (htext hnone (hsettled.elim nofun .inr))

theorem settleNode (h : Mended asked cut e e') (hsound : e'.sound = true) (l : Label)
    (request : Reformat) : Mended false cut e (Layout.settleNode l request e') := by
  unfold Layout.settleNode
  split
  · exact (h.withLeading hsound (l.sub 0) _).withReformat l none
  · exact h.relax.withReformat l none

theorem plain_eq (h : Mended true cut e e') (hcut : ∀ p x, e.at? p = some x → ¬ cut p)
    (hplain : e.plain = true) : e'.plain = true := by
  induction h with
  | token => rfl
  | call hat => exact absurd hat (hcut [] _ rfl)
  | node _ _ _ href hlen _ _ ih =>
    obtain ⟨hnone, hes⟩ := Element.plain_node_iff.1 hplain
    refine Element.plain_node_iff.2 ⟨(href rfl).trans hnone, fun d' hd' => ?_⟩
    obtain ⟨i, hi⟩ := List.mem_iff_getElem?.1 hd'
    have hd := List.getElem?_eq_getElem (hlen ▸ (List.getElem?_eq_some_iff.1 hi).1)
    exact ih i _ d' hd hi (fun p x hx => hcut (i :: p) x (Element.at?_cons_iff.2 ⟨_, hd, hx⟩))
      (hes _ (List.mem_of_getElem? hd))

/-- The layout of a mended tree. -/
theorem format (h : Mended true cut e e') (hsound : e'.sound = true) (l : Label) :
    Mended false cut e (Layout.laid l e') ∧ (Layout.laid l e').sound = true := by
  induction h generalizing l with
  | token hcut hkind htext hmissing => exact ⟨token hcut hkind htext hmissing, rfl⟩
  | @call cut old new hcut hcall hasked =>
    cases new with
    | token t => cases hcall.new_isNode
    | node g es =>
      obtain ⟨request, hrequest⟩ := Option.isSome_iff_exists.1 (hasked rfl)
      obtain ⟨hnew, -⟩ := Layout.call_settleNode hcall l request
      rw [Layout.laid_of_request hrequest]
      exact ⟨call hcut hnew nofun, hnew.new_sound⟩
  | @node cut g g' es es' hcut hkind herr href hlen hall htext ih =>
    have hmended : Mended true cut (.node g es) (.node g' es') :=
      node hcut hkind herr href hlen hall htext
    cases hrequest : g'.reformat with
    | some request =>
      rw [Layout.laid_of_request hrequest]
      exact ⟨hmended.settleNode hsound l request, Layout.sound_settleNode hsound l request⟩
    | none =>
      have hsound' := ((Element.sound_node_iff g' es').1 hsound).2.2
      -- Every child of the new node has its counterpart in the old one.
      have hchild : ∀ (i : Nat) (d' : Element), es'[i]? = some d' → ∃ d, es[i]? = some d ∧
          Mended false (fun p => cut (i :: p)) d (Layout.laid (l.sub i) d') ∧
          (Layout.laid (l.sub i) d').sound = true := by
        intro i d' hd'
        have hd := List.getElem?_eq_getElem (hlen ▸ (List.getElem?_eq_some_iff.1 hd').1)
        exact ⟨_, hd, ih i _ d' hd hd' (hsound' d' (List.mem_of_getElem? hd')) (l.sub i)⟩
      obtain ⟨h', heq, hkind', -, hkeep⟩ := @Layout.laid_of_none l g' es' hrequest
      obtain ⟨herr', hs⟩ := hkeep hsound fun i d' hd' => by
        obtain ⟨d, hd, hlaid, hs⟩ := hchild i d' hd'
        exact ⟨hs, hlaid.hasError_eq.trans (hall i d d' hd hd').hasError_eq.symm⟩
      rw [heq]
      refine ⟨node hcut (hkind'.trans hkind) (herr'.trans herr) nofun (by simp [hlen])
        (fun i d d₂ hd hd₂ => ?_) (fun hnone hsettled => ?_), hs⟩
      · rw [List.getElem?_mapIdx, Option.map_eq_some_iff] at hd₂
        obtain ⟨d', hd', rfl⟩ := hd₂
        obtain ⟨d₀, hd₀, hlaid, -⟩ := hchild i d' hd'
        obtain rfl : d₀ = d := Option.some.inj (hd₀.symm.trans hd)
        exact hlaid
      · -- Nothing inside asks for a layout, so nothing inside is touched.
        have hplain : ∀ d' ∈ es', d'.plain = true := by
          intro d' hmem
          obtain ⟨i, hd'⟩ := List.mem_iff_getElem?.1 hmem
          obtain ⟨d, hd, -⟩ := hchild i d' hd'
          exact (hall i d d' hd hd').plain_eq
            (fun p x hx => hnone (i :: p) x (Element.at?_cons_iff.2 ⟨d, hd, hx⟩))
            (List.all_eq_true.1 (hsettled.resolve_left nofun) d (List.mem_of_getElem? hd))
        rw [Layout.mapIdx_laid_of_plain l hplain, ← htext hnone (.inl rfl), Element.text_eq,
          Element.text_eq, Element.tokens_node, Element.tokens_node]

end Mended

theorem Tree.root_format (t : Tree) (l : Label) : (t.format l).root = Layout.laid l t.root := by
  unfold Tree.format Layout.laid
  cases Layout.format? l t.root <;> rfl

end CancellationLint
