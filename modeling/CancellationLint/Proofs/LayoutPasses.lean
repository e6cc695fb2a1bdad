import CancellationLint.Proofs.Detected
import CancellationLint.Proofs.OuterTrivia
import CancellationLint.Proofs.Refitted
import CancellationLint.Proofs.LayoutAfterFixes

/-! # Passes of the layout

A pass does not look inside a node that asks for a layout. So on each way down from the root it answers
the first request and no other, and as many passes are needed as there are requests on one way. -/

namespace CancellationLint

/-! ## Requests on the way down -/

namespace Element

/-- What the elements on the way down a path ask for, from this one on. -/
def requests : Path → Element → List (Option Reformat)
  | [], e => [e.reformat]
  | i :: p, e => e.reformat :: (e.children[i]?.map (requests p)).getD []

def asked (p : Path) (e : Element) : Nat := (e.requests p).countP Option.isSome

theorem plain_iff {e : Element} : e.plain = true ↔ ∀ p, asked p e = 0 := by
  induction e with
  | token t =>
    refine ⟨fun _ p => ?_, fun _ => rfl⟩
    cases p <;> rfl
  | node h es ih =>
    rw [plain_node_iff]
    constructor
    · rintro ⟨href, hes⟩ p
      cases p with
      | nil => simp [asked, requests, reformat, href]
      | cons i p =>
        cases hi : es[i]? with
        | none => simp [asked, requests, reformat, href, children, hi]
        | some e =>
          have hmem := List.mem_of_getElem? hi
          have hzero := (ih e hmem).1 (hes e hmem) p
          simpa [asked, requests, reformat, href, children, hi] using hzero
    · intro hp
      have href : h.reformat = none := by simpa [asked, requests, reformat] using hp []
      refine ⟨href, fun e he => (ih e he).2 fun p => ?_⟩
      obtain ⟨i, hi⟩ := List.mem_iff_getElem?.1 he
      simpa [asked, requests, reformat, href, children, hi] using hp (i :: p)

theorem requests_set {h h' : Head} {es : List Element} {old new : Element} {i : Nat}
    (href : h'.reformat = h.reformat) (hold : es[i]? = some old)
    (hnew : ∀ p, requests p new = requests p old) (p : Path) :
    requests p (.node h' (es.set i new)) = requests p (.node h es) := by
  cases p with
  | nil => simp [requests, reformat, href]
  | cons j p =>
    simp only [requests, reformat, children, href]
    by_cases hij : i = j
    · subst hij
      rw [List.getElem?_set_self (List.getElem?_eq_some_iff.1 hold).1, hold]
      simp [hnew p]
    · rw [List.getElem?_set_ne hij]

theorem outward_requests : Outward fun e e' => ∀ p, requests p e' = requests p e where
  token _ _ _ _ p := by cases p <;> rfl
  relabel _ _ _ p := by cases p <;> rfl
  swap _ hold hnew := requests_set rfl hold hnew

theorem requests_withLeading (l : Label) (trivia : String) (e : Element) (p : Path) :
    requests p (e.withLeading l trivia) = requests p e :=
  outward_requests.withLeading l trivia e p

theorem requests_withTrailing (l : Label) (trivia : String) (e : Element) (p : Path) :
    requests p (e.withTrailing l trivia) = requests p e :=
  outward_requests.withTrailing l trivia e p

theorem isNode_withLeading (l : Label) (trivia : String) (e : Element) :
    (e.withLeading l trivia).isNode = e.isNode := by
  cases e with
  | token t => rfl
  | node h es =>
    rw [withLeading]
    split <;> rfl

theorem isNode_withTrailing (l : Label) (trivia : String) (e : Element) :
    (e.withTrailing l trivia).isNode = e.isNode := by
  cases e with
  | token t => rfl
  | node h es =>
    rw [withTrailing]
    split <;> rfl

theorem requests_withReformat {e : Element} (hnode : e.isNode = true) (l : Label)
    (r : Option Reformat) (p : Path) :
    requests p (e.withReformat l r) = r :: (requests p e).tail := by
  cases e with
  | token t => cases hnode
  | node h es => cases p <;> rfl

theorem asked_withReformat_le {e : Element} {p : Path} (hnode : e.isNode = true)
    (h : e.asked p = 0) (l : Label) (r : Option Reformat) : (e.withReformat l r).asked p ≤ 1 := by
  have htail := (List.tail_sublist (e.requests p)).countP_le (p := Option.isSome)
  rw [asked] at h
  rw [asked, requests_withReformat hnode, List.countP_cons]
  split <;> omega

end Element

namespace Layout

def answer : List (Option Reformat) → List (Option Reformat)
  | [] => []
  | none :: rest => none :: answer rest
  | some _ :: rest => none :: rest

theorem countP_answer (rs : List (Option Reformat)) :
    (answer rs).countP Option.isSome = rs.countP Option.isSome - 1 := by
  induction rs using answer.induct with
  | case1 => rfl
  | case2 rest ih => simpa [answer] using ih
  | case3 r rest => simp [answer]

theorem requests_settleNode (l : Label) (request : Reformat) (h : Head) (es : List Element)
    (p : Path) :
    (settleNode l request (.node h es)).requests p =
      none :: ((Element.node h es).requests p).tail := by
  unfold settleNode
  split
  · rw [Element.requests_withReformat (Element.isNode_withLeading ..),
      Element.requests_withLeading]
  · rw [Element.requests_withReformat rfl]

/-- On each way down a pass answers the first request. -/
theorem requests_laid (l : Label) (e : Element) (p : Path) :
    (laid l e).requests p = answer (e.requests p) := by
  induction e generalizing l p with
  | token t => cases p <;> rfl
  | node h es ih =>
    cases href : h.reformat with
    | some request =>
      rw [laid_of_request href, requests_settleNode]
      cases p <;> simp [Element.requests, Element.reformat, href, answer]
    | none =>
      obtain ⟨h', heq, -, href', -⟩ := @laid_of_none l h es href
      rw [heq]
      cases p with
      | nil => simp [Element.requests, Element.reformat, href, href', answer]
      | cons i p =>
        simp only [Element.requests, Element.reformat, Element.children, href, href', answer,
          List.getElem?_mapIdx]
        cases hi : es[i]? with
        | none => rfl
        | some e => simp [ih e (List.mem_of_getElem? hi)]

end Layout

/-! ## Requests after fixing -/

theorem Fix.plain_callStatement (l : Label) {receiver : Element} (h : receiver.plain = true) :
    (callStatement l receiver).plain = true := by
  have htoken : ∀ t, (Element.token t).plain = true := fun _ => rfl
  simp [callStatement, Element.make, Element.plain_node_iff, h, htoken]

theorem Fix.tokens_callStatement (l : Label) (receiver : Element) :
    (callStatement l receiver).tokens ≠ [] := by
  simp [callStatement, Element.make]

theorem Fix.exists_led (l : Label) (check : Check) :
    ∃ led : Element, led.isNode = true ∧ led.tokens ≠ [] ∧
      (∀ p, led.requests p = (callStatement (l.sub 0) check.receiver.element).requests p) ∧
      ∀ indent, replacementFor l check indent =
        (led.withTrailing (l.sub 2) check.body.element.trailing).withReformat l
          (some { indent }) := by
  have hne := tokens_callStatement (l.sub 0) check.receiver.element
  unfold replacementFor
  by_cases hlead : (callStatement (l.sub 0) check.receiver.element).leading =
      check.body.element.leading
  · simp only [if_pos hlead]
    exact ⟨_, rfl, hne, fun _ => rfl, fun _ => rfl⟩
  · simp only [if_neg hlead]
    refine ⟨_, Element.isNode_withLeading .., ?_, Element.requests_withLeading _ _ _,
      fun _ => rfl⟩
    obtain ⟨t, ts, htokens⟩ := List.exists_cons_of_ne_nil hne
    obtain ⟨m, hm⟩ := Element.tokens_withLeading (l.sub 1) check.body.element.leading htokens
    rw [hm]
    exact List.cons_ne_nil _ _

theorem Fix.asked_replacementFor {check : Check} (l : Label) (indent : Option String)
    (h : check.receiver.element.plain = true) (p : Path) :
    (replacementFor l check indent).asked p ≤ 1 := by
  obtain ⟨led, hnode, -, hrequests, heq⟩ := exists_led l check
  have hzero := Element.plain_iff.1 (plain_callStatement (l.sub 0) h) p
  rw [heq indent]
  apply Element.asked_withReformat_le
  · rwa [Element.isNode_withTrailing]
  · rwa [Element.asked, Element.requests_withTrailing, hrequests]

/-- Where nothing asked for a layout, replacements bring at most one request on each way. -/
theorem Refitted.asked_le_one {cut : Path → Prop} {fit : Path → Element → Prop} {e e' : Element}
    (h : Refitted cut fit e e') (he : e.plain = true)
    (hfit : ∀ p x, fit p x → ∀ q, x.asked q ≤ 1) (q : Path) : e'.asked q ≤ 1 := by
  induction h generalizing q with
  | new _ hnew => exact hfit [] _ hnew q
  | token t =>
    cases q <;> simp [Element.asked, Element.requests, Element.reformat, Element.children]
  | @node cut fit g g' es es' hcut href hlen hall ih =>
    obtain ⟨hself, hes⟩ := Element.plain_node_iff.1 he
    rw [hself] at href
    cases q with
    | nil => simp [Element.asked, Element.requests, Element.reformat, href]
    | cons i q =>
      cases hi : es'[i]? with
      | none => simp [Element.asked, Element.requests, Element.reformat, Element.children, href, hi]
      | some d' =>
        have hd := List.getElem?_eq_getElem (hlen ▸ (List.getElem?_eq_some_iff.1 hi).1)
        have hle := ih i _ d' hd hi (hes _ (List.mem_of_getElem? hd))
          (fun p x hx => hfit (i :: p) x hx) q
        simpa [Element.asked, Element.requests, Element.reformat, Element.children, href, hi]
          using hle

theorem Tree.asked_of_fixAll {t : Tree} {l : Label} {ds : List Diagnostic} {out : FixAll}
    (ht : t.root.plain = true) (h : t.fixAll l ds = .ok out) (p : Path) :
    out.tree.root.asked p ≤ 1 := by
  have hrefit := @refitted_fixAll t l ds out (fun _ x => ∀ q, x.asked q ≤ 1) h ?_
  · exact hrefit.asked_le_one ht (fun _ _ hx => hx) p
  · rintro check _ hof hcheck ⟨m, rfl⟩
    obtain ⟨i, j, name, hi, hrec, -⟩ := Check.places_of_ofNode hcheck
    have hat := (hof.child hi |>.child hrec).element_at
    exact Fix.asked_replacementFor m _ (Element.all_at ht hat)

/-! ## Passes over a tree -/

namespace Tree

theorem requests_format (t : Tree) (l : Label) (p : Path) :
    (t.format l).root.requests p = Layout.answer (t.root.requests p) := by
  rw [root_format]
  exact Layout.requests_laid l t.root p

theorem format_of_plain {t : Tree} (h : t.root.plain = true) (l : Label) : t.format l = t := by
  rw [format, Layout.format?_of_plain h]

theorem requests_foldl_format (t : Tree) (ls : List Label) (p : Path) :
    (ls.foldl format t).root.requests p = Layout.answer^[ls.length] (t.root.requests p) := by
  induction ls generalizing t with
  | nil => rfl
  | cons l ls ih =>
    rw [List.foldl_cons, ih, requests_format, List.length_cons, Function.iterate_succ_apply]

theorem asked_foldl_format (t : Tree) (ls : List Label) (p : Path) :
    (ls.foldl format t).root.asked p = t.root.asked p - ls.length := by
  induction ls generalizing t with
  | nil => rfl
  | cons l ls ih =>
    have hstep : (t.format l).root.asked p = t.root.asked p - 1 := by
      rw [Element.asked, requests_format, Layout.countP_answer]
      rfl
    rw [List.foldl_cons, ih, hstep, List.length_cons]
    omega

theorem plain_foldl_format_iff (t : Tree) (ls : List Label) :
    (ls.foldl format t).root.plain = true ↔ ∀ p, t.root.asked p ≤ ls.length := by
  rw [Element.plain_iff]
  refine forall_congr' fun p => ?_
  rw [asked_foldl_format]
  omega

/-- Each pass answers the first request on every way down, so one is enough after fixes. -/
theorem format_answers_first (t : Tree) (ls : List Label) :
    (∀ p, (ls.foldl format t).root.requests p =
      Layout.answer^[ls.length] (t.root.requests p)) ∧
    ((ls.foldl format t).root.plain = true ↔ ∀ p, t.root.asked p ≤ ls.length) ∧
    ((∀ p, t.root.asked p ≤ ls.length) →
      ∀ l, (ls.foldl format t).format l = ls.foldl format t) ∧
    (∀ l m ds out, t.root.plain = true → t.fixAll l ds = .ok out →
      (out.tree.format m).root.plain = true ∧
        ∀ l', (out.tree.format m).format l' = out.tree.format m) := by
  refine ⟨requests_foldl_format t ls, plain_foldl_format_iff t ls,
    fun hfew l => format_of_plain ((plain_foldl_format_iff t ls).2 hfew) l, ?_⟩
  intro l m ds out ht hout
  have hplain : (out.tree.format m).root.plain = true :=
    (plain_foldl_format_iff out.tree [m]).2 (asked_of_fixAll ht hout)
  exact ⟨hplain, format_of_plain hplain⟩

end Tree

namespace Sample

def lineCheck (receiver : Element) : Element :=
  let led (leading : String) (kind : Kind) (text : String) : Element :=
    .token { label := [], kind, text, leading, trailing := " " }
  .make [] .ifStatement
    [led "\n" .ifKeyword "if", token .openParen "(",
      .make [] .memberAccessExpression
        [receiver, token .dot ".", token .identifier cancellationFlag],
      token .closeParen ")",
      .make [] .throwStatement [led "  " .throwKeyword "throw", token .semicolon ";"]]

def nested : Tree :=
  { root := .make [] .compilationUnit
      [lineCheck (block [lineCheck (token .identifier "ct")])] }

end Sample

/-- After two fixes, the second around the first, one pass leaves a request. -/
theorem Sample.format_nested :
    ∃ inner both, Sample.nested.fixAt [0] 9 = .ok inner ∧ inner.fixAt [1] 1 = .ok both ∧
      (both.format [2]).root.plain = false ∧
      ((both.format [2]).format [3]).source ≠ (both.format [2]).source := by
  have hrun : (((Sample.nested.fixAt [0] 9).bind (·.fixAt [1] 1)).toOption.any fun both =>
      !(both.format [2]).root.plain &&
        ((both.format [2]).format [3]).source ≠ (both.format [2]).source) = true := by
    decide +kernel
  obtain ⟨both, hboth, htest⟩ := (Option.any_eq_true _ _).1 hrun
  cases hinner : Sample.nested.fixAt [0] 9 with
  | error e =>
    rw [hinner] at hboth
    cases hboth
  | ok inner =>
    rw [hinner, Except.bind] at hboth
    cases hfixed : inner.fixAt [1] 1 with
    | error e =>
      rw [hfixed] at hboth
      cases hboth
    | ok found =>
      rw [hfixed] at hboth
      cases hboth
      simp only [Bool.and_eq_true, Bool.not_eq_true', decide_eq_true_eq] at htest
      exact ⟨inner, both, rfl, hfixed, htest⟩

end CancellationLint
