import CancellationLint.Proofs.OuterTrivia
import CancellationLint.Proofs.Plan

/-! # A tree and the tree after its fixes

The two have the same shape, but for the places where a check gave way to a call. What the rest of the
tree is asked for stays: kinds, errors, and the texts of elements without if statements in them. -/

namespace CancellationLint

theorem flatMap_eq_of_getElem? {α β γ : Type} {as : List α} {bs : List β} {f : α → List γ}
    {g : β → List γ} (hlen : bs.length = as.length)
    (h : ∀ (i : Nat) (a : α) (b : β), as[i]? = some a → bs[i]? = some b → f a = g b) :
    as.flatMap f = bs.flatMap g := by
  have hmap : as.map f = bs.map g := by
    refine List.ext_getElem (by simp [hlen]) fun i hi hi' => ?_
    rw [List.length_map] at hi hi'
    rw [List.getElem_map, List.getElem_map]
    exact h i _ _ (List.getElem?_eq_getElem hi) (List.getElem?_eq_getElem hi')
  rw [List.flatMap_def, List.flatMap_def, hmap]

/-- A check, and the call that took its place. -/
structure Call (old new : Element) : Prop where
  old_isNode : old.isNode = true
  old_kind : old.kind = .ifStatement
  old_hasError : old.hasError = false
  old_text : 2 < old.text.utf8ByteSize
  new_isNode : new.isNode = true
  new_kind : new.kind = .expressionStatement
  new_hasError : new.hasError = false
  new_text : 2 < new.text.utf8ByteSize
  new_ifFree : new.ifFree = true
  new_sound : new.sound = true

theorem Call.of_retrimmed {old new new' : Element} (h : Call old new)
    (hnew : Element.Retrimmed new new') : Call old new' where
  __ := h
  new_isNode := hnew.isNode_eq.trans h.new_isNode
  new_kind := hnew.kind_eq.trans h.new_kind
  new_hasError := hnew.hasError_eq.trans h.new_hasError
  new_text := hnew.text_eq ▸ h.new_text
  new_ifFree := hnew.ifFree_eq.trans h.new_ifFree
  new_sound := hnew.sound

theorem Call.withReformat {old new : Element} (h : Call old new) (l : Label)
    (request : Option Reformat) :
    Call old (new.withReformat l request) ∧ (new.withReformat l request).reformat = request := by
  cases new with
  | token t => cases h.new_isNode
  | node g es =>
    have htext := h.new_text
    have hfree := h.new_ifFree
    have hsound := Element.sound_withReformat (l := l) (r := request) h.new_sound
    rw [Element.text_eq, Element.tokens_node] at htext
    rw [Element.ifFree_node_iff] at hfree
    rw [Element.withReformat] at hsound ⊢
    refine ⟨{ h with new_text := ?_, new_ifFree := ?_, new_sound := hsound }, rfl⟩
    · rwa [Element.text_eq, Element.tokens_node]
    · rwa [Element.ifFree_node_iff]

theorem text_callStatement (l : Label) (receiver : Element) :
    2 < (Fix.callStatement l receiver).text.utf8ByteSize := by
  obtain ⟨t, hat, htext⟩ : ∃ t, (Fix.callStatement l receiver).at? [0, 0, 2] = some t ∧
      t.text = throwMethod := ⟨_, rfl, rfl⟩
  have hle := Element.text_size_at hat
  have hsize : 2 < throwMethod.utf8ByteSize := by decide
  rw [htext] at hle
  omega

theorem sound_callStatement (l : Label) {receiver : Element} (h : receiver.sound = true) :
    (Fix.callStatement l receiver).sound = true :=
  Fix.all_callStatement (fun _ => rfl) Element.fits_make l h

theorem hasError_callStatement (l : Label) {receiver : Element} (h : receiver.hasError = false) :
    (Fix.callStatement l receiver).hasError = false := by
  have hmissing : ∀ t : Token, (Element.token t).hasError = t.missing := fun _ => rfl
  have hmake : ∀ m kind es, (Element.make m kind es).hasError =
      (decide (kind = .error) || es.any Element.hasError) := fun _ _ _ => rfl
  simp [Fix.callStatement, hmake, hmissing, h]

theorem call_of_check {root : Element} {check : Check} (l : Label) (indent : Option String)
    (hroot : root.sound = true) (hof : Cursor.Of root check.statement)
    (hcheck : Check.ofNode check.statement = .ok check)
    (hfree : check.receiver.element.ifFree = true) :
    Call check.statement.element (Fix.replacementFor l check indent) ∧
      (Fix.replacementFor l check indent).reformat = some { indent } := by
  have hsound := hof.sound hroot
  obtain ⟨⟨hnode, hkind⟩, herr, -⟩ := Check.ofNode_eq_ok_iff.1 hcheck
  obtain ⟨i, j, name, hi, hrec, -⟩ := Check.places_of_ofNode hcheck
  have hat : check.statement.element.at? [i, 0] = some check.receiver.element :=
    Element.at?_cons_iff.2 ⟨_, Cursor.element_childAt hi,
      Element.at?_cons_iff.2 ⟨_, Cursor.element_childAt hrec, rfl⟩⟩
  have htext : 2 < check.statement.element.text.utf8ByteSize :=
    lt_of_lt_of_le (by decide) (Check.flag_le_text hcheck)
  have hcall : Call check.statement.element
      (Fix.callStatement (l.sub 0) check.receiver.element) :=
    { old_isNode := hnode
      old_kind := hkind
      old_hasError := herr
      old_text := htext
      new_isNode := rfl
      new_kind := rfl
      new_hasError := hasError_callStatement _ 
        (Element.hasError_at (Element.showsErrors_of_sound hsound) herr hat)
      new_text := text_callStatement _ _
      new_ifFree := by simp [Fix.callStatement, Element.make, Element.ifFree_node_iff, hfree]
      new_sound := sound_callStatement _ (Element.all_at hsound hat) }
  unfold Fix.replacementFor
  refine Call.withReformat ?_ l _
  split
  · exact hcall.of_retrimmed (Element.retrimmed_withTrailing _ _ hcall.new_sound)
  · have hled := hcall.of_retrimmed
      (Element.retrimmed_withLeading (l.sub 1) check.body.element.leading hcall.new_sound)
    exact hled.of_retrimmed (Element.retrimmed_withTrailing _ _ hled.new_sound)

/-! ## Trees of the same shape -/

namespace Element

def plain (e : Element) : Bool := e.all fun x => x.reformat.isNone

theorem plain_node_iff {h : Head} {es : List Element} :
    (Element.node h es).plain = true ↔ h.reformat = none ∧ ∀ e ∈ es, e.plain = true := by
  rw [plain, all_node_iff, reformat, Option.isNone_iff_eq_none]
  rfl

/-- Whether nothing inside of the element asks for a layout. The element itself may. -/
def settled (e : Element) : Bool := e.children.all plain

theorem settled_of_plain {e : Element} (h : e.plain = true) : e.settled = true := by
  cases e with
  | token t => rfl
  | node g es => exact List.all_eq_true.2 (plain_node_iff.1 h).2

end Element

/-- The second element is the first one with calls for the checks at the paths in `cut`, as they
are when they ask for their layout (`asked`), or after some layout. -/
inductive Mended (asked : Bool) : (Path → Prop) → Element → Element → Prop
  | token {cut : Path → Prop} {t t' : Token} : ¬ cut [] → t'.kind = t.kind → t'.text = t.text →
    t'.missing = t.missing → Mended asked cut (.token t) (.token t')
  | call {cut : Path → Prop} {old new : Element} : cut [] → Call old new →
    (asked = true → new.reformat.isSome = true) → Mended asked cut old new
  | node {cut : Path → Prop} {h h' : Head} {es es' : List Element} : ¬ cut [] →
    h'.kind = h.kind → h'.hasError = h.hasError → (asked = true → h'.reformat = h.reformat) →
    es'.length = es.length →
    (∀ i e e', es[i]? = some e → es'[i]? = some e' → Mended asked (fun p => cut (i :: p)) e e') →
    ((∀ p x, (Element.node h es).at? p = some x → ¬ cut p) →
      asked = true ∨ (Element.node h es).settled = true →
      (Element.node h' es').text = (Element.node h es).text) →
    Mended asked cut (.node h es) (.node h' es')

namespace Mended

theorem refl {asked : Bool} {cut : Path → Prop} (hcut : ∀ p, ¬ cut p) (e : Element) :
    Mended asked cut e e := by
  induction e generalizing cut with
  | token t => exact token (hcut []) rfl rfl rfl
  | node h es ih =>
    refine node (hcut []) rfl rfl (fun _ => rfl) rfl (fun i e e' he he' => ?_) fun _ _ => rfl
    obtain rfl : e = e' := Option.some.inj (he.symm.trans he')
    exact ih e (List.mem_of_getElem? he) fun p => hcut (i :: p)

variable {asked : Bool} {cut : Path → Prop} {e e' : Element}

theorem isNode_eq (h : Mended asked cut e e') : e'.isNode = e.isNode := by
  cases h with
  | token => rfl
  | call _ hcall => rw [hcall.new_isNode, hcall.old_isNode]
  | node => rfl

theorem hasError_eq (h : Mended asked cut e e') : e'.hasError = e.hasError := by
  cases h with
  | token _ _ _ hmissing => exact hmissing
  | call _ hcall => rw [hcall.new_hasError, hcall.old_hasError]
  | node _ _ herr => exact herr

theorem kind_eq (h : Mended asked cut e e') (hcut : ¬ cut []) : e'.kind = e.kind := by
  cases h with
  | token _ hkind => exact hkind
  | call hat => exact absurd hat hcut
  | node _ hkind => exact hkind

theorem kind_eq_iff (h : Mended asked cut e e') {kind : Kind} (hif : kind ≠ .ifStatement)
    (hcall : kind ≠ .expressionStatement) : e'.kind = kind ↔ e.kind = kind := by
  cases h with
  | token _ hkind => rw [show (Element.token _).kind = _ from hkind]; rfl
  | call _ hc =>
    rw [hc.new_kind, hc.old_kind]
    exact ⟨fun h => absurd h.symm hcall, fun h => absurd h.symm hif⟩
  | node _ hkind => rw [show (Element.node _ _).kind = _ from hkind]; rfl

theorem not_cut_of_kind (h : Mended asked cut e e') (hkind : e.kind ≠ .ifStatement) : ¬ cut [] := by
  cases h with
  | token hcut => exact hcut
  | call _ hc => exact absurd hc.old_kind hkind
  | node hcut => exact hcut

theorem child (h : Mended asked cut e e') (hcut : ¬ cut []) {i : Nat} {d d' : Element}
    (hd : e.children[i]? = some d) (hd' : e'.children[i]? = some d') :
    Mended asked (fun p => cut (i :: p)) d d' := by
  cases h with
  | token => cases hd
  | call hat => exact absurd hat hcut
  | node _ _ _ _ _ hall => exact hall i d d' hd hd'

theorem length_children (h : Mended asked cut e e') (hcut : ¬ cut []) :
    e'.children.length = e.children.length := by
  cases h with
  | token => rfl
  | call hat => exact absurd hat hcut
  | node _ _ _ _ hlen => exact hlen

/-! ### Texts -/

theorem not_cut_of_ifFree (h : Mended asked cut e e') (hfree : e.ifFree = true) {p : Path}
    {x : Element} (hx : e.at? p = some x) : ¬ cut p := by
  induction h generalizing p with
  | token hcut =>
    cases p with
    | nil => exact hcut
    | cons i p => cases hx
  | @call cut old new _ hc =>
    cases old with
    | token t => cases hc.old_isNode
    | node g es => exact absurd hc.old_kind (Element.ifFree_node_iff.1 hfree).1
  | node hcut _ _ _ hlen _ _ ih =>
    cases p with
    | nil => exact hcut
    | cons i p =>
      obtain ⟨d, hd, hx⟩ := Element.at?_cons_iff.1 hx
      have hi := (List.getElem?_eq_some_iff.1 hd).1
      exact ih i d _ hd (List.getElem?_eq_getElem (hlen ▸ hi))
        ((Element.ifFree_node_iff.1 hfree).2 d (List.mem_of_getElem? hd)) hx

theorem text_eq (h : Mended asked cut e e') (hcut : ∀ p x, e.at? p = some x → ¬ cut p)
    (hsettled : asked = true ∨ e.settled = true) : e'.text = e.text := by
  cases h with
  | token _ _ htext => exact htext
  | call hat => exact absurd hat (hcut [] _ rfl)
  | node _ _ _ _ _ _ htext => exact htext hcut hsettled

theorem words_eq (h : Mended asked cut e e') (hcut : ∀ p x, e.at? p = some x → ¬ cut p) :
    e'.tokens.map Token.text = e.tokens.map Token.text := by
  induction h with
  | token _ _ htext => simp [Element.tokens, htext]
  | call hat => exact absurd hat (hcut [] _ rfl)
  | node _ _ _ _ hlen _ _ ih =>
    rw [Element.tokens_node, Element.tokens_node, List.map_flatMap, List.map_flatMap]
    refine (flatMap_eq_of_getElem? hlen fun i d d' hd hd' => Eq.symm ?_).symm
    refine ih i d d' hd hd' fun p x hx => hcut (i :: p) x ?_
    exact Element.at?_cons_iff.2 ⟨d, hd, hx⟩

/-- Where a check gave way there is some text, before and after. -/
theorem lt_size_of_cut (h : Mended asked cut e e') {p : Path} {x : Element}
    (hx : e.at? p = some x) (hp : cut p) : 2 < e.text.utf8ByteSize ∧ 2 < e'.text.utf8ByteSize := by
  induction h generalizing p with
  | token hcut =>
    cases p with
    | nil => exact absurd hp hcut
    | cons i p => cases hx
  | call _ hc => exact ⟨hc.old_text, hc.new_text⟩
  | @node cut g g' es es' hcut _ _ _ hlen _ _ ih =>
    cases p with
    | nil => exact absurd hp hcut
    | cons i p =>
      obtain ⟨d, hd, hx⟩ := Element.at?_cons_iff.1 hx
      have hi := (List.getElem?_eq_some_iff.1 hd).1
      have hd' := List.getElem?_eq_getElem (hlen ▸ hi)
      obtain ⟨hold, hnew⟩ := ih i d _ hd hd' hx hp
      have hat : (Element.node g es).at? [i] = some d := Element.at?_cons_iff.2 ⟨d, hd, rfl⟩
      have hat' : (Element.node g' es').at? [i] = some _ := Element.at?_cons_iff.2 ⟨_, hd', rfl⟩
      exact ⟨lt_of_lt_of_le hold (Element.text_size_at hat),
        lt_of_lt_of_le hnew (Element.text_size_at hat')⟩

theorem text_eq_or (h : Mended asked cut e e') (hsettled : asked = true ∨ e.settled = true) :
    e'.text = e.text ∨ 2 < e.text.utf8ByteSize ∧ 2 < e'.text.utf8ByteSize := by
  by_cases hcut : ∀ p x, e.at? p = some x → ¬ cut p
  · exact .inl (h.text_eq hcut hsettled)
  · push Not at hcut
    obtain ⟨p, x, hx, hp⟩ := hcut
    exact .inr (h.lt_size_of_cut hx hp)

theorem not_ifStatement (h : Mended asked cut e e') {p q : Path} {x : Element} (hq : cut q)
    (hpre : q <+: p) (hx : e'.at? p = some x) (hnode : x.isNode = true) :
    x.kind ≠ .ifStatement := by
  induction h generalizing p q with
  | token hcut =>
    cases q with
    | nil => exact absurd hq hcut
    | cons i q =>
      obtain ⟨r, rfl⟩ := hpre
      cases hx
  | call _ hc =>
    have hfree := Element.test_of_all (Element.all_at hc.new_ifFree hx)
    simpa [hnode] using hfree
  | node hcut _ _ _ hlen _ _ ih =>
    cases q with
    | nil => exact absurd hq hcut
    | cons i q =>
      obtain ⟨r, rfl⟩ := hpre
      rw [List.cons_append] at hx
      obtain ⟨d', hd', hx⟩ := Element.at?_cons_iff.1 hx
      have hi' := (List.getElem?_eq_some_iff.1 hd').1
      have hd := List.getElem?_eq_getElem (hlen ▸ hi')
      exact ih i _ d' hd hd' hq (List.prefix_append q r) hx

theorem congr {cut' : Path → Prop} (hcut : ∀ p, cut p ↔ cut' p) (h : Mended asked cut e e') :
    Mended asked cut' e e' := by
  rw [← show cut = cut' from funext fun p => propext (hcut p)]
  exact h

/-! ## Fixing -/

theorem put {root new x : Element} {p : Path} {l : Label} (h : Mended asked cut root e)
    (hsound : e.sound = true) (hp : ∀ q, cut q → Path.Apart q p) (hx : root.at? p = some x)
    (hcall : Call x new) (hasked : asked = true → new.reformat.isSome = true)
    (hput : Element.put? l new p e = some e') : Mended asked (fun q => cut q ∨ q = p) root e' := by
  -- What was cut before is apart from `p`, so the way down `p` meets no call.
  induction p generalizing root e e' cut l with
  | nil =>
    cases hx
    cases hput
    exact call (Or.inr rfl) hcall hasked
  | cons i p ih =>
    obtain ⟨g', es', old', child', rfl, hold', hchild', rfl⟩ := Element.put?_cons_iff.1 hput
    cases h with
    | call hcut => exact absurd List.nil_prefix (hp [] hcut).1
    | @node _ g _ es _ hcut hkind herr href hlen hall _ =>
      obtain ⟨d, hd, hx'⟩ := Element.at?_cons_iff.1 hx
      have hi := (List.getElem?_eq_some_iff.1 hold').1
      have hdold := hall i d old' hd hold'
      have hsound' : old'.sound = true := Element.all_of_mem hsound (List.mem_of_getElem? hold')
      have hdchild := ih hdold hsound'
        (fun q hq => (Path.apart_cons_iff i q p).1 (hp (i :: q) hq)) hx' hchild'
      have hsame : child'.hasError = old'.hasError := by
        rw [hdchild.hasError_eq, hdold.hasError_eq]
      refine node (by simp [hcut]) hkind ?_ href (by simp [hlen]) (fun j a b ha hb => ?_)
        fun hnone => absurd (.inr rfl) (hnone (i :: p) x hx)
      · rw [Element.hasError_swap (Element.showsErrors_of_sound hsound) hold' hsame, herr]
      · by_cases hij : i = j
        · subst hij
          rw [List.getElem?_set_self hi] at hb
          cases hb
          obtain rfl : d = a := Option.some.inj (hd.symm.trans ha)
          exact hdchild.congr fun q => by simp
        · rw [List.getElem?_set_ne hij] at hb
          exact (hall j a b ha hb).congr fun q => by simp [Ne.symm hij]

theorem applyAll {t s t' : Tree} {fixes : List Fix} {l : Label} {i : Nat}
    (h : Mended true cut t.root s.root) (hsound : s.root.sound = true)
    (hpaths : fixes.Pairwise fun a b => Path.Precedes a.path b.path)
    (hcut : ∀ fix ∈ fixes, ∀ q, cut q → Path.Apart q fix.path)
    (hat : ∀ fix ∈ fixes, t.root.at? fix.path = some fix.target)
    (hcall : ∀ fix ∈ fixes, Call fix.target fix.replacement ∧
      fix.replacement.reformat.isSome = true)
    (happ : FixAll.applyAll l i s fixes = .ok t') :
    Mended true (fun p => cut p ∨ p ∈ fixes.map Fix.path) t.root t'.root ∧
      t'.root.sound = true := by
  induction fixes generalizing s cut i with
  | nil =>
    cases happ
    exact ⟨h.congr fun p => by simp, hsound⟩
  | cons fix rest ih =>
    obtain ⟨hfirst, hrest⟩ := List.pairwise_cons.1 hpaths
    obtain ⟨hfix, hasked⟩ := hcall fix (by simp)
    obtain ⟨-, root, hroot, hnext⟩ := FixAll.applyAll_cons_eq_ok happ
    have hmended := h.put hsound (hcut fix (by simp)) (hat fix (by simp)) hfix (fun _ => hasked) hroot
    have hsoundNext : root.sound = true := Element.sound_put hsound hfix.new_sound hroot
    -- The next fix is apart from the places cut so far, this one included.
    obtain ⟨hall, hlast⟩ := ih hmended hsoundNext hrest
      (fun f hf q hq => by
        rcases hq with hq | rfl
        · exact hcut f (by simp [hf]) q hq
        · exact (hfirst f hf).apart)
      (fun f hf => hat f (by simp [hf])) (fun f hf => hcall f (by simp [hf])) hnext
    exact ⟨hall.congr fun p => by simp [or_assoc], hlast⟩

end Mended
end CancellationLint
