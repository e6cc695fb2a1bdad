import CancellationLint.Proofs.RelatedCursors
import CancellationLint.Proofs.Locate

/-! # Scopes of two trees in step

Scopes in step declare the same names in the same order. Which locals of a block are declared before a
use is a matter of offsets; around the receiver of a member access it comes down to their place among
the statements of the block. -/

namespace CancellationLint

/-! ## Declarations -/

/-- The same declaration in two trees. -/
def Scope.Declaration.Pair (R : Cursor → Cursor → Prop) (d d' : Declaration) : Prop :=
  R d.name d'.name ∧ Option.Rel R d.type d'.type

namespace InStep

open Cursor Scope

variable {R : Cursor → Cursor → Prop} (hR : InStep R) {c c' : Cursor}

include hR

theorem declarators (h : R c c') (hkind : c.kind = .variableDeclaration) :
    List.Forall₂ (Declaration.Pair R) (declarators c) (declarators c') := by
  have halign := hR.aligned h (by simp [hkind])
  have hname : ∀ d d' : Cursor, R d d' ∧ d.kind = .variableDeclarator → Option.Rel R
      (d.children.find? (·.kind = .identifier)) (d'.children.find? (·.kind = .identifier)) := by
    rintro d d' ⟨hd, hk⟩
    exact rel_imp (fun _ _ hn => hn.1) (rel_find?
      (fun x x' hx => hR.kind_test hx (by decide) (by decide))
      (hR.aligned hd (by simp [hk])).children)
  have hnames := List.rel_filterMap hname (hR.nodesOfKind halign (by decide) (by decide))
  refine List.rel_map (fun d d' hd => ⟨hd, ?_⟩) hnames
  rw [List.head?_eq_getElem?, List.head?_eq_getElem?]
  exact rel_getElem? 0 halign.children

theorem variableDeclarations (h : Aligned R c c') :
    List.Forall₂ (Declaration.Pair R) (variableDeclarations c) (variableDeclarations c') := by
  have hfound := rel_find? (p := (·.kind = .variableDeclaration)) (q := (·.kind = .variableDeclaration))
    (fun d d' hd => hR.kind_test hd.1 (by decide) (by decide)) (hR.childNodes h)
  refine List.rel_flatMap (forall₂_toList hfound) ?_
  rintro d d' ⟨⟨hd, -⟩, hk⟩
  exact hR.declarators hd (of_decide_eq_true hk)

theorem localDeclarations (h : Aligned R c c') {use use' : Nat}
    (hstop : ∀ i d d', c.childAt? i = some d → c'.childAt? i = some d' →
      (d'.span.stop ≤ use' ↔ d.span.stop ≤ use)) :
    List.Forall₂ (Declaration.Pair R) (localDeclarations use c) (localDeclarations use' c') := by
  have hnodes := forall₂_filter (fun _ _ hd => hR.isNode_eq hd.1) h.children_at
  refine List.rel_flatMap hnodes ?_
  rintro d d' ⟨⟨hd, i, hi, hi'⟩, -⟩
  simp only [hR.kind_test hd (k := .localDeclarationStatement) (by decide) (by decide),
    hstop i d d' hi hi']
  by_cases hkind : d.kind = .localDeclarationStatement
  · split
    · exact hR.variableDeclarations (hR.aligned hd (by simp [hkind]))
    · exact .nil
  · simp [hkind]

theorem isPart_eq (h : R c c') : isPart c' = isPart c := by
  unfold isPart
  rw [hR.kind_test h (by decide) (by decide), hR.kind_test h (by decide) (by decide),
    hR.isNode_eq h]
  cases hnode : c.isNode with
  | true => simp
  | false => rw [hR.text_eq h hnode]

theorem parts (h : Aligned R c c') : List.Forall₂ R (parts c) (parts c') := by
  have htake := forall₂_takeWhile
    (p := fun d : Cursor => !(d.kind = .equals || d.kind = .equalsValueClause))
    (q := fun d : Cursor => !(d.kind = .equals || d.kind = .equalsValueClause))
    (fun d _ d' hd => by
      rw [hR.kind_test hd (by decide) (by decide), hR.kind_test hd (by decide) (by decide)])
    h.children
  exact (forall₂_filter (fun d d' hd => hR.isPart_eq hd) htake).imp fun _ _ hd => hd.1

theorem listed (h : Aligned R c c') {k : Kind} (hif : k ≠ .ifStatement)
    (hcall : k ≠ .expressionStatement) :
    List.Forall₂ (fun d d' => R d d' ∧ d.isNode = true) (listed k c) (listed k c') := by
  refine List.rel_flatMap (hR.nodesOfKind h hif hcall) ?_
  rintro d d' ⟨hd, hk⟩
  exact hR.childNodes (hR.aligned hd (by rwa [hk]))

theorem implicitParameters (h : Aligned R c c')
    (harrow : ∀ d ∈ upTo (·.text = "=>") c.children, ∀ d', R d d' →
      (d'.text = "=>" ↔ d.text = "=>")) :
    List.Forall₂ (Declaration.Pair R) (implicitParameters c) (implicitParameters c') := by
  have htake := forall₂_takeWhile (p := fun d : Cursor => d.text ≠ "=>")
    (q := fun d : Cursor => d.text ≠ "=>")
    (fun d hd d' hdd => by
      rw [decide_eq_decide]
      exact not_congr (harrow d (by simpa using hd) d' hdd)) h.children
  refine List.rel_map (fun d d' hd => ⟨hd.1, Option.Rel.none⟩) (forall₂_filter (fun d d' hd => ?_) htake)
  rw [hR.kind_test hd (by decide) (by decide), hR.kind_test hd (by decide) (by decide)]

theorem parameterDeclarations (h : R c c') (hif : c.kind ≠ .ifStatement)
    (harrow : c.kind = .lambdaExpression → ∀ d ∈ upTo (·.text = "=>") c.children, ∀ d', R d d' →
      (d'.text = "=>" ↔ d.text = "=>")) :
    List.Forall₂ (Declaration.Pair R) (parameterDeclarations c) (parameterDeclarations c') := by
  have halign := hR.aligned h hif
  have hlist := hR.listed halign (k := .parameterList) (by decide) (by decide)
  have hparams := forall₂_filter (p := (·.kind = .parameter)) (q := (·.kind = .parameter))
    (fun d d' hd => hR.kind_test hd.1 (by decide) (by decide)) hlist
  refine List.rel_append ?_ (List.rel_flatMap hparams ?_)
  · simp only [hR.kind_iff h (show Kind.lambdaExpression ≠ _ by decide) (by decide)]
    split
    · exact hR.implicitParameters halign (harrow ‹_›)
    · exact .nil
  · rintro d d' ⟨⟨hd, -⟩, hk⟩
    have hkind : d.kind = .parameter := of_decide_eq_true hk
    have hparts := List.rel_reverse (hR.parts (hR.aligned hd (by simp [hkind])))
    simp only
    generalize (Scope.parts d).reverse = ps at hparts ⊢
    generalize (Scope.parts d').reverse = ps' at hparts ⊢
    cases hparts with
    | nil => exact .nil
    | cons hname hrest =>
      refine .cons ⟨hname, ?_⟩ .nil
      rw [List.head?_eq_getElem?, List.head?_eq_getElem?]
      exact rel_getElem? 0 hrest

theorem ofMember (h : R c c') : List.Forall₂ (Declaration.Pair R) (ofMember c) (ofMember c') := by
  unfold Scope.ofMember
  simp only [hR.kind_iff h (show Kind.fieldDeclaration ≠ _ by decide) (by decide),
    hR.kind_iff h (show Kind.propertyDeclaration ≠ _ by decide) (by decide)]
  split
  · rename_i hkind
    exact hR.variableDeclarations (hR.aligned h (by simp [hkind]))
  split
  · rename_i hkind
    have hparts := hR.parts (hR.aligned h (by simp [hkind]))
    generalize Scope.parts c = ps at hparts
    generalize Scope.parts c' = ps' at hparts
    cases hparts with
    | nil => exact .nil
    | cons htype hrest =>
      cases hrest with
      | nil => exact .nil
      | cons hname => exact .cons ⟨hname, .some htype⟩ .nil
  · exact .nil

theorem memberDeclarations (h : Aligned R c c') :
    List.Forall₂ (Declaration.Pair R) (memberDeclarations c) (memberDeclarations c') :=
  List.rel_flatMap (hR.listed h (by decide) (by decide)) fun _ _ hd => hR.ofMember hd.1

/-- Kinds are told apart by the kinds that are neither of an if statement nor of a call. -/
theorem kindTest_eq (h : R c c') {p : Kind → Bool} (hif : p .ifStatement = false)
    (hcall : p .expressionStatement = false) : p c'.kind = p c.kind := by
  by_cases hk : c'.kind = .ifStatement ∨ c'.kind = .expressionStatement
  · by_cases hk' : c.kind = .ifStatement ∨ c.kind = .expressionStatement
    · rcases hk with hk | hk <;> rcases hk' with hk' | hk' <;> simp [hk, hk', hif, hcall]
    · rw [not_or] at hk'
      rw [(hR.kind_iff h hk'.1 hk'.2).2 rfl]
  · rw [not_or] at hk
    rw [(hR.kind_iff h hk.1 hk.2).1 rfl]

theorem declarations (h : R c c') {use use' : Nat}
    (hstop : c.kind = .block → ∀ i d d', c.childAt? i = some d → c'.childAt? i = some d' →
      (d'.span.stop ≤ use' ↔ d.span.stop ≤ use))
    (harrow : c.kind = .lambdaExpression → ∀ d ∈ upTo (·.text = "=>") c.children, ∀ d', R d d' →
      (d'.text = "=>" ↔ d.text = "=>")) :
    List.Forall₂ (Declaration.Pair R) (declarations use c) (declarations use' c') := by
  unfold Scope.declarations
  rw [hR.kindTest_eq h (p := Kind.hasParameters) rfl rfl,
    hR.kindTest_eq h (p := Kind.isTypeDeclaration) rfl rfl]
  simp only [hR.kind_iff h (show Kind.block ≠ _ by decide) (by decide)]
  split
  · rename_i hkind
    exact hR.localDeclarations (hR.aligned h (by simp [hkind])) (hstop hkind)
  have hif : c.kind.hasParameters = true ∨ c.kind.isTypeDeclaration = true →
      c.kind ≠ .ifStatement := by
    rintro hor hk
    simp [hk, Kind.hasParameters, Kind.isTypeDeclaration] at hor
  split
  · rename_i hparams
    exact hR.parameterDeclarations h (hif (Or.inl hparams)) harrow
  split
  · rename_i htype
    exact List.rel_append (hR.parameterDeclarations h (hif (Or.inr htype)) harrow)
      (hR.memberDeclarations (hR.aligned h (hif (Or.inr htype))))
  · exact .nil

end InStep

theorem Scope.told_eq {R : Cursor → Cursor → Prop} {ds ds' : List Declaration} {name name' : String}
    (h : List.Forall₂ (Declaration.Pair R) ds ds')
    (hname : ∀ d ∈ upTo (·.names name) ds, ∀ n', R d.name n' → (n'.text = name' ↔ d.name.text = name))
    (htype : ∀ d ∈ ds, ∀ x ∈ d.type, ∀ x', R x x' →
      TypeName.ofDeclared? x'.text = TypeName.ofDeclared? x.text) :
    told name' ds' = told name ds := by
  have hfound := rel_find?_upTo (p := (·.names name)) (q := (·.names name'))
    (fun d hd d' hdd => by
      unfold Declaration.names
      rw [decide_eq_decide]
      exact hname d hd d'.name hdd.1) h
  refine map_eq_of_rel (fun d hd d' hpair => ?_) hfound
  exact bind_eq_of_rel (htype d (List.mem_of_find?_eq_some hd)) hpair.1.2

/-! ## Scopes around a use -/

namespace Cursor

theorem span_within {c : Cursor} (hc : c.element.sound = true) :
    c.offset ≤ c.span.start ∧ c.span.start ≤ c.span.stop ∧ c.span.stop ≤ c.fullSpan.stop := by
  have hw := Element.width_eq hc
  rw [Element.fullText_split, String.utf8ByteSize_append, String.utf8ByteSize_append] at hw
  rw [span_eq hc]
  simp only [fullSpan, text]
  omega

end Cursor

namespace Cursor

variable {root : Element} {c d : Cursor}

theorem isNode_of_mem_children (h : d ∈ c.children) : c.isNode = true := by
  obtain ⟨i, hi⟩ := mem_children_iff.1 h
  exact isNode_of_childAt hi

theorem Of.of_mem_children (hc : Of root c) (h : d ∈ c.children) : Of root d := by
  obtain ⟨i, hi⟩ := mem_children_iff.1 h
  exact hc.child hi

theorem Of.of_mem_childNodes (hc : Of root c) (h : d ∈ c.childNodes) :
    Of root d ∧ d.isNode = true :=
  ⟨hc.of_mem_children (List.mem_of_mem_filter h), (List.mem_filter.1 h).2⟩

theorem Of.of_mem_listed {k : Kind} (hc : Of root c) (h : d ∈ Scope.listed k c) :
    Of root d ∧ d.isNode = true := by
  obtain ⟨list, hlist, hd⟩ := List.mem_flatMap.1 h
  exact (hc.of_mem_childNodes (List.mem_of_mem_filter hlist)).1.of_mem_childNodes hd

end Cursor

/-- A member access: its receiver stands first, and a name that is not empty follows. -/
structure Scope.Use (root : Element) (access receiver : Cursor) : Prop where
  of : Cursor.Of root access
  kind : access.kind = .memberAccessExpression
  first : access.childAt? 0 = some receiver
  named : ∃ j name, 0 < j ∧ access.childAt? j = some name ∧ name.text ≠ ""

theorem Scope.Use.stop_le_iff {root : Element} {access receiver s d : Cursor} {i j : Nat} {p : Path}
    (h : Use root access receiver) (hroot : root.sound = true) (hs : Cursor.Of root s)
    (hat : Cursor.at? (i :: p) s = some access) (hd : s.childAt? j = some d) :
    d.span.stop ≤ receiver.span.start ↔ j < i := by
  obtain ⟨m, name, hm, hname, htext⟩ := h.named
  obtain ⟨x, hx, hat⟩ := Option.bind_eq_some_iff.1 hat
  have hxs := (hs.child hx).sound hroot
  have hrecAt : Cursor.at? (p ++ [0]) x = some receiver := by
    simp [Cursor.at?_append, hat, Cursor.at?, h.first]
  have hnameAt : Cursor.at? (p ++ [m]) x = some name := by
    simp [Cursor.at?_append, hat, Cursor.at?, hname]
  have hnamed : name.element.tokens ≠ [] := by
    intro hnil
    rw [Cursor.text, Element.text_eq, hnil] at htext
    exact htext rfl
  have hsize : 0 < name.text.utf8ByteSize := by
    rw [Nat.pos_iff_ne_zero]
    simpa using htext
  -- The receiver starts before the name ends, and both lie in the statement at `i`.
  have hrec := Cursor.span_within ((h.of.child h.first).sound hroot)
  have hnext := Cursor.stop_le_offset h.first hname hm
  have hspan := Cursor.span_eq ((h.of.child hname).sound hroot)
  have hlt : receiver.span.start < name.span.stop := by
    rw [hspan]
    simp only
    omega
  have hrecIn := Cursor.fullSpan_at hxs hrecAt
  have hnameIn := Cursor.span_at hxs hnameAt hnamed
  have hxw := Cursor.span_within hxs
  have hdw := Cursor.span_within ((hs.child hd).sound hroot)
  rcases Nat.lt_trichotomy j i with hji | rfl | hij
  · have := Cursor.stop_le_offset hd hx hji
    omega
  · obtain rfl : x = d := Option.some.inj (hx.symm.trans hd)
    omega
  · have := Cursor.stop_le_offset hx hd hij
    omega

namespace Scope

/-- The receiver and the access declare nothing. -/
theorem Use.visible_eq {root : Element} {access receiver : Cursor} (h : Use root access receiver)
    (hkind : receiver.kind = .identifier) :
    visible receiver = (Cursor.onFrames access.above).flatMap (declarations receiver.span.start) := by
  have haccess : declarations receiver.span.start access = [] := by
    simp [declarations, h.kind, Kind.hasParameters, Kind.isTypeDeclaration]
  have hreceiver : declarations receiver.span.start receiver = [] := by
    simp [declarations, hkind, Kind.hasParameters, Kind.isTypeDeclaration]
  unfold visible Cursor.enclosing
  rw [Cursor.onFrames_childAt h.first]
  split <;> simp [haccess, hreceiver]

end Scope

namespace Cursor

theorem text_firstFrom (e : Element) (offset : Nat) (above : List Frame) :
    (firstFrom offset above e).map text = e.tokens.head?.map Token.text := by
  induction e generalizing offset above with
  | token t => rfl
  | node g es ih =>
    rw [firstFrom, Element.tokens_node]
    generalize Cursor.mk (.node g es) offset above = parent
    generalize 0 = k
    induction es generalizing k offset with
    | nil => rfl
    | cons e es ihs =>
      have he := ih e (by simp) offset (parent.frames k)
      have hes := ihs (fun d hd => ih d (by simp [hd])) (offset + e.width) (k + 1)
      rw [firstAmong, List.flatMap_cons, List.head?_append]
      cases hfirst : firstFrom offset (parent.frames k) e with
      | some found =>
        rw [hfirst] at he
        cases hhead : e.tokens.head? with
        | some t => simpa [hhead] using he
        | none => simp [hhead] at he
      | none =>
        rw [hfirst, Option.map_none] at he
        rw [Option.map_eq_none_iff.1 he.symm, Option.none_or]
        exact hes

theorem expression_of_identifier {c : Cursor} (hkind : c.kind = .identifier) :
    (∃ token, c.expression = .identifier token ∧ token.text = c.text ∧
      c.element.tokens.head?.map Token.text = some c.text) ∨
    (c.expression = .other c ∧ c.element.tokens.head?.map Token.text ≠ some c.text) := by
  have hfirst := text_firstFrom c.element c.offset c.above
  change c.firstToken?.map text = _ at hfirst
  rw [← hfirst]
  unfold expression
  rw [hkind]
  simp only
  cases hnode : c.isNode with
  | false =>
    left
    obtain ⟨e, offset, above⟩ := c
    cases e with
    | token t => exact ⟨_, rfl, rfl, rfl⟩
    | node g es => cases hnode
  | true =>
    rw [if_pos rfl]
    cases c.firstToken? with
    | none => simp
    | some token =>
      by_cases htext : c.text = token.text
      · simp [htext]
      · simp [htext, Ne.symm htext]

end Cursor

namespace Scope

def isThis (c : Cursor) : Bool := c.kind = .thisExpression || c.kind = .thisKeyword

theorem oracle_of_identifier {c : Cursor} (hkind : c.kind = .identifier) :
    oracle c = if c.element.tokens.head?.map Token.text = some c.text then resolve c.text c
      else none := by
  unfold oracle
  rcases Cursor.expression_of_identifier hkind with ⟨token, hexpr, htext, hfirst⟩ | ⟨hexpr, hfirst⟩
  · rw [hexpr, if_pos hfirst, ← htext]
  · rw [hexpr, if_neg hfirst]

theorem expression_of_isThis {c : Cursor} (h : isThis c = true) : c.expression = .this c := by
  simp only [isThis, Bool.or_eq_true, decide_eq_true_eq] at h
  unfold Cursor.expression
  rcases h with h | h <;> rw [h]

theorem isThis_of_expression {c e : Cursor} (h : c.expression = .this e) : isThis c = true := by
  unfold Cursor.expression at h
  split at h
  · split at h <;> cases h
  · repeat' split at h
    all_goals cases h
  · rename_i hkind
    simp [isThis, hkind]
  · rename_i hkind
    simp [isThis, hkind]
  · cases h

theorem oracle_of_memberAccess {c : Cursor} (hkind : c.kind = .memberAccessExpression)
    (hnode : c.isNode = true) :
    oracle c = if c.receiver?.any isThis then
        (c.memberName?.map Cursor.text).bind fun name =>
          ((c.enclosing.find? (·.kind.isTypeDeclaration)).bind (members name)).join
      else none := by
  have hexpr : c.expression = .memberAccess c := by simp [Cursor.expression, hkind, hnode]
  unfold oracle
  rw [hexpr]
  simp only
  cases c.receiver? with
  | none => rfl
  | some d =>
    cases hthis : isThis d with
    | true =>
      rw [Option.map_some, expression_of_isThis hthis]
      cases c.memberName? with
      | none => simp
      | some name => simp [hthis]
    | false =>
      have hother : ∀ e, d.expression ≠ .this e := by
        intro e he
        rw [isThis_of_expression he] at hthis
        cases hthis
      simp only [Option.map_some, Option.any_some, hthis, Bool.false_eq_true, if_false]
      split
      · rename_i e _ heq _
        exact absurd (Option.some.inj heq) (hother e)
      · rfl

theorem oracle_eq_none {c : Cursor} (hid : c.kind ≠ .identifier)
    (haccess : c.kind = .memberAccessExpression → c.isNode = false) : oracle c = none := by
  have hexpr : c.expression = .this c ∨ c.expression = .other c := by
    unfold Cursor.expression
    split
    · simp [haccess ‹_›]
    · contradiction
    all_goals simp
  unfold oracle
  rcases hexpr with h | h <;> rw [h]

end Scope

namespace InStep

open Cursor Scope

variable {R : Cursor → Cursor → Prop} (hR : InStep R) {c c' : Cursor}

include hR

theorem visible {a b : Element} {access access' : Cursor} (huse : Use a access c)
    (huse' : Use b access' c') (ha : a.sound = true) (hb : b.sound = true)
    (hof : ∀ s s', R s s' → Of a s ∧ Of b s')
    (habove : List.Forall₂ (fun s s' => R s s' ∧
        ∃ i p, at? (i :: p) s = some access ∧ at? (i :: p) s' = some access')
      (onFrames access.above) (onFrames access'.above))
    (harrow : ∀ s ∈ onFrames access.above, s.kind = .lambdaExpression →
      ∀ d ∈ upTo (·.text = "=>") s.children, ∀ d', R d d' → (d'.text = "=>" ↔ d.text = "=>"))
    (h : R c c') (hkind : c.kind = .identifier) :
    List.Forall₂ (Declaration.Pair R) (visible c) (visible c') := by
  rw [huse.visible_eq hkind, huse'.visible_eq ((hR.kind_iff h (by decide) (by decide)).2 hkind)]
  refine List.rel_flatMap ((List.forall₂_and_left _ _).2 ⟨fun _ hs => hs, habove⟩) ?_
  rintro s s' ⟨hs, hss, i, p, hp, hp'⟩
  refine hR.declarations hss (fun _ j d d' hd hd' => ?_) (harrow s hs)
  rw [huse.stop_le_iff ha (hof s s' hss).1 hp hd, huse'.stop_le_iff hb (hof s s' hss).2 hp' hd']

theorem isThis_eq (h : R c c') : isThis c' = isThis c := by
  unfold isThis
  rw [hR.kind_test h (by decide) (by decide), hR.kind_test h (by decide) (by decide)]

/-- Expressions in step have the same type, if names do and if members of `this` do. -/
theorem oracle_eq (h : R c c') (henclosing : List.Forall₂ R c.enclosing c'.enclosing)
    (hname : c.kind = .identifier → oracle c' = oracle c)
    (hmember : c.kind = .memberAccessExpression → c.isNode = true → c.receiver?.any isThis = true →
      ∀ n n' s s', c.memberName? = some n → R n n' →
        c.enclosing.find? (·.kind.isTypeDeclaration) = some s → R s s' →
        members n'.text s' = members n.text s) : oracle c' = oracle c := by
  by_cases hkind : c.kind = .identifier
  · exact hname hkind
  have hid := hR.kind_iff h (show Kind.identifier ≠ _ by decide) (by decide)
  have hmem := hR.kind_iff h (show Kind.memberAccessExpression ≠ _ by decide) (by decide)
  by_cases haccess : c.kind = .memberAccessExpression ∧ c.isNode = true
  · obtain ⟨hkind, hnode⟩ := haccess
    have halign := hR.aligned h (by simp [hkind])
    rw [oracle_of_memberAccess hkind hnode,
      oracle_of_memberAccess (hmem.2 hkind) ((hR.isNode_eq h).trans hnode),
      any_eq_of_rel (fun _ _ hd => hR.isThis_eq hd) halign.receiver]
    split
    · rename_i hthis
      have htype := rel_find? (p := (·.kind.isTypeDeclaration)) (q := (·.kind.isTypeDeclaration))
        (fun s s' hs => hR.kindTest_eq hs rfl rfl) henclosing
      rw [Option.bind_map, Option.bind_map]
      refine bind_eq_of_rel (fun n hn n' hnn => ?_) halign.memberName
      refine congrArg Option.join (bind_eq_of_rel (fun s hs s' hss => ?_) htype)
      exact hmember hkind hnode hthis n n' s s' hn hnn hs hss.1
    · rfl
  · have hnone : c.kind = .memberAccessExpression → c.isNode = false :=
      fun hk => Bool.eq_false_iff.2 fun hn => haccess ⟨hk, hn⟩
    rw [oracle_eq_none hkind hnone, oracle_eq_none (mt hid.1 hkind)]
    intro hk
    rw [hR.isNode_eq h, hnone (hmem.1 hk)]

end InStep

namespace Check

theorem use_of_ofNode {root : Element} {c : Cursor} {check : Check} (hc : Cursor.Of root c)
    (h : ofNode c = .ok check) : Scope.Use root check.access check.receiver := by
  obtain ⟨i, j, name, hi, hfirst, hj, hname, htext⟩ := places_of_ofNode h
  obtain ⟨-, -, haccess, -⟩ := ofNode_eq_ok_iff.1 h
  refine ⟨hc.child hi, (access?_eq_some haccess).2.2, hfirst, j, name, hj, hname, ?_⟩
  rw [htext]
  decide

theorem isSome_flagged_eq {R : Cursor → Cursor → Prop} {c c' : Cursor}
    (h : Option.Rel (fun k k' => R k.access k'.access ∧ R k.receiver k'.receiver ∧ R k.body k'.body)
      (ofNode c).toOption (ofNode c').toOption)
    (horacle : ∀ k k', ofNode c = .ok k → ofNode c' = .ok k' → R k.access k'.access →
      R k.receiver k'.receiver → Scope.oracle k'.receiver = Scope.oracle k.receiver) :
    (flagged? Scope.oracle c').isSome = (flagged? Scope.oracle c).isSome := by
  unfold flagged?
  cases hcheck : ofNode c with
  | error m =>
    cases hcheck' : ofNode c' with
    | error m' => rfl
    | ok check' =>
      rw [hcheck, hcheck'] at h
      cases h
  | ok check =>
    cases hcheck' : ofNode c' with
    | error m' =>
      rw [hcheck, hcheck'] at h
      cases h
    | ok check' =>
      rw [hcheck, hcheck'] at h
      cases h with
      | some hparts =>
        simp only [horacle check check' hcheck hcheck' hparts.1 hparts.2.1]
        split <;> rfl

end Check
end CancellationLint
