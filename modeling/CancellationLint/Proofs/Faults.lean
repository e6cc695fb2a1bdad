import CancellationLint.Proofs.Lossless
import CancellationLint.Proofs.Shape

/-! # Errors of the grammar in the tree

A node of the syntax tree is in error if the concrete node that it was built from, or one in it, was
made up or is an error with children. An error without children becomes a token like any other, and
leaves no mark. -/

namespace CancellationLint

theorem Kind.ofName_eq_error_iff {name : String} : Kind.ofName name = .error ↔ name = "ERROR" := by
  constructor
  · intro h
    unfold ofName at h
    split at h
    · cases h
    · cases hfind : known.find? fun kind => kind.name = name with
      | none =>
        rw [hfind] at h
        cases h
      | some kind =>
        rw [hfind, Option.getD_some] at h
        have hname := List.find?_some hfind
        rw [h] at hname
        exact (of_decide_eq_true hname).symm
  · rintro rfl
    decide

namespace Concrete

mutual

def any (test : Concrete → Bool) : Concrete → Bool
  | .node h children => test (.node h children) || anyOf test children

def anyOf (test : Concrete → Bool) : List Concrete → Bool
  | [] => false
  | c :: rest => c.any test || anyOf test rest

end

theorem anyOf_iff {test : Concrete → Bool} {cs : List Concrete} :
    anyOf test cs = true ↔ ∃ c ∈ cs, c.any test = true := by
  induction cs with
  | nil => simp [anyOf]
  | cons c cs ih => simp [anyOf, ih]

theorem any_node_iff {test : Concrete → Bool} {h : ConcreteHead} {cs : List Concrete} :
    (Concrete.node h cs).any test = true ↔
      test (.node h cs) = true ∨ ∃ c ∈ cs, c.any test = true := by
  rw [any, Bool.or_eq_true, anyOf_iff]

/-! ## Faults -/

/-- Whether the node itself is an error, or was made up. -/
def isFault (c : Concrete) : Bool := c.head.error || c.head.missing

/-- Whether the node is an error that has no children and was not made up. -/
def isBare (c : Concrete) : Bool := c.head.error && !c.head.missing && c.children.isEmpty

def isShown (c : Concrete) : Bool := c.head.missing || c.head.error && !c.children.isEmpty

theorem isFault_iff (c : Concrete) :
    c.isFault = true ↔ c.isShown = true ∨ c.isBare = true := by
  unfold isFault isShown isBare
  cases c.head.error <;> cases c.head.missing <;> cases c.children.isEmpty <;> simp

theorem any_isFault_iff (c : Concrete) :
    c.any isFault = true ↔ c.any isShown = true ∨ c.any isBare = true := by
  induction c using induction with
  | node h children ih =>
    simp only [any_node_iff, isFault_iff]
    constructor
    · rintro ((hs | hb) | ⟨c, hc, hfault⟩)
      · exact Or.inl (Or.inl hs)
      · exact Or.inr (Or.inl hb)
      · exact ((ih c hc).1 hfault).imp (fun h => Or.inr ⟨c, hc, h⟩) fun h => Or.inr ⟨c, hc, h⟩
    · rintro ((hs | ⟨c, hc, hs⟩) | (hb | ⟨c, hc, hb⟩))
      · exact Or.inl (Or.inl hs)
      · exact Or.inr ⟨c, hc, (ih c hc).2 (Or.inl hs)⟩
      · exact Or.inl (Or.inr hb)
      · exact Or.inr ⟨c, hc, (ih c hc).2 (Or.inr hb)⟩

theorem any_isFault_eq {c : Concrete} (h : c.any isBare = false) :
    c.any isFault = c.any isShown := by
  rw [Bool.eq_iff_iff, any_isFault_iff, h]
  simp

mutual

/-- The kind is that of errors exactly for errors, and the flag tells of a fault in the node. -/
def honest : Concrete → Bool
  | .node h children =>
    h.error = decide (h.kind = "ERROR") && h.hasError = any isFault (.node h children) &&
      allHonest children

def allHonest : List Concrete → Bool
  | [] => true
  | c :: rest => c.honest && allHonest rest

end

theorem allHonest_iff {cs : List Concrete} :
    allHonest cs = true ↔ ∀ c ∈ cs, c.honest = true := by
  induction cs with
  | nil => simp [allHonest]
  | cons c cs ih => simp [allHonest, ih]

theorem honest_node_iff {h : ConcreteHead} {cs : List Concrete} :
    (Concrete.node h cs).honest = true ↔ (h.error = true ↔ h.kind = "ERROR") ∧
      h.hasError = any isFault (.node h cs) ∧ ∀ c ∈ cs, c.honest = true := by
  rw [honest, Bool.and_eq_true, Bool.and_eq_true, decide_eq_true_eq, decide_eq_true_eq,
    allHonest_iff, and_assoc, Bool.eq_iff_iff, decide_eq_true_eq]

theorem not_shown_of_isTrivia {c : Concrete} (hc : c.honest = true)
    (h : c.head.isTrivia = true) : c.any isShown = false := by
  obtain ⟨head, children⟩ := c
  obtain ⟨-, hflag, -⟩ := honest_node_iff.1 hc
  simp only [ConcreteHead.isTrivia, Concrete.head, hflag, Bool.and_eq_true,
    Bool.not_eq_true'] at h
  by_contra hshown
  have hfault := (any_isFault_iff _).2 (Or.inl (by simpa using hshown))
  rw [h.2] at hfault
  cases hfault

/-! ## Where elements come from -/

def solid (children : List Concrete) : List Concrete := children.filter fun c => !c.head.isTrivia

/-- The node that the element at the end of a path is built from. -/
def origin? : Path → Concrete → Option Concrete
  | [], c => some c
  | i :: p, c => (solid c.children)[i]?.bind (origin? p)

theorem exists_solid_shown_iff {cs : List Concrete} (hcs : ∀ c ∈ cs, c.honest = true) :
    (∃ c ∈ solid cs, c.any isShown = true) ↔ ∃ c ∈ cs, c.any isShown = true := by
  constructor
  · rintro ⟨c, hc, hshown⟩
    exact ⟨c, List.mem_of_mem_filter hc, hshown⟩
  · rintro ⟨c, hc, hshown⟩
    refine ⟨c, List.mem_filter.2 ⟨hc, ?_⟩, hshown⟩
    by_contra htrivia
    rw [not_shown_of_isTrivia (hcs c hc) (by simpa using htrivia)] at hshown
    cases hshown

/-- The element has the kind of the node, and is in error exactly if a fault is shown in it. -/
structure ShownBy (c : Concrete) (e : Element) : Prop where
  kind : e.kind = .ofName c.head.kind
  isNode : e.isNode = true ↔ c.children ≠ []
  hasError : e.hasError = true ↔ c.any isShown = true

def Mirrored (c : Concrete) (e : Element) : Prop :=
  ∀ p x, e.at? p = some x → ∃ n, c.origin? p = some n ∧ n.ShownBy x

theorem Mirrored.shownBy {c : Concrete} {e : Element} (h : c.Mirrored e) : c.ShownBy e := by
  obtain ⟨n, hn, hshown⟩ := h [] e rfl
  cases hn
  exact hshown

theorem any_hasError_of_mirrored {cs : List Concrete} {es : List Element}
    (h : List.Forall₂ Mirrored cs es) :
    es.any Element.hasError = true ↔ ∃ c ∈ cs, c.any isShown = true := by
  induction h with
  | nil => simp
  | cons hfirst _ ih => simp [← hfirst.shownBy.hasError, ih]

theorem exists_origin_of_mirrored {head : ConcreteHead} {children : List Concrete}
    {es : List Element} (h : List.Forall₂ Mirrored (solid children) es) {i : Nat} {p : Path}
    {e x : Element} (hi : es[i]? = some e) (hx : e.at? p = some x) :
    ∃ n, (Concrete.node head children).origin? (i :: p) = some n ∧ n.ShownBy x := by
  obtain ⟨hlen, hget⟩ := List.forall₂_iff_get.1 h
  obtain ⟨hlt, rfl⟩ := List.getElem?_eq_some_iff.1 hi
  have hmirrored := hget i (hlen ▸ hlt) hlt
  obtain ⟨n, hn, hshown⟩ := hmirrored p x hx
  refine ⟨n, ?_, hshown⟩
  rw [origin?, Concrete.children, List.getElem?_eq_getElem (hlen ▸ hlt)]
  exact hn

/-! ## Tokens -/

def sign (t : Token) : Kind × Bool := (t.kind, t.missing)

def leafSign (leaf : ConcreteHead) : Kind × Bool := (.ofName leaf.kind, leaf.missing)

theorem sign_shareTrivia (previous : Option Token) (gap : List Char) :
    (shareTrivia previous gap).1.map sign = previous.toList.map sign := by
  cases previous <;> rfl

theorem sign_attach {previous : Option Token} {offset : Nat} {rest : List Char}
    {leaves : List ConcreteHead} {ts : List Token}
    (h : attach previous offset rest leaves = some ts) :
    ts.map sign = previous.toList.map sign ++ (leaves.map leafSign ++ [(.endOfFile, false)]) := by
  induction leaves generalizing previous offset rest ts with
  | nil =>
    cases h
    simp [sign_shareTrivia, sign]
  | cons leaf leaves ih =>
    rw [attach] at h
    simp only [Option.bind_eq_some_iff, Option.map_eq_some_iff] at h
    obtain ⟨gap, -, covered, -, others, hothers, rfl⟩ := h
    rw [List.map_append, sign_shareTrivia, ih hothers]
    simp [sign, leafSign]

/-! ## Building -/

theorem hasError_marked (mark : Bool) (l : Label) (kind : Kind) (es : List Element) :
    (marked mark (.make l kind es)).hasError = true ↔
      mark = true ∨ kind = .error ∨ es.any Element.hasError = true := by
  cases mark <;> simp [marked, Element.make, Element.markError, Element.hasError]

theorem kind_marked (mark : Bool) (l : Label) (kind : Kind) (es : List Element) :
    (marked mark (.make l kind es)).kind = kind := by
  cases mark <;> rfl

theorem children_marked (mark : Bool) (l : Label) (kind : Kind) (es : List Element) :
    (marked mark (.make l kind es)).children = es := by
  cases mark <;> rfl

theorem isNode_marked (mark : Bool) (l : Label) (kind : Kind) (es : List Element) :
    (marked mark (.make l kind es)).isNode = true := by
  cases mark <;> rfl

/-- The tokens of its leaves make an element that mirrors the node; trivia makes none. -/
def Builds (c : Concrete) : Prop :=
  ∀ (l : Label) (ts rest : List Token), ts.map sign = c.leaves.map leafSign →
    (c.head.isTrivia = true → (assemble l (ts ++ rest) c).1 = none) ∧
      (c.head.isTrivia = false → ∃ e, (assemble l (ts ++ rest) c).1 = some e ∧ c.Mirrored e)

theorem mirrored_assembleAll {cs : List Concrete} (h : ∀ c ∈ cs, c.Builds) (l : Label) (i : Nat)
    (ts rest : List Token) (hts : ts.map sign = (leavesOf cs).map leafSign) :
    List.Forall₂ Mirrored (solid cs) (assembleAll l i (ts ++ rest) cs).1 := by
  induction cs generalizing i ts with
  | nil => exact List.Forall₂.nil
  | cons c cs ih =>
    rw [leavesOf, List.map_append] at hts
    obtain ⟨us, vs, rfl, hus, hvs⟩ := List.map_eq_append_iff.1 hts
    have hlen : us.length = c.leaves.length := by simpa using congrArg List.length hus
    obtain ⟨htrivia, hsolid⟩ := h c (by simp) (l.sub i) us (vs ++ rest) hus
    have hmirrored := ih (fun d hd => h d (by simp [hd])) (i + 1) vs hvs
    rw [assembleAll, List.append_assoc]
    simp only [(takes c (l.sub i) us (vs ++ rest) hlen).1]
    cases hc : c.head.isTrivia with
    | true =>
      rw [htrivia hc, solid, List.filter_cons_of_neg (by simp [hc])]
      exact hmirrored
    | false =>
      obtain ⟨e, he, hmirror⟩ := hsolid hc
      rw [he, solid, List.filter_cons_of_pos (by simp [hc])]
      exact List.Forall₂.cons hmirror hmirrored

theorem builds {c : Concrete} (hc : c.honest = true) : c.Builds := by
  induction c using induction with
  | node h children ih =>
    obtain ⟨hkind, -, hchildren⟩ := honest_node_iff.1 hc
    intro l ts rest hts
    unfold leaves at hts
    unfold assemble
    by_cases htrivia : h.isTrivia = true
    · rw [if_pos htrivia] at hts ⊢
      exact ⟨fun _ => rfl, fun hsolid => by simp [Concrete.head, htrivia] at hsolid⟩
    rw [if_neg htrivia] at hts ⊢
    by_cases hleaf : children.isEmpty = true
    · rw [if_pos hleaf] at hts ⊢
      obtain rfl : children = [] := List.isEmpty_iff.1 hleaf
      obtain ⟨t, us, rfl, ht, hus⟩ := List.map_eq_cons_iff.1 hts
      obtain rfl := List.map_eq_nil_iff.1 hus
      obtain ⟨htkind, htmissing⟩ := Prod.mk.inj ht
      refine ⟨fun hsolid => absurd hsolid htrivia, fun _ => ⟨_, rfl, fun p x hx => ?_⟩⟩
      cases p with
      | nil =>
        cases hx
        exact ⟨_, rfl, htkind, by simp [Element.isNode, Concrete.children],
          by simp [Element.hasError, any, anyOf, isShown, Concrete.head, Concrete.children,
            htmissing]⟩
      | cons i p => cases hx
    · rw [if_neg hleaf] at hts ⊢
      have hmirrored := mirrored_assembleAll (fun c hmem => ih c hmem (hchildren c hmem)) l 0 ts
        rest hts
      refine ⟨fun hsolid => absurd hsolid htrivia, fun _ => ⟨_, rfl, fun p x hx => ?_⟩⟩
      cases p with
      | nil =>
        cases hx
        refine ⟨_, rfl, kind_marked _ _ _ _, ?_, ?_⟩
        · simpa [isNode_marked, Concrete.children] using hleaf
        · -- The kind of an error, and the mark of the grammar, come with a fault that is shown.
          rw [hasError_marked, any_hasError_of_mirrored hmirrored,
            exists_solid_shown_iff hchildren, any_node_iff, Kind.ofName_eq_error_iff, ← hkind]
          simp only [isShown, Concrete.head, Concrete.children, hleaf, Bool.or_eq_true,
            Bool.not_false, Bool.and_true]
          tauto
      | cons i p =>
        obtain ⟨e, hi, hx⟩ := Element.at?_cons_iff.1 hx
        rw [children_marked] at hi
        exact exists_origin_of_mirrored hmirrored hi hx

theorem exists_build {c : Concrete} {l : Label} {source : String} {root : Element}
    (hc : c.honest = true) (h : c.build? l source = some root) :
    ∃ es last, root = marked c.head.error (.make l (.ofName c.head.kind) (es ++ [.token last])) ∧
      last.missing = false ∧ List.Forall₂ Mirrored (solid c.children) es := by
  obtain ⟨head, children⟩ := c
  obtain ⟨-, -, hchildren⟩ := honest_node_iff.1 hc
  rw [build?, Option.map_eq_some_iff] at h
  obtain ⟨ts, hattach, rfl⟩ := h
  have hsigns := sign_attach hattach
  rw [Option.toList_none, List.map_nil, List.nil_append] at hsigns
  obtain ⟨us, vs, rfl, hus, hvs⟩ := List.map_eq_append_iff.1 hsigns
  obtain ⟨last, ws, rfl, hlast, hws⟩ := List.map_eq_cons_iff.1 hvs
  obtain rfl := List.map_eq_nil_iff.1 hws
  have hlen : us.length = (leavesOf children).length := by simpa using congrArg List.length hus
  simp only [(assembleAll_takes (fun c _ => takes c) l 0 us [last] hlen).1, List.map_cons,
    List.map_nil]
  exact ⟨_, _, rfl, (Prod.mk.inj hlast).2,
    mirrored_assembleAll (fun c hmem => builds (hchildren c hmem)) l 0 us [last] hus⟩

theorem hasError_build {c : Concrete} {l : Label} {source : String} {root : Element}
    (hc : c.honest = true) (h : c.build? l source = some root) :
    root.hasError = true ↔ c.head.error = true ∨ anyOf isShown c.children = true := by
  obtain ⟨es, last, rfl, hlast, hmirrored⟩ := exists_build hc h
  obtain ⟨head, children⟩ := c
  obtain ⟨hkind, -, hchildren⟩ := honest_node_iff.1 hc
  rw [Concrete.children] at hmirrored
  rw [hasError_marked, Kind.ofName_eq_error_iff, List.any_append, Bool.or_eq_true,
    any_hasError_of_mirrored hmirrored, exists_solid_shown_iff hchildren, anyOf_iff]
  simp only [Concrete.head, Concrete.children, ← hkind, List.any_cons, List.any_nil,
    Element.hasError, hlast, Bool.or_false, Bool.false_eq_true, or_false]
  tauto

theorem exists_origin_build {c : Concrete} {l : Label} {source : String} {root x : Element}
    {p : Path} (hc : c.honest = true) (h : c.build? l source = some root) (hp : p ≠ [])
    (hx : root.at? p = some x) (hnode : x.isNode = true) :
    ∃ n, c.origin? p = some n ∧ n.ShownBy x := by
  obtain ⟨es, last, rfl, -, hmirrored⟩ := exists_build hc h
  obtain ⟨head, children⟩ := c
  obtain ⟨i, p, rfl⟩ := List.exists_cons_of_ne_nil hp
  obtain ⟨e, hi, hx⟩ := Element.at?_cons_iff.1 hx
  rw [children_marked] at hi
  by_cases hlt : i < es.length
  · rw [List.getElem?_append_left hlt] at hi
    exact exists_origin_of_mirrored hmirrored hi hx
  · -- What is left is the end of the file, which is no node.
    rw [List.getElem?_append_right (by omega)] at hi
    have hlast : e = .token last := by
      cases hsub : i - es.length with
      | zero =>
        rw [hsub] at hi
        exact (Option.some.inj hi).symm
      | succ n =>
        rw [hsub] at hi
        cases hi
    rw [hlast] at hx
    cases p with
    | nil =>
      cases hx
      cases hnode
    | cons j p => cases hx

theorem clean_of_not_shown {n : Concrete} (h : ¬ n.any isShown = true) (hn : n.children ≠ []) :
    n.head.error = false ∧ anyOf isShown n.children = false := by
  obtain ⟨head, children⟩ := n
  rw [any, Bool.or_eq_true, not_or, isShown, Bool.or_eq_true, not_or, Bool.and_eq_true] at h
  obtain ⟨⟨-, herror⟩, hchildren⟩ := h
  refine ⟨?_, Bool.eq_false_of_not_eq_true hchildren⟩
  by_contra herr
  exact herror ⟨by simpa using herr, by simpa using hn⟩

/-- An element is in error exactly if a fault is shown by or in what it was built from. -/
theorem errors_of_build {c : Concrete} {l : Label} {source : String} {root : Element}
    (hc : c.honest = true) (h : c.build? l source = some root) :
    (root.hasError = true ↔ c.head.error = true ∨ anyOf isShown c.children = true) ∧
    (c.any isBare = false → c.head.missing = false →
      (root.hasError = true ↔ c.any isFault = true)) ∧
    (∀ p x, p ≠ [] → root.at? p = some x → x.isNode = true →
      ∃ n, c.origin? p = some n ∧ n.ShownBy x ∧
        (n.any isBare = false → (x.hasError = true ↔ n.any isFault = true))) ∧
    (∀ cursor check, Cursor.Of root cursor → Check.ofNode cursor = .ok check →
      ∃ n, c.origin? cursor.path = some n ∧ n.head.error = false ∧
        anyOf isShown n.children = false) := by
  have hroot := hasError_build hc h
  refine ⟨hroot, ?_, ?_, ?_⟩
  · intro hbare hmissing
    rw [hroot, any_isFault_eq hbare]
    obtain ⟨head, children⟩ := c
    rw [any, Bool.or_eq_false_iff, isBare, hmissing] at hbare
    rw [any, isShown, hmissing, Bool.or_eq_true]
    cases children with
    | nil =>
      have herror : head.error = false := by simpa [Concrete.head, Concrete.children] using hbare.1
      simp [Concrete.head, Concrete.children, herror]
    | cons d ds => simp [Concrete.head, Concrete.children]
  · intro p x hp hx hnode
    obtain ⟨n, hn, hshown⟩ := exists_origin_build hc h hp hx hnode
    refine ⟨n, hn, hshown, fun hbare => ?_⟩
    rw [any_isFault_eq hbare]
    exact hshown.hasError
  · intro cursor check hof hcheck
    obtain ⟨⟨hnode, -⟩, hclean, -⟩ := Check.ofNode_eq_ok_iff.1 hcheck
    have hx := hof.element_at
    have hclean : ¬ cursor.element.hasError = true := Bool.eq_false_iff.1 hclean
    by_cases hp : cursor.path = []
    · rw [hp] at hx ⊢
      cases hx
      rw [hroot, not_or] at hclean
      exact ⟨c, rfl, by simpa using hclean⟩
    · obtain ⟨n, hn, hshown⟩ := exists_origin_build hc h hp hx hnode
      rw [hshown.hasError] at hclean
      exact ⟨n, hn, clean_of_not_shown hclean (hshown.isNode.1 hnode)⟩

end Concrete

theorem Sample.errors_of_tangled :
    Sample.tangled.honest = true ∧
      ∃ root x n, Sample.tangled.build? [] Sample.tangledText = some root ∧
        root.hasError = true ∧ root.at? [2] = some x ∧ Sample.tangled.origin? [2] = some n ∧
        n.head.kind = "ERROR" ∧ x.kind = .error ∧ x.hasError = true := by
  have hhonest : Sample.tangled.honest = true := by decide
  have hrun : ((Sample.tangled.build? [] Sample.tangledText).any fun root =>
      (root.at? [2]).any Element.isNode) = true := by decide +kernel
  obtain ⟨root, hroot, hat⟩ := (Option.any_eq_true _ _).1 hrun
  obtain ⟨x, hx, hnode⟩ := (Option.any_eq_true _ _).1 hat
  obtain ⟨hmark, -, hbelow, -⟩ := Concrete.errors_of_build hhonest hroot
  obtain ⟨n, hn, hshown, -⟩ := hbelow [2] x (by decide) hx hnode
  have hkind := hshown.kind
  have herr := hshown.hasError
  cases hn
  exact ⟨hhonest, root, x, _, hroot, hmark.2 (by decide), hx, rfl, rfl, hkind.trans (by decide),
    herr.2 (by decide)⟩

namespace Sample

def smeared : Concrete :=
  .node { kind := "compilation_unit", start := 0, stop := 38, extra := false, missing := false,
          error := false, hasError := true }
    [.node { kind := "if_statement", start := 0, stop := 38, extra := false, missing := false,
             error := false, hasError := true }
      [leaf "if" 0 2, leaf "(" 2 3,
        .node { kind := "member_access_expression", start := 3, stop := 28, extra := false,
                missing := false, error := false, hasError := false }
          [leaf "identifier" 3 4, leaf "." 4 5, leaf "identifier" 5 28],
        leaf ")" 28 29,
        .node { kind := "throw_statement", start := 29, stop := 38, extra := false,
                missing := false, error := false, hasError := true }
          [leaf "throw" 29 34,
            .node { kind := "ERROR", start := 35, stop := 37, extra := true, missing := false,
                    error := true, hasError := true } [],
            leaf ";" 37 38]]]

def smearedText : String := "if(a.IsCancellationRequested)throw é;"

end Sample

/-- An error without children leaves no mark, and the statement around it is matched. -/
theorem Sample.matched_smeared :
    Sample.smeared.honest = true ∧ Sample.smeared.any Concrete.isFault = true ∧
      ∃ root cursor check, Sample.smeared.build? [] Sample.smearedText = some root ∧
        root.hasError = false ∧ (Cursor.ofRoot root).at? [0] = some cursor ∧
        Check.ofNode cursor = .ok check := by
  have hrun : ((Sample.smeared.build? [] Sample.smearedText).any fun root => !root.hasError &&
      ((Cursor.ofRoot root).at? [0]).any fun cursor =>
        (Check.ofNode cursor).toOption.isSome) = true := by decide +kernel
  obtain ⟨root, hroot, hrun⟩ := (Option.any_eq_true _ _).1 hrun
  rw [Bool.and_eq_true, Bool.not_eq_true'] at hrun
  obtain ⟨cursor, hcursor, hcheck⟩ := (Option.any_eq_true _ _).1 hrun.2
  cases hof : Check.ofNode cursor with
  | error e =>
    rw [hof] at hcheck
    cases hcheck
  | ok check =>
    exact ⟨by decide, by decide, root, cursor, check, hroot, hrun.1, hcursor, hof⟩

end CancellationLint
