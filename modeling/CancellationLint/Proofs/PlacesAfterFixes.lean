import CancellationLint.Proofs.RelatedCursors
import CancellationLint.Proofs.MendedTree

/-! # The same place before and after fixes

Cursors at one path of a tree and of the tree after its fixes. As long as the path leads through no
check that gave way, the two see the same: each has its children and its enclosing nodes paired with
those of the other, and the questions that the rule asks of them have the same answers. -/

namespace CancellationLint

/-! ## What the rule reads -/

/-- The parts of a node whose text the rule reads. -/
def Scope.readParts (c : Cursor) : List Cursor :=
  match c.kind with
  | .identifier => [c]
  | .memberAccessExpression =>
    match c.receiver?.map Cursor.expression with
    | some (.this _) => [c]
    | _ => c.memberName?.toList
  | .parameter => (parts c).reverse.take 2
  | .variableDeclaration => c.children.take 1
  | .propertyDeclaration => (parts c).take 2
  | .lambdaExpression => c.children.filter (·.kind = .other "implicit_parameter")
  | _ => []

def Element.plainNames (root : Element) : Bool :=
  (Cursor.ofRoot root).nodes.all fun c => (Scope.readParts c).all fun part => part.element.ifFree

theorem Scope.ifFree_of_read {root : Element} {c part : Cursor} (hplain : root.plainNames = true)
    (hc : Cursor.Of root c) (hnode : c.isNode = true) (hpart : part ∈ readParts c) :
    part.element.ifFree = true := by
  have hall := List.all_eq_true.1 hplain c (Cursor.mem_nodes_ofRoot.2 ⟨hnode, hc⟩)
  exact List.all_eq_true.1 hall part hpart

theorem Cursor.ifFree_of_token {c : Cursor} (h : c.isNode = false) : c.element.ifFree = true := by
  obtain ⟨e, offset, above⟩ := c
  cases e with
  | token t => rfl
  | node g es => cases h

/-- The children of a lambda up to the arrow, which are read in the search for it. -/
def Scope.upToArrow (c : Cursor) : List Cursor :=
  if c.kind = .lambdaExpression then upTo (·.text = "=>") c.children else []

def Element.settledNames (root : Element) : Bool :=
  (Cursor.ofRoot root).nodes.all fun c =>
    (Scope.readParts c ++ Scope.upToArrow c).all fun part => part.element.settled

/-- A tree and the tree after fixes at the paths in `cut`, or after a layout too. -/
structure Repair where
  old : Element
  new : Element
  cut : Path → Prop
  asked : Bool
  mended : Mended asked cut old new
  old_sound : old.sound = true
  new_sound : new.sound = true
  plain : old.plainNames = true
  settled : asked = true ∨ old.settledNames = true

namespace Repair

def Keeps (r : Repair) (e : Element) : Prop :=
  e.ifFree = true ∧ (r.asked = true ∨ e.settled = true)

/-- Cursors at the same place, not inside of a check that gave way. -/
inductive Twin (r : Repair) : Cursor → Cursor → Prop
  | root : Twin r (.ofRoot r.old) (.ofRoot r.new)
  | child {c c' d d' : Cursor} {i : Nat} : Twin r c c' → ¬ r.cut c.path →
    c.childAt? i = some d → c'.childAt? i = some d' → Twin r d d'

variable {r : Repair} {c c' : Cursor}

theorem settled_of_mem (hc : Cursor.Of r.old c) (hnode : c.isNode = true) {part : Cursor}
    (hpart : part ∈ Scope.readParts c ++ Scope.upToArrow c) :
    r.asked = true ∨ part.element.settled = true := by
  refine r.settled.imp_right fun hsettled => ?_
  have hall := List.all_eq_true.1 hsettled c (Cursor.mem_nodes_ofRoot.2 ⟨hnode, hc⟩)
  exact List.all_eq_true.1 hall part hpart

theorem keeps_of_read {part : Cursor} (hc : Cursor.Of r.old c) (hnode : c.isNode = true)
    (hpart : part ∈ Scope.readParts c) : r.Keeps part.element :=
  ⟨Scope.ifFree_of_read r.plain hc hnode hpart,
    settled_of_mem hc hnode (List.mem_append_left _ hpart)⟩

theorem keeps_token (t : Token) : r.Keeps (.token t) := ⟨rfl, .inr rfl⟩

theorem Keeps.child {e d : Element} (h : r.Keeps e) {i : Nat} (hd : e.children[i]? = some d) :
    r.Keeps d := by
  cases e with
  | token t => cases hd
  | node g es =>
    have hmem := List.mem_of_getElem? hd
    refine ⟨(Element.ifFree_node_iff.1 h.1).2 d hmem, h.2.imp_right fun hsettled => ?_⟩
    exact Element.settled_of_plain (List.all_eq_true.1 hsettled d hmem)

namespace Twin

theorem paired_iff : r.Twin c c' ↔ Cursor.Paired r.old r.new (¬ r.cut ·) c c' := by
  constructor
  · intro h
    induction h with
    | root => exact .root
    | child _ hcut hd hd' ih => exact ih.child hcut hd hd'
  · intro h
    induction h with
    | root => exact .root
    | child _ hcut hd hd' ih => exact ih.child hcut hd hd'

theorem path_eq (h : r.Twin c c') : c'.path = c.path := (paired_iff.1 h).path_eq

theorem of_old (h : r.Twin c c') : Cursor.Of r.old c := (paired_iff.1 h).of_left

theorem of_new (h : r.Twin c c') : Cursor.Of r.new c' := (paired_iff.1 h).of_right

theorem mended (h : r.Twin c c') :
    Mended r.asked (fun p => r.cut (c.path ++ p)) c.element c'.element := by
  induction h with
  | root => exact r.mended
  | child _ hcut hd hd' ih =>
    have hchild := ih.child (by simpa using hcut) (Cursor.element_childAt hd)
      (Cursor.element_childAt hd')
    rw [Cursor.path_childAt hd]
    exact hchild.congr fun p => by simp

theorem isNode_eq (h : r.Twin c c') : c'.isNode = c.isNode := h.mended.isNode_eq

theorem hasError_eq (h : r.Twin c c') : c'.hasError = c.hasError := h.mended.hasError_eq

theorem kind_eq (h : r.Twin c c') (hcut : ¬ r.cut c.path) : c'.kind = c.kind :=
  h.mended.kind_eq (by simpa using hcut)

theorem kind_eq_iff (h : r.Twin c c') {k : Kind} (hif : k ≠ .ifStatement)
    (hcall : k ≠ .expressionStatement) : c'.kind = k ↔ c.kind = k :=
  h.mended.kind_eq_iff hif hcall

theorem not_cut (h : r.Twin c c') (hkind : c.kind ≠ .ifStatement) : ¬ r.cut c.path := by
  simpa using h.mended.not_cut_of_kind hkind

theorem text_eq (h : r.Twin c c') (hkeeps : r.Keeps c.element) : c'.text = c.text :=
  h.mended.text_eq (fun _ _ hx => h.mended.not_cut_of_ifFree hkeeps.1 hx) hkeeps.2

theorem text_of_token (h : r.Twin c c') (hnode : c.isNode = false) : c'.text = c.text := by
  refine h.text_eq ?_
  obtain ⟨e, offset, above⟩ := c
  cases e with
  | token t => exact keeps_token t
  | node g es => cases hnode

theorem text_eq_iff (h : r.Twin c c') (hsettled : r.asked = true ∨ c.element.settled = true)
    {s : String} (hs : s.utf8ByteSize ≤ 2) : c'.text = s ↔ c.text = s := by
  unfold Cursor.text
  rcases h.mended.text_eq_or hsettled with htext | ⟨hold, hnew⟩
  · rw [htext]
  · constructor
    · rintro rfl
      omega
    · rintro rfl
      omega

/-! ### Down and up -/

theorem aligned (h : r.Twin c c') (hcut : ¬ r.cut c.path) : Cursor.Aligned r.Twin c c' := by
  have hlen := h.mended.length_children (by simpa using hcut)
  exact .of_childAt hlen fun _ _ _ hd hd' => h.child hcut hd hd'

theorem above (h : r.Twin c c') :
    List.Forall₂ (fun s s' => r.Twin s s' ∧
        ∃ i p, Cursor.at? (i :: p) s = some c ∧ Cursor.at? (i :: p) s' = some c')
      (Cursor.onFrames c.above) (Cursor.onFrames c'.above) :=
  (paired_iff.1 h).above.imp fun _ _ hs => ⟨paired_iff.2 hs.1.1, hs.2⟩

end Twin

theorem inStep (r : Repair) : InStep r.Twin where
  isNode_eq h := h.isNode_eq
  kind_iff h := h.kind_eq_iff
  text_eq h := h.text_of_token
  aligned h hkind := h.aligned (h.not_cut hkind)

theorem aligned_of_paired (c c' : Cursor) (h : Cursor.Paired r.old r.new (¬ r.cut ·) c c')
    (hcut : ¬ r.cut c.path) :
    Cursor.Aligned (Cursor.Paired r.old r.new (¬ r.cut ·)) c c' :=
  fun i => rel_imp (fun _ _ => Twin.paired_iff.1) ((Twin.paired_iff.2 h).aligned hcut i)

/-- A place that no path in `cut` leads to is there afterwards. -/
theorem exists_twin (hc : Cursor.Of r.old c) (hcut : ∀ q, q <+: c.path → ¬ r.cut q) :
    ∃ c', r.Twin c c' := by
  obtain ⟨c', h⟩ := Cursor.Paired.exists_right aligned_of_paired hc hcut
  exact ⟨c', Twin.paired_iff.2 h⟩

theorem exists_twin_of_new (hc' : Cursor.Of r.new c') (hcut : ∀ q, q <+: c'.path → ¬ r.cut q) :
    ∃ c, r.Twin c c' := by
  obtain ⟨c, h⟩ := Cursor.Paired.exists_left aligned_of_paired hc' hcut
  exact ⟨c, Twin.paired_iff.2 h⟩

end Repair
end CancellationLint
