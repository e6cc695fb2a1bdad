import CancellationLint.Cursor.Tokens
import CancellationLint.Proofs.Place
import Mathlib.Data.List.Flatten

/-! # Cursors of a tree

The cursors that steps from the root lead to. In a tree there is one for each path, it stands where
the text of its element starts, and the walk over all nodes meets them in the order of their paths. -/

namespace CancellationLint
namespace Cursor

/-- The cursors that child steps lead to from the root. -/
inductive Of (root : Element) : Cursor → Prop
  | root : Of root (ofRoot root)
  | child {c d : Cursor} {i : Nat} : Of root c → c.childAt? i = some d → Of root d

/-! ## Children -/

theorem childAt?_iff {c d : Cursor} {i : Nat} :
    c.childAt? i = some d ↔ ∃ e, c.element.children[i]? = some e ∧
      d = { element := e, offset := c.offset + Element.widthOf (c.element.children.take i),
            above := c.frames i } := by
  rw [childAt?, Option.map_eq_some_iff]
  exact exists_congr fun e => and_congr_right fun _ => eq_comm

theorem path_childAt {c d : Cursor} {i : Nat} (h : c.childAt? i = some d) :
    d.path = c.path ++ [i] := by
  obtain ⟨e, -, rfl⟩ := childAt?_iff.1 h
  simp [path, frames]

theorem onFrames_childAt {c d : Cursor} {i : Nat} (h : c.childAt? i = some d) :
    onFrames d.above = c :: onFrames c.above := by
  obtain ⟨e, -, rfl⟩ := childAt?_iff.1 h
  rfl

theorem element_childAt {c d : Cursor} {i : Nat} (h : c.childAt? i = some d) :
    c.element.children[i]? = some d.element := by
  obtain ⟨e, he, rfl⟩ := childAt?_iff.1 h
  exact he

theorem childrenFrom_getElem? (parent : Cursor) (k offset : Nat) (es : List Element) (i : Nat) :
    (childrenFrom parent k offset es)[i]? = es[i]?.map fun e =>
      { element := e, offset := offset + Element.widthOf (es.take i),
        above := parent.frames (k + i) } := by
  induction es generalizing k offset i with
  | nil => rfl
  | cons e es ih =>
    cases i with
    | zero => rfl
    | succ i =>
      rw [childrenFrom, List.getElem?_cons_succ, ih]
      simp only [List.getElem?_cons_succ, List.take_succ_cons, Element.widthOf]
      rw [show k + 1 + i = k + (i + 1) by omega]
      simp only [Nat.add_assoc]

theorem children_getElem? (c : Cursor) (i : Nat) : c.children[i]? = c.childAt? i := by
  rw [children, childrenFrom_getElem?, childAt?]
  simp

theorem mem_children_iff {c d : Cursor} : d ∈ c.children ↔ ∃ i, c.childAt? i = some d := by
  simp only [List.mem_iff_getElem?, children_getElem?]

theorem length_children (c : Cursor) : c.children.length = c.element.children.length := by
  rw [children]
  generalize c.element.children = es
  have : ∀ k offset, (childrenFrom c k offset es).length = es.length := by
    induction es with
    | nil => intro k offset; rfl
    | cons e es ih => intro k offset; simp [childrenFrom, ih]
  exact this _ _

/-! ## Paths -/

theorem at?_append (p q : Path) (c : Cursor) : at? (p ++ q) c = (at? p c).bind (at? q) := by
  induction p generalizing c with
  | nil => rfl
  | cons i p ih =>
    rw [List.cons_append, at?, at?]
    cases c.childAt? i with
    | none => rfl
    | some d => exact ih d

theorem path_at {p : Path} {c d : Cursor} (h : at? p c = some d) : d.path = c.path ++ p := by
  induction p generalizing c with
  | nil =>
    cases h
    simp
  | cons i p ih =>
    obtain ⟨e, he, hd⟩ := Option.bind_eq_some_iff.1 h
    rw [ih hd, path_childAt he]
    simp

theorem element_at {p : Path} {c d : Cursor} (h : at? p c = some d) :
    c.element.at? p = some d.element := by
  induction p generalizing c with
  | nil =>
    cases h
    rfl
  | cons i p ih =>
    obtain ⟨e, he, hd⟩ := Option.bind_eq_some_iff.1 h
    exact Element.at?_cons_iff.2 ⟨e.element, element_childAt he, ih hd⟩

theorem exists_at {p : Path} {c : Cursor} {x : Element} (h : c.element.at? p = some x) :
    ∃ d, at? p c = some d ∧ d.element = x := by
  induction p generalizing c with
  | nil =>
    cases h
    exact ⟨c, rfl, rfl⟩
  | cons i p ih =>
    obtain ⟨e, he, hx⟩ := Element.at?_cons_iff.1 h
    obtain ⟨child, hi, rfl⟩ : ∃ child, c.childAt? i = some child ∧ child.element = e :=
      ⟨_, childAt?_iff.2 ⟨e, he, rfl⟩, rfl⟩
    obtain ⟨d, hd, hdx⟩ := ih hx
    exact ⟨d, by rw [at?, hi]; exact hd, hdx⟩

theorem Of.at {root : Element} {p : Path} {c d : Cursor} (hc : Of root c) (h : at? p c = some d) :
    Of root d := by
  induction p generalizing c with
  | nil =>
    cases h
    exact hc
  | cons i p ih =>
    obtain ⟨e, he, hd⟩ := Option.bind_eq_some_iff.1 h
    exact ih (hc.child he) hd

theorem Of.at_path {root : Element} {c : Cursor} (hc : Of root c) :
    at? c.path (ofRoot root) = some c := by
  induction hc with
  | root => rfl
  | child _ hd ih =>
    rw [path_childAt hd, at?_append, ih, Option.bind_some]
    simp [at?, hd]

theorem of_iff {root : Element} {c : Cursor} : Of root c ↔ ∃ p, at? p (ofRoot root) = some c :=
  ⟨fun hc => ⟨c.path, hc.at_path⟩, fun ⟨_, h⟩ => Of.root.at h⟩

theorem Of.eq_of_path {root : Element} {c d : Cursor} (hc : Of root c) (hd : Of root d)
    (h : c.path = d.path) : c = d := by
  have := hc.at_path
  rw [h, hd.at_path] at this
  exact (Option.some.inj this).symm

theorem Of.element_at {root : Element} {c : Cursor} (hc : Of root c) :
    root.at? c.path = some c.element :=
  Cursor.element_at hc.at_path

theorem Of.sound {root : Element} {c : Cursor} (hroot : root.sound = true) (hc : Of root c) :
    c.element.sound = true :=
  Element.all_at hroot hc.element_at

/-! ## The nodes above -/

theorem Of.above {root : Element} {c s : Cursor} (hc : Of root c) (hs : s ∈ onFrames c.above) :
    Of root s := by
  induction hc with
  | root => cases hs
  | @child c d i hc hd ih =>
    rw [onFrames_childAt hd, List.mem_cons] at hs
    rcases hs with rfl | hs
    · exact hc
    · exact ih hs

theorem Of.enclosing {root : Element} {c s : Cursor} (hc : Of root c) (hs : s ∈ c.enclosing) :
    Of root s := by
  unfold Cursor.enclosing at hs
  split at hs
  · rcases List.mem_cons.1 hs with rfl | hs
    · exact hc
    · exact hc.above hs
  · exact hc.above hs

theorem Of.root_element {root : Element} {c : Cursor} (hc : Of root c) : c.root.element = root := by
  have hlast : ∀ d : Cursor, Of root d →
      ((onFrames d.above).getLast?.getD d).element = root := by
    intro d hd
    induction hd with
    | root => rfl
    | child _ hd ih =>
      rw [onFrames_childAt hd, List.getLast?_cons]
      exact ih
  exact hlast c hc

/-! ## The walk over all nodes -/

theorem nodesAmong_eq (parent : Cursor) (k offset : Nat) (es : List Element) :
    nodesAmong parent k offset es = (childrenFrom parent k offset es).flatMap nodes := by
  induction es generalizing k offset with
  | nil => rfl
  | cons e es ih =>
    rw [nodesAmong, childrenFrom, List.flatMap_cons, ih]
    rfl

theorem nodes_of_isNode {c : Cursor} (h : c.isNode = true) :
    c.nodes = c :: c.children.flatMap nodes := by
  obtain ⟨e, offset, above⟩ := c
  cases e with
  | token t => cases h
  | node g es => rw [nodes, nodesFrom, nodesAmong_eq]; rfl

theorem nodes_of_not_isNode {c : Cursor} (h : c.isNode = false) : c.nodes = [] := by
  obtain ⟨e, offset, above⟩ := c
  cases e with
  | token t => rfl
  | node g es => cases h

theorem isNode_of_childAt {c d : Cursor} {i : Nat} (h : c.childAt? i = some d) :
    c.isNode = true := by
  have := element_childAt h
  obtain ⟨e, offset, above⟩ := c
  cases e with
  | token t => cases this
  | node g es => rfl

/-- The walk meets exactly the nodes at the ends of paths. -/
theorem mem_nodes_iff {c d : Cursor} :
    d ∈ c.nodes ↔ d.isNode = true ∧ ∃ p, at? p c = some d := by
  obtain ⟨e, offset, above⟩ := c
  induction e generalizing offset above with
  | token t =>
    rw [nodes_of_not_isNode rfl]
    constructor
    · intro h
      cases h
    · rintro ⟨hd, p, hp⟩
      cases p with
      | nil =>
        cases hp
        cases hd
      | cons i p =>
        obtain ⟨x, hx, -⟩ := Option.bind_eq_some_iff.1 hp
        cases isNode_of_childAt hx
  | node g es ih =>
    rw [nodes_of_isNode rfl, List.mem_cons, List.mem_flatMap]
    constructor
    · rintro (rfl | ⟨x, hx, hd⟩)
      · exact ⟨rfl, [], rfl⟩
      · obtain ⟨i, hi⟩ := mem_children_iff.1 hx
        obtain ⟨hnode, p, hp⟩ := (ih x.element (List.mem_of_getElem? (element_childAt hi)) _ _).1 hd
        exact ⟨hnode, i :: p, Option.bind_eq_some_iff.2 ⟨x, hi, hp⟩⟩
    · rintro ⟨hd, p, hp⟩
      cases p with
      | nil =>
        cases hp
        exact Or.inl rfl
      | cons i p =>
        obtain ⟨x, hi, hp⟩ := Option.bind_eq_some_iff.1 hp
        refine Or.inr ⟨x, mem_children_iff.2 ⟨i, hi⟩, ?_⟩
        exact (ih x.element (List.mem_of_getElem? (element_childAt hi)) _ _).2 ⟨hd, p, hp⟩

theorem mem_nodes_ofRoot {root : Element} {c : Cursor} :
    c ∈ (ofRoot root).nodes ↔ c.isNode = true ∧ Of root c := by
  rw [mem_nodes_iff, of_iff]

theorem pairwise_flatMap_children {c : Cursor} {f : Cursor → List Cursor}
    (hbelow : ∀ x, ∀ d ∈ f x, ∃ p, at? p x = some d)
    (h : ∀ x ∈ c.children, (f x).Pairwise fun a b => Path.Before a.path b.path) :
    (c.children.flatMap f).Pairwise fun a b => Path.Before a.path b.path := by
  rw [List.pairwise_flatMap]
  refine ⟨h, ?_⟩
  rw [List.pairwise_iff_getElem]
  intro i j hi hj hij a ha b hb
  obtain ⟨p, hp⟩ := hbelow _ a ha
  obtain ⟨q, hq⟩ := hbelow _ b hb
  have hx := (children_getElem? _ i).symm.trans (List.getElem?_eq_getElem hi)
  have hy := (children_getElem? _ j).symm.trans (List.getElem?_eq_getElem hj)
  rw [path_at hp, path_at hq, path_childAt hx, path_childAt hy, List.append_assoc,
    List.append_assoc]
  have hpart : Path.Precedes ([i] ++ p) ([j] ++ q) := Or.inl hij
  exact ⟨(hpart.append_left c.path).le, (hpart.append_left c.path).ne⟩

/-- The walk follows the order of paths and meets no path twice. -/
theorem pairwise_nodes (c : Cursor) :
    c.nodes.Pairwise fun a b => Path.Before a.path b.path := by
  obtain ⟨e, offset, above⟩ := c
  induction e generalizing offset above with
  | token t =>
    rw [nodes_of_not_isNode rfl]
    exact List.Pairwise.nil
  | node g es ih =>
    rw [nodes_of_isNode rfl, List.pairwise_cons]
    refine ⟨?_, pairwise_flatMap_children (fun x d hd => (mem_nodes_iff.1 hd).2) ?_⟩
    · -- A node comes before those inside of it.
      intro d hd
      obtain ⟨x, hx, hd⟩ := List.mem_flatMap.1 hd
      obtain ⟨i, hi⟩ := mem_children_iff.1 hx
      obtain ⟨-, p, hp⟩ := mem_nodes_iff.1 hd
      rw [path_at hp, path_childAt hi, List.append_assoc]
      exact ⟨Path.le_of_prefix (List.prefix_append _ _), by simp⟩
    · intro x hx
      obtain ⟨i, hi⟩ := mem_children_iff.1 hx
      exact ih x.element (List.mem_of_getElem? (element_childAt hi)) _ _

/-! ## Offsets -/

theorem widthOf_eq {es : List Element} (h : ∀ e ∈ es, e.sound = true) :
    Element.widthOf es = (Token.fullOf (es.flatMap Element.tokens)).utf8ByteSize := by
  induction es with
  | nil => rfl
  | cons e es ih =>
    rw [Element.widthOf, ih fun d hd => h d (by simp [hd]), Element.width_eq (h e (by simp)),
      List.flatMap_cons, Token.fullOf_append, String.utf8ByteSize_append, Element.fullText_eq]

theorem offset_at {p : Path} {c d : Cursor} (hc : c.element.sound = true) (h : at? p c = some d) :
    d.offset = c.offset + (Token.fullOf (c.element.before p)).utf8ByteSize := by
  induction p generalizing c with
  | nil =>
    cases h
    simp [Element.before]
  | cons i p ih =>
    obtain ⟨x, hx, hd⟩ := Option.bind_eq_some_iff.1 h
    have hchild := element_childAt hx
    have hsound := Element.all_of_mem hc (List.mem_of_getElem? hchild)
    rw [ih hsound hd, Element.before_cons hchild, Token.fullOf_append,
      String.utf8ByteSize_append, ← Nat.add_assoc]
    obtain ⟨e, he, rfl⟩ := childAt?_iff.1 hx
    rw [widthOf_eq fun e he => Element.all_of_mem hc (List.mem_of_mem_take he)]

theorem Of.offset_eq {root : Element} {c : Cursor} (hroot : root.sound = true) (hc : Of root c) :
    c.offset = (Token.fullOf (root.before c.path)).utf8ByteSize := by
  rw [offset_at hroot hc.at_path]
  simp [ofRoot]

/-! ## Spans -/

theorem span_eq {c : Cursor} (hc : c.element.sound = true) :
    c.span = { start := c.offset + c.element.leading.utf8ByteSize,
               stop := c.offset + c.element.leading.utf8ByteSize + c.text.utf8ByteSize } := by
  obtain ⟨e, offset, above⟩ := c
  cases e with
  | token t => rfl
  | node g es =>
    have hw := Element.width_eq hc
    rw [Element.fullText_split, String.utf8ByteSize_append, String.utf8ByteSize_append] at hw
    simp only [span, text, Span.mk.injEq, true_and] at hw ⊢
    omega

/-- The span of an element with tokens lies in the spans of the elements around it. -/
theorem span_at {p : Path} {c d : Cursor} (hc : c.element.sound = true) (h : at? p c = some d)
    (hd : d.element.tokens ≠ []) : c.span.start ≤ d.span.start ∧ d.span.stop ≤ c.span.stop := by
  have htok := Element.tokens_at (element_at h)
  have hoff := offset_at hc h
  have hdsound : d.element.sound = true := Element.all_at hc (element_at h)
  have hfull := congrArg (fun ts => (Token.fullOf ts).utf8ByteSize) htok
  simp only [Token.fullOf_append, String.utf8ByteSize_append, Token.fullOf_eq c.element.tokens,
    Token.fullOf_eq d.element.tokens] at hfull
  rw [span_eq hc, span_eq hdsound, Element.leading_eq, Element.leading_eq, text, text,
    Element.text_eq, Element.text_eq]
  simp only
  generalize c.element.before p = as at *
  generalize c.element.after p = bs at *
  constructor
  · -- The leading trivia around is that of `as`, or else it is that of `d` itself.
    by_cases has : as = []
    · rw [htok, has, List.nil_append, Token.leadingOf_append _ hd]
      omega
    · rw [htok, List.append_assoc, Token.leadingOf_append _ has]
      have := congrArg String.utf8ByteSize (Token.fullOf_eq as)
      simp only [String.utf8ByteSize_append] at this
      omega
  · by_cases hbs : bs = []
    · have htrail : Token.trailingOf c.element.tokens = Token.trailingOf d.element.tokens := by
        rw [htok, hbs, List.append_nil, Token.trailingOf_append _ hd]
      rw [htrail, hbs, Token.fullOf_nil, String.utf8ByteSize_empty] at hfull
      omega
    · have htrail : Token.trailingOf c.element.tokens = Token.trailingOf bs := by
        rw [htok, Token.trailingOf_append _ hbs]
      have := congrArg String.utf8ByteSize (Token.fullOf_eq bs)
      simp only [String.utf8ByteSize_append] at this
      rw [htrail] at hfull
      omega

end Cursor
end CancellationLint
