import CancellationLint.Proofs.TreeCursors
import CancellationLint.Tree

/-! # Positions

No element stores where it stands. The offsets that cursors get from the stored widths fit the text
nevertheless: what a cursor covers is the text of its element, children divide what their node
covers, and a walk over the nodes never goes back. -/

namespace CancellationLint

/-- The spans follow one another from `start` to `stop`, without gap or overlap. -/
def Span.Tile (stop : Nat) : Nat → List Span → Prop
  | start, [] => start = stop
  | start, s :: rest => s.start = start ∧ s.start ≤ s.stop ∧ Tile stop s.stop rest

/-! ## The order of paths -/

namespace Path

theorem before_cons_iff {i j : Nat} {p q : Path} :
    Before (i :: p) (j :: q) ↔ i < j ∨ i = j ∧ Before p q := by
  unfold Before
  simp only [le, Bool.or_eq_true, Bool.and_eq_true, decide_eq_true_eq, ne_eq, List.cons.injEq]
  constructor
  · rintro ⟨hlt | ⟨rfl, hle⟩, hne⟩
    · exact Or.inl hlt
    · exact Or.inr ⟨rfl, hle, fun h => hne ⟨rfl, h⟩⟩
  · rintro (hlt | ⟨rfl, hle, hne⟩)
    · exact ⟨Or.inl hlt, by omega⟩
    · exact ⟨Or.inr ⟨rfl, hle⟩, fun h => hne h.2⟩

theorem before_iff_lex {p q : Path} : Before p q ↔ List.Lex (· < ·) p q := by
  induction p generalizing q with
  | nil =>
    cases q with
    | nil => simp [Before]
    | cons j q => simp [Before, le]
  | cons i p ih =>
    cases q with
    | nil => simp [Before, le]
    | cons j q =>
      rw [before_cons_iff]
      constructor
      · rintro (hlt | ⟨rfl, h⟩)
        · exact List.Lex.rel hlt
        · exact List.Lex.cons (ih.1 h)
      · intro h
        cases h with
        | rel hlt => exact Or.inl hlt
        | cons h => exact Or.inr ⟨rfl, ih.2 h⟩

end Path

/-! ## Slices -/

theorem Element.slice_text (e : Element) :
    Text.slice? e.fullText e.leading.utf8ByteSize
      (e.fullText.utf8ByteSize - e.trailing.utf8ByteSize) = some e.text := by
  have hsize := congrArg String.utf8ByteSize e.fullText_split
  simp only [String.utf8ByteSize_append] at hsize
  rw [show e.fullText.utf8ByteSize - e.trailing.utf8ByteSize =
    e.leading.utf8ByteSize + e.text.utf8ByteSize by omega, e.fullText_split, Text.slice?_append]

theorem Element.trivia_le_width {e : Element} (he : e.sound = true) :
    e.leading.utf8ByteSize + e.trailing.utf8ByteSize ≤ e.width := by
  rw [width_eq he, fullText_split]
  simp only [String.utf8ByteSize_append]
  omega

namespace Cursor

variable {root : Element} {c d : Cursor}

theorem Of.fullText_root (hc : Of root c) :
    root.fullText = Token.fullOf (root.before c.path) ++ c.element.fullText ++
      Token.fullOf (root.after c.path) := by
  rw [Element.fullText_eq, Element.fullText_eq, Element.tokens_at hc.element_at,
    Token.fullOf_append, Token.fullOf_append]

theorem Of.slice_fullSpan (hroot : root.sound = true) (hc : Of root c) :
    Text.slice? root.fullText c.fullSpan.start c.fullSpan.stop = some c.element.fullText := by
  unfold fullSpan
  rw [hc.fullText_root, hc.offset_eq hroot, Element.width_eq (hc.sound hroot), Text.slice?_append]

theorem Of.slice_span (hroot : root.sound = true) (hc : Of root c) :
    Text.slice? root.fullText c.span.start c.span.stop = some c.text := by
  have hbytes : (Token.fullOf (root.before c.path) ++ c.element.leading).utf8ByteSize =
      c.offset + c.element.leading.utf8ByteSize := by
    rw [String.utf8ByteSize_append, hc.offset_eq hroot]
  have hsplit : root.fullText = Token.fullOf (root.before c.path) ++ c.element.leading ++ c.text ++
      (c.element.trailing ++ Token.fullOf (root.after c.path)) := by
    rw [hc.fullText_root, c.element.fullText_split, text]
    simp only [String.append_assoc]
  rw [span_eq (hc.sound hroot), hsplit, ← hbytes, Text.slice?_append]

/-! ## Children -/

theorem tile_childrenFrom (parent : Cursor) (k offset : Nat) (es : List Element) :
    Span.Tile (offset + Element.widthOf es) offset
      ((childrenFrom parent k offset es).map fullSpan) := by
  induction es generalizing k offset with
  | nil => rfl
  | cons e es ih =>
    refine ⟨rfl, Nat.le_add_right _ _, ?_⟩
    have hrest := ih (k + 1) (offset + e.width)
    rw [Nat.add_assoc] at hrest
    exact hrest

theorem tile_children (hc : c.element.sound = true) (hnode : c.isNode = true) :
    Span.Tile c.fullSpan.stop c.fullSpan.start (c.children.map fullSpan) := by
  obtain ⟨e, offset, above⟩ := c
  cases e with
  | token t => cases hnode
  | node h es =>
    have hwidth : h.width = Element.widthOf es := ((Element.sound_node_iff h es).1 hc).1
    unfold fullSpan Element.width
    simp only [hwidth]
    apply tile_childrenFrom

/-! ## The walk over all nodes -/

/-- A walk that gives out the first node of a stack and puts its child nodes there instead. -/
inductive Walk : List Cursor → List Cursor → Prop
  | done : Walk [] []
  | visit {c : Cursor} {stack out : List Cursor} :
    Walk (c.childNodes ++ stack) out → Walk (c :: stack) (c :: out)

theorem flatMap_childNodes (c : Cursor) :
    c.childNodes.flatMap nodes = c.children.flatMap nodes := by
  unfold childNodes
  induction c.children with
  | nil => rfl
  | cons d ds ih =>
    rw [List.filter_cons, List.flatMap_cons, ← ih]
    cases hd : d.isNode with
    | true => simp
    | false => simp [nodes_of_not_isNode hd]

theorem isNode_of_mem_visit {stack : List Cursor} (hstack : ∀ d ∈ c :: stack, d.isNode = true) :
    ∀ d ∈ c.childNodes ++ stack, d.isNode = true := by
  intro d hd
  rcases List.mem_append.1 hd with hd | hd
  · exact (List.mem_filter.1 hd).2
  · exact hstack d (by simp [hd])

theorem flatMap_visit {stack : List Cursor} (hnode : c.isNode = true) :
    (c :: stack).flatMap nodes = c :: (c.childNodes ++ stack).flatMap nodes := by
  rw [List.flatMap_cons, nodes_of_isNode hnode, List.flatMap_append, flatMap_childNodes]
  rfl

theorem Walk.eq_flatMap {stack out : List Cursor} (h : Walk stack out)
    (hstack : ∀ c ∈ stack, c.isNode = true) : out = stack.flatMap nodes := by
  induction h with
  | done => rfl
  | @visit c stack out _ ih =>
    rw [ih (isNode_of_mem_visit hstack), flatMap_visit (hstack c (by simp))]

theorem walk_flatMap {stack : List Cursor} (hstack : ∀ c ∈ stack, c.isNode = true) :
    Walk stack (stack.flatMap nodes) := by
  -- By induction on what is still to be given out, whatever the stack.
  induction hout : stack.flatMap nodes generalizing stack with
  | nil =>
    cases stack with
    | nil => exact Walk.done
    | cons c stack =>
      rw [flatMap_visit (hstack c (by simp))] at hout
      cases hout
  | cons d out ih =>
    cases stack with
    | nil => cases hout
    | cons c stack =>
      rw [flatMap_visit (hstack c (by simp))] at hout
      obtain ⟨rfl, hrest⟩ := List.cons.inj hout
      exact Walk.visit (ih (isNode_of_mem_visit hstack) hrest)

theorem walk_iff (hnode : c.isNode = true) (out : List Cursor) : Walk [c] out ↔ out = c.nodes := by
  have hone : ∀ d ∈ [c], d.isNode = true := by simp [hnode]
  constructor
  · intro h
    simpa using h.eq_flatMap hone
  · rintro rfl
    simpa using walk_flatMap hone

theorem Of.offset_le (hroot : root.sound = true) (hc : Of root c) (hd : Of root d)
    (h : Path.Before c.path d.path) : c.offset ≤ d.offset := by
  have hbefore : ∃ m, root.before d.path = root.before c.path ++ m := by
    by_cases hpre : c.path <+: d.path
    · obtain ⟨q, hq⟩ := hpre
      exact ⟨_, by rw [← hq, Element.before_append hc.element_at]⟩
    · obtain ⟨m, hm⟩ := Element.before_of_precedes (Path.precedes_of_le h.1 hpre) hc.element_at
      exact ⟨_, by rw [hm, List.append_assoc]⟩
  obtain ⟨m, hm⟩ := hbefore
  rw [hc.offset_eq hroot, hd.offset_eq hroot, hm, Token.fullOf_append, String.utf8ByteSize_append]
  omega

theorem Of.nodes_offset_le (hroot : root.sound = true) (hc : Of root c) :
    c.nodes.Pairwise fun a b => a.fullSpan.start ≤ b.fullSpan.start := by
  refine (pairwise_nodes c).imp_of_mem fun ha hb hlt => ?_
  obtain ⟨-, p, hp⟩ := mem_nodes_iff.1 ha
  obtain ⟨-, q, hq⟩ := mem_nodes_iff.1 hb
  exact (hc.at hp).offset_le hroot (hc.at hq) hlt

end Cursor

/-- Spans, offsets and paths of all elements fit the text, and so does a walk over the nodes. -/
theorem Tree.positions_coherent (t : Tree) (c : Cursor) (ht : t.root.sound = true)
    (hc : Cursor.Of t.root c) :
    Text.slice? t.source c.fullSpan.start c.fullSpan.stop = some c.element.fullText ∧
    Text.slice? t.source c.span.start c.span.stop = some c.text ∧
    Text.slice? c.element.fullText c.element.leading.utf8ByteSize
      (c.element.fullText.utf8ByteSize - c.element.trailing.utf8ByteSize) = some c.text ∧
    c.element.leading.utf8ByteSize + c.element.trailing.utf8ByteSize ≤ c.element.width ∧
    (c.isNode = true →
      Span.Tile c.fullSpan.stop c.fullSpan.start (c.children.map Cursor.fullSpan)) ∧
    (∀ i, c.childAt? i = c.children[i]?) ∧
    t.at? c.path = some c.element ∧
    (c.isNode = true → ∀ out, Cursor.Walk [c] out ↔ out = c.nodes) ∧
    (∀ d, d ∈ c.nodes ↔ d.isNode = true ∧ ∃ p, c.at? p = some d) ∧
    c.nodes.Nodup ∧
    (c.nodes.Pairwise fun a b => List.Lex (· < ·) a.path b.path) ∧
    (c.nodes.Pairwise fun a b => a.fullSpan.start ≤ b.fullSpan.start) := by
  have hsound := hc.sound ht
  have horder := Cursor.pairwise_nodes c
  refine ⟨hc.slice_fullSpan ht, hc.slice_span ht, c.element.slice_text,
    Element.trivia_le_width hsound, fun hnode => Cursor.tile_children hsound hnode,
    fun i => (Cursor.children_getElem? c i).symm, hc.element_at, fun hnode => Cursor.walk_iff hnode,
    fun d => Cursor.mem_nodes_iff, ?_, ?_, hc.nodes_offset_le ht⟩
  · refine horder.imp fun hlt heq => ?_
    rw [heq] at hlt
    exact hlt.2 rfl
  · exact horder.imp fun hlt => Path.before_iff_lex.1 hlt

namespace Sample

def hollow : Tree :=
  { root := .make [] .compilationUnit
      [.make [] .block [],
        .make [] .block
          [.token { label := [], kind := .identifier, text := "", leading := "é" },
            .make [] .block [],
            .token { label := [], kind := .semicolon, text := ";", trailing := " " }]] }

end Sample

theorem Sample.positions_hollow :
    Sample.hollow.root.sound = true ∧ ∃ c, Sample.hollow.cursor.at? [1] = some c ∧
      c.isNode = true ∧ c.span = { start := 2, stop := 3 } ∧
      Text.slice? Sample.hollow.source 2 3 = some c.text ∧
      Span.Tile c.fullSpan.stop c.fullSpan.start (c.children.map Cursor.fullSpan) ∧
      Cursor.Walk [c] c.nodes ∧ c.nodes.map Cursor.path = [[1], [1, 1]] := by
  have hsound : Sample.hollow.root.sound = true := by decide
  obtain ⟨c, hc⟩ : ∃ c, Sample.hollow.cursor.at? [1] = some c := ⟨_, rfl⟩
  obtain ⟨-, hspan, -, -, htile, -, -, hwalk, -⟩ :=
    Tree.positions_coherent Sample.hollow c hsound (Cursor.of_iff.2 ⟨[1], hc⟩)
  cases hc
  exact ⟨hsound, _, rfl, rfl, by decide, hspan, htile rfl, (hwalk rfl _).2 rfl, by decide⟩

end CancellationLint
