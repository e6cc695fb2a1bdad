import CancellationLint.Proofs.AtOffset

/-! # From token to token

The tokens of a tree in a row, each in its place. The first and the last token of an element are the
ends of its part of the row, and the search for the token before another one, which looks at the
siblings on the left and climbs when there is nothing, goes back by one in the row. -/

namespace CancellationLint

namespace Cursor

/-! ## The row -/

mutual

/-- The tokens of an element in the order of the document, given where the element stands. -/
def leavesFrom (offset : Nat) (above : List Frame) : Element → List Cursor
  | .token t => [{ element := .token t, offset, above }]
  | .node h children =>
    leavesAmong { element := .node h children, offset, above } 0 offset children

def leavesAmong (parent : Cursor) : Nat → Nat → List Element → List Cursor
  | _, _, [] => []
  | index, offset, e :: rest =>
    leavesFrom offset (parent.frames index) e ++
      leavesAmong parent (index + 1) (offset + e.width) rest

end

def leaves (c : Cursor) : List Cursor := leavesFrom c.offset c.above c.element

variable {root : Element} {c d : Cursor}

theorem leavesAmong_eq (parent : Cursor) (k offset : Nat) (es : List Element) :
    leavesAmong parent k offset es = (childrenFrom parent k offset es).flatMap leaves := by
  induction es generalizing k offset with
  | nil => rfl
  | cons e es ih =>
    rw [leavesAmong, childrenFrom, List.flatMap_cons, ih]
    rfl

theorem leaves_of_isNode (h : c.isNode = true) : c.leaves = c.children.flatMap leaves := by
  obtain ⟨e, offset, above⟩ := c
  cases e with
  | token t => cases h
  | node g es => rw [leaves, leavesFrom, leavesAmong_eq]; rfl

theorem leaves_of_not_isNode (h : c.isNode = false) : c.leaves = [c] := by
  obtain ⟨e, offset, above⟩ := c
  cases e with
  | token t => rfl
  | node g es => cases h

theorem mem_leaves_iff : d ∈ c.leaves ↔ d.isNode = false ∧ ∃ p, at? p c = some d := by
  obtain ⟨e, offset, above⟩ := c
  induction e generalizing offset above with
  | token t =>
    rw [leaves_of_not_isNode rfl, List.mem_singleton]
    constructor
    · rintro rfl
      exact ⟨rfl, [], rfl⟩
    · rintro ⟨-, p, hp⟩
      obtain rfl := eq_nil_of_at_token rfl hp
      exact (Option.some.inj hp).symm
  | node g es ih =>
    rw [leaves_of_isNode rfl, List.mem_flatMap]
    constructor
    · rintro ⟨x, hx, hd⟩
      obtain ⟨i, hi⟩ := mem_children_iff.1 hx
      obtain ⟨hleaf, p, hp⟩ := (ih x.element (List.mem_of_getElem? (element_childAt hi)) _ _).1 hd
      exact ⟨hleaf, i :: p, Option.bind_eq_some_iff.2 ⟨x, hi, hp⟩⟩
    · rintro ⟨hd, p, hp⟩
      cases p with
      | nil =>
        cases hp
        cases hd
      | cons i p =>
        obtain ⟨x, hi, hp⟩ := Option.bind_eq_some_iff.1 hp
        refine ⟨x, mem_children_iff.2 ⟨i, hi⟩, ?_⟩
        exact (ih x.element (List.mem_of_getElem? (element_childAt hi)) _ _).2 ⟨hd, p, hp⟩

theorem mem_leaves_ofRoot : d ∈ (ofRoot root).leaves ↔ IsToken root d := by
  rw [mem_leaves_iff, IsToken, of_iff, and_comm]

theorem pairwise_leaves (c : Cursor) :
    c.leaves.Pairwise fun a b => Path.Before a.path b.path := by
  obtain ⟨e, offset, above⟩ := c
  induction e generalizing offset above with
  | token t =>
    rw [leaves_of_not_isNode rfl]
    exact List.pairwise_singleton _ _
  | node g es ih =>
    rw [leaves_of_isNode rfl]
    refine pairwise_flatMap_children (fun x d hd => (mem_leaves_iff.1 hd).2) fun x hx => ?_
    obtain ⟨i, hi⟩ := mem_children_iff.1 hx
    exact ih x.element (List.mem_of_getElem? (element_childAt hi)) _ _

theorem map_element_leaves (c : Cursor) :
    c.leaves.map Cursor.element = c.element.tokens.map .token := by
  obtain ⟨e, offset, above⟩ := c
  induction e generalizing offset above with
  | token t => rfl
  | node g es ih =>
    have hes := map_element_children ⟨.node g es, offset, above⟩
    rw [leaves_of_isNode rfl, Element.tokens_node, List.map_flatMap, List.map_flatMap]
    conv_rhs => rw [← show _ = es from hes, List.flatMap_map]
    refine List.flatMap_congr fun x hx => ?_
    obtain ⟨i, hi⟩ := mem_children_iff.1 hx
    exact ih x.element (List.mem_of_getElem? (element_childAt hi)) x.offset x.above

theorem Of.leaves_eq (hc : Of root c) :
    c.leaves = (ofRoot root).leaves.filter fun d => c.path.isPrefixOf d.path := by
  refine Path.eq_of_mem_iff (f := path) (pairwise_leaves c) ((pairwise_leaves _).filter _)
    fun d => ?_
  rw [mem_leaves_iff, List.mem_filter, mem_leaves_ofRoot, List.isPrefixOf_iff_prefix]
  constructor
  · rintro ⟨hd, p, hp⟩
    exact ⟨⟨hc.at hp, hd⟩, by rw [path_at hp]; exact List.prefix_append _ _⟩
  · rintro ⟨hd, hpre⟩
    obtain ⟨p, hp, -⟩ := hc.exists_at_below hd.1 hpre
    exact ⟨hd.2, p, hp⟩

/-! ## The ends of a part -/

theorem findSome?_first {cs : List Cursor} (h : ∀ c ∈ cs, c.firstToken? = c.leaves.head?) :
    cs.findSome? firstToken? = (cs.flatMap leaves).head? := by
  induction cs with
  | nil => rfl
  | cons c cs ih =>
    rw [List.findSome?_cons, List.flatMap_cons, List.head?_append, h c (by simp),
      ih fun d hd => h d (by simp [hd])]
    cases c.leaves.head? <;> rfl

theorem findSome?_last {cs : List Cursor} (h : ∀ c ∈ cs, c.lastToken? = c.leaves.getLast?) :
    cs.reverse.findSome? lastToken? = (cs.flatMap leaves).getLast? := by
  induction cs with
  | nil => rfl
  | cons c cs ih =>
    rw [List.reverse_cons, List.findSome?_append, List.flatMap_cons, List.getLast?_append,
      ih fun d hd => h d (by simp [hd]), List.findSome?_singleton, h c (by simp)]

theorem firstToken?_eq (c : Cursor) : c.firstToken? = c.leaves.head? := by
  obtain ⟨e, offset, above⟩ := c
  induction e generalizing offset above with
  | token t => rfl
  | node g es ih =>
    rw [firstToken?, firstFrom, firstAmong_eq, leaves_of_isNode rfl]
    refine findSome?_first fun x hx => ?_
    obtain ⟨i, hi⟩ := mem_children_iff.1 hx
    exact ih x.element (List.mem_of_getElem? (element_childAt hi)) x.offset x.above

theorem lastToken?_eq (c : Cursor) : c.lastToken? = c.leaves.getLast? := by
  obtain ⟨e, offset, above⟩ := c
  induction e generalizing offset above with
  | token t => rfl
  | node g es ih =>
    rw [lastToken?_of_isNode rfl, leaves_of_isNode rfl]
    refine findSome?_last fun x hx => ?_
    obtain ⟨i, hi⟩ := mem_children_iff.1 hx
    exact ih x.element (List.mem_of_getElem? (element_childAt hi)) x.offset x.above

theorem leaves_eq_nil_iff : c.leaves = [] ↔ c.element.tokens = [] := by
  have hmap := c.map_element_leaves
  rw [← List.map_eq_nil_iff (f := Cursor.element), hmap, List.map_eq_nil_iff]

/-! ## The token before -/

theorem take_childrenFrom (parent : Cursor) (k offset i : Nat) (es : List Element) :
    childrenFrom parent k offset (es.take i) = (childrenFrom parent k offset es).take i := by
  induction es generalizing k offset i with
  | nil => simp [childrenFrom]
  | cons e es ih =>
    cases i with
    | zero => rfl
    | succ i => rw [List.take_succ_cons, childrenFrom, childrenFrom, List.take_succ_cons, ih]

theorem lastAmong_take (c : Cursor) (i : Nat) :
    lastAmong c 0 c.offset (c.element.children.take i) =
      ((c.children.take i).flatMap leaves).getLast? := by
  rw [lastAmong_eq, take_childrenFrom]
  exact findSome?_last fun d _ => lastToken?_eq d

theorem prevToken?_childAt {i : Nat} (hi : c.childAt? i = some d) :
    d.prevToken? = ((c.children.take i).flatMap leaves).getLast?.or c.prevToken? := by
  rw [← lastAmong_take]
  obtain ⟨e, -, rfl⟩ := childAt?_iff.1 hi
  unfold prevToken? frames
  rw [lastBefore]
  cases lastAmong c 0 c.offset (c.element.children.take i) <;> rfl

theorem map_element_flatMap_leaves (cs : List Cursor) :
    (cs.flatMap leaves).map Cursor.element =
      ((cs.map Cursor.element).flatMap Element.tokens).map .token := by
  rw [List.map_flatMap, List.flatMap_map, List.map_flatMap]
  exact List.flatMap_congr fun c _ => c.map_element_leaves

/-- The tokens of an element are a part of the row, right behind the token before it. -/
theorem Of.exists_front (hd : Of root d) :
    ∃ front back, (ofRoot root).leaves = front ++ d.leaves ++ back ∧
      d.prevToken? = front.getLast? ∧
      front.map Cursor.element = (root.before d.path).map .token := by
  induction hd with
  | root => exact ⟨[], [], by simp, rfl, rfl⟩
  | @child c d i hc hi ih =>
    obtain ⟨front, back, hrow, hprev, hfront⟩ := ih
    obtain ⟨hlt, hget⟩ := List.getElem?_eq_some_iff.1 ((children_getElem? c i).trans hi)
    have hsplit : c.leaves = (c.children.take i).flatMap leaves ++ d.leaves ++
        (c.children.drop (i + 1)).flatMap leaves := by
      rw [leaves_of_isNode (isNode_of_childAt hi)]
      conv_lhs => rw [← List.take_append_drop i c.children, List.drop_eq_getElem_cons hlt, hget]
      rw [List.flatMap_append, List.flatMap_cons, List.append_assoc]
    refine ⟨front ++ (c.children.take i).flatMap leaves,
      (c.children.drop (i + 1)).flatMap leaves ++ back, ?_, ?_, ?_⟩
    · rw [hrow, hsplit]
      simp only [List.append_assoc]
    · rw [prevToken?_childAt hi, hprev, List.getLast?_append]
    · rw [path_childAt hi, Element.before_append hc.element_at,
        Element.before_cons (element_childAt hi), List.map_append, hfront,
        map_element_flatMap_leaves, List.map_take, map_element_children]
      simp [Element.before]

theorem nodup_leaves (c : Cursor) : c.leaves.Nodup :=
  (pairwise_leaves c).imp fun hlt heq => hlt.2 (congrArg path heq)

theorem prevToken?_of_getElem {k : Nat} (h : (ofRoot root).leaves[k]? = some d) :
    d.prevToken? = if k = 0 then none else (ofRoot root).leaves[k - 1]? := by
  have hd := mem_leaves_ofRoot.1 (List.mem_of_getElem? h)
  obtain ⟨front, back, hrow, hprev, -⟩ := hd.1.exists_front
  rw [leaves_of_not_isNode hd.2, List.append_assoc, List.singleton_append] at hrow
  have hk : k = front.length := by
    have hfront : (ofRoot root).leaves[front.length]? = some d := by
      rw [hrow]
      simp
    exact (List.getElem?_inj (List.getElem?_eq_some_iff.1 h).1 (nodup_leaves _)).1
      (h.trans hfront.symm)
  rw [hprev, hk, hrow]
  rcases List.eq_nil_or_concat' front with rfl | ⟨front, last, rfl⟩
  · rfl
  · simp

/-! ## Climbing -/

def lastOnLeft (node : Cursor) (index : Nat) : Option Cursor :=
  (List.range index).reverse.findSome? fun i => (node.childAt? i).bind lastToken?

/-- A search among the children with smaller indices, and then from the place of the node itself. -/
inductive Climb : Cursor → Nat → Option Cursor → Prop
  | found {node token : Cursor} {index : Nat} : lastOnLeft node index = some token →
    Climb node index (some token)
  | up {node parent : Cursor} {index : Nat} {out : Option Cursor} :
    lastOnLeft node index = none → node.parent? = some parent → Climb parent node.index out →
    Climb node index out
  | top {node : Cursor} {index : Nat} : lastOnLeft node index = none → node.parent? = none →
    Climb node index none

theorem lastOnLeft_eq (node : Cursor) (index : Nat) :
    lastOnLeft node index = lastAmong node 0 node.offset (node.element.children.take index) := by
  have hchildren : childrenFrom node 0 node.offset (node.element.children.take index) =
      node.children.take index := take_childrenFrom _ _ _ _ _
  rw [lastAmong_eq, hchildren, lastOnLeft]
  clear hchildren
  induction index with
  | zero => rfl
  | succ index ih =>
    rw [List.range_succ, List.reverse_append, List.findSome?_append, ih, List.take_add_one,
      List.reverse_append, List.findSome?_append, children_getElem?, List.reverse_singleton,
      List.findSome?_singleton]
    cases node.childAt? index with
    | none => rfl
    | some child => rw [Option.toList_some, List.reverse_singleton, List.findSome?_singleton]; rfl

theorem lastBefore_cons (frame : Frame) (above : List Frame) :
    lastBefore (frame :: above) =
      (lastOnLeft { element := frame.node, offset := frame.offset, above } frame.index).or
        (lastBefore above) := by
  rw [lastOnLeft_eq, lastBefore]
  cases lastAmong { element := frame.node, offset := frame.offset, above } 0 frame.offset
    (frame.node.children.take frame.index) <;> rfl

section
variable {node parent token : Cursor} {index : Nat} {out : Option Cursor}

theorem climb_of_found (hleft : lastOnLeft node index = some token) :
    Climb node index out ↔ out = some token := by
  constructor
  · intro h
    cases h with
    | found hfound => exact hfound.symm.trans hleft
    | up hnone => cases hnone.symm.trans hleft
    | top hnone => cases hnone.symm.trans hleft
  · rintro rfl
    exact Climb.found hleft

theorem climb_of_parent (hleft : lastOnLeft node index = none)
    (hparent : node.parent? = some parent) :
    Climb node index out ↔ Climb parent node.index out := by
  constructor
  · intro h
    cases h with
    | found hfound => cases hfound.symm.trans hleft
    | up _ hup hrest =>
      obtain rfl := Option.some.inj (hup.symm.trans hparent)
      exact hrest
    | top _ htop => cases htop.symm.trans hparent
  · exact Climb.up hleft hparent

theorem climb_of_top (hleft : lastOnLeft node index = none) (hparent : node.parent? = none) :
    Climb node index out ↔ out = none := by
  constructor
  · intro h
    cases h with
    | found hfound => cases hfound.symm.trans hleft
    | up _ hup => cases hup.symm.trans hparent
    | top => rfl
  · rintro rfl
    exact Climb.top hleft hparent

end

theorem climb_iff (frame : Frame) (above : List Frame) (out : Option Cursor) :
    Climb { element := frame.node, offset := frame.offset, above } frame.index out ↔
      out = lastBefore (frame :: above) := by
  -- By induction on the nodes that are still above.
  induction above generalizing frame with
  | nil =>
    rw [lastBefore_cons]
    generalize hleft : lastOnLeft _ _ = found
    cases found with
    | some token => exact climb_of_found hleft
    | none => exact climb_of_top hleft rfl
  | cons next above ih =>
    rw [lastBefore_cons]
    generalize hleft : lastOnLeft _ _ = found
    cases found with
    | some token => exact climb_of_found hleft
    | none => exact (climb_of_parent hleft rfl).trans (ih next)

theorem climb_prevToken {parent : Cursor} (h : d.parent? = some parent) (out : Option Cursor) :
    Climb parent d.index out ↔ out = d.prevToken? := by
  obtain ⟨e, offset, above⟩ := d
  cases above with
  | nil => cases h
  | cons frame above =>
    cases h
    exact climb_iff frame above out

end Cursor

/-- First and last tokens and the token before are those of the row of all tokens. -/
theorem Tree.tokens_in_row (t : Tree) :
    (∀ d, d ∈ t.cursor.leaves ↔ Cursor.IsToken t.root d) ∧
    (t.cursor.leaves.Pairwise fun a b => List.Lex (· < ·) a.path b.path) ∧
    t.cursor.leaves.map Cursor.element = t.root.tokens.map .token ∧
    (∀ c, Cursor.Of t.root c →
      c.firstToken? = (t.cursor.leaves.filter fun d => c.path.isPrefixOf d.path).head? ∧
      c.lastToken? = (t.cursor.leaves.filter fun d => c.path.isPrefixOf d.path).getLast? ∧
      (c.firstToken? = none ↔ c.element.tokens = []) ∧
      (c.lastToken? = none ↔ c.element.tokens = [])) ∧
    (∀ (k : Nat) d, t.cursor.leaves[k]? = some d →
      (d.prevToken? = if k = 0 then none else t.cursor.leaves[k - 1]?) ∧
      ∀ parent, d.parent? = some parent →
        ∀ out, Cursor.Climb parent d.index out ↔ out = d.prevToken?) := by
  refine ⟨fun d => Cursor.mem_leaves_ofRoot, ?_, t.cursor.map_element_leaves, fun c hc => ?_,
    fun k d hd => ⟨Cursor.prevToken?_of_getElem hd, fun parent => Cursor.climb_prevToken⟩⟩
  · exact (Cursor.pairwise_leaves _).imp fun hlt => Path.before_iff_lex.1 hlt
  · have hrow : c.leaves = t.cursor.leaves.filter fun d => c.path.isPrefixOf d.path :=
      hc.leaves_eq
    rw [← hrow, c.firstToken?_eq, c.lastToken?_eq, List.head?_eq_none_iff,
      List.getLast?_eq_none_iff, Cursor.leaves_eq_nil_iff]
    exact ⟨rfl, rfl, Iff.rfl, Iff.rfl⟩

namespace Sample

def strewn : Tree :=
  { root := .make [] .compilationUnit
      [.make [] .block
          [.token { label := [], kind := .identifier, text := "a" }, .make [] .block []],
        .make [] .block
          [.make [] .block [],
            .make [] .block [.token { label := [], kind := .identifier, text := "" }]],
        .token { label := [], kind := .semicolon, text := ";" }] }

end Sample

theorem Sample.tokens_in_row_strewn :
    Sample.strewn.cursor.leaves.map Cursor.path = [[0, 0], [1, 1, 0], [2]] ∧
      (∃ d parent, Sample.strewn.cursor.leaves[1]? = some d ∧ d.parent? = some parent ∧
        d.prevToken? = Sample.strewn.cursor.leaves[0]? ∧
        Cursor.Climb parent d.index Sample.strewn.cursor.leaves[0]?) ∧
      ∃ c, Sample.strewn.cursor.at? [1, 0] = some c ∧ c.element.tokens = [] ∧
        c.firstToken? = none ∧ c.lastToken? = none := by
  obtain ⟨-, -, -, hends, hprev⟩ := Sample.strewn.tokens_in_row
  refine ⟨by decide, ?_, ?_⟩
  · obtain ⟨hback, hclimb⟩ := hprev 1 _ rfl
    exact ⟨_, _, rfl, rfl, hback, (hclimb _ rfl _).2 hback.symm⟩
  · obtain ⟨c, hc⟩ : ∃ c, Sample.strewn.cursor.at? [1, 0] = some c := ⟨_, rfl⟩
    have hof := Cursor.of_iff.2 ⟨[1, 0], hc⟩
    cases hc
    obtain ⟨-, -, hfirst, hlast⟩ := hends _ hof
    exact ⟨_, rfl, rfl, hfirst.2 rfl, hlast.2 rfl⟩

end CancellationLint
