import CancellationLint.Proofs.Positions
import CancellationLint.Proofs.Indent

/-! # What stands at an offset

The full spans of the tokens of a tree divide its text, so there is one token at each offset before
the end of the text, and the nodes that contain the offset are those above this token. The first if
statement on the way up from it is the innermost one that contains the offset. At the end of the
text the last token takes the place of the one at the offset, and behind the end nothing is
found. -/

namespace CancellationLint

theorem Span.Tile.exists_contains {stop start offset : Nat} {ss : List Span}
    (h : Tile stop start ss) (hlo : start ≤ offset) (hhi : offset < stop) :
    ∃ s ∈ ss, s.contains offset = true := by
  induction ss generalizing start with
  | nil =>
    unfold Tile at h
    omega
  | cons s ss ih =>
    obtain ⟨hstart, -, hrest⟩ := h
    by_cases hin : offset < s.stop
    · exact ⟨s, by simp, Cursor.contains_iff.2 ⟨by omega, hin⟩⟩
    · obtain ⟨x, hx, hcontains⟩ := ih hrest (by omega)
      exact ⟨x, by simp [hx], hcontains⟩

namespace Cursor

variable {root : Element} {c d n : Cursor} {offset : Nat}

/-! ## The token at an offset -/

def IsToken (root : Element) (c : Cursor) : Prop := Of root c ∧ c.isNode = false

theorem exists_token_contains (hc : c.element.sound = true)
    (hin : c.fullSpan.contains offset = true) :
    ∃ p d, at? p c = some d ∧ d.isNode = false ∧ d.fullSpan.contains offset = true := by
  obtain ⟨e, start, above⟩ := c
  induction e generalizing start above with
  | token t => exact ⟨[], _, rfl, rfl, hin⟩
  | node h es ih =>
    obtain ⟨hlo, hhi⟩ := contains_iff.1 hin
    obtain ⟨s, hs, hoffset⟩ := (tile_children hc rfl).exists_contains hlo hhi
    obtain ⟨x, hx, rfl⟩ := List.mem_map.1 hs
    obtain ⟨i, hi⟩ := mem_children_iff.1 hx
    have hmem := List.mem_of_getElem? (element_childAt hi)
    obtain ⟨p, d, hp, hd, hcontains⟩ := ih x.element hmem _ _ (Element.all_of_mem hc hmem) hoffset
    exact ⟨i :: p, d, Option.bind_eq_some_iff.2 ⟨x, hi, hp⟩, hd, hcontains⟩

theorem IsToken.tokenFrom_root (hroot : root.sound = true) (hd : IsToken root d)
    (hin : d.fullSpan.contains offset = true) :
    tokenFrom offset 0 [] root = some d := by
  obtain ⟨hlo, hhi⟩ := contains_iff.1 hin
  exact tokenFrom_eq (c := ofRoot root) hroot hd.1.at_path hd.2 hlo hhi

theorem IsToken.eq_of_contains (hroot : root.sound = true) (hc : IsToken root c)
    (hd : IsToken root d) (hcin : c.fullSpan.contains offset = true)
    (hdin : d.fullSpan.contains offset = true) : c = d := by
  have hfound := hc.tokenFrom_root hroot hcin
  rw [hd.tokenFrom_root hroot hdin] at hfound
  exact (Option.some.inj hfound).symm

theorem exists_tokenAt (hroot : root.sound = true) (h : offset < root.width) :
    ∃ d, (ofRoot root).tokenAt? offset = some d ∧ IsToken root d ∧
      d.fullSpan.contains offset = true := by
  have hin : (ofRoot root).fullSpan.contains offset = true :=
    contains_iff.2 ⟨Nat.zero_le _, by simpa [fullSpan, ofRoot] using h⟩
  obtain ⟨p, d, hp, hleaf, hcontains⟩ := exists_token_contains (c := ofRoot root) hroot hin
  have hd : IsToken root d := ⟨Of.root.at hp, hleaf⟩
  refine ⟨d, ?_, hd, hcontains⟩
  have hne : offset ≠ (ofRoot root).fullSpan.stop := by
    simp only [fullSpan, ofRoot]
    omega
  unfold tokenAt?
  rw [if_neg hne, if_pos hin]
  exact hd.tokenFrom_root hroot hcontains

theorem tokenAt?_of_width_lt (h : root.width < offset) :
    (ofRoot root).tokenAt? offset = none := by
  have hstop : (ofRoot root).fullSpan.stop = root.width := by simp [fullSpan, ofRoot]
  unfold tokenAt?
  rw [if_neg (by omega), if_neg]
  rw [contains_iff]
  omega

/-! ## The last token -/

theorem element_lastToken (c : Cursor) :
    c.lastToken?.map Cursor.element = c.element.tokens.getLast?.map .token :=
  element_lastFrom c.offset c.above c.element

theorem tokens_of_lastToken_none (h : c.lastToken? = none) : c.element.tokens = [] := by
  have hlast := c.element_lastToken
  rw [h] at hlast
  simpa using hlast.symm

theorem isNode_of_lastToken (h : c.lastToken? = some d) : d.isNode = false := by
  have hlast := c.element_lastToken
  rw [h, Option.map_some, eq_comm, Option.map_eq_some_iff] at hlast
  obtain ⟨t, -, helem⟩ := hlast
  rw [isNode, ← helem]
  rfl

theorem exists_path_lastToken (h : c.lastToken? = some d) :
    ∃ p, at? p c = some d ∧ c.element.after p = [] := by
  obtain ⟨e, offset, above⟩ := c
  induction e generalizing offset above with
  | token t =>
    cases h
    exact ⟨[], rfl, rfl⟩
  | node g es ih =>
    rw [lastToken?_of_isNode rfl] at h
    have hes := map_element_children ⟨.node g es, offset, above⟩
    obtain ⟨as, x, bs, hsplit, hx, has⟩ := List.findSome?_eq_some_iff.1 h
    rw [List.reverse_eq_iff, List.reverse_append, List.reverse_cons, List.append_assoc] at hsplit
    have hi : childAt? ⟨.node g es, offset, above⟩ bs.length = some x := by
      rw [← children_getElem?, hsplit]
      simp
    rw [hsplit, List.map_append] at hes
    obtain ⟨p, hp, hafter⟩ := ih x.element
      (List.mem_of_getElem? (element_childAt hi)) x.offset x.above hx
    refine ⟨bs.length :: p, by rw [at?, hi]; exact hp, ?_⟩
    have hnone : (as.reverse.map Cursor.element).flatMap Element.tokens = [] := by
      rw [List.flatMap_map, List.flatMap_eq_nil_iff]
      exact fun y hy => tokens_of_lastToken_none (has y (List.mem_reverse.1 hy))
    have hdrop : (bs.reverse.map Cursor.element ++ x.element :: as.reverse.map Cursor.element).drop
        (bs.length + 1) = as.reverse.map Cursor.element := by
      rw [List.drop_append]
      simp
    rw [Element.after_cons (element_childAt hi), hafter, ← hes, List.nil_append]
    exact (congrArg (List.flatMap Element.tokens) hdrop).trans hnone

theorem eq_nil_of_at_token {p : Path} (hc : c.isNode = false) (h : at? p c = some d) : p = [] := by
  cases p with
  | nil => rfl
  | cons i p =>
    obtain ⟨x, hx, -⟩ := Option.bind_eq_some_iff.1 h
    rw [isNode_of_childAt hx] at hc
    cases hc

theorem Of.exists_at_below (hc : Of root c) (hd : Of root d) (h : c.path <+: d.path) :
    ∃ p, at? p c = some d ∧ d.path = c.path ++ p := by
  obtain ⟨p, hp⟩ := h
  refine ⟨p, ?_, hp.symm⟩
  have hat := hd.at_path
  rwa [← hp, at?_append, hc.at_path, Option.bind_some] at hat

theorem IsToken.tokens (hd : IsToken root d) : d.element.tokens ≠ [] := by
  obtain ⟨e, offset, above⟩ := d
  cases e with
  | token t => simp
  | node g es => cases hd.2

theorem IsToken.le_of_after (hd : IsToken root d) (hafter : root.after d.path = [])
    (hc : IsToken root c) : Path.le c.path d.path = true := by
  rcases Path.le_total c.path d.path with hle | hle
  · exact hle
  by_cases hpre : d.path <+: c.path
  · obtain ⟨p, hp, hpath⟩ := hd.1.exists_at_below hc.1 hpre
    rw [eq_nil_of_at_token hd.2 hp, List.append_nil] at hpath
    rw [hpath]
    exact Path.le_of_prefix (List.prefix_refl _)
  · -- Otherwise the tokens up to `d` are all there are, and still those of `c` follow.
    obtain ⟨m, hm⟩ := Element.before_of_precedes (Path.precedes_of_le hle hpre) hd.1.element_at
    have hcount := congrArg List.length (Element.tokens_at hd.1.element_at)
    rw [Element.tokens_at hc.1.element_at, hm, hafter] at hcount
    have hpos := List.length_pos_iff.2 hc.tokens
    simp only [List.length_append, List.length_nil] at hcount
    omega

theorem lastToken?_iff :
    (ofRoot root).lastToken? = some d ↔
      IsToken root d ∧ ∀ c, IsToken root c → Path.le c.path d.path = true := by
  have hlast : ∀ {d}, (ofRoot root).lastToken? = some d →
      IsToken root d ∧ ∀ c, IsToken root c → Path.le c.path d.path = true := by
    intro d h
    obtain ⟨p, hp, hafter⟩ := exists_path_lastToken h
    have hd : IsToken root d := ⟨Of.root.at hp, isNode_of_lastToken h⟩
    have hpath : d.path = p := path_at hp
    exact ⟨hd, fun c hc => hd.le_of_after (by rw [hpath]; exact hafter) hc⟩
  constructor
  · exact hlast
  · rintro ⟨hd, hle⟩
    cases hfound : (ofRoot root).lastToken? with
    | none =>
      have hnone : root.tokens = [] := tokens_of_lastToken_none hfound
      rw [Element.tokens_at hd.1.element_at] at hnone
      simp [hd.tokens] at hnone
    | some x =>
      obtain ⟨hx, hmax⟩ := hlast hfound
      rw [hx.1.eq_of_path hd.1 (Path.le_antisymm (hle x hx) (hmax d hd))]

/-! ## The nodes around a place -/

theorem Of.mem_onFrames_iff (hd : Of root d) :
    n ∈ onFrames d.above ↔ Of root n ∧ n.path <+: d.path ∧ n.path ≠ d.path := by
  induction hd with
  | root =>
    simp only [ofRoot, onFrames, path, List.map_nil, List.reverse_nil, List.not_mem_nil,
      List.prefix_nil, false_iff]
    exact fun h => h.2.2 h.2.1
  | @child c d i hc hi ih =>
    rw [onFrames_childAt hi, List.mem_cons, ih, path_childAt hi]
    constructor
    · rintro (rfl | ⟨hn, hpre, -⟩)
      · exact ⟨hc, List.prefix_append _ _, by simp⟩
      · refine ⟨hn, hpre.trans (List.prefix_append _ _), fun heq => ?_⟩
        have hlen := hpre.length_le
        rw [heq, List.length_append, List.length_singleton] at hlen
        omega
    · rintro ⟨hn, hpre, hne⟩
      have hpre : n.path <+: c.path := (List.prefix_concat_iff.1 hpre).resolve_left hne
      by_cases heq : n.path = c.path
      · exact Or.inl (hn.eq_of_path hc heq)
      · exact Or.inr ⟨hn, hpre, heq⟩

theorem Of.mem_enclosing_iff (hd : Of root d) :
    n ∈ d.enclosing ↔ n.isNode = true ∧ Of root n ∧ n.path <+: d.path := by
  constructor
  · intro hn
    refine ⟨isNode_of_mem_enclosing hd hn, hd.enclosing hn, ?_⟩
    unfold Cursor.enclosing at hn
    split at hn
    · rcases List.mem_cons.1 hn with rfl | hn
      · exact List.prefix_refl _
      · exact (hd.mem_onFrames_iff.1 hn).2.1
    · exact (hd.mem_onFrames_iff.1 hn).2.1
  · rintro ⟨hnode, hn, hpre⟩
    unfold Cursor.enclosing
    by_cases heq : n.path = d.path
    · rw [hn.eq_of_path hd heq] at hnode ⊢
      rw [if_pos hnode]
      exact List.mem_cons_self
    · have habove := hd.mem_onFrames_iff.2 ⟨hn, hpre, heq⟩
      split
      · exact List.mem_cons_of_mem _ habove
      · exact habove

theorem Of.pairwise_onFrames (hd : Of root d) :
    (onFrames d.above).Pairwise fun a b => Path.Before b.path a.path := by
  induction hd with
  | root => exact List.Pairwise.nil
  | @child c d i hc hi ih =>
    rw [onFrames_childAt hi, List.pairwise_cons]
    refine ⟨fun n hn => ?_, ih⟩
    obtain ⟨-, hpre, hne⟩ := hc.mem_onFrames_iff.1 hn
    exact ⟨Path.le_of_prefix hpre, hne⟩

theorem Of.pairwise_enclosing (hd : Of root d) :
    d.enclosing.Pairwise fun a b => Path.Before b.path a.path := by
  unfold Cursor.enclosing
  split
  · rw [List.pairwise_cons]
    refine ⟨fun n hn => ?_, hd.pairwise_onFrames⟩
    obtain ⟨-, hpre, hne⟩ := hd.mem_onFrames_iff.1 hn
    exact ⟨Path.le_of_prefix hpre, hne⟩
  · exact hd.pairwise_onFrames

/-- The way up is the reverse of the walk over all nodes. -/
theorem Of.reverse_enclosing (hd : Of root d) :
    d.enclosing.reverse = (ofRoot root).nodes.filter fun n => n.path.isPrefixOf d.path := by
  refine Path.eq_of_mem_iff (f := path) (List.pairwise_reverse.2 hd.pairwise_enclosing)
    ((pairwise_nodes _).filter _) fun n => ?_
  rw [List.mem_reverse, hd.mem_enclosing_iff, List.mem_filter, mem_nodes_ofRoot,
    List.isPrefixOf_iff_prefix, and_assoc]

theorem Of.find_enclosing (hd : Of root d) (test : Cursor → Bool) :
    d.enclosing.find? test =
      ((ofRoot root).nodes.filter fun n => test n && n.path.isPrefixOf d.path).getLast? := by
  rw [← List.filter_filter, ← hd.reverse_enclosing, List.filter_reverse, List.getLast?_reverse,
    List.head?_filter]

theorem IsToken.prefix_iff (hroot : root.sound = true) (hd : IsToken root d)
    (hin : d.fullSpan.contains offset = true) (hn : Of root n) :
    n.path <+: d.path ↔ n.fullSpan.contains offset = true := by
  constructor
  · intro hpre
    obtain ⟨p, hp, -⟩ := hn.exists_at_below hd.1 hpre
    have hspan := fullSpan_at (hn.sound hroot) hp
    obtain ⟨hlo, hhi⟩ := contains_iff.1 hin
    exact contains_iff.2 ⟨hspan.1.trans hlo, hhi.trans_le hspan.2⟩
  · intro hcontains
    obtain ⟨p, x, hp, hx, hxin⟩ := exists_token_contains (hn.sound hroot) hcontains
    have hx : IsToken root x := ⟨hn.at hp, hx⟩
    rw [← hx.eq_of_contains hroot hd hxin hin, path_at hp]
    exact List.prefix_append _ _

end Cursor

/-! ## The statement at an offset -/

namespace Tree

variable {t : Tree} {c d : Cursor} {offset : Nat}

def IsIf (t : Tree) (c : Cursor) : Prop :=
  Cursor.Of t.root c ∧ c.isNode = true ∧ c.kind = .ifStatement

/-- The if statement with a property that all others with the property are around. -/
def Innermost (t : Tree) (P : Cursor → Prop) (c : Cursor) : Prop :=
  (t.IsIf c ∧ P c) ∧ ∀ n, t.IsIf n → P n → n.path <+: c.path

theorem Innermost.unique {P : Cursor → Prop} (hc : t.Innermost P c) (hd : t.Innermost P d) :
    c = d := by
  have hcd := hd.2 c hc.1.1 hc.1.2
  have hdc := hc.2 d hd.1.1 hd.1.2
  have hlength := Nat.le_antisymm hcd.length_le hdc.length_le
  exact hc.1.1.1.eq_of_path hd.1.1.1 (hcd.eq_of_length hlength)

theorem Innermost.congr {P Q : Cursor → Prop} (h : ∀ n, t.IsIf n → (P n ↔ Q n)) :
    t.Innermost P c ↔ t.Innermost Q c := by
  unfold Innermost
  constructor
  · rintro ⟨⟨hc, hP⟩, hall⟩
    exact ⟨⟨hc, (h c hc).1 hP⟩, fun n hn hQ => hall n hn ((h n hn).2 hQ)⟩
  · rintro ⟨⟨hc, hQ⟩, hall⟩
    exact ⟨⟨hc, (h c hc).2 hQ⟩, fun n hn hP => hall n hn ((h n hn).1 hP)⟩

theorem find_enclosing_iff (hd : Cursor.Of t.root d) :
    d.enclosing.find? (·.kind = .ifStatement) = some c ↔ t.Innermost (·.path <+: d.path) c := by
  have hfirst : ∀ {c}, d.enclosing.find? (·.kind = .ifStatement) = some c →
      t.Innermost (·.path <+: d.path) c := by
    intro c hfind
    obtain ⟨hkind, as, bs, hsplit, has⟩ := List.find?_eq_some_iff_append.1 hfind
    have horder := hd.pairwise_enclosing
    have hmem : c ∈ d.enclosing := List.mem_of_find?_eq_some hfind
    obtain ⟨hnode, hof, hpre⟩ := hd.mem_enclosing_iff.1 hmem
    refine ⟨⟨⟨hof, hnode, by simpa using hkind⟩, hpre⟩, fun n hn hnpre => ?_⟩
    have hn' := hd.mem_enclosing_iff.2 ⟨hn.2.1, hn.1, hnpre⟩
    rw [hsplit, List.mem_append, List.mem_cons] at hn'
    rw [hsplit, List.pairwise_append, List.pairwise_cons] at horder
    rcases hn' with hin | rfl | hin
    · have hother := has n hin
      simp [hn.2.2] at hother
    · exact List.prefix_refl _
    · -- Both are on the way from the root to `d`, and `n` comes first.
      obtain ⟨hle, hne⟩ := horder.2.1.1 n hin
      rcases List.prefix_or_prefix_of_prefix hnpre hpre with h | h
      · exact h
      · exact absurd (Path.le_antisymm hle (Path.le_of_prefix h)) hne
  constructor
  · exact hfirst
  · intro hc
    cases hfind : d.enclosing.find? (·.kind = .ifStatement) with
    | none =>
      have hmem := hd.mem_enclosing_iff.2 ⟨hc.1.1.2.1, hc.1.1.1, hc.1.2⟩
      have hnone := List.find?_eq_none.1 hfind c hmem
      simp [hc.1.1.2.2] at hnone
    | some x => rw [(hfirst hfind).unique hc]

theorem locate_eq (t : Tree) (offset : Nat) :
    t.locate offset = ((t.cursor.tokenAt? offset).bind fun token =>
      token.enclosing.find? (·.kind = .ifStatement)).elim (.error (.locate offset)) .ok := by
  unfold locate
  cases (t.cursor.tokenAt? offset).bind fun token =>
    token.enclosing.find? (·.kind = .ifStatement) <;> rfl

theorem locate_iff {found : Option Cursor} :
    t.locate offset = found.elim (.error (.locate offset)) .ok ↔
      ((t.cursor.tokenAt? offset).bind fun token =>
        token.enclosing.find? (·.kind = .ifStatement)) = found := by
  rw [locate_eq]
  cases (t.cursor.tokenAt? offset).bind fun token =>
    token.enclosing.find? (·.kind = .ifStatement) <;> cases found <;> simp

theorem locate_eq_ok_iff :
    t.locate offset = .ok c ↔ ∃ d, t.cursor.tokenAt? offset = some d ∧
      t.Innermost (·.path <+: d.path) c := by
  refine (@locate_iff t offset (some c)).trans (Option.bind_eq_some_iff.trans ?_)
  refine exists_congr fun d => and_congr_right fun hd => ?_
  exact find_enclosing_iff (Cursor.Of.root.tokenAt hd)

theorem locate_eq_error_iff :
    t.locate offset = .error (.locate offset) ↔ ∀ d, t.cursor.tokenAt? offset = some d →
      ∀ c, t.IsIf c → ¬ c.path <+: d.path := by
  refine (@locate_iff t offset none).trans (Option.bind_eq_none_iff.trans ?_)
  refine forall_congr' fun d => imp_congr_right fun hd => ?_
  have hmem := fun {n} => (Cursor.Of.root.tokenAt hd).mem_enclosing_iff (n := n)
  rw [List.find?_eq_none]
  constructor
  · intro hnone c hc hpre
    exact hnone c (hmem.2 ⟨hc.2.1, hc.1, hpre⟩) (by simp [hc.2.2])
  · intro hnone c hc hkind
    obtain ⟨hnode, hof, hpre⟩ := hmem.1 hc
    exact hnone c ⟨hof, hnode, by simpa using hkind⟩ hpre

/-- Before the end of the text, it is the last if statement in the walk that contains the offset. -/
theorem locate_of_lt (ht : t.root.sound = true) (h : offset < t.root.width) :
    t.locate offset = (t.cursor.nodes.filter fun n =>
      n.kind = .ifStatement && n.fullSpan.contains offset).getLast?.elim
        (.error (.locate offset)) .ok := by
  obtain ⟨d, hfound, hd, hin⟩ := Cursor.exists_tokenAt ht h
  rw [locate_eq, cursor, hfound, Option.bind_some, hd.1.find_enclosing]
  congr 2
  apply List.filter_congr
  intro n hn
  congr 1
  rw [Bool.eq_iff_iff, List.isPrefixOf_iff_prefix]
  exact hd.prefix_iff ht hin (Cursor.mem_nodes_ofRoot.1 hn).2

theorem locate_eq_ok_of_lt (ht : t.root.sound = true) (h : offset < t.root.width) :
    t.locate offset = .ok c ↔ t.Innermost (·.fullSpan.contains offset = true) c := by
  obtain ⟨d, hfound, hd, hin⟩ := Cursor.exists_tokenAt ht h
  rw [locate_eq_ok_iff, cursor, hfound]
  have hcongr := Innermost.congr (t := t) (c := c) fun n hn => hd.prefix_iff ht hin hn.1
  simpa using hcongr

theorem locate_eq_error_of_lt (ht : t.root.sound = true) (h : offset < t.root.width) :
    t.locate offset = .error (.locate offset) ↔
      ∀ c, t.IsIf c → c.fullSpan.contains offset = false := by
  obtain ⟨d, hfound, hd, hin⟩ := Cursor.exists_tokenAt ht h
  rw [locate_eq_error_iff, cursor, hfound]
  constructor
  · intro hnone c hc
    have hout := hnone d rfl c hc
    rw [hd.prefix_iff ht hin hc.1] at hout
    simpa using hout
  · rintro hnone _ ⟨⟩ c hc hpre
    rw [hd.prefix_iff ht hin hc.1, hnone c hc] at hpre
    cases hpre

/-- An offset has one token, and the statement found is the innermost if statement around that. -/
theorem locate_innermost (t : Tree) (ht : t.root.sound = true) :
    (∀ offset < t.root.width,
      (∃ d, t.cursor.tokenAt? offset = some d ∧ ∀ c,
        Cursor.IsToken t.root c ∧ c.fullSpan.contains offset = true ↔ c = d) ∧
      (∀ c, t.locate offset = .ok c ↔ t.Innermost (·.fullSpan.contains offset = true) c) ∧
      (t.locate offset = (t.cursor.nodes.filter fun n =>
        n.kind = .ifStatement && n.fullSpan.contains offset).getLast?.elim
          (.error (.locate offset)) .ok) ∧
      (t.locate offset = .error (.locate offset) ↔
        ∀ c, t.IsIf c → c.fullSpan.contains offset = false)) ∧
    ((∀ d, t.cursor.tokenAt? t.root.width = some d ↔
        Cursor.IsToken t.root d ∧ ∀ c, Cursor.IsToken t.root c → Path.le c.path d.path = true) ∧
      (∀ c, t.locate t.root.width = .ok c ↔
        ∃ d, t.cursor.tokenAt? t.root.width = some d ∧ t.Innermost (·.path <+: d.path) c) ∧
      (t.locate t.root.width = .error (.locate t.root.width) ↔
        ∀ d, t.cursor.tokenAt? t.root.width = some d → ∀ c, t.IsIf c → ¬ c.path <+: d.path)) ∧
    ∀ offset, t.root.width < offset →
      t.cursor.tokenAt? offset = none ∧ t.locate offset = .error (.locate offset) := by
  have hend : t.cursor.tokenAt? t.root.width = t.cursor.lastToken? := by
    unfold Cursor.tokenAt?
    rw [if_pos (by simp [Cursor.fullSpan, cursor, Cursor.ofRoot])]
  refine ⟨fun offset h => ⟨?_, fun c => locate_eq_ok_of_lt ht h, locate_of_lt ht h,
    locate_eq_error_of_lt ht h⟩, ⟨fun d => ?_, fun c => locate_eq_ok_iff, locate_eq_error_iff⟩,
    fun offset h => ?_⟩
  · obtain ⟨d, hfound, hd, hin⟩ := Cursor.exists_tokenAt ht h
    refine ⟨d, hfound, fun c => ⟨fun hc => hc.1.eq_of_contains ht hd hc.2 hin, ?_⟩⟩
    rintro rfl
    exact ⟨hd, hin⟩
  · rw [hend]
    exact Cursor.lastToken?_iff
  · have hnone := Cursor.tokenAt?_of_width_lt h
    refine ⟨hnone, ?_⟩
    rw [locate_eq, cursor, hnone]
    rfl

end Tree

namespace Sample

def layered : Tree :=
  { root := .make [] .compilationUnit
      [.make [] .ifStatement
        [.token { label := [], kind := .ifKeyword, text := "if", trailing := " " },
          .make [] .ifStatement [], .token { label := [], kind := .identifier, text := "" },
          .make [] .ifStatement [.token { label := [], kind := .identifier, text := "é" }]],
        .token { label := [], kind := .semicolon, text := ";" }] }

end Sample

theorem Sample.locate_layered :
    Sample.layered.root.sound = true ∧ Sample.layered.root.width = 6 ∧
      (∃ c, Sample.layered.locate 3 = .ok c ∧ c.path = [0, 3] ∧
        ∀ n, Sample.layered.IsIf n → n.fullSpan.contains 3 = true → n.path <+: [0, 3]) ∧
      (∀ n, Sample.layered.IsIf n → n.fullSpan.contains 5 = false) ∧
      Sample.layered.locate 6 = .error (.locate 6) ∧
      Sample.layered.locate 7 = .error (.locate 7) := by
  have hsound : Sample.layered.root.sound = true := by decide
  obtain ⟨hin, -, hout⟩ := Tree.locate_innermost Sample.layered hsound
  obtain ⟨c, hc⟩ : ∃ c, Sample.layered.locate 3 = .ok c := ⟨_, rfl⟩
  have hinner := ((hin 3 (by decide)).2.1 c).1 hc
  have hpath : c.path = [0, 3] := by
    cases hc
    rfl
  refine ⟨hsound, rfl, ⟨c, hc, hpath, fun n hn h => ?_⟩, ?_, ?_, (hout 7 (by decide)).2⟩
  · rw [← hpath]
    exact hinner.2 n hn h
  · exact (hin 5 (by decide)).2.2.2.1 rfl
  · rfl

end CancellationLint
