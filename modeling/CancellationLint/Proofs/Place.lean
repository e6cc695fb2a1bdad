import CancellationLint.Proofs.Sound
import Mathlib.Data.List.Infix
import Mathlib.Data.List.Sort

/-! # Places in an element

Two paths either run into each other or part at some node. An element that is replaced takes its
tokens with it and leaves the tokens before and after its place alone, and so every place from which
its own place parts. -/

namespace CancellationLint

/-! ## Paths that part -/

namespace Path

/-- Whether the first path parts from the second one to the left. -/
def Precedes : Path → Path → Prop
  | i :: p, j :: q => i < j ∨ i = j ∧ Precedes p q
  | _, _ => False

/-- Whether neither of two paths runs into the other. -/
def Apart (p q : Path) : Prop := ¬ p <+: q ∧ ¬ q <+: p

theorem Apart.symm {p q : Path} (h : Apart p q) : Apart q p := ⟨h.2, h.1⟩

theorem apart_cons_iff (i : Nat) (p q : Path) : Apart (i :: p) (i :: q) ↔ Apart p q := by
  simp [Apart, List.cons_prefix_cons]

theorem le_total (p q : Path) : le p q = true ∨ le q p = true := by
  induction p, q using le.induct with
  | case1 q => exact Or.inl rfl
  | case2 i p => exact Or.inr rfl
  | case3 i p j q ih =>
    simp only [le, Bool.or_eq_true, Bool.and_eq_true, decide_eq_true_eq]
    rcases ih with ih | ih <;> simp only [ih, and_true] <;> omega

theorem le_trans {p q r : Path} (hpq : le p q = true) (hqr : le q r = true) : le p r = true := by
  induction p generalizing q r with
  | nil => rfl
  | cons i p ih =>
    cases q with
    | nil => cases hpq
    | cons j q =>
      cases r with
      | nil => cases hqr
      | cons k r =>
        simp only [le, Bool.or_eq_true, Bool.and_eq_true, decide_eq_true_eq] at *
        rcases hpq with hij | ⟨rfl, hpq⟩ <;> rcases hqr with hjk | ⟨rfl, hqr⟩
        · exact Or.inl (hij.trans hjk)
        · exact Or.inl hij
        · exact Or.inl hjk
        · exact Or.inr ⟨rfl, ih hpq hqr⟩

theorem le_antisymm {p q : Path} (hpq : le p q = true) (hqp : le q p = true) : p = q := by
  induction p generalizing q with
  | nil =>
    cases q with
    | nil => rfl
    | cons j q => cases hqp
  | cons i p ih =>
    cases q with
    | nil => cases hpq
    | cons j q =>
      simp only [le, Bool.or_eq_true, Bool.and_eq_true, decide_eq_true_eq] at *
      rcases hpq with hij | ⟨rfl, hpq⟩
      · omega
      · rcases hqp with hlt | ⟨-, hqp⟩
        · omega
        · rw [ih hpq hqp]

theorem le_of_prefix {p q : Path} (h : p <+: q) : le p q = true := by
  obtain ⟨r, rfl⟩ := h
  induction p with
  | nil => rfl
  | cons i p ih => simp [le, ih]

/-- The strict order of paths: a node, then its children with all that is in them. -/
def Before (p q : Path) : Prop := le p q = true ∧ p ≠ q

theorem Before.asymm {p q : Path} (h : Before p q) : ¬ Before q p :=
  fun h' => h.2 (le_antisymm h.1 h'.1)

theorem eq_of_mem_iff {α : Type} {f : α → Path} {as bs : List α}
    (ha : as.Pairwise fun a b => Before (f a) (f b))
    (hb : bs.Pairwise fun a b => Before (f a) (f b)) (h : ∀ a, a ∈ as ↔ a ∈ bs) : as = bs := by
  have : Std.Antisymm fun a b => Before (f a) (f b) := ⟨fun _ _ h h' => absurd h' h.asymm⟩
  have : Std.Irrefl fun a b => Before (f a) (f b) := ⟨fun _ h => h.2 rfl⟩
  exact ha.eq_of_mem_iff hb h

theorem Precedes.apart {p q : Path} (h : Precedes p q) : Apart p q := by
  induction p generalizing q with
  | nil => exact h.elim
  | cons i p ih =>
    cases q with
    | nil => exact h.elim
    | cons j q =>
      rcases h with h | ⟨rfl, h⟩
      · constructor <;> rw [List.cons_prefix_cons] <;> omega
      · exact (apart_cons_iff i p q).2 (ih h)

theorem Precedes.le {p q : Path} (h : Precedes p q) : le p q = true := by
  induction p generalizing q with
  | nil => exact h.elim
  | cons i p ih =>
    cases q with
    | nil => exact h.elim
    | cons j q =>
      simp only [Path.le, Bool.or_eq_true, Bool.and_eq_true, decide_eq_true_eq]
      exact h.imp_right fun h => ⟨h.1, ih h.2⟩

theorem Precedes.ne {p q : Path} (h : Precedes p q) : p ≠ q := by
  rintro rfl
  exact h.apart.1 (List.prefix_refl _)

theorem Precedes.append_left (r : Path) {p q : Path} (h : Precedes p q) :
    Precedes (r ++ p) (r ++ q) := by
  induction r with
  | nil => exact h
  | cons i r ih => exact Or.inr ⟨rfl, ih⟩

theorem precedes_of_le {p q : Path} (h : le p q = true) (hp : ¬ p <+: q) : Precedes p q := by
  induction p generalizing q with
  | nil => exact absurd List.nil_prefix hp
  | cons i p ih =>
    cases q with
    | nil => cases h
    | cons j q =>
      simp only [le, Bool.or_eq_true, Bool.and_eq_true, decide_eq_true_eq] at h
      rcases h with hlt | ⟨rfl, hle⟩
      · exact Or.inl hlt
      · exact Or.inr ⟨rfl, ih hle fun hpre => hp (List.cons_prefix_cons.2 ⟨rfl, hpre⟩)⟩

end Path

namespace Element

/-! ## What stands at a place -/

theorem at?_cons_iff {i : Nat} {p : Path} {e x : Element} :
    e.at? (i :: p) = some x ↔ ∃ child, e.children[i]? = some child ∧ child.at? p = some x := by
  cases e with
  | token t => simp [Element.at?, children]
  | node h es => simp [Element.at?, children, Option.bind_eq_some_iff]

theorem at?_append_iff {p q : Path} {e x : Element} :
    e.at? (p ++ q) = some x ↔ ∃ y, e.at? p = some y ∧ y.at? q = some x := by
  induction p generalizing e with
  | nil => simp [Element.at?]
  | cons i p ih =>
    simp only [List.cons_append, at?_cons_iff, ih]
    exact ⟨fun ⟨child, hc, y, hy, hx⟩ => ⟨y, ⟨child, hc, hy⟩, hx⟩,
      fun ⟨y, ⟨child, hc, hy⟩, hx⟩ => ⟨child, hc, y, hy, hx⟩⟩

theorem all_at {test : Element → Bool} {p : Path} {e x : Element} (he : e.all test = true)
    (h : e.at? p = some x) : x.all test = true := by
  induction p generalizing e with
  | nil =>
    cases h
    exact he
  | cons i p ih =>
    obtain ⟨child, hc, hx⟩ := at?_cons_iff.1 h
    exact ih (all_of_mem he (List.mem_of_getElem? hc)) hx

theorem hasError_at {p : Path} {e x : Element} (he : e.showsErrors = true)
    (hno : e.hasError = false) (h : e.at? p = some x) : x.hasError = false := by
  induction p generalizing e with
  | nil =>
    cases h
    exact hno
  | cons i p ih =>
    obtain ⟨child, hc, hx⟩ := at?_cons_iff.1 h
    have hmem := List.mem_of_getElem? hc
    refine ih (all_of_mem he hmem) ?_ hx
    cases e with
    | token t => cases hmem
    | node g es =>
      by_contra herr
      have hany : es.any hasError = true :=
        List.any_eq_true.2 ⟨child, hmem, by simpa using herr⟩
      have := (showsErrors_node_iff.1 he).1 (Or.inr hany)
      rw [hasError, this] at hno
      cases hno

/-! ## The tokens before and after a place -/

/-- The tokens of an element up to those of the one at the end of a path. -/
def before : Path → Element → List Token
  | [], _ => []
  | i :: p, e =>
    (e.children.take i).flatMap tokens ++
      match e.children[i]? with
      | some child => before p child
      | none => []

/-- The tokens of an element behind those of the one at the end of a path. -/
def after : Path → Element → List Token
  | [], _ => []
  | i :: p, e =>
    (match e.children[i]? with
      | some child => after p child
      | none => []) ++ (e.children.drop (i + 1)).flatMap tokens

theorem tokens_of_left {es : List Element} {i j : Nat} {x : Element}
    (h : (es.take j).flatMap tokens = []) (hlt : i < j) (hx : es[i]? = some x) : x.tokens = [] :=
  List.flatMap_eq_nil_iff.1 h x (List.mem_of_getElem? ((List.getElem?_take_of_lt hlt).trans hx))

theorem before_cons {i : Nat} {p : Path} {e child : Element} (h : e.children[i]? = some child) :
    before (i :: p) e = (e.children.take i).flatMap tokens ++ before p child := by
  rw [before, h]

theorem after_cons {i : Nat} {p : Path} {e child : Element} (h : e.children[i]? = some child) :
    after (i :: p) e = after p child ++ (e.children.drop (i + 1)).flatMap tokens := by
  rw [after, h]

theorem before_append {p : Path} {e x : Element} (h : e.at? p = some x) (q : Path) :
    before (p ++ q) e = before p e ++ before q x := by
  induction p generalizing e with
  | nil =>
    cases h
    rfl
  | cons i p ih =>
    obtain ⟨child, hc, hx⟩ := at?_cons_iff.1 h
    rw [List.cons_append, before_cons hc, before_cons hc, ih hx, List.append_assoc]

theorem tokens_of_child {i : Nat} {e child : Element} (h : e.children[i]? = some child) :
    e.tokens = (e.children.take i).flatMap tokens ++ child.tokens ++
      (e.children.drop (i + 1)).flatMap tokens := by
  cases e with
  | token t => cases h
  | node g es =>
    rw [children] at h ⊢
    obtain ⟨hi, rfl⟩ := List.getElem?_eq_some_iff.1 h
    rw [tokens_node]
    conv_lhs => rw [← List.take_append_drop i es, List.drop_eq_getElem_cons hi]
    rw [List.flatMap_append, List.flatMap_cons, List.append_assoc]

theorem tokens_at {p : Path} {e x : Element} (h : e.at? p = some x) :
    e.tokens = before p e ++ x.tokens ++ after p e := by
  induction p generalizing e with
  | nil =>
    cases h
    simp [before, after]
  | cons i p ih =>
    obtain ⟨child, hc, hx⟩ := at?_cons_iff.1 h
    rw [tokens_of_child hc, ih hx, before_cons hc, after_cons hc]
    simp only [List.append_assoc]

theorem text_size_at {p : Path} {e x : Element} (h : e.at? p = some x) :
    x.text.utf8ByteSize ≤ e.text.utf8ByteSize := by
  rw [text_eq, text_eq, tokens_at h]
  by_cases hx : x.tokens = []
  · rw [hx, Token.textOf]
    exact Nat.zero_le _
  · obtain ⟨a, c, hac⟩ := Token.textOf_infix (before p e) x.tokens (after p e) hx
    rw [hac, String.utf8ByteSize_append, String.utf8ByteSize_append]
    omega

theorem before_of_precedes {p q : Path} {e x : Element} (h : Path.Precedes p q)
    (hx : e.at? p = some x) : ∃ m, before q e = before p e ++ x.tokens ++ m := by
  induction p generalizing q e with
  | nil => exact h.elim
  | cons i p ih =>
    cases q with
    | nil => exact h.elim
    | cons j q =>
      obtain ⟨child, hc, hx⟩ := at?_cons_iff.1 hx
      rcases h with h | ⟨rfl, h⟩
      · -- The whole child on the way of `p` is to the left of the way of `q`.
        have hi : i < e.children.length := (List.getElem?_eq_some_iff.1 hc).1
        have hsplit : e.children.take j =
            e.children.take i ++ child :: (e.children.take j).drop (i + 1) := by
          conv_lhs => rw [← List.take_append_drop i (e.children.take j)]
          rw [List.take_take, min_eq_left (by omega), List.drop_eq_getElem_cons (by simp; omega)]
          simp [List.getElem?_eq_some_iff.1 hc |>.2]
        rw [before, hsplit, before_cons hc, List.flatMap_append, List.flatMap_cons, tokens_at hx]
        simp only [List.append_assoc]
        exact ⟨_, rfl⟩
      · obtain ⟨m, hm⟩ := ih h hx
        exact ⟨m, by rw [before_cons hc, before_cons hc, hm]; simp only [List.append_assoc]⟩

/-! ## Replacing what stands at a place -/

theorem put?_cons_iff {l : Label} {new e e' : Element} {i : Nat} {p : Path} :
    put? l new (i :: p) e = some e' ↔ ∃ h es old child, e = .node h es ∧ es[i]? = some old ∧
      put? (l.sub 0) new p old = some child ∧
        e' = .node (h.swap l old (es.set i child)) (es.set i child) := by
  cases e with
  | token t => simp [put?]
  | node h es =>
    simp only [put?, Option.bind_eq_some_iff, Option.map_eq_some_iff, Element.node.injEq]
    constructor
    · rintro ⟨old, hold, child, hchild, rfl⟩
      exact ⟨h, es, old, child, ⟨rfl, rfl⟩, hold, hchild, rfl⟩
    · rintro ⟨_, _, old, child, ⟨rfl, rfl⟩, hold, hchild, rfl⟩
      exact ⟨old, hold, child, hchild, rfl⟩

theorem exists_put {l : Label} {new e x : Element} {p : Path} (h : e.at? p = some x) :
    ∃ e', put? l new p e = some e' := by
  induction p generalizing e l with
  | nil => exact ⟨new, rfl⟩
  | cons i p ih =>
    cases e with
    | token t => cases h
    | node g es =>
      obtain ⟨old, hold, hx⟩ := at?_cons_iff.1 h
      obtain ⟨child, hchild⟩ := @ih (l.sub 0) old hx
      exact ⟨_, put?_cons_iff.2 ⟨g, es, old, child, rfl, hold, hchild, rfl⟩⟩

theorem at?_put_of_apart {l : Label} {new e e' : Element} {p q : Path} (hpq : Path.Apart p q)
    (h : put? l new p e = some e') : e'.at? q = e.at? q := by
  induction p generalizing q e e' l with
  | nil => exact absurd List.nil_prefix hpq.1
  | cons i p ih =>
    obtain ⟨g, es, old, child, rfl, hold, hchild, rfl⟩ := put?_cons_iff.1 h
    have hi : i < es.length := (List.getElem?_eq_some_iff.1 hold).1
    cases q with
    | nil => exact absurd List.nil_prefix hpq.2
    | cons j q =>
      simp only [Element.at?]
      by_cases hij : i = j
      · subst hij
        rw [List.getElem?_set_self hi, hold]
        exact ih ((Path.apart_cons_iff i p q).1 hpq) hchild
      · rw [List.getElem?_set_ne hij]

theorem sound_put {l : Label} {new e e' : Element} {p : Path} (he : e.sound = true)
    (hnew : new.sound = true) (h : put? l new p e = some e') : e'.sound = true := by
  induction p generalizing e e' l with
  | nil =>
    cases h
    exact hnew
  | cons i p ih =>
    obtain ⟨g, es, old, child, rfl, hold, hchild, rfl⟩ := put?_cons_iff.1 h
    have hes := ((sound_node_iff g es).1 he).2.2
    exact sound_set he (ih (hes old (List.mem_of_getElem? hold)) hchild)

/-- The tokens change at the place and nowhere else. -/
theorem tokens_put {l : Label} {new e e' : Element} {p : Path} (h : put? l new p e = some e') :
    e'.tokens = before p e ++ new.tokens ++ after p e := by
  induction p generalizing e e' l with
  | nil =>
    cases h
    simp [before, after]
  | cons i p ih =>
    obtain ⟨g, es, old, child, rfl, hold, hchild, rfl⟩ := put?_cons_iff.1 h
    have hi : i < es.length := (List.getElem?_eq_some_iff.1 hold).1
    have hset : (Element.node (g.swap l old (es.set i child)) (es.set i child)).children[i]? =
        some child := List.getElem?_set_self hi
    rw [tokens_of_child hset, ih hchild, before_cons (e := .node g es) hold,
      after_cons (e := .node g es) hold]
    simp only [children, List.take_set_of_le le_rfl, List.drop_set_of_lt (Nat.lt_succ_self i),
      List.append_assoc]

theorem after_put {l : Label} {new e e' : Element} {p q : Path} (hpq : Path.Precedes p q)
    (h : put? l new p e = some e') : after q e' = after q e := by
  induction p generalizing q e e' l with
  | nil => exact hpq.elim
  | cons i p ih =>
    obtain ⟨g, es, old, child, rfl, hold, hchild, rfl⟩ := put?_cons_iff.1 h
    have hi : i < es.length := (List.getElem?_eq_some_iff.1 hold).1
    cases q with
    | nil => exact hpq.elim
    | cons j q =>
      rcases hpq with hij | ⟨rfl, hpq⟩
      · simp only [after, children, List.getElem?_set_ne (Nat.ne_of_lt hij),
          List.drop_set_of_lt (show i < j + 1 by omega)]
      · simp only [after, children, List.getElem?_set_self hi, hold, ih hpq hchild,
          List.drop_set_of_lt (Nat.lt_succ_self i)]

theorem exists_between {e x y : Element} {p q : Path} (hpq : Path.Precedes p q)
    (hx : e.at? p = some x) (hy : e.at? q = some y) :
    ∃ m, before q e = before p e ++ x.tokens ++ m ∧ after p e = m ++ y.tokens ++ after q e := by
  obtain ⟨m, hm⟩ := before_of_precedes hpq hx
  refine ⟨m, hm, ?_⟩
  have htwice := (tokens_at hx).symm.trans (tokens_at hy)
  rw [hm] at htwice
  simpa only [List.append_assoc, List.append_cancel_left_eq] using htwice

theorem before_put {l : Label} {new e e' y : Element} {p q : Path} {m : List Token}
    (hpq : Path.Precedes p q) (hy : e.at? q = some y) (hm : after p e = m ++ y.tokens ++ after q e)
    (h : put? l new p e = some e') : before q e' = before p e ++ new.tokens ++ m := by
  have hnew := (tokens_put h).symm.trans
    (tokens_at ((at?_put_of_apart hpq.apart h).trans hy))
  rw [hm, after_put hpq h] at hnew
  simpa only [← List.append_assoc, List.append_cancel_right_eq] using hnew.symm

end Element
end CancellationLint
