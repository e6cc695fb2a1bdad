import CancellationLint.Proofs.UpToLabels
import CancellationLint.Proofs.Positions
import CancellationLint.Proofs.OuterTrivia

/-! # Laws of replacement

What is put at a path is found there, and whatever lies apart stays the same object. Reading an
element and putting it where it was, and two replacements that lie apart, done in either order, give
trees that are equal but for their labels. That is so for the error marks too, though a node keeps a
mark only as long as the child that gives way does not account for it. -/

namespace CancellationLint
namespace Element

/-! ## Marks along the way -/

/-- Whether one of the elements other than the one at `i` is in error. -/
def ErrorBeside (i : Nat) (es : List Element) : Prop :=
  ∃ j d, j ≠ i ∧ es[j]? = some d ∧ d.hasError = true

theorem any_hasError_set_iff {es : List Element} {old : Element} {i : Nat}
    (hold : es[i]? = some old) (new : Element) :
    (es.set i new).any hasError = true ↔ new.hasError = true ∨ ErrorBeside i es := by
  have hi : i < es.length := (List.getElem?_eq_some_iff.1 hold).1
  simp only [List.any_eq_true, List.mem_iff_getElem?]
  constructor
  · rintro ⟨d, ⟨j, hj⟩, hd⟩
    by_cases hij : i = j
    · subst hij
      rw [List.getElem?_set_self hi] at hj
      cases hj
      exact Or.inl hd
    · rw [List.getElem?_set_ne hij] at hj
      exact Or.inr ⟨j, d, Ne.symm hij, hj, hd⟩
  · rintro (hnew | ⟨j, d, hji, hj, hd⟩)
    · exact ⟨new, ⟨i, List.getElem?_set_self hi⟩, hnew⟩
    · exact ⟨d, ⟨j, by rw [List.getElem?_set_ne hji.symm]; exact hj⟩, hd⟩

theorem set_of_getElem? {es : List Element} {old : Element} {i : Nat} (hold : es[i]? = some old) :
    es.set i old = es := by
  obtain ⟨hi, rfl⟩ := List.getElem?_eq_some_iff.1 hold
  exact List.set_getElem_self hi

theorem any_hasError_iff {es : List Element} {old : Element} {i : Nat} (hold : es[i]? = some old) :
    es.any hasError = true ↔ old.hasError = true ∨ ErrorBeside i es := by
  have hsame := any_hasError_set_iff hold old
  rwa [set_of_getElem? hold] at hsame

theorem hasError_swap_iff {h : Head} {l : Label} {old : Element} {es : List Element} :
    (h.swap l old es).hasError = true ↔
      h.kind = .error ∨ es.any hasError = true ∨ h.hasError = true ∧ old.hasError = false := by
  simp [Head.swap, or_assoc]

theorem hasError_swap_swap_iff {h : Head} {l m : Label} {a b c : Element} {es : List Element}
    {j : Nat} (hb : es[j]? = some b) :
    ((h.swap l a es).swap m b (es.set j c)).hasError = true ↔
      h.kind = .error ∨ (es.set j c).any hasError = true ∨
        h.hasError = true ∧ a.hasError = false ∧ b.hasError = false := by
  have hkind : (h.swap l a es).kind = h.kind := rfl
  rw [hasError_swap_iff, hasError_swap_iff, hkind, any_hasError_set_iff hb, any_hasError_iff hb]
  cases b.hasError with
  | true => simp
  | false =>
    simp only [Bool.false_eq_true, false_or, and_true]
    tauto

theorem hasError_put_of_new {l : Label} {new e e' : Element} {p : Path} (hnew : new.hasError = true)
    (h : put? l new p e = some e') : e'.hasError = true := by
  induction p generalizing e e' l with
  | nil =>
    cases h
    exact hnew
  | cons i p ih =>
    obtain ⟨g, es, old, child, rfl, hold, hchild, rfl⟩ := put?_cons_iff.1 h
    have hany := (any_hasError_set_iff hold child).2 (Or.inl (ih hchild))
    exact hasError_swap_iff.2 (Or.inr (Or.inl hany))

theorem clean_of_sound {h : Head} {es : List Element} (hs : (Element.node h es).sound = true)
    (hno : h.hasError = false) : h.kind ≠ .error ∧ ¬ es.any hasError = true := by
  obtain ⟨-, hmark, -⟩ := (sound_node_iff h es).1 hs
  rw [hno] at hmark
  constructor
  · intro hkind
    cases hmark (Or.inl hkind)
  · intro hany
    cases hmark (Or.inr hany)

theorem hasError_put_eq {l : Label} {new e e' : Element} {p : Path} (he : e.sound = true)
    (hno : e.hasError = false) (h : put? l new p e = some e') : e'.hasError = new.hasError := by
  cases hnew : new.hasError with
  | true => exact hasError_put_of_new hnew h
  | false =>
    induction p generalizing e e' l with
    | nil =>
      cases h
      exact hnew
    | cons i p ih =>
      obtain ⟨g, es, old, child, rfl, hold, hchild, rfl⟩ := put?_cons_iff.1 h
      obtain ⟨hkind, hany⟩ := clean_of_sound he hno
      rw [any_hasError_iff hold, not_or] at hany
      have hsound := ((sound_node_iff g es).1 he).2.2 old (List.mem_of_getElem? hold)
      have hchild' := ih hsound (by simpa using hany.1) hchild
      have hg : g.hasError = false := hno
      rw [hasError, Bool.eq_false_iff, ne_eq, hasError_swap_iff, any_hasError_set_iff hold, hchild',
        hg]
      simp [hkind, hany.2]

/-! ## Reading and putting -/

theorem at?_put_same {l : Label} {new e e' : Element} {p : Path} (h : put? l new p e = some e') :
    e'.at? p = some new := by
  induction p generalizing e e' l with
  | nil =>
    cases h
    rfl
  | cons i p ih =>
    obtain ⟨g, es, old, child, rfl, hold, hchild, rfl⟩ := put?_cons_iff.1 h
    have hi : i < es.length := (List.getElem?_eq_some_iff.1 hold).1
    exact at?_cons_iff.2 ⟨child, List.getElem?_set_self hi, ih hchild⟩

theorem exists_at_of_put {l : Label} {new e e' : Element} {p : Path}
    (h : put? l new p e = some e') : ∃ x, e.at? p = some x := by
  induction p generalizing e e' l with
  | nil => exact ⟨e, rfl⟩
  | cons i p ih =>
    obtain ⟨g, es, old, child, rfl, hold, hchild, -⟩ := put?_cons_iff.1 h
    obtain ⟨x, hx⟩ := ih hchild
    exact ⟨x, at?_cons_iff.2 ⟨old, hold, hx⟩⟩

theorem forall₂_alike_refl (es : List Element) :
    List.Forall₂ (fun a b => a.alike b = true) es es :=
  List.forall₂_same.2 fun e _ => alike_refl e

theorem forall₂_set_left {es : List Element} {old new : Element} {i : Nat}
    (hold : es[i]? = some old) (h : new.alike old = true) :
    List.Forall₂ (fun a b => a.alike b = true) (es.set i new) es := by
  have hset := forall₂_set i (forall₂_alike_refl es) h
  rwa [set_of_getElem? hold] at hset

theorem alike_set_iff {g k : Head} {l : Label} {es : List Element} {old new gone : Element}
    {i : Nat} (hs : (Element.node g es).sound = true) (hold : es[i]? = some old)
    (hkind : k.kind = g.kind) (href : k.reformat = g.reformat) :
    (Element.node (k.swap l gone (es.set i new)) (es.set i new)).alike (.node g es) = true ↔
      new.alike old = true ∧ (k.swap l gone (es.set i new)).hasError = g.hasError := by
  have hi : i < es.length := (List.getElem?_eq_some_iff.1 hold).1
  rw [alike_node_iff]
  constructor
  · rintro ⟨hhead, hes⟩
    simp only [Head.alike, Bool.and_eq_true, decide_eq_true_eq] at hhead
    exact ⟨forall₂_getElem? hes (List.getElem?_set_self hi) hold, hhead.1.2⟩
  · rintro ⟨hnew, herr⟩
    have hes := forall₂_set_left hold hnew
    have hwidth : widthOf (es.set i new) = g.width :=
      (widthOf_of_alike hes).trans ((sound_node_iff g es).1 hs).1.symm
    refine ⟨?_, hes⟩
    simp only [Head.alike, herr, Bool.and_eq_true, decide_eq_true_eq, and_true]
    exact ⟨⟨hkind, hwidth⟩, href⟩

theorem alike_put_read {l : Label} {e e' x : Element} {p : Path} (he : e.sound = true)
    (hx : e.at? p = some x) (h : put? l x p e = some e') : e'.alike e = true := by
  induction p generalizing e e' l with
  | nil =>
    cases hx
    cases h
    exact alike_refl _
  | cons i p ih =>
    obtain ⟨g, es, old, child, rfl, hold, hchild, rfl⟩ := put?_cons_iff.1 h
    obtain ⟨d, hd, hx⟩ := at?_cons_iff.1 hx
    obtain rfl : d = old := Option.some.inj (hd.symm.trans hold)
    have hsound := ((sound_node_iff g es).1 he).2.2 d (List.mem_of_getElem? hold)
    have hlike := ih hsound hx hchild
    exact (alike_set_iff he hold rfl rfl).2
      ⟨hlike, hasError_swap (showsErrors_of_sound he) hold (hasError_of_alike hlike)⟩

/-- Whether a node is in error only because it was marked. -/
def markedItself : Element → Bool
  | .token _ => false
  | .node h es => h.hasError && !(h.kind = .error || es.any hasError)

theorem markedItself_eq_false_iff {h : Head} {es : List Element} :
    (Element.node h es).markedItself = false ↔
      (h.hasError = true → h.kind = .error ∨ es.any hasError = true) := by
  rw [markedItself, Bool.and_eq_false_iff, Bool.not_eq_false', Bool.or_eq_true, decide_eq_true_eq]
  cases h.hasError <;> simp

/-- Whether no node on the way to the end of the path is marked itself. -/
def UnmarkedAbove (p : Path) (e : Element) : Prop :=
  ∀ q y, q <+: p → q ≠ p → e.at? q = some y → y.markedItself = false

theorem unmarkedAbove_nil (e : Element) : UnmarkedAbove [] e := by
  intro q y hq hne _
  exact absurd (List.prefix_nil.1 hq) hne

theorem unmarkedAbove_cons_iff {i : Nat} {p : Path} {e d : Element} (hd : e.children[i]? = some d) :
    UnmarkedAbove (i :: p) e ↔ e.markedItself = false ∧ UnmarkedAbove p d := by
  constructor
  · intro h
    refine ⟨h [] e List.nil_prefix (by simp) rfl, fun q y hq hne hy => ?_⟩
    refine h (i :: q) y (List.cons_prefix_cons.2 ⟨rfl, hq⟩) (by simpa using hne) ?_
    exact at?_cons_iff.2 ⟨d, hd, hy⟩
  · rintro ⟨hself, h⟩ q y hq hne hy
    cases q with
    | nil =>
      cases hy
      exact hself
    | cons j q =>
      obtain ⟨rfl, hpre⟩ := List.cons_prefix_cons.1 hq
      obtain ⟨z, hz, hy⟩ := at?_cons_iff.1 hy
      obtain rfl : z = d := Option.some.inj (hz.symm.trans hd)
      exact h q y hpre (fun heq => hne (heq ▸ rfl)) hy

theorem hasError_swap_back_iff {g : Head} {l m : Label} {es : List Element} {old mid new : Element}
    {i : Nat} (hs : (Element.node g es).sound = true) (hold : es[i]? = some old)
    (hnew : new.alike old = true) :
    ((g.swap l old (es.set i mid)).swap m mid (es.set i new)).hasError = g.hasError ↔
      (Element.node g es).markedItself = false ∨ mid.hasError = false := by
  have hi : i < es.length := (List.getElem?_eq_some_iff.1 hold).1
  have hmark := ((sound_node_iff g es).1 hs).2.1
  have hflag := hasError_swap_swap_iff (h := g) (l := l) (m := m) (a := old) (c := new)
    (show (es.set i mid)[i]? = some mid from List.getElem?_set_self hi)
  rw [List.set_set, any_hasError_of_alike (forall₂_set_left hold hnew)] at hflag
  rw [Bool.eq_iff_iff, hflag, markedItself_eq_false_iff]
  by_cases hbad : g.kind = .error ∨ es.any hasError = true
  · have hg := hmark hbad
    exact ⟨fun _ => Or.inl fun _ => hbad, fun _ => ⟨fun _ => hg, fun _ => hbad.imp_right Or.inl⟩⟩
  · have hold' : old.hasError = false := by
      rw [not_or, any_hasError_iff hold, not_or] at hbad
      simpa using hbad.2.1
    rw [not_or] at hbad
    simp only [hbad.1, hbad.2, hold', false_or, true_and, Bool.false_eq_true]
    tauto

/-- A mark above is lost if the other element was in error and nothing else accounts for the mark.
-/
theorem alike_put_back_iff {l m : Label} {new e e₁ e₂ x : Element} {p : Path} (he : e.sound = true)
    (hx : e.at? p = some x) (h₁ : put? l new p e = some e₁) (h₂ : put? m x p e₁ = some e₂) :
    e₂.alike e = true ↔ new.hasError = false ∨ UnmarkedAbove p e := by
  induction p generalizing e e₁ e₂ l m with
  | nil =>
    cases hx
    cases h₁
    cases h₂
    simp [alike_refl, unmarkedAbove_nil]
  | cons i p ih =>
    obtain ⟨g, es, old, c₁, rfl, hold, hc₁, rfl⟩ := put?_cons_iff.1 h₁
    obtain ⟨_, _, b, c₂, heq, hb, hc₂, rfl⟩ := put?_cons_iff.1 h₂
    cases heq
    have hi : i < es.length := (List.getElem?_eq_some_iff.1 hold).1
    rw [List.getElem?_set_self hi] at hb
    cases hb
    obtain ⟨d, hd, hx⟩ := at?_cons_iff.1 hx
    obtain rfl : d = old := Option.some.inj (hd.symm.trans hold)
    have hsound := ((sound_node_iff g es).1 he).2.2 d (List.mem_of_getElem? hold)
    -- Below a node that is marked itself nothing was in error, so `c₁` is if `new` is.
    have hmid : (Element.node g es).markedItself = true → c₁.hasError = new.hasError := by
      intro hself
      rw [markedItself, Bool.and_eq_true, Bool.not_eq_true', Bool.or_eq_false_iff] at hself
      have hany := Bool.eq_false_iff.1 hself.2.2
      rw [ne_eq, any_hasError_iff hold, not_or] at hany
      exact hasError_put_eq hsound (by simpa using hany.1) hc₁
    simp only [List.set_set]
    rw [alike_set_iff he hold (k := g.swap l d (es.set i c₁)) rfl rfl, unmarkedAbove_cons_iff hd,
      and_congr_right fun hlike => hasError_swap_back_iff he hold hlike, ih hsound hx hc₁ hc₂]
    cases hself : (Element.node g es).markedItself with
    | false => simp
    | true =>
      rw [hmid hself]
      simp only [Bool.true_eq_false, false_or, false_and, or_false]
      exact and_iff_right_of_imp Or.inl

/-! ## Two replacements -/

theorem alike_swap_swap {g : Head} {l l' m m' : Label} {a b c d : Element}
    {es es' fs fs' : List Element} (hes : List.Forall₂ (fun a b => a.alike b = true) es' fs')
    (herr : ((g.swap l a es).swap m b es').hasError = ((g.swap l' c fs).swap m' d fs').hasError) :
    (Element.node ((g.swap l a es).swap m b es') es').alike
      (.node ((g.swap l' c fs).swap m' d fs') fs') = true := by
  rw [alike_node_iff]
  refine ⟨?_, hes⟩
  simp only [Head.alike, herr, Bool.and_eq_true, decide_eq_true_eq, and_true]
  exact ⟨⟨rfl, widthOf_of_alike hes⟩, rfl⟩

theorem hasError_put_put {l l' m m' : Label} {new new' e e₁ e₁₂ e₂ e₂₁ : Element} {p q : Path}
    (he : e.sound = true) (hno : e.hasError = false) (h₁ : put? l new p e = some e₁)
    (h₁₂ : put? m new' q e₁ = some e₁₂) (h₂ : put? l' new' q e = some e₂)
    (h₂₁ : put? m' new p e₂ = some e₂₁) :
    e₁.hasError = e₂.hasError ∨ e₁₂.hasError = true ∨ e₂₁.hasError = true := by
  rw [hasError_put_eq he hno h₁, hasError_put_eq he hno h₂]
  cases hnew : new.hasError with
  | true => exact Or.inr (Or.inr (hasError_put_of_new hnew h₂₁))
  | false =>
    cases hnew' : new'.hasError with
    | true => exact Or.inr (Or.inl (hasError_put_of_new hnew' h₁₂))
    | false => exact Or.inl rfl

/-- Replacements that lie apart can be done in either order. -/
theorem alike_put_put {l l' m m' : Label} {new new' e e₁ e₁₂ e₂ e₂₁ : Element} {p q : Path}
    (he : e.sound = true) (hpq : Path.Apart p q) (h₁ : put? l new p e = some e₁)
    (h₁₂ : put? m new' q e₁ = some e₁₂) (h₂ : put? l' new' q e = some e₂)
    (h₂₁ : put? m' new p e₂ = some e₂₁) : e₁₂.alike e₂₁ = true := by
  induction p generalizing q e e₁ e₁₂ e₂ e₂₁ l l' m m' with
  | nil => exact absurd List.nil_prefix hpq.1
  | cons i p ih =>
    cases q with
    | nil => exact absurd List.nil_prefix hpq.2
    | cons j q =>
      obtain ⟨g, es, a, a₁, rfl, ha, ha₁, rfl⟩ := put?_cons_iff.1 h₁
      obtain ⟨_, _, b, b₂, heq, hb, hb₂, rfl⟩ := put?_cons_iff.1 h₂
      cases heq
      obtain ⟨_, _, b', b₁₂, heq, hb', hb₁₂, rfl⟩ := put?_cons_iff.1 h₁₂
      cases heq
      obtain ⟨_, _, a', a₂₁, heq, ha', ha₂₁, rfl⟩ := put?_cons_iff.1 h₂₁
      cases heq
      have hflag := hasError_swap_swap_iff (h := g) (l := l) (m := m) (a := a) (c := b₁₂) hb'
      have hflag' := hasError_swap_swap_iff (h := g) (l := l') (m := m') (a := b) (c := a₂₁) ha'
      by_cases hij : i = j
      · -- The ways part further down.
        subst hij
        have hi : i < es.length := (List.getElem?_eq_some_iff.1 ha).1
        rw [List.getElem?_set_self hi] at hb' ha'
        cases hb'
        cases ha'
        obtain rfl : a = b := Option.some.inj (ha.symm.trans hb)
        have hsound := ((sound_node_iff g es).1 he).2.2 a (List.mem_of_getElem? ha)
        have hchild := ih hsound ((Path.apart_cons_iff i p q).1 hpq) ha₁ hb₁₂ hb₂ ha₂₁
        have hes := forall₂_set i (forall₂_alike_refl es) hchild
        simp only [List.set_set] at hflag hflag' ⊢
        refine alike_swap_swap hes ?_
        rw [Bool.eq_iff_iff, hflag, hflag', any_hasError_of_alike hes]
        cases hno : a.hasError with
        | true => simp
        | false =>
          rcases hasError_put_put hsound hno ha₁ hb₁₂ hb₂ ha₂₁ with hsame | hbad
          · simp [hsame]
          · rw [hasError_of_alike hchild, or_self] at hbad
            simp [(any_hasError_set_iff ha a₂₁).2 (Or.inl hbad)]
      · -- The ways part here, at two children that do not meet.
        rw [List.getElem?_set_ne hij, hb] at hb'
        rw [List.getElem?_set_ne (Ne.symm hij), ha] at ha'
        cases hb'
        cases ha'
        have hlike := alike_put (alike_refl a) (alike_refl new) ha₁ ha₂₁
        have hlike' := alike_put (alike_refl b) (alike_refl new') hb₁₂ hb₂
        have hes := forall₂_set j (forall₂_set i (forall₂_alike_refl es) hlike) hlike'
        rw [List.set_comm a₂₁ b₂ hij] at hes
        refine alike_swap_swap hes ?_
        rw [Bool.eq_iff_iff, hflag, hflag', any_hasError_of_alike hes,
          and_comm (a := a.hasError = false)]

end Element

/-! ## Trees -/

namespace Tree

theorem replaceAt?_eq_some_iff {t t' : Tree} {l : Label} {p : Path} {e : Element} :
    t.replaceAt? l p e = some t' ↔
      p ≠ [] ∧ ∃ root, Element.put? l e p t.root = some root ∧ t' = { t with root } := by
  unfold replaceAt?
  by_cases hp : p = []
  · simp [hp]
  · simp [hp, eq_comm]

theorem exists_replaceAt {t : Tree} {p : Path} {x : Element} (l : Label) (e : Element) (hp : p ≠ [])
    (hx : t.at? p = some x) :
    ∃ root, Element.put? l e p t.root = some root ∧ t.replaceAt? l p e = some { t with root } := by
  obtain ⟨root, hroot⟩ := @Element.exists_put l e t.root x p hx
  exact ⟨root, hroot, replaceAt?_eq_some_iff.2 ⟨hp, root, hroot, rfl⟩⟩

theorem replaceAt?_isSome_iff (t : Tree) (l : Label) (p : Path) (e : Element) :
    (t.replaceAt? l p e).isSome = true ↔ p ≠ [] ∧ (t.at? p).isSome = true := by
  simp only [Option.isSome_iff_exists]
  constructor
  · rintro ⟨t', h⟩
    obtain ⟨hp, root, hroot, -⟩ := replaceAt?_eq_some_iff.1 h
    exact ⟨hp, Element.exists_at_of_put hroot⟩
  · rintro ⟨hp, x, hx⟩
    obtain ⟨root, -, h⟩ := exists_replaceAt l e hp hx
    exact ⟨_, h⟩

theorem splice_of_put {t : Tree} {l : Label} {p : Path} {e root : Element} {c : Cursor}
    (ht : t.root.sound = true) (hc : t.cursor.at? p = some c)
    (h : Element.put? l e p t.root = some root) :
    Text.splice? t.source c.fullSpan.start c.fullSpan.stop e.fullText = some root.fullText := by
  have hof : Cursor.Of t.root c := Cursor.of_iff.2 ⟨p, hc⟩
  have hpath : c.path = p := by simpa [cursor, Cursor.ofRoot, Cursor.path] using Cursor.path_at hc
  have hnew : root.fullText = Token.fullOf (t.root.before c.path) ++ e.fullText ++
      Token.fullOf (t.root.after c.path) := by
    rw [Element.fullText_eq, Element.tokens_put h, hpath, Token.fullOf_append, Token.fullOf_append,
      ← Element.fullText_eq]
  unfold source Cursor.fullSpan
  rw [hof.fullText_root, hof.offset_eq ht, Element.width_eq (hof.sound ht), hnew,
    Text.splice?_append]

/-- What is put in place of an element is found there, and all else stays as it was. -/
theorem replaceAt?_laws (t : Tree) (l : Label) (p : Path) (e : Element) (ht : t.root.sound = true) :
    ((t.replaceAt? l p e).isSome = true ↔ p ≠ [] ∧ (t.at? p).isSome = true) ∧
    ∀ t', t.replaceAt? l p e = some t' →
      t'.at? p = some e ∧
      (∀ q, Path.Apart p q → t'.at? q = t.at? q) ∧
      (∃ c, t.cursor.at? p = some c ∧
        Text.splice? t.source c.fullSpan.start c.fullSpan.stop e.fullText = some t'.source) ∧
      (∀ x m, t.at? p = some x →
        ∃ same, t.replaceAt? m p x = some same ∧ same.root.alike t.root = true) ∧
      (∀ x m, t.at? p = some x → ∃ back, t'.replaceAt? m p x = some back ∧
        (back.root.alike t.root = true ↔ e.hasError = false ∨ t.root.UnmarkedAbove p)) ∧
      (∀ q f m both, Path.Apart p q → t'.replaceAt? m q f = some both →
        ∀ l' m', ∃ other both', t.replaceAt? l' q f = some other ∧
          other.replaceAt? m' p e = some both' ∧ both.root.alike both'.root = true) := by
  refine ⟨replaceAt?_isSome_iff t l p e, ?_⟩
  intro t' h
  obtain ⟨hp, root, hroot, rfl⟩ := replaceAt?_eq_some_iff.1 h
  have hself : Element.at? p root = some e := Element.at?_put_same hroot
  obtain ⟨old, hold⟩ := Element.exists_at_of_put hroot
  obtain ⟨c, hc, -⟩ := Cursor.exists_at (c := t.cursor) hold
  refine ⟨hself, fun q hpq => Element.at?_put_of_apart hpq hroot,
    ⟨c, hc, splice_of_put ht hc hroot⟩, ?_, ?_, ?_⟩
  · intro x m hx
    obtain ⟨same, hsame, hok⟩ := exists_replaceAt m x hp hx
    exact ⟨_, hok, Element.alike_put_read ht hx hsame⟩
  · intro x m hx
    obtain ⟨back, hback, hok⟩ := exists_replaceAt (t := { t with root }) m x hp hself
    exact ⟨_, hok, Element.alike_put_back_iff ht hx hroot hback⟩
  · intro q f m both hpq hboth l' m'
    obtain ⟨hq, both, hput, rfl⟩ := replaceAt?_eq_some_iff.1 hboth
    obtain ⟨y, hy⟩ := Element.exists_at_of_put hput
    rw [Element.at?_put_of_apart hpq hroot] at hy
    obtain ⟨other, hother, hok⟩ := exists_replaceAt l' f hq hy
    have hx := (Element.at?_put_of_apart hpq.symm hother).trans hold
    obtain ⟨both', hboth', hok'⟩ := exists_replaceAt (t := { t with root := other }) m' e hp hx
    exact ⟨_, _, hok, hok', Element.alike_put_put ht hpq hroot hput hother hboth'⟩

end Tree

namespace Sample

def marked : Tree := { root := hollow.root.markError [1] }

def gap : Element := .token { label := [2], kind := .semicolon, text := "", missing := true }

end Sample

/-- The mark of the root is lost when an element in error has come and gone. -/
theorem Sample.replaceAt?_marked :
    Sample.marked.root.sound = true ∧
      ∃ t' x back, Sample.marked.replaceAt? [7] [1, 2] Sample.gap = some t' ∧
        t'.at? [1, 2] = some Sample.gap ∧ t'.at? [1, 0] = Sample.marked.at? [1, 0] ∧
        Sample.marked.at? [1, 2] = some x ∧ t'.replaceAt? [8] [1, 2] x = some back ∧
        ¬ back.root.alike Sample.marked.root = true := by
  have hsound : Sample.marked.root.sound = true := by decide
  obtain ⟨hsome, hlaws⟩ := Tree.replaceAt?_laws Sample.marked [7] [1, 2] Sample.gap hsound
  obtain ⟨t', ht'⟩ := Option.isSome_iff_exists.1 (hsome.2 ⟨by decide, by decide⟩)
  obtain ⟨hread, hapart, -, -, hback, -⟩ := hlaws t' ht'
  obtain ⟨x, hx⟩ : ∃ x, Sample.marked.at? [1, 2] = some x := ⟨_, rfl⟩
  obtain ⟨back, hput, hiff⟩ := hback x [8] hx
  refine ⟨hsound, t', x, back, ht', hread, hapart [1, 0] ⟨by decide, by decide⟩, hx, hput, ?_⟩
  rw [hiff]
  rintro (hno | hunmarked)
  · cases hno
  · cases hunmarked [] _ List.nil_prefix (by decide) rfl

end CancellationLint
