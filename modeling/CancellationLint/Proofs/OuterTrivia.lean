import CancellationLint.Proofs.Place

/-! # Changing outer trivia

An element that gets other trivia at either end keeps its text and all that is asked of it. -/

namespace CancellationLint

namespace Token

theorem textOf_cons_leading (t : Token) (ts : List Token) (l : Label) (trivia : String) :
    textOf ({ t with label := l, leading := trivia } :: ts) = textOf (t :: ts) := by
  cases ts <;> rfl

theorem textOf_concat_trailing (t : Token) (ts : List Token) (l : Label) (trivia : String) :
    textOf (ts ++ [{ t with label := l, trailing := trivia }]) = textOf (ts ++ [t]) := by
  by_cases hts : ts = []
  · rw [hts]
    rfl
  · rw [textOf_append hts (by simp), textOf_append hts (by simp)]
    rfl

end Token

namespace Element

def ifFree (e : Element) : Bool := e.all fun x => !x.isNode || x.kind ≠ .ifStatement

@[simp] theorem ifFree_token (t : Token) : (Element.token t).ifFree = true := rfl

theorem ifFree_node_iff {h : Head} {es : List Element} :
    (Element.node h es).ifFree = true ↔ h.kind ≠ .ifStatement ∧ ∀ e ∈ es, e.ifFree = true := by
  rw [ifFree, all_node_iff, Bool.or_eq_true, decide_eq_true_eq]
  simp only [isNode, Bool.not_true, Bool.false_eq_true, false_or]
  rfl

/-! ## A child gives way to another -/

theorem any_set {test : Element → Bool} {es : List Element} {old new : Element} {i : Nat}
    (hold : es[i]? = some old) (hsame : test new = test old) :
    (es.set i new).any test = es.any test := by
  induction es generalizing i with
  | nil => rfl
  | cons e es ih =>
    cases i with
    | zero =>
      cases hold
      rw [List.set_cons_zero, List.any_cons, List.any_cons, hsame]
    | succ i => rw [List.set_cons_succ, List.any_cons, List.any_cons, ih hold]

theorem hasError_swap {h : Head} {es : List Element} {old new : Element} {i : Nat} {l : Label}
    (hs : (Element.node h es).showsErrors = true) (hold : es[i]? = some old)
    (hsame : new.hasError = old.hasError) :
    (h.swap l old (es.set i new)).hasError = h.hasError := by
  obtain ⟨hmark, -⟩ := showsErrors_node_iff.1 hs
  have hmem := List.mem_of_getElem? hold
  simp only [Head.swap, any_set hold hsame]
  by_cases hk : h.kind = .error
  · simp [hk, hmark (Or.inl hk)]
  · cases hany : es.any hasError with
    | true => simp [hmark (Or.inr hany)]
    | false =>
      have : old.hasError = false := by
        rw [List.any_eq_false] at hany
        simpa using hany old hmem
      simp [hk, this]

/-- The new element differs from the old one at most in labels and outer trivia. -/
structure Retrimmed (e e' : Element) : Prop where
  isNode_eq : e'.isNode = e.isNode
  kind_eq : e'.kind = e.kind
  hasError_eq : e'.hasError = e.hasError
  reformat_eq : e'.reformat = e.reformat
  sound : e'.sound = true
  ifFree_eq : e'.ifFree = e.ifFree
  text_eq : e'.text = e.text

theorem retrimmed_relabel {h : Head} {es : List Element} (l : Label)
    (hs : (Element.node h es).sound = true) :
    Retrimmed (.node h es) (.node { h with label := l } es) := by
  have hsound : (Element.node { h with label := l } es).sound = true := by
    rw [sound_node_iff] at hs ⊢
    exact hs
  refine ⟨rfl, rfl, rfl, rfl, hsound, ?_, ?_⟩
  · rw [Bool.eq_iff_iff, ifFree_node_iff, ifFree_node_iff]
  · rw [text_eq, text_eq, tokens_node, tokens_node]

theorem retrimmed_swap {h : Head} {es : List Element} {old new : Element} {i : Nat} (l : Label)
    (hs : (Element.node h es).sound = true) (hold : es[i]? = some old) (hnew : Retrimmed old new)
    (htext : (Element.node (h.swap l old (es.set i new)) (es.set i new)).text =
      (Element.node h es).text) :
    Retrimmed (.node h es) (.node (h.swap l old (es.set i new)) (es.set i new)) := by
  have hmem := List.mem_of_getElem? hold
  refine ⟨rfl, rfl, hasError_swap (showsErrors_of_sound hs) hold hnew.hasError_eq, rfl,
    sound_set hs hnew.sound, ?_, htext⟩
  · rw [Bool.eq_iff_iff, ifFree_node_iff, ifFree_node_iff]
    refine and_congr Iff.rfl ⟨fun hall e he => ?_, fun hall e he => ?_⟩
    · obtain ⟨j, hj⟩ := List.mem_iff_getElem?.1 he
      by_cases hij : i = j
      · subst hij
        obtain rfl : e = old := Option.some.inj (hj.symm.trans hold)
        have hi := (List.getElem?_eq_some_iff.1 hold).1
        rw [← hnew.ifFree_eq]
        exact hall new (List.mem_of_getElem? (List.getElem?_set_self hi))
      · exact hall e (List.mem_of_getElem? ((List.getElem?_set_ne hij).trans hj))
    · rcases List.mem_or_eq_of_mem_set he with he | rfl
      · exact hall e he
      · rw [hnew.ifFree_eq]
        exact hall old hmem

/-! ## Leading trivia -/

theorem withFirstLeading_cases (l : Label) (trivia : String) (es : List Element) :
    (∃ i old, es[i]? = some old ∧ old.tokens ≠ [] ∧ (es.take i).flatMap tokens = [] ∧
      withFirstLeading l trivia es = some (old, es.set i (old.withLeading l trivia))) ∨
    (es.flatMap tokens = [] ∧ withFirstLeading l trivia es = none) := by
  induction es with
  | nil => exact Or.inr ⟨rfl, rfl⟩
  | cons e es ih =>
    rw [withFirstLeading]
    by_cases htok : e.hasTokens = true
    · exact Or.inl ⟨0, e, rfl, (hasTokens_iff e).1 htok, rfl, by rw [if_pos htok]; rfl⟩
    · rw [if_neg htok]
      rcases ih with ⟨i, old, hold, hne, hnone, heq⟩ | ⟨hnone, heq⟩
      · refine Or.inl ⟨i + 1, old, hold, hne, ?_, by rw [heq]; rfl⟩
        rw [List.take_succ_cons, List.flatMap_cons, tokens_eq_nil htok, hnone]
        rfl
      · refine Or.inr ⟨?_, by rw [heq]; rfl⟩
        rw [List.flatMap_cons, tokens_eq_nil htok, hnone]
        rfl

theorem tokens_withLeading {e : Element} {t : Token} {ts : List Token} (l : Label) (trivia : String)
    (h : e.tokens = t :: ts) :
    ∃ m, (e.withLeading l trivia).tokens = { t with label := m, leading := trivia } :: ts := by
  induction e generalizing l t ts with
  | token s =>
    cases h
    exact ⟨l, rfl⟩
  | node g es ih =>
    rw [withLeading]
    rcases withFirstLeading_cases (l.sub 0) trivia es with
      ⟨i, old, hold, hne, hnone, heq⟩ | ⟨hnone, -⟩
    · rw [heq]
      simp only
      have hi := (List.getElem?_eq_some_iff.1 hold).1
      have hsplit : (Element.node g es).tokens = _ := tokens_of_child hold
      have hset : (Element.node (g.swap l old (es.set i (old.withLeading (l.sub 0) trivia)))
          (es.set i (old.withLeading (l.sub 0) trivia))).children[i]? =
            some (old.withLeading (l.sub 0) trivia) := List.getElem?_set_self hi
      obtain ⟨s, ss, hs⟩ := List.exists_cons_of_ne_nil hne
      obtain ⟨m, hm⟩ := ih old (List.mem_of_getElem? hold) (l.sub 0) hs
      rw [h, children, hnone, hs] at hsplit
      obtain ⟨rfl, rfl⟩ := List.cons.inj hsplit
      refine ⟨m, ?_⟩
      rw [tokens_of_child hset, hm]
      simp only [children, List.take_set_of_le le_rfl, List.drop_set_of_lt (Nat.lt_succ_self i),
        hnone]
      rfl
    · rw [tokens_node, hnone] at h
      cases h

theorem tokens_withLeading_nil {e : Element} (l : Label) (trivia : String) (h : e.tokens = []) :
    (e.withLeading l trivia).tokens = [] := by
  cases e with
  | token t => cases h
  | node g es =>
    rw [withLeading]
    rcases withFirstLeading_cases (l.sub 0) trivia es with ⟨i, old, hold, hne, -⟩ | ⟨-, heq⟩
    · rw [tokens_node, List.flatMap_eq_nil_iff] at h
      exact absurd (h old (List.mem_of_getElem? hold)) hne
    · rw [heq]
      simpa using h

theorem text_withLeading (e : Element) (l : Label) (trivia : String) :
    (e.withLeading l trivia).text = e.text := by
  rw [text_eq, text_eq]
  cases h : e.tokens with
  | nil => rw [tokens_withLeading_nil l trivia h]
  | cons t ts =>
    obtain ⟨m, hm⟩ := tokens_withLeading l trivia h
    rw [hm, Token.textOf_cons_leading]

theorem retrimmed_withLeading {e : Element} (l : Label) (trivia : String) (he : e.sound = true) :
    Retrimmed e (e.withLeading l trivia) := by
  induction e generalizing l with
  | token t => exact ⟨rfl, rfl, rfl, rfl, rfl, rfl, rfl⟩
  | node g es ih =>
    have htext := text_withLeading (.node g es) l trivia
    rw [withLeading] at htext ⊢
    rcases withFirstLeading_cases (l.sub 0) trivia es with ⟨i, old, hold, -, -, heq⟩ | ⟨-, heq⟩
    · rw [heq] at htext ⊢
      have hmem := List.mem_of_getElem? hold
      have hsound := ((sound_node_iff g es).1 he).2.2 old hmem
      exact retrimmed_swap l he hold (ih old hmem (l.sub 0) hsound) htext
    · rw [heq]
      exact retrimmed_relabel l he

/-! ## Trailing trivia -/

theorem withLastTrailing_cases (l : Label) (trivia : String) (es : List Element) :
    (∃ i old, es[i]? = some old ∧ old.tokens ≠ [] ∧ (es.drop (i + 1)).flatMap tokens = [] ∧
      withLastTrailing l trivia es = some (old, es.set i (old.withTrailing l trivia))) ∨
    (es.flatMap tokens = [] ∧ withLastTrailing l trivia es = none) := by
  induction es with
  | nil => exact Or.inr ⟨rfl, rfl⟩
  | cons e es ih =>
    rw [withLastTrailing]
    rcases ih with ⟨i, old, hold, hne, hnone, heq⟩ | ⟨hnone, heq⟩
    · exact Or.inl ⟨i + 1, old, hold, hne, hnone, by rw [heq]; rfl⟩
    · rw [heq]
      by_cases htok : e.hasTokens = true
      · exact Or.inl ⟨0, e, rfl, (hasTokens_iff e).1 htok, hnone, by simp only [htok]; rfl⟩
      · refine Or.inr ⟨?_, by simp only [htok]; rfl⟩
        rw [List.flatMap_cons, tokens_eq_nil htok, hnone]
        rfl

theorem tokens_withTrailing {e : Element} {t : Token} {ts : List Token} (l : Label)
    (trivia : String) (h : e.tokens = ts ++ [t]) :
    ∃ m, (e.withTrailing l trivia).tokens = ts ++ [{ t with label := m, trailing := trivia }] := by
  induction e generalizing l t ts with
  | token s =>
    obtain ⟨rfl, hs⟩ := List.append_inj' (show [] ++ [s] = ts ++ [t] from h) rfl
    cases hs
    exact ⟨l, rfl⟩
  | node g es ih =>
    rw [withTrailing]
    rcases withLastTrailing_cases (l.sub 0) trivia es with
      ⟨i, old, hold, hne, hnone, heq⟩ | ⟨hnone, -⟩
    · rw [heq]
      simp only
      have hi := (List.getElem?_eq_some_iff.1 hold).1
      have hsplit : (Element.node g es).tokens = _ := tokens_of_child hold
      have hset : (Element.node (g.swap l old (es.set i (old.withTrailing (l.sub 0) trivia)))
          (es.set i (old.withTrailing (l.sub 0) trivia))).children[i]? =
            some (old.withTrailing (l.sub 0) trivia) := List.getElem?_set_self hi
      obtain ⟨ss, s, hs⟩ := (List.eq_nil_or_concat' old.tokens).resolve_left hne
      obtain ⟨m, hm⟩ := ih old (List.mem_of_getElem? hold) (l.sub 0) hs
      rw [h, children, hnone, hs, List.append_nil, ← List.append_assoc] at hsplit
      obtain ⟨rfl, hlast⟩ := List.append_inj' hsplit rfl
      obtain rfl : t = s := by simpa using hlast
      refine ⟨m, ?_⟩
      rw [tokens_of_child hset, hm]
      simp only [children, List.take_set_of_le le_rfl, List.drop_set_of_lt (Nat.lt_succ_self i),
        hnone, List.append_nil, List.append_assoc]
    · rw [tokens_node, hnone] at h
      simp at h

theorem tokens_withTrailing_nil {e : Element} (l : Label) (trivia : String) (h : e.tokens = []) :
    (e.withTrailing l trivia).tokens = [] := by
  cases e with
  | token t => cases h
  | node g es =>
    rw [withTrailing]
    rcases withLastTrailing_cases (l.sub 0) trivia es with ⟨i, old, hold, hne, -⟩ | ⟨-, heq⟩
    · rw [tokens_node, List.flatMap_eq_nil_iff] at h
      exact absurd (h old (List.mem_of_getElem? hold)) hne
    · rw [heq]
      simpa using h

theorem text_withTrailing (e : Element) (l : Label) (trivia : String) :
    (e.withTrailing l trivia).text = e.text := by
  rw [text_eq, text_eq]
  rcases List.eq_nil_or_concat' e.tokens with h | ⟨ts, t, h⟩
  · rw [tokens_withTrailing_nil l trivia h, h]
  · obtain ⟨m, hm⟩ := tokens_withTrailing l trivia h
    rw [hm, h, Token.textOf_concat_trailing]

theorem retrimmed_withTrailing {e : Element} (l : Label) (trivia : String) (he : e.sound = true) :
    Retrimmed e (e.withTrailing l trivia) := by
  induction e generalizing l with
  | token t => exact ⟨rfl, rfl, rfl, rfl, rfl, rfl, rfl⟩
  | node g es ih =>
    have htext := text_withTrailing (.node g es) l trivia
    rw [withTrailing] at htext ⊢
    rcases withLastTrailing_cases (l.sub 0) trivia es with ⟨i, old, hold, -, -, heq⟩ | ⟨-, heq⟩
    · rw [heq] at htext ⊢
      have hmem := List.mem_of_getElem? hold
      have hsound := ((sound_node_iff g es).1 he).2.2 old hmem
      exact retrimmed_swap l he hold (ih old hmem (l.sub 0) hsound) htext
    · rw [heq]
      exact retrimmed_relabel l he

/-! ## Trivia at either end -/

/-- A relation that looks neither at trivia nor at labels, and goes up from the child that
changed. -/
structure Outward (R : Element → Element → Prop) : Prop where
  token (t : Token) (l : Label) (leading trailing : String) :
    R (.token t) (.token { t with label := l, leading, trailing })
  relabel (h : Head) (es : List Element) (l : Label) : R (.node h es) (.node { h with label := l } es)
  swap {h : Head} {es : List Element} {i : Nat} {old new : Element} (l : Label) :
    es[i]? = some old → R old new →
    R (.node h es) (.node (h.swap l old (es.set i new)) (es.set i new))

variable {R : Element → Element → Prop}

theorem Outward.withLeading (hR : Outward R) (l : Label) (trivia : String) (e : Element) :
    R e (e.withLeading l trivia) := by
  induction e generalizing l with
  | token t => exact hR.token t l trivia t.trailing
  | node g es ih =>
    unfold Element.withLeading
    rcases withFirstLeading_cases (l.sub 0) trivia es with ⟨i, old, hold, -, -, heq⟩ | ⟨-, heq⟩
    · rw [heq]
      exact hR.swap l hold (ih old (List.mem_of_getElem? hold) (l.sub 0))
    · rw [heq]
      exact hR.relabel g es l

theorem Outward.withTrailing (hR : Outward R) (l : Label) (trivia : String) (e : Element) :
    R e (e.withTrailing l trivia) := by
  induction e generalizing l with
  | token t => exact hR.token t l t.leading trivia
  | node g es ih =>
    unfold Element.withTrailing
    rcases withLastTrailing_cases (l.sub 0) trivia es with ⟨i, old, hold, -, -, heq⟩ | ⟨-, heq⟩
    · rw [heq]
      exact hR.swap l hold (ih old (List.mem_of_getElem? hold) (l.sub 0))
    · rw [heq]
      exact hR.relabel g es l

/-- An outward relation that other requests for layout keep, and that is transitive. -/
structure Lasting (R : Element → Element → Prop) : Prop extends Outward R where
  refl (e : Element) : R e e
  trans {a b c : Element} : R a b → R b c → R a c
  withReformat (l : Label) (r : Option Reformat) (e : Element) : R e (e.withReformat l r)

end Element
end CancellationLint
