import CancellationLint.Proofs.LayoutPasses
import CancellationLint.Proofs.Replace
import CancellationLint.Proofs.SameText

/-! # Stale fixes

A fix knows the statement it was planned for as an object, by its label. Another fix leaves that object
where it is if the two statements lie apart. If one is in the other, the object is gone from its place:
the nodes above a replaced statement are new, and what a replacement keeps of the old statement, its
receiver, does not stand where it stood. -/

namespace CancellationLint

namespace Element

/-! ## Objects and their places -/

mutual

def labels : Element → List Label
  | .token t => [t.label]
  | .node h children => h.label :: labelsOf children

def labelsOf : List Element → List Label
  | [] => []
  | e :: rest => e.labels ++ labelsOf rest

end

theorem labels_node (h : Head) (es : List Element) :
    (Element.node h es).labels = h.label :: es.flatMap labels := by
  have hes : labelsOf es = es.flatMap labels := by
    induction es with
    | nil => rfl
    | cons e es ih => rw [labelsOf, ih, List.flatMap_cons]
  rw [labels, hes]

theorem at?_token_iff {t : Token} {x : Element} {p : Path} :
    (Element.token t).at? p = some x ↔ p = [] ∧ x = .token t := by
  cases p with
  | nil => simp [Element.at?, eq_comm]
  | cons i p => simp [Element.at?]

theorem label_mem_labels {e x : Element} {p : Path} (h : e.at? p = some x) :
    x.label ∈ e.labels := by
  induction p generalizing e with
  | nil =>
    cases h
    cases x <;> simp [label, labels]
  | cons i p ih =>
    obtain ⟨child, hchild, hx⟩ := at?_cons_iff.1 h
    cases e with
    | token t => cases hchild
    | node g es =>
      rw [labels_node]
      apply List.mem_cons_of_mem
      exact List.mem_flatMap.2 ⟨child, List.mem_of_getElem? hchild, ih hx⟩

theorem label_ne_of_below {g : Head} {es : List Element} {y : Element} {j : Nat} {q : Path}
    (hdistinct : (Element.node g es).labels.Nodup) (hy : (Element.node g es).at? (j :: q) = some y) :
    g.label ≠ y.label := by
  obtain ⟨b, hb, hy⟩ := at?_cons_iff.1 hy
  rw [labels_node, List.nodup_cons] at hdistinct
  intro heq
  apply hdistinct.1
  rw [heq]
  exact List.mem_flatMap.2 ⟨b, List.mem_of_getElem? hb, label_mem_labels hy⟩

/-- If no object occurs twice, an object stands at one place. -/
theorem eq_of_label {e x y : Element} {p q : Path} (hdistinct : e.labels.Nodup)
    (hx : e.at? p = some x) (hy : e.at? q = some y) (hlabel : x.label = y.label) : p = q := by
  induction e generalizing p q with
  | token t => rw [(at?_token_iff.1 hx).1, (at?_token_iff.1 hy).1]
  | node g es ih =>
    cases p with
    | nil =>
      cases hx
      cases q with
      | nil => rfl
      | cons j q => exact absurd hlabel (label_ne_of_below hdistinct hy)
    | cons i p =>
      cases q with
      | nil =>
        cases hy
        exact absurd hlabel.symm (label_ne_of_below hdistinct hx)
      | cons j q =>
        obtain ⟨a, ha, hx⟩ := at?_cons_iff.1 hx
        obtain ⟨b, hb, hy⟩ := at?_cons_iff.1 hy
        rw [labels_node, List.nodup_cons, List.nodup_flatMap, List.pairwise_iff_getElem] at hdistinct
        obtain ⟨-, heach, hapart⟩ := hdistinct
        obtain ⟨hi, rfl⟩ := List.getElem?_eq_some_iff.1 ha
        obtain ⟨hj, rfl⟩ := List.getElem?_eq_some_iff.1 hb
        have hmem := label_mem_labels hx
        have hmem' := label_mem_labels hy
        rw [← hlabel] at hmem'
        -- Two children share no label.
        rcases Nat.lt_trichotomy i j with hij | rfl | hij
        · exact absurd hmem' (hapart i j hi hj hij hmem)
        · have hchild := List.getElem_mem hi
          rw [ih _ hchild (heach _ hchild) hx hy]
        · exact absurd hmem (hapart j i hj hi hij hmem')

/-- No object in the element bears the label, nor one below it. -/
def Spares (l : Label) (e : Element) : Prop := ∀ m ∈ e.labels, ¬ l <:+ m

instance (l : Label) (e : Element) : Decidable (Spares l e) :=
  inferInstanceAs (Decidable (∀ m ∈ e.labels, ¬ l <:+ m))

theorem Spares.label_ne {l : Label} {e x y : Element} {p : Path} (h : e.Spares l)
    (hx : e.at? p = some x) (hy : l <:+ y.label) : y.label ≠ x.label := by
  intro heq
  rw [heq] at hy
  exact h _ (label_mem_labels hx) hy

/-! ## New objects -/

/-- Every object of the second element is new, or stands at the same place in the first one. -/
def Renewed (l : Label) (e e' : Element) : Prop :=
  ∀ p x, e'.at? p = some x → l <:+ x.label ∨ e.at? p = some x

theorem Renewed.of_sub {l : Label} {i : Nat} {e e' : Element} (h : Renewed (l.sub i) e e') :
    Renewed l e e' := by
  intro p x hx
  exact (h p x hx).imp_left (List.suffix_cons i l).trans

theorem Renewed.trans {l : Label} {a b c : Element} (hab : Renewed l a b) (hbc : Renewed l b c) :
    Renewed l a c := by
  intro p x hx
  rcases hbc p x hx with hnew | hx
  · exact Or.inl hnew
  · exact hab p x hx

theorem renewed_withReformat (l : Label) (r : Option Reformat) (e : Element) :
    Renewed l e (e.withReformat l r) := by
  intro p x hx
  cases p with
  | nil =>
    cases hx
    cases e <;> exact Or.inl (List.suffix_refl l)
  | cons i p =>
    cases e with
    | token t => cases hx
    | node h es => exact Or.inr hx

theorem renewed_relabel (l : Label) (h : Head) (es : List Element) :
    Renewed l (.node h es) (.node { h with label := l } es) :=
  renewed_withReformat l h.reformat (.node h es)

theorem renewed_swap {l : Label} {h : Head} {es : List Element} {old new : Element} {i : Nat}
    (hold : es[i]? = some old) (hnew : Renewed l old new) :
    Renewed l (.node h es) (.node (h.swap l old (es.set i new)) (es.set i new)) := by
  intro p x hx
  cases p with
  | nil =>
    cases hx
    exact Or.inl (List.suffix_refl l)
  | cons j p =>
    obtain ⟨child, hchild, hx⟩ := at?_cons_iff.1 hx
    have hi : i < es.length := (List.getElem?_eq_some_iff.1 hold).1
    rw [children] at hchild
    by_cases hij : i = j
    · subst hij
      rw [List.getElem?_set_self hi] at hchild
      cases hchild
      refine (hnew p x hx).imp_right fun hx => ?_
      exact at?_cons_iff.2 ⟨old, hold, hx⟩
    · rw [List.getElem?_set_ne hij] at hchild
      exact Or.inr (at?_cons_iff.2 ⟨child, hchild, hx⟩)

theorem renewed_withLeading (l : Label) (trivia : String) (e : Element) :
    Renewed l e (e.withLeading l trivia) := by
  induction e generalizing l with
  | token t =>
    intro p x hx
    obtain ⟨-, rfl⟩ := at?_token_iff.1 hx
    exact Or.inl (List.suffix_refl l)
  | node h es ih =>
    unfold withLeading
    rcases withFirstLeading_cases (l.sub 0) trivia es with ⟨i, old, hold, -, -, heq⟩ | ⟨-, heq⟩
    · rw [heq]
      exact renewed_swap hold (ih old (List.mem_of_getElem? hold) (l.sub 0)).of_sub
    · rw [heq]
      exact renewed_relabel l h es

theorem renewed_withTrailing (l : Label) (trivia : String) (e : Element) :
    Renewed l e (e.withTrailing l trivia) := by
  induction e generalizing l with
  | token t =>
    intro p x hx
    obtain ⟨-, rfl⟩ := at?_token_iff.1 hx
    exact Or.inl (List.suffix_refl l)
  | node h es ih =>
    unfold withTrailing
    rcases withLastTrailing_cases (l.sub 0) trivia es with ⟨i, old, hold, -, -, heq⟩ | ⟨-, heq⟩
    · rw [heq]
      exact renewed_swap hold (ih old (List.mem_of_getElem? hold) (l.sub 0)).of_sub
    · rw [heq]
      exact renewed_relabel l h es

theorem label_put_above {l : Label} {new e e' x : Element} {p q : Path} (hq : q ≠ [])
    (h : put? l new (p ++ q) e = some e') (hx : e'.at? p = some x) : l <:+ x.label := by
  induction p generalizing e e' l with
  | nil =>
    obtain ⟨i, q, rfl⟩ := List.exists_cons_of_ne_nil hq
    obtain ⟨g, es, old, child, rfl, -, -, rfl⟩ := put?_cons_iff.1 h
    cases hx
    exact List.suffix_refl l
  | cons i p ih =>
    obtain ⟨g, es, old, child, rfl, hold, hchild, rfl⟩ := put?_cons_iff.1 h
    have hi : i < es.length := (List.getElem?_eq_some_iff.1 hold).1
    obtain ⟨d, hd, hx⟩ := at?_cons_iff.1 hx
    rw [children, List.getElem?_set_self hi] at hd
    cases hd
    exact (List.suffix_cons 0 l).trans (ih hchild hx)

end Element

namespace Fix

/-! ## What a replacement keeps -/

theorem object_make {l m : Label} {kind : Kind} {es : List Element} {x : Element} {p : Path}
    (hm : l <:+ m) (h : (Element.make m kind es).at? p = some x) :
    l <:+ x.label ∨ ∃ i q child, p = i :: q ∧ es[i]? = some child ∧ child.at? q = some x := by
  cases p with
  | nil =>
    cases h
    exact Or.inl hm
  | cons i q =>
    obtain ⟨child, hchild, hx⟩ := Element.at?_cons_iff.1 h
    exact Or.inr ⟨i, q, child, rfl, hchild, hx⟩

theorem object_callStatement {l : Label} {receiver x : Element} {p : Path}
    (h : (callStatement l receiver).at? p = some x) :
    l <:+ x.label ∨ ∃ q, p = 0 :: 0 :: 0 :: q ∧ receiver.at? q = some x := by
  have hsub : ∀ m i, l <:+ m → l <:+ Label.sub m i := fun m i hm => hm.trans (List.suffix_cons i m)
  have hself := List.suffix_refl l
  unfold callStatement at h
  rcases object_make hself h with hnew | ⟨i, p, call, rfl, hcall, h⟩
  · exact Or.inl hnew
  rcases i with _ | _ | i <;> cases hcall
  · rcases object_make (hsub _ 0 hself) h with hnew | ⟨i, p, access, rfl, haccess, h⟩
    · exact Or.inl hnew
    rcases i with _ | _ | i <;> cases haccess
    · rcases object_make (hsub _ 0 (hsub _ 0 hself)) h with hnew | ⟨i, p, part, rfl, hpart, h⟩
      · exact Or.inl hnew
      rcases i with _ | _ | _ | i <;> cases hpart
      · exact Or.inr ⟨p, rfl, h⟩
      all_goals
        obtain ⟨-, rfl⟩ := Element.at?_token_iff.1 h
        exact Or.inl (hsub _ _ (hsub _ 0 (hsub _ 0 hself)))
    · rcases object_make (hsub _ 1 (hsub _ 0 hself)) h with hnew | ⟨i, p, part, rfl, hpart, h⟩
      · exact Or.inl hnew
      rcases i with _ | _ | i <;> cases hpart
      all_goals
        obtain ⟨-, rfl⟩ := Element.at?_token_iff.1 h
        exact Or.inl (hsub _ _ (hsub _ 1 (hsub _ 0 hself)))
  · obtain ⟨-, rfl⟩ := Element.at?_token_iff.1 h
    exact Or.inl (hsub _ 1 hself)

theorem object_replacementFor {l : Label} {check : Check} {indent : Option String} {x : Element}
    {p : Path} (h : (replacementFor l check indent).at? p = some x) :
    l <:+ x.label ∨ ∃ q, p = 0 :: 0 :: 0 :: q ∧ check.receiver.element.at? q = some x := by
  have hrenewed : Element.Renewed l (callStatement (l.sub 0) check.receiver.element)
      (replacementFor l check indent) := by
    unfold replacementFor
    refine Element.Renewed.trans ?_ (Element.renewed_withReformat l _ _)
    refine Element.Renewed.trans ?_ (Element.renewed_withTrailing (l.sub 2) _ _).of_sub
    split
    · exact fun p x hx => Or.inr hx
    · exact (Element.renewed_withLeading (l.sub 1) _ _).of_sub
  rcases hrenewed p x h with hnew | hx
  · exact Or.inl hnew
  · exact (object_callStatement hx).imp_left (List.suffix_cons 0 l).trans

/-! ## One fix after another -/

theorem apply_eq_foreign {fix : Fix} {l : Label} {t : Tree}
    (h : ∀ e, t.at? fix.path = some e → e.label ≠ fix.target.label) :
    fix.apply l t = .error .foreign := by
  unfold apply
  cases hat : t.at? fix.path with
  | none => rfl
  | some e => simp [h e hat]

theorem encloses_iff {f g : Fix} : f.encloses g = true ↔ f.path <+: g.path :=
  List.isPrefixOf_iff_prefix

section

variable {t t' : Tree} {a : Cursor} {f g : Fix} {k l : Label}

/-- The object that the other fix looks for is gone when one of the two statements is in the other. -/
theorem apply_eq_foreign_of_encloses (m : Label) (hdistinct : t.root.labels.Nodup)
    (hk : t.root.Spares k) (hl : t.root.Spares l) (ha : Cursor.Of t.root a)
    (hf : plan k t a = .ok f) (hg : t.at? g.path = some g.target) (happ : f.apply l t = .ok t')
    (h : f.encloses g = true ∨ g.encloses f = true) : g.apply m t' = .error .foreign := by
  obtain ⟨check, rfl, hcheck, rfl⟩ := FixAll.exists_check_of_plan ha hf
  obtain ⟨-, -, root, -, -, hput, rfl⟩ := FixAll.apply_eq_ok_iff.1 happ
  apply apply_eq_foreign
  intro e he
  rw [encloses_iff, encloses_iff] at h
  rcases h with ⟨r, hr⟩ | ⟨r, hr⟩
  · -- The other fix looks into the replacement.
    rw [← hr] at he hg
    obtain ⟨new, hnew, he⟩ := Element.at?_append_iff.1 he
    cases (Element.at?_put_same hput).symm.trans hnew
    rcases object_replacementFor he with hlabel | ⟨q, rfl, hq⟩
    · exact hk.label_ne hg hlabel
    · -- It finds a part of the receiver, which stood two steps below the statement and not three.
      obtain ⟨i, j, name, hi, hrec, -⟩ := Check.places_of_ofNode hcheck
      have hold : t.root.at? (check.statement.path ++ [i] ++ [0] ++ q) = some e := by
        rw [← Cursor.path_childAt hi, ← Cursor.path_childAt hrec]
        exact Element.at?_append_iff.2 ⟨_, (ha.child hi |>.child hrec).element_at, hq⟩
      intro hlabel
      have hplace := congrArg List.length (Element.eq_of_label hdistinct hold hg hlabel)
      simp [ofCheck] at hplace
  · -- The other fix looks for a node above the replacement, or for the statement itself.
    have hput' := hput
    rw [← hr] at hput'
    by_cases hnil : r = []
    · rw [hnil, List.append_nil] at hr
      rw [hr] at he
      cases (Element.at?_put_same hput).symm.trans he
      rcases object_replacementFor (p := []) rfl with hlabel | ⟨q, hq, -⟩
      · exact hk.label_ne hg hlabel
      · cases hq
    · exact hl.label_ne hg (Element.label_put_above hnil hput' he)

def Fills (f g : Fix) (p : Path) (e : Element) : Prop :=
  (p = f.path → e = f.replacement) ∧ (p = g.path → e = g.replacement)

theorem exists_apply (l : Label) (hf : t.at? f.path = some f.target) (hfp : f.path ≠ []) :
    ∃ t', f.apply l t = .ok t' := by
  obtain ⟨root, hroot⟩ := @Element.exists_put l f.replacement _ _ _ hf
  exact ⟨{ t with root }, FixAll.apply_eq_ok_iff.2 ⟨hfp, _, root, hf, rfl, hroot, rfl⟩⟩

theorem exists_apply_of_apart (m : Label) (happ : f.apply l t = .ok t')
    (hg : t.at? g.path = some g.target) (hgp : g.path ≠ []) (hapart : Path.Apart f.path g.path) :
    ∃ t₂, g.apply m t' = .ok t₂ ∧
      Refitted (fun p => p = f.path ∨ p = g.path) (Fills f g) t.root t₂.root := by
  obtain ⟨-, old, root₁, hf, -, hroot₁, rfl⟩ := FixAll.apply_eq_ok_iff.1 happ
  have hg₁ := (Element.at?_put_of_apart hapart hroot₁).trans hg
  obtain ⟨root₂, hroot₂⟩ := @Element.exists_put m g.replacement _ _ _ hg₁
  refine ⟨{ t with root := root₂ },
    FixAll.apply_eq_ok_iff.2 ⟨hgp, _, root₂, hg₁, rfl, hroot₂, rfl⟩, ?_⟩
  have hne : f.path ≠ g.path := fun heq => hapart.1 (heq ▸ List.prefix_refl _)
  have hfills : Fills f g f.path f.replacement := ⟨fun _ => rfl, fun heq => absurd heq hne⟩
  have hfills' : Fills f g g.path g.replacement := ⟨fun heq => absurd heq.symm hne, fun _ => rfl⟩
  have hnone : Refitted (fun _ => False) (Fills f g) t.root t.root := Refitted.refl (fun _ => id) _
  have hfirst := hnone.put (fun _ h => h.elim) hf hfills hroot₁
  have hboth := hfirst.put (fun q hq => ?_) hg hfills' hroot₂
  · exact hboth.congr fun p => by simp
  · rw [false_or] at hq
    exact hq ▸ hapart

/-- Both orders fit the same replacements into the same places. -/
theorem source_eq_of_refitted {s : Tree}
    (h : Refitted (fun p => p = f.path ∨ p = g.path) (Fills f g) t.root t'.root)
    (h' : Refitted (fun p => p = g.path ∨ p = f.path) (Fills g f) t.root s.root) :
    t'.source = s.source := by
  refine Token.fullOf_of_bare (h.bare_tokens_eq (h'.congr fun p => or_comm) ?_)
  rintro p x y (rfl | rfl) hx hy
  · rw [hx.1 rfl, hy.2 rfl]
  · rw [hx.2 rfl, hy.1 rfl]

end

/-- Two fixes can be applied in either order if neither statement is in the other; otherwise the
second one is foreign. -/
theorem apply_in_either_order {t : Tree} {a b : Cursor} {f g : Fix} {k k' l l' : Label} (m m' : Label)
    (hdistinct : t.root.labels.Nodup) (hspares : ∀ n ∈ [k, k', l, l'], t.root.Spares n)
    (ha : Cursor.Of t.root a) (hb : Cursor.Of t.root b) (hf : plan k t a = .ok f)
    (hg : plan k' t b = .ok g) (hfp : f.path ≠ []) (hgp : g.path ≠ []) :
    ∃ tf tg, f.apply l t = .ok tf ∧ g.apply l' t = .ok tg ∧
      (f.encloses g = false → g.encloses f = false →
        ∃ tfg tgf, g.apply m tf = .ok tfg ∧ f.apply m' tg = .ok tgf ∧ tfg.source = tgf.source) ∧
      (f.encloses g = true ∨ g.encloses f = true →
        g.apply m tf = .error .foreign ∧ f.apply m' tg = .error .foreign) := by
  have hfat := (FixAll.at?_of_plan ha hf).2
  have hgat := (FixAll.at?_of_plan hb hg).2
  obtain ⟨tf, htf⟩ := exists_apply l hfat hfp
  obtain ⟨tg, htg⟩ := exists_apply l' hgat hgp
  refine ⟨tf, tg, htf, htg, fun hfg hgf => ?_, fun h => ⟨?_, ?_⟩⟩
  · have hapart : Path.Apart f.path g.path := by
      constructor <;> rw [← encloses_iff] <;> simp [hfg, hgf]
    obtain ⟨tfg, htfg, hrefit⟩ := exists_apply_of_apart m htf hgat hgp hapart
    obtain ⟨tgf, htgf, hrefit'⟩ := exists_apply_of_apart m' htg hfat hfp hapart.symm
    exact ⟨tfg, tgf, htfg, htgf, source_eq_of_refitted hrefit hrefit'⟩
  · exact apply_eq_foreign_of_encloses m hdistinct (hspares k (by simp)) (hspares l (by simp)) ha hf
      hgat htf h
  · exact apply_eq_foreign_of_encloses m' hdistinct (hspares k' (by simp)) (hspares l' (by simp)) hb
      hg hfat htg h.symm

end Fix

mutual

def Element.stamp (l : Label) : Element → Element
  | .token t => .token { t with label := l }
  | .node h children => .node { h with label := l } (stampAll l 0 children)

def Element.stampAll (l : Label) (i : Nat) : List Element → List Element
  | [] => []
  | e :: rest => e.stamp (l.sub i) :: stampAll l (i + 1) rest

end

def Sample.stamped : Tree :=
  { root := Element.stamp [] (.make [] .compilationUnit
      [lineCheck (block [lineCheck (token .identifier "ct")]), lineCheck (token .identifier "ct")]) }

theorem Sample.exists_plan {t : Tree} {l : Label} {p : Path}
    (h : ((t.cursor.at? p).any fun c => (Fix.plan l t c).isOk) = true) :
    ∃ c f, Cursor.Of t.root c ∧ Fix.plan l t c = .ok f ∧ f.path = p := by
  obtain ⟨c, hc, h⟩ := (Option.any_eq_true _ _).1 h
  have hof : Cursor.Of t.root c := Cursor.of_iff.2 ⟨p, hc⟩
  cases hplan : Fix.plan l t c with
  | error e =>
    rw [hplan] at h
    cases h
  | ok f => exact ⟨c, f, hof, hplan, (FixAll.at?_of_plan hof hplan).1.trans (Cursor.path_at hc)⟩

theorem Sample.apply_stamped :
    Sample.stamped.root.labels.Nodup ∧ ∃ (f g h : Fix) (tf tg th tgh thg : Tree),
      f.path = [0] ∧ g.path = [0, 2, 0, 1] ∧ h.path = [1] ∧
      f.apply [101] Sample.stamped = .ok tf ∧ g.apply [101] Sample.stamped = .ok tg ∧
      h.apply [101] Sample.stamped = .ok th ∧
      g.apply [102] tf = .error .foreign ∧ f.apply [102] tg = .error .foreign ∧
      f.apply [102] tf = .error .foreign ∧
      h.apply [102] tg = .ok tgh ∧ g.apply [102] th = .ok thg ∧ tgh.source = thg.source := by
  have hdistinct : Sample.stamped.root.labels.Nodup := by decide
  have hspares : ∀ n ∈ [[100], [100], [101], [101]], Sample.stamped.root.Spares n := by decide
  obtain ⟨a, f, ha, hf, hfp⟩ := @Sample.exists_plan Sample.stamped [100] [0] (by decide +kernel)
  obtain ⟨b, g, hb, hg, hgp⟩ :=
    @Sample.exists_plan Sample.stamped [100] [0, 2, 0, 1] (by decide +kernel)
  obtain ⟨c, h, hc, hh, hhp⟩ := @Sample.exists_plan Sample.stamped [100] [1] (by decide +kernel)
  obtain ⟨tf, tg, htf, htg, -, hinner⟩ := Fix.apply_in_either_order [102] [102] hdistinct hspares
    ha hb hf hg (by simp [hfp]) (by simp [hgp])
  obtain ⟨tf', _, htf', -, -, hself⟩ := Fix.apply_in_either_order [102] [102] hdistinct hspares
    ha ha hf hf (by simp [hfp]) (by simp [hfp])
  obtain ⟨tg', th, htg', hth, hapart, -⟩ := Fix.apply_in_either_order [102] [102] hdistinct hspares
    hb hc hg hh (by simp [hgp]) (by simp [hhp])
  cases htf.symm.trans htf'
  cases htg.symm.trans htg'
  obtain ⟨hgtf, hftg⟩ := hinner (by simp [Fix.encloses, hfp, hgp])
  obtain ⟨hftf, -⟩ := hself (by simp [Fix.encloses, hfp])
  obtain ⟨tgh, thg, htgh, hthg, hsource⟩ :=
    hapart (by rw [Fix.encloses, hgp, hhp]; rfl) (by rw [Fix.encloses, hgp, hhp]; rfl)
  exact ⟨hdistinct, f, g, h, tf, tg, th, tgh, thg, hfp, hgp, hhp, htf, htg, hth, hgtf, hftg, hftf, htgh,
    hthg, hsource⟩

end CancellationLint
