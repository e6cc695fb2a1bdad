import CancellationLint.Proofs.Replace

/-! # Marks and the edits below them

A node that was marked as being in error stays marked while it is edited further down, as long as no
edit reaches into a child that is in error. An edit that does takes the mark for the error of that
child: from then on the node is in error only while something in it is. -/

namespace CancellationLint

namespace Element

theorem exists_put_at {l : Label} {new e e' : Element} {q p : Path}
    (h : put? l new (q ++ p) e = some e') :
    ∃ m x x', e.at? q = some x ∧ put? m new p x = some x' ∧ e'.at? q = some x' := by
  induction q generalizing e e' l with
  | nil => exact ⟨l, e, e', rfl, h, rfl⟩
  | cons i q ih =>
    obtain ⟨g, es, old, child, rfl, hold, hchild, rfl⟩ := put?_cons_iff.1 h
    obtain ⟨m, x, x', hx, hput, hx'⟩ := ih hchild
    have hi : i < es.length := (List.getElem?_eq_some_iff.1 hold).1
    exact ⟨m, x, x', at?_cons_iff.2 ⟨old, hold, hx⟩, hput,
      at?_cons_iff.2 ⟨child, List.getElem?_set_self hi, hx'⟩⟩

theorem hasError_put_of_at {l : Label} {new e e' x : Element} {q p : Path}
    (h : put? l new (q ++ p) e = some e') (hx : e'.at? q = some x) (herr : x.hasError = true) :
    e'.hasError = true := by
  induction q generalizing e e' l with
  | nil =>
    cases hx
    exact herr
  | cons i q ih =>
    obtain ⟨g, es, old, child, rfl, hold, hchild, rfl⟩ := put?_cons_iff.1 h
    have hi : i < es.length := (List.getElem?_eq_some_iff.1 hold).1
    obtain ⟨d, hd, hx⟩ := at?_cons_iff.1 hx
    rw [children, List.getElem?_set_self hi] at hd
    cases hd
    have hany := (any_hasError_set_iff hold child).2 (Or.inl (ih hchild hx))
    exact hasError_swap_iff.2 (Or.inr (Or.inl hany))

theorem hasError_of_at {e x : Element} {q : Path} (he : e.sound = true) (hx : e.at? q = some x)
    (herr : x.hasError = true) : e.hasError = true := by
  by_contra hno
  have hx' := hasError_at (showsErrors_of_sound he) (by simpa using hno) hx
  rw [herr] at hx'
  cases hx'

/-- A mark goes by the new children, and by the old mark if the child on the way had no error. -/
theorem hasError_put_below {l : Label} {new x x' old : Element} {i : Nat} {p : Path}
    (h : put? l new (i :: p) x = some x') (hold : x.children[i]? = some old) :
    x'.kind = x.kind ∧
      (x'.hasError = true ↔ x.kind = .error ∨ x'.children.any hasError = true ∨
        x.hasError = true ∧ old.hasError = false) ∧
      (x.children.any hasError = true → old.hasError = false →
        x'.children.any hasError = true) := by
  obtain ⟨g, es, d, child, rfl, hd, -, rfl⟩ := put?_cons_iff.1 h
  obtain rfl : d = old := Option.some.inj (hd.symm.trans hold)
  refine ⟨rfl, hasError_swap_iff, ?_⟩
  intro hany hno
  -- Another child is in error, and it is still there.
  rw [children, any_hasError_iff hd, hno] at hany
  rw [children, any_hasError_set_iff hd]
  exact Or.inr (hany.resolve_left (by simp))

theorem clean_put_below {l : Label} {new x x' : Element} {i : Nat} {p : Path}
    (hx : x.sound = true) (hclean : ∀ child ∈ x.children, child.hasError = false)
    (hnew : new.hasError = false) (h : put? l new (i :: p) x = some x') :
    ∀ child ∈ x'.children, child.hasError = false := by
  obtain ⟨g, es, old, child, rfl, hold, hchild, rfl⟩ := put?_cons_iff.1 h
  have hmem : old ∈ es := List.mem_of_getElem? hold
  have hsound := ((sound_node_iff g es).1 hx).2.2 old hmem
  intro d hd
  rcases List.mem_or_eq_of_mem_set hd with hd | rfl
  · exact hclean d hd
  · rw [hasError_put_eq hsound (hclean old hmem) hchild]
    exact hnew

end Element

/-! ## Histories -/

/-- An edit below a node: the child that it reaches into, and what it puts there or further down. -/
structure InnerEdit where
  into : Element
  new : Element

namespace Tree

/-- Any number of replacements below the node at `q`, the last one first. -/
inductive EditedBelow (q : Path) (t : Tree) : List InnerEdit → Tree → Prop
  | unchanged : EditedBelow q t [] t
  | edit {log : List InnerEdit} {mid t' : Tree} {l : Label} {i : Nat} {p : Path}
    {old new : Element} : EditedBelow q t log mid → mid.at? (q ++ [i]) = some old →
    mid.replaceAt? l (q ++ i :: p) new = some t' →
    EditedBelow q t ({ into := old, new } :: log) t'

variable {t t' : Tree} {q : Path} {log : List InnerEdit}

theorem exists_put_below {mid : Tree} {l : Label} {i : Nat} {p : Path} {old new x : Element}
    (hx : mid.at? q = some x) (hold : mid.at? (q ++ [i]) = some old)
    (h : mid.replaceAt? l (q ++ i :: p) new = some t') :
    ∃ m x', x.children[i]? = some old ∧ Element.put? m new (i :: p) x = some x' ∧
      t'.at? q = some x' := by
  obtain ⟨-, root, hroot, rfl⟩ := replaceAt?_eq_some_iff.1 h
  obtain ⟨m, y, x', hy, hput, hx'⟩ := Element.exists_put_at hroot
  obtain rfl : y = x := Option.some.inj (hy.symm.trans hx)
  refine ⟨m, x', ?_, hput, hx'⟩
  obtain ⟨z, hz, hold⟩ := Element.at?_append_iff.1 hold
  obtain rfl : z = y := Option.some.inj (hz.symm.trans hy)
  obtain ⟨d, hd, heq⟩ := Element.at?_cons_iff.1 hold
  cases heq
  exact hd

namespace EditedBelow

theorem hasError_iff {x : Element} (h : t.EditedBelow q log t') (hx : t.at? q = some x)
    (hmark : x.hasError = true) :
    ∃ x', t'.at? q = some x' ∧ x'.kind = x.kind ∧
      (x'.hasError = true ↔ x.kind = .error ∨ x'.children.any Element.hasError = true ∨
        ∀ edit ∈ log, edit.into.hasError = false) := by
  induction h with
  | unchanged => exact ⟨x, hx, rfl, by simp [hmark]⟩
  | edit _ hold hput ih =>
    obtain ⟨y, hy, hkind, hy'⟩ := ih
    obtain ⟨m, x', hchild, hput, hx'⟩ := exists_put_below hy hold hput
    obtain ⟨hkind', hstep, hbeside⟩ := Element.hasError_put_below hput hchild
    refine ⟨x', hx', hkind'.trans hkind, ?_⟩
    rw [hstep, hkind, hy', List.forall_mem_cons]
    constructor
    · rintro (hk | hany | ⟨hk | hany | hlog, hno⟩)
      · exact Or.inl hk
      · exact Or.inr (Or.inl hany)
      · exact Or.inl hk
      · exact Or.inr (Or.inl (hbeside hany hno))
      · exact Or.inr (Or.inr ⟨hno, hlog⟩)
    · rintro (hk | hany | ⟨hno, hlog⟩)
      · exact Or.inl hk
      · exact Or.inr (Or.inl hany)
      · exact Or.inr (Or.inr ⟨Or.inr (Or.inr hlog), hno⟩)

theorem hasError_above {x : Element} {r : Path} (ht : t.root.sound = true)
    (h : t.EditedBelow q log t') (hx : t'.at? q = some x) (herr : x.hasError = true)
    (hr : r <+: q) : ∃ y, t'.at? r = some y ∧ y.hasError = true := by
  obtain ⟨s, rfl⟩ := hr
  cases h with
  | unchanged =>
    obtain ⟨y, hy, hx⟩ := Element.at?_append_iff.1 hx
    exact ⟨y, hy, Element.hasError_of_at (Element.all_at ht hy) hx herr⟩
  | edit _ _ hput =>
    obtain ⟨-, root, hroot, rfl⟩ := replaceAt?_eq_some_iff.1 hput
    rw [List.append_assoc] at hroot
    obtain ⟨m, y, y', -, hbelow, hy'⟩ := Element.exists_put_at hroot
    refine ⟨y', hy', Element.hasError_put_of_at hbelow ?_ herr⟩
    obtain ⟨z, hz, hx⟩ := Element.at?_append_iff.1 hx
    obtain rfl : z = y' := Option.some.inj (hz.symm.trans hy')
    exact hx

theorem spares_of_clean {x : Element} (ht : t.root.sound = true) (h : t.EditedBelow q log t')
    (hx : t.at? q = some x) (hclean : ∀ child ∈ x.children, child.hasError = false)
    (hlog : ∀ edit ∈ log, edit.new.sound = true ∧ edit.new.hasError = false) :
    t'.root.sound = true ∧ (∃ x', t'.at? q = some x' ∧
      ∀ child ∈ x'.children, child.hasError = false) ∧ ∀ edit ∈ log, edit.into.hasError = false := by
  induction h with
  | unchanged => exact ⟨ht, ⟨x, hx, hclean⟩, by simp⟩
  | edit _ hold hput ih =>
    obtain ⟨⟨hnew, hno⟩, hlog⟩ := List.forall_mem_cons.1 hlog
    obtain ⟨hmid, ⟨y, hy, hychildren⟩, hspared⟩ := ih hlog
    obtain ⟨m, x', hchild, hbelow, hx'⟩ := exists_put_below hy hold hput
    obtain ⟨-, root, hroot, rfl⟩ := replaceAt?_eq_some_iff.1 hput
    refine ⟨Element.sound_put hmid hnew hroot, ⟨x', hx', ?_⟩, List.forall_mem_cons.2 ⟨?_, hspared⟩⟩
    · exact Element.clean_put_below (Element.all_at hmid hy) hychildren hno hbelow
    · exact hychildren _ (List.mem_of_getElem? hchild)

/-- A marked node that is edited further down keeps its mark unless an edit reaches into an error.
-/
theorem mark_stays_iff {y : Element} {m : Label} (ht : t.root.sound = true) (hy : y.isNode = true)
    (hmarked : t.at? q = some (y.markError m)) (h : t.EditedBelow q log t') :
    ∃ x, t'.at? q = some x ∧ x.kind = y.kind ∧
      (x.hasError = true ↔ y.kind = .error ∨ x.children.any Element.hasError = true ∨
        ∀ edit ∈ log, edit.into.hasError = false) ∧
      (x.hasError = true → ∀ r, r <+: q → ∃ z, t'.at? r = some z ∧ z.hasError = true) ∧
      ((∀ child ∈ y.children, child.hasError = false) →
        (∀ edit ∈ log, edit.new.sound = true ∧ edit.new.hasError = false) →
          x.hasError = true) := by
  cases y with
  | token t => cases hy
  | node g es =>
    obtain ⟨x, hx, hkind, hiff⟩ := h.hasError_iff hmarked rfl
    refine ⟨x, hx, hkind, hiff, fun herr r hr => h.hasError_above ht hx herr hr, ?_⟩
    intro hclean hlog
    exact hiff.2 (Or.inr (Or.inr (h.spares_of_clean ht hmarked hclean hlog).2.2))

end EditedBelow
end Tree

namespace Sample

def semicolon : Element := .token { label := [3], kind := .semicolon, text := ";" }

def statement : Element :=
  .make [4] .block [.token { label := [5], kind := .identifier, text := "a" }, semicolon]

def suspect : Tree := { root := .make [] .compilationUnit [statement.markError [6], semicolon] }

end Sample

theorem Sample.mark_stays_suspect :
    Sample.suspect.root.sound = true ∧ Sample.statement.isNode = true ∧
      Sample.suspect.at? [0] = some (Sample.statement.markError [6]) ∧
      ∃ t' x, Sample.suspect.replaceAt? [7] [0, 0] Sample.semicolon = some t' ∧
        t'.at? [0] = some x ∧ x.hasError = true ∧ t'.root.hasError = true := by
  have hsound : Sample.suspect.root.sound = true := by decide
  have hmarked : Sample.suspect.at? [0] = some (Sample.statement.markError [6]) := rfl
  obtain ⟨root, -, hput⟩ := Tree.exists_replaceAt (t := Sample.suspect) (p := [0, 0]) [7]
    Sample.semicolon (by decide) rfl
  have hedited := Tree.EditedBelow.edit (q := [0]) .unchanged rfl hput
  obtain ⟨x, hx, -, -, habove, hclean⟩ := hedited.mark_stays_iff hsound rfl hmarked
  have herr := hclean (by decide) (by decide)
  obtain ⟨z, hz, hroot⟩ := habove herr [] List.nil_prefix
  cases hz
  exact ⟨hsound, rfl, hmarked, _, x, hput, hx, herr, hroot⟩

/-- A made-up token has come and gone, and the mark of the statement is gone with it. -/
theorem Sample.mark_lost_suspect :
    Sample.suspect.at? [0] = some (Sample.statement.markError [6]) ∧
      ∃ t₁ t₂, Sample.suspect.replaceAt? [7] [0, 1] Sample.gap = some t₁ ∧
        t₁.replaceAt? [8] [0, 1] Sample.semicolon = some t₂ ∧
        (t₁.at? [0]).map Element.hasError = some true ∧
        (t₂.at? [0]).map Element.hasError = some false ∧ t₂.root.hasError = false :=
  ⟨rfl, _, _, rfl, rfl, rfl, rfl, rfl⟩

end CancellationLint
