import CancellationLint.Proofs.RelatedScopes
import CancellationLint.Proofs.PlacesAfterFixes

/-! # Names and checks before and after

What the scopes around a place declare is the same before and after the fixes, since no if statement
stands in a declared name or its type. So the parts of a check are found in the same way, and its
receiver has the same type: a place that gave no way is flagged before and after, or neither. -/

namespace CancellationLint

/-! ## What the rule reads -/

theorem Scope.of_mem_readParts {root : Element} {c part : Cursor} (hc : Cursor.Of root c)
    (hpart : part ∈ readParts c) : Cursor.Of root part := by
  have hparts : ∀ x ∈ parts c, Cursor.Of root x := fun x hx =>
    hc.of_mem_children ((List.takeWhile_prefix _).subset (List.mem_of_mem_filter hx))
  unfold readParts at hpart
  split at hpart
  · rwa [List.mem_singleton.1 hpart]
  · split at hpart
    · rwa [List.mem_singleton.1 hpart]
    · exact hc.child (Cursor.memberName?_eq_some (Option.mem_toList.1 hpart)).2
  · exact hparts part (List.mem_reverse.1 (List.mem_of_mem_take hpart))
  · exact hc.of_mem_children (List.mem_of_mem_take hpart)
  · exact hparts part (List.mem_of_mem_take hpart)
  · exact hc.of_mem_children (List.mem_of_mem_filter hpart)
  · cases hpart

theorem Element.settledNames_of_plain {root : Element} (h : root.plain = true) :
    root.settledNames = true := by
  refine List.all_eq_true.2 fun c hc => List.all_eq_true.2 fun part hpart => ?_
  have hof := (Cursor.mem_nodes_ofRoot.1 hc).2
  have hpart : Cursor.Of root part := by
    rcases List.mem_append.1 hpart with hpart | hpart
    · exact Scope.of_mem_readParts hof hpart
    · unfold Scope.upToArrow at hpart
      split at hpart
      · exact hof.of_mem_children (mem_of_mem_upTo hpart)
      · cases hpart
  exact settled_of_plain (all_at h hpart.element_at)

namespace Scope

/-- The name and the type are such elements. -/
def Declaration.All (P : Element → Prop) (d : Declaration) : Prop :=
  P d.name.element ∧ ∀ x ∈ d.type, P x.element

section

variable {root : Element} {P : Element → Prop} {c : Cursor}
  (hread : ∀ {c part : Cursor}, Cursor.Of root c → c.isNode = true → part ∈ readParts c →
    P part.element)

include hread

theorem all_ofParameter (hc : Cursor.Of root c) (hnode : c.isNode = true)
    (hkind : c.kind = .parameter) : ∀ d ∈ ofParameter (parts c).reverse, d.All P := by
  have hparts : ∀ part ∈ (parts c).reverse.take 2, P part.element := fun part hpart =>
    hread hc hnode (by rwa [readParts, hkind])
  intro d hd
  cases hrow : (parts c).reverse with
  | nil =>
    rw [hrow] at hd
    cases hd
  | cons name rest =>
    rw [hrow] at hd hparts
    obtain rfl := List.mem_singleton.1 hd
    refine ⟨hparts name (by simp), fun type htype => hparts type ?_⟩
    cases rest with
    | nil => cases htype
    | cons x rest =>
      cases htype
      simp

variable (htoken : ∀ t, P (.token t))

include htoken

theorem holds_of_identifier (hc : Cursor.Of root c) (hkind : c.kind = .identifier) :
    P c.element := by
  cases hnode : c.isNode with
  | true => exact hread hc hnode (by simp [readParts, hkind])
  | false =>
    obtain ⟨e, offset, above⟩ := c
    cases e with
    | token t => exact htoken t
    | node g es => cases hnode

theorem all_variableDeclarations (hc : Cursor.Of root c) :
    ∀ d ∈ variableDeclarations c, d.All P := by
  intro d hd
  obtain ⟨v, hv, hd⟩ := List.mem_flatMap.1 hd
  have hfound : c.childNodes.find? (·.kind = .variableDeclaration) = some v :=
    Option.mem_toList.1 hv
  have hkind : v.kind = .variableDeclaration := by simpa using List.find?_some hfound
  have hof := hc.of_mem_childNodes (List.mem_of_find?_eq_some hfound)
  obtain ⟨name, hname, rfl⟩ := List.mem_map.1 hd
  obtain ⟨x, hx, hname⟩ := List.mem_filterMap.1 hname
  refine ⟨?_, fun type htype => ?_⟩
  · have hxof := hof.1.of_mem_childNodes (List.mem_of_mem_filter hx)
    exact holds_of_identifier hread htoken (hxof.1.of_mem_children (List.mem_of_find?_eq_some hname))
      (by simpa using List.find?_some hname)
  · refine hread hof.1 hof.2 ?_
    obtain ⟨rest, hrest⟩ := List.head?_eq_some_iff.1 htype
    simp [readParts, hkind, hrest]

theorem all_implicitParameters (hc : Cursor.Of root c) (hkind : c.kind = .lambdaExpression) :
    ∀ d ∈ implicitParameters c, d.All P := by
  intro d hd
  obtain ⟨name, hname, rfl⟩ := List.mem_map.1 hd
  rw [List.mem_filter, Bool.or_eq_true, decide_eq_true_eq, decide_eq_true_eq] at hname
  have hmem := (List.takeWhile_prefix _).subset hname.1
  refine ⟨?_, by simp⟩
  rcases hname.2 with hid | himplicit
  · exact holds_of_identifier hread htoken (hc.of_mem_children hmem) hid
  · refine hread hc (Cursor.isNode_of_mem_children hmem) ?_
    simp [readParts, hkind, hmem, himplicit]

theorem all_parameterDeclarations (hc : Cursor.Of root c) :
    ∀ d ∈ parameterDeclarations c, d.All P := by
  intro d hd
  rcases List.mem_append.1 hd with hd | hd
  · split at hd
    · exact all_implicitParameters hread htoken hc ‹_› d hd
    · cases hd
  · obtain ⟨p, hp, hd⟩ := List.mem_flatMap.1 hd
    rw [List.mem_filter, decide_eq_true_eq] at hp
    have hof := hc.of_mem_listed hp.1
    exact all_ofParameter hread hof.1 hof.2 hp.2 d hd

theorem all_memberDeclarations (hc : Cursor.Of root c) :
    ∀ d ∈ memberDeclarations c, d.All P := by
  intro d hd
  obtain ⟨m, hm, hd⟩ := List.mem_flatMap.1 hd
  have hof := hc.of_mem_listed hm
  unfold ofMember at hd
  split at hd
  · exact all_variableDeclarations hread htoken hof.1 d hd
  split at hd
  · rename_i hkind
    have hparts : ∀ part ∈ (parts m).take 2, P part.element := fun part hpart =>
      hread hof.1 hof.2 (by rwa [readParts, hkind])
    cases hrow : parts m with
    | nil =>
      rw [hrow] at hd
      cases hd
    | cons type rest =>
      rw [hrow] at hd hparts
      cases rest with
      | nil => cases hd
      | cons name rest =>
        obtain rfl := List.mem_singleton.1 hd
        exact ⟨hparts name (by simp), by simpa using hparts type (by simp)⟩
  · cases hd

theorem all_declarations (hc : Cursor.Of root c) (use : Nat) :
    ∀ d ∈ declarations use c, d.All P := by
  intro d hd
  unfold declarations at hd
  split at hd
  · obtain ⟨s, hs, hd⟩ := List.mem_flatMap.1 hd
    split at hd
    · exact all_variableDeclarations hread htoken (hc.of_mem_childNodes hs).1 d hd
    · cases hd
  split at hd
  · exact all_parameterDeclarations hread htoken hc d hd
  split at hd
  · rcases List.mem_append.1 hd with hd | hd
    · exact all_parameterDeclarations hread htoken hc d hd
    · exact all_memberDeclarations hread htoken hc d hd
  · cases hd

end

end Scope

namespace Repair.Twin

variable {r : Repair} {c c' access access' : Cursor}

theorem told_eq {ds ds' : List Scope.Declaration}
    (h : List.Forall₂ (Scope.Declaration.Pair r.Twin) ds ds') (hkeeps : ∀ d ∈ ds, d.All r.Keeps)
    (name : String) : Scope.told name ds' = Scope.told name ds := by
  refine Scope.told_eq h (fun d hd n' hn => ?_) fun d hd x hx x' hxx => ?_
  · rw [hn.text_eq (hkeeps d (mem_of_mem_upTo hd)).1]
  · rw [hxx.text_eq ((hkeeps d hd).2 x hx)]

theorem resolve_eq (hacc : r.Twin access access') (h : r.Twin c c') (huse : Scope.Use r.old access c)
    (huse' : Scope.Use r.new access' c') (hkind : c.kind = .identifier) (name : String) :
    Scope.resolve name c' = Scope.resolve name c := by
  have harrow : ∀ s ∈ Cursor.onFrames access.above, s.kind = .lambdaExpression →
      ∀ d ∈ upTo (·.text = "=>") s.children, ∀ d', r.Twin d d' → (d'.text = "=>" ↔ d.text = "=>") := by
    intro s hs hlambda d hd d' hdd
    refine hdd.text_eq_iff (settled_of_mem (hacc.of_old.above hs) ?_ ?_) (by decide)
    · exact Cursor.isNode_of_mem_children (mem_of_mem_upTo hd)
    · simp [Scope.upToArrow, hlambda, hd]
  have hvisible := r.inStep.visible huse huse' r.old_sound r.new_sound
    (fun _ _ hs => ⟨hs.of_old, hs.of_new⟩) hacc.above harrow h hkind
  rw [Scope.resolve_eq, Scope.resolve_eq, told_eq hvisible (fun d hd => ?_) name]
  obtain ⟨s, hs, hd⟩ := List.mem_flatMap.1 hd
  exact Scope.all_declarations keeps_of_read keeps_token (h.of_old.enclosing hs) _ d hd

/-- The name of a member is read, or else the whole access is. -/
theorem text_of_memberName {n n' : Cursor} (h : r.Twin c c') (hnode : c.isNode = true)
    (hkind : c.kind = .memberAccessExpression) (hname : c.memberName? = some n) (hn : r.Twin n n') :
    n'.text = n.text := by
  have hread : c ∈ Scope.readParts c ∨ n ∈ Scope.readParts c := by
    unfold Scope.readParts
    rw [hkind]
    simp only
    split
    · exact Or.inl (by simp)
    · exact Or.inr (by simp [hname])
  refine hn.text_eq ?_
  rcases hread with hread | hread
  · obtain ⟨-, hat⟩ := Cursor.memberName?_eq_some hname
    exact (keeps_of_read h.of_old hnode hread).child (Cursor.element_childAt hat)
  · exact keeps_of_read h.of_old hnode hread

/-- The receiver of a check has the same type before and after. -/
theorem oracle_eq (hacc : r.Twin access access') (h : r.Twin c c') (huse : Scope.Use r.old access c)
    (huse' : Scope.Use r.new access' c') : Scope.oracle c' = Scope.oracle c := by
  refine r.inStep.oracle_eq h (r.inStep.enclosing h (h.above.imp fun _ _ hs => hs.1))
    (fun hkind => ?_) ?_
  · have hkeeps : r.Keeps c.element :=
      Scope.holds_of_identifier keeps_of_read keeps_token h.of_old hkind
    have hkind' := (h.kind_eq_iff (by decide) (by decide)).2 hkind
    have hwords := h.mended.words_eq fun _ _ hx => h.mended.not_cut_of_ifFree hkeeps.1 hx
    rw [Scope.oracle_of_identifier hkind, Scope.oracle_of_identifier hkind', h.text_eq hkeeps,
      hacc.resolve_eq h huse huse' hkind, ← List.head?_map, ← List.head?_map, hwords]
  · intro hkind hnode _ n n' s s' hname hn hs hss
    have hof := h.of_old.enclosing (List.mem_of_find?_eq_some hs)
    have htype : s.kind ≠ .ifStatement := by
      intro hk
      have := List.find?_some hs
      simp [hk, Kind.isTypeDeclaration] at this
    rw [h.text_of_memberName hnode hkind hname hn, Scope.told_memberDeclarations,
      Scope.told_memberDeclarations]
    exact told_eq (r.inStep.memberDeclarations (r.inStep.aligned hss htype))
      (Scope.all_memberDeclarations keeps_of_read keeps_token hof) n.text

theorem isSome_flagged_eq (h : r.Twin c c') (hcut : ¬ r.cut c.path) :
    (Check.flagged? Scope.oracle c').isSome = (Check.flagged? Scope.oracle c).isSome := by
  refine Check.isSome_flagged_eq (r.inStep.ofNode (h.aligned hcut) h.isNode_eq (h.kind_eq hcut)
    h.hasError_eq fun a a' n n' ha haa hname hn => ?_) fun k k' hk hk' haccess hreceiver => ?_
  · obtain ⟨-, hnode, hkind⟩ := Check.access?_eq_some ha
    rw [haa.text_of_memberName hnode hkind hname hn]
  · exact haccess.oracle_eq hreceiver (Check.use_of_ofNode h.of_old hk)
      (Check.use_of_ofNode h.of_new hk')

end Repair.Twin
end CancellationLint
