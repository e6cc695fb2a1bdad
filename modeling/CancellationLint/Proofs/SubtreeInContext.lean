import CancellationLint.Proofs.Detected
import CancellationLint.Proofs.RelatedScopes

/-! # A subtree in its contexts

The cursors on a subtree in a tree are those on the subtree by itself, with another offset and with
more nodes above. So what the scopes of the subtree say of a name does not depend on the tree around
it, and the scopes further out are asked only if none of them declares the name. -/

namespace CancellationLint

def Frame.moved (base : Nat) (f : Frame) : Frame := { f with offset := base + f.offset }

namespace Cursor

/-- A cursor on a subtree, in a tree where the subtree stands at `base`. -/
def moved (base c : Cursor) : Cursor :=
  { element := c.element, offset := base.offset + c.offset,
    above := c.above.map (·.moved base.offset) ++ base.above }

theorem moved_ofRoot (base : Cursor) : moved base (ofRoot base.element) = base := rfl

theorem childAt?_moved (base c : Cursor) (i : Nat) :
    (moved base c).childAt? i = (c.childAt? i).map (moved base) := by
  unfold childAt? moved
  simp only [Option.map_map]
  congr 1
  funext e
  simp [frames, Frame.moved, Nat.add_assoc]

theorem at?_moved (base c : Cursor) (p : Path) :
    at? p (moved base c) = (at? p c).map (moved base) := by
  induction p generalizing c with
  | nil => rfl
  | cons i p ih =>
    unfold at?
    rw [childAt?_moved]
    cases c.childAt? i with
    | none => rfl
    | some d => exact ih d

theorem onFrames_moved (base c : Cursor) :
    onFrames (moved base c).above = (onFrames c.above).map (moved base) ++ onFrames base.above := by
  obtain ⟨e, offset, above⟩ := c
  unfold moved
  simp only
  induction above with
  | nil => rfl
  | cons f above ih =>
    simp only [List.map_cons, List.cons_append, onFrames, ih]
    rfl

theorem enclosing_moved (base c : Cursor) :
    (moved base c).enclosing = c.enclosing.map (moved base) ++ onFrames base.above := by
  have hnode : (moved base c).isNode = c.isNode := rfl
  unfold enclosing
  rw [hnode, onFrames_moved]
  split <;> rfl

theorem span_moved (base c : Cursor) :
    (moved base c).span.start = base.offset + c.span.start ∧
      (moved base c).span.stop = base.offset + c.span.stop := by
  obtain ⟨e, offset, above⟩ := c
  cases e with
  | token t =>
    simp only [moved, span]
    omega
  | node h es =>
    simp only [moved, span]
    omega

theorem inStep_moved (base : Cursor) : InStep fun c c' => c' = moved base c where
  isNode_eq h := by rw [h]; rfl
  kind_iff h _ _ := by rw [h]; rfl
  text_eq h _ := by rw [h]; rfl
  aligned {c c'} h _ := by
    intro i
    rw [h, childAt?_moved]
    cases c.childAt? i with
    | none => exact Option.Rel.none
    | some d => exact Option.Rel.some rfl

end Cursor

namespace Scope

open Cursor

theorem told_moved {base : Cursor} {ds ds' : List Declaration}
    (h : List.Forall₂ (Declaration.Pair fun c c' => c' = moved base c) ds ds') (name : String) :
    told name ds' = told name ds := by
  refine told_eq h (fun d _ n' hn => ?_) fun d _ x _ x' hx => ?_
  · rw [hn]
    rfl
  · rw [hx]
    rfl

theorem told_declarations_moved (base c : Cursor) (use : Nat) (name : String) :
    told name (declarations (base.offset + use) (moved base c)) = told name (declarations use c) := by
  apply told_moved
  apply (inStep_moved base).declarations rfl
  · intro _ i d d' hd hd'
    rw [childAt?_moved, hd] at hd'
    cases hd'
    rw [(span_moved base d).2]
    omega
  · intro _ d _ d' hd
    rw [hd]
    rfl

/-- The scopes of the subtree are asked first. -/
theorem told_visible_moved (base c : Cursor) (name : String) :
    told name (visible (moved base c)) = (told name (visible c)).or
      (told name ((onFrames base.above).flatMap (declarations (base.offset + c.span.start)))) := by
  have hinner : told name ((c.enclosing.map (moved base)).flatMap
      (declarations (base.offset + c.span.start))) = told name (visible c) := by
    unfold visible
    rw [List.flatMap_map, told_flatMap, told_flatMap]
    simp only [told_declarations_moved]
  rw [visible, enclosing_moved, (span_moved base c).1, List.flatMap_append, told_append, hinner]

theorem kind_of_expression {c token : Cursor} (h : c.expression = .identifier token) :
    c.kind = .identifier := by
  unfold Cursor.expression at h
  split at h
  · split at h <;> cases h
  · assumption
  all_goals cases h

theorem oracle_of_declared {base use token : Cursor} {d : Declaration}
    (htoken : use.expression = .identifier token)
    (hd : (visible use).find? (·.names token.text) = some d) :
    oracle (moved base use) = d.typeName? := by
  have hkind := kind_of_expression htoken
  have htext : (moved base use).text = use.text := rfl
  have helem : (moved base use).element = use.element := rfl
  rcases expression_of_identifier hkind with ⟨token', hexpr, heq, hfirst⟩ | ⟨hexpr, -⟩
  · cases htoken.symm.trans hexpr
    rw [oracle_of_identifier (c := moved base use) hkind, helem, htext, if_pos hfirst, ← heq,
      resolve_eq, told_visible_moved, told, hd]
    rfl
  · cases htoken.symm.trans hexpr

theorem oracle_of_this {base use r n s : Cursor} (hnode : use.expression = .memberAccess use)
    (hr : use.receiver? = some r) (hthis : r.expression = .this r) (hn : use.memberName? = some n)
    (hs : use.enclosing.find? (·.kind.isTypeDeclaration) = some s) :
    oracle (moved base use) = (told n.text (memberDeclarations s)).join := by
  obtain ⟨-, hnode, hkind⟩ := expression_eq_memberAccess hnode
  have hstep := inStep_moved base
  have halign := hstep.aligned (c := use) rfl (by simp [hkind])
  have hreceiver : (moved base use).receiver?.any isThis = true := by
    rw [any_eq_of_rel (fun _ _ hd => hstep.isThis_eq hd) halign.receiver, hr]
    exact isThis_of_expression hthis
  have hname : (moved base use).memberName?.map text = some n.text := by
    rw [map_eq_of_rel (fun _ _ _ hd => by rw [hd]) halign.memberName, hn]
    rfl
  have htype : (moved base use).enclosing.find? (·.kind.isTypeDeclaration) =
      some (moved base s) := by
    have hkinds : (·.kind.isTypeDeclaration) ∘ moved base = (·.kind.isTypeDeclaration) := rfl
    rw [enclosing_moved, List.find?_append, List.find?_map, hkinds, hs]
    rfl
  have hmembers : members n.text (moved base s) = told n.text (memberDeclarations s) := by
    rw [told_memberDeclarations]
    refine told_moved (hstep.memberDeclarations (hstep.aligned rfl fun hif => ?_)) n.text
    have hdeclares := List.find?_some hs
    simp [hif, Kind.isTypeDeclaration] at hdeclares
  rw [oracle_of_memberAccess (c := moved base use) hkind hnode, if_pos hreceiver, hname, htype]
  simp [hmembers]

end Scope

theorem Cursor.exists_moved {t : Tree} {S : Element} {p q : Path} {use c : Cursor}
    (huse : at? p (ofRoot S) = some use) (hS : t.at? q = some S)
    (hc : at? (q ++ p) t.cursor = some c) : ∃ base, c = moved base use := by
  rw [at?_append] at hc
  obtain ⟨base, hbase, hc⟩ := Option.bind_eq_some_iff.1 hc
  have helem := element_at hbase
  obtain rfl : S = base.element := Option.some.inj (hS.symm.trans helem)
  rw [← moved_ofRoot base, at?_moved, huse] at hc
  exact ⟨base, (Option.some.inj hc).symm⟩

/-- A name that a subtree declares has the same type wherever the subtree stands. -/
theorem Scope.oracle_within_subtree {S : Element} {t t' : Tree} {p q q' : Path} {use c c' : Cursor}
    (huse : Cursor.at? p (.ofRoot S) = some use) (hS : t.at? q = some S) (hS' : t'.at? q' = some S)
    (hc : Cursor.at? (q ++ p) t.cursor = some c) (hc' : Cursor.at? (q' ++ p) t'.cursor = some c') :
    (∀ token, use.expression = .identifier token → (∃ d ∈ visible use, d.name.text = token.text) →
      ∃ d, (visible use).find? (·.names token.text) = some d ∧
        oracle c = d.typeName? ∧ oracle c' = d.typeName?) ∧
    (∀ r n s, use.expression = .memberAccess use → use.receiver? = some r → r.expression = .this r →
      use.memberName? = some n → use.enclosing.find? (·.kind.isTypeDeclaration) = some s →
      oracle c = (told n.text (memberDeclarations s)).join ∧
        oracle c' = (told n.text (memberDeclarations s)).join) := by
  obtain ⟨base, rfl⟩ := Cursor.exists_moved huse hS hc
  obtain ⟨base', rfl⟩ := Cursor.exists_moved huse hS' hc'
  constructor
  · rintro token htoken ⟨d, hd, hname⟩
    obtain ⟨first, hfirst⟩ := Option.isSome_iff_exists.1
      (List.find?_isSome.2 ⟨d, hd, show d.names token.text = true from decide_eq_true hname⟩)
    exact ⟨first, hfirst, oracle_of_declared htoken hfirst, oracle_of_declared htoken hfirst⟩
  · intro r n s hnode hr hthis hn hs
    exact ⟨oracle_of_this hnode hr hthis hn hs, oracle_of_this hnode hr hthis hn hs⟩

namespace Sample

def declaring (type name : String) : Element :=
  .make [] .variableDeclaration
    [token .identifier type, .make [] .variableDeclarator [token .identifier name]]

def classOf (members : List Element) : Element :=
  .make [] .classDeclaration [.make [] .declarationList members]

def reading (receiver : Element) (name : String) : Element :=
  .make [] .memberAccessExpression [receiver, token .dot ".", token .identifier name]

def holder : Element :=
  classOf
    [.make [] .fieldDeclaration [declaring "CancellationToken" "ct"],
      method (token .identifier "int") "n"
        (block [.make [] .localDeclarationStatement [declaring "var" "ct"],
          reading (token .identifier "ct") "x", reading (reading (token .thisKeyword "this") "ct") "x"])]

def alone : Tree := { root := .make [] .compilationUnit [holder] }

def within : Tree :=
  { root := .make [] .compilationUnit
      [token .semicolon ";",
        classOf [.make [] .fieldDeclaration [declaring "CancellationToken" "ct"], holder]] }

end Sample

/-- The local is unknown in both trees, though another declaration of the name is a token. -/
theorem Sample.oracle_within_holder :
    Sample.alone.at? [0] = some Sample.holder ∧ Sample.within.at? [1, 0, 1] = some Sample.holder ∧
      (∃ c c', Cursor.at? [0, 0, 1, 1, 2, 0] Sample.alone.cursor = some c ∧
        Cursor.at? [1, 0, 1, 0, 1, 1, 2, 0] Sample.within.cursor = some c' ∧
        c.text = "ct" ∧ Scope.oracle c = none ∧ Scope.oracle c' = none) ∧
      ∃ c c', Cursor.at? [0, 0, 1, 1, 3, 0] Sample.alone.cursor = some c ∧
        Cursor.at? [1, 0, 1, 0, 1, 1, 3, 0] Sample.within.cursor = some c' ∧
        Scope.oracle c = some (.ofQualified tokenType) ∧
        Scope.oracle c' = some (.ofQualified tokenType) := by
  refine ⟨rfl, rfl, ⟨_, _, rfl, rfl, by decide, ?_⟩, _, _, rfl, rfl, ?_⟩
  · obtain ⟨hnames, -⟩ := @Scope.oracle_within_subtree Sample.holder Sample.alone Sample.within
      [0, 1, 1, 2, 0] [0] [1, 0, 1] _ _ _ rfl rfl rfl rfl rfl
    obtain ⟨d, hd, hc, hc'⟩ := hnames _ rfl ⟨_, List.mem_cons_self, rfl⟩
    have htype : d.typeName? = none := by
      cases hd
      decide
    exact ⟨hc.trans htype, hc'.trans htype⟩
  · obtain ⟨-, hmembers⟩ := @Scope.oracle_within_subtree Sample.holder Sample.alone Sample.within
      [0, 1, 1, 3, 0] [0] [1, 0, 1] _ _ _ rfl rfl rfl rfl rfl
    obtain ⟨hc, hc'⟩ := hmembers _ _ _ rfl rfl rfl rfl rfl
    exact ⟨hc.trans (by decide), hc'.trans (by decide)⟩

end CancellationLint
