import CancellationLint.Detection
import CancellationLint.Proofs.Declared
import CancellationLint.Proofs.Shape
import Mathlib.Data.List.Forall2
import Mathlib.Data.Option.Basic

/-! # Related cursors of two trees

Cursors on two trees, and a relation between them that leads from related nodes to related children.
Whatever the rule finds from a node, it finds from the related one: the parts of a check, and the
declarations in a scope. What the texts are and where they stand is left to the relation. -/

namespace CancellationLint

/-! ## Lists in step -/

/-- The elements that a search goes through, the one it finds included. -/
def upTo {α : Type} (found : α → Bool) : List α → List α
  | [] => []
  | a :: as => a :: if found a then [] else upTo found as

theorem mem_of_mem_upTo {α : Type} {found : α → Bool} {as : List α} {a : α}
    (h : a ∈ upTo found as) : a ∈ as := by
  induction as with
  | nil => exact h
  | cons b as ih =>
    rcases List.mem_cons.1 h with rfl | h
    · simp
    · split at h
      · cases h
      · simp [ih h]

section Lists

variable {α β γ : Type} {R : α → β → Prop} {as : List α} {bs : List β}

theorem forall₂_of_getElem? (hlen : bs.length = as.length)
    (h : ∀ (i : Nat) (a : α) (b : β), as[i]? = some a → bs[i]? = some b → R a b) :
    List.Forall₂ R as bs := by
  rw [List.forall₂_iff_get]
  refine ⟨hlen.symm, fun i hi hi' => ?_⟩
  exact h i _ _ (List.getElem?_eq_getElem hi) (List.getElem?_eq_getElem hi')

theorem forall₂_of_rel (h : ∀ i : Nat, Option.Rel R as[i]? bs[i]?) : List.Forall₂ R as bs := by
  induction as generalizing bs with
  | nil =>
    cases bs with
    | nil => exact .nil
    | cons b bs => cases h 0
  | cons a as ih =>
    cases bs with
    | nil => cases h 0
    | cons b bs =>
      have hab : R a b := by
        cases h 0 with
        | some hab => exact hab
      exact (ih fun i => h (i + 1)).cons hab

theorem forall₂_toList {o : Option α} {o' : Option β} (h : Option.Rel R o o') :
    List.Forall₂ R o.toList o'.toList := by
  cases h with
  | none => exact .nil
  | some hab => exact .cons hab .nil

theorem forall₂_filter {p : α → Bool} {q : β → Bool} (hpq : ∀ a b, R a b → q b = p a)
    (h : List.Forall₂ R as bs) :
    List.Forall₂ (fun a b => R a b ∧ p a = true) (as.filter p) (bs.filter q) := by
  induction h with
  | nil => exact List.Forall₂.nil
  | @cons a b _ _ hab _ ih =>
    rw [List.filter_cons, List.filter_cons, hpq a b hab]
    split
    · rename_i hp
      exact ih.cons ⟨hab, hp⟩
    · exact ih

/-- The two searches need to agree only on what they go through. -/
theorem forall₂_takeWhile {p : α → Bool} {q : β → Bool}
    (hpq : ∀ a ∈ upTo (!p ·) as, ∀ b, R a b → q b = p a) (h : List.Forall₂ R as bs) :
    List.Forall₂ R (as.takeWhile p) (bs.takeWhile q) := by
  induction h with
  | nil => exact List.Forall₂.nil
  | @cons a b _ _ hab _ ih =>
    rw [List.takeWhile_cons, List.takeWhile_cons, hpq a (by simp [upTo]) b hab]
    cases hp : p a with
    | true => exact (ih fun x hx => hpq x (by simp [upTo, hp, hx])).cons hab
    | false => exact List.Forall₂.nil

theorem forall₂_dropWhile {p : α → Bool} {q : β → Bool} (hpq : ∀ a b, R a b → q b = p a)
    (h : List.Forall₂ R as bs) : List.Forall₂ R (as.dropWhile p) (bs.dropWhile q) := by
  induction h with
  | nil => exact List.Forall₂.nil
  | @cons a b _ _ hab hrest ih =>
    rw [List.dropWhile_cons, List.dropWhile_cons, hpq a b hab]
    split
    · exact ih
    · exact hrest.cons hab

theorem rel_find?_upTo {p : α → Bool} {q : β → Bool}
    (hpq : ∀ a ∈ upTo p as, ∀ b, R a b → q b = p a) (h : List.Forall₂ R as bs) :
    Option.Rel (fun a b => R a b ∧ p a = true) (as.find? p) (bs.find? q) := by
  induction h with
  | nil => exact Option.Rel.none
  | @cons a b _ _ hab _ ih =>
    rw [List.find?_cons, List.find?_cons, hpq a (by simp [upTo]) b hab]
    cases hp : p a with
    | true => exact Option.Rel.some ⟨hab, hp⟩
    | false => exact ih fun x hx => hpq x (by simp [upTo, hp, hx])

theorem rel_find? {p : α → Bool} {q : β → Bool} (hpq : ∀ a b, R a b → q b = p a)
    (h : List.Forall₂ R as bs) :
    Option.Rel (fun a b => R a b ∧ p a = true) (as.find? p) (bs.find? q) :=
  rel_find?_upTo (fun a _ b => hpq a b) h

theorem rel_getElem? (i : Nat) (h : List.Forall₂ R as bs) : Option.Rel R as[i]? bs[i]? := by
  induction h generalizing i with
  | nil => exact Option.Rel.none
  | cons hab _ ih =>
    cases i with
    | zero => exact Option.Rel.some hab
    | succ i => exact ih i

theorem all_eq_of_forall₂ {p : α → Bool} {q : β → Bool} (hpq : ∀ a b, R a b → q b = p a)
    (h : List.Forall₂ R as bs) : bs.all q = as.all p := by
  induction h with
  | nil => rfl
  | @cons a b _ _ hab _ ih => rw [List.all_cons, List.all_cons, hpq a b hab, ih]

theorem bind_eq_of_rel {o : Option α} {o' : Option β} {f : α → Option γ} {g : β → Option γ}
    (hfg : ∀ a, o = some a → ∀ b, R a b → g b = f a) (h : Option.Rel R o o') :
    o'.bind g = o.bind f := by
  cases h with
  | none => rfl
  | some hab => exact hfg _ rfl _ hab

theorem map_eq_of_rel {o : Option α} {o' : Option β} {f : α → γ} {g : β → γ}
    (hfg : ∀ a, o = some a → ∀ b, R a b → g b = f a) (h : Option.Rel R o o') :
    o'.map g = o.map f := by
  cases h with
  | none => rfl
  | some hab => exact congrArg some (hfg _ rfl _ hab)

theorem any_eq_of_rel {o : Option α} {o' : Option β} {p : α → Bool} {q : β → Bool}
    (hpq : ∀ a b, R a b → q b = p a) (h : Option.Rel R o o') : o'.any q = o.any p := by
  cases h with
  | none => rfl
  | some hab => exact hpq _ _ hab

theorem isSome_eq_of_rel {o : Option α} {o' : Option β} (h : Option.Rel R o o') :
    o'.isSome = o.isSome := by
  cases h <;> rfl

theorem rel_imp {S : α → β → Prop} {o : Option α} {o' : Option β} (hRS : ∀ a b, R a b → S a b)
    (h : Option.Rel R o o') : Option.Rel S o o' := by
  cases h with
  | none => exact Option.Rel.none
  | some hab => exact Option.Rel.some (hRS _ _ hab)

theorem rel_filter {o : Option α} {o' : Option β} {p : α → Bool} {q : β → Bool}
    (hpq : ∀ a b, R a b → q b = p a) (h : Option.Rel R o o') :
    Option.Rel (fun a b => R a b ∧ p a = true) (o.filter p) (o'.filter q) := by
  cases h with
  | none => exact Option.Rel.none
  | @some a b hab =>
    rw [Option.filter_some, Option.filter_some, hpq a b hab]
    split
    · rename_i hp
      exact Option.Rel.some ⟨hab, hp⟩
    · exact Option.Rel.none

end Lists

namespace Check

theorem access?_eq (c : Cursor) :
    access? c = c.condition?.filter fun d => d.kind = .memberAccessExpression && d.isNode := by
  unfold access?
  cases c.condition? with
  | none => rfl
  | some d =>
    rw [Option.map_some, Option.filter_some]
    by_cases hd : d.kind = .memberAccessExpression ∧ d.isNode = true
    · simp [Cursor.expression, hd]
    · split
      · rename_i heq
        obtain ⟨-, hnode, hkind⟩ := Cursor.expression_eq_memberAccess (Option.some.inj heq)
        exact absurd ⟨hkind, hnode⟩ hd
      · simpa using hd

theorem isSome_abort (body : Cursor) :
    (abort? body).isSome = (body.kind = .throwStatement ||
      (body.kind = .block && (body.childNodes.length = 1 &&
        body.childNodes.all (·.kind = .throwStatement)))) := by
  unfold abort? Cursor.statementForm
  by_cases hthrow : body.kind = .throwStatement
  · simp [hthrow]
  by_cases hblock : body.kind = .block
  · rw [hblock]
    match body.childNodes with
    | [] => rfl
    | [only] => by_cases h : only.kind = .throwStatement <;> simp [h]
    | _ :: _ :: _ => simp
  · cases hk : body.kind <;> simp_all

end Check

/-! ## Children in step -/

def Cursor.Aligned (R : Cursor → Cursor → Prop) (c c' : Cursor) : Prop :=
  ∀ i, Option.Rel R (c.childAt? i) (c'.childAt? i)

/-- A relation between cursors in step. An if statement may have given way to another statement,
so nothing is asked below one. -/
structure InStep (R : Cursor → Cursor → Prop) : Prop where
  isNode_eq {c c' : Cursor} : R c c' → c'.isNode = c.isNode
  kind_iff {c c' : Cursor} {k : Kind} : R c c' → k ≠ .ifStatement → k ≠ .expressionStatement →
    (c'.kind = k ↔ c.kind = k)
  text_eq {c c' : Cursor} : R c c' → c.isNode = false → c'.text = c.text
  aligned {c c' : Cursor} : R c c' → c.kind ≠ .ifStatement → Cursor.Aligned R c c'

namespace Cursor.Aligned

variable {R : Cursor → Cursor → Prop} {c c' : Cursor}

theorem of_childAt (hlen : c'.element.children.length = c.element.children.length)
    (h : ∀ i d d', c.childAt? i = some d → c'.childAt? i = some d' → R d d') : Aligned R c c' := by
  intro i
  rw [← children_getElem?, ← children_getElem?]
  refine rel_getElem? i (forall₂_of_getElem? ?_ fun j d d' hd hd' => ?_)
  · rw [length_children, length_children, hlen]
  · rw [children_getElem?] at hd hd'
    exact h j d d' hd hd'

theorem children (h : Aligned R c c') : List.Forall₂ R c.children c'.children := by
  refine forall₂_of_rel fun i => ?_
  rw [children_getElem?, children_getElem?]
  exact h i

theorem children_at (h : Aligned R c c') :
    List.Forall₂ (fun d d' => R d d' ∧ ∃ i, c.childAt? i = some d ∧ c'.childAt? i = some d')
      c.children c'.children := by
  refine forall₂_of_getElem? h.children.length_eq.symm fun i d d' hd hd' => ?_
  rw [children_getElem?] at hd hd'
  have hrel := h i
  rw [hd, hd'] at hrel
  cases hrel with
  | some hrel => exact ⟨hrel, i, hd, hd'⟩

theorem receiver (h : Aligned R c c') : Option.Rel R c.receiver? c'.receiver? := by
  have hchildren := h.children
  unfold receiver?
  generalize c.children = cs at hchildren
  generalize c'.children = cs' at hchildren
  cases hchildren with
  | nil => exact Option.Rel.none
  | cons hfirst hrest =>
    cases hrest with
    | nil => exact Option.Rel.none
    | cons _ _ => exact Option.Rel.some hfirst

theorem memberName (h : Aligned R c c') : Option.Rel R c.memberName? c'.memberName? := by
  have hlen := h.children.length_eq
  rw [length_children, length_children] at hlen
  unfold memberName?
  simp only [← hlen]
  split
  · exact Option.Rel.none
  · exact h _

end Cursor.Aligned

namespace InStep

open Cursor

variable {R : Cursor → Cursor → Prop} (hR : InStep R) {c c' : Cursor}

include hR

theorem kind_test (h : R c c') {k : Kind} (hif : k ≠ .ifStatement)
    (hcall : k ≠ .expressionStatement) : decide (c'.kind = k) = decide (c.kind = k) := by
  simp only [hR.kind_iff h hif hcall]

theorem enclosing (h : R c c') (habove : List.Forall₂ R (onFrames c.above) (onFrames c'.above)) :
    List.Forall₂ R c.enclosing c'.enclosing := by
  unfold Cursor.enclosing
  rw [hR.isNode_eq h]
  split
  · exact habove.cons h
  · exact habove

theorem childNodes (h : Aligned R c c') :
    List.Forall₂ (fun d d' => R d d' ∧ d.isNode = true) c.childNodes c'.childNodes :=
  forall₂_filter (fun _ _ hd => hR.isNode_eq hd) h.children

theorem nodesOfKind (h : Aligned R c c') {k : Kind} (hif : k ≠ .ifStatement)
    (hcall : k ≠ .expressionStatement) :
    List.Forall₂ (fun d d' => R d d' ∧ d.kind = k) (c.childNodes.filter (·.kind = k))
      (c'.childNodes.filter (·.kind = k)) := by
  refine (forall₂_filter (fun d d' hd => hR.kind_test hd.1 hif hcall) (hR.childNodes h)).imp ?_
  exact fun d d' hd => ⟨hd.1.1, of_decide_eq_true hd.2⟩

/-! ### Parts of a check -/

theorem childAfter (h : Aligned R c c') {k : Kind} (hif : k ≠ .ifStatement)
    (hcall : k ≠ .expressionStatement) : Option.Rel R (c.childAfter? k) (c'.childAfter? k) := by
  unfold childAfter?
  refine rel_getElem? 1 (forall₂_dropWhile (fun d d' hd => ?_) h.children)
  simp only [ne_eq, hR.kind_iff hd hif hcall]

theorem access (h : Aligned R c c') :
    Option.Rel (fun d d' => R d d' ∧ d.kind = .memberAccessExpression ∧ d.isNode = true)
      (Check.access? c) (Check.access? c') := by
  have hcond := rel_filter (p := fun d : Cursor => d.kind ≠ .closeParen)
    (q := fun d : Cursor => d.kind ≠ .closeParen)
    (fun d d' hd => by
      simp only [ne_eq, hR.kind_iff hd (show Kind.closeParen ≠ _ by decide) (by decide)])
    (hR.childAfter h (k := .openParen) (by decide) (by decide))
  have hfound := rel_filter (p := fun d : Cursor => d.kind = .memberAccessExpression && d.isNode)
    (q := fun d : Cursor => d.kind = .memberAccessExpression && d.isNode)
    (fun d d' hd => by rw [hR.kind_test hd.1 (by decide) (by decide), hR.isNode_eq hd.1]) hcond
  rw [Check.access?_eq, Check.access?_eq]
  exact rel_imp (fun d d' hd => ⟨hd.1.1, by simpa using hd.2⟩) hfound

theorem body (h : Aligned R c c') :
    Option.Rel (fun d d' => R d d' ∧ d.isNode = true) c.body? c'.body? :=
  rel_filter (fun _ _ hd => hR.isNode_eq hd) (hR.childAfter h (by decide) (by decide))

theorem isSome_abort_eq (h : R c c') : (Check.abort? c').isSome = (Check.abort? c).isSome := by
  rw [Check.isSome_abort, Check.isSome_abort, hR.kind_test h (by decide) (by decide),
    hR.kind_test h (by decide) (by decide)]
  by_cases hblock : c.kind = .block
  · have hnodes := hR.childNodes (hR.aligned h (by simp [hblock]))
    rw [hnodes.length_eq, all_eq_of_forall₂
      (fun d d' hd => hR.kind_test hd.1 (by decide) (by decide)) hnodes]
  · simp [hblock]

theorem isSome_elseBranch_eq (h : Aligned R c c') :
    c'.elseBranch?.isSome = c.elseBranch?.isSome := by
  refine isSome_eq_of_rel (rel_find? (fun d d' hd => ?_) h.children)
  rw [hR.kind_test hd (by decide) (by decide), hR.kind_test hd (by decide) (by decide)]

theorem ofNode (h : Aligned R c c') (hnode : c'.isNode = c.isNode) (hkind : c'.kind = c.kind)
    (herr : c'.hasError = c.hasError)
    (hname : ∀ a a' n n', Check.access? c = some a → R a a' → a.memberName? = some n → R n n' →
      (n'.text = cancellationFlag ↔ n.text = cancellationFlag)) :
    Option.Rel (fun k k' => R k.access k'.access ∧ R k.receiver k'.receiver ∧ R k.body k'.body)
      (Check.ofNode c).toOption (Check.ofNode c').toOption := by
  have haccess := hR.access h
  have hbody := hR.body h
  -- Both searches go on as long as they find a part, and stop at the same one.
  unfold Check.ofNode
  rw [hnode, hkind, herr, hR.isSome_elseBranch_eq h]
  split
  · exact Option.Rel.none
  split
  · exact Option.Rel.none
  cases ha : Check.access? c with
  | none =>
    rw [ha] at haccess
    generalize Check.access? c' = a' at haccess
    cases haccess
    exact Option.Rel.none
  | some a =>
    rw [ha] at haccess
    generalize Check.access? c' = a' at haccess
    cases haccess with
    | @some _ a' hacc =>
      obtain ⟨hacc, hkind, -⟩ := hacc
      have halign := hR.aligned hacc (by simp [hkind])
      have hreceiver := halign.receiver
      have hflag : a'.memberName?.map Cursor.text = some cancellationFlag ↔
          a.memberName?.map Cursor.text = some cancellationFlag := by
        have hrel := halign.memberName
        cases hn : a.memberName? with
        | none =>
          rw [hn] at hrel
          generalize a'.memberName? = n' at hrel
          cases hrel
          exact Iff.rfl
        | some n =>
          rw [hn] at hrel
          generalize a'.memberName? = n' at hrel
          cases hrel with
          | @some _ n' hrel => simpa using hname a a' n n' ha hacc hn hrel
      simp only
      generalize a.receiver? = d at hreceiver
      generalize a'.receiver? = d' at hreceiver
      cases hreceiver with
      | none => exact Option.Rel.none
      | some hrec =>
        simp only [ne_eq, hflag]
        split
        · exact Option.Rel.none
        generalize c.body? = b at hbody
        generalize c'.body? = b' at hbody
        cases hbody with
        | none => exact Option.Rel.none
        | @some b b' hb =>
          have habort := hR.isSome_abort_eq hb.1
          simp only
          cases hx : Check.abort? b with
          | none =>
            rw [hx, Option.isSome_none, Option.isSome_eq_false_iff,
              Option.isNone_iff_eq_none] at habort
            rw [habort]
            exact Option.Rel.none
          | some x =>
            rw [hx, Option.isSome_some] at habort
            obtain ⟨x', hx'⟩ := Option.isSome_iff_exists.1 habort
            rw [hx']
            simp only
            split
            · exact Option.Rel.none
            · exact Option.Rel.some ⟨hacc, hrec, hb.1⟩

end InStep

/-! ## The same path -/

/-- Cursors that the same steps lead to, from the roots and through paths in `way`. -/
inductive Cursor.Paired (a b : Element) (way : Path → Prop) : Cursor → Cursor → Prop
  | root : Paired a b way (.ofRoot a) (.ofRoot b)
  | child {c c' d d' : Cursor} {i : Nat} : Paired a b way c c' → way c.path →
    c.childAt? i = some d → c'.childAt? i = some d' → Paired a b way d d'

namespace Cursor.Paired

variable {a b : Element} {way : Path → Prop} {c c' : Cursor}

theorem path_eq (h : Paired a b way c c') : c'.path = c.path := by
  induction h with
  | root => rfl
  | child _ _ hd hd' ih => rw [path_childAt hd, path_childAt hd', ih]

theorem of_left (h : Paired a b way c c') : Of a c := by
  induction h with
  | root => exact .root
  | child _ _ hd _ ih => exact ih.child hd

theorem of_right (h : Paired a b way c c') : Of b c' := by
  induction h with
  | root => exact .root
  | child _ _ _ hd' ih => exact ih.child hd'

theorem above (h : Paired a b way c c') :
    List.Forall₂ (fun s s' => (Paired a b way s s' ∧ way s.path) ∧
        ∃ i p, at? (i :: p) s = some c ∧ at? (i :: p) s' = some c')
      (onFrames c.above) (onFrames c'.above) := by
  induction h with
  | root => exact .nil
  | @child c c' d d' i hc hway hd hd' ih =>
    rw [onFrames_childAt hd, onFrames_childAt hd']
    refine List.Forall₂.cons ⟨⟨hc, hway⟩, i, [], by simp [at?, hd, hd']⟩ (ih.imp ?_)
    rintro s s' ⟨hs, j, p, hp, hp'⟩
    refine ⟨hs, j, p ++ [i], ?_⟩
    rw [← List.cons_append, at?_append, at?_append, hp, hp']
    simp [at?, hd, hd']

theorem exists_right
    (halign : ∀ c c', Paired a b way c c' → way c.path → Aligned (Paired a b way) c c')
    (hc : Of a c) (hway : ∀ q, q <+: c.path → way q) : ∃ c', Paired a b way c c' := by
  induction hc with
  | root => exact ⟨_, .root⟩
  | @child c d i hc hd ih =>
    rw [path_childAt hd] at hway
    obtain ⟨c', h⟩ := ih fun q hq => hway q (hq.trans (List.prefix_append _ _))
    have hrel := halign c c' h (hway _ (List.prefix_append c.path [i])) i
    rw [hd] at hrel
    generalize c'.childAt? i = o at hrel
    cases hrel with
    | some hd' => exact ⟨_, hd'⟩

theorem exists_left
    (halign : ∀ c c', Paired a b way c c' → way c.path → Aligned (Paired a b way) c c')
    (hc' : Of b c') (hway : ∀ q, q <+: c'.path → way q) : ∃ c, Paired a b way c c' := by
  induction hc' with
  | root => exact ⟨_, .root⟩
  | @child c' d' i hc' hd' ih =>
    rw [path_childAt hd'] at hway
    obtain ⟨c, h⟩ := ih fun q hq => hway q (hq.trans (List.prefix_append _ _))
    rw [h.path_eq] at hway
    have hrel := halign c c' h (hway _ (List.prefix_append c.path [i])) i
    rw [hd'] at hrel
    generalize c.childAt? i = o at hrel
    cases hrel with
    | some hd => exact ⟨_, hd⟩

end Cursor.Paired
/-! ## One element in two places -/

/-- The two cursors are on equal elements. -/
def Cursor.Akin (c d : Cursor) : Prop := d.element = c.element

namespace Cursor.Akin

variable {c c' : Cursor}

theorem aligned (h : Akin c c') : Aligned Akin c c' := by
  have helem : c'.element = c.element := h
  intro i
  unfold childAt?
  rw [helem]
  cases c.element.children[i]? with
  | none => exact Option.Rel.none
  | some e => exact Option.Rel.some rfl

theorem inStep : InStep Akin where
  isNode_eq h := congrArg Element.isNode h
  kind_iff h _ _ := by rw [kind, kind, h]
  text_eq h _ := congrArg Element.text h
  aligned h _ := h.aligned

end Cursor.Akin

theorem Check.exists_ofNode {c c' : Cursor} {check : Check} (h : Cursor.Akin c c')
    (hcheck : ofNode c = .ok check) :
    ∃ check', ofNode c' = .ok check' ∧ Cursor.Akin check.receiver check'.receiver ∧
      Cursor.Akin check.body check'.body := by
  have hrel := Cursor.Akin.inStep.ofNode h.aligned (congrArg Element.isNode h)
    (congrArg Element.kind h) (congrArg Element.hasError h) fun a a' n n' _ _ _ hn => by
      rw [show n'.text = n.text from congrArg Element.text hn]
  rw [hcheck] at hrel
  cases hcheck' : ofNode c' with
  | error m =>
    rw [hcheck'] at hrel
    cases hrel
  | ok check' =>
    rw [hcheck'] at hrel
    cases hrel with
    | some hparts => exact ⟨check', rfl, hparts.2⟩

end CancellationLint
