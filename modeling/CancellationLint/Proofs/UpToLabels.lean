import CancellationLint.Element.Path
import CancellationLint.Fix.Basic
import CancellationLint.Proofs.Tokens
import Mathlib.Data.List.Forall2

/-! # Elements equal but for their labels

Whoever builds elements chooses the labels, and nothing else of what is built depends on that. -/

namespace CancellationLint
namespace Element

theorem allAlike_iff {as bs : List Element} :
    allAlike as bs = true ↔ List.Forall₂ (fun a b => a.alike b = true) as bs := by
  induction as generalizing bs with
  | nil => cases bs <;> simp [allAlike]
  | cons a as ih => cases bs <;> simp [allAlike, ih]

theorem alike_node_iff {g h : Head} {as bs : List Element} :
    (Element.node g as).alike (.node h bs) = true ↔
      g.alike h = true ∧ List.Forall₂ (fun a b => a.alike b = true) as bs := by
  rw [alike, Bool.and_eq_true, allAlike_iff]

theorem alike_refl (e : Element) : e.alike e = true := by
  induction e with
  | token t => simp [alike, Token.alike]
  | node h es ih =>
    rw [alike_node_iff, List.forall₂_same]
    exact ⟨by simp [Head.alike], ih⟩

/-! ## What elements that are alike have in common -/

theorem tokens_of_alike {a b : Element} (h : a.alike b = true) :
    List.Forall₂ (fun s t => Token.alike s t = true) a.tokens b.tokens := by
  induction a generalizing b with
  | token s =>
    cases b with
    | token t => exact List.Forall₂.cons h List.Forall₂.nil
    | node g bs => cases h
  | node g as ih =>
    cases b with
    | token t => cases h
    | node g' bs =>
      obtain ⟨-, hs⟩ := alike_node_iff.1 h
      rw [tokens_node, tokens_node]
      clear h
      induction hs with
      | nil => exact List.Forall₂.nil
      | @cons a b as bs hab _ ihs =>
        rw [List.flatMap_cons, List.flatMap_cons]
        exact List.rel_append (ih a (by simp) hab) (ihs fun e he => ih e (by simp [he]))

theorem hasTokens_of_alike {a b : Element} (h : a.alike b = true) : a.hasTokens = b.hasTokens := by
  rw [Bool.eq_iff_iff, hasTokens_iff, hasTokens_iff]
  have := (tokens_of_alike h).length_eq
  rw [← List.length_pos_iff, ← List.length_pos_iff, this]

theorem leading_of_alike {a b : Element} (h : a.alike b = true) : a.leading = b.leading := by
  rw [leading_eq, leading_eq]
  have := tokens_of_alike h
  generalize a.tokens = ss at this
  generalize b.tokens = ts at this
  cases this with
  | nil => rfl
  | cons hab =>
    simp only [Token.alike, Bool.and_eq_true, decide_eq_true_eq] at hab
    simp [hab]

theorem fullText_of_alike {a b : Element} (h : a.alike b = true) : a.fullText = b.fullText := by
  rw [fullText_eq, fullText_eq]
  have := tokens_of_alike h
  generalize a.tokens = ss at this
  generalize b.tokens = ts at this
  induction this with
  | nil => rfl
  | cons hab _ ih =>
    simp only [Token.alike, Bool.and_eq_true, decide_eq_true_eq] at hab
    simp [Token.fullText, hab, ih]

theorem width_of_alike {a b : Element} (h : a.alike b = true) : a.width = b.width := by
  cases a <;> cases b <;>
    simp_all [alike, Token.alike, Head.alike, width, Token.width]

theorem hasError_of_alike {a b : Element} (h : a.alike b = true) : a.hasError = b.hasError := by
  cases a <;> cases b <;> simp_all [alike, Token.alike, Head.alike, hasError]

theorem widthOf_of_alike {as bs : List Element}
    (h : List.Forall₂ (fun a b => a.alike b = true) as bs) : widthOf as = widthOf bs := by
  induction h with
  | nil => rfl
  | cons hab _ ih => rw [widthOf, widthOf, ih, width_of_alike hab]

theorem any_hasError_of_alike {as bs : List Element}
    (h : List.Forall₂ (fun a b => a.alike b = true) as bs) :
    as.any hasError = bs.any hasError := by
  induction h with
  | nil => rfl
  | cons hab _ ih => rw [List.any_cons, List.any_cons, ih, hasError_of_alike hab]

/-! ## What is built from them -/

theorem alike_make {l m : Label} {kind : Kind} {as bs : List Element}
    (h : List.Forall₂ (fun a b => a.alike b = true) as bs) :
    (make l kind as).alike (make m kind bs) = true := by
  rw [make, make, alike_node_iff]
  simp [Head.alike, widthOf_of_alike h, any_hasError_of_alike h, h]

theorem alike_swap {g h : Head} {l m : Label} {a b : Element} {as bs : List Element}
    (hgh : g.alike h = true) (hab : a.alike b = true)
    (hs : List.Forall₂ (fun a b => a.alike b = true) as bs) :
    (Element.node (g.swap l a as) as).alike (.node (h.swap m b bs) bs) = true := by
  rw [alike_node_iff]
  simp only [Head.alike, Bool.and_eq_true, decide_eq_true_eq] at hgh
  simp [Head.alike, Head.swap, widthOf_of_alike hs, any_hasError_of_alike hs,
    hasError_of_alike hab, hgh, hs]

theorem alike_withReformat {l m : Label} {r : Option Reformat} {a b : Element}
    (h : a.alike b = true) : (a.withReformat l r).alike (b.withReformat m r) = true := by
  cases a <;> cases b <;> simp_all [alike, Token.alike, Head.alike, withReformat]

theorem alike_withLeading {l m : Label} {trivia : String} {a b : Element} (h : a.alike b = true) :
    (a.withLeading l trivia).alike (b.withLeading m trivia) = true := by
  induction a generalizing b l m with
  | token s =>
    cases b with
    | token t => simp_all [alike, Token.alike, withLeading]
    | node g bs => cases h
  | node g as ih =>
    cases b with
    | token t => cases h
    | node g' bs =>
      obtain ⟨hg, hs⟩ := alike_node_iff.1 h
      -- Both lists change at the same element, or at none.
      have hfirst : Option.Rel (fun x y => x.1.alike y.1 = true ∧
            List.Forall₂ (fun a b => a.alike b = true) x.2 y.2)
          (withFirstLeading (l.sub 0) trivia as) (withFirstLeading (m.sub 0) trivia bs) := by
        clear h
        induction hs with
        | nil => exact Option.Rel.none
        | @cons a b as bs hab hs ihs =>
          rw [withFirstLeading, withFirstLeading, hasTokens_of_alike hab]
          split
          · exact Option.Rel.some ⟨hab, List.Forall₂.cons (ih a (by simp) hab) hs⟩
          · replace ihs := ihs fun e he => ih e (by simp [he])
            generalize withFirstLeading (l.sub 0) trivia as = x at ihs
            generalize withFirstLeading (m.sub 0) trivia bs = y at ihs
            cases ihs with
            | none => exact Option.Rel.none
            | some hxy => exact Option.Rel.some ⟨hxy.1, List.Forall₂.cons hab hxy.2⟩
      rw [withLeading, withLeading]
      generalize withFirstLeading (l.sub 0) trivia as = x at hfirst
      generalize withFirstLeading (m.sub 0) trivia bs = y at hfirst
      cases hfirst with
      | none => exact alike_node_iff.2 ⟨by simp_all [Head.alike], hs⟩
      | some hxy => exact alike_swap hg hxy.1 hxy.2

theorem alike_withTrailing {l m : Label} {trivia : String} {a b : Element} (h : a.alike b = true) :
    (a.withTrailing l trivia).alike (b.withTrailing m trivia) = true := by
  induction a generalizing b l m with
  | token s =>
    cases b with
    | token t => simp_all [alike, Token.alike, withTrailing]
    | node g bs => cases h
  | node g as ih =>
    cases b with
    | token t => cases h
    | node g' bs =>
      obtain ⟨hg, hs⟩ := alike_node_iff.1 h
      have hlast : Option.Rel (fun x y => x.1.alike y.1 = true ∧
            List.Forall₂ (fun a b => a.alike b = true) x.2 y.2)
          (withLastTrailing (l.sub 0) trivia as) (withLastTrailing (m.sub 0) trivia bs) := by
        clear h
        induction hs with
        | nil => exact Option.Rel.none
        | @cons a b as bs hab hs ihs =>
          rw [withLastTrailing, withLastTrailing]
          replace ihs := ihs fun e he => ih e (by simp [he])
          generalize withLastTrailing (l.sub 0) trivia as = x at ihs
          generalize withLastTrailing (m.sub 0) trivia bs = y at ihs
          cases ihs with
          | some hxy => exact Option.Rel.some ⟨hxy.1, List.Forall₂.cons hab hxy.2⟩
          | none =>
            simp only [hasTokens_of_alike hab]
            split
            · exact Option.Rel.some ⟨hab, List.Forall₂.cons (ih a (by simp) hab) hs⟩
            · exact Option.Rel.none
      rw [withTrailing, withTrailing]
      generalize withLastTrailing (l.sub 0) trivia as = x at hlast
      generalize withLastTrailing (m.sub 0) trivia bs = y at hlast
      cases hlast with
      | none => exact alike_node_iff.2 ⟨by simp_all [Head.alike], hs⟩
      | some hxy => exact alike_swap hg hxy.1 hxy.2

theorem forall₂_set {as bs : List Element} {a b : Element} (i : Nat)
    (hs : List.Forall₂ (fun a b => a.alike b = true) as bs) (h : a.alike b = true) :
    List.Forall₂ (fun a b => a.alike b = true) (as.set i a) (bs.set i b) := by
  induction hs generalizing i with
  | nil => exact List.Forall₂.nil
  | cons hab hs ih =>
    cases i with
    | zero => exact List.Forall₂.cons h hs
    | succ i => exact List.Forall₂.cons hab (ih i)

theorem forall₂_getElem? {as bs : List Element} {a b : Element} {i : Nat}
    (hs : List.Forall₂ (fun a b => a.alike b = true) as bs) (ha : as[i]? = some a)
    (hb : bs[i]? = some b) : a.alike b = true := by
  induction hs generalizing i with
  | nil => cases ha
  | cons hab _ ih =>
    cases i with
    | zero =>
      cases ha
      cases hb
      exact hab
    | succ i => exact ih ha hb

theorem alike_put {l m : Label} {p : Path} {new new' e e' r r' : Element}
    (he : e.alike e' = true) (hnew : new.alike new' = true) (hr : put? l new p e = some r)
    (hr' : put? m new' p e' = some r') : r.alike r' = true := by
  induction p generalizing e e' r r' l m with
  | nil =>
    cases hr
    cases hr'
    exact hnew
  | cons i p ih =>
    cases e with
    | token t => cases hr
    | node g as =>
      cases e' with
      | token t => cases hr'
      | node g' bs =>
        obtain ⟨hg, hs⟩ := alike_node_iff.1 he
        simp only [put?, Option.bind_eq_some_iff, Option.map_eq_some_iff] at hr hr'
        obtain ⟨old, hold, child, hchild, rfl⟩ := hr
        obtain ⟨old', hold', child', hchild', rfl⟩ := hr'
        have halike := forall₂_getElem? hs hold hold'
        exact alike_swap hg halike (forall₂_set i hs (ih halike hchild hchild'))

end Element
end CancellationLint
