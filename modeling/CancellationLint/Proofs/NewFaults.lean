import CancellationLint.Proofs.Faults
import CancellationLint.Validation
import Mathlib.Algebra.BigOperators.Finprod

/-! # Faults that a change brings

A change is refused exactly if, for some text, more faults cover it afterwards than before. Each
fault before accounts for one fault afterwards that covers the same text, so what is reported is the
excess of each text. -/

namespace CancellationLint
namespace Concrete

mutual

def nodes : Concrete → List Concrete
  | .node h children => .node h children :: nodesOf children

def nodesOf : List Concrete → List Concrete
  | [] => []
  | c :: rest => c.nodes ++ nodesOf rest

end

theorem nodesOf_eq (cs : List Concrete) : nodesOf cs = cs.flatMap nodes := by
  induction cs with
  | nil => rfl
  | cons c cs ih => rw [nodesOf, ih, List.flatMap_cons]

theorem any_iff {test : Concrete → Bool} {c : Concrete} :
    c.any test = true ↔ ∃ n ∈ c.nodes, test n = true := by
  induction c using induction with
  | node h children ih =>
    rw [any_node_iff, nodes, nodesOf_eq, List.exists_mem_cons_iff]
    refine or_congr Iff.rfl ?_
    simp only [List.mem_flatMap]
    constructor
    · rintro ⟨c, hc, hany⟩
      obtain ⟨n, hn, htest⟩ := (ih c hc).1 hany
      exact ⟨n, ⟨c, hc, hn⟩, htest⟩
    · rintro ⟨n, ⟨c, hc, hn⟩, htest⟩
      exact ⟨c, hc, (ih c hc).2 ⟨n, hn, htest⟩⟩

/-- The flag of each node tells whether the node is a fault or has one in it. -/
def FlagsFaults (c : Concrete) : Prop := ∀ n ∈ c.nodes, n.head.hasError = n.any isFault

def FaultsFit (source : String) (c : Concrete) : Prop :=
  ∀ n ∈ c.nodes, n.isFault = true → (Text.slice? source n.head.start n.head.stop).isSome = true

/-- How many faults of the tree cover the text `s`. -/
def faultsCovering (source s : String) (c : Concrete) : Nat :=
  c.nodes.countP fun n => n.isFault && Text.slice? source n.head.start n.head.stop = some s

/-! ## The faults of a tree -/

theorem faultyOf_eq (cs : List Concrete) : faultyOf cs = cs.flatMap faulty := by
  induction cs with
  | nil => rfl
  | cons c cs ih => rw [faultyOf, ih, List.flatMap_cons]

theorem nodes_node (h : ConcreteHead) (children : List Concrete) :
    (Concrete.node h children).nodes = .node h children :: children.flatMap nodes := by
  rw [nodes, nodesOf_eq]

/-- No fault is missed where the search does not go on. -/
theorem faulty_eq {c : Concrete} (h : c.FlagsFaults) :
    c.faulty = (c.nodes.filter isFault).map head := by
  induction c using induction with
  | node g children ih =>
    have hself : g.hasError = (Concrete.node g children).any isFault :=
      h (.node g children) (by simp [nodes_node])
    have hchildren : children.flatMap faulty =
        ((children.flatMap nodes).filter isFault).map head := by
      rw [List.filter_flatMap, List.map_flatMap]
      refine List.flatMap_congr fun c hc => ih c hc fun n hn => h n ?_
      rw [nodes_node, List.mem_cons, List.mem_flatMap]
      exact Or.inr ⟨c, hc, hn⟩
    rw [faulty, faultyOf_eq, hchildren]
    cases hflag : g.hasError with
    | true =>
      rw [nodes_node, List.filter_cons, show isFault (.node g children) = (g.error || g.missing)
        from rfl]
      split <;> rfl
    | false =>
      have hnone : ∀ n ∈ (Concrete.node g children).nodes, ¬ n.isFault = true := by
        intro n hn hfault
        rw [hself, Bool.eq_false_iff] at hflag
        exact hflag (any_iff.2 ⟨n, hn, hfault⟩)
      have hclean : (g.error || g.missing) = false :=
        Bool.eq_false_iff.2 (hnone (.node g children) (by simp [nodes_node]))
      rw [List.filter_eq_nil_iff.2 hnone, hclean]
      rfl

theorem count_covered {c : Concrete} {source : String} (hflags : c.FlagsFaults)
    (hfit : c.FaultsFit source) (s : String) :
    (c.faults.map (Validation.covered source)).count s = c.faultsCovering source s := by
  rw [faults, ((List.mergeSort_perm c.faulty _).map _).count_eq, faulty_eq hflags, List.map_map,
    List.count_eq_countP, List.countP_map, List.countP_filter, faultsCovering]
  refine List.countP_congr fun n hn => ?_
  have hcovers := hfit n hn
  simp only [Function.comp_apply, Bool.and_eq_true, beq_iff_eq, decide_eq_true_eq,
    Validation.covered, and_comm (a := n.isFault = true)]
  refine and_congr_left fun hfault => ?_
  obtain ⟨text, htext⟩ := Option.isSome_iff_exists.1 (hcovers hfault)
  simp [htext]

theorem pairwise_faults (c : Concrete) :
    c.faults.Pairwise fun a b => a.start ≤ b.start := by
  have hsorted := @List.pairwise_mergeSort _ (fun a b : ConcreteHead => decide (a.start ≤ b.start))
    (by simp; omega) (by simp; omega) c.faulty
  exact hsorted.imp fun h => of_decide_eq_true h

end Concrete

namespace Validation

/-! ## Accounting -/

theorem unaccounted_sublist (source : String) (known : List String) (hs : List ConcreteHead) :
    (unaccounted source known hs).Sublist hs := by
  induction hs generalizing known with
  | nil => exact List.Sublist.refl _
  | cons h hs ih =>
    rw [unaccounted]
    split
    · exact (ih _).cons h
    · exact (ih _).cons_cons h

theorem count_unaccounted (source : String) (known : List String) (hs : List ConcreteHead)
    (s : String) :
    ((unaccounted source known hs).map (covered source)).count s =
      (hs.map (covered source)).count s - known.count s := by
  induction hs generalizing known with
  | nil => simp [unaccounted]
  | cons h hs ih =>
    rw [unaccounted]
    split
    · rename_i hknown
      have hpos := List.count_pos_iff.2 hknown
      rw [ih, List.map_cons, List.count_cons, List.count_erase]
      by_cases heq : covered source h = s
      · subst heq
        simp
        omega
      · simp [heq]
    · rename_i hknown
      have hzero := List.count_eq_zero.2 hknown
      rw [List.map_cons, List.map_cons, List.count_cons, List.count_cons, ih]
      by_cases heq : covered source h = s
      · subst heq
        simp
        omega
      · simp [heq]

/-! ## A change of a text -/

/-- The faults of the changed text that the old one does not account for. -/
def introduced (parse : String → Concrete) (before edited : String) : List ConcreteHead :=
  unaccounted edited ((parse before).faults.map (covered before)) (parse edited).faults

section

variable {parse : String → Concrete} {before edited : String}

theorem validateEdit_of_nil (h : introduced parse before edited = []) :
    validateEdit (fun s => some (parse s)) before edited = .ok () := by
  unfold introduced at h
  simp only [validateEdit, h]

theorem validateEdit_of_ne_nil (h : introduced parse before edited ≠ []) :
    validateEdit (fun s => some (parse s)) before edited =
      .error (.introduced ((introduced parse before edited).map (fault edited))) := by
  unfold introduced at h ⊢
  simp only [validateEdit]

theorem exists_of_mem_introduced (hflags : (parse edited).FlagsFaults) {h : ConcreteHead}
    (hmem : h ∈ introduced parse before edited) :
    ∃ n ∈ (parse edited).nodes, n.isFault = true ∧ n.head = h := by
  have hfaulty := List.mem_mergeSort.1 ((unaccounted_sublist _ _ _).subset hmem)
  rw [Concrete.faulty_eq hflags] at hfaulty
  obtain ⟨n, hn, rfl⟩ := List.mem_map.1 hfaulty
  obtain ⟨hn, hfault⟩ := List.mem_filter.1 hn
  exact ⟨n, hn, hfault, rfl⟩

end

section

variable {parse : String → Concrete} (hflags : ∀ s, (parse s).FlagsFaults)
  (hfit : ∀ s, (parse s).FaultsFit s)
include hflags hfit

theorem count_introduced (before edited s : String) :
    ((introduced parse before edited).map (covered edited)).count s =
      (parse edited).faultsCovering edited s - (parse before).faultsCovering before s := by
  rw [introduced, count_unaccounted, Concrete.count_covered (hflags _) (hfit _),
    Concrete.count_covered (hflags _) (hfit _)]

theorem introduced_eq_nil_iff (before edited : String) :
    introduced parse before edited = [] ↔ ∀ s,
      (parse edited).faultsCovering edited s ≤ (parse before).faultsCovering before s := by
  have hcount := count_introduced hflags hfit before edited
  constructor
  · intro hnil s
    have hzero := hcount s
    rw [hnil, List.map_nil, List.count_nil] at hzero
    omega
  · intro hle
    rw [← List.map_eq_nil_iff (f := covered edited), List.eq_nil_iff_forall_not_mem]
    intro s hs
    have hpos := List.count_pos_iff.2 hs
    have := hle s
    rw [hcount s] at hpos
    omega

theorem validateEdit_eq_ok_iff (before edited : String) :
    validateEdit (fun s => some (parse s)) before edited = .ok () ↔ ∀ s,
      (parse edited).faultsCovering edited s ≤ (parse before).faultsCovering before s := by
  rw [← introduced_eq_nil_iff hflags hfit]
  constructor
  · intro hok
    by_contra hne
    rw [validateEdit_of_ne_nil hne] at hok
    cases hok
  · exact validateEdit_of_nil

theorem length_introduced (before edited : String) :
    (introduced parse before edited).length = ∑ᶠ s,
      ((parse edited).faultsCovering edited s - (parse before).faultsCovering before s) := by
  simp only [← count_introduced hflags hfit]
  generalize introduced parse before edited = hs
  have hsupport : Function.support (fun s => (hs.map (covered edited)).count s) ⊆
      (hs.map (covered edited)).toFinset := by
    intro s hs
    rw [Function.mem_support] at hs
    rw [Finset.mem_coe, List.mem_toFinset, ← List.count_pos_iff]
    omega
  rw [finsum_eq_sum_of_support_subset _ hsupport, List.sum_toFinset_count_eq_length,
    List.length_map]

theorem countP_reported (before edited s : String) :
    ((introduced parse before edited).map (fault edited)).countP
        (fun f => Text.slice? edited f.span.start f.span.stop = some s) =
      (parse edited).faultsCovering edited s - (parse before).faultsCovering before s := by
  rw [← count_introduced hflags hfit, List.count_eq_countP, List.countP_map, List.countP_map]
  refine List.countP_congr fun h hmem => ?_
  obtain ⟨n, hn, hfault, rfl⟩ := exists_of_mem_introduced (hflags edited) hmem
  obtain ⟨text, htext⟩ := Option.isSome_iff_exists.1 (hfit edited n hn hfault)
  simp [fault, covered, htext]

end
end Validation

/-- A change is accepted exactly if no text is covered by more faults afterwards than before. -/
theorem validateEdit_weighs {parse : String → Concrete} (hflags : ∀ s, (parse s).FlagsFaults)
    (hfit : ∀ s, (parse s).FaultsFit s) (a b : String) :
    (validateEdit (fun s => some (parse s)) a b = .ok () ↔
      ∀ s, (parse b).faultsCovering b s ≤ (parse a).faultsCovering a s) ∧
    (validateEdit (fun s => some (parse s)) a b ≠ .ok () →
      ∃ faults, validateEdit (fun s => some (parse s)) a b = .error (.introduced faults) ∧
        faults.length =
          ∑ᶠ s, ((parse b).faultsCovering b s - (parse a).faultsCovering a s) ∧
        (∀ s, faults.countP (fun f => Text.slice? b f.span.start f.span.stop = some s) =
          (parse b).faultsCovering b s - (parse a).faultsCovering a s) ∧
        (∀ f ∈ faults, ∃ n ∈ (parse b).nodes, n.isFault = true ∧
          f = Validation.fault b n.head) ∧
        faults.Pairwise fun f g => f.span.start ≤ g.span.start) ∧
    validateEdit (fun s => some (parse s)) a a = .ok () ∧
    (∀ c, validateEdit (fun s => some (parse s)) a b = .ok () →
      validateEdit (fun s => some (parse s)) b c = .ok () →
      validateEdit (fun s => some (parse s)) a c = .ok ()) := by
  have hiff := Validation.validateEdit_eq_ok_iff hflags hfit
  refine ⟨hiff a b, fun hno => ?_, (hiff a a).2 fun s => Nat.le_refl _, fun c hab hbc => ?_⟩
  · have hne : Validation.introduced parse a b ≠ [] := fun hnil =>
      hno (Validation.validateEdit_of_nil hnil)
    refine ⟨_, Validation.validateEdit_of_ne_nil hne, ?_,
      Validation.countP_reported hflags hfit a b, ?_, ?_⟩
    · rw [List.length_map, Validation.length_introduced hflags hfit]
    · intro f hf
      obtain ⟨h, hh, rfl⟩ := List.mem_map.1 hf
      obtain ⟨n, hn, hfault, rfl⟩ := Validation.exists_of_mem_introduced (hflags b) hh
      exact ⟨n, hn, hfault, rfl⟩
    · exact List.Pairwise.map _ (fun _ _ hle => hle)
        ((parse b).pairwise_faults.sublist (Validation.unaccounted_sublist _ _ _))
  · rw [hiff] at hab hbc ⊢
    exact fun s => (hbc s).trans (hab s)

namespace Sample

def torn (kind : String) (start stop : Nat) (children : List Concrete) : Concrete :=
  .node { kind, start, stop, extra := false, missing := false, error := kind = "ERROR",
          hasError := true } children

def absent (kind : String) (place : Nat) : Concrete :=
  .node { kind, start := place, stop := place, extra := false, missing := true, error := false,
          hasError := true } []

def parse (text : String) : Concrete :=
  if text = "f(;" then
    torn "compilation_unit" 0 3
      [leaf "identifier" 0 1, torn "ERROR" 1 2 [absent ")" 2], leaf ";" 2 3, absent "\x7d" 3]
  else if text = "f((;" then
    torn "compilation_unit" 0 4
      [leaf "identifier" 0 1, torn "ERROR" 1 2 [absent ")" 2], torn "ERROR" 2 3 [], leaf ";" 3 4]
  else leaf "compilation_unit" 0 0

theorem parse_flagsFaults (s : String) : (parse s).FlagsFaults := by
  unfold parse Concrete.FlagsFaults
  split
  · decide
  · split <;> decide

theorem parse_faultsFit (s : String) : (parse s).FaultsFit s := by
  unfold parse Concrete.FaultsFit
  split
  · rename_i h
    subst h
    decide
  · split
    · rename_i h
      subst h
      decide
    · intro n hn hfault
      obtain rfl : n = leaf "compilation_unit" 0 0 := List.mem_singleton.1 hn
      cases hfault

end Sample

theorem Sample.validateEdit_weighs_parens :
    (∀ s, (Sample.parse s).FlagsFaults) ∧ (∀ s, (Sample.parse s).FaultsFit s) ∧
      validateEdit (fun s => some (Sample.parse s)) "f(;" "f(;" = .ok () ∧
      ∃ faults, validateEdit (fun s => some (Sample.parse s)) "f(;" "f((;" =
          .error (.introduced faults) ∧
        faults.countP (fun f => Text.slice? "f((;" f.span.start f.span.stop = some "(") = 1 ∧
        faults.countP (fun f => Text.slice? "f((;" f.span.start f.span.stop = some "") = 0 := by
  obtain ⟨hiff, hreport, hsame, -⟩ :=
    validateEdit_weighs Sample.parse_flagsFaults Sample.parse_faultsFit "f(;" "f((;"
  have hno : validateEdit (fun s => some (Sample.parse s)) "f(;" "f((;" ≠ .ok () := by
    rw [ne_eq, hiff, not_forall]
    exact ⟨"(", by decide +kernel⟩
  obtain ⟨faults, herror, -, hcount, -⟩ := hreport hno
  refine ⟨Sample.parse_flagsFaults, Sample.parse_faultsFit, hsame, faults, herror, ?_, ?_⟩
  · rw [hcount]
    decide +kernel
  · rw [hcount]
    decide +kernel

end CancellationLint
