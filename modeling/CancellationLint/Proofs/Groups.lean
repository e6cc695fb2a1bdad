import CancellationLint.Proofs.Weave
import Mathlib.Data.List.Nodup
import Mathlib.Data.List.SplitBy

/-! # The edits of each file

A batch is sorted by file, and in a file from the last start to the first; edits of a file with the
same start stay in the order of the list. So each file gets one group, which holds all of its edits
and does not depend on the edits of other files. -/

namespace CancellationLint

/-! ## Sorting that keeps ties in order -/

section Ties

variable {α : Type} {le : α → α → Bool} (trans : ∀ a b c, le a b → le b c → le a c)
  (total : ∀ a b, le a b || le b a)

/-- Whether neither comes before the other. -/
def tied (le : α → α → Bool) (a b : α) : Bool := le a b && le b a

include total

theorem tied_self (a : α) : tied le a a = true := by
  simpa [tied] using total a a

/-- A sorted list is known from the lists of its ties. -/
theorem eq_of_ties {l m : List α} (hl : l.Pairwise fun a b => le a b)
    (hm : m.Pairwise fun a b => le a b)
    (h : ∀ e, l.filter (tied le e) = m.filter (tied le e)) : l = m := by
  induction l generalizing m with
  | nil =>
    cases m with
    | nil => rfl
    | cons b m => simpa [tied_self total] using h b
  | cons a l ih =>
    have hmem : ∀ {e : α} {k k' : List α}, k.filter (tied le e) = k'.filter (tied le e) → e ∈ k →
        e ∈ k' := fun {e k k'} heq he =>
      List.mem_of_mem_filter (heq ▸ List.mem_filter.2 ⟨he, tied_self total e⟩)
    have ha : a ∈ m := hmem (h a) (by simp)
    cases m with
    | nil => cases ha
    | cons b m =>
      have hb : b ∈ a :: l := hmem (h b).symm (by simp)
      have hself := fun e => (Bool.or_self _).symm.trans (total e e)
      have hab : le a b = true := by
        rcases List.mem_cons.1 hb with rfl | hb
        · exact hself b
        · exact (List.pairwise_cons.1 hl).1 b hb
      have hba : le b a = true := by
        rcases List.mem_cons.1 ha with rfl | ha
        · exact hself a
        · exact (List.pairwise_cons.1 hm).1 a ha
      obtain rfl : a = b := by
        have := h a
        rw [List.filter_cons_of_pos (tied_self total a),
          List.filter_cons_of_pos (by simp [tied, hab, hba])] at this
        exact (List.cons.inj this).1
      congr 1
      refine ih (List.pairwise_cons.1 hl).2 (List.pairwise_cons.1 hm).2 fun e => ?_
      have := h e
      rw [List.filter_cons, List.filter_cons] at this
      split at this
      · exact (List.cons.inj this).2
      · exact this

include trans

theorem filter_tied_mergeSort (e : α) (l : List α) :
    (l.mergeSort le).filter (tied le e) = l.filter (tied le e) := by
  have hties : (l.filter (tied le e)).Pairwise fun a b => le a b := by
    refine List.pairwise_of_forall_mem_list fun a ha b hb => ?_
    have ha := (List.mem_filter.1 ha).2
    have hb := (List.mem_filter.1 hb).2
    simp only [tied, Bool.and_eq_true] at ha hb
    exact trans a e b ha.2 hb.1
  have hsub := (List.sublist_mergeSort trans total hties List.filter_sublist).filter (tied le e)
  simp only [List.filter_filter, Bool.and_self] at hsub
  exact (hsub.eq_of_length ((List.mergeSort_perm l le).filter _).length_eq.symm).symm

theorem filter_mergeSort (p : α → Bool) (l : List α) :
    (l.mergeSort le).filter p = (l.filter p).mergeSort le := by
  refine eq_of_ties total ((List.pairwise_mergeSort trans total l).filter _)
    (List.pairwise_mergeSort trans total _) fun e => ?_
  rw [filter_tied_mergeSort trans total, List.filter_filter, List.filter_filter]
  simp only [Bool.and_comm (tied le e _)]
  rw [← List.filter_filter, ← List.filter_filter, filter_tied_mergeSort trans total]

end Ties

/-! ## The order of path names -/

namespace PathName

theorem Part.compare_eq (a b : Part) :
    a.compare b = compareLex (compareOn Part.rank)
      (compareOn fun part => match part with | .name text => text | _ => "") a b := by
  cases a <;> cases b <;> rfl

instance : Std.TransCmp Part.compare := by
  rw [show Part.compare = _ from funext fun a => funext fun b => Part.compare_eq a b]
  infer_instance

instance : Std.LawfulEqCmp Part.compare where
  compare_self {a} := by simp [Part.compare_eq, compareLex, compareOn]
  eq_of_compare {a b} h := by
    rw [Part.compare_eq, compareLex, Ordering.then_eq_eq] at h
    simp only [compareOn, Std.compare_eq_iff_eq] at h
    cases a <;> cases b <;> simp_all [Part.rank]

theorem compareParts_eq (as bs : List Part) :
    compareParts as bs = List.compareLex Part.compare as bs := by
  fun_induction compareParts as bs with
  | case1 => rfl
  | case2 => rfl
  | case3 => rfl
  | case4 a as b bs ih => rw [ih, List.compareLex_cons_cons]

theorem compare_eq (a b : PathName) : a.compare b = List.compareLex Part.compare a.parts b.parts :=
  compareParts_eq a.parts b.parts

instance : Std.TransCmp PathName.compare where
  eq_swap := by
    intro a b
    rw [compare_eq, compare_eq b]
    exact Std.OrientedCmp.eq_swap
  isLE_trans := by
    intro a b c
    rw [compare_eq, compare_eq, compare_eq]
    exact Std.TransCmp.isLE_trans

theorem same_of_same {a b c : PathName} (ha : a.same c = true) (hb : b.same c = true) :
    a.same b = true :=
  decide_eq_true ((of_decide_eq_true ha).trans (of_decide_eq_true hb).symm)

theorem compare_eq_eq_iff {a b : PathName} : a.compare b = .eq ↔ a.same b = true := by
  rw [compare_eq, Std.LawfulEqCmp.compare_eq_iff_eq, same, decide_eq_true_iff]

end PathName

namespace Edit

/-! ## Groups -/

theorem before_iff {a b : Edit} : before a b = true ↔
    a.file.compare b.file = .lt ∨
      a.file.compare b.file = .eq ∧ b.span.start ≤ a.span.start := by
  unfold before
  split <;> simp_all

theorem before_trans (a b c : Edit) (hab : before a b = true) (hbc : before b c = true) :
    before a c = true := by
  rw [before_iff] at *
  rcases hab with hab | ⟨hab, hstart⟩
  · rcases hbc with hbc | ⟨hbc, -⟩
    · exact .inl (Std.TransCmp.lt_trans hab hbc)
    · exact .inl (Std.TransCmp.lt_of_lt_of_eq hab hbc)
  · rw [Std.TransCmp.congr_left hab]
    exact hbc.imp_right fun ⟨heq, hle⟩ => ⟨heq, hle.trans hstart⟩

theorem before_total (a b : Edit) : (before a b || before b a) = true := by
  rw [Bool.or_eq_true, before_iff, before_iff]
  cases h : a.file.compare b.file with
  | lt => simp
  | gt => simp [Std.OrientedCmp.gt_iff_lt.1 h]
  | eq =>
    simp only [Std.OrientedCmp.eq_symm h, reduceCtorEq, true_and, false_or]
    omega

def latestFirst (a b : Edit) : Bool := b.span.start ≤ a.span.start

theorem latestFirst_trans (a b c : Edit) (hab : latestFirst a b = true)
    (hbc : latestFirst b c = true) : latestFirst a c = true := by
  simp only [latestFirst, decide_eq_true_eq] at *
  omega

theorem latestFirst_total (a b : Edit) : (latestFirst a b || latestFirst b a) = true := by
  simp only [latestFirst, Bool.or_eq_true, decide_eq_true_eq]
  omega

/-- The edits of a file from the last start to the first. -/
def ofFile (file : PathName) (edits : List Edit) : List Edit :=
  (edits.filter fun edit => edit.file.same file).mergeSort latestFirst

theorem mem_ofFile_iff {file : PathName} {edits : List Edit} {edit : Edit} :
    edit ∈ ofFile file edits ↔ edit ∈ edits ∧ edit.file.same file = true := by
  rw [ofFile, (List.mergeSort_perm _ _).mem_iff, List.mem_filter]

def groups (edits : List Edit) : List (List Edit) :=
  (edits.mergeSort before).splitBy fun a b => a.file.same b.file

theorem flatten_groups (edits : List Edit) : (groups edits).flatten = edits.mergeSort before :=
  List.flatten_splitBy _ _

theorem groups_of_sorted {edits : List Edit} (h : edits.Pairwise fun a b => before a b = true) :
    groups edits = edits.splitBy fun a b => a.file.same b.file := by
  rw [groups, List.mergeSort_of_pairwise h]

theorem ofFile_of_sorted {file : PathName} {edits : List Edit}
    (h : edits.Pairwise fun a b => latestFirst a b = true) :
    ofFile file edits = edits.filter fun edit => edit.file.same file := by
  rw [ofFile, List.mergeSort_of_pairwise (h.filter _)]

theorem applyBatch_eq_applyGroups [Digest] (store : FileStore) (edits : List Edit) :
    applyBatch store edits = applyGroups store (groups edits) :=
  rfl

theorem same_of_mem_groups {edits group : List Edit} (h : group ∈ groups edits) {a b : Edit}
    (ha : a ∈ group) (hb : b ∈ group) : a.file.same b.file = true := by
  have hpair : (group.map fun edit => edit.file.parts).Pairwise Eq := by
    rw [← List.isChain_iff_pairwise, List.isChain_map]
    exact (List.isChain_of_mem_splitBy h).imp fun a b hab => of_decide_eq_true hab
  exact decide_eq_true (List.Pairwise.forall_of_forall (fun _ _ => rfl) hpair
    (List.mem_map_of_mem ha) (List.mem_map_of_mem hb))

theorem apart_of_sorted {groups : List (List Edit)}
    (hsorted : groups.flatten.Pairwise fun a b => before a b = true)
    (hsame : ∀ group ∈ groups, ∀ a ∈ group, ∀ b ∈ group, a.file.same b.file = true)
    (hchain : groups.IsChain fun g g' =>
      ∃ h h', (g.getLast h).file.same (g'.head h').file = false) :
    groups.Pairwise fun g g' => ∀ a ∈ g, ∀ b ∈ g', a.file.same b.file = false := by
  induction groups with
  | nil => exact List.Pairwise.nil
  | cons g groups ih =>
    rw [List.flatten_cons, List.pairwise_append] at hsorted
    obtain ⟨hnext, hchain⟩ := List.isChain_cons.1 hchain
    refine List.pairwise_cons.2 ⟨fun g' hg' a ha b hb => ?_,
      ih hsorted.2.1 (fun g' hg' => hsame g' (List.mem_cons_of_mem _ hg')) hchain⟩
    cases groups with
    | nil => cases hg'
    | cons next others =>
      obtain ⟨hg, hn, hdiffer⟩ := hnext next rfl
      have hlast : a.file.compare (g.getLast hg).file = .eq :=
        PathName.compare_eq_eq_iff.2 (hsame g (by simp) a ha _ (List.getLast_mem hg))
      -- The next group starts with another file, and all files from there on are later.
      have hhead : (g.getLast hg).file.compare (next.head hn).file = .lt := by
        rcases before_iff.1 (hsorted.2.2 _ (List.getLast_mem hg) _
          (List.mem_flatten.2 ⟨next, by simp, List.head_mem hn⟩)) with hlt | ⟨heq, -⟩
        · exact hlt
        · rw [PathName.compare_eq_eq_iff, hdiffer] at heq
          cases heq
      have hrest : ((next.head hn).file.compare b.file).isLE = true := by
        rcases List.mem_cons.1 hg' with rfl | hg'
        · rw [PathName.compare_eq_eq_iff.2
            (hsame g' (by simp) _ (List.head_mem hn) b hb)]
          rfl
        · have hflat := hsorted.2.1
          rw [List.flatten_cons, List.pairwise_append] at hflat
          rcases before_iff.1 (hflat.2.2 _ (List.head_mem hn) b
            (List.mem_flatten.2 ⟨g', hg', hb⟩)) with hlt | ⟨heq, -⟩
          · rw [hlt]; rfl
          · rw [heq]; rfl
      have hlt : a.file.compare b.file = .lt :=
        Std.TransCmp.lt_of_lt_of_isLE (Std.TransCmp.lt_of_eq_of_lt hlast hhead) hrest
      rw [Bool.eq_false_iff, Ne, ← PathName.compare_eq_eq_iff, hlt]
      exact nofun

theorem groups_apart (edits : List Edit) :
    (groups edits).Pairwise fun g g' => ∀ a ∈ g, ∀ b ∈ g', a.file.same b.file = false := by
  apply apart_of_sorted
  · rw [flatten_groups]
    exact List.pairwise_mergeSort before_trans before_total edits
  · exact fun group hgroup a ha b hb => same_of_mem_groups hgroup ha hb
  · exact List.isChain_getLast_head_splitBy (fun a b : Edit => a.file.same b.file) _

theorem filter_flatten_of_apart {groups : List (List Edit)}
    (hsame : ∀ group ∈ groups, ∀ a ∈ group, ∀ b ∈ group, a.file.same b.file = true)
    (hapart : groups.Pairwise fun g g' => ∀ a ∈ g, ∀ b ∈ g', a.file.same b.file = false)
    {group : List Edit} (hgroup : group ∈ groups) {edit : Edit} (hedit : edit ∈ group) :
    groups.flatten.filter (fun e => e.file.same edit.file) = group := by
  induction groups with
  | nil => cases hgroup
  | cons g groups ih =>
    obtain ⟨hfirst, hapart⟩ := List.pairwise_cons.1 hapart
    rw [List.flatten_cons, List.filter_append]
    rcases List.mem_cons.1 hgroup with rfl | hmem
    · have hrest : groups.flatten.filter (fun e => e.file.same edit.file) = [] := by
        refine List.filter_eq_nil_iff.2 fun e he => ?_
        obtain ⟨g', hg', he⟩ := List.mem_flatten.1 he
        have hdiffer := hfirst g' hg' edit hedit e he
        simp only [PathName.same, decide_eq_false_iff_not, decide_eq_true_eq] at hdiffer ⊢
        exact fun heq => hdiffer heq.symm
      rw [hrest, List.append_nil]
      exact List.filter_eq_self.2 fun e he => hsame group (by simp) e he edit hedit
    · have hnone : g.filter (fun e => e.file.same edit.file) = [] := by
        refine List.filter_eq_nil_iff.2 fun e he => ?_
        rw [hfirst group hmem e he edit hedit]
        exact nofun
      rw [hnone, List.nil_append]
      exact ih (fun g' hg' => hsame g' (List.mem_cons_of_mem _ hg')) hapart hmem

/-- Each group holds all edits of its file. -/
theorem eq_ofFile_of_mem_groups {edits group : List Edit} (h : group ∈ groups edits) {edit : Edit}
    (hedit : edit ∈ group) : group = ofFile edit.file edits := by
  have hstarts : ∀ a ∈ edits.filter (fun e => e.file.same edit.file),
      ∀ b ∈ edits.filter (fun e => e.file.same edit.file), before a b = latestFirst a b := by
    intro a ha b hb
    have hsame : a.file.compare b.file = .eq := by
      rw [PathName.compare_eq_eq_iff]
      exact PathName.same_of_same (List.mem_filter.1 ha).2 (List.mem_filter.1 hb).2
    rw [before, hsame, latestFirst]
  have hsort := List.map_mergeSort (f := id) hstarts
  rw [List.map_id, List.map_id] at hsort
  rw [ofFile, ← hsort, ← filter_mergeSort before_trans before_total, ← flatten_groups]
  exact (filter_flatten_of_apart (fun group hgroup a ha b hb => same_of_mem_groups hgroup ha hb)
    (groups_apart edits) h hedit).symm

theorem mem_of_mem_groups {edits group : List Edit} (h : group ∈ groups edits) {edit : Edit}
    (hedit : edit ∈ group) : edit ∈ edits := by
  rw [← (List.mergeSort_perm edits before).mem_iff, ← flatten_groups]
  exact List.mem_flatten.2 ⟨group, h, hedit⟩

theorem exists_group {edits : List Edit} {edit : Edit} (h : edit ∈ edits) :
    ∃ group ∈ groups edits, edit ∈ group := by
  rw [← (List.mergeSort_perm edits before).mem_iff, ← flatten_groups] at h
  exact List.mem_flatten.1 h

/-! ## Batches for one file -/

@[simp] theorem ofFile_nil (file : PathName) : ofFile file [] = [] := by simp [ofFile]

theorem ofFile_congr {a b : PathName} (h : a.same b = true) (edits : List Edit) :
    ofFile a edits = ofFile b edits := by
  simp only [ofFile, PathName.same, of_decide_eq_true h]

theorem groups_of_file {edits : List Edit} {file : PathName}
    (hfile : ∀ edit ∈ edits, edit.file.same file = true) (hne : edits ≠ []) :
    groups edits = [ofFile file edits] := by
  have hmem := fun edit => (List.mergeSort_perm edits before).mem_iff (a := edit)
  have hsorted : edits.mergeSort before ≠ [] := by
    obtain ⟨edit, hedit⟩ := List.exists_mem_of_ne_nil edits hne
    exact List.ne_nil_of_mem ((hmem edit).2 hedit)
  have hchain : (edits.mergeSort before).IsChain fun a b => a.file.same b.file = true := by
    refine List.Pairwise.isChain (List.pairwise_of_forall_mem_list fun a ha b hb => ?_)
    exact PathName.same_of_same (hfile a ((hmem a).1 ha)) (hfile b ((hmem b).1 hb))
  have hone : groups edits = [edits.mergeSort before] := List.splitBy_of_isChain hsorted hchain
  obtain ⟨edit, hedit⟩ := List.exists_mem_of_ne_nil _ hsorted
  have hgroup : edits.mergeSort before ∈ groups edits := by simp [hone]
  rw [hone, eq_ofFile_of_mem_groups hgroup hedit, ofFile_congr (hfile edit ((hmem edit).1 hedit))]

theorem eq_of_descending {edits sorted : List Edit} (hperm : edits.Perm sorted)
    (hsorted : sorted.Pairwise fun a b => b.span.start < a.span.start)
    (h : edits.Pairwise fun a b => b.span.start ≤ a.span.start) : edits = sorted := by
  refine hperm.eq_of_pairwise (fun a b ha hb hab hba => ?_) h (hsorted.imp fun hlt => hlt.le)
  have hnodup : (sorted.map fun e => e.span.start).Nodup :=
    List.Pairwise.map _ (fun a b hlt => Nat.ne_of_gt hlt) hsorted
  exact List.inj_on_of_nodup_map hnodup (hperm.mem_iff.1 ha) hb (le_antisymm hba hab)

variable [Digest]

@[simp] theorem applyBatch_nil (store : FileStore) : applyBatch store [] = (.ok [], store) := by
  simp [applyBatch, applyGroups]

theorem applyBatch_of_file (store : FileStore) {edits : List Edit} {file : PathName}
    (hfile : ∀ edit ∈ edits, edit.file.same file = true) (hne : edits ≠ []) :
    ∃ first ∈ edits, applyBatch store edits =
      match applyFile store first.file (ofFile file edits) with
      | .error e => (.error e, store)
      | .ok (outcomes, store) => (.ok outcomes, store) := by
  have hgroups : applyBatch store edits = applyGroups store [ofFile file edits] := by
    rw [applyBatch_eq_applyGroups, groups_of_file hfile hne]
  cases hgroup : ofFile file edits with
  | nil =>
    obtain ⟨edit, hedit⟩ := List.exists_mem_of_ne_nil edits hne
    have := mem_ofFile_iff.2 ⟨hedit, hfile edit hedit⟩
    rw [hgroup] at this
    cases this
  | cons first others =>
    have hfirst : first ∈ ofFile file edits := by simp [hgroup]
    refine ⟨first, (mem_ofFile_iff.1 hfirst).1, ?_⟩
    rw [hgroups, hgroup, applyGroups]
    cases applyFile store first.file (first :: others) with
    | error e => rfl
    | ok result => simp [applyGroups, Except.map]

theorem applyBatch_eq {store : FileStore} {edits sorted : List Edit} {file : PathName}
    (hperm : edits.Perm sorted) (hfile : ∀ edit ∈ sorted, edit.file = file)
    (hsorted : sorted.Pairwise fun a b => b.span.start < a.span.start) (hne : sorted ≠ []) :
    applyBatch store edits = match applyFile store file sorted with
      | .error e => (.error e, store)
      | .ok (outcomes, store) => (.ok outcomes, store) := by
  have hfile' : ∀ edit ∈ edits, edit.file = file := fun e he => hfile e (hperm.mem_iff.1 he)
  have hsame : ∀ edit ∈ edits, edit.file.same file = true := fun e he => by
    simp [hfile' e he, PathName.same]
  obtain ⟨first, hfirst, hbatch⟩ := applyBatch_of_file store hsame
    fun hnil => hne (hnil ▸ hperm).symm.eq_nil
  have horder : ofFile file edits = sorted := by
    rw [ofFile, List.filter_eq_self.2 hsame]
    refine eq_of_descending ((List.mergeSort_perm _ _).trans hperm) hsorted ?_
    exact (List.pairwise_mergeSort latestFirst_trans latestFirst_total edits).imp
      fun h => of_decide_eq_true h
  rw [hbatch, hfile' first hfirst, horder]

end Edit
end CancellationLint
