import CancellationLint.Proofs.PlainStore
import CancellationLint.Proofs.AllOrNone

/-! # Writing under a guard

Plans are written at the places that their paths lead to, after the guard has judged all of them. In a
store without links a place has one absolute name, so no plan reaches into the file of another. -/

namespace CancellationLint
namespace Edit

/-! ## Groups that can be applied -/

theorem eq_singleton_of_mem_groups {edits group : List Edit}
    (h : edits.Pairwise fun a b => a.file.same b.file = false) (hgroup : group ∈ groups edits)
    {edit : Edit} (hedit : edit ∈ group) : group = [edit] := by
  have hsymm : ∀ {a b : Edit}, a.file.same b.file = false → b.file.same a.file = false := by
    intro a b hab
    simpa [PathName.same, eq_comm] using hab
  have hsub : group.Sublist (edits.mergeSort before) := by
    rw [← flatten_groups]
    exact List.sublist_flatten_of_mem hgroup
  have hdiffer : group.Pairwise fun a b => a.file.same b.file = false :=
    (((List.mergeSort_perm edits before).pairwise_iff hsymm).2 h).sublist hsub
  cases group with
  | nil => cases hedit
  | cons first others =>
    cases others with
    | nil => rw [List.mem_singleton.1 hedit]
    | cons second others =>
      have hsame := same_of_mem_groups hgroup (a := first) (b := second) (by simp) (by simp)
      rw [(List.pairwise_cons.1 hdiffer).1 second (by simp)] at hsame
      cases hsame

variable [Digest]

/-- The files of the group can be read, and its edits overlap or replace pieces of them. -/
def Ready (store : FileStore) (group : List Edit) : Prop :=
  ∀ edit ∈ group, ∃ old : String, store.read edit.file = .ok old.toUTF8 ∧
    (overlap? group = none → ∃ new, Replaces group old new)

theorem Ready.swaps {store store' : FileStore} {file : PathName} {old new : ByteArray}
    {group : List Edit} (h : Ready store group) (hswaps : store.Swaps file old new store')
    (hapart : ∀ edit ∈ group, ¬ store.SameFile edit.file file) : Ready store' group := by
  intro edit hedit
  obtain ⟨content, hread, hreplaces⟩ := h edit hedit
  rcases hswaps.read _ _ hread with hkept | ⟨hmeet, -⟩
  · exact ⟨content, hkept, hreplaces⟩
  · exact absurd hmeet (hapart edit hedit)

theorem Ready.applyFile {store : FileStore} {edit : Edit} {edits : List Edit}
    (h : Ready store (edit :: edits)) (hstore : store.rooted = true) :
    (∃ start, overlap? (edit :: edits) = some start ∧
        Edit.applyFile store edit.file (edit :: edits) = .error (.overlap edit.file start)) ∨
      overlap? (edit :: edits) = none ∧
        ∃ written, Edit.applyFile store edit.file (edit :: edits) = .ok written := by
  obtain ⟨old, hread, hreplaces⟩ := h edit (by simp)
  cases hover : overlap? (edit :: edits) with
  | some start =>
    refine .inl ⟨start, rfl, ?_⟩
    unfold Edit.applyFile
    rw [hread]
    simp only [fromUTF8?_toUTF8, hover]
  | none =>
    obtain ⟨new, hnew⟩ := hreplaces hover
    obtain ⟨outcomes, store', hfile, -⟩ := hnew.applyFile hstore hread
    exact .inr ⟨rfl, (outcomes, store'), hfile⟩

/-- All groups that are ready are applied, unless one has an overlap, which is then reported. -/
theorem applyGroups_of_ready {groups : List (List Edit)} {store : FileStore}
    (hstore : store.rooted = true) (hapart : Apart store groups)
    (hready : ∀ group ∈ groups, Ready store group) :
    ((∀ group ∈ groups, overlap? group = none) ∧
        ∃ outcomes, (applyGroups store groups).1 = .ok outcomes) ∨
      (∃ group ∈ groups, overlap? group ≠ none) ∧
        ∃ file start, (applyGroups store groups).1 = .error (.overlap file start) := by
  induction groups generalizing store with
  | nil => exact .inl ⟨by simp, [], rfl⟩
  | cons group groups ih =>
    obtain ⟨hfirst, hrest⟩ := List.pairwise_cons.1 hapart
    have hothers := fun g hg => hready g (List.mem_cons_of_mem _ hg)
    cases group with
    | nil =>
      rw [applyGroups]
      refine (ih hstore hrest hothers).imp ?_ ?_
      · rintro ⟨hnone, hok⟩
        exact ⟨List.forall_mem_cons.2 ⟨rfl, hnone⟩, hok⟩
      · rintro ⟨⟨g, hg, hover⟩, herror⟩
        exact ⟨⟨g, List.mem_cons_of_mem _ hg, hover⟩, herror⟩
    | cons edit edits =>
      rw [applyGroups]
      rcases (hready _ List.mem_cons_self).applyFile hstore with
        ⟨start, hover, hfile⟩ | ⟨hnone, written, hfile⟩
      · rw [hfile]
        exact .inr ⟨⟨_, List.mem_cons_self, by simp [hover]⟩, edit.file, start, rfl⟩
      · obtain ⟨old, new, -, -, hswaps⟩ := swaps_of_applyFile hstore hfile
        have hready' : ∀ g ∈ groups, Ready written.2 g := fun g hg =>
          (hothers g hg).swaps hswaps fun e he hmeet => hfirst g hg edit (by simp) e he hmeet.symm
        rw [hfile]
        refine (ih hswaps.rooted (Apart.swaps hrest hswaps) hready').imp ?_ ?_
        · rintro ⟨hall, outcomes, hok⟩
          exact ⟨List.forall_mem_cons.2 ⟨hnone, hall⟩, written.1 ++ outcomes, by simp [hok, Except.map]⟩
        · rintro ⟨⟨g, hg, hover⟩, file, start, herror⟩
          exact ⟨⟨g, List.mem_cons_of_mem _ hg, hover⟩, file, start, by simp [herror, Except.map]⟩

theorem replaces_replaceFile (file : PathName) (before after : String) :
    Replaces [replaceFile file before after] before after := by
  have happly : (replaceFile file before after).applyTo before = .ok after :=
    by
    simpa using applyTo_replaceFile_of_meets file "" (.inl (String.append_empty).symm)
  refine (foldlM_applyTo_eq_ok_iff rfl).1 ?_
  rw [List.foldlM_cons, happly]
  rfl

end Edit

namespace Workspace

/-! ## Places of plans -/

section Places

variable {guard : Guard} {store : FileStore} {plans : List FilePlan} {place : FilePlan → Place}
  (hstore : store.Plain) (hplace : ∀ plan ∈ plans, guard.check store plan.file = .ok (place plan))

include hstore hplace

theorem exists_at_of_check {plan : FilePlan} (hplan : plan ∈ plans) :
    ∃ entry, store.at? (place plan) = some entry :=
  FileStore.exists_at_of_canonical hstore.rooted (Guard.check_eq_ok_iff.1 (hplace plan hplan)).1

theorem same_placed_iff {a b : FilePlan} (ha : a ∈ plans) (hb : b ∈ plans) :
    (PathName.ofNames (place a)).same (.ofNames (place b)) = true ↔ place a = place b := by
  obtain ⟨_, hata⟩ := exists_at_of_check hstore hplace ha
  obtain ⟨_, hatb⟩ := exists_at_of_check hstore hplace hb
  rw [PathName.same, decide_eq_true_iff, PathName.parts_ofNames (hstore.isName_of_at? hata),
    PathName.parts_ofNames (hstore.isName_of_at? hatb), List.cons.injEq, and_iff_right rfl]
  exact PathName.map_name_inj

end Places

variable [Digest]

def placed (place : FilePlan → Place) (plans : List FilePlan) : List Edit :=
  plans.map fun plan => .replaceFile (.ofNames (place plan)) plan.before plan.after

theorem guardedEdits_of_check {guard : Guard} {store : FileStore} {plans : List FilePlan}
    {place : FilePlan → Place}
    (hplace : ∀ plan ∈ plans, guard.check store plan.file = .ok (place plan)) :
    guardedEdits guard store plans = .ok (placed place plans) := by
  induction plans with
  | nil => rfl
  | cons plan rest ih =>
    rw [guardedEdits, hplace plan (by simp), ih fun p hp => hplace p (List.mem_cons_of_mem _ hp)]
    rfl

theorem guardedEdits_of_error {guard : Guard} {store : FileStore} {plans : List FilePlan}
    {plan : FilePlan} (hplan : plan ∈ plans) {e : GuardError}
    (he : guard.check store plan.file = .error e) :
    ∃ first ∈ plans, ∃ e, guard.check store first.file = .error e ∧
      guardedEdits guard store plans = .error e := by
  induction plans with
  | nil => cases hplan
  | cons first rest ih =>
    rw [guardedEdits]
    cases hfirst : guard.check store first.file with
    | error e => exact ⟨first, by simp, e, hfirst, rfl⟩
    | ok place =>
      have hrest : plan ∈ rest := by
        refine (List.mem_cons.1 hplan).resolve_left ?_
        rintro rfl
        rw [he] at hfirst
        cases hfirst
      obtain ⟨other, hother, e, he, herror⟩ := ih hrest
      exact ⟨other, List.mem_cons_of_mem _ hother, e, he, by rw [herror]; rfl⟩

theorem guardedEdits_cases (guard : Guard) (store : FileStore) (plans : List FilePlan) :
    (∃ plan ∈ plans, ∃ e, guard.check store plan.file = .error e ∧
        guardedEdits guard store plans = .error e) ∨
      ∃ place : FilePlan → Place, (∀ plan ∈ plans, guard.check store plan.file = .ok (place plan)) ∧
        guardedEdits guard store plans = .ok (placed place plans) := by
  by_cases hrefused : ∃ plan ∈ plans, ∃ e, guard.check store plan.file = .error e
  · obtain ⟨plan, hplan, e, he⟩ := hrefused
    exact .inl (guardedEdits_of_error hplan he)
  · have htotal : ∀ plan : FilePlan, ∃ place, plan ∈ plans →
        guard.check store plan.file = .ok place := by
      intro plan
      cases hcheck : guard.check store plan.file with
      | error e => exact ⟨[], fun hplan => absurd ⟨plan, hplan, e, hcheck⟩ hrefused⟩
      | ok place => exact ⟨place, fun _ => rfl⟩
    choose place hplace using htotal
    exact .inr ⟨place, hplace, guardedEdits_of_check hplace⟩

section Placed

variable {guard : Guard} {store : FileStore} {plans : List FilePlan} {place : FilePlan → Place}
  (hstore : store.Plain) (hplace : ∀ plan ∈ plans, guard.check store plan.file = .ok (place plan))

include hstore hplace

theorem oneName_placed : Edit.OneName store (placed place plans) := by
  intro a ha b hb hmeet
  obtain ⟨plan, hplan, rfl⟩ := List.mem_map.1 ha
  obtain ⟨other, hother, rfl⟩ := List.mem_map.1 hb
  obtain ⟨_, hat⟩ := exists_at_of_check hstore hplace hplan
  obtain ⟨_, hat'⟩ := exists_at_of_check hstore hplace hother
  obtain ⟨reached, hreach, hreach'⟩ := hmeet
  refine (same_placed_iff hstore hplace hplan hother).2 ?_
  rw [← hstore.reaches_ofNames hat hreach, ← hstore.reaches_ofNames hat' hreach']

theorem at?_placed {other : Place} (hother : ∀ plan ∈ plans, place plan ≠ other) :
    (Edit.applyBatch store (placed place plans)).2.at? other = store.at? other := by
  refine ((oneName_placed hstore hplace).whole hstore.rooted).elsewhere other fun edit hedit => ?_
  obtain ⟨plan, hplan, rfl⟩ := List.mem_map.1 hedit
  obtain ⟨_, hat⟩ := exists_at_of_check hstore hplace hplan
  intro hlocate
  exact hother plan hplan (hstore.locate_ofNames hat hlocate).symm

theorem pairwise_placed
    (hdiffer : plans.Pairwise fun a b => guard.check store a.file ≠ guard.check store b.file) :
    (placed place plans).Pairwise fun a b => a.file.same b.file = false := by
  rw [placed, List.pairwise_map]
  refine hdiffer.imp_of_mem fun {a b} ha hb hne => ?_
  rw [Bool.eq_false_iff]
  intro hsame
  apply hne
  rw [hplace a ha, hplace b hb, (same_placed_iff hstore hplace ha hb).1 hsame]

variable (hdiffer : plans.Pairwise fun a b => guard.check store a.file ≠ guard.check store b.file)
  (hread : ∀ plan ∈ plans, store.read (.ofNames (place plan)) = .ok plan.before.toUTF8)

include hdiffer hread

theorem applyBatch_placed :
    ∃ outcomes, (Edit.applyBatch store (placed place plans)).1 = .ok outcomes := by
  have hsingle : ∀ group ∈ Edit.groups (placed place plans), ∀ edit ∈ group, group = [edit] :=
    fun group hgroup edit hedit =>
      Edit.eq_singleton_of_mem_groups (pairwise_placed hstore hplace hdiffer) hgroup hedit
  have hready : ∀ group ∈ Edit.groups (placed place plans), Edit.Ready store group := by
    intro group hgroup edit hedit
    obtain ⟨plan, hplan, rfl⟩ := List.mem_map.1 (Edit.mem_of_mem_groups hgroup hedit)
    rw [hsingle group hgroup _ hedit]
    exact ⟨plan.before, hread plan hplan, fun _ => ⟨_, Edit.replaces_replaceFile _ _ _⟩⟩
  rw [Edit.applyBatch_eq_applyGroups]
  rcases Edit.applyGroups_of_ready hstore.rooted (oneName_placed hstore hplace).apart hready with
    ⟨-, hok⟩ | ⟨⟨group, hgroup, hover⟩, -⟩
  · exact hok
  · -- A group of one edit has no overlap.
    cases group with
    | nil => exact absurd rfl hover
    | cons edit edits =>
      rw [hsingle _ hgroup edit (by simp)] at hover
      exact absurd rfl hover

theorem read_placed {plan : FilePlan} (hplan : plan ∈ plans) :
    (Edit.applyBatch store (placed place plans)).2.read (.ofNames (place plan)) =
      .ok plan.after.toUTF8 := by
  obtain ⟨outcomes, hok⟩ := applyBatch_placed hstore hplace hdiffer hread
  have hedit : .replaceFile (.ofNames (place plan)) plan.before plan.after ∈ placed place plans :=
    List.mem_map.2 ⟨plan, hplan, rfl⟩
  obtain ⟨group, hgroup, hmem⟩ := Edit.exists_group hedit
  have hsingle :=
    Edit.eq_singleton_of_mem_groups (pairwise_placed hstore hplace hdiffer) hgroup hmem
  obtain ⟨old, new, hold, heach, hnew⟩ :=
    ((oneName_placed hstore hplace).whole hstore.rooted).read_edited outcomes hok _ hedit _
      (hread plan hplan)
  rw [← Edit.eq_ofFile_of_mem_groups hgroup hmem, hsingle, ← String.toByteArray_inj.1 hold,
    (Edit.replaces_replaceFile _ _ _).applyEach] at heach
  cases heach
  exact hnew

end Placed

/-- What writing plans does under a guard. -/
structure WritesUnder (w : Workspace) (guard : Guard) (store : FileStore) (plans : List FilePlan) :
    Prop where
  /-- If a plan is refused, nothing is written. -/
  refused : ∀ plan ∈ plans, ∀ e, guard.check store plan.file = .error e →
    ∃ first ∈ plans, ∃ e, guard.check store first.file = .error e ∧
      w.write store plans = (.error (.guard e), store)
  /-- Whatever comes of it, only what lies in the workspace and in no excluded directory changes. -/
  inside : ∀ place, (w.write store plans).2.at? place ≠ store.at? place →
    guard.root <+: place ∧
      ∀ directory ∈ (place.drop guard.root.length).dropLast, directory ∉ w.settings.exclude
  /-- Plans for different files that are as they were are all written. -/
  written : (plans.Pairwise fun a b => guard.check store a.file ≠ guard.check store b.file) →
    (∀ plan ∈ plans, ∃ place, guard.check store plan.file = .ok place ∧
      store.read (.ofNames place) = .ok plan.before.toUTF8) →
    (∃ outcomes, (w.write store plans).1 = .ok outcomes) ∧
      (∀ plan ∈ plans, ∀ place, guard.check store plan.file = .ok place →
        (w.write store plans).2.read (.ofNames place) = .ok plan.after.toUTF8) ∧
      ∀ place, (∀ plan ∈ plans, guard.check store plan.file ≠ .ok place) →
        (w.write store plans).2.at? place = store.at? place

variable {w : Workspace} {store : FileStore} {root : Place} {plans : List FilePlan}

theorem write_of_error {e : GuardError} (hroot : store.canonical w.root = .ok root)
    (h : guardedEdits { root, forbidden := w.settings.exclude } store plans = .error e) :
    w.write store plans = (.error (.guard e), store) := by
  simp only [write, Guard.ofRoot, Guard.resolve, hroot, Except.map, Except.bind, h]

theorem write_of_ok {edits : List Edit} (hroot : store.canonical w.root = .ok root)
    (h : guardedEdits { root, forbidden := w.settings.exclude } store plans = .ok edits) :
    w.write store plans =
      ((Edit.applyBatch store edits).1.mapError .edit, (Edit.applyBatch store edits).2) := by
  simp only [write, Guard.ofRoot, Guard.resolve, hroot, Except.map, Except.bind, h]

end Workspace

/-- Plans are written if the guard allows all of them, and then at their places only. -/
theorem Workspace.write_under_guard [Digest] {store : FileStore} (hstore : store.Plain) (w : Workspace)
    (plans : List FilePlan) :
    (∀ cause, store.canonical w.root = .error cause →
      w.write store plans = (.error (.guard (.unresolved w.root cause)), store)) ∧
    ∀ root, store.canonical w.root = .ok root →
      w.WritesUnder { root, forbidden := w.settings.exclude } store plans := by
  constructor
  · intro cause hcause
    simp only [write, Guard.ofRoot, Guard.resolve, hcause, Except.map, Except.bind]
  · intro root hroot
    rcases guardedEdits_cases { root, forbidden := w.settings.exclude } store plans with
      ⟨first, hfirst, e, he, hedits⟩ | ⟨place, hplace, hedits⟩
    · have hwrite := write_of_error hroot hedits
      refine ⟨fun _ _ _ _ => ⟨first, hfirst, e, he, hwrite⟩, ?_, ?_⟩
      · intro place hchanged
        rw [hwrite] at hchanged
        exact absurd rfl hchanged
      · intro _ haccepted
        obtain ⟨place, hplace, -⟩ := haccepted first hfirst
        rw [hplace] at he
        cases he
    · have hwrite := write_of_ok hroot hedits
      refine ⟨?_, ?_, ?_⟩
      · intro plan hplan e he
        rw [hplace plan hplan] at he
        cases he
      · intro other hchanged
        rw [hwrite] at hchanged
        obtain ⟨plan, hplan, rfl⟩ : ∃ plan ∈ plans, place plan = other := by
          by_contra hnone
          exact hchanged (at?_placed hstore hplace fun plan hplan heq => hnone ⟨plan, hplan, heq⟩)
        exact (Guard.checkPlace_eq_ok_iff.1 (Guard.check_eq_ok_iff.1 (hplace plan hplan)).2).2
      · intro hdiffer haccepted
        have hread : ∀ plan ∈ plans, store.read (.ofNames (place plan)) = .ok plan.before.toUTF8 := by
          intro plan hplan
          obtain ⟨found, hfound, hread⟩ := haccepted plan hplan
          rw [hplace plan hplan] at hfound
          cases hfound
          exact hread
        obtain ⟨outcomes, hok⟩ := applyBatch_placed hstore hplace hdiffer hread
        rw [hwrite]
        refine ⟨⟨outcomes, by rw [hok]; rfl⟩, ?_, ?_⟩
        · intro plan hplan found hfound
          rw [hplace plan hplan] at hfound
          cases hfound
          exact read_placed hstore hplace hdiffer hread hplan
        · intro other hother
          refine at?_placed hstore hplace fun plan hplan heq => hother plan hplan ?_
          rw [hplace plan hplan, heq]

namespace Sample

def shopfront : Workspace := { root := { text := "/w" }, settings := {} }

def planOf (text before after : String) : FilePlan :=
  { file := { text }, before, after, actions := [], conflicts := 0 }

def shopPlans : List FilePlan := [planOf "src/../a.cs" "ab" "b", planOf "/w/src/./b.cs" "cd" "cdd"]

end Sample

theorem Sample.write_under_guard_shop :
    Sample.shop.Plain ∧ Sample.shop.canonical Sample.shopfront.root = .ok ["w"] ∧
      (Sample.shopfront.write Sample.shop Sample.shopPlans).2.read { text := "/w/a.cs" } =
        .ok "b".toUTF8 ∧
      (Sample.shopfront.write Sample.shop Sample.shopPlans).2.at? ["x.cs"] =
        some (.file "gh".toUTF8) ∧
      ∃ e, Sample.shopfront.write Sample.shop (Sample.shopPlans ++ [Sample.planOf "obj/c.cs" "ef" ""]) =
        (.error (.guard e), Sample.shop) := by
  have hroot : Sample.shop.canonical Sample.shopfront.root = .ok ["w"] := by decide +kernel
  have hwrite := (Workspace.write_under_guard Sample.plain_shop Sample.shopfront
    Sample.shopPlans).2 _ hroot
  have hrefuse := (Workspace.write_under_guard Sample.plain_shop Sample.shopfront
    (Sample.shopPlans ++ [Sample.planOf "obj/c.cs" "ef" ""])).2 _ hroot
  obtain ⟨-, hread, helse⟩ := hwrite.written (by decide +kernel) (List.forall_mem_cons.2
    ⟨⟨["w", "a.cs"], by decide +kernel, by decide +kernel⟩, List.forall_mem_singleton.2
      ⟨["w", "src", "b.cs"], by decide +kernel, by decide +kernel⟩⟩)
  refine ⟨Sample.plain_shop, hroot, ?_, ?_, ?_⟩
  · exact hread (Sample.planOf "src/../a.cs" "ab" "b") (by simp [Sample.shopPlans]) ["w", "a.cs"]
      (by decide +kernel)
  · exact helse ["x.cs"] (by decide +kernel)
  · obtain ⟨_, -, e, -, h⟩ := hrefuse.refused (Sample.planOf "obj/c.cs" "ef" "") (by simp)
      (.forbidden { text := "/w/obj/c.cs" } "obj") (by decide +kernel)
    exact ⟨e, h⟩

end CancellationLint
