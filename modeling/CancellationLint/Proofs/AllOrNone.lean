import CancellationLint.Proofs.FileNames
import CancellationLint.Proofs.Overwrite

/-! # All edits of a file or none

A batch writes file by file and stops at the first file that it cannot edit. Whatever comes of it, a
file holds what it held before or that with all of its edits, as long as no two edits give one file
different names. Edits of different names are not put together: where they meet in one file, a part of
them may be found there. -/

namespace CancellationLint
namespace Edit

/-! ## Names of files -/

def Apart (store : FileStore) (groups : List (List Edit)) : Prop :=
  groups.Pairwise fun g g' => ∀ a ∈ g, ∀ b ∈ g', ¬ store.SameFile a.file b.file

theorem Apart.swaps {store store' : FileStore} {file : PathName} {old new : ByteArray}
    {groups : List (List Edit)} (h : Apart store groups)
    (hswaps : store.Swaps file old new store') : Apart store' groups :=
  h.imp fun hapart a ha b hb hsame => hapart a ha b hb (hswaps.sameFile _ _ hsame)

/-- All edits are of one readable file, under names that differ in slashes and single dots at
most. -/
def AllOf (store : FileStore) (edits : List Edit) (file : PathName) (content : ByteArray) : Prop :=
  store.read file = .ok content ∧
    ∀ edit ∈ edits, edit.file.same file = true ∧ store.read edit.file = .ok content

/-- No file has two names, other than in slashes and single dots. -/
def OneName (store : FileStore) (edits : List Edit) : Prop :=
  ∀ a ∈ edits, ∀ b ∈ edits, store.SameFile a.file b.file → a.file.same b.file = true

theorem OneName.apart {store : FileStore} {edits : List Edit} (h : OneName store edits) :
    Apart store (groups edits) := by
  refine (groups_apart edits).imp_of_mem fun hg hg' hdiffer a ha b hb hmeet => ?_
  have hsame := h a (mem_of_mem_groups hg ha) b (mem_of_mem_groups hg' hb) hmeet
  rw [hdiffer a ha b hb] at hsame
  cases hsame

variable [Digest]

def applyEach (edits : List Edit) (content : String) : Except EditError String :=
  edits.foldlM (fun content edit => edit.applyTo content) content

theorem Replaces.applyEach {edits : List Edit} {old new : String} (h : Replaces edits old new) :
    Edit.applyEach edits old = .ok new :=
  (foldlM_applyTo_eq_ok_iff h.overlap?).2 h

/-! ## One group -/

theorem swaps_of_applyFile {store store' : FileStore} {file : PathName} {edits : List Edit}
    {outcomes : List EditOutcome} (hstore : store.rooted = true)
    (h : applyFile store file edits = .ok (outcomes, store')) :
    ∃ old new : String, store.read file = .ok old.toUTF8 ∧ Replaces edits old new ∧
      store.Swaps file old.toUTF8 new.toUTF8 store' := by
  obtain ⟨⟨content, hread⟩, hover⟩ := read_of_applyFile h
  unfold applyFile at h
  rw [hread] at h
  simp only [fromUTF8?_toUTF8, hover] at h
  cases hwoven : weave file content content edits with
  | error e =>
    rw [hwoven] at h
    cases h
  | ok woven =>
    rw [hwoven, Except.bind] at h
    refine ⟨content, woven.1, hread, (weave_eq_ok_iff file hover).1 ⟨woven.2, hwoven⟩, ?_⟩
    split at h
    · rename_i hsame
      cases h
      rw [hsame]
      exact FileStore.Swaps.refl hstore hread
    · split at h
      · rename_i hreplace
        cases h
        exact FileStore.swaps_of_replace hstore hread hreplace
      · cases h

/-! ## Group after group -/

theorem read_applyGroups {groups : List (List Edit)} {store : FileStore}
    (hstore : store.rooted = true) (hapart : Apart store groups) {p : PathName}
    {content : ByteArray} (hread : store.read p = .ok content) :
    (applyGroups store groups).2.read p = .ok content ∨
      ∃ group ∈ groups, ∃ edit ∈ group, store.SameFile p edit.file ∧
        ∃ old new : String, content = old.toUTF8 ∧ Replaces group old new ∧
          (applyGroups store groups).2.read p = .ok new.toUTF8 := by
  induction groups generalizing store content with
  | nil => exact .inl hread
  | cons group groups ih =>
    obtain ⟨hfirst, hrest⟩ := List.pairwise_cons.1 hapart
    cases group with
    | nil =>
      refine (ih hstore hrest hread).imp_right ?_
      rintro ⟨group, hgroup, hedited⟩
      exact ⟨group, List.mem_cons_of_mem _ hgroup, hedited⟩
    | cons edit edits =>
      rw [applyGroups]
      cases h : applyFile store edit.file (edit :: edits) with
      | error e => exact .inl hread
      | ok written =>
        obtain ⟨old, new, -, hreplaces, hswaps⟩ := swaps_of_applyFile hstore h
        have hrun := fun {c} => @ih written.2 hswaps.rooted (Apart.swaps hrest hswaps) c
        rcases hswaps.read p content hread with hread' | ⟨hsame, rfl, hread'⟩
        · refine (hrun hread').imp_right ?_
          rintro ⟨group, hgroup, other, hother, hsame, hedited⟩
          exact ⟨group, List.mem_cons_of_mem _ hgroup, other, hother,
            hswaps.sameFile _ _ hsame, hedited⟩
        · -- The file has its edits; no later group leads to it.
          rcases hrun hread' with hfinal | ⟨group, hgroup, other, hother, hsame', -⟩
          · exact .inr ⟨_, List.mem_cons_self, edit, by simp, hsame, old, new, rfl, hreplaces, hfinal⟩
          · exact absurd (hsame.symm.trans (hswaps.sameFile _ _ hsame'))
              (hfirst group hgroup edit (by simp) other hother)

/-- A run of groups changes nothing but what stands under the names of its edits. -/
theorem at?_applyGroups {groups : List (List Edit)} {origin store : FileStore}
    (hstore : store.rooted = true)
    (hlocate : ∀ q place, store.SameFile q q → store.locate q = .ok place →
      origin.locate q = .ok place) {place : Place}
    (hplace : ∀ group ∈ groups, ∀ edit ∈ group, origin.locate edit.file ≠ .ok place) :
    (applyGroups store groups).2.at? place = store.at? place := by
  induction groups generalizing store with
  | nil => rfl
  | cons group groups ih =>
    have hothers := fun g hg => hplace g (List.mem_cons_of_mem _ hg)
    cases group with
    | nil => exact ih hstore hlocate hothers
    | cons edit edits =>
      rw [applyGroups]
      cases h : applyFile store edit.file (edit :: edits) with
      | error e => rfl
      | ok written =>
        obtain ⟨old, new, hread, -, hswaps⟩ := swaps_of_applyFile hstore h
        obtain ⟨reached, hreach, -⟩ := FileStore.reaches_of_read hread
        have hne : store.locate edit.file ≠ .ok place := fun heq =>
          hplace _ List.mem_cons_self edit (by simp) (hlocate _ _ ⟨reached, hreach, hreach⟩ heq)
        rw [← hswaps.elsewhere place hne]
        refine ih hswaps.rooted (fun q last hq hlast => ?_) hothers
        exact hlocate q last (hswaps.sameFile q q hq) (hswaps.locate q last hq hlast)

theorem applyGroups_cons_eq_ok {edit : Edit} {edits : List Edit} {groups : List (List Edit)}
    {store store' : FileStore} {outcomes : List EditOutcome}
    (h : applyGroups store ((edit :: edits) :: groups) = (.ok outcomes, store')) :
    ∃ written others, applyFile store edit.file (edit :: edits) = .ok written ∧
      applyGroups written.2 groups = (.ok others, store') := by
  rw [applyGroups] at h
  cases hfile : applyFile store edit.file (edit :: edits) with
  | error e =>
    rw [hfile] at h
    cases h
  | ok written =>
    rw [hfile] at h
    cases hrun : applyGroups written.2 groups with
    | mk result last =>
      simp only [hrun] at h
      cases result with
      | error e => cases h
      | ok others =>
        cases h
        exact ⟨written, others, rfl, hrun⟩

theorem edited_applyGroups {groups : List (List Edit)} {store store' : FileStore}
    {outcomes : List EditOutcome} (hstore : store.rooted = true)
    (hsame : ∀ group ∈ groups, ∀ a ∈ group, ∀ b ∈ group, a.file.same b.file = true)
    (hapart : Apart store groups) (h : applyGroups store groups = (.ok outcomes, store'))
    {group : List Edit} (hgroup : group ∈ groups) {edit : Edit} (hedit : edit ∈ group)
    {content : ByteArray} (hread : store.read edit.file = .ok content) :
    ∃ old new : String, content = old.toUTF8 ∧ Replaces group old new ∧
      store'.read edit.file = .ok new.toUTF8 := by
  induction groups generalizing store outcomes content with
  | nil => cases hgroup
  | cons g groups ih =>
    obtain ⟨hfirst, hrest⟩ := List.pairwise_cons.1 hapart
    have hothers := fun g hg => hsame g (List.mem_cons_of_mem _ hg)
    cases g with
    | nil =>
      rcases List.mem_cons.1 hgroup with rfl | hgroup
      · cases hedit
      · exact ih hstore hothers hrest h hgroup hread
    | cons first edits =>
      obtain ⟨written, others, hfile, hrun⟩ := applyGroups_cons_eq_ok h
      obtain ⟨old, new, hold, hreplaces, hswaps⟩ := swaps_of_applyFile hstore hfile
      have hapart' := Apart.swaps hrest hswaps
      rcases List.mem_cons.1 hgroup with rfl | hmem
      · have hname := hsame _ List.mem_cons_self first (by simp) edit hedit
        obtain rfl := FileStore.read_same hname hold hread
        refine ⟨old, new, rfl, hreplaces, ?_⟩
        have hfinal := read_applyGroups hswaps.rooted hapart' (hswaps.read_of_same hname hread)
        rw [hrun] at hfinal
        rcases hfinal with hfinal | ⟨later, hlater, other, hother, hmeet, -⟩
        · exact hfinal
        · exact absurd (hswaps.sameFile _ _ hmeet) (hfirst later hlater edit hedit other hother)
      · refine ih hswaps.rooted hothers hapart' hrun hmem ?_
        rcases hswaps.read _ _ hread with hkept | ⟨hmeet, -⟩
        · exact hkept
        · exact absurd hmeet.symm (hfirst group hmem first (by simp) edit hedit)

/-! ## One file -/

def Gives (store : FileStore) (edits : List Edit) (file : PathName) (text : String) : Prop :=
  ∃ outcomes store', applyBatch store edits = (.ok outcomes, store') ∧
    store'.read file = .ok text.toUTF8

section OneFile

variable {store : FileStore} {edits : List Edit} {file : PathName} {content : String}

theorem exists_replaces_of_ok (hstore : store.rooted = true) (h : AllOf store edits file content.toUTF8)
    {store' : FileStore} {outcomes : List EditOutcome}
    (hbatch : applyBatch store edits = (.ok outcomes, store')) :
    ∃ c, Replaces (ofFile file edits) content c ∧ store'.read file = .ok c.toUTF8 := by
  by_cases hnil : edits = []
  · subst hnil
    rw [applyBatch_nil] at hbatch
    cases hbatch
    rw [ofFile_nil]
    exact ⟨content, Replaces.nil content, h.1⟩
  · obtain ⟨first, hfirst, hone⟩ := applyBatch_of_file store (fun e he => (h.2 e he).1) hnil
    obtain ⟨hname, hread⟩ := h.2 first hfirst
    rw [hbatch] at hone
    cases hfile : applyFile store first.file (ofFile file edits) with
    | error e =>
      rw [hfile] at hone
      cases hone
    | ok written =>
      rw [hfile] at hone
      cases hone
      obtain ⟨old, new, hold, hreplaces, hswaps⟩ := swaps_of_applyFile hstore hfile
      rw [hread] at hold
      obtain rfl := String.toByteArray_inj.1 (Except.ok.inj hold)
      -- The name may not be the one the file was written under.
      exact ⟨new, hreplaces, hswaps.read_of_same hname h.1⟩

theorem gives_iff (hstore : store.rooted = true) (h : AllOf store edits file content.toUTF8)
    (c : String) : Gives store edits file c ↔ Replaces (ofFile file edits) content c := by
  constructor
  · rintro ⟨outcomes, store', hbatch, hread⟩
    obtain ⟨c', hreplaces, hread'⟩ := exists_replaces_of_ok hstore h hbatch
    rw [hread] at hread'
    rw [String.toByteArray_inj.1 (Except.ok.inj hread')]
    exact hreplaces
  · intro hreplaces
    obtain ⟨outcomes, store', hbatch⟩ : ∃ outcomes store',
        applyBatch store edits = (.ok outcomes, store') := by
      by_cases hnil : edits = []
      · exact ⟨[], store, by rw [hnil, applyBatch_nil]⟩
      · obtain ⟨first, hfirst, hone⟩ := applyBatch_of_file store (fun e he => (h.2 e he).1) hnil
        obtain ⟨outcomes, store', hfile, -⟩ := hreplaces.applyFile hstore (h.2 first hfirst).2
        exact ⟨outcomes, store', by rw [hone, hfile]⟩
    obtain ⟨c', hreplaces', hread⟩ := exists_replaces_of_ok hstore h hbatch
    have htext := hreplaces'.applyEach
    rw [hreplaces.applyEach] at htext
    cases htext
    exact ⟨outcomes, store', hbatch, hread⟩

theorem overlap?_of_not_reported (h : AllOf store edits file content.toUTF8)
    (hover : ∀ name start, (applyBatch store edits).1 ≠ .error (.overlap name start)) :
    overlap? (ofFile file edits) = none := by
  by_cases hnil : edits = []
  · rw [hnil, ofFile_nil]
    rfl
  · obtain ⟨first, hfirst, hbatch⟩ := applyBatch_of_file store (fun e he => (h.2 e he).1) hnil
    by_contra hsome
    obtain ⟨start, hstart⟩ := Option.ne_none_iff_exists'.1 hsome
    apply hover first.file start
    rw [hbatch, applyFile, (h.2 first hfirst).2]
    simp only [fromUTF8?_toUTF8, hstart]

end OneFile

/-! ## All files -/

/-- What a batch leaves, whether or not it succeeds. -/
structure Whole (store : FileStore) (edits : List Edit) : Prop where
  read : ∀ p content, store.read p = .ok content →
    (applyBatch store edits).2.read p = .ok content ∨
      ∃ edit ∈ edits, store.SameFile p edit.file ∧ ∃ old new : String, content = old.toUTF8 ∧
        applyEach (ofFile edit.file edits) old = .ok new ∧
        (applyBatch store edits).2.read p = .ok new.toUTF8
  read_edited : ∀ outcomes, (applyBatch store edits).1 = .ok outcomes →
    ∀ edit ∈ edits, ∀ content, store.read edit.file = .ok content →
      ∃ old new : String, content = old.toUTF8 ∧
        applyEach (ofFile edit.file edits) old = .ok new ∧
        (applyBatch store edits).2.read edit.file = .ok new.toUTF8
  elsewhere : ∀ place, (∀ edit ∈ edits, store.locate edit.file ≠ .ok place) →
    (applyBatch store edits).2.at? place = store.at? place

theorem OneName.whole {store : FileStore} {edits : List Edit} (h : OneName store edits)
    (hstore : store.rooted = true) : Whole store edits := by
  constructor
  · intro p content hread
    refine (read_applyGroups hstore h.apart hread).imp_right ?_
    rintro ⟨group, hgroup, edit, hedit, hsame, old, new, rfl, hreplaces, hnew⟩
    refine ⟨edit, mem_of_mem_groups hgroup hedit, hsame, old, new, rfl, ?_, hnew⟩
    rw [← eq_ofFile_of_mem_groups hgroup hedit]
    exact hreplaces.applyEach
  · intro outcomes hok edit hedit content hread
    obtain ⟨group, hgroup, hmem⟩ := exists_group hedit
    obtain ⟨old, new, rfl, hreplaces, hnew⟩ := edited_applyGroups hstore
      (fun g hg a ha b hb => same_of_mem_groups hg ha hb) h.apart (Prod.ext hok rfl) hgroup hmem
      hread
    refine ⟨old, new, rfl, ?_, hnew⟩
    rw [← eq_ofFile_of_mem_groups hgroup hmem]
    exact hreplaces.applyEach
  · intro place hplace
    exact at?_applyGroups hstore (fun _ _ _ h => h) fun group hgroup edit hedit =>
      hplace edit (mem_of_mem_groups hgroup hedit)

end Edit

/-- If no file is named in two ways, a batch leaves each one as it was or with all of its edits. -/
theorem Edit.applyBatch_whole [Digest] {store : FileStore} (hstore : store.rooted = true)
    (edits : List Edit) :
    (OneName store edits → Whole store edits) ∧
    (∀ file (content : String), AllOf store edits file content.toUTF8 →
      (∀ name start, (applyBatch store edits).1 ≠ .error (.overlap name start)) → ∀ c,
        (Gives store edits file c ↔ applyEach (ofFile file edits) content = .ok c) ∧
        (Gives store edits file c → ∀ i,
          (∀ edit ∈ edits, i < edit.span.start ∨ edit.span.stop ≤ i) →
            c.toUTF8.data[offsetAfter (ofFile file edits) i]? = content.toUTF8.data[i]?)) ∧
    (∀ edit ∈ edits, ∀ content, store.read edit.file = .ok content.toUTF8 →
      edit.ActsAsOn content store) := by
  refine ⟨fun hnames => hnames.whole hstore, ?_, fun edit _ content => actsAsOn_of_read hstore⟩
  intro file content hall hover c
  have hnone := overlap?_of_not_reported hall hover
  refine ⟨(gives_iff hstore hall c).trans (foldlM_applyTo_eq_ok_iff hnone).symm, ?_⟩
  intro hgives i hout
  refine ((gives_iff hstore hall c).1 hgives).byte_eq fun edit hedit => ?_
  exact hout edit (mem_ofFile_iff.1 hedit).1

namespace Sample

def pair : FileStore :=
  { entries := [(["A.cs"], .file "ab".toUTF8), (["B.cs"], .file "cd".toUTF8)], here := [] }

def pairEdits : List Edit :=
  [.ofTexts { text := "A.cs" } { start := 1, stop := 2 } "y" "b",
    .ofTexts { text := "A.cs" } { start := 0, stop := 0 } "x" ""]

def late : Edit := .ofTexts { text := "B.cs" } { start := 0, stop := 1 } "z" "d"

theorem oneName_pair : Edit.OneName pair (pairEdits ++ [late]) := by
  have hfirst : pair.Reaches { text := "A.cs" } ["A.cs"] :=
    FileStore.reaches_of_resolve (by decide +kernel)
      (rfl : pair.at? ["A.cs"] = some (.file "ab".toUTF8))
  have hsecond : pair.Reaches { text := "B.cs" } ["B.cs"] :=
    FileStore.reaches_of_resolve (by decide +kernel)
      (rfl : pair.at? ["B.cs"] = some (.file "cd".toUTF8))
  have hmeet : ¬ pair.SameFile { text := "A.cs" } { text := "B.cs" } := by
    rintro ⟨place, ha, hb⟩
    have hplace := (ha.unique hfirst).symm.trans (hb.unique hsecond)
    revert hplace
    decide
  have hfile : ∀ edit ∈ pairEdits ++ [late],
      edit.file = { text := "A.cs" } ∨ edit.file = { text := "B.cs" } := by decide
  intro a ha b hb hsame
  rcases hfile a ha with hfa | hfa <;> rcases hfile b hb with hfb | hfb <;> rw [hfa, hfb] at hsame ⊢
  · decide
  · exact absurd hsame hmeet
  · exact absurd hsame.symm hmeet
  · decide

theorem allOf_pairEdits : Edit.AllOf pair pairEdits { text := "A.cs" } "ab".toUTF8 :=
  ⟨by decide +kernel, by decide +kernel⟩

theorem applyBatch_pairEdits (name : PathName) (start : Nat) :
    (Edit.applyBatch pair pairEdits).1 ≠ .error (.overlap name start) := by
  have hok : (Edit.applyGroups pair
      (pairEdits.splitBy fun a b => a.file.same b.file)).1.toOption.isSome = true := by
    decide +kernel
  rw [Edit.applyBatch_eq_applyGroups, Edit.groups_of_sorted (by decide +kernel)]
  intro herror
  rw [herror] at hok
  cases hok

end Sample

theorem Sample.applyBatch_whole_pair :
    Sample.pair.rooted = true ∧ Edit.OneName Sample.pair (Sample.pairEdits ++ [Sample.late]) ∧
      Edit.Whole Sample.pair (Sample.pairEdits ++ [Sample.late]) ∧
      Edit.AllOf Sample.pair Sample.pairEdits { text := "A.cs" } "ab".toUTF8 ∧
      Edit.Gives Sample.pair Sample.pairEdits { text := "A.cs" } "xay" ∧
      Sample.late.ActsAsOn "cd" Sample.pair := by
  have hstore : Sample.pair.rooted = true := by decide
  have hbatch := Edit.applyBatch_whole hstore (Sample.pairEdits ++ [Sample.late])
  have hfile := (Edit.applyBatch_whole hstore Sample.pairEdits).2.1 _ _ Sample.allOf_pairEdits
    Sample.applyBatch_pairEdits "xay"
  have htext : Edit.applyEach (Edit.ofFile { text := "A.cs" } Sample.pairEdits) "ab" =
      .ok "xay" := by
    rw [Edit.ofFile_of_sorted (by decide)]
    decide +kernel
  exact ⟨hstore, Sample.oneName_pair, hbatch.1 Sample.oneName_pair, Sample.allOf_pairEdits,
    hfile.1.2 htext, hbatch.2.2 Sample.late (by simp) "cd" (by decide +kernel)⟩

namespace Sample

def beside : FileStore :=
  { entries := [(["A.cs"], .file "ab".toUTF8), (["d"], .directory)], here := [] }

def direct : Edit := .ofTexts { text := "A.cs" } { start := 0, stop := 1 } "x" "a"

def roundabout : Edit := .ofTexts { text := "d/../A.cs" } { start := 1, stop := 2 } "y" "z"

end Sample

/-- Under two names the edits of a file are taken for edits of two files. -/
theorem Sample.applyBatch_roundabout :
    Sample.beside.rooted = true ∧
      Sample.beside.SameFile Sample.direct.file Sample.roundabout.file ∧
      Sample.beside.read Sample.direct.file = .ok "ab".toUTF8 ∧
      Edit.applyEach [Sample.roundabout, Sample.direct] "ab" =
        .error (.changed Sample.roundabout.file Sample.roundabout.span "b") ∧
      (Edit.applyBatch Sample.beside [Sample.direct, Sample.roundabout]).1 =
        .error (.changed Sample.roundabout.file Sample.roundabout.span "b") ∧
      (Edit.applyBatch Sample.beside [Sample.direct, Sample.roundabout]).2.read
        Sample.direct.file = .ok "xb".toUTF8 := by
  have hat : Sample.beside.at? ["A.cs"] = some (.file "ab".toUTF8) := rfl
  refine ⟨by decide, ⟨["A.cs"], ?_, ?_⟩, by decide +kernel, by decide +kernel, ?_⟩
  · exact FileStore.reaches_of_resolve (by decide +kernel) hat
  · exact FileStore.reaches_of_resolve (by decide +kernel) hat
  · rw [Edit.applyBatch_eq_applyGroups, Edit.groups_of_sorted (by decide +kernel)]
    decide +kernel

end CancellationLint
