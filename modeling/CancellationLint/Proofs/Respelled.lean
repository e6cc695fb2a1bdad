import CancellationLint.Command.Run
import CancellationLint.Proofs.Discovery
import CancellationLint.Proofs.Guarded
import CancellationLint.Proofs.Lossless

/-! # Two spellings of one file

Files are kept apart by the parts of their path names when they are found, and by their places when
they are written. A file that is found under two path names with different parts is planned for twice,
and then the plans overlap. -/

namespace CancellationLint

/-! ## Plans of the files that were found -/

namespace Command

section Picked

variable {α β γ δ : Type} {key : α → γ} {key' : β → γ} {pick : δ → Option β}

theorem map_filterMap_mapIdx_sublist {f : Nat → α → δ} {l : List α}
    (h : ∀ i a b, pick (f i a) = some b → key' b = key a) :
    (((l.mapIdx f).filterMap pick).map key').Sublist (l.map key) := by
  induction l generalizing f with
  | nil => exact List.Sublist.refl _
  | cons a l ih =>
    have hrest := ih (f := fun i => f (i + 1)) fun i => h (i + 1)
    rw [List.mapIdx_cons, List.map_cons]
    cases hpick : pick (f 0 a) with
    | none =>
      rw [List.filterMap_cons_none hpick]
      exact hrest.cons _
    | some b =>
      rw [List.filterMap_cons_some hpick, List.map_cons, h 0 a b hpick]
      exact hrest.cons_cons _

end Picked

theorem eq_ok_of_toOption {ε α : Type} {result : Except ε α} {a : α} (h : result.toOption = some a) :
    result = .ok a := by
  cases result with
  | error e => cases h
  | ok b =>
    cases h
    rfl

variable {w : Workspace} {grammar : Grammar} {store : FileStore} {files : List PathName}

theorem file_of_analyze {l : Label} {file : PathName} {a : Analysis}
    (h : w.analyze grammar l store file = .ok a) : a.file = file := by
  unfold Workspace.analyze at h
  split at h
  · cases h
  · cases h
    rfl

theorem file_of_plan {l : Label} {a : Analysis} {plan : FilePlan}
    (h : w.plan grammar l a = .ok (some plan)) : plan.file = a.file := by
  unfold Workspace.plan at h
  split at h
  · cases h
  · split at h
    · cases h
    · simp only at h
      split at h
      · cases h
      · cases h
        rfl

theorem plansFor_eq : (plansFor w grammar store files).1 =
    ((successes (w.analyzeAll grammar [0] store files)).mapIdx fun i a =>
      w.plan grammar [i, 1] a).filterMap fun planned => planned.toOption.join := by
  rw [plansFor, successes, List.filterMap_filterMap]
  rfl

/-- The plans are of files in the order of the files. -/
theorem files_plansFor_sublist :
    ((plansFor w grammar store files).1.map FilePlan.file).Sublist files := by
  have hplans : ((plansFor w grammar store files).1.map FilePlan.file).Sublist
      ((successes (w.analyzeAll grammar [0] store files)).map Analysis.file) := by
    rw [plansFor_eq]
    apply map_filterMap_mapIdx_sublist
    intro i a plan hplan
    exact file_of_plan (eq_ok_of_toOption (Option.join_eq_some_iff.1 hplan))
  have hanalyses : ((successes (w.analyzeAll grammar [0] store files)).map Analysis.file).Sublist
      (files.map id) := by
    apply map_filterMap_mapIdx_sublist
    intro i file a ha
    exact file_of_analyze (eq_ok_of_toOption ha)
  rw [List.map_id] at hanalyses
  exact hplans.trans hanalyses

theorem exists_plan_of_mem {plan : FilePlan} (h : plan ∈ (plansFor w grammar store files).1) :
    ∃ l a, w.plan grammar l a = .ok (some plan) := by
  rw [plansFor_eq] at h
  obtain ⟨planned, hplanned, hplan⟩ := List.mem_filterMap.1 h
  obtain ⟨i, hi, rfl⟩ := List.mem_mapIdx.1 hplanned
  exact ⟨_, _, eq_ok_of_toOption (Option.join_eq_some_iff.1 hplan)⟩

end Command

namespace Workspace

variable {w : Workspace} {store : FileStore} {root : Place}

/-! ## Paths in a workspace -/

/-- The path names something in the workspace, and nothing on the way there is excluded. -/
inductive Covers (w : Workspace) (store : FileStore) (root : Place) (path : PathName) : Prop
  | file {way : Place} {content : ByteArray} : store.resolve path = .ok (root ++ way) →
    store.at? (root ++ way) = some (.file content) →
    (∀ directory ∈ way.dropLast, directory ∉ w.settings.exclude) → Covers w store root path
  | directory {way : Place} : store.resolve path = .ok (root ++ way) →
    store.at? (root ++ way) = some .directory →
    (∀ directory ∈ way, directory ∉ w.settings.exclude) → Covers w store root path

theorem Covers.of_mem_sources (hstore : store.Plain) {path q : PathName}
    (h : w.Covers store root path) (hq : q ∈ w.sources store path) :
    ∃ (names : List String) (place : Place), q.parts = path.parts ++ names.map .name ∧
      q.isAbsolute = path.isAbsolute ∧
      store.canonical q = .ok place ∧
      Guard.checkPlace { root, forbidden := w.settings.exclude } place = .ok place := by
  cases h with
  | @file way content hplace hat hallowed =>
    have hfile : store.isFile path = true := isFile_iff.2 ⟨_, content, hplace, hat⟩
    rw [sources, if_pos hfile, List.mem_singleton] at hq
    subst hq
    refine ⟨[], root ++ way, by simp, rfl, (FileStore.resolve_eq_ok_iff.1 hplace).1, ?_⟩
    rw [Guard.checkPlace_eq_ok_iff]
    simpa using hallowed
  | @directory way hplace hdir hallowed =>
    rw [sources_of_directory hstore hplace hdir, mem_sourcesBelow_iff hstore] at hq
    obtain ⟨names, hfinds, rfl⟩ := hq
    obtain ⟨content, hat⟩ := hfinds.file
    have hnames : ∀ name ∈ names, PathName.isName name = true :=
      fun name hname => hstore.isName_of_at? hat name (by simp [hname])
    refine ⟨names, _, PathName.parts_below hnames, PathName.isAbsolute_below hnames,
      hstore.canonical_below (FileStore.resolve_eq_ok_iff.1 hplace).1 hat, ?_⟩
    rw [Guard.checkPlace_eq_ok_iff]
    refine ⟨rfl, ⟨way ++ names, by simp⟩, fun directory hdirectory => ?_⟩
    rw [List.append_assoc, List.drop_left, List.dropLast_append_of_ne_nil hfinds.ne_nil,
      List.mem_append] at hdirectory
    rcases hdirectory with hin | hin
    · exact hallowed directory hin
    · exact hfinds.allowed directory hin

theorem check_of_mem_discover (hstore : store.Plain) {paths : List PathName} {q : PathName}
    (hcovers : ∀ path ∈ paths, w.Covers store root path)
    (hbase : ∀ path ∈ paths, path.isAbsolute = true ∨ root = store.here)
    (hq : q ∈ w.discover store paths) :
    ∃ path ∈ paths, ∃ (names : List String) (place : Place),
      q.parts = path.parts ++ names.map .name ∧
      store.canonical q = .ok place ∧
      Guard.check { root, forbidden := w.settings.exclude } store q = .ok place := by
  obtain ⟨path, hpath, hsource⟩ := mem_sources_of_mem_discover hq
  obtain ⟨names, place, hparts, habs, hplace, hcheck⟩ :=
    (hcovers path hpath).of_mem_sources hstore hsource
  refine ⟨path, hpath, names, place, hparts, hplace, ?_⟩
  rw [Guard.check_eq_checkPlace hstore (by rw [habs]; exact hbase path hpath) hplace]
  exact hcheck

/-! ## One way of spelling -/

end Workspace

namespace FileStore.Plain

variable {store : FileStore} (h : store.Plain)

include h

theorem parts_eq_of_canonical {p q : PathName} {place : Place} {front : List PathName.Part}
    {names others : List String} (hp : store.canonical p = .ok place)
    (hq : store.canonical q = .ok place) (hpparts : p.parts = front ++ names.map .name)
    (hqparts : q.parts = front ++ others.map .name) : p.parts = q.parts := by
  obtain ⟨middle, hlead, rfl⟩ := h.exists_front hp hpparts
  obtain ⟨middle', hlead', heq⟩ := h.exists_front hq hqparts
  have hroot : ∀ texts : List String, PathName.Part.root ∈ front ++ texts.map .name ↔
      PathName.Part.root ∈ front := by simp
  have hstart : store.start p = store.start q := by
    have habs : p.isAbsolute = q.isAbsolute := by
      rw [Bool.eq_iff_iff, ← PathName.root_mem_parts_iff, ← PathName.root_mem_parts_iff, hpparts,
        hqparts, hroot, hroot]
    rw [start, start, habs]
  rw [hstart] at hlead
  rw [hlead.unique hlead', List.append_cancel_left_eq] at heq
  rw [hpparts, hqparts, heq]

end FileStore.Plain

namespace Workspace

/-! ## Overlaps -/

/-- Two plans are for one file, under path names with different parts. -/
def Respelled (guard : Guard) (store : FileStore) (plans : List FilePlan) : Prop :=
  ∃ a ∈ plans, ∃ b ∈ plans, a.file.same b.file = false ∧
    guard.check store a.file = guard.check store b.file

theorem pairwise_check_iff {guard : Guard} {store : FileStore} {plans : List FilePlan}
    (hspelled : plans.Pairwise fun a b => a.file.same b.file = false) :
    (plans.Pairwise fun a b => guard.check store a.file ≠ guard.check store b.file) ↔
      ¬ Respelled guard store plans := by
  constructor
  · rintro hdiffer ⟨a, ha, b, hb, hsame, hcheck⟩
    have : Std.Symm fun a b : FilePlan => guard.check store a.file ≠ guard.check store b.file :=
      ⟨fun _ _ => Ne.symm⟩
    refine hdiffer.forall ha hb ?_ hcheck
    rintro rfl
    simp [PathName.same] at hsame
  · intro hnone
    exact hspelled.imp_of_mem fun {a b} ha hb hsame hcheck => hnone ⟨a, ha, b, hb, hsame, hcheck⟩

section Placed

variable [Digest] {guard : Guard} {store : FileStore} {plans : List FilePlan}
  {place : FilePlan → Place}

theorem overlap?_of_mem_groups {group : List Edit} (hbefore : ∀ plan ∈ plans, plan.before ≠ "")
    (hgroup : group ∈ Edit.groups (placed place plans)) :
    Edit.overlap? group = none ↔ group.length ≤ 1 := by
  have hplan : ∀ edit ∈ group, ∃ plan ∈ plans,
      edit = .replaceFile (.ofNames (place plan)) plan.before plan.after := fun edit hedit => by
    obtain ⟨plan, hplan, rfl⟩ := List.mem_map.1 (Edit.mem_of_mem_groups hgroup hedit)
    exact ⟨plan, hplan, rfl⟩
  cases group with
  | nil => simp [Edit.overlap?]
  | cons first others =>
    cases others with
    | nil => simp [Edit.overlap?]
    | cons second others =>
      obtain ⟨_, -, rfl⟩ := hplan first (by simp)
      obtain ⟨plan, hmem, rfl⟩ := hplan second (by simp)
      rw [overlap?_replaceFile rfl (hbefore plan hmem)]
      simp

theorem exists_group_of_place {a b : FilePlan} (ha : a ∈ plans) (hb : b ∈ plans)
    (hdiffer : a.file.same b.file = false) (hsame : place a = place b) :
    ∃ group ∈ Edit.groups (placed place plans), 1 < group.length := by
  have hrefl : ∀ file : PathName, file.same file = true := fun file => by simp [PathName.same]
  have htwo : ∀ l : List FilePlan, a ∈ l → b ∈ l → 1 < l.length := by
    intro l hal hbl
    cases l with
    | nil => cases hal
    | cons only others =>
      cases others with
      | nil =>
        rw [List.mem_singleton.1 hal, ← List.mem_singleton.1 hbl, hrefl] at hdiffer
        cases hdiffer
      | cons second others => simp
  obtain ⟨group, hgroup, hmem⟩ := Edit.exists_group (List.mem_map_of_mem ha)
  refine ⟨group, hgroup, ?_⟩
  rw [Edit.eq_ofFile_of_mem_groups hgroup hmem, Edit.ofFile, List.length_mergeSort,
    List.filter_map, List.length_map]
  exact htwo _ (List.mem_filter.2 ⟨ha, hrefl _⟩)
    (List.mem_filter.2 ⟨hb, by simp [Edit.replaceFile, Edit.ofTexts, hsame, hrefl]⟩)

variable (hbefore : ∀ plan ∈ plans, plan.before ≠ "")
  (hread : ∀ plan ∈ plans, store.read (.ofNames (place plan)) = .ok plan.before.toUTF8)

include hbefore hread

theorem ready_placed {group : List Edit} (hgroup : group ∈ Edit.groups (placed place plans)) :
    Edit.Ready store group := by
  intro edit hedit
  obtain ⟨plan, hplan, rfl⟩ := List.mem_map.1 (Edit.mem_of_mem_groups hgroup hedit)
  refine ⟨plan.before, hread plan hplan, fun hnone => ⟨plan.after, ?_⟩⟩
  have hlength := (overlap?_of_mem_groups hbefore hgroup).1 hnone
  obtain ⟨only, rfl⟩ := List.length_eq_one_iff.1
    (Nat.le_antisymm hlength (List.length_pos_of_mem hedit))
  rw [← List.mem_singleton.1 hedit]
  exact Edit.replaces_replaceFile _ _ _

theorem applyBatch_placed_cases (hstore : store.Plain)
    (hplace : ∀ plan ∈ plans, guard.check store plan.file = .ok (place plan))
    (hspelled : plans.Pairwise fun a b => a.file.same b.file = false) :
    (¬ Respelled guard store plans ∧
        ∃ outcomes, (Edit.applyBatch store (placed place plans)).1 = .ok outcomes) ∨
      Respelled guard store plans ∧
        ∃ file start, (Edit.applyBatch store (placed place plans)).1 =
          .error (.overlap file start) := by
  by_cases hmeet : Respelled guard store plans
  · refine .inr ⟨hmeet, ?_⟩
    obtain ⟨a, ha, b, hb, hdiffer, hcheck⟩ := hmeet
    rw [hplace a ha, hplace b hb] at hcheck
    obtain ⟨group, hgroup, hlength⟩ := exists_group_of_place ha hb hdiffer (Except.ok.inj hcheck)
    rcases Edit.applyGroups_of_ready hstore.rooted (oneName_placed hstore hplace).apart
      (fun g hg => ready_placed hbefore hread hg) with ⟨hnone, -⟩ | ⟨-, hover⟩
    · have hle := (overlap?_of_mem_groups hbefore hgroup).1 (hnone group hgroup)
      omega
    · exact hover
  · exact .inl ⟨hmeet, applyBatch_placed hstore hplace ((pairwise_check_iff hspelled).2 hmeet) hread⟩

end Placed

end Workspace

/-- Files that are as they were are written, unless one was found under two spellings. -/
theorem Workspace.write_overlaps_iff_respelled [Digest] {store : FileStore}
    (hstore : store.Plain) {w : Workspace} {root : Place}
    (hroot : store.canonical w.root = .ok root) (grammar : Grammar) {guard : Guard}
    (hguard : guard = { root, forbidden := w.settings.exclude })
    {paths : List PathName} (hcovers : ∀ path ∈ paths, w.Covers store root path)
    (hbase : ∀ path ∈ paths, path.isAbsolute = true ∨ root = store.here)
    {plans : List FilePlan}
    (hplans : plans = (Command.plansFor w grammar store (w.discover store paths)).1) :
    (∀ plan ∈ plans, ∃ place, store.canonical plan.file = .ok place ∧
      guard.check store plan.file = .ok place) ∧
    ((plans.Pairwise fun a b => guard.check store a.file ≠ guard.check store b.file) ↔
      ¬ Respelled guard store plans) ∧
    ((∀ plan ∈ plans, ∀ place, guard.check store plan.file = .ok place →
        store.read (.ofNames place) = .ok plan.before.toUTF8) →
      ((∃ file start, (w.write store plans).1 = .error (.edit (.overlap file start))) ↔
        Respelled guard store plans) ∧
      ((∃ outcomes, (w.write store plans).1 = .ok outcomes) ↔ ¬ Respelled guard store plans)) ∧
    ((∃ front, ∀ path ∈ paths, ∃ names : List String, path.parts = front ++ names.map .name) →
      ¬ Respelled guard store plans) := by
  subst hguard
  have hfiles : (plans.map FilePlan.file).Sublist (w.discover store paths) := by
    rw [hplans]
    exact Command.files_plansFor_sublist
  have hfound : ∀ plan ∈ plans, plan.file ∈ w.discover store paths :=
    fun plan hplan => hfiles.subset (List.mem_map_of_mem hplan)
  have hspelled : plans.Pairwise fun a b => a.file.same b.file = false := by
    have hsorted := (discover_pairwise paths).sublist hfiles
    rw [List.pairwise_map] at hsorted
    refine hsorted.imp fun {a b} hlt => ?_
    rw [Bool.eq_false_iff, Ne, ← PathName.compare_eq_eq_iff, hlt]
    exact nofun
  have haccepted := fun plan hplan =>
    check_of_mem_discover hstore hcovers hbase (hfound plan hplan)
  refine ⟨?_, pairwise_check_iff hspelled, ?_, ?_⟩
  · intro plan hplan
    obtain ⟨path, hpath, names, place, -, hplace, hcheck⟩ := haccepted plan hplan
    exact ⟨place, hplace, hcheck⟩
  · intro hunchanged
    have hbefore : ∀ plan ∈ plans, plan.before ≠ "" := by
      intro plan hplan
      rw [hplans] at hplan
      obtain ⟨l, a, ha⟩ := Command.exists_plan_of_mem hplan
      exact before_ne_of_plan ha
    rcases guardedEdits_cases { root, forbidden := w.settings.exclude } store plans with
      ⟨first, hfirst, e, he, -⟩ | ⟨place, hplace, hedits⟩
    · obtain ⟨-, -, -, place, -, -, hcheck⟩ := haccepted first hfirst
      rw [hcheck] at he
      cases he
    · rw [write_of_ok hroot hedits]
      rcases applyBatch_placed_cases hbefore
        (fun plan hplan => hunchanged plan hplan _ (hplace plan hplan)) hstore hplace hspelled with
        ⟨hnone, outcomes, hok⟩ | ⟨hmeet, file, start, herror⟩
      · simp [hok, hnone, Except.mapError]
      · simp [herror, hmeet, Except.mapError]
  · rintro ⟨front, hfront⟩ ⟨a, ha, b, hb, hdiffer, hcheck⟩
    obtain ⟨path, hpath, names, place, hparts, hplace, haccept⟩ := haccepted a ha
    obtain ⟨path', hpath', names', place', hparts', hplace', haccept'⟩ := haccepted b hb
    obtain ⟨more, hmore⟩ := hfront path hpath
    obtain ⟨more', hmore'⟩ := hfront path' hpath'
    rw [haccept, haccept'] at hcheck
    cases hcheck
    rw [hmore, List.append_assoc, ← List.map_append] at hparts
    rw [hmore', List.append_assoc, ← List.map_append] at hparts'
    have hsame := hstore.parts_eq_of_canonical hplace hplace' hparts hparts'
    simp [PathName.same, hsame] at hdiffer

namespace Sample

def loneGrammar : Grammar :=
  fun text => some (if text = loneText then lone else leaf "compilation_unit" 0 0)

def lodging (names : List String) : FileStore :=
  { entries := names.map fun name => ([name], .file loneText.toUTF8), here := [] }

def lodge : FileStore := lodging ["a.cs"]

def lodges : FileStore := lodging ["a.cs", "b.cs"]

def lodger : Workspace := { root := { text := "/" }, settings := {} }

def lodgeGuard : Guard := { root := [], forbidden := lodger.settings.exclude }

theorem plain_lodge : lodge.Plain := by
  constructor <;> decide

theorem covers_directory : lodger.Covers lodge [] { text := "." } :=
  @Workspace.Covers.directory _ _ _ _ [] (by decide +kernel) rfl (by simp)

theorem plain_lodges : lodges.Plain := by
  constructor <;> decide

theorem covers_lodges : lodger.Covers lodges [] { text := "." } :=
  @Workspace.Covers.directory _ _ _ _ [] (by decide +kernel) rfl (by simp)

theorem covers_second : lodger.Covers lodges [] { text := "./b.cs" } :=
  @Workspace.Covers.file _ _ _ _ ["b.cs"] loneText.toUTF8 (by decide +kernel) rfl (by simp)

theorem covers_file : lodger.Covers lodge [] { text := "a.cs" } :=
  @Workspace.Covers.file _ _ _ _ ["a.cs"] loneText.toUTF8 (by decide +kernel) rfl (by simp)

theorem sources_lodging {names : List String} (hstore : (lodging names).Plain)
    (hplace : (lodging names).resolve { text := "." } = .ok [])
    (hinside : (lodging names).inside [] = names.map fun name => (name, .file loneText.toUTF8))
    (hnames : ∀ name ∈ names, lodger.isSourceName name = true ∧
      PathName.join { text := "." } { text := name } = { text := "./" ++ name }) :
    lodger.sources (lodging names) { text := "." } =
      names.map fun name => { text := "./" ++ name } := by
  rw [Workspace.sources_of_directory hstore hplace rfl, Workspace.sourcesBelow_eq, hinside]
  rw [List.flatMap_map, List.map_eq_flatMap]
  refine List.flatMap_congr fun name hname => ?_
  simp [hnames name hname]

theorem discover_lodges : lodger.discover lodges [{ text := "." }, { text := "./b.cs" }] =
    [{ text := "./a.cs" }, { text := "./b.cs" }] := by
  have hfile : lodger.sources lodges { text := "./b.cs" } = [{ text := "./b.cs" }] := by
    rw [Workspace.sources, if_pos (by decide +kernel)]
  rw [Workspace.discover, List.flatMap_cons, lodges,
    sources_lodging plain_lodges (by decide +kernel) rfl (by decide +kernel), ← lodges,
    List.flatMap_cons, hfile, List.flatMap_nil, List.mergeSort_of_pairwise (by decide +kernel)]
  decide +kernel

theorem discover_twice : lodger.discover lodge [{ text := "." }, { text := "a.cs" }] =
    [{ text := "./a.cs" }, { text := "a.cs" }] := by
  have hfile : lodger.sources lodge { text := "a.cs" } = [{ text := "a.cs" }] := by
    rw [Workspace.sources, if_pos (by decide +kernel)]
  rw [Workspace.discover, List.flatMap_cons, lodge,
    sources_lodging plain_lodge (by decide +kernel) rfl (by decide +kernel), ← lodge,
    List.flatMap_cons, hfile, List.flatMap_nil, List.mergeSort_of_pairwise (by decide +kernel)]
  decide +kernel

theorem validateEdit_lone (edited : String) : validateEdit loneGrammar loneText edited = .ok () := by
  have hfaults : ∀ text c, loneGrammar text = some c → c.faults = [] := by
    intro text c hc
    have hfaulty : c.faulty = [] := by
      unfold loneGrammar at hc
      split at hc <;> cases hc <;> rfl
    rw [Concrete.faults, hfaulty, List.mergeSort_nil]
  have hedited : ∃ c, loneGrammar edited = some c := ⟨_, rfl⟩
  have hlone : loneGrammar loneText = some lone := by simp [loneGrammar]
  obtain ⟨c, hc⟩ := hedited
  simp [validateEdit, hlone, hc, hfaults _ _ hc, Validation.unaccounted]

def analysisOf (root : Element) (file : PathName) : Analysis where
  file := file
  tree := { root, file }
  diagnostics := Tree.detect { root, file } Scope.oracle lodger.settings.severity

def found (l : Label) (file : PathName) : Bool :=
  (lone.build? l loneText).any fun root => root.sound && root.kind ≠ .ifStatement &&
    root.all Element.ifLed && Tree.flagged { root, file } Scope.oracle ≠ []

theorem exists_plan_lone {store : FileStore} {l : Label} (m : Label) {file : PathName}
    (hread : store.readText file = .ok loneText) (hlone : found l file = true) :
    ∃ a plan, lodger.analyze loneGrammar l store file = .ok a ∧
      lodger.plan loneGrammar m a = .ok (some plan) ∧ plan.file = file ∧ plan.before = loneText := by
  unfold found at hlone
  cases hbuild : lone.build? l loneText with
  | none =>
    rw [hbuild] at hlone
    cases hlone
  | some root =>
    rw [hbuild] at hlone
    simp only [Option.any_some, Bool.and_eq_true, decide_eq_true_eq] at hlone
    obtain ⟨⟨⟨hsound, hkind⟩, hled⟩, hflagged⟩ := hlone
    have htree : Tree.read loneGrammar l store file = .ok { root, file } := by
      simp [Tree.read, hread, Tree.parse?, loneGrammar, hbuild]
    have hsource : (analysisOf root file).tree.source = loneText := by
      obtain ⟨other, -, -, hother, htext, -⟩ := Concrete.build?_lossless l loneText lone (by decide)
      rw [hbuild] at hother
      cases hother
      exact htext
    have hfound : (analysisOf root file).diagnostics ≠ [] := by
      simpa [analysisOf, Tree.detect] using hflagged
    obtain ⟨out, hout⟩ : ∃ out, (analysisOf root file).tree.fixAll (m.sub 0)
        (analysisOf root file).diagnostics = .ok out := by
      obtain ⟨out, -, hout, -⟩ := @Tree.fixAll_picked { root, file } Scope.oracle _ (m.sub 0)
        (.ofText (Tree.source { root, file })) lodger.settings.severity hsound hkind hled
        fun _ hcheck => hcheck
      exact ⟨out, hout⟩
    have hanalyze : lodger.analyze loneGrammar l store file = .ok (analysisOf root file) := by
      rw [Workspace.analyze, htree]
      rfl
    refine ⟨analysisOf root file, ?_⟩
    rw [Workspace.plan, if_neg hfound, hout]
    simp only [hsource, validateEdit_lone]
    exact ⟨_, hanalyze, rfl, rfl, rfl⟩

theorem exists_plansFor {store : FileStore} {p q : PathName}
    (hp : store.readText p = .ok loneText) (hq : store.readText q = .ok loneText)
    (hfoundp : found [0, 0] p = true) (hfoundq : found [1, 0] q = true) :
    ∃ a b, (Command.plansFor lodger loneGrammar store [p, q]).1 = [a, b] ∧
      (a.file = p ∧ a.before = loneText) ∧ b.file = q ∧ b.before = loneText := by
  obtain ⟨a, plan, ha, hplan, hfile⟩ := exists_plan_lone [0, 1] hp hfoundp
  obtain ⟨a', plan', ha', hplan', hfile'⟩ := exists_plan_lone [1, 1] hq hfoundq
  refine ⟨plan, plan', ?_, hfile, hfile'⟩
  simp [Command.plansFor, Workspace.analyzeAll, Label.sub, ha, ha', Command.successes,
    Except.toOption, hplan, hplan']

end Sample

theorem Sample.write_overlaps_iff_respelled_pair :
    Sample.lodges.Plain ∧ Sample.lodges.canonical Sample.lodger.root = .ok [] ∧
      Sample.lodger.Covers Sample.lodges [] { text := "." } ∧
      Sample.lodger.Covers Sample.lodges [] { text := "./b.cs" } ∧
      ∃ a b, (Command.plansFor Sample.lodger Sample.loneGrammar Sample.lodges
          (Sample.lodger.discover Sample.lodges [{ text := "." }, { text := "./b.cs" }])).1 =
            [a, b] ∧
        (a.file = { text := "./a.cs" } ∧ b.file = { text := "./b.cs" }) ∧
        ∃ outcomes, (Sample.lodger.write Sample.lodges [a, b]).1 = .ok outcomes := by
  have hroot : Sample.lodges.canonical Sample.lodger.root = .ok [] := by decide +kernel
  have hcovers : ∀ path ∈ [{ text := "." }, { text := "./b.cs" }],
      Sample.lodger.Covers Sample.lodges [] path :=
    List.forall_mem_cons.2 ⟨Sample.covers_lodges, List.forall_mem_singleton.2 Sample.covers_second⟩
  obtain ⟨a, b, hplans, ⟨hfirst, htext⟩, hsecond, htext'⟩ := Sample.exists_plansFor
    (by decide +kernel : Sample.lodges.readText { text := "./a.cs" } = _)
    (by decide +kernel : Sample.lodges.readText { text := "./b.cs" } = _) (by decide +kernel)
    (by decide +kernel)
  rw [← Sample.discover_lodges] at hplans
  obtain ⟨-, -, hwrite, hfront⟩ := Workspace.write_overlaps_iff_respelled Sample.plain_lodges hroot
    Sample.loneGrammar (rfl : Sample.lodgeGuard = _) hcovers (fun _ _ => .inr rfl) hplans.symm
  refine ⟨Sample.plain_lodges, hroot, Sample.covers_lodges, Sample.covers_second, a, b, hplans,
    ⟨hfirst, hsecond⟩, ?_⟩
  have hnames : ∀ path ∈ [{ text := "." }, { text := "./b.cs" }], ∃ names : List String,
      PathName.parts path = [.here] ++ names.map .name :=
    List.forall_mem_cons.2 ⟨⟨[], by decide +kernel⟩,
      List.forall_mem_singleton.2 ⟨["b.cs"], by decide +kernel⟩⟩
  refine (hwrite (List.forall_mem_cons.2 ⟨?_, List.forall_mem_singleton.2 ?_⟩)).2.2
    (hfront ⟨_, hnames⟩)
  · intro place hplace
    have hcheck : Sample.lodgeGuard.check Sample.lodges { text := "./a.cs" } = .ok ["a.cs"] := by
      decide +kernel
    rw [hfirst, hcheck] at hplace
    cases hplace
    rw [htext]
    decide +kernel
  · intro place hplace
    have hcheck : Sample.lodgeGuard.check Sample.lodges { text := "./b.cs" } = .ok ["b.cs"] := by
      decide +kernel
    rw [hsecond, hcheck] at hplace
    cases hplace
    rw [htext']
    decide +kernel

/-- A directory and a file in it give two plans for the file, which then overlap. -/
theorem Sample.write_overlaps_twice :
    Sample.lodge.Plain ∧ Sample.lodge.canonical Sample.lodger.root = .ok [] ∧
      Sample.lodger.Covers Sample.lodge [] { text := "." } ∧
      Sample.lodger.Covers Sample.lodge [] { text := "a.cs" } ∧
      ∃ a b, (Command.plansFor Sample.lodger Sample.loneGrammar Sample.lodge
          (Sample.lodger.discover Sample.lodge [{ text := "." }, { text := "a.cs" }])).1 = [a, b] ∧
        (∀ plan ∈ [a, b], Sample.lodgeGuard.check Sample.lodge plan.file = .ok ["a.cs"] ∧
          Sample.lodge.read (.ofNames ["a.cs"]) = .ok plan.before.toUTF8) ∧
        ∃ file start,
          (Sample.lodger.write Sample.lodge [a, b]).1 = .error (.edit (.overlap file start)) := by
  have hroot : Sample.lodge.canonical Sample.lodger.root = .ok [] := by decide +kernel
  obtain ⟨a, b, hplans, ⟨hfirst, htext⟩, hsecond, htext'⟩ := Sample.exists_plansFor
    (by decide +kernel : Sample.lodge.readText { text := "./a.cs" } = _)
    (by decide +kernel : Sample.lodge.readText { text := "a.cs" } = _) (by decide +kernel)
    (by decide +kernel)
  rw [← Sample.discover_twice] at hplans
  have hcheck : ∀ plan ∈ [a, b],
      Sample.lodgeGuard.check Sample.lodge plan.file = .ok ["a.cs"] := by
    simp only [List.forall_mem_cons, hfirst, hsecond, List.not_mem_nil, false_imp_iff,
      implies_true, and_true]
    exact ⟨by decide +kernel, by decide +kernel⟩
  have hread : ∀ plan ∈ [a, b],
      Sample.lodge.read (.ofNames ["a.cs"]) = .ok plan.before.toUTF8 := by
    simp only [List.forall_mem_cons, htext, htext', List.not_mem_nil, false_imp_iff,
      implies_true, and_true, and_self]
    decide +kernel
  have hdiffer : a.file.same b.file = false := by
    rw [hfirst, hsecond]
    decide +kernel
  have hbefore : ∀ plan ∈ [a, b], plan.before ≠ "" := by
    simp [htext, htext', Sample.loneText]
  refine ⟨Sample.plain_lodge, hroot, Sample.covers_directory, Sample.covers_file, a, b, hplans,
    fun plan hplan => ⟨hcheck plan hplan, hread plan hplan⟩, ?_⟩
  rcases Workspace.applyBatch_placed_cases hbefore hread Sample.plain_lodge hcheck
    (List.pairwise_pair.2 hdiffer) with ⟨hnone, -⟩ | ⟨-, file, start, herror⟩
  · refine absurd ⟨a, by simp, b, by simp, hdiffer, ?_⟩ hnone
    rw [hcheck a (by simp), hcheck b (by simp)]
  · refine ⟨file, start, ?_⟩
    have hedits := Workspace.guardedEdits_of_check hcheck
    rw [Sample.lodgeGuard] at hedits
    rw [Workspace.write_of_ok hroot hedits]
    simp only [herror, Except.mapError]

end CancellationLint
