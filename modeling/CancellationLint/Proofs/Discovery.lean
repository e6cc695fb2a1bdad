import CancellationLint.Proofs.Groups
import CancellationLint.Proofs.PlainStore
import CancellationLint.Workspace

/-! # Finding source files

Searching a directory enters every directory that is not excluded. So it finds the files that the
guard allows, as far as they have one of the extensions. -/

namespace CancellationLint

/-! ## Sorted and each once -/

namespace PathName

theorem compareParts_antisymm (as bs : List Part) (h : compareParts as bs ≠ .gt)
    (h' : compareParts bs as ≠ .gt) : as = bs := by
  rw [compareParts_eq, Ne, Ordering.ne_gt_iff_isLE] at h h'
  exact Std.LawfulEqCmp.compare_eq_iff_eq.1 (Std.OrientedCmp.isLE_antisymm h h')

theorem compare_ne_gt_trans {a b c : PathName} (hab : a.compare b ≠ .gt) (hbc : b.compare c ≠ .gt) :
    a.compare c ≠ .gt := by
  rw [Ne, Ordering.ne_gt_iff_isLE] at *
  exact Std.TransCmp.isLE_trans hab hbc

theorem compare_ne_gt_total (a b : PathName) : a.compare b ≠ .gt ∨ b.compare a ≠ .gt := by
  by_cases hgt : a.compare b = .gt
  · right
    rw [Std.OrientedCmp.gt_iff_lt.1 hgt]
    exact nofun
  · exact .inl hgt

end PathName

namespace Workspace

variable {w : Workspace} {store : FileStore}

theorem discover_pairwise (paths : List PathName) :
    (w.discover store paths).Pairwise fun a b => a.compare b = .lt := by
  have hsorted : ((paths.flatMap (w.sources store)).mergeSort fun a b => a.compare b ≠ .gt).Pairwise
      fun a b => PathName.compareParts a.parts b.parts ≠ .gt := by
    refine (@List.pairwise_mergeSort _ (fun a b : PathName => decide (a.compare b ≠ .gt)) ?_ ?_
      _).imp of_decide_eq_true
    · intro a b c
      simpa only [decide_eq_true_eq] using PathName.compare_ne_gt_trans
    · intro a b
      simpa only [Bool.or_eq_true, decide_eq_true_eq] using PathName.compare_ne_gt_total a b
  refine (dropRuns_pairwise PathName.parts PathName.compareParts_antisymm hsorted).imp ?_
  rintro a b ⟨hle, hne⟩
  cases hcompare : a.compare b with
  | lt => rfl
  | gt => exact absurd hcompare hle
  | eq => exact absurd (of_decide_eq_true (PathName.compare_eq_eq_iff.1 hcompare)) hne

theorem mem_sources_of_mem_discover {paths : List PathName} {q : PathName}
    (h : q ∈ w.discover store paths) : ∃ path ∈ paths, q ∈ w.sources store path :=
  List.mem_flatMap.1 (List.mem_mergeSort.1 ((dropRuns_sublist PathName.parts _).subset h))

theorem exists_mem_discover {paths : List PathName} {path q : PathName} (hpath : path ∈ paths)
    (h : q ∈ w.sources store path) : ∃ p ∈ w.discover store paths, p.parts = q.parts :=
  exists_mem_dropRuns PathName.parts
    (List.mem_mergeSort.2 (List.mem_flatMap.2 ⟨path, hpath, h⟩))

/-! ## Below a directory -/

/-- A file below a directory, by the names on the way to it, that is searched for. -/
structure Finds (w : Workspace) (store : FileStore) (place way : Place) : Prop where
  file : ∃ content, store.at? (place ++ way) = some (.file content)
  allowed : ∀ directory ∈ way.dropLast, directory ∉ w.settings.exclude
  source : ∃ name, way.getLast? = some name ∧ w.isSourceName name = true

theorem Finds.ne_nil {place way : Place} (h : w.Finds store place way) : way ≠ [] := by
  rintro rfl
  obtain ⟨name, hname, -⟩ := h.source
  cases hname

theorem finds_cons_iff {place way : Place} {name : String} (hway : way ≠ []) :
    w.Finds store place (name :: way) ↔
      name ∉ w.settings.exclude ∧ w.Finds store (place ++ [name]) way := by
  have hlast : (name :: way).getLast? = way.getLast? := by
    obtain ⟨next, others, rfl⟩ := List.exists_cons_of_ne_nil hway
    exact List.getLast?_cons_cons
  constructor
  · rintro ⟨hfile, hallowed, hsource⟩
    rw [List.dropLast_cons_of_ne_nil hway, List.forall_mem_cons] at hallowed
    rw [List.append_cons] at hfile
    rw [hlast] at hsource
    exact ⟨hallowed.1, hfile, hallowed.2, hsource⟩
  · rintro ⟨hname, hfile, hallowed, hsource⟩
    rw [← List.append_cons] at hfile
    rw [← hlast] at hsource
    refine ⟨hfile, ?_, hsource⟩
    rw [List.dropLast_cons_of_ne_nil hway, List.forall_mem_cons]
    exact ⟨hname, hallowed⟩

theorem sourcesBelow_eq (directory : PathName) (place : Place) :
    w.sourcesBelow store directory place = (store.inside place).flatMap fun inner =>
      match inner.2 with
      | .directory =>
        if w.settings.exclude.contains inner.1 then []
        else w.sourcesBelow store (directory.join { text := inner.1 }) (place ++ [inner.1])
      | _ =>
        if w.isSourceName inner.1 then [directory.join { text := inner.1 }] else [] := by
  rw [sourcesBelow]
  conv_rhs => rw [← List.attach_map_subtype_val (store.inside place)]
  refine Eq.trans ?_ (List.flatMap_map _ _ _).symm
  rfl

theorem mem_sourcesBelow_iff (h : store.Plain) {directory q : PathName} {place : Place} :
    q ∈ w.sourcesBelow store directory place ↔
      ∃ way, w.Finds store place way ∧ q = directory.below way := by
  induction directory, place using sourcesBelow.induct store with
  | case1 directory place ih =>
    rw [sourcesBelow_eq, List.mem_flatMap]
    constructor
    · rintro ⟨⟨name, entry⟩, hinner, hq⟩
      have hat := h.at?_of_mem (FileStore.mem_inside_iff.1 hinner) (by simp)
      cases entry with
      | link target => exact absurd hat (h.at?_ne_link _ _)
      | file content =>
        simp only [List.mem_ite_nil_right, List.mem_singleton] at hq
        exact ⟨[name], ⟨⟨content, hat⟩, by simp, name, rfl, hq.1⟩, hq.2⟩
      | directory =>
        simp only [List.mem_ite_nil_left, List.contains_eq_mem, decide_eq_true_eq] at hq
        obtain ⟨way, hfinds, rfl⟩ := (ih ⟨(name, .directory), hinner⟩).1 hq.2
        exact ⟨name :: way, (finds_cons_iff hfinds.ne_nil).2 ⟨hq.1, hfinds⟩, rfl⟩
    · rintro ⟨way, hfinds, rfl⟩
      cases way with
      | nil => exact absurd rfl hfinds.ne_nil
      | cons name way =>
        by_cases hway : way = []
        · subst hway
          obtain ⟨content, hat⟩ := hfinds.file
          obtain ⟨last, hlast, hsource⟩ := hfinds.source
          obtain rfl : name = last := by simpa using hlast
          have hinner := FileStore.mem_inside_iff.2 (FileStore.mem_of_at? hat (by simp))
          refine ⟨(name, .file content), hinner, ?_⟩
          simp [hsource, PathName.below]
        · obtain ⟨hname, hrest⟩ := (finds_cons_iff hway).1 hfinds
          obtain ⟨content, hat⟩ := hfinds.file
          rw [List.append_cons] at hat
          have hdir := FileStore.at?_of_append h.rooted hat hway
          have hinner := FileStore.mem_inside_iff.2 (FileStore.mem_of_at? hdir (by simp))
          refine ⟨(name, .directory), hinner, ?_⟩
          simp only [List.mem_ite_nil_left, List.contains_eq_mem, decide_eq_true_eq]
          exact ⟨hname, (ih ⟨(name, .directory), hinner⟩).2 ⟨way, hrest, rfl⟩⟩

/-! ## The files of a path -/

theorem isFile_iff {path : PathName} : store.isFile path = true ↔
    ∃ place content, store.resolve path = .ok place ∧ store.at? place = some (.file content) := by
  unfold FileStore.isFile
  cases hplace : store.resolve path with
  | error e => simp
  | ok place =>
    simp only [Except.ok.injEq]
    split <;> simp_all

theorem sources_of_directory (h : store.Plain) {path : PathName} {place : Place}
    (hplace : store.resolve path = .ok place) (hdir : store.at? place = some .directory) :
    w.sources store path = w.sourcesBelow store path place := by
  have hfile : store.isFile path = false := by
    rw [Bool.eq_false_iff, Ne, isFile_iff]
    rintro ⟨found, content, hfound, hat⟩
    rw [hplace] at hfound
    cases hfound
    rw [hdir] at hat
    cases hat
  unfold sources
  rw [hfile, hplace]
  simp only [Bool.false_eq_true, if_false]
  split
  · rename_i target hlink
    cases hlocate : store.locate path with
    | error e =>
      rw [hlocate] at hlink
      cases hlink
    | ok found =>
      rw [hlocate] at hlink
      exact absurd (Except.ok.inj hlink) (h.at?_ne_link _ _)
  · simp

theorem extension?_below {base : PathName} {way : Place} {name : String}
    (hnames : ∀ n ∈ way, PathName.isName n = true) (hlast : way.getLast? = some name) :
    (base.below way).extension? = (PathName.extensionOf? name.toList).map String.ofList := by
  have hparts : (base.below way).parts.getLast? = some (.name name) := by
    rw [PathName.parts_below hnames, List.getLast?_append, List.getLast?_map, hlast]
    rfl
  rw [PathName.extension?, hparts]

theorem finds_iff_check (h : store.Plain) {root way : Place} (base : PathName)
    (hroot : store.at? root = some .directory) :
    w.Finds store root way ↔
      (∃ content, store.at? (root ++ way) = some (.file content)) ∧
        (∃ extension, (base.below way).extension? = some extension ∧
          ∃ known ∈ w.settings.extensions,
            known.toList.map Char.toLower = extension.toList.map Char.toLower) ∧
        Guard.check { root, forbidden := w.settings.exclude } store (.ofNames (root ++ way)) =
          .ok (root ++ way) := by
  have hcheck : ∀ {content}, store.at? (root ++ way) = some (.file content) →
      (Guard.check { root, forbidden := w.settings.exclude } store (.ofNames (root ++ way)) =
        .ok (root ++ way) ↔ ∀ directory ∈ way.dropLast, directory ∉ w.settings.exclude) := by
    intro content hat
    rw [Guard.check_eq_checkPlace h (.inl (PathName.isAbsolute_ofNames _)) (h.canonical_ofNames hat),
      Guard.checkPlace_eq_ok_iff]
    simp
  have hsource : ∀ {content}, store.at? (root ++ way) = some (.file content) →
      ((∃ name, way.getLast? = some name ∧ w.isSourceName name = true) ↔
        ∃ extension, (base.below way).extension? = some extension ∧
          ∃ known ∈ w.settings.extensions,
            known.toList.map Char.toLower = extension.toList.map Char.toLower) := by
    intro content hat
    have hway : way ≠ [] := by
      rintro rfl
      rw [List.append_nil, hroot] at hat
      cases hat
    obtain ⟨name, hname⟩ := Option.ne_none_iff_exists'.1 (mt List.getLast?_eq_none_iff.1 hway)
    rw [extension?_below (fun n hn => h.isName_of_at? hat n (by simp [hn])) hname, hname]
    simp only [Option.some.injEq, exists_eq_left']
    unfold isSourceName
    cases PathName.extensionOf? name.toList <;> simp [Settings.isSourceExtension]
  constructor
  · rintro ⟨⟨content, hat⟩, hallowed, hname⟩
    exact ⟨⟨content, hat⟩, (hsource hat).1 hname, (hcheck hat).2 hallowed⟩
  · rintro ⟨⟨content, hat⟩, hext, hok⟩
    exact ⟨⟨content, hat⟩, (hcheck hat).1 hok, (hsource hat).2 hext⟩

theorem Finds.isName {root way : Place} (h : w.Finds store root way) (hstore : store.Plain) :
    ∀ name ∈ way, PathName.isName name = true := by
  obtain ⟨content, hat⟩ := h.file
  exact fun name hname => hstore.isName_of_at? hat name (List.mem_append_right _ hname)

theorem mem_discover_root_iff (hstore : store.Plain) {root : Place}
    (hroot : store.resolve w.root = .ok root) (hdir : store.at? root = some .directory)
    {q : PathName} :
    q ∈ w.discover store [w.root] ↔ ∃ way, w.Finds store root way ∧ q = w.root.below way := by
  have hsources : ∀ q, q ∈ w.sources store w.root ↔
      ∃ way, w.Finds store root way ∧ q = w.root.below way := fun q => by
    rw [sources_of_directory hstore hroot hdir, mem_sourcesBelow_iff hstore]
  have hfound : ∀ {q}, q ∈ w.discover store [w.root] →
      ∃ way, w.Finds store root way ∧ q = w.root.below way := fun hq => by
    obtain ⟨path, hpath, hsource⟩ := mem_sources_of_mem_discover hq
    obtain rfl := List.mem_singleton.1 hpath
    exact (hsources _).1 hsource
  refine ⟨hfound, ?_⟩
  rintro ⟨way, hfinds, rfl⟩
  obtain ⟨p, hp, hparts⟩ := exists_mem_discover (List.mem_singleton.2 rfl)
    ((hsources _).2 ⟨way, hfinds, rfl⟩)
  -- What is kept has the same parts, so it is written in the same way.
  obtain ⟨other, hother, rfl⟩ := hfound hp
  rw [PathName.parts_below (hother.isName hstore), PathName.parts_below (hfinds.isName hstore),
    List.append_cancel_left_eq, PathName.map_name_inj] at hparts
  rwa [hparts] at hp

/-! ## Workspaces seen from elsewhere -/

section Relative

variable {root way : Place} (hstore : store.Plain)
  (hroot : store.canonical w.root = .ok root) (hdir : store.at? root = some .directory)
  (hrelative : w.root.isAbsolute = false)
  (hway : ∀ name ∈ way, PathName.isName name = true)

include hstore hroot hdir hrelative hway

theorem canonical_join_below {place : Place} :
    store.canonical ((PathName.ofNames root).join (w.root.below way)) = .ok place ↔
      ∃ again, store.canonical ((PathName.ofNames root).join w.root) = .ok again ∧
        place = again ++ way ∧ ∃ entry, store.at? place = some entry := by
  rw [PathName.join_below _ hrelative hway]
  refine hstore.canonical_below_iff (fun hnul => ?_) ?_ hway
  · rcases PathName.mem_text_join hnul with hslash | hin | hin
    · exact absurd hslash (by decide)
    · exact (FileStore.canonical_eq_ok_iff.1 (hstore.canonical_ofNames hdir)).1 hin
    · exact (FileStore.canonical_eq_ok_iff.1 hroot).1 hin
  · exact PathName.text_join_ne (PathName.text_ofNames_ne root) hrelative

theorem check_below_eq_ok_iff {forbidden : List String} {place : Place} :
    Guard.check { root, forbidden } store (w.root.below way) = .ok place ↔
      ∃ again, store.canonical ((PathName.ofNames root).join w.root) = .ok again ∧
        place = again ++ way ∧
        Guard.check { root, forbidden } store (.ofNames place) = .ok place := by
  rw [Guard.check_eq_ok_iff, canonical_join_below hstore hroot hdir hrelative hway]
  constructor
  · rintro ⟨⟨again, hagain, rfl, entry, hat⟩, hallowed⟩
    refine ⟨again, hagain, rfl, ?_⟩
    rw [Guard.check_eq_checkPlace hstore (.inl (PathName.isAbsolute_ofNames _))
      (hstore.canonical_ofNames hat)]
    exact hallowed
  · rintro ⟨again, hagain, rfl, hcheck⟩
    obtain ⟨hplace, hallowed⟩ := Guard.check_eq_ok_iff.1 hcheck
    exact ⟨⟨again, hagain, rfl, FileStore.exists_at_of_canonical hstore.rooted hplace⟩, hallowed⟩

end Relative

/-- A relative root without steps up leads down from the working directory. -/
theorem exists_names_of_relative (hstore : store.Plain) {root : Place}
    (hroot : store.canonical w.root = .ok root) (hrelative : w.root.isAbsolute = false)
    (hup : .up ∉ w.root.parts) :
    ∃ names : List String, w.root.steps.filter FileStore.moves = names.map .name ∧
      root = store.here ++ names := by
  obtain ⟨names, hnames⟩ : ∃ names : List String,
      w.root.parts.filter FileStore.moves = names.map .name := by
    generalize w.root.parts = parts at hup
    induction parts with
    | nil => exact ⟨[], rfl⟩
    | cons part parts ih =>
      obtain ⟨hpart, hparts⟩ := not_or.1 (mt List.mem_cons.2 hup)
      obtain ⟨names, hnames⟩ := ih hparts
      cases part with
      | root => exact ⟨names, hnames⟩
      | here => exact ⟨names, hnames⟩
      | up => exact absurd rfl hpart
      | name text => exact ⟨text :: names, by rw [List.filter_cons_of_pos rfl, hnames]; rfl⟩
  rw [PathName.filter_moves_parts] at hnames
  refine ⟨names, hnames, ?_⟩
  have hlead := hstore.leads_filter (FileStore.canonical_eq_ok_iff.1 hroot).2.2
  rw [hnames, FileStore.start, hrelative] at hlead
  exact hstore.eq_of_leads_names hlead

theorem eq_of_canonical_join (hstore : store.Plain) {root again : Place} {names : List String}
    (hdir : store.at? root = some .directory) (hrelative : w.root.isAbsolute = false)
    (hnames : w.root.steps.filter FileStore.moves = names.map .name)
    (hagain : store.canonical ((PathName.ofNames root).join w.root) = .ok again) :
    again = root ++ names := by
  have hofNames : (PathName.ofNames root).steps.filter FileStore.moves = root.map .name := by
    rw [← PathName.filter_moves_parts, PathName.parts_ofNames (hstore.isName_of_at? hdir)]
    exact FileStore.filter_moves_names root
  have hlead := hstore.leads_filter (FileStore.canonical_eq_ok_iff.1 hagain).2.2
  have hsteps : ((PathName.ofNames root).join w.root).steps.filter FileStore.moves =
      (root ++ names).map .name := by
    rw [List.map_append, ← hofNames, ← hnames]
    rcases PathName.steps_join (PathName.text_ofNames_ne root) hrelative with hjoin | ⟨front, h, hjoin⟩
    · rw [hjoin, List.filter_append]
    · rw [hjoin, h, List.filter_append, List.filter_append]
      simp [FileStore.moves]
  rw [hsteps, FileStore.start, PathName.isAbsolute_join hrelative, PathName.isAbsolute_ofNames]
    at hlead
  exact (hstore.eq_of_leads_names hlead).trans (List.nil_append _)

theorem exists_unresolved_of_finds (hstore : store.Plain) {root way : Place} {names : List String}
    {forbidden : List String} (hroot : store.canonical w.root = .ok root)
    (hdir : store.at? root = some .directory) (hrelative : w.root.isAbsolute = false)
    (hnames : w.root.steps.filter FileStore.moves = names.map .name)
    (hnone : store.at? (root ++ names) = none) (hfinds : w.Finds store root way) :
    ∃ cause, Guard.check { root, forbidden } store (w.root.below way) =
      .error (.unresolved ((PathName.ofNames root).join (w.root.below way)) cause) := by
  unfold Guard.check Guard.resolve
  cases hjoin : store.canonical ((PathName.ofNames root).join (w.root.below way)) with
  | error cause => exact ⟨cause, rfl⟩
  | ok place =>
    obtain ⟨again, hagain, rfl, entry, hat⟩ :=
      (canonical_join_below hstore hroot hdir hrelative (hfinds.isName hstore)).1 hjoin
    obtain rfl := eq_of_canonical_join hstore hdir hrelative hnames hagain
    rw [FileStore.at?_of_append hstore.rooted hat hfinds.ne_nil] at hnone
    cases hnone

end Workspace

/-- A search from the root gives the source files that the guard of the root allows. -/
theorem Workspace.discover_agrees_with_guard {store : FileStore} (hstore : store.Plain) (w : Workspace)
    {root : Place} (hroot : store.resolve w.root = .ok root)
    (hdir : store.at? root = some .directory) :
    (w.discover store [w.root]).Pairwise (fun a b => a.compare b = .lt) ∧
    (∀ q, q ∈ w.discover store [w.root] ↔ ∃ way, q = w.root.below way ∧
      (∃ content, store.at? (root ++ way) = some (.file content)) ∧
      (∃ extension, q.extension? = some extension ∧ ∃ known ∈ w.settings.extensions,
        known.toList.map Char.toLower = extension.toList.map Char.toLower) ∧
      Guard.check { root, forbidden := w.settings.exclude } store (.ofNames (root ++ way)) =
        .ok (root ++ way)) ∧
    (∀ way entry, store.at? (root ++ way) = some entry →
      store.canonical (w.root.below way) = .ok (root ++ way) ∧
      (w.root.isAbsolute = true ∨ root = store.here →
        Guard.check { root, forbidden := w.settings.exclude } store (w.root.below way) =
          Guard.check { root, forbidden := w.settings.exclude } store (.ofNames (root ++ way))) ∧
      (w.root.isAbsolute = false → ∀ place,
        Guard.check { root, forbidden := w.settings.exclude } store (w.root.below way) = .ok place ↔
          ∃ again, store.canonical ((PathName.ofNames root).join w.root) = .ok again ∧
            place = again ++ way ∧
            Guard.check { root, forbidden := w.settings.exclude } store (.ofNames place) =
              .ok place)) ∧
    (w.root.isAbsolute = false → .up ∉ w.root.parts → ∃ names, root = store.here ++ names ∧
      (names ≠ [] → store.at? (root ++ names) = none → ∀ q ∈ w.discover store [w.root],
        ∃ cause, Guard.check { root, forbidden := w.settings.exclude } store q =
          .error (.unresolved ((PathName.ofNames root).join q) cause))) := by
  have hcanonical := (FileStore.resolve_eq_ok_iff.1 hroot).1
  refine ⟨discover_pairwise [w.root], fun q => ?_, fun way entry hat => ?_,
    fun hrelative hup => ?_⟩
  · rw [mem_discover_root_iff hstore hroot hdir]
    constructor
    · rintro ⟨way, hfinds, rfl⟩
      exact ⟨way, rfl, (finds_iff_check hstore w.root hdir).1 hfinds⟩
    · rintro ⟨way, rfl, hcheck⟩
      exact ⟨way, (finds_iff_check hstore w.root hdir).2 hcheck, rfl⟩
  · have hway := hstore.canonical_below hcanonical hat
    have hname : ∀ name ∈ way, PathName.isName name = true :=
      fun name hname => hstore.isName_of_at? hat name (List.mem_append_right _ hname)
    refine ⟨hway, fun hbase => ?_, fun hrelative place => ?_⟩
    · rw [Guard.check_eq_checkPlace hstore (by rwa [PathName.isAbsolute_below hname]) hway,
        Guard.check_eq_checkPlace hstore (.inl (PathName.isAbsolute_ofNames _))
          (hstore.canonical_ofNames hat)]
    · exact check_below_eq_ok_iff hstore hcanonical hdir hrelative hname
  · obtain ⟨names, hnames, hbelow⟩ := exists_names_of_relative hstore hcanonical hrelative hup
    refine ⟨names, hbelow, fun _ hnone q hq => ?_⟩
    obtain ⟨way, hfinds, rfl⟩ := (mem_discover_root_iff hstore hroot hdir).1 hq
    exact exists_unresolved_of_finds hstore hcanonical hdir hrelative hnames hnone hfinds

namespace Sample

def shopfloor : Workspace := { root := { text := "." }, settings := {} }

def shopback : Workspace := { root := { text := "src" }, settings := {} }

end Sample

theorem Sample.discover_agrees_with_guard_shop :
    Sample.shop.Plain ∧ Sample.shop.resolve Sample.shopfloor.root = .ok ["w"] ∧
      Sample.shop.at? ["w"] = some .directory ∧
      { text := "./src/b.cs" } ∈ Sample.shopfloor.discover Sample.shop [Sample.shopfloor.root] ∧
      { text := "./obj/c.cs" } ∉ Sample.shopfloor.discover Sample.shop [Sample.shopfloor.root] ∧
      Sample.shop.resolve Sample.shopback.root = .ok ["w", "src"] ∧
      Sample.shop.at? ["w", "src"] = some .directory ∧
      { text := "src/b.cs" } ∈ Sample.shopback.discover Sample.shop [Sample.shopback.root] ∧
      ∃ cause, Guard.check { root := ["w", "src"], forbidden := Sample.shopback.settings.exclude }
        Sample.shop { text := "src/b.cs" } =
          .error (.unresolved { text := "/w/src/src/b.cs" } cause) := by
  have hroot : Sample.shop.resolve Sample.shopfloor.root = .ok ["w"] := by decide +kernel
  have hdir : Sample.shop.at? ["w"] = some .directory := rfl
  have hroot' : Sample.shop.resolve Sample.shopback.root = .ok ["w", "src"] := by decide +kernel
  have hdir' : Sample.shop.at? ["w", "src"] = some .directory := rfl
  obtain ⟨-, hmem, -⟩ :=
    Workspace.discover_agrees_with_guard Sample.plain_shop Sample.shopfloor hroot hdir
  obtain ⟨-, hmem', -, hrefused⟩ :=
    Workspace.discover_agrees_with_guard Sample.plain_shop Sample.shopback hroot' hdir'
  have hin' : { text := "src/b.cs" } ∈ Sample.shopback.discover Sample.shop [Sample.shopback.root] :=
    (hmem' _).2 ⟨["b.cs"], by decide +kernel, ⟨"cd".toUTF8, rfl⟩, ⟨"cs", by decide +kernel, "cs",
      by decide +kernel, rfl⟩, by decide +kernel⟩
  refine ⟨Sample.plain_shop, hroot, hdir, (hmem _).2 ?_, fun hin => ?_, hroot', hdir', hin', ?_⟩
  · exact ⟨["src", "b.cs"], by decide +kernel, ⟨"cd".toUTF8, rfl⟩, ⟨"cs", by decide +kernel,
      "cs", by decide +kernel, rfl⟩, by decide +kernel⟩
  · obtain ⟨way, hq, ⟨content, hat⟩, -, hcheck⟩ := (hmem _).1 hin
    have hway : way = ["obj", "c.cs"] := by
      have hparts := congrArg PathName.parts hq
      have hobj : PathName.parts { text := "./obj/c.cs" } =
          Sample.shopfloor.root.parts ++ ["obj", "c.cs"].map .name := by decide +kernel
      rw [PathName.parts_below fun n hn => Sample.plain_shop.isName_of_at? hat n (by simp [hn]),
        hobj, List.append_cancel_left_eq, PathName.map_name_inj] at hparts
      exact hparts.symm
    subst hway
    revert hcheck
    decide +kernel
  · obtain ⟨names, hnames, hnone⟩ := hrefused (by decide +kernel) (by decide +kernel)
    obtain rfl : ["src"] = names := @List.append_cancel_left _ ["w"] _ _ hnames
    obtain ⟨cause, hcause⟩ := hnone (by simp) rfl _ hin'
    have hjoin : (PathName.ofNames ["w", "src"]).join { text := "src/b.cs" } =
        { text := "/w/src/src/b.cs" } := by decide +kernel
    exact ⟨cause, by rw [hcause, hjoin]⟩

end CancellationLint
