import CancellationLint.Files.Guard
import CancellationLint.Proofs.Spelling
import Mathlib.Data.List.Induction

/-! # Stores without links

Files and directories only, each at one place and in a directory. A way to something then consists of
the names on it, with steps up and steps that stay between them, and each place can be reached under
its absolute name. -/

namespace CancellationLint

def Entry.isLink : Entry → Bool
  | .link _ => true
  | .file _ | .directory => false

namespace FileStore

def isFileName (name : String) : Bool :=
  PathName.isName name && !name.toList.contains '\x00' && decide (name.utf8ByteSize ≤ nameLimit)

/-- Plain files and directories, under names that can be written. -/
structure Plain (store : FileStore) : Prop where
  rooted : store.rooted = true
  isFileName : ∀ e ∈ store.entries, ∀ name ∈ e.1, isFileName name = true
  isLink : ∀ e ∈ store.entries, e.2.isLink = false
  nodup : (store.entries.map Prod.fst).Nodup

/-! ## What is at a place -/

theorem mem_of_at? {store : FileStore} {place : Place} {entry : Entry}
    (hat : store.at? place = some entry) (hne : place ≠ []) : (place, entry) ∈ store.entries := by
  rw [at?, if_neg hne] at hat
  obtain ⟨before, after, hsplit, -⟩ := List.lookup_eq_some_iff.1 hat
  simp [hsplit]

theorem at?_of_append {store : FileStore} (hstore : store.rooted = true) {place way : Place}
    {entry : Entry} (hat : store.at? (place ++ way) = some entry) (hway : way ≠ []) :
    store.at? place = some .directory := by
  induction way using List.reverseRecOn generalizing entry with
  | nil => exact absurd rfl hway
  | append_singleton way name ih =>
    have hparent := rooted_parent hstore hat
    rw [← List.append_assoc, List.dropLast_concat] at hparent
    by_cases hnil : way = []
    · rwa [hnil, List.append_nil] at hparent
    · exact ih hparent hnil

theorem Leads.exists_at {store : FileStore} (hstore : store.rooted = true) {n : Nat}
    {base place : Place} {steps : List PathName.Part} (h : store.Leads n base steps place)
    (hbase : store.at? base = some .directory) : ∃ entry, store.at? place = some entry := by
  induction h with
  | done => exact ⟨_, hbase⟩
  | root _ ih => exact ih hbase
  | here _ ih => exact ih hbase
  | up _ ih => exact ih (rooted_parent hstore hbase)
  | directory _ hat _ ih => exact ih hat
  | file _ hat => exact ⟨_, hat⟩
  | link _ _ _ ih => exact ih (at?_start hbase _)

theorem filter_moves_names (names : List String) :
    (names.map PathName.Part.name).filter moves = names.map .name :=
  List.filter_eq_self.2 fun part hpart => by
    obtain ⟨name, -, rfl⟩ := List.mem_map.1 hpart
    rfl

namespace Plain

variable {store : FileStore} (h : store.Plain)

include h

theorem at?_of_mem {place : Place} {entry : Entry} (hmem : (place, entry) ∈ store.entries)
    (hne : place ≠ []) : store.at? place = some entry := by
  rw [at?, if_neg hne]
  have hnodup := h.nodup
  generalize store.entries = entries at hmem hnodup
  induction entries with
  | nil => cases hmem
  | cons first rest ih =>
    rw [List.map_cons, List.nodup_cons] at hnodup
    rw [List.lookup_cons]
    rcases List.mem_cons.1 hmem with rfl | hmem
    · simp
    · have hfirst : place ≠ first.1 := fun heq =>
        hnodup.1 (heq ▸ List.mem_map_of_mem (f := Prod.fst) hmem)
      rw [beq_eq_false_iff_ne.2 hfirst]
      exact ih hmem hnodup.2

theorem at?_ne_link (place : Place) (target : PathName) : store.at? place ≠ some (.link target) := by
  intro hat
  by_cases hne : place = []
  · rw [hne] at hat
    cases hat
  · cases h.isLink _ (mem_of_at? hat hne)

theorem isFileName_of_at? {place : Place} {entry : Entry} (hat : store.at? place = some entry) :
    ∀ name ∈ place, FileStore.isFileName name = true := by
  by_cases hne : place = []
  · simp [hne]
  · exact h.isFileName _ (mem_of_at? hat hne)

theorem isName_of_at? {place : Place} {entry : Entry} (hat : store.at? place = some entry) :
    ∀ name ∈ place, PathName.isName name = true := by
  intro name hname
  have hfile := h.isFileName_of_at? hat name hname
  rw [FileStore.isFileName, Bool.and_eq_true, Bool.and_eq_true] at hfile
  exact hfile.1.1

theorem size_le_of_at? {place : Place} {entry : Entry} (hat : store.at? place = some entry)
    (name : String) (hname : name ∈ place) : ¬ name.utf8ByteSize > nameLimit := by
  have hfile := h.isFileName_of_at? hat name hname
  rw [FileStore.isFileName, Bool.and_eq_true, decide_eq_true_eq] at hfile
  omega

/-! ## Ways -/

theorem leads_append {m n : Nat} {base middle place : Place} {steps more : List PathName.Part}
    (hlead : store.Leads m base steps middle) (hdir : store.at? middle = some .directory)
    (hmore : store.Leads n middle more place) : store.Leads n base (steps ++ more) place := by
  induction hlead with
  | done => exact hmore
  | root _ ih => exact .root (ih hdir hmore)
  | here _ ih => exact .here (ih hdir hmore)
  | up _ ih => exact .up (ih hdir hmore)
  | directory hsize hat _ ih => exact .directory hsize hat (ih hdir hmore)
  | file _ hat =>
    rw [hdir] at hat
    cases hat
  | link _ hat => exact absurd hat (h.at?_ne_link _ _)

theorem leads_names (n : Nat) (base : Place) {way : Place} {entry : Entry}
    (hat : store.at? (base ++ way) = some entry) :
    store.Leads n base (way.map .name) (base ++ way) := by
  induction way generalizing base with
  | nil =>
    rw [List.append_nil]
    exact .done
  | cons name way ih =>
    have hsize := h.size_le_of_at? hat name (by simp)
    rw [List.append_cons] at hat ⊢
    have hrest := ih _ hat
    by_cases hway : way = []
    · subst hway
      rw [List.append_nil] at hat ⊢
      cases entry with
      | directory => exact .directory hsize hat .done
      | file content => exact .file hsize hat
      | link target => exact absurd hat (h.at?_ne_link _ _)
    · exact .directory hsize (at?_of_append h.rooted hat hway) hrest

theorem leads_filter {n : Nat} {base place : Place} {steps : List PathName.Part}
    (hlead : store.Leads n base steps place) : store.Leads n base (steps.filter moves) place := by
  induction hlead with
  | done => exact .done
  | root _ ih => exact ih
  | here _ ih => exact ih
  | up _ ih => exact .up ih
  | directory hsize hat _ ih => exact .directory hsize hat ih
  | file hsize hat => exact .file hsize hat
  | link _ hat => exact absurd hat (h.at?_ne_link _ _)

/-- On the way to a directory they may also be put in. -/
theorem leads_of_filter {n : Nat} {base place : Place} {steps : List PathName.Part}
    (hlead : store.Leads n base (steps.filter moves) place)
    (hdir : store.at? place = some .directory) : store.Leads n base steps place := by
  induction steps generalizing base with
  | nil => exact hlead
  | cons step rest ih =>
    cases step with
    | root => exact .root (ih hlead)
    | here => exact .here (ih hlead)
    | up =>
      cases hlead with
      | up hrest => exact .up (ih hrest)
    | name name =>
      generalize hsteps : (PathName.Part.name name :: rest).filter moves = steps at hlead
      rw [List.filter_cons_of_pos rfl] at hsteps
      cases hlead with
      | directory hsize hat hrest =>
        obtain ⟨hname, rfl⟩ := List.cons.inj hsteps
        cases hname
        exact .directory hsize hat (ih hrest)
      | file hsize hat =>
        rw [hat] at hdir
        cases hdir
      | link _ hat => exact absurd hat (h.at?_ne_link _ _)
      | done => cases hsteps
      | root => cases hsteps
      | here => cases hsteps
      | up => cases hsteps

theorem eq_of_leads_names {n : Nat} {base place : Place} {names : List String}
    (hlead : store.Leads n base (names.map .name) place) : place = base ++ names := by
  induction names generalizing base with
  | nil =>
    cases hlead
    exact (List.append_nil _).symm
  | cons name names ih =>
    rw [List.append_cons]
    generalize hsteps : (name :: names).map PathName.Part.name = steps at hlead
    cases hlead with
    | directory hsize hat hrest =>
      obtain ⟨hname, rfl⟩ := List.cons.inj hsteps
      cases hname
      exact ih hrest
    | file hsize hat =>
      obtain ⟨hname, hnil⟩ := List.cons.inj hsteps
      cases hname
      rw [List.map_eq_nil_iff.1 hnil, List.append_nil]
    | link _ hat => exact absurd hat (h.at?_ne_link _ _)
    | done => cases hsteps
    | root => cases hsteps
    | here => cases hsteps
    | up => cases hsteps

theorem leads_ofNames (n : Nat) {place : Place} {entry : Entry}
    (hat : store.at? place = some entry) : store.Leads n [] (PathName.ofNames place).steps place := by
  rw [PathName.steps_ofNames (h.isName_of_at? hat)]
  split
  · rename_i hnil
    rw [hnil]
    exact .here (.here .done)
  · exact .here (h.leads_names n [] hat)

end Plain

/-! ## Path names -/

theorem start_ofNames (store : FileStore) (place : Place) : store.start (.ofNames place) = [] := by
  rw [start, PathName.isAbsolute_ofNames, if_pos rfl]

theorem stepsOf_eq_ok_iff {p : PathName} {steps : List PathName.Part} :
    stepsOf p = .ok steps ↔ '\x00' ∉ p.text.toList ∧ p.text ≠ "" ∧ p.steps = steps := by
  unfold stepsOf
  split
  · simp_all
  · split <;> simp_all

theorem canonical_eq_ok_iff {store : FileStore} {p : PathName} {place : Place} :
    store.canonical p = .ok place ↔ '\x00' ∉ p.text.toList ∧ p.text ≠ "" ∧
      store.Leads linkLimit (store.start p) p.steps place := by
  unfold canonical
  cases hsteps : stepsOf p with
  | error e =>
    simp only [Except.bind, reduceCtorEq, false_iff]
    rintro ⟨hnul, hempty, -⟩
    rw [stepsOf_eq_ok_iff.2 ⟨hnul, hempty, rfl⟩] at hsteps
    cases hsteps
  | ok steps =>
    obtain ⟨hnul, hempty, rfl⟩ := stepsOf_eq_ok_iff.1 hsteps
    simp only [Except.bind, resolveFrom_eq_ok_iff, hnul, hempty, not_false_eq_true, ne_eq, true_and]

theorem resolve_eq_ok_iff {store : FileStore} {p : PathName} {place : Place} :
    store.resolve p = .ok place ↔
      store.canonical p = .ok place ∧ p.text.utf8ByteSize ≤ pathLimit := by
  unfold resolve canonical callSteps
  cases stepsOf p with
  | error e => simp [Except.bind]
  | ok steps =>
    simp only [Except.bind]
    by_cases hsize : p.text.utf8ByteSize > pathLimit
    · simp [hsize]
    · simp [hsize, Nat.le_of_not_gt hsize]

theorem exists_at_of_canonical {store : FileStore} (hstore : store.rooted = true) {p : PathName}
    {place : Place} (hplace : store.canonical p = .ok place) :
    ∃ entry, store.at? place = some entry :=
  (canonical_eq_ok_iff.1 hplace).2.2.exists_at hstore (at?_start (rooted_here hstore) _)

namespace Plain

variable {store : FileStore} (h : store.Plain)

include h

theorem nul_not_mem {place : Place} {entry : Entry} (hat : store.at? place = some entry)
    (name : String) (hname : name ∈ place) : '\x00' ∉ name.toList := by
  have hfile := h.isFileName_of_at? hat name hname
  simp only [FileStore.isFileName, Bool.and_eq_true, Bool.not_eq_true', List.contains_eq_mem,
    decide_eq_false_iff_not] at hfile
  exact hfile.1.2

theorem canonical_ofNames {place : Place} {entry : Entry} (hat : store.at? place = some entry) :
    store.canonical (.ofNames place) = .ok place := by
  rw [canonical_eq_ok_iff, start_ofNames]
  refine ⟨fun hnul => ?_, PathName.text_ofNames_ne place, h.leads_ofNames linkLimit hat⟩
  rcases PathName.mem_text_ofNames hnul with hslash | ⟨name, hname, hin⟩
  · exact absurd hslash (by decide)
  · exact h.nul_not_mem hat name hname hin

/-- A relative path name seen from a directory leads where it leads from there. -/
theorem canonical_join {base other : PathName} {middle place : Place}
    (hbase : store.canonical base = .ok middle) (hdir : store.at? middle = some .directory)
    (hother : other.isAbsolute = false) (hnul : '\x00' ∉ other.text.toList)
    (hmore : store.Leads linkLimit middle other.steps place) :
    store.canonical (base.join other) = .ok place := by
  obtain ⟨hbnul, hempty, hlead⟩ := canonical_eq_ok_iff.1 hbase
  refine canonical_eq_ok_iff.2 ⟨fun hin => ?_, PathName.text_join_ne hempty hother, ?_⟩
  · rcases PathName.mem_text_join hin with hslash | hin | hin
    · exact absurd hslash (by decide)
    · exact hbnul hin
    · exact hnul hin
  · rw [start, PathName.isAbsolute_join hother, ← start]
    rcases PathName.steps_join hempty hother with hsteps | ⟨front, hfront, hsteps⟩
    · rw [hsteps]
      exact h.leads_append hlead hdir hmore
    · -- The slash at the end of the first path name has been used up.
      rw [hfront] at hlead
      obtain ⟨last, m, hway, hhere, -⟩ :=
        hlead.split h.rooted (at?_start (rooted_here h.rooted) _) rfl (by simp)
      cases hhere with
      | here hdone =>
        cases hdone
        rw [hsteps]
        exact h.leads_append hway hdir hmore

theorem canonical_below {base : PathName} {middle way : Place} {entry : Entry}
    (hbase : store.canonical base = .ok middle) (hat : store.at? (middle ++ way) = some entry) :
    store.canonical (base.below way) = .ok (middle ++ way) := by
  induction way generalizing base middle with
  | nil => rwa [List.append_nil]
  | cons name way ih =>
    have hdir := at?_of_append h.rooted hat (by simp)
    have hname := h.isName_of_at? hat name (by simp)
    have hnul := h.nul_not_mem hat name (by simp)
    rw [PathName.below_cons]
    rw [List.append_cons] at hat ⊢
    obtain ⟨inner, hinner⟩ : ∃ inner, store.at? (middle ++ [name]) = some inner := by
      by_cases hway : way = []
      · exact ⟨entry, by rwa [hway, List.append_nil] at hat⟩
      · exact ⟨_, at?_of_append h.rooted hat hway⟩
    refine ih (h.canonical_join hbase hdir (PathName.isAbsolute_eq_false_of_isName hname) hnul ?_) hat
    rw [PathName.steps_of_isName hname]
    exact h.leads_names linkLimit middle hinner

theorem exists_front {p : PathName} {place : Place} {front : List PathName.Part}
    {names : List String} (hplace : store.canonical p = .ok place)
    (hparts : p.parts = front ++ names.map .name) :
    ∃ middle, store.Leads linkLimit (store.start p) (front.filter moves) middle ∧
      place = middle ++ names := by
  obtain ⟨-, -, hlead⟩ := canonical_eq_ok_iff.1 hplace
  have hway := h.leads_filter hlead
  rw [← PathName.filter_moves_parts, hparts, List.filter_append, filter_moves_names] at hway
  by_cases hnil : names = []
  · subst hnil
    rw [List.map_nil, List.append_nil] at hway
    exact ⟨place, hway, (List.append_nil place).symm⟩
  · obtain ⟨middle, m, hfront, hback, -⟩ :=
      hway.split h.rooted (at?_start (rooted_here h.rooted) _) rfl (by simpa using hnil)
    exact ⟨middle, hfront, h.eq_of_leads_names hback⟩

/-- What lies below a path name lies below the place that it leads to. -/
theorem canonical_below_iff {base : PathName} {way place : Place} (hnul : '\x00' ∉ base.text.toList)
    (hempty : base.text ≠ "") (hway : ∀ name ∈ way, PathName.isName name = true) :
    store.canonical (base.below way) = .ok place ↔
      ∃ middle, store.canonical base = .ok middle ∧ place = middle ++ way ∧
        ∃ entry, store.at? place = some entry := by
  constructor
  · intro hplace
    obtain ⟨entry, hat⟩ := exists_at_of_canonical h.rooted hplace
    by_cases hnil : way = []
    · subst hnil
      exact ⟨place, hplace, (List.append_nil place).symm, entry, hat⟩
    · obtain ⟨middle, hlead, rfl⟩ := h.exists_front hplace (PathName.parts_below hway)
      refine ⟨middle, canonical_eq_ok_iff.2 ⟨hnul, hempty, ?_⟩, rfl, entry, hat⟩
      rw [start, PathName.isAbsolute_below hway, ← start, PathName.filter_moves_parts] at hlead
      exact h.leads_of_filter hlead (at?_of_append h.rooted hat hnil)
  · rintro ⟨middle, hmiddle, rfl, entry, hat⟩
    exact h.canonical_below hmiddle hat

theorem reaches_ofNames {place other : Place} {entry : Entry} (hat : store.at? place = some entry)
    (hreach : store.Reaches (.ofNames place) other) : other = place := by
  obtain ⟨steps, n, content, hsteps, hlead, -⟩ := hreach
  rw [callSteps_eq_ok hsteps, start_ofNames] at hlead
  exact hlead.unique (h.leads_ofNames linkLimit hat)

theorem locate_ofNames {place other : Place} {entry : Entry} (hat : store.at? place = some entry)
    (hlocate : store.locate (.ofNames place) = .ok other) : other = place := by
  obtain ⟨steps, hsteps⟩ : ∃ steps, callSteps (.ofNames place) = .ok steps := by
    cases hsteps : callSteps (.ofNames place) with
    | error e =>
      rw [locate, hsteps] at hlocate
      cases hlocate
    | ok steps => exact ⟨steps, rfl⟩
  have hof := callSteps_eq_ok hsteps
  rw [PathName.steps_ofNames (h.isName_of_at? hat)] at hof
  rcases List.eq_nil_or_concat place with rfl | ⟨front, name, rfl⟩
  · rw [locate, hsteps, hof, start_ofNames] at hlocate
    exact (resolveFrom_eq_ok_iff.1 hlocate).eq_base rfl
  · rw [List.concat_eq_append] at *
    rw [if_neg (by simp), List.map_append, ← List.cons_append] at hof
    rw [hof] at hsteps
    obtain ⟨directory, hlead, rfl⟩ := (locate_eq_ok_iff hsteps).1 hlocate
    have hdir := at?_of_append h.rooted hat (by simp)
    rw [start_ofNames] at hlead
    rw [hlead.unique (.here (h.leads_names linkLimit [] hdir))]
    rfl

end Plain
end FileStore

/-! ## Guards -/

namespace Guard

theorem checkPlace_eq_ok_iff {guard : Guard} {place other : Place} :
    guard.checkPlace place = .ok other ↔ other = place ∧ guard.root <+: place ∧
      ∀ directory ∈ (place.drop guard.root.length).dropLast, directory ∉ guard.forbidden := by
  unfold checkPlace
  split
  · rename_i hroot
    rw [List.isPrefixOf_iff_prefix] at hroot
    simp only
    split
    · rename_i directory hfound
      have hmem := List.mem_of_find?_eq_some hfound
      have hin := List.find?_some hfound
      simp only [reduceCtorEq, false_iff]
      rintro ⟨-, -, hnone⟩
      exact hnone directory hmem (by simpa using hin)
    · rename_i hnone
      rw [List.find?_eq_none] at hnone
      have hallowed : ∀ directory ∈ (place.drop guard.root.length).dropLast,
          directory ∉ guard.forbidden :=
        fun directory hdirectory hin => hnone directory hdirectory (by simpa using hin)
      rw [Except.ok.injEq, eq_comm, and_iff_left ⟨hroot, hallowed⟩]
  · rename_i hroot
    rw [List.isPrefixOf_iff_prefix] at hroot
    simp [hroot]

theorem check_eq_ok_iff {guard : Guard} {store : FileStore} {p : PathName} {place : Place} :
    guard.check store p = .ok place ↔
      store.canonical ((PathName.ofNames guard.root).join p) = .ok place ∧
        guard.checkPlace place = .ok place := by
  unfold check resolve
  cases store.canonical ((PathName.ofNames guard.root).join p) with
  | error e => simp [Except.bind]
  | ok found =>
    simp only [Except.bind, Except.ok.injEq]
    constructor
    · intro hok
      obtain ⟨rfl, -⟩ := checkPlace_eq_ok_iff.1 hok
      exact ⟨rfl, hok⟩
    · rintro ⟨rfl, hok⟩
      exact hok

/-- The place that a path name leads to is judged, if it is seen from the workspace by itself. -/
theorem check_eq_checkPlace {guard : Guard} {store : FileStore} (h : store.Plain) {p : PathName}
    {place : Place} (hp : p.isAbsolute = true ∨ guard.root = store.here)
    (hplace : store.canonical p = .ok place) : guard.check store p = guard.checkPlace place := by
  have hjoin : store.canonical ((PathName.ofNames guard.root).join p) = .ok place := by
    cases habs : p.isAbsolute with
    | true => rwa [PathName.join, habs, if_pos rfl]
    | false =>
      have hroot : guard.root = store.here := by simpa [habs] using hp
      obtain ⟨hnul, -, hlead⟩ := FileStore.canonical_eq_ok_iff.1 hplace
      rw [FileStore.start, habs] at hlead
      have hhere := FileStore.rooted_here h.rooted
      rw [hroot]
      exact h.canonical_join (h.canonical_ofNames hhere) hhere habs hnul hlead
  rw [check, resolve, hjoin]
  rfl

end Guard

namespace Sample

def shop : FileStore where
  entries := [(["w"], .directory), (["w", "a.cs"], .file "ab".toUTF8), (["w", "src"], .directory),
    (["w", "src", "b.cs"], .file "cd".toUTF8), (["w", "obj"], .directory),
    (["w", "obj", "c.cs"], .file "ef".toUTF8), (["x.cs"], .file "gh".toUTF8)]
  here := ["w"]

theorem plain_shop : shop.Plain := by
  constructor <;> decide

end Sample
end CancellationLint
