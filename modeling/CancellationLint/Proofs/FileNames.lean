import CancellationLint.Proofs.Store

/-! # Files and their names

One file can have many names: with repeated slashes, over other directories, over links. Replacing a
file under one of them leaves every other file as it is. Where the name stands for a link, the link is
replaced, and the names that do not lead over it keep the old content. -/

namespace CancellationLint

/-! ## Names with the same parts -/

namespace PathName

theorem segmentsFrom_ne_nil (current text : List Char) : segmentsFrom current text ≠ [] := by
  fun_induction segmentsFrom current text <;> simp_all

theorem exists_segmentsFrom {current : List Char} (text : List Char) (h : current ≠ []) :
    ∃ segment rest, segmentsFrom current text = segment :: rest ∧ segment ≠ [] := by
  fun_induction segmentsFrom current text with
  | case1 current => exact ⟨_, [], rfl, by simpa using h⟩
  | case2 current rest ih => exact ⟨_, _, rfl, by simpa using h⟩
  | case3 current c rest _ ih => exact ih (by simp)

theorem moves_ofSegment? {segment : List Char} {part : Part}
    (h : Part.ofSegment? segment = some part) : FileStore.moves part = true := by
  unfold Part.ofSegment? at h
  split at h
  · cases h
  · split at h <;> cases h <;> rfl

theorem filter_moves_parts (p : PathName) :
    p.parts.filter FileStore.moves = p.steps.filter FileStore.moves := by
  have hsteps : ∀ segments : List (List Char),
      (segments.map fun segment => (Part.ofSegment? segment).getD .here).filter FileStore.moves =
        segments.filterMap Part.ofSegment? := by
    intro segments
    induction segments with
    | nil => rfl
    | cons segment segments ih =>
      rw [List.map_cons]
      cases hpart : Part.ofSegment? segment with
      | none => rw [List.filterMap_cons_none hpart, ← ih]; rfl
      | some part =>
        rw [List.filterMap_cons_some hpart, Option.getD_some,
          List.filter_cons_of_pos (moves_ofSegment? hpart), ih]
  have hparts : (p.segments.filterMap Part.ofSegment?).filter FileStore.moves =
      p.segments.filterMap Part.ofSegment? := by
    refine List.filter_eq_self.2 fun part hpart => ?_
    obtain ⟨segment, -, hsegment⟩ := List.mem_filterMap.1 hpart
    exact moves_ofSegment? hsegment
  unfold parts steps
  rw [hsteps, List.filter_append, hparts]
  unfold leading
  split <;> rfl

theorem root_mem_parts_iff (p : PathName) : Part.root ∈ p.parts ↔ p.isAbsolute = true := by
  have hnames : Part.root ∉ p.segments.filterMap Part.ofSegment? := by
    intro hroot
    obtain ⟨segment, -, hsegment⟩ := List.mem_filterMap.1 hroot
    cases moves_ofSegment? hsegment
  unfold isAbsolute parts
  rw [String.startsWith_string_iff, List.mem_append, or_iff_left hnames]
  unfold leading segments
  cases htext : p.text.toList with
  | nil => simp [segmentsFrom]
  | cons c rest =>
    by_cases hc : c = '/'
    · obtain ⟨segment, others, hrest⟩ := List.exists_cons_of_ne_nil (segmentsFrom_ne_nil [] rest)
      simp [hc, segmentsFrom, hrest]
    · obtain ⟨segment, others, hrest, hne⟩ := exists_segmentsFrom rest (List.cons_ne_nil c [])
      have hfront : segmentsFrom [] (c :: rest) = segment :: others := by
        rw [← hrest, segmentsFrom]
        exact hc
      rw [hfront]
      have hslash : ¬ "/".toList <+: c :: rest := by
        simpa [List.cons_prefix_cons] using fun h => hc h.symm
      simp only [hslash, iff_false]
      split
      · simp_all
      · simp
      · simp

theorem isAbsolute_of_same {p q : PathName} (h : p.same q = true) : p.isAbsolute = q.isAbsolute := by
  rw [Bool.eq_iff_iff, ← root_mem_parts_iff, ← root_mem_parts_iff, of_decide_eq_true h]

end PathName

namespace FileStore

theorem callSteps_eq_ok {p : PathName} {steps : List PathName.Part}
    (h : callSteps p = .ok steps) : steps = p.steps := by
  unfold callSteps stepsOf at h
  split at h
  · cases h
  · split at h
    · cases h
    · simp only [Except.bind] at h
      split at h <;> cases h
      rfl

/-! ## Names of one file -/

/-- The path name leads to a file at the place, over any number of links. -/
def Reaches (store : FileStore) (p : PathName) (place : Place) : Prop :=
  ∃ steps n content, callSteps p = .ok steps ∧ store.Leads n (store.start p) steps place ∧
    store.at? place = some (.file content)

def SameFile (store : FileStore) (p q : PathName) : Prop :=
  ∃ place, store.Reaches p place ∧ store.Reaches q place

variable {store store' : FileStore} {p q r : PathName}

theorem reaches_of_read {content : ByteArray} (h : store.read p = .ok content) :
    ∃ place, store.Reaches p place ∧ store.at? place = some (.file content) := by
  obtain ⟨steps, place, hsteps, hlead, hplace⟩ := read_eq_ok_iff.1 h
  exact ⟨place, ⟨steps, linkLimit, content, hsteps, hlead, hplace⟩, hplace⟩

theorem reaches_of_resolve {place : Place} {content : ByteArray} (h : store.resolve p = .ok place)
    (hplace : store.at? place = some (.file content)) : store.Reaches p place := by
  unfold resolve at h
  cases hsteps : callSteps p with
  | error e =>
    rw [hsteps] at h
    cases h
  | ok steps =>
    rw [hsteps] at h
    exact ⟨steps, linkLimit, content, hsteps, resolveFrom_eq_ok_iff.1 h, hplace⟩

theorem Reaches.eq_of_same {a b : Place} (hp : store.Reaches p a) (hq : store.Reaches q b)
    (hsame : p.same q = true) : a = b := by
  obtain ⟨steps, m, -, hsteps, hlead, -⟩ := hp
  obtain ⟨others, n, -, hothers, hlead', -⟩ := hq
  have hstart : store.start p = store.start q := by
    rw [start, start, PathName.isAbsolute_of_same hsame]
  rw [hstart] at hlead
  apply hlead.eq_of_moves hlead'
  rw [callSteps_eq_ok hsteps, callSteps_eq_ok hothers, ← PathName.filter_moves_parts,
    ← PathName.filter_moves_parts, of_decide_eq_true hsame]

theorem Reaches.unique {a b : Place} (ha : store.Reaches p a) (hb : store.Reaches p b) : a = b :=
  ha.eq_of_same hb (by simp [PathName.same])

theorem SameFile.symm (h : store.SameFile p q) : store.SameFile q p := by
  obtain ⟨place, hp, hq⟩ := h
  exact ⟨place, hq, hp⟩

theorem SameFile.trans (hpq : store.SameFile p q) (hqr : store.SameFile q r) :
    store.SameFile p r := by
  obtain ⟨place, hp, hq⟩ := hpq
  obtain ⟨place', hq', hr⟩ := hqr
  rw [hq'.unique hq] at hr
  exact ⟨place, hp, hr⟩

theorem read_same {a b : ByteArray} (hsame : p.same q = true) (hp : store.read p = .ok a)
    (hq : store.read q = .ok b) : a = b := by
  obtain ⟨place, hreach, hplace⟩ := reaches_of_read hp
  obtain ⟨place', hreach', hplace'⟩ := reaches_of_read hq
  rw [hreach.eq_of_same hreach' hsame, hplace'] at hplace
  cases hplace
  rfl

/-! ## Replacing a file -/

/-- What replacing a file under a name does to a store. -/
structure Swaps (store : FileStore) (p : PathName) (old new : ByteArray) (store' : FileStore) :
    Prop where
  rooted : store'.rooted = true
  read_self : store'.read p = .ok new
  read : ∀ q content, store.read q = .ok content → store'.read q = .ok content ∨
    store.SameFile q p ∧ content = old ∧ store'.read q = .ok new
  sameFile : ∀ q r, store'.SameFile q r → store.SameFile q r
  locate : ∀ q place, store'.SameFile q q → store'.locate q = .ok place →
    store.locate q = .ok place
  elsewhere : ∀ place, store.locate p ≠ .ok place → store'.at? place = store.at? place

theorem Swaps.refl {content : ByteArray} (hstore : store.rooted = true)
    (h : store.read p = .ok content) : store.Swaps p content content store :=
  ⟨hstore, h, fun _ _ hq => .inl hq, fun _ _ hqr => hqr, fun _ _ _ hq => hq, fun _ _ => rfl⟩

theorem Swaps.read_of_same {old new content : ByteArray} (h : store.Swaps p old new store')
    (hsame : p.same q = true) (hread : store.read q = .ok content) : store'.read q = .ok new := by
  rcases h.read q content hread with hkept | ⟨-, -, hnew⟩
  · rw [hkept, read_same hsame h.read_self hkept]
  · exact hnew

theorem rooted_put {directory : Place} {name : String} (new : ByteArray)
    (hstore : store.rooted = true) (hdir : store.at? directory = some .directory)
    (hat : store.at? (directory ++ [name]) ≠ some .directory) :
    (store.put (directory ++ [name]) (.file new)).rooted = true := by
  have hkeep : ∀ place, store.isDirectoryAt place = true →
      (store.put (directory ++ [name]) (.file new)).isDirectoryAt place = true := by
    intro place hplace
    rw [isDirectoryAt_iff] at hplace ⊢
    rw [at?_put_of_ne]
    · exact hplace
    · rintro rfl
      exact hat hplace
  unfold rooted at hstore ⊢
  rw [Bool.and_eq_true, List.all_eq_true] at hstore ⊢
  refine ⟨hkeep _ hstore.1, fun e he => ?_⟩
  rcases List.mem_cons.1 he with rfl | he
  · rw [List.dropLast_concat]
    exact hkeep _ (isDirectoryAt_iff.2 hdir)
  · exact hkeep _ (hstore.2 e (List.mem_of_mem_filter he))

section Put

variable {directory place : Place} {name : String} (hstore : store.rooted = true)
  (h : store.Holds directory name place) (new : ByteArray)

include hstore h

theorem reaches_of_put {last : Place}
    (hq : (store.put (directory ++ [name]) (.file new)).Reaches q last) :
    last ≠ directory ++ [name] ∧ store.Reaches q last ∨
      last = directory ++ [name] ∧ store.Reaches q place := by
  obtain ⟨steps, n, content, hsteps, hlead, hlast⟩ := hq
  rcases hlead.of_put hstore h new (at?_start (rooted_here hstore) _) with
    ⟨hne, hlead⟩ | ⟨heq, m, hlead⟩
  · rw [at?_put_of_ne _ _ hne] at hlast
    exact .inl ⟨hne, steps, n, content, hsteps, hlead, hlast⟩
  · obtain ⟨old, hplace⟩ := h.at_place
    exact .inr ⟨heq, steps, m, old, hsteps, hlead, hplace⟩

theorem sameFile_of_put (hqr : (store.put (directory ++ [name]) (.file new)).SameFile q r) :
    store.SameFile q r := by
  obtain ⟨last, hq, hr⟩ := hqr
  rcases reaches_of_put hstore h new hq with ⟨hne, hq⟩ | ⟨heq, hq⟩ <;>
    rcases reaches_of_put hstore h new hr with ⟨hne', hr⟩ | ⟨heq', hr⟩
  · exact ⟨last, hq, hr⟩
  · exact absurd heq' hne
  · exact absurd heq hne'
  · exact ⟨place, hq, hr⟩

theorem read_put {content : ByteArray} (hread : store.read q = .ok content) :
    (store.put (directory ++ [name]) (.file new)).read q = .ok content ∨
      store.Reaches q place ∧ store.at? place = some (.file content) ∧
        (store.put (directory ++ [name]) (.file new)).read q = .ok new := by
  obtain ⟨steps, last, hsteps, hlead, hlast⟩ := read_eq_ok_iff.1 hread
  rcases hlead.put hstore h new (at?_start (rooted_here hstore) _) with ⟨hne, hway⟩ | ⟨rfl, hway⟩
  · rw [← at?_put_of_ne store (.file new) hne] at hlast
    exact .inl (read_eq_ok_iff.2 ⟨steps, last, hsteps, hway, hlast⟩)
  · exact .inr ⟨⟨steps, linkLimit, content, hsteps, hlead, hlast⟩, hlast,
      read_eq_ok_iff.2 ⟨steps, _, hsteps, hway, at?_put_self _ _ _ (by simp)⟩⟩

theorem locate_of_put {last : Place}
    (hq : (store.put (directory ++ [name]) (.file new)).SameFile q q)
    (hlocate : (store.put (directory ++ [name]) (.file new)).locate q = .ok last) :
    store.locate q = .ok last := by
  have hrooted := rooted_put new hstore h.at_directory h.not_directory
  obtain ⟨_, ⟨steps, n, content, hsteps, hlead, hfile⟩, -⟩ := hq
  obtain ⟨front, name', directory', rfl, hfront, hholds⟩ :=
    hlead.exists_holds hrooted (at?_start (rooted_here hrooted) _) hfile
  obtain ⟨found, hfound, rfl⟩ := (locate_eq_ok_iff hsteps).1 hlocate
  rcases hfound.of_put hstore h new (at?_start (rooted_here hstore) _) with
    ⟨-, hfound⟩ | ⟨heq, -⟩
  · exact (locate_eq_ok_iff hsteps).2 ⟨found, hfound, rfl⟩
  · -- What the last name is looked up in is a directory, not the new file.
    have hdir := hholds.at_directory
    rw [← hfound.unique hfront, heq, at?_put_self _ _ _ (by simp)] at hdir
    cases hdir

end Put

theorem swaps_of_replace {old new : ByteArray} (hstore : store.rooted = true)
    (hread : store.read p = .ok old) (h : store.replace p new = .ok store') :
    store.Swaps p old new store' := by
  obtain ⟨front, name, directory, place, hsteps, hlead, hplace, hfront, hholds⟩ :=
    exists_holds_of_read hstore hread
  have hreach : store.Reaches p place := ⟨_, linkLimit, old, hsteps, hlead, hplace⟩
  have hlocate := (locate_eq_ok_iff hsteps).2 ⟨directory, hfront, rfl⟩
  obtain ⟨_, hnext, hself⟩ := read_replace new hstore hread
  rw [h] at hnext
  cases hnext
  rw [replace, hlocate] at h
  cases h
  refine ⟨rooted_put new hstore hholds.at_directory hholds.not_directory, hself, ?_,
    fun _ _ => sameFile_of_put hstore hholds new, fun _ _ => locate_of_put hstore hholds new, ?_⟩
  · intro q content hq
    refine (read_put hstore hholds new hq).imp_right ?_
    rintro ⟨hreaches, hcontent, hnew⟩
    rw [hplace] at hcontent
    cases hcontent
    exact ⟨⟨place, hreaches, hreach⟩, rfl, hnew⟩
  · intro other hother
    apply at?_put_of_ne
    rintro rfl
    exact hother hlocate

end FileStore
end CancellationLint
