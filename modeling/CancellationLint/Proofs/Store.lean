import CancellationLint.Files.Store
import Mathlib.Data.List.Basic

/-! # Replacing files

In a store where everything lies in a directory, a file that can be read under some name can be
replaced under that name, and then reads as what it was replaced by. Links may lead to it: the one at
the end is replaced, those on the way are followed as before. -/

namespace CancellationLint
namespace FileStore

def isDirectoryAt (store : FileStore) (place : Place) : Bool :=
  match store.at? place with
  | some .directory => true
  | _ => false

/-- Whether the working directory, and the parent of everything, is a directory. -/
def rooted (store : FileStore) : Bool :=
  store.isDirectoryAt store.here && store.entries.all fun e => store.isDirectoryAt e.1.dropLast

theorem isDirectoryAt_iff {store : FileStore} {place : Place} :
    store.isDirectoryAt place = true ↔ store.at? place = some .directory := by
  unfold isDirectoryAt
  split <;> simp_all

theorem rooted_here {store : FileStore} (h : store.rooted = true) :
    store.at? store.here = some .directory := by
  rw [rooted, Bool.and_eq_true] at h
  exact isDirectoryAt_iff.1 h.1

theorem rooted_parent {store : FileStore} (h : store.rooted = true) {place : Place} {entry : Entry}
    (hat : store.at? place = some entry) : store.at? place.dropLast = some .directory := by
  unfold at? at hat
  split at hat
  · rename_i hnil
    rw [hnil]
    rfl
  · rw [rooted, Bool.and_eq_true, List.all_eq_true] at h
    obtain ⟨before, after, hsplit, -⟩ := List.lookup_eq_some_iff.1 hat
    exact isDirectoryAt_iff.1 (h.2 (place, entry) (by simp [hsplit]))

/-! ## Where steps lead -/

/-- Steps from a directory lead to something that exists, over at most `n` links. -/
inductive Leads (store : FileStore) : Nat → Place → List PathName.Part → Place → Prop
  | done {n base} : Leads store n base [] base
  | root {n base steps place} :
    Leads store n base steps place → Leads store n base (.root :: steps) place
  | here {n base steps place} :
    Leads store n base steps place → Leads store n base (.here :: steps) place
  | up {n base steps place} :
    Leads store n base.dropLast steps place → Leads store n base (.up :: steps) place
  | directory {n base name steps place} : ¬ name.utf8ByteSize > nameLimit →
    store.at? (base ++ [name]) = some .directory →
    Leads store n (base ++ [name]) steps place → Leads store n base (.name name :: steps) place
  | file {n base name content} : ¬ name.utf8ByteSize > nameLimit →
    store.at? (base ++ [name]) = some (.file content) →
    Leads store n base [.name name] (base ++ [name])
  | link {n base name target steps place} : ¬ name.utf8ByteSize > nameLimit →
    store.at? (base ++ [name]) = some (.link target) →
    Leads store n (if target.isAbsolute then [] else base) (target.steps ++ steps) place →
    Leads store (n + 1) base (.name name :: steps) place

theorem leads_of_walk {store : FileStore} {n : Nat}
    {follow : Place → PathName → List PathName.Part → Except FileError Place}
    (hfollow : ∀ base target steps place, follow base target steps = .ok place → ∃ m, n = m + 1 ∧
      store.Leads m (if target.isAbsolute then [] else base) (target.steps ++ steps) place)
    {base place : Place} {steps : List PathName.Part}
    (h : store.walk (fun _ => .error .notFound) follow base steps = .ok place) :
    store.Leads n base steps place := by
  induction steps generalizing base with
  | nil =>
    cases h
    exact Leads.done
  | cons step steps ih =>
    cases step with
    | root => exact Leads.root (ih h)
    | here => exact Leads.here (ih h)
    | up => exact Leads.up (ih h)
    | name name =>
      rw [walk] at h
      split at h
      · cases h
      · rename_i hsize
        split at h
        · split at h <;> cases h
        · exact Leads.directory hsize ‹_› (ih h)
        · split at h
          · rename_i hnil
            cases h
            rw [hnil]
            exact Leads.file hsize ‹_›
          · cases h
        · obtain ⟨m, rfl, hlead⟩ := hfollow _ _ _ _ h
          exact Leads.link hsize ‹_› hlead

theorem leads_of_walkLinks {store : FileStore} {n : Nat} {base place : Place}
    {steps : List PathName.Part}
    (h : store.walkLinks (fun _ => .error .notFound) n base steps = .ok place) :
    store.Leads n base steps place := by
  induction n generalizing base steps place with
  | zero =>
    refine leads_of_walk (fun base target steps place hf => ?_) h
    cases hf
  | succ n ih => exact leads_of_walk (fun base target steps place hf => ⟨n, rfl, ih hf⟩) h

theorem Leads.walkLinks {store : FileStore} {n : Nat} {base place : Place}
    {steps : List PathName.Part} (h : store.Leads n base steps place) :
    store.walkLinks (fun _ => .error .notFound) n base steps = .ok place := by
  induction h with
  | @done n base => cases n <;> rfl
  | @root n base steps place _ ih => cases n <;> exact ih
  | @here n base steps place _ ih => cases n <;> exact ih
  | @up n base steps place _ ih => cases n <;> exact ih
  | @directory n base name steps place hsize hat _ ih =>
    cases n <;>
      · rw [FileStore.walkLinks, walk, if_neg hsize, hat]
        exact ih
  | @file n base name content hsize hat =>
    cases n <;> rw [FileStore.walkLinks, walk, if_neg hsize, hat] <;> rfl
  | link hsize hat _ ih =>
    rw [FileStore.walkLinks, walk, if_neg hsize, hat]
    exact ih

theorem resolveFrom_eq_ok_iff {store : FileStore} {base place : Place}
    {steps : List PathName.Part} :
    store.resolveFrom base steps = .ok place ↔ store.Leads linkLimit base steps place :=
  ⟨leads_of_walkLinks, Leads.walkLinks⟩

/-- Whether a step can lead away from where it is taken. -/
def moves : PathName.Part → Bool
  | .up | .name _ => true
  | .root | .here => false

theorem Leads.eq_base {store : FileStore} {n : Nat} {base place : Place}
    {steps : List PathName.Part} (h : store.Leads n base steps place)
    (hsteps : steps.filter moves = []) : place = base := by
  induction h with
  | done => rfl
  | root _ ih => exact ih hsteps
  | here _ ih => exact ih hsteps
  | up | directory | file | link => simp [moves] at hsteps

theorem Leads.skip {store : FileStore} {n : Nat} {base place : Place}
    {steps rest : List PathName.Part} {step : PathName.Part}
    (h : store.Leads n base steps place) (hsteps : steps.filter moves = step :: rest) :
    ∃ back, back.filter moves = rest ∧ store.Leads n base (step :: back) place := by
  induction steps with
  | nil => cases hsteps
  | cons first steps ih =>
    cases first with
    | root =>
      cases h with
      | root h => exact ih h hsteps
    | here =>
      cases h with
      | here h => exact ih h hsteps
    | up | name =>
      obtain ⟨rfl, hrest⟩ := List.cons.inj hsteps
      exact ⟨steps, hrest, h⟩

theorem Leads.eq_of_moves {store : FileStore} {m n : Nat} {base a b : Place}
    {steps others : List PathName.Part} (ha : store.Leads m base steps a)
    (hb : store.Leads n base others b) (hmoves : steps.filter moves = others.filter moves) :
    a = b := by
  induction ha generalizing n others with
  | done => exact (hb.eq_base hmoves.symm).symm
  | root _ ih => exact ih hb hmoves
  | here _ ih => exact ih hb hmoves
  | up _ ih =>
    obtain ⟨back, hback, hb⟩ := hb.skip hmoves.symm
    cases hb with
    | up hb => exact ih hb hback.symm
  | directory _ hat _ ih =>
    obtain ⟨back, hback, hb⟩ := hb.skip hmoves.symm
    cases hb with
    | directory _ _ hb => exact ih hb hback.symm
    | file _ hat' => simp [hat] at hat'
    | link _ hat' => simp [hat] at hat'
  | file _ hat =>
    obtain ⟨back, hback, hb⟩ := hb.skip hmoves.symm
    cases hb with
    | directory _ hat' => simp [hat] at hat'
    | file => rfl
    | link _ hat' => simp [hat] at hat'
  | link _ hat _ ih =>
    obtain ⟨back, hback, hb⟩ := hb.skip hmoves.symm
    cases hb with
    | directory _ hat' => simp [hat] at hat'
    | file _ hat' => simp [hat] at hat'
    | link _ hat' hb =>
      rw [hat] at hat'
      cases hat'
      exact ih hb (by rw [List.filter_append, List.filter_append, hback])

theorem Leads.unique {store : FileStore} {m n : Nat} {base a b : Place}
    {steps : List PathName.Part} (ha : store.Leads m base steps a) (hb : store.Leads n base steps b) :
    a = b :=
  ha.eq_of_moves hb rfl

theorem at?_start {store : FileStore} {base : Place}
    (hbase : store.at? base = some .directory) (absolute : Bool) :
    store.at? (if absolute then [] else base) = some .directory := by
  cases absolute with
  | true => rfl
  | false => exact hbase

theorem Leads.split {store : FileStore} (hstore : store.rooted = true) {n : Nat}
    {base place : Place} {steps front back : List PathName.Part}
    (h : store.Leads n base steps place) (hbase : store.at? base = some .directory)
    (hsteps : steps = front ++ back) (hback : back ≠ []) :
    ∃ middle m, store.Leads n base front middle ∧ store.Leads m middle back place ∧
      store.at? middle = some .directory := by
  -- With nothing in front the way splits where it starts.
  have hstart : ∀ {n base steps place}, store.Leads n base steps place →
      store.at? base = some .directory → steps = back →
      ∃ middle m, store.Leads n base [] middle ∧ store.Leads m middle back place ∧
        store.at? middle = some .directory := by
    rintro n base steps place h hbase rfl
    exact ⟨base, n, Leads.done, h, hbase⟩
  induction h generalizing front with
  | done => exact absurd (List.append_eq_nil_iff.1 hsteps.symm).2 hback
  | root h ih =>
    cases front with
    | nil => exact hstart (Leads.root h) hbase hsteps
    | cons step front =>
      obtain ⟨rfl, hrest⟩ := List.cons.inj hsteps
      obtain ⟨middle, m, hfront, hb, hdir⟩ := ih hbase hrest
      exact ⟨middle, m, Leads.root hfront, hb, hdir⟩
  | here h ih =>
    cases front with
    | nil => exact hstart (Leads.here h) hbase hsteps
    | cons step front =>
      obtain ⟨rfl, hrest⟩ := List.cons.inj hsteps
      obtain ⟨middle, m, hfront, hb, hdir⟩ := ih hbase hrest
      exact ⟨middle, m, Leads.here hfront, hb, hdir⟩
  | up h ih =>
    cases front with
    | nil => exact hstart (Leads.up h) hbase hsteps
    | cons step front =>
      obtain ⟨rfl, hrest⟩ := List.cons.inj hsteps
      obtain ⟨middle, m, hfront, hb, hdir⟩ := ih (rooted_parent hstore hbase) hrest
      exact ⟨middle, m, Leads.up hfront, hb, hdir⟩
  | directory hsize hat h ih =>
    cases front with
    | nil => exact hstart (Leads.directory hsize hat h) hbase hsteps
    | cons step front =>
      obtain ⟨rfl, hrest⟩ := List.cons.inj hsteps
      obtain ⟨middle, m, hfront, hb, hdir⟩ := ih hat hrest
      exact ⟨middle, m, Leads.directory hsize hat hfront, hb, hdir⟩
  | file hsize hat =>
    cases front with
    | nil => exact hstart (Leads.file hsize hat) hbase hsteps
    | cons step front =>
      have hrest := (List.cons.inj hsteps).2
      exact absurd (List.append_eq_nil_iff.1 hrest.symm).2 hback
  | link hsize hat h ih =>
    cases front with
    | nil => exact hstart (Leads.link hsize hat h) hbase hsteps
    | cons step front =>
      obtain ⟨rfl, rfl⟩ := List.cons.inj hsteps
      obtain ⟨middle, m, hfront, hb, hdir⟩ :=
        ih (at?_start hbase _) (List.append_assoc _ _ _).symm
      exact ⟨middle, m, Leads.link hsize hat hfront, hb, hdir⟩

theorem Leads.isDirectory {store : FileStore} (hstore : store.rooted = true) {n : Nat}
    {base place : Place} {steps : List PathName.Part} (h : store.Leads n base steps place)
    (hbase : store.at? base = some .directory)
    (hlast : ∀ name, steps.getLast? ≠ some (.name name)) : store.at? place = some .directory := by
  rcases List.eq_nil_or_concat steps with rfl | ⟨front, last, rfl⟩
  · cases h
    exact hbase
  · rw [List.concat_eq_append] at h hlast
    obtain ⟨middle, m, -, hend, hdir⟩ := h.split hstore hbase rfl (by simp)
    cases last with
    | name name => exact absurd (by simp) (hlast name)
    | root =>
      cases hend with
      | root hend =>
        cases hend
        exact hdir
    | here =>
      cases hend with
      | here hend =>
        cases hend
        exact hdir
    | up =>
      cases hend with
      | up hend =>
        cases hend
        exact rooted_parent hstore hdir

theorem Leads.snoc {store : FileStore} {n : Nat} {base middle : Place}
    {steps : List PathName.Part} {name : String} {content : ByteArray}
    (h : store.Leads n base steps middle) (hdir : store.at? middle = some .directory)
    (hsize : ¬ name.utf8ByteSize > nameLimit)
    (hat : store.at? (middle ++ [name]) = some (.file content)) :
    store.Leads n base (steps ++ [.name name]) (middle ++ [name]) := by
  induction h with
  | done => exact Leads.file hsize hat
  | root _ ih => exact Leads.root (ih hdir hat)
  | here _ ih => exact Leads.here (ih hdir hat)
  | up _ ih => exact Leads.up (ih hdir hat)
  | directory hs hd _ ih => exact Leads.directory hs hd (ih hdir hat)
  | file _ hf =>
    rw [hdir] at hf
    cases hf
  | link hs hl _ ih =>
    rw [List.cons_append]
    refine Leads.link hs hl ?_
    rw [← List.append_assoc]
    exact ih hdir hat

/-! ## Files under a name -/

/-- A name in a directory leads to a file, which is there or behind a link. -/
structure Holds (store : FileStore) (directory : Place) (name : String) (place : Place) : Prop where
  at_directory : store.at? directory = some .directory
  leads : ∃ n, store.Leads n directory [.name name] place
  at_place : ∃ content, store.at? place = some (.file content)

namespace Holds

variable {store : FileStore} {directory place : Place} {name : String}

theorem size_le (h : store.Holds directory name place) : ¬ name.utf8ByteSize > nameLimit := by
  obtain ⟨n, hlead⟩ := h.leads
  cases hlead <;> assumption

theorem not_directory (h : store.Holds directory name place) :
    store.at? (directory ++ [name]) ≠ some .directory := by
  intro hd
  obtain ⟨n, hlead⟩ := h.leads
  obtain ⟨content, hplace⟩ := h.at_place
  cases hlead with
  | directory _ _ hend =>
    cases hend
    rw [hd] at hplace
    cases hplace
  | file _ hf => simp [hd] at hf
  | link _ hl _ => simp [hd] at hl

theorem eq_of_file (h : store.Holds directory name place) {content : ByteArray}
    (hat : store.at? (directory ++ [name]) = some (.file content)) :
    place = directory ++ [name] := by
  obtain ⟨n, hlead⟩ := h.leads
  exact hlead.unique (Leads.file (n := n) h.size_le hat)

theorem eq_of_link (h : store.Holds directory name place) (hstore : store.rooted = true) {n : Nat}
    {target : PathName} {steps : List PathName.Part} {last : Place}
    (hat : store.at? (directory ++ [name]) = some (.link target))
    (hlead : store.Leads n (if target.isAbsolute then [] else directory) (target.steps ++ steps)
      last) : steps = [] ∧ last = place := by
  have htarget : ∃ k, store.Leads k (if target.isAbsolute then [] else directory) target.steps
      place := by
    obtain ⟨m, hname⟩ := h.leads
    cases hname with
    | directory _ hd => simp [hat] at hd
    | file _ hf => simp [hat] at hf
    | link _ hl hend =>
      rw [hat] at hl
      cases hl
      rw [List.append_nil] at hend
      exact ⟨_, hend⟩
  obtain ⟨k, htarget⟩ := htarget
  have hnil : steps = [] := by
    by_contra hne
    obtain ⟨mid, -, hfront, -, hmid⟩ := hlead.split hstore (at?_start h.at_directory _) rfl hne
    obtain ⟨content, hplace⟩ := h.at_place
    rw [htarget.unique hfront, hmid] at hplace
    cases hplace
  rw [hnil, List.append_nil] at hlead
  exact ⟨hnil, hlead.unique htarget⟩

end Holds

section Put

variable {store : FileStore} {directory place : Place} {name : String}
  (hstore : store.rooted = true) (h : store.Holds directory name place) (new : ByteArray)

include hstore h

/-- When the file under a name is replaced, every way leads where it led before. -/
theorem Leads.put {n : Nat} {base last : Place} {steps : List PathName.Part}
    (hlead : store.Leads n base steps last) (hbase : store.at? base = some .directory) :
    last ≠ directory ++ [name] ∧
        (store.put (directory ++ [name]) (.file new)).Leads n base steps last ∨
      last = place ∧
        (store.put (directory ++ [name]) (.file new)).Leads n base steps (directory ++ [name]) := by
  have hnew : (store.put (directory ++ [name]) (.file new)).at? (directory ++ [name]) =
      some (.file new) := at?_put_self _ _ _ (by simp)
  induction hlead with
  | done =>
    refine .inl ⟨?_, Leads.done⟩
    rintro rfl
    exact h.not_directory hbase
  | root _ ih => exact (ih hbase).imp (And.imp_right Leads.root) (And.imp_right Leads.root)
  | here _ ih => exact (ih hbase).imp (And.imp_right Leads.here) (And.imp_right Leads.here)
  | up _ ih =>
    exact (ih (rooted_parent hstore hbase)).imp (And.imp_right Leads.up) (And.imp_right Leads.up)
  | @directory n base inner steps last hsize hat _ ih =>
    have hne : base ++ [inner] ≠ directory ++ [name] := fun heq => h.not_directory (heq ▸ hat)
    have hat' : (store.put (directory ++ [name]) (.file new)).at? (base ++ [inner]) =
        some .directory := by rw [at?_put_of_ne _ _ hne, hat]
    exact (ih hat).imp (And.imp_right (Leads.directory hsize hat'))
      (And.imp_right (Leads.directory hsize hat'))
  | @file n base inner content hsize hat =>
    by_cases heq : base ++ [inner] = directory ++ [name]
    · obtain ⟨rfl, hname⟩ := List.append_inj' heq rfl
      obtain rfl : inner = name := List.head_eq_of_cons_eq hname
      exact .inr ⟨(h.eq_of_file hat).symm, Leads.file hsize hnew⟩
    · exact .inl ⟨heq, Leads.file hsize (by rw [at?_put_of_ne _ _ heq, hat])⟩
  | @link n base inner target steps last hsize hat hlead ih =>
    by_cases heq : base ++ [inner] = directory ++ [name]
    · obtain ⟨rfl, hname⟩ := List.append_inj' heq rfl
      obtain rfl : inner = name := List.head_eq_of_cons_eq hname
      obtain ⟨rfl, rfl⟩ := h.eq_of_link hstore hat hlead
      exact .inr ⟨rfl, Leads.file hsize hnew⟩
    · have hat' : (store.put (directory ++ [name]) (.file new)).at? (base ++ [inner]) =
          some (.link target) := by rw [at?_put_of_ne _ _ heq, hat]
      exact (ih (at?_start hbase _)).imp (And.imp_right (Leads.link hsize hat'))
        (And.imp_right (Leads.link hsize hat'))

/-- No new ways come up: those to the new file led to the file before. -/
theorem Leads.of_put {n : Nat} {base last : Place} {steps : List PathName.Part}
    (hlead : (store.put (directory ++ [name]) (.file new)).Leads n base steps last)
    (hbase : store.at? base = some .directory) :
    last ≠ directory ++ [name] ∧ store.Leads n base steps last ∨
      last = directory ++ [name] ∧ ∃ m, store.Leads m base steps place := by
  have hnew : (store.put (directory ++ [name]) (.file new)).at? (directory ++ [name]) =
      some (.file new) := at?_put_self _ _ _ (by simp)
  induction hlead with
  | done =>
    refine .inl ⟨?_, Leads.done⟩
    rintro rfl
    exact h.not_directory hbase
  | root _ ih =>
    exact (ih hbase).imp (And.imp_right Leads.root) (And.imp_right (Exists.imp fun _ => Leads.root))
  | here _ ih =>
    exact (ih hbase).imp (And.imp_right Leads.here) (And.imp_right (Exists.imp fun _ => Leads.here))
  | up _ ih =>
    exact (ih (rooted_parent hstore hbase)).imp (And.imp_right Leads.up)
      (And.imp_right (Exists.imp fun _ => Leads.up))
  | @directory n base inner steps last hsize hat _ ih =>
    have hne : base ++ [inner] ≠ directory ++ [name] := by
      intro heq
      simp [heq] at hat
    rw [at?_put_of_ne _ _ hne] at hat
    exact (ih hat).imp (And.imp_right (Leads.directory hsize hat))
      (And.imp_right (Exists.imp fun _ => Leads.directory hsize hat))
  | @file n base inner content hsize hat =>
    by_cases heq : base ++ [inner] = directory ++ [name]
    · obtain ⟨rfl, hname⟩ := List.append_inj' heq rfl
      obtain rfl : inner = name := List.head_eq_of_cons_eq hname
      exact .inr ⟨rfl, h.leads⟩
    · rw [at?_put_of_ne _ _ heq] at hat
      exact .inl ⟨heq, Leads.file hsize hat⟩
  | @link n base inner target steps last hsize hat _ ih =>
    have hne : base ++ [inner] ≠ directory ++ [name] := by
      intro heq
      simp [heq] at hat
    rw [at?_put_of_ne _ _ hne] at hat
    exact (ih (at?_start hbase _)).imp (And.imp_right (Leads.link hsize hat))
      (And.imp_right fun ⟨m, hm⟩ => ⟨m + 1, Leads.link hsize hat hm⟩)

end Put

theorem Leads.exists_holds {store : FileStore} (hstore : store.rooted = true) {n : Nat}
    {base place : Place} {steps : List PathName.Part} {content : ByteArray}
    (h : store.Leads n base steps place) (hbase : store.at? base = some .directory)
    (hplace : store.at? place = some (.file content)) :
    ∃ front name directory, steps = front ++ [.name name] ∧ store.Leads n base front directory ∧
      store.Holds directory name place := by
  obtain ⟨name, hname⟩ : ∃ name, steps.getLast? = some (.name name) := by
    by_contra hnone
    have := h.isDirectory hstore hbase fun name hname => hnone ⟨name, hname⟩
    rw [hplace] at this
    cases this
  obtain ⟨front, rfl⟩ := List.getLast?_eq_some_iff.1 hname
  obtain ⟨directory, m, hfront, hlast, hdirectory⟩ := h.split hstore hbase rfl (by simp)
  exact ⟨front, name, directory, rfl, hfront, hdirectory, ⟨m, hlast⟩, content, hplace⟩

theorem read_eq_ok_iff {store : FileStore} {p : PathName} {content : ByteArray} :
    store.read p = .ok content ↔ ∃ steps place, callSteps p = .ok steps ∧
      store.Leads linkLimit (store.start p) steps place ∧
      store.at? place = some (.file content) := by
  unfold read resolve
  cases hsteps : callSteps p with
  | error e => simp [Except.bind]
  | ok steps =>
    simp only [← resolveFrom_eq_ok_iff, Except.bind, Except.ok.injEq]
    cases hplace : store.resolveFrom (store.start p) steps with
    | error e => simp [hplace]
    | ok place =>
      cases hat : store.at? place with
      | none => simp [hplace, hat]
      | some entry => cases entry <;> simp [hplace, hat]

theorem exists_holds_of_read {store : FileStore} {p : PathName} {content : ByteArray}
    (hstore : store.rooted = true) (h : store.read p = .ok content) :
    ∃ front name directory place, callSteps p = .ok (front ++ [.name name]) ∧
      store.Leads linkLimit (store.start p) (front ++ [.name name]) place ∧
      store.at? place = some (.file content) ∧
      store.Leads linkLimit (store.start p) front directory ∧ store.Holds directory name place := by
  obtain ⟨steps, place, hsteps, hlead, hplace⟩ := read_eq_ok_iff.1 h
  obtain ⟨front, name, directory, rfl, hfront, hholds⟩ :=
    hlead.exists_holds hstore (at?_start (rooted_here hstore) _) hplace
  exact ⟨front, name, directory, place, hsteps, hlead, hplace, hfront, hholds⟩

theorem locate_eq_ok_iff {store : FileStore} {p : PathName} {front : List PathName.Part}
    {name : String} {place : Place} (hsteps : callSteps p = .ok (front ++ [.name name])) :
    store.locate p = .ok place ↔ ∃ directory,
      store.Leads linkLimit (store.start p) front directory ∧ place = directory ++ [name] := by
  unfold locate
  rw [hsteps, Except.bind]
  simp only [List.getLast?_append, List.getLast?_singleton, Option.or, List.dropLast_concat,
    ← resolveFrom_eq_ok_iff]
  cases store.resolveFrom (store.start p) front with
  | error e => simp [Except.map]
  | ok directory => simp [Except.map, eq_comm]

theorem Holds.front_put {store : FileStore} {directory base place : Place} {name : String} {n : Nat}
    {front : List PathName.Part} (h : store.Holds directory name place)
    (hstore : store.rooted = true) (new : ByteArray) (hfront : store.Leads n base front directory)
    (hbase : store.at? base = some .directory) :
    (store.put (directory ++ [name]) (.file new)).Leads n base front directory := by
  rcases Leads.put hstore h new hfront hbase with ⟨-, hway⟩ | ⟨heq, -⟩
  · exact hway
  · obtain ⟨content, hplace⟩ := h.at_place
    rw [← heq, h.at_directory] at hplace
    cases hplace

theorem read_replace {store : FileStore} {p : PathName} {old : ByteArray} (new : ByteArray)
    (hstore : store.rooted = true) (h : store.read p = .ok old) :
    ∃ store', store.replace p new = .ok store' ∧ store'.read p = .ok new := by
  obtain ⟨front, name, directory, place, hsteps, -, -, hfront, hholds⟩ :=
    exists_holds_of_read hstore h
  refine ⟨store.put (directory ++ [name]) (.file new), ?_, ?_⟩
  · rw [replace, (locate_eq_ok_iff hsteps).2 ⟨directory, hfront, rfl⟩]
    rfl
  · have hat : (store.put (directory ++ [name]) (.file new)).at? (directory ++ [name]) =
        some (.file new) := at?_put_self _ _ _ (by simp)
    have hdir : (store.put (directory ++ [name]) (.file new)).at? directory = some .directory := by
      rw [at?_put_of_ne _ _ (by simp)]
      exact hholds.at_directory
    have hway := hholds.front_put hstore new hfront (at?_start (rooted_here hstore) _)
    exact read_eq_ok_iff.2 ⟨_, _, hsteps, hway.snoc hdir hholds.size_le hat, hat⟩

end FileStore
end CancellationLint
