import CancellationLint.Proofs.Detected
import CancellationLint.Proofs.Store
import CancellationLint.Proofs.Groups

/-! # Fixes as edits

The fixes that went into a tree, each turned into an edit, change the text of the tree before into
the text of the tree after, in whatever order they are given. -/

namespace CancellationLint

/-- The span of the fix is that of its target in the text of the tree. -/
structure Fix.Fits (t : Tree) (fix : Fix) : Prop where
  at_path : t.root.at? fix.path = some fix.target
  start_eq : fix.fullSpan.start = (Token.fullOf (t.root.before fix.path)).utf8ByteSize
  stop_eq : fix.fullSpan.stop = fix.fullSpan.start + fix.target.fullText.utf8ByteSize
  pos : 0 < fix.target.fullText.utf8ByteSize

theorem Fix.fits_of_mends {t : Tree} {check : Check} {fix : Fix} (ht : t.root.sound = true)
    (hof : Cursor.Of t.root check.statement) (hcheck : Check.ofNode check.statement = .ok check)
    (h : Fix.Mends check fix) : fix.Fits t := by
  obtain ⟨l, rfl⟩ := h
  refine ⟨hof.element_at, hof.offset_eq ht, ?_, ?_⟩
  · simp only [ofCheck, Cursor.fullSpan, Element.width_eq (hof.sound ht)]
  · have hflag := Check.flag_le_text hcheck
    have hsize : 0 < cancellationFlag.utf8ByteSize := by decide
    simp only [Cursor.text] at hflag
    simp only [ofCheck, Element.fullText_split, String.utf8ByteSize_append]
    omega

namespace FixAll

theorem applyAll_append {l : Label} {i : Nat} {t : Tree} (fs gs : List Fix) :
    applyAll l i t (fs ++ gs) =
      (applyAll l i t fs).bind fun t => applyAll l (i + fs.length) t gs := by
  induction fs generalizing i t with
  | nil => rfl
  | cons f fs ih =>
    rw [List.cons_append, applyAll, applyAll]
    cases f.apply (l.sub i) t with
    | error e => rfl
    | ok next =>
      simp only [Except.bind, ih, List.length_cons]
      rw [Nat.add_right_comm, Nat.add_assoc]

theorem applyAll_concat {l : Label} {i : Nat} {t t' : Tree} {fixes : List Fix} {fix : Fix}
    (h : applyAll l i t (fixes ++ [fix]) = .ok t') :
    ∃ mid m root, applyAll l i t fixes = .ok mid ∧
      Element.put? m fix.replacement fix.path mid.root = some root ∧ t' = { mid with root } := by
  rw [applyAll_append] at h
  obtain ⟨mid, hmid, h⟩ := exists_of_bind_eq_ok h
  obtain ⟨-, root, hroot, hlast⟩ := applyAll_cons_eq_ok h
  cases hlast
  exact ⟨mid, _, root, hmid, hroot, rfl⟩

variable [Digest]

def edits (file : PathName) (fixes : List Fix) : List Edit :=
  (fixes.map (·.toEdit file)).reverse

theorem edits_concat (file : PathName) (fixes : List Fix) (fix : Fix) :
    edits file (fixes ++ [fix]) = fix.toEdit file :: edits file fixes := by
  simp [edits]

/-- What fixes do to the text before a place to the right of them all. -/
structure Shifts (file : PathName) (fixes : List Fix) (t t' : Tree) (q : Path) : Prop where
  at_eq : t'.root.at? q = t.root.at? q
  after_eq : t'.root.after q = t.root.after q
  splices : Edit.Splices (edits file fixes) (Token.fullOf (t.root.before q))
    (Token.fullOf (t'.root.before q))

theorem splices_cons {t mid : Tree} {fix : Fix} {fixes : List Fix} {file : PathName}
    (m : List Token) (hfit : fix.Fits t) (h : Shifts file fixes t mid fix.path) :
    Edit.Splices (edits file (fixes ++ [fix]))
      (Token.fullOf (t.root.before fix.path ++ fix.target.tokens ++ m))
      (Token.fullOf (mid.root.before fix.path ++ fix.replacement.tokens ++ m)) := by
  rw [edits_concat]
  simp only [Token.fullOf_append, ← Element.fullText_eq]
  have hstop := hfit.stop_eq
  rw [hfit.start_eq] at hstop
  exact Edit.Splices.cons h.splices hfit.start_eq hstop hfit.pos rfl

theorem shifts_applyAll {l : Label} {i : Nat} {t t' : Tree} {fixes : List Fix} (file : PathName)
    (hpaths : fixes.Pairwise fun a b => Path.Precedes a.path b.path)
    (hfits : ∀ fix ∈ fixes, fix.Fits t) (h : applyAll l i t fixes = .ok t') {q : Path} {y : Element}
    (hq : ∀ fix ∈ fixes, Path.Precedes fix.path q) (hy : t.root.at? q = some y) :
    Shifts file fixes t t' q := by
  -- By induction from the right, so that all offsets are those of `t`.
  induction fixes using List.reverseRecOn generalizing t' q y with
  | nil =>
    cases h
    exact ⟨rfl, rfl, Edit.Splices.nil _⟩
  | append_singleton init fix ih =>
    obtain ⟨hinit, -, hcross⟩ := List.pairwise_append.1 hpaths
    have hfit := hfits fix (by simp)
    have hfixq := hq fix (by simp)
    obtain ⟨mid, k, root, hmid, hroot, rfl⟩ := applyAll_concat h
    have hatfix : Shifts file init t mid fix.path :=
      ih hinit (fun f hf => hfits f (by simp [hf])) hmid (fun f hf => hcross f hf fix (by simp))
        hfit.at_path
    have hatq : Shifts file init t mid q :=
      ih hinit (fun f hf => hfits f (by simp [hf])) hmid (fun f hf => hq f (by simp [hf])) hy
    obtain ⟨m, hbefore, hafter⟩ := Element.exists_between hfixq hfit.at_path hy
    refine ⟨?_, ?_, ?_⟩
    · exact (Element.at?_put_of_apart hfixq.apart hroot).trans hatq.at_eq
    · exact (Element.after_put hfixq hroot).trans hatq.after_eq
    · have hmidafter : mid.root.after fix.path = m ++ y.tokens ++ mid.root.after q := by
        rw [hatfix.after_eq, hafter, hatq.after_eq]
      rw [hbefore, Element.before_put hfixq (hatq.at_eq.trans hy) hmidafter hroot]
      exact splices_cons m hfit hatfix

theorem splices_applyAll {l : Label} {i : Nat} {t t' : Tree} {fixes : List Fix} (file : PathName)
    (hpaths : fixes.Pairwise fun a b => Path.Precedes a.path b.path)
    (hfits : ∀ fix ∈ fixes, fix.Fits t) (h : applyAll l i t fixes = .ok t') :
    Edit.Splices (edits file fixes) t.source t'.source := by
  rcases List.eq_nil_or_concat fixes with rfl | ⟨init, fix, rfl⟩
  · cases h
    exact Edit.Splices.nil _
  · rw [List.concat_eq_append] at *
    obtain ⟨hinit, -, hcross⟩ := List.pairwise_append.1 hpaths
    have hfit := hfits fix (by simp)
    obtain ⟨mid, k, root, hmid, hroot, rfl⟩ := applyAll_concat h
    have hshift := shifts_applyAll file hinit (fun f hf => hfits f (by simp [hf])) hmid
      (fun f hf => hcross f hf fix (by simp)) hfit.at_path
    rw [Tree.source, Tree.source, Element.fullText_eq, Element.fullText_eq,
      Element.tokens_at hfit.at_path, Element.tokens_put hroot, hshift.after_eq]
    exact splices_cons _ hfit hshift

end FixAll

/-! ## The file -/

namespace Edit

theorem fromUTF8?_toUTF8 (text : String) : String.fromUTF8? text.toUTF8 = some text :=
  dif_pos (c := text.toUTF8.IsValidUTF8) text.isValidUTF8

theorem Replaces.applyFile [Digest] {edits : List Edit} {old new : String} (h : Replaces edits old new)
    {store : FileStore} {file : PathName} (hstore : store.rooted = true)
    (hread : store.read file = .ok old.toUTF8) :
    ∃ outcomes store', Edit.applyFile store file edits = .ok (outcomes, store') ∧
      store'.read file = .ok new.toUTF8 := by
  obtain ⟨outcomes, hweave⟩ := (weave_eq_ok_iff file h.overlap?).2 h
  unfold Edit.applyFile
  rw [hread]
  simp only [fromUTF8?_toUTF8, h.overlap?, hweave, Except.bind]
  by_cases hsame : new = old
  · rw [if_pos hsame, hsame]
    exact ⟨outcomes, store, rfl, hread⟩
  · obtain ⟨store', hreplace, hread'⟩ := FileStore.read_replace new.toUTF8 hstore hread
    rw [if_neg hsame, hreplace]
    exact ⟨outcomes, store', rfl, hread'⟩

end Edit

namespace Tree

theorem splices_fixAll [Digest] {t : Tree} {l : Label} {ds : List Diagnostic} {out : FixAll}
    (ht : t.root.sound = true) (h : t.fixAll l ds = .ok out) (file : PathName) :
    Edit.Splices (FixAll.edits file out.applied) t.source out.tree.source := by
  obtain ⟨-, checks, haims, hrun⟩ := run_of_fixAll h
  refine FixAll.splices_applyAll file (FixAll.precedes_of_mends haims hrun.applied) ?_ hrun.tree
  intro fix hfix
  obtain ⟨check, hmem, hmends⟩ := FixAll.exists_check_of_mem hrun.applied hfix
  obtain ⟨n, -, hn⟩ := (haims.mem_iff check).1 (List.mem_of_mem_filter hmem)
  obtain ⟨hof, hcheck, -⟩ := checkAt?_eq_some hn
  exact Fix.fits_of_mends ht hof hcheck hmends

/-- As edits of the text, in any order, the applied fixes give the text of the fixed tree. -/
theorem edits_of_fixAll [Digest] {t : Tree} {l : Label} {ds : List Diagnostic} {out : FixAll}
    (ht : t.root.sound = true) (h : t.fixAll l ds = .ok out) (file : PathName) (edits : List Edit)
    (hedits : edits.Perm (out.applied.map (·.toEdit file))) :
    (∀ store : FileStore, store.rooted = true → store.read file = .ok t.source.toUTF8 →
      ∃ outcomes store', Edit.applyBatch store edits = (.ok outcomes, store') ∧
        store'.read file = .ok out.tree.source.toUTF8) ∧
    (edits.Pairwise (fun a b => b.span.start ≤ a.span.start) →
      edits.foldlM (fun content edit => edit.applyTo content) t.source = .ok out.tree.source) := by
  have hsplices := splices_fixAll ht h file
  have hperm : edits.Perm (FixAll.edits file out.applied) :=
    hedits.trans (List.reverse_perm _).symm
  have hfile : ∀ edit ∈ FixAll.edits file out.applied, edit.file = file := by
    intro edit hedit
    obtain ⟨fix, -, rfl⟩ := List.mem_map.1 (List.mem_reverse.1 hedit)
    rfl
  constructor
  · intro store hstore hread
    obtain ⟨outcomes, store', happly, hread'⟩ := hsplices.replaces.applyFile hstore hread
    by_cases hnone : FixAll.edits file out.applied = []
    · rw [hnone] at hperm hsplices
      rw [hperm.eq_nil, ← hsplices.replaces.eq_of_nil]
      exact ⟨[], store, Edit.applyBatch_nil store, hread⟩
    · refine ⟨outcomes, store', ?_, hread'⟩
      rw [Edit.applyBatch_eq hperm hfile hsplices.descending hnone, happly]
  · intro hdesc
    rw [Edit.eq_of_descending hperm hsplices.descending hdesc]
    exact (Edit.foldlM_applyTo_eq_ok_iff hsplices.replaces.overlap?).2 hsplices.replaces

end Tree

namespace Sample

def file : PathName := { text := "a.cs" }

def store : FileStore := { entries := [(["a.cs"], .file tree.source.toUTF8)], here := [] }

theorem read_store : store.read file = .ok tree.source.toUTF8 := by
  have hsize : ¬ "a.cs".utf8ByteSize > FileStore.nameLimit := by decide
  have hat : store.at? ([] ++ ["a.cs"]) = some (.file tree.source.toUTF8) := rfl
  have hstart : store.start file = [] := by
    unfold FileStore.start
    split <;> rfl
  refine FileStore.read_eq_ok_iff.2 ⟨[.name "a.cs"], ["a.cs"], by decide, ?_, hat⟩
  rw [hstart]
  exact FileStore.Leads.file hsize hat

end Sample

theorem Sample.edits_of_tree :
    Sample.tree.root.sound = true ∧ Sample.store.rooted = true ∧
      ∃ out, Sample.tree.fixAll [] (Sample.tree.detect Scope.oracle .warning) = .ok out ∧
        (∃ outcomes store', Edit.applyBatch Sample.store (out.applied.map (·.toEdit Sample.file)) =
            (.ok outcomes, store') ∧ store'.read Sample.file = .ok out.tree.source.toUTF8) ∧
        (FixAll.edits Sample.file out.applied).foldlM (fun content edit => edit.applyTo content)
          Sample.tree.source = .ok out.tree.source := by
  have hsound : Sample.tree.root.sound = true := by decide
  have hstore : Sample.store.rooted = true := by decide
  obtain ⟨out, checks, hout, -⟩ := Tree.fixAll_picked [] (Text.LineIndex.ofText Sample.tree.source)
    .warning hsound (by decide) (by decide)
    (fun check (h : check ∈ Sample.tree.flagged Scope.oracle) => h)
  have hdesc := (Tree.splices_fixAll hsound hout Sample.file).descending
  refine ⟨hsound, hstore, out, hout, ?_, ?_⟩
  · exact (Tree.edits_of_fixAll hsound hout Sample.file _ (List.Perm.refl _)).1 Sample.store hstore
      Sample.read_store
  · exact (Tree.edits_of_fixAll hsound hout Sample.file _ (List.reverse_perm _)).2
      (hdesc.imp fun hlt => hlt.le)

end CancellationLint
