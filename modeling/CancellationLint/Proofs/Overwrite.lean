import CancellationLint.Proofs.Edits
import CancellationLint.Workspace

/-! # Replacing whole files

An edit of a whole file looks at as many bytes as the file had when the edit was planned. A file that
has grown since then is taken for unchanged, and what was added stays behind the new text. -/

namespace CancellationLint
namespace Edit

/-! ## One edit of a file -/

theorem eq_toUTF8_of_fromUTF8? {bytes : ByteArray} {text : String}
    (h : String.fromUTF8? bytes = some text) : bytes = text.toUTF8 := by
  unfold String.fromUTF8? at h
  split at h
  · cases h
    rfl
  · cases h

section Single

variable [Digest]

theorem weave_singleton (edit : Edit) (content : String) :
    ∃ outcome, weave edit.file content content [edit] =
      (edit.applyTo content).map fun result => (result, [outcome]) := by
  cases hfound : edit.current content with
  | error e => exact ⟨.already edit.file, by simp [weave, applyTo, hfound, Except.bind, Except.map]⟩
  | ok found =>
    obtain ⟨a, b, rfl, hstart, hstop, -⟩ := current_eq_ok_iff.1 hfound
    unfold weave applyTo
    rw [hfound, hstart, hstop, Text.splice?_append]
    simp only [Except.bind, Except.map]
    split
    · rename_i hsame
      exact ⟨.already edit.file, by rw [weave, hsame]⟩
    · exact ⟨.applied edit.file edit.newText.utf8ByteSize, by rw [weave]⟩

theorem applyFile_singleton {store : FileStore} {edit : Edit} {content : String}
    (hread : store.read edit.file = .ok content.toUTF8) :
    ∃ outcome, applyFile store edit.file [edit] = (edit.applyTo content).bind fun result =>
      if result = content then .ok ([outcome], store)
      else
        match store.replace edit.file result.toUTF8 with
        | .ok store => .ok ([outcome], store)
        | .error cause => .error (.unusable edit.file cause) := by
  obtain ⟨outcome, hweave⟩ := weave_singleton edit content
  refine ⟨outcome, ?_⟩
  unfold applyFile
  rw [hread]
  simp only [fromUTF8?_toUTF8, overlap?, hweave]
  cases edit.applyTo content <;> rfl

theorem read_of_applyFile {store store' : FileStore} {file : PathName} {edits : List Edit}
    {outcomes : List EditOutcome} (h : applyFile store file edits = .ok (outcomes, store')) :
    (∃ content : String, store.read file = .ok content.toUTF8) ∧ overlap? edits = none := by
  unfold applyFile at h
  split at h
  · cases h
  · rename_i bytes hread
    split at h
    · cases h
    · rename_i content hcontent
      split at h
      · cases h
      · rename_i hoverlap
        exact ⟨⟨content, by rw [hread, eq_toUTF8_of_fromUTF8? hcontent]⟩, hoverlap⟩

theorem applyTo_of_applyFile {store store' : FileStore} {edit : Edit} {outcomes : List EditOutcome}
    (h : applyFile store edit.file [edit] = .ok (outcomes, store')) :
    ∃ content result : String, store.read edit.file = .ok content.toUTF8 ∧
      edit.applyTo content = .ok result ∧
      (store' = store ∨ result ≠ content ∧ store.replace edit.file result.toUTF8 = .ok store') := by
  obtain ⟨⟨content, hread⟩, -⟩ := read_of_applyFile h
  obtain ⟨outcome, happly⟩ := applyFile_singleton hread
  rw [happly] at h
  cases hresult : edit.applyTo content with
  | error e =>
    rw [hresult] at h
    cases h
  | ok result =>
    refine ⟨content, result, hread, hresult, ?_⟩
    rw [hresult, Except.bind] at h
    split at h
    · cases h
      exact .inl rfl
    · rename_i hne
      split at h
      · rename_i next hreplace
        cases h
        exact .inr ⟨hne, hreplace⟩
      · cases h

/-- On its file, alone or as a batch of one, the edit does what it does to the text. -/
def ActsAsOn (edit : Edit) (content : String) (store : FileStore) : Prop :=
  match edit.applyTo content with
  | .ok result => ∃ outcome store', edit.apply store = .ok (outcome, store') ∧
      applyBatch store [edit] = (.ok [outcome], store') ∧ store'.read edit.file = .ok result.toUTF8
  | .error e => edit.apply store = .error e ∧ applyBatch store [edit] = (.error e, store)

theorem actsAsOn_of_read {store : FileStore} {edit : Edit} {content : String}
    (hstore : store.rooted = true) (hread : store.read edit.file = .ok content.toUTF8) :
    edit.ActsAsOn content store := by
  obtain ⟨outcome, hfile⟩ := applyFile_singleton hread
  unfold ActsAsOn apply
  rw [applyBatch_eq (List.Perm.refl [edit]) (by simp : ∀ e ∈ [edit], e.file = edit.file)
    (List.pairwise_singleton _ edit) (by simp)]
  rw [hfile]
  cases edit.applyTo content with
  | error e => exact ⟨rfl, rfl⟩
  | ok result =>
    simp only [Except.bind]
    by_cases hsame : result = content
    · rw [if_pos hsame, hsame]
      exact ⟨outcome, store, rfl, rfl, hread⟩
    · obtain ⟨store', hreplace, hread'⟩ := FileStore.read_replace result.toUTF8 hstore hread
      rw [if_neg hsame, hreplace]
      exact ⟨outcome, store', rfl, rfl, hread'⟩

end Single

/-! ## Whole files -/

/-- Whether `content` starts with `before`, or with `after` when that has the same size. -/
def Meets (before after content rest : String) : Prop :=
  content = before ++ rest ∨ content = after ++ rest ∧ after.utf8ByteSize = before.utf8ByteSize

theorem meets_iff_of_size_le {before after content rest : String}
    (h : content.utf8ByteSize ≤ before.utf8ByteSize) :
    Meets before after content rest ↔ rest = "" ∧
      (content = before ∨ content = after ∧ after.utf8ByteSize = before.utf8ByteSize) := by
  have hrest : Meets before after content rest → rest = "" := by
    rintro (rfl | ⟨rfl, hsize⟩) <;> rw [String.utf8ByteSize_append] at h <;>
      exact String.utf8ByteSize_eq_zero_iff.1 (by omega)
  constructor
  · intro hmeets
    obtain rfl := hrest hmeets
    exact ⟨rfl, by simpa [Meets] using hmeets⟩
  · rintro ⟨rfl, hcontent⟩
    simpa [Meets] using hcontent

variable [Digest]

theorem applyTo_replaceFile_of_meets (file : PathName) {before after content : String}
    (rest : String) (h : Meets before after content rest) :
    (replaceFile file before after).applyTo content = .ok (after ++ rest) := by
  refine applyTo_eq_ok_iff.2 ?_
  rcases h with rfl | ⟨rfl, hsize⟩
  · exact ⟨"", before, rest, by simp, rfl, by simp [replaceFile, ofTexts], .inr (admits_self _),
      by simp [replaceFile, ofTexts]⟩
  · exact ⟨"", after, rest, by simp, rfl, by simp [replaceFile, ofTexts, hsize], .inl rfl,
      by simp [replaceFile, ofTexts]⟩

theorem applyTo_replaceFile (hdigest : Function.Injective Digest.ofText) {file : PathName}
    {before after content result : String} :
    (replaceFile file before after).applyTo content = .ok result ↔
      ∃ rest, Meets before after content rest ∧ result = after ++ rest := by
  constructor
  · rw [applyTo_eq_ok_iff]
    simp only [replaceFile, ofTexts, admits_ofText_iff hdigest]
    rintro ⟨a, found, rest, rfl, hstart, hstop, hfound, rfl⟩
    obtain rfl : a = "" := String.utf8ByteSize_eq_zero_iff.1 hstart.symm
    refine ⟨rest, ?_, by simp⟩
    rcases hfound with rfl | rfl
    · exact .inr ⟨by simp, by simpa using hstop.symm⟩
    · exact .inl (by simp)
  · rintro ⟨rest, hmeets, rfl⟩
    exact applyTo_replaceFile_of_meets file rest hmeets

end Edit

/-! ## Workspaces -/

namespace Workspace

def Allows (guard : Guard) (store : FileStore) (plan : FilePlan) (file : PathName) : Prop :=
  ∃ place, guard.check store plan.file = .ok place ∧ file = .ofNames place

/-- Each file starts with the text that was planned for it when it is replaced. -/
inductive Overwrites (guard : Guard) (origin : FileStore) (plans : List FilePlan) :
    FileStore → FileStore → Prop
  | done (store : FileStore) : Overwrites guard origin plans store store
  | replace {store next last : FileStore} {plan : FilePlan} {file : PathName} {rest : String} :
    plan ∈ plans → Allows guard origin plan file →
    store.read file = .ok (plan.before ++ rest).toUTF8 →
    store.replace file (plan.after ++ rest).toUTF8 = .ok next →
    Overwrites guard origin plans next last → Overwrites guard origin plans store last

theorem before_ne_of_plan {w : Workspace} {grammar : Grammar} {l : Label} {a : Analysis}
    {plan : FilePlan} (h : w.plan grammar l a = .ok (some plan)) : plan.before ≠ "" := by
  unfold Workspace.plan at h
  split at h
  · cases h
  · rename_i hfound
    split at h
    · cases h
    · rename_i fixed hfixed
      simp only at h
      split at h
      · cases h
      · cases h
        obtain ⟨d, ds, hds⟩ := List.exists_cons_of_ne_nil hfound
        obtain ⟨check, hcheck⟩ := (Tree.run_of_fixAll hfixed).1 d.location.span.start
          (by simp [Tree.starts, hds])
        obtain ⟨hof, hnode, -⟩ := Tree.checkAt?_eq_some hcheck
        have hflag := Check.flag_le_text hnode
        have htext := Element.text_size_at hof.element_at
        have hsize : 0 < cancellationFlag.utf8ByteSize := by decide
        intro hempty
        have hsource := congrArg String.utf8ByteSize hempty
        simp only [Tree.source, Element.fullText_split, String.utf8ByteSize_append] at hsource
        simp only [Cursor.text] at hflag
        have : "".utf8ByteSize = 0 := rfl
        omega

variable [Digest]

theorem mem_guardedEdits {guard : Guard} {store : FileStore} {plans : List FilePlan}
    {edits : List Edit} (h : guardedEdits guard store plans = .ok edits) :
    ∀ edit ∈ edits, ∃ plan ∈ plans, ∃ file, Allows guard store plan file ∧
      edit = .replaceFile file plan.before plan.after := by
  induction plans generalizing edits with
  | nil =>
    cases h
    simp
  | cons plan rest ih =>
    rw [guardedEdits] at h
    cases hplace : guard.check store plan.file with
    | error e =>
      rw [hplace] at h
      cases h
    | ok place =>
      cases hrest : guardedEdits guard store rest with
      | error e =>
        rw [hplace, hrest] at h
        cases h
      | ok others =>
        rw [hplace, hrest] at h
        cases h
        intro edit hedit
        rcases List.mem_cons.1 hedit with rfl | hedit
        · exact ⟨plan, by simp, .ofNames place, ⟨place, hplace, rfl⟩, rfl⟩
        · obtain ⟨other, hother, himage⟩ := ih hrest edit hedit
          exact ⟨other, by simp [hother], himage⟩

/-- Two plans for one file overlap, so that a group of more than one edit is refused. -/
theorem overlap?_replaceFile {edit : Edit} {edits : List Edit} {file : PathName}
    {before after : String} (hstart : edit.span.start = 0) (hbefore : before ≠ "") :
    Edit.overlap? (edit :: .replaceFile file before after :: edits) = some 0 := by
  have hsize : before.utf8ByteSize ≠ 0 := fun h => hbefore (String.utf8ByteSize_eq_zero_iff.1 h)
  rw [Edit.overlap?, hstart, if_pos]
  simp only [Edit.replaceFile, Edit.ofTexts]
  omega

variable {guard : Guard} {origin : FileStore} {plans : List FilePlan}
  (hdigest : Function.Injective Digest.ofText)

include hdigest

theorem overwrites_applyFile {store store' last : FileStore} {edit : Edit} {edits : List Edit}
    {outcomes : List EditOutcome} (hbefore : ∀ plan ∈ plans, plan.before ≠ "")
    (hedits : ∀ e ∈ edit :: edits, ∃ plan ∈ plans, ∃ file, Allows guard origin plan file ∧
      e = .replaceFile file plan.before plan.after)
    (h : Edit.applyFile store edit.file (edit :: edits) = .ok (outcomes, store'))
    (hlast : Overwrites guard origin plans store' last) :
    Overwrites guard origin plans store last := by
  obtain ⟨plan, hplan, file, hallows, rfl⟩ := hedits edit (by simp)
  cases edits with
  | cons next others =>
    obtain ⟨other, hother, _, -, rfl⟩ := hedits next (by simp)
    have hoverlap := (Edit.read_of_applyFile h).2
    rw [overlap?_replaceFile rfl (hbefore other hother)] at hoverlap
    cases hoverlap
  | nil =>
    obtain ⟨content, result, hread, hresult, hstore⟩ := Edit.applyTo_of_applyFile h
    obtain ⟨rest, hmeets, rfl⟩ := (Edit.applyTo_replaceFile hdigest).1 hresult
    rcases hstore with rfl | ⟨hne, hreplace⟩
    · exact hlast
    · rcases hmeets with rfl | ⟨hsame, -⟩
      · exact .replace hplan hallows hread hreplace hlast
      · exact absurd hsame.symm hne

theorem overwrites_applyGroups (hbefore : ∀ plan ∈ plans, plan.before ≠ "")
    {groups : List (List Edit)} (hedits : ∀ group ∈ groups, ∀ e ∈ group, ∃ plan ∈ plans, ∃ file,
      Allows guard origin plan file ∧ e = .replaceFile file plan.before plan.after)
    (store : FileStore) :
    Overwrites guard origin plans store (Edit.applyGroups store groups).2 := by
  induction groups generalizing store with
  | nil => exact .done store
  | cons group groups ih =>
    have hgroups := fun g hg => hedits g (List.mem_cons_of_mem _ hg)
    cases group with
    | nil => exact ih hgroups store
    | cons edit edits =>
      rw [Edit.applyGroups]
      cases h : Edit.applyFile store edit.file (edit :: edits) with
      | error e => exact .done store
      | ok written =>
        exact overwrites_applyFile hdigest hbefore (hedits _ (by simp)) h (ih hgroups written.2)

theorem overwrites_applyBatch (hbefore : ∀ plan ∈ plans, plan.before ≠ "") {edits : List Edit}
    (h : guardedEdits guard origin plans = .ok edits) (store : FileStore) :
    Overwrites guard origin plans store (Edit.applyBatch store edits).2 := by
  rw [Edit.applyBatch_eq_applyGroups]
  refine overwrites_applyGroups hdigest hbefore (fun group hgroup e he => ?_) store
  exact mem_guardedEdits h e (Edit.mem_of_mem_groups hgroup he)

theorem overwrites_write {w : Workspace} {plans : List FilePlan} (store : FileStore)
    (hplans : ∀ plan ∈ plans, ∃ grammar l a, w.plan grammar l a = .ok (some plan)) :
    (w.write store plans).2 = store ∨
      ∃ guard, Guard.ofRoot store w.root w.settings.exclude = .ok guard ∧
        Overwrites guard store plans store (w.write store plans).2 := by
  unfold write
  cases hguard : Guard.ofRoot store w.root w.settings.exclude with
  | error e => exact .inl rfl
  | ok guard =>
    cases hedits : guardedEdits guard store plans with
    | error e => exact .inl (by simp [Except.bind, hedits])
    | ok edits =>
      refine .inr ⟨guard, rfl, ?_⟩
      simp only [Except.bind, hedits]
      refine overwrites_applyBatch hdigest (fun plan hplan => ?_) hedits store
      obtain ⟨grammar, l, a, ha⟩ := hplans plan hplan
      exact before_ne_of_plan ha

end Workspace

/-- An edit of a whole file compares the start of the file, as far as the old text went. -/
theorem Edit.replaceFile_checks_start [Digest] (hdigest : Function.Injective Digest.ofText)
    (file : PathName) (before after content : String) :
    (∀ result, (replaceFile file before after).applyTo content = .ok result ↔
      ∃ rest, Meets before after content rest ∧ result = after ++ rest) ∧
    (content.utf8ByteSize ≤ before.utf8ByteSize → ∀ rest, Meets before after content rest ↔
      rest = "" ∧ (content = before ∨
        content = after ∧ after.utf8ByteSize = before.utf8ByteSize)) ∧
    (∀ store : FileStore, store.rooted = true → store.read file = .ok content.toUTF8 →
      (replaceFile file before after).ActsAsOn content store) ∧
    (∀ (w : Workspace) (store : FileStore) (plans : List FilePlan),
      (∀ plan ∈ plans, ∃ grammar l a, w.plan grammar l a = .ok (some plan)) →
      (w.write store plans).2 = store ∨
        ∃ guard, Guard.ofRoot store w.root w.settings.exclude = .ok guard ∧
          Workspace.Overwrites guard store plans store (w.write store plans).2) :=
  ⟨fun _ => applyTo_replaceFile hdigest, fun hsize _ => meets_iff_of_size_le hsize,
    fun _ hstore hread => actsAsOn_of_read hstore hread,
    fun _ store _ hplans => Workspace.overwrites_write hdigest store hplans⟩

theorem Digest.number_injective : Function.Injective Digest.number := by
  have hlt : ∀ c : Char, c.toNat < 0x110000 := by
    intro c
    rcases c.valid with h | ⟨-, h⟩
    · exact h.trans (by decide)
    · exact h
  intro s t h
  induction s generalizing t with
  | nil =>
    cases t with
    | nil => rfl
    | cons d ds =>
      simp only [Digest.number] at h
      omega
  | cons c cs ih =>
    cases t with
    | nil =>
      simp only [Digest.number] at h
      omega
    | cons d ds =>
      simp only [Digest.number] at h
      have hc := hlt c
      have hd := hlt d
      have hhead : c.toNat = d.toNat := by omega
      rw [Char.toNat_inj.1 hhead, @ih ds (by omega)]

theorem Digest.whole_injective : Function.Injective Digest.whole.ofText :=
  fun _ _ h => String.toList_inj.1 (Digest.number_injective h)

def Sample.longText : String := String.ofList (List.replicate 1025 'a')

theorem Sample.replaceFile_long :
    Function.Injective Digest.whole.ofText ∧
      Expected.exactLimit < Sample.longText.utf8ByteSize ∧
      (Edit.replaceFile Sample.file Sample.longText "x").applyTo (Sample.longText ++ "b") =
        .ok ("x" ++ "b") ∧
      ∀ result, (Edit.replaceFile Sample.file Sample.longText "x").applyTo "ab" ≠ .ok result := by
  have hlong := Edit.replaceFile_checks_start Digest.whole_injective Sample.file Sample.longText "x"
  refine ⟨Digest.whole_injective, by decide +kernel, ?_, fun result hresult => ?_⟩
  · exact ((hlong _).1 _).2 ⟨"b", .inl rfl, rfl⟩
  · obtain ⟨rest, hmeets, -⟩ := ((hlong "ab").1 result).1 hresult
    have hsame := (((hlong "ab").2.1 (by decide +kernel) rest).1 hmeets).2
    revert hsame
    decide +kernel

/-- A file that has grown is neither refused nor replaced as a whole. -/
theorem Sample.replaceFile_grown :
    (Edit.replaceFile Sample.file "a" "x").applyTo "ab" = .ok "xb" ∧ "ab" ≠ "a" ∧ "ab" ≠ "x" ∧
      "xb" ≠ "x" :=
  ⟨Edit.applyTo_replaceFile_of_meets _ "b" (.inl rfl), by decide, by decide, by decide⟩

end CancellationLint
