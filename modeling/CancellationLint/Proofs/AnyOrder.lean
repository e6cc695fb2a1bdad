import CancellationLint.Proofs.AllOrNone

/-! # Edits in any order

The edits of a file can be given in any order, with one exception: an insertion that starts where
another edit starts. Insertions at one offset stand in the text in the opposite order of the list, and
an insertion must come after the replacement of what follows it. -/

namespace CancellationLint
namespace Edit

def inserts (edit : Edit) : Bool := edit.span.start = edit.span.stop

/-- The edits that start at an offset, in their order. -/
def startingAt (i : Nat) (edits : List Edit) : List Edit :=
  edits.filter fun edit => edit.span.start = i

/-- When the edits of a file can be applied to its content, in the order of the list. -/
structure Fits [Digest] (content : String) (edits : List Edit) : Prop where
  current : ∀ edit ∈ edits, ∃ found, edit.current content = .ok found
  apart : ∀ a ∈ edits, ∀ b ∈ edits, b.span.start < a.span.start → b.span.stop ≤ a.span.start
  inserts : ∀ i, ∀ edit ∈ (startingAt i edits).tail, edit.inserts = true

/-! ## The order of edits -/

theorem mem_startingAt_iff {i : Nat} {edits : List Edit} {edit : Edit} :
    edit ∈ startingAt i edits ↔ edit ∈ edits ∧ edit.span.start = i := by
  simp [startingAt]

theorem filter_tied_latestFirst (edit : Edit) (edits : List Edit) :
    edits.filter (tied latestFirst edit) = startingAt edit.span.start edits := by
  apply List.filter_congr
  intro other _
  rw [tied, latestFirst, latestFirst, ← Bool.decide_and, decide_eq_decide]
  omega

theorem startingAt_mergeSort (i : Nat) (edits : List Edit) :
    startingAt i (edits.mergeSort latestFirst) = startingAt i edits := by
  have hties := filter_tied_mergeSort latestFirst_trans latestFirst_total
    { file := { text := "" }, span := { start := i, stop := i }, newText := "",
      expected := .exact "" } edits
  rw [filter_tied_latestFirst, filter_tied_latestFirst] at hties
  exact hties

theorem mergeSort_eq_of_startingAt {edits edits' : List Edit}
    (h : ∀ i, startingAt i edits = startingAt i edits') :
    edits.mergeSort latestFirst = edits'.mergeSort latestFirst := by
  refine eq_of_ties latestFirst_total
    (List.pairwise_mergeSort latestFirst_trans latestFirst_total _)
    (List.pairwise_mergeSort latestFirst_trans latestFirst_total _) fun edit => ?_
  rw [filter_tied_latestFirst, filter_tied_latestFirst, startingAt_mergeSort,
    startingAt_mergeSort, h]

/-- Edits with different starts must not overlap; of those with one start, the later ones are
empty. -/
theorem pairwise_stop_le_iff {edits : List Edit}
    (hsorted : edits.Pairwise fun a b => latestFirst a b = true) :
    edits.Pairwise (fun later earlier => earlier.span.stop ≤ later.span.start) ↔
      (∀ a ∈ edits, ∀ b ∈ edits, b.span.start < a.span.start → b.span.stop ≤ a.span.start) ∧
        ∀ i, ∀ edit ∈ (startingAt i edits).tail, edit.span.stop ≤ i := by
  induction edits with
  | nil => simp [startingAt]
  | cons first edits ih =>
    obtain ⟨hfirst, hsorted⟩ := List.pairwise_cons.1 hsorted
    simp only [latestFirst, decide_eq_true_eq] at hfirst
    rw [List.pairwise_cons, ih hsorted]
    constructor
    · rintro ⟨hstop, hapart, htail⟩
      refine ⟨fun a ha b hb hlt => ?_, fun i e he => ?_⟩
      · rcases List.mem_cons.1 ha with rfl | hrest <;> rcases List.mem_cons.1 hb with rfl | hrest'
        · omega
        · exact hstop b hrest'
        · have := hfirst a hrest
          omega
        · exact hapart a hrest b hrest' hlt
      · unfold startingAt at he
        rw [List.filter_cons] at he
        split at he
        · rename_i hi
          rw [← of_decide_eq_true hi]
          exact hstop e (List.mem_of_mem_filter he)
        · exact htail i e he
    · rintro ⟨hapart, htail⟩
      refine ⟨fun e he => ?_, fun a ha b hb => ?_, fun i e he => ?_⟩
      · rcases Nat.lt_or_ge e.span.start first.span.start with hlt | hge
        · exact hapart first (by simp) e (by simp [he]) hlt
        · apply htail
          rw [startingAt, List.filter_cons_of_pos (by simp), List.tail_cons]
          exact mem_startingAt_iff.2 ⟨he, Nat.le_antisymm (hfirst e he) hge⟩
      · exact hapart a (List.mem_cons_of_mem _ ha) b (List.mem_cons_of_mem _ hb)
      · apply htail i
        unfold startingAt
        rw [List.filter_cons]
        split
        · exact List.mem_of_mem_tail he
        · exact he

theorem perm_startingAt {edits edits' : List Edit} (hperm : edits.Perm edits') (i : Nat) :
    (startingAt i edits).Perm (startingAt i edits') :=
  hperm.filter _

theorem AllOf.perm {store : FileStore} {edits edits' : List Edit} {file : PathName}
    {content : ByteArray} (h : AllOf store edits file content) (hperm : edits.Perm edits') :
    AllOf store edits' file content :=
  ⟨h.1, fun edit hedit => h.2 edit (hperm.mem_iff.2 hedit)⟩

theorem AllOf.ofFile_eq {store : FileStore} {edits : List Edit} {file : PathName}
    {content : ByteArray} (h : AllOf store edits file content) :
    ofFile file edits = edits.mergeSort latestFirst := by
  rw [ofFile, List.filter_eq_self.2 fun edit hedit => (h.2 edit hedit).1]

variable [Digest]

/-! ## Edits in order -/

theorem start_le_of_current {edit : Edit} {content found : String}
    (h : edit.current content = .ok found) : edit.span.start ≤ edit.span.stop := by
  obtain ⟨a, b, -, hstart, hstop, -⟩ := current_eq_ok_iff.1 h
  omega

theorem Replaces.current {edits : List Edit} {old new : String} (h : Replaces edits old new) :
    ∀ edit ∈ edits, ∃ found, edit.current old = .ok found := by
  induction h with
  | nil text => simp
  | @cons edit edits a a' found b _ hstart hstop hadmits ih =>
    intro e he
    rcases List.mem_cons.1 he with rfl | he
    · exact ⟨found, current_eq_ok_iff.2 ⟨a, b, rfl, hstart, hstop, hadmits⟩⟩
    · obtain ⟨piece, hpiece⟩ := ih e he
      obtain ⟨x, y, rfl, hspan⟩ := current_eq_ok_iff.1 hpiece
      refine ⟨piece, current_eq_ok_iff.2 ⟨x, y ++ found ++ b, ?_, hspan⟩⟩
      simp only [String.append_assoc]

theorem exists_replaces {edits : List Edit} {a rest : String}
    (hcurrent : ∀ edit ∈ edits, ∃ found, edit.current (a ++ rest) = .ok found)
    (hapart : edits.Pairwise fun later earlier => earlier.span.stop ≤ later.span.start)
    (hwithin : ∀ edit ∈ edits, edit.span.stop ≤ a.utf8ByteSize) : ∃ a', Replaces edits a a' := by
  induction edits generalizing a rest with
  | nil => exact ⟨a, Replaces.nil a⟩
  | cons edit edits ih =>
    obtain ⟨hfirst, hapart⟩ := List.pairwise_cons.1 hapart
    obtain ⟨⟨found, hfound⟩, hothers⟩ := List.forall_mem_cons.1 hcurrent
    obtain ⟨x, b, rfl, hstart, hstop, hadmits⟩ :=
      exists_piece_of_current hfound (hwithin edit (by simp))
    rw [String.append_assoc, String.append_assoc] at hothers
    obtain ⟨x', hrest⟩ := ih hothers hapart (hstart ▸ hfirst)
    exact ⟨_, Replaces.cons hrest hstart hstop hadmits⟩

/-! ## Edits in the order of the list -/

theorem exists_replaces_iff {edits : List Edit} {content : String} :
    (∃ c, Replaces (edits.mergeSort latestFirst) content c) ↔ Fits content edits := by
  have hmem := fun edit => (List.mergeSort_perm edits latestFirst).mem_iff (a := edit)
  have hpairwise := pairwise_stop_le_iff
    (List.pairwise_mergeSort latestFirst_trans latestFirst_total edits)
  simp only [startingAt_mergeSort, hmem] at hpairwise
  constructor
  · rintro ⟨c, h⟩
    obtain ⟨hapart, htail⟩ := hpairwise.1 h.apart.2
    have hcurrent : ∀ edit ∈ edits, ∃ found, edit.current content = .ok found :=
      fun edit hedit => h.current edit ((hmem edit).2 hedit)
    refine ⟨hcurrent, hapart, fun i edit hedit => ?_⟩
    have hstop := htail i edit hedit
    obtain ⟨hin, hstart⟩ := mem_startingAt_iff.1 (List.mem_of_mem_tail hedit)
    obtain ⟨found, hfound⟩ := hcurrent edit hin
    have hle := start_le_of_current hfound
    exact decide_eq_true (by omega)
  · intro h
    apply @exists_replaces _ _ _ ""
    · simpa only [String.append_empty, hmem] using h.current
    · refine hpairwise.2 ⟨h.apart, fun i edit hedit => ?_⟩
      have hspan := of_decide_eq_true (h.inserts i edit hedit)
      have hstart := (mem_startingAt_iff.1 (List.mem_of_mem_tail hedit)).2
      omega
    · intro edit hedit
      obtain ⟨found, hfound⟩ := h.current edit ((hmem edit).1 hedit)
      exact stop_le_of_current hfound

/-! ## Other orders -/

section Perm

variable {content : String} {edits edits' : List Edit} (hperm : edits.Perm edits')

include hperm

theorem Fits.startingAt_eq (h : Fits content edits) {i : Nat}
    (hinserts : ∀ edit ∈ startingAt i edits, edit.inserts = true →
      startingAt i edits = startingAt i edits') : startingAt i edits = startingAt i edits' := by
  have hties := perm_startingAt hperm i
  cases hlist : startingAt i edits with
  | nil =>
    rw [hlist] at hties
    exact hties.nil_eq
  | cons first others =>
    cases others with
    | nil =>
      rw [hlist] at hties
      exact (List.perm_singleton.1 hties.symm).symm
    | cons second others =>
      rw [← hlist]
      exact hinserts second (by simp [hlist]) (h.inserts i second (by simp [hlist]))

theorem Fits.perm (h : Fits content edits)
    (hmixed : ∀ a ∈ edits, ∀ b ∈ edits, a.inserts = true → b.inserts = false →
      a.span.start = b.span.start →
      startingAt a.span.start edits = startingAt a.span.start edits') : Fits content edits' := by
  refine ⟨fun e he => h.current e (hperm.mem_iff.2 he), fun a ha b hb =>
    h.apart a (hperm.mem_iff.2 ha) b (hperm.mem_iff.2 hb), fun i edit hedit => ?_⟩
  by_contra hreplaces
  rw [Bool.not_eq_true] at hreplaces
  obtain ⟨hin, hstart⟩ := mem_startingAt_iff.1 (List.mem_of_mem_tail hedit)
  -- A replacement that does not come first at its start does not in the other order either.
  have hsame : startingAt i edits = startingAt i edits' := by
    apply h.startingAt_eq hperm
    intro a ha hinserts
    obtain ⟨hmem, rfl⟩ := mem_startingAt_iff.1 ha
    exact hmixed a hmem edit (hperm.mem_iff.2 hin) hinserts hreplaces hstart.symm
  rw [← hsame] at hedit
  rw [h.inserts i edit hedit] at hreplaces
  cases hreplaces

theorem Fits.mergeSort_eq (h : Fits content edits)
    (hinserts : ∀ edit ∈ edits, edit.inserts = true →
      startingAt edit.span.start edits = startingAt edit.span.start edits') :
    edits.mergeSort latestFirst = edits'.mergeSort latestFirst := by
  apply mergeSort_eq_of_startingAt
  intro i
  apply h.startingAt_eq hperm
  intro edit hedit hinsert
  obtain ⟨hmem, rfl⟩ := mem_startingAt_iff.1 hedit
  exact hinserts edit hmem hinsert

end Perm

/-! ## Batches -/

def Succeeds (store : FileStore) (edits : List Edit) : Prop :=
  ∃ outcomes, (applyBatch store edits).1 = .ok outcomes

section OneFile

variable {store : FileStore} {edits edits' : List Edit} {file : PathName} {content : ByteArray}

theorem AllOf.text_of_succeeds (h : AllOf store edits file content) (hs : Succeeds store edits) :
    edits = [] ∨ ∃ text : String, content = text.toUTF8 := by
  by_cases hnil : edits = []
  · exact .inl hnil
  · obtain ⟨first, hfirst, hbatch⟩ := applyBatch_of_file store (fun e he => (h.2 e he).1) hnil
    obtain ⟨outcomes, hok⟩ := hs
    cases hfile : applyFile store first.file (ofFile file edits) with
    | error e =>
      rw [hbatch, hfile] at hok
      cases hok
    | ok written =>
      obtain ⟨⟨text, hread⟩, -⟩ := read_of_applyFile hfile
      rw [(h.2 first hfirst).2] at hread
      exact .inr ⟨text, Except.ok.inj hread⟩

theorem succeeds_iff {text : String} (hstore : store.rooted = true)
    (h : AllOf store edits file text.toUTF8) : Succeeds store edits ↔ Fits text edits := by
  rw [← exists_replaces_iff, ← h.ofFile_eq]
  constructor
  · rintro ⟨outcomes, hok⟩
    obtain ⟨c, hreplaces, -⟩ := exists_replaces_of_ok hstore h (Prod.ext hok rfl)
    exact ⟨c, hreplaces⟩
  · rintro ⟨c, hreplaces⟩
    obtain ⟨outcomes, store', hbatch, -⟩ := (gives_iff hstore h c).2 hreplaces
    exact ⟨outcomes, by rw [hbatch]⟩

theorem Succeeds.perm (hstore : store.rooted = true) (h : AllOf store edits file content)
    (hperm : edits.Perm edits')
    (hmixed : ∀ a ∈ edits, ∀ b ∈ edits, a.inserts = true → b.inserts = false →
      a.span.start = b.span.start →
      startingAt a.span.start edits = startingAt a.span.start edits')
    (hs : Succeeds store edits) : Succeeds store edits' := by
  rcases h.text_of_succeeds hs with rfl | ⟨text, rfl⟩
  · rw [← hperm.nil_eq]
    exact hs
  · have hfits := (succeeds_iff hstore h).1 hs
    exact (succeeds_iff hstore (h.perm hperm)).2 (hfits.perm hperm hmixed)

theorem Gives.perm (hstore : store.rooted = true) (h : AllOf store edits file content)
    (hperm : edits.Perm edits')
    (hinserts : ∀ edit ∈ edits, edit.inserts = true →
      startingAt edit.span.start edits = startingAt edit.span.start edits') {c : String}
    (hgives : Gives store edits file c) : Gives store edits' file c := by
  have hs : Succeeds store edits := by
    obtain ⟨outcomes, store', hbatch, -⟩ := hgives
    exact ⟨outcomes, by rw [hbatch]⟩
  rcases h.text_of_succeeds hs with rfl | ⟨text, rfl⟩
  · rw [← hperm.nil_eq]
    exact hgives
  · have hfits := (succeeds_iff hstore h).1 hs
    have hreplaces := (gives_iff hstore h c).1 hgives
    rw [h.ofFile_eq, hfits.mergeSort_eq hperm hinserts, ← (h.perm hperm).ofFile_eq] at hreplaces
    exact (gives_iff hstore (h.perm hperm) c).2 hreplaces

end OneFile

end Edit

/-- The order of the edits counts only among those with one start, and there only for insertions. -/
theorem Edit.applyBatch_any_order [Digest] {store : FileStore} {edits edits' : List Edit} {file : PathName}
    {content : ByteArray} (hstore : store.rooted = true) (hall : AllOf store edits file content)
    (hperm : edits.Perm edits') :
    ((∀ a ∈ edits, ∀ b ∈ edits, a.inserts = true → b.inserts = false →
        a.span.start = b.span.start →
        startingAt a.span.start edits = startingAt a.span.start edits') →
      (Succeeds store edits ↔ Succeeds store edits')) ∧
    ((∀ edit ∈ edits, edit.inserts = true →
        startingAt edit.span.start edits = startingAt edit.span.start edits') →
      (Succeeds store edits ↔ Succeeds store edits') ∧
        ∀ c, Gives store edits file c ↔ Gives store edits' file c) := by
  have hall' := hall.perm hperm
  have hback : ∀ {a : Edit}, a ∈ edits' → a ∈ edits := hperm.mem_iff.2
  constructor
  · intro hmixed
    refine ⟨Succeeds.perm hstore hall hperm hmixed, Succeeds.perm hstore hall' hperm.symm ?_⟩
    intro a ha b hb hinsert hreplace hstart
    exact (hmixed a (hback ha) b (hback hb) hinsert hreplace hstart).symm
  · intro hinserts
    have hinserts' : ∀ edit ∈ edits', edit.inserts = true →
        startingAt edit.span.start edits' = startingAt edit.span.start edits :=
      fun edit hedit hinsert => (hinserts edit (hback hedit) hinsert).symm
    refine ⟨⟨?_, ?_⟩, fun c => ⟨?_, ?_⟩⟩
    · exact Succeeds.perm hstore hall hperm fun a ha _ _ hinsert _ _ => hinserts a ha hinsert
    · exact Succeeds.perm hstore hall' hperm.symm fun a ha _ _ hinsert _ _ =>
        hinserts' a ha hinsert
    · exact Gives.perm hstore hall hperm hinserts
    · exact Gives.perm hstore hall' hperm.symm hinserts'

theorem Sample.applyBatch_backwards :
    Sample.pair.rooted = true ∧
      Edit.AllOf Sample.pair Sample.pairEdits { text := "A.cs" } "ab".toUTF8 ∧
      Sample.pairEdits.Perm Sample.pairEdits.reverse ∧
      (∀ edit ∈ Sample.pairEdits, edit.inserts = true →
        Edit.startingAt edit.span.start Sample.pairEdits =
          Edit.startingAt edit.span.start Sample.pairEdits.reverse) ∧
      ∀ c, Edit.Gives Sample.pair Sample.pairEdits { text := "A.cs" } c ↔
        Edit.Gives Sample.pair Sample.pairEdits.reverse { text := "A.cs" } c := by
  have hstore : Sample.pair.rooted = true := by decide
  have hperm := (List.reverse_perm Sample.pairEdits).symm
  have hinserts : ∀ edit ∈ Sample.pairEdits, edit.inserts = true →
      Edit.startingAt edit.span.start Sample.pairEdits =
        Edit.startingAt edit.span.start Sample.pairEdits.reverse := by decide
  have horder := Edit.applyBatch_any_order hstore Sample.allOf_pairEdits hperm
  exact ⟨hstore, Sample.allOf_pairEdits, hperm, hinserts, (horder.2 hinserts).2⟩

namespace Sample

def insertion (text : String) : Edit :=
  .ofTexts { text := "A.cs" } { start := 1, stop := 1 } text ""

def replacement : Edit := .ofTexts { text := "A.cs" } { start := 1, stop := 2 } "z" "b"

end Sample

theorem Sample.applyBatch_swapped :
    (Edit.applyBatch Sample.pair [Sample.insertion "x", Sample.insertion "y"]).2.read
        { text := "A.cs" } = .ok "ayxb".toUTF8 ∧
      (Edit.applyBatch Sample.pair [Sample.insertion "y", Sample.insertion "x"]).2.read
        { text := "A.cs" } = .ok "axyb".toUTF8 ∧
      (Edit.applyBatch Sample.pair [Sample.replacement, Sample.insertion "x"]).2.read
        { text := "A.cs" } = .ok "axz".toUTF8 ∧
      (Edit.applyBatch Sample.pair [Sample.insertion "x", Sample.replacement]).1 =
        .error (.overlap { text := "A.cs" } 1) := by
  refine ⟨?_, ?_, ?_, ?_⟩ <;>
    · rw [Edit.applyBatch_eq_applyGroups, Edit.groups_of_sorted (by decide +kernel)]
      decide +kernel

end CancellationLint
