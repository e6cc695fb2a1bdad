import CancellationLint.Proofs.FixInvariants
import CancellationLint.Proofs.Lossless
import CancellationLint.Proofs.LayoutAfterFixes
import CancellationLint.Proofs.Replace

/-! # What nodes store

The width of a node and its error mark are stored when the node is built, and every edit computes
them anew from the old ones. As long as only nodes of the kind for errors are marked, both stay up
to date: the width is that of the text, and a node is marked exactly if an error or a made-up token
is in it. -/

namespace CancellationLint

namespace Element

/-- Whether width and mark of a node are what its kind and its children give. -/
def tallies : Element → Bool
  | .token _ => true
  | .node h children =>
    h.width = widthOf children && h.hasError = (h.kind = .error || children.any hasError)

def upToDate (e : Element) : Bool := e.all tallies

def faulty : Element → Bool
  | .token t => t.missing
  | .node h _ => h.kind = .error

@[simp] theorem upToDate_token (t : Token) : (Element.token t).upToDate = true := rfl

theorem upToDate_node_iff {h : Head} {es : List Element} :
    (Element.node h es).upToDate = true ↔ h.width = widthOf es ∧
      (h.hasError = true ↔ h.kind = .error ∨ es.any hasError = true) ∧
        ∀ e ∈ es, e.upToDate = true := by
  unfold upToDate
  rw [all_node_iff, tallies, Bool.and_eq_true, decide_eq_true_eq, decide_eq_true_eq,
    Bool.eq_iff_iff, Bool.or_eq_true, decide_eq_true_eq, and_assoc]

theorem sound_of_upToDate {e : Element} (he : e.upToDate = true) : e.sound = true := by
  induction e with
  | token t => rfl
  | node h es ih =>
    obtain ⟨hw, hmark, hes⟩ := upToDate_node_iff.1 he
    exact (sound_node_iff h es).2 ⟨hw, hmark.2, fun e hmem => ih e hmem (hes e hmem)⟩

theorem hasError_iff_faulty {e : Element} (he : e.upToDate = true) :
    e.hasError = true ↔ ∃ q y, e.at? q = some y ∧ y.faulty = true := by
  induction e with
  | token t =>
    constructor
    · intro h
      exact ⟨[], .token t, rfl, h⟩
    · rintro ⟨q, y, hy, hf⟩
      cases q with
      | nil =>
        cases hy
        exact hf
      | cons i q => cases hy
  | node h es ih =>
    obtain ⟨-, hmark, hes⟩ := upToDate_node_iff.1 he
    rw [hasError, hmark, List.any_eq_true]
    constructor
    · rintro (hkind | ⟨e, hmem, herr⟩)
      · exact ⟨[], .node h es, rfl, by simp [faulty, hkind]⟩
      · obtain ⟨q, y, hy, hf⟩ := (ih e hmem (hes e hmem)).1 herr
        obtain ⟨i, hi⟩ := List.mem_iff_getElem?.1 hmem
        exact ⟨i :: q, y, at?_cons_iff.2 ⟨e, hi, hy⟩, hf⟩
    · rintro ⟨q, y, hy, hf⟩
      cases q with
      | nil =>
        cases hy
        exact Or.inl (by simpa [faulty] using hf)
      | cons i q =>
        obtain ⟨e, hi, hy⟩ := at?_cons_iff.1 hy
        have hmem : e ∈ es := List.mem_of_getElem? hi
        exact Or.inr ⟨e, hmem, (ih e hmem (hes e hmem)).2 ⟨q, y, hy, hf⟩⟩

/-! ## Building and changing elements -/

theorem upToDate_make (l : Label) (kind : Kind) {es : List Element}
    (hes : ∀ e ∈ es, e.upToDate = true) : (make l kind es).upToDate = true := by
  unfold make
  rw [upToDate_node_iff]
  exact ⟨rfl, by simp, hes⟩

theorem upToDate_withReformat (l : Label) (r : Option Reformat) {e : Element}
    (he : e.upToDate = true) : (e.withReformat l r).upToDate = true := by
  cases e with
  | token t => rfl
  | node h es =>
    rw [upToDate_node_iff] at he
    rw [withReformat, upToDate_node_iff]
    exact he

theorem upToDate_markError (l : Label) {e : Element} (he : e.upToDate = true)
    (hkind : e.kind = .error) : (e.markError l).upToDate = true := by
  cases e with
  | token t => rfl
  | node h es =>
    obtain ⟨hw, -, hes⟩ := upToDate_node_iff.1 he
    have hk : h.kind = .error := hkind
    rw [markError, upToDate_node_iff]
    exact ⟨hw, by simp [hk], hes⟩

/-- What the child that is gone does not account for is still there. -/
theorem upToDate_swap {h : Head} {es : List Element} {old new : Element} {i : Nat} (l : Label)
    (hs : (Element.node h es).upToDate = true) (hold : es[i]? = some old)
    (hnew : new.upToDate = true) :
    (Element.node (h.swap l old (es.set i new)) (es.set i new)).upToDate = true := by
  obtain ⟨-, hmark, hes⟩ := upToDate_node_iff.1 hs
  have hkind : (h.swap l old (es.set i new)).kind = h.kind := rfl
  rw [upToDate_node_iff, hkind, hasError_swap_iff, hmark, any_hasError_iff hold,
    any_hasError_set_iff hold]
  refine ⟨rfl, ?_, fun e he => ?_⟩
  · -- If the old child was in error the mark is made anew, else kind and siblings account for it.
    cases old.hasError with
    | true => simp
    | false =>
      simp only [Bool.false_eq_true, false_or, and_true]
      tauto
  · rcases List.mem_or_eq_of_mem_set he with he | rfl
    · exact hes e he
    · exact hnew

theorem lasting_upToDate : Lasting fun e e' => e.upToDate = true → e'.upToDate = true where
  token _ _ _ _ _ := rfl
  relabel _ _ _ h := upToDate_node_iff.2 (upToDate_node_iff.1 h)
  swap l hold hnew h :=
    upToDate_swap l h hold (hnew ((upToDate_node_iff.1 h).2.2 _ (List.mem_of_getElem? hold)))
  refl _ := id
  trans hab hbc h := hbc (hab h)
  withReformat l r _ := upToDate_withReformat l r

end Element

/-! ## Fixes -/

namespace Fix

theorem upToDate_callStatement (l : Label) {receiver : Element} (h : receiver.upToDate = true) :
    (callStatement l receiver).upToDate = true :=
  all_callStatement (fun _ => rfl) (fun l kind es => by simp [Element.make, Element.tallies]) l h

theorem upToDate_replacementFor (l : Label) {check : Check} (indent : Option String)
    (h : check.receiver.element.upToDate = true) :
    (replacementFor l check indent).upToDate = true := by
  have hcall := upToDate_callStatement (l.sub 0) h
  unfold replacementFor
  apply Element.upToDate_withReformat
  apply Element.lasting_upToDate.withTrailing
  split
  · exact hcall
  · exact Element.lasting_upToDate.withLeading _ _ _ hcall

theorem kept_upToDate : Kept fun e => e.upToDate = true where
  part := Element.all_at
  swap l h hold hnew := Element.upToDate_swap l h hold hnew
  call l h := upToDate_replacementFor l _ h

end Fix

/-! ## Trees from a grammar -/

namespace Concrete

mutual

def marksErrors : Concrete → Bool
  | .node h children =>
    h.isTrivia || children.isEmpty ||
      (!(h.error || h.missing) || Kind.ofName h.kind = .error) && allMarkErrors children

def allMarkErrors : List Concrete → Bool
  | [] => true
  | c :: rest => c.marksErrors && allMarkErrors rest

end

theorem allMarkErrors_iff {cs : List Concrete} :
    allMarkErrors cs = true ↔ ∀ c ∈ cs, c.marksErrors = true := by
  induction cs with
  | nil => simp [allMarkErrors]
  | cons c cs ih => simp [allMarkErrors, ih]

theorem upToDate_marked {mark : Bool} {e : Element} (he : e.upToDate = true)
    (h : mark = true → e.kind = .error) : (marked mark e).upToDate = true := by
  cases mark with
  | false => exact he
  | true => exact Element.upToDate_markError e.label he (h rfl)

theorem upToDate_assemble {c : Concrete} (hc : c.marksErrors = true) (l : Label) (ts : List Token)
    (e : Element) (h : (assemble l ts c).1 = some e) : e.upToDate = true := by
  induction c using Concrete.induction generalizing l ts e with
  | node head children ih =>
    rw [marksErrors] at hc
    unfold assemble at h
    by_cases htrivia : head.isTrivia = true
    · rw [if_pos htrivia] at h
      cases h
    rw [if_neg htrivia] at h
    by_cases hleaf : children.isEmpty = true
    · rw [if_pos hleaf] at h
      cases ts with
      | nil => cases h
      | cons t ts =>
        cases h
        rfl
    rw [if_neg hleaf] at h
    cases h
    simp only [htrivia, hleaf, Bool.false_or, Bool.and_eq_true, Bool.or_eq_true, Bool.not_eq_true',
      decide_eq_true_eq, allMarkErrors_iff] at hc
    obtain ⟨hmark, hchildren⟩ := hc
    refine upToDate_marked (Element.upToDate_make _ _ ?_) fun herr => ?_
    · intro d hd
      obtain ⟨c, hmem, m, us, hd⟩ := exists_assemble_of_mem hd
      exact ih c hmem (hchildren c hmem) m us d hd
    · exact hmark.resolve_left (by rw [herr]; decide)

theorem upToDate_build {c : Concrete} {l : Label} {source : String} {e : Element}
    (hroot : c.head.error = true → Kind.ofName c.head.kind = .error)
    (hchildren : allMarkErrors c.children = true) (h : c.build? l source = some e) :
    e.upToDate = true := by
  obtain ⟨head, children⟩ := c
  rw [build?, Option.map_eq_some_iff] at h
  obtain ⟨ts, -, rfl⟩ := h
  refine upToDate_marked (Element.upToDate_make _ _ fun e he => ?_) hroot
  rcases List.mem_append.1 he with he | he
  · obtain ⟨c, hmem, m, us, he⟩ := exists_assemble_of_mem he
    exact upToDate_assemble (allMarkErrors_iff.1 hchildren c hmem) m us e he
  · obtain ⟨t, -, rfl⟩ := List.mem_map.1 he
    rfl

end Concrete

/-! ## Histories -/

namespace Element

/-- The elements that come about in any sequence of operations. Marks are set on nodes of the kind
for errors only. -/
inductive Built : Element → Prop
  | token (t : Token) : Built (.token t)
  | make {es : List Element} (l : Label) (kind : Kind) : (∀ e ∈ es, Built e) →
    Built (.make l kind es)
  | parsed {c : Concrete} {l : Label} {source : String} {e : Element} :
    (c.head.error = true → Kind.ofName c.head.kind = .error) →
    Concrete.allMarkErrors c.children = true → c.build? l source = some e → Built e
  | part {e x : Element} {p : Path} : Built e → e.at? p = some x → Built x
  | withLeading {e : Element} (l : Label) (trivia : String) : Built e →
    Built (e.withLeading l trivia)
  | withTrailing {e : Element} (l : Label) (trivia : String) : Built e →
    Built (e.withTrailing l trivia)
  | withReformat {e : Element} (l : Label) (r : Option Reformat) : Built e →
    Built (e.withReformat l r)
  | markError {e : Element} (l : Label) : Built e → e.kind = .error → Built (e.markError l)
  | replaceAt {t t' : Tree} {l : Label} {p : Path} {e : Element} : Built t.root → Built e →
    t.replaceAt? l p e = some t' → Built t'.root
  | apply {s t t' : Tree} {target : Cursor} {fix : Fix} {l m : Label} : Built s.root →
    Built t.root → Cursor.Of s.root target → Fix.plan l s target = .ok fix →
    fix.apply m t = .ok t' → Built t'.root
  | fixAll {t : Tree} {l : Label} {ds : List Diagnostic} {out : FixAll} : Built t.root →
    t.fixAll l ds = .ok out → Built out.tree.root
  | format {t : Tree} (l : Label) : Built t.root → Built (t.format l).root

theorem Built.upToDate {e : Element} (h : Built e) : e.upToDate = true := by
  induction h with
  | token t => rfl
  | make l kind _ ih => exact upToDate_make l kind ih
  | parsed hroot hchildren hbuild => exact Concrete.upToDate_build hroot hchildren hbuild
  | part _ hx ih => exact all_at ih hx
  | withLeading l trivia _ ih => exact lasting_upToDate.withLeading l trivia _ ih
  | withTrailing l trivia _ ih => exact lasting_upToDate.withTrailing l trivia _ ih
  | withReformat l r _ ih => exact upToDate_withReformat l r ih
  | markError l _ hkind ih => exact upToDate_markError l ih hkind
  | replaceAt _ _ hput iht ihe =>
    obtain ⟨-, root, hroot, rfl⟩ := Tree.replaceAt?_eq_some_iff.1 hput
    exact Fix.kept_upToDate.put iht ihe hroot
  | apply _ _ hof hplan happly ihs iht =>
    exact Fix.kept_upToDate.apply iht (Fix.kept_upToDate.plan ihs hof hplan) happly
  | fixAll _ hfix ih => exact Fix.kept_upToDate.fixAll ih hfix
  | format l _ ih =>
    rw [Tree.root_format]
    exact Layout.laid_of_lasting lasting_upToDate l _ ih

/-- Every node stores the size of its text, and is marked exactly if an error is in it. -/
theorem Built.stored_facts {e x : Element} {p : Path} (h : Built e) (hx : e.at? p = some x) :
    x.width = x.fullText.utf8ByteSize ∧
      (x.hasError = true ↔ ∃ q y, x.at? q = some y ∧ y.faulty = true) := by
  have hup : x.upToDate = true := all_at h.upToDate hx
  exact ⟨width_eq (sound_of_upToDate hup), hasError_iff_faulty hup⟩

end Element

theorem Sample.stored_tangled :
    ∃ t t₁ t₂ : Tree, Sample.tangled.build? [] Sample.tangledText = some t.root ∧
      t.replaceAt? [7] [2] Sample.gap = some t₁ ∧
      t₁.replaceAt? [8] [2] (.token { label := [], kind := .dot, text := "." }) = some t₂ ∧
      (t.root.hasError = true ∧ t₁.root.hasError = true ∧ t₂.root.hasError = false) ∧
      t₂.root.width = t₂.root.fullText.utf8ByteSize ∧
      ∀ q y, t₂.root.at? q = some y → y.faulty = false := by
  have hrun : ((Sample.tangled.build? [] Sample.tangledText).bind fun root =>
      (({ root } : Tree).replaceAt? [7] [2] Sample.gap).bind fun t₁ =>
        (t₁.replaceAt? [8] [2] (.token { label := [], kind := .dot, text := "." })).filter fun t₂ =>
          root.hasError && t₁.root.hasError && !t₂.root.hasError).isSome = true := by
    decide +kernel
  obtain ⟨t₂, hrun⟩ := Option.isSome_iff_exists.1 hrun
  simp only [Option.bind_eq_some_iff, Option.filter_eq_some_iff, Bool.and_eq_true,
    Bool.not_eq_true', and_assoc] at hrun
  obtain ⟨root, hroot, t₁, h₁, h₂, hmarks⟩ := hrun
  have hbuilt : Element.Built root := .parsed (by decide) (by decide) hroot
  have hlast : Element.Built t₂.root := .replaceAt (.replaceAt hbuilt (.token _) h₁) (.token _) h₂
  obtain ⟨hwidth, hmark⟩ := hlast.stored_facts (p := []) rfl
  refine ⟨{ root }, t₁, t₂, hroot, h₁, h₂, hmarks, hwidth, fun q y hy => ?_⟩
  by_contra hfaulty
  have hmarked := hmark.2 ⟨q, y, hy, Bool.eq_true_of_not_eq_false hfaulty⟩
  rw [hmarks.2.2] at hmarked
  cases hmarked

end CancellationLint
