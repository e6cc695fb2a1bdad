import CancellationLint.Proofs.RelatedScopes
import CancellationLint.Proofs.RemainingChecks

/-! # Trees that differ in their blanks

Other blanks between the tokens of a tree move every offset and change the text of every element of
more than one token. What the rule flags stays, as long as no element of several tokens is spelled like
a name that it is compared to: types are read without their blanks, and the locals before a use are
those further up in the block. -/

namespace CancellationLint

/-! ## Other blanks -/

def Token.respaced (t t' : Token) : Bool :=
  t'.kind = t.kind && t'.text = t.text && t'.missing = t.missing &&
    Text.compact t'.leading.toList = Text.compact t.leading.toList &&
    Text.compact t'.trailing.toList = Text.compact t.trailing.toList

theorem Token.respaced_iff {t t' : Token} :
    t.respaced t' = true ↔ t'.kind = t.kind ∧ t'.text = t.text ∧ t'.missing = t.missing ∧
      Text.compact t'.leading.toList = Text.compact t.leading.toList ∧
      Text.compact t'.trailing.toList = Text.compact t.trailing.toList := by
  simp [respaced, and_assoc]

namespace Element

mutual

/-- The same shape, kinds and error marks, and the same tokens up to blanks. -/
def respaced : Element → Element → Bool
  | .token t, .token t' => t.respaced t'
  | .node h es, .node h' es' => h'.kind = h.kind && h'.hasError = h.hasError && allRespaced es es'
  | _, _ => false

def allRespaced : List Element → List Element → Bool
  | [], [] => true
  | e :: es, e' :: es' => e.respaced e' && allRespaced es es'
  | _, _ => false

end

theorem allRespaced_iff {es es' : List Element} :
    allRespaced es es' = true ↔ List.Forall₂ (fun e e' => e.respaced e' = true) es es' := by
  induction es generalizing es' with
  | nil => cases es' <;> simp [allRespaced]
  | cons e es ih => cases es' <;> simp [allRespaced, ih]

theorem respaced_node_iff {h h' : Head} {es es' : List Element} :
    (Element.node h es).respaced (.node h' es') = true ↔ h'.kind = h.kind ∧
      h'.hasError = h.hasError ∧ List.Forall₂ (fun e e' => e.respaced e' = true) es es' := by
  simp [respaced, allRespaced_iff, and_assoc]

variable {e e' : Element}

theorem respaced_cases (h : e.respaced e' = true) :
    (∃ t t', e = .token t ∧ e' = .token t' ∧ t.respaced t' = true) ∨
    (∃ g g' es es', e = .node g es ∧ e' = .node g' es' ∧ g'.kind = g.kind ∧
      g'.hasError = g.hasError ∧ List.Forall₂ (fun d d' => d.respaced d' = true) es es') := by
  cases e with
  | token t =>
    cases e' with
    | token t' => exact .inl ⟨t, t', rfl, rfl, h⟩
    | node g es => cases h
  | node g es =>
    cases e' with
    | token t => cases h
    | node g' es' => exact .inr ⟨g, g', es, es', rfl, rfl, respaced_node_iff.1 h⟩

theorem isNode_of_respaced (h : e.respaced e' = true) : e'.isNode = e.isNode := by
  obtain ⟨t, t', rfl, rfl, -⟩ | ⟨g, g', es, es', rfl, rfl, -⟩ := respaced_cases h
  · rfl
  · rfl

theorem kind_of_respaced (h : e.respaced e' = true) : e'.kind = e.kind := by
  obtain ⟨t, t', rfl, rfl, htt⟩ | ⟨g, g', es, es', rfl, rfl, hkind, -⟩ := respaced_cases h
  · exact (Token.respaced_iff.1 htt).1
  · exact hkind

theorem hasError_of_respaced (h : e.respaced e' = true) : e'.hasError = e.hasError := by
  obtain ⟨t, t', rfl, rfl, htt⟩ | ⟨g, g', es, es', rfl, rfl, -, herror, -⟩ := respaced_cases h
  · exact (Token.respaced_iff.1 htt).2.2.1
  · exact herror

theorem children_of_respaced (h : e.respaced e' = true) :
    List.Forall₂ (fun d d' => d.respaced d' = true) e.children e'.children := by
  obtain ⟨t, t', rfl, rfl, -⟩ | ⟨g, g', es, es', rfl, rfl, -, -, hes⟩ := respaced_cases h
  · exact .nil
  · exact hes

theorem tokens_of_respaced (h : e.respaced e' = true) :
    List.Forall₂ (fun t t' => Token.respaced t t' = true) e.tokens e'.tokens := by
  induction e generalizing e' with
  | token t =>
    cases e' with
    | token t' => exact .cons h .nil
    | node g es => cases h
  | node g es ih =>
    cases e' with
    | token t => cases h
    | node g' es' =>
      obtain ⟨-, -, hes⟩ := respaced_node_iff.1 h
      rw [tokens_node, tokens_node]
      refine List.rel_flatMap ((List.forall₂_and_left _ _).2 ⟨fun _ hd => hd, hes⟩) ?_
      rintro d d' ⟨hd, hdd⟩
      exact ih d hd hdd

end Element

/-! ## Texts -/

theorem Text.compact_append (as bs : List Char) : compact (as ++ bs) = compact as ++ compact bs :=
  List.filter_append as bs

theorem Token.compact_textOf {ts ts' : List Token}
    (h : List.Forall₂ (fun t t' => Token.respaced t t' = true) ts ts') :
    Text.compact (textOf ts').toList = Text.compact (textOf ts).toList := by
  induction h with
  | nil => rfl
  | @cons t t' rest rest' htt hrest ih =>
    obtain ⟨-, htext, -, -, htrailing⟩ := respaced_iff.1 htt
    cases hrest with
    | nil => rw [textOf, textOf, htext]
    | @cons u u' rest rest' huu _ =>
      obtain ⟨-, -, -, hleading, -⟩ := respaced_iff.1 huu
      simp only [textOf, String.toList_append, Text.compact_append, ih, htext, htrailing, hleading]

namespace Element

variable {e e' : Element}

theorem compact_text (h : e.respaced e' = true) :
    Text.compact e'.text.toList = Text.compact e.text.toList := by
  rw [text_eq, text_eq]
  exact Token.compact_textOf (tokens_of_respaced h)

theorem text_of_single (h : e.respaced e' = true) (hone : e.tokens.length ≤ 1) :
    e'.text = e.text := by
  have htokens := tokens_of_respaced h
  rw [text_eq, text_eq]
  generalize e.tokens = ts at htokens hone
  generalize e'.tokens = ts' at htokens
  cases htokens with
  | nil => rfl
  | @cons t t' rest rest' htt hrest =>
    cases hrest with
    | nil => exact (Token.respaced_iff.1 htt).2.1
    | cons _ _ =>
      simp only [List.length_cons] at hone
      omega

end Element

/-- Whether the element reads like the text only if it is a single token. -/
def Cursor.tells (c : Cursor) (s : String) : Bool :=
  Text.compact c.text.toList ≠ Text.compact s.toList || c.element.tokens.length ≤ 1

theorem TypeName.ofDeclared?_of_compact {s s' : String}
    (h : Text.compact s'.toList = Text.compact s.toList) : ofDeclared? s' = ofDeclared? s := by
  unfold ofDeclared?
  rw [h]

/-! ## What is compared -/

namespace Scope

/-- The names that a search for a name goes through. -/
def searched (name : String) (ds : List Declaration) : List (Cursor × String) :=
  (upTo (·.names name) ds).map fun d => (d.name, name)

def arrows (scopes : List Cursor) : List (Cursor × String) :=
  (scopes.filter (·.kind = .lambdaExpression)).flatMap fun s =>
    (upTo (·.text = "=>") s.children).map fun c => (c, "=>")

/-- What is compared to what in the search for the type of an expression. -/
def comparisons (c : Cursor) : List (Cursor × String) :=
  if c.kind = .identifier then
    c.element.tokens.head?.toList.flatMap fun first =>
      (c, first.text) ::
        if c.text = first.text then arrows c.enclosing ++ searched first.text (visible c) else []
  else if c.receiver?.any isThis then
    c.memberName?.toList.flatMap fun name =>
      (name, name.text) :: (c.enclosing.find? (·.kind.isTypeDeclaration)).toList.flatMap fun s =>
        searched name.text (memberDeclarations s)
  else []

end Scope

/-- What is compared to what in the search for a check at a node. -/
def Check.comparisons (c : Cursor) : List (Cursor × String) :=
  if c.isNode && c.kind = .ifStatement && !c.hasError then
    (((access? c).bind Cursor.memberName?).toList.map fun name => (name, cancellationFlag)) ++
      (ofNode c).toOption.toList.flatMap fun check => Scope.comparisons check.receiver
  else []

namespace Check

theorem isNode_of_mem_comparisons {c : Cursor} {x : Cursor × String} (h : x ∈ comparisons c) :
    c.isNode = true := by
  unfold comparisons at h
  split at h
  · simp_all
  · cases h

theorem shape_of_flagged {oracle : Oracle} {c : Cursor}
    (h : (flagged? oracle c).isSome = true) :
    (c.isNode && c.kind = .ifStatement && !c.hasError) = true := by
  obtain ⟨check, hcheck⟩ := Option.isSome_iff_exists.1 h
  obtain ⟨⟨hnode, hkind⟩, herror, -⟩ := ofNode_eq_ok_iff.1 (Tree.flagged?_eq_some hcheck).1
  simp [hnode, hkind, herror]

end Check

/-- Whether whatever is compared to a text and reads like it, blanks aside, is a single token. -/
def Tree.tells (t : Tree) : Bool :=
  t.cursor.nodes.all fun c => (Check.comparisons c).all fun pair => pair.1.tells pair.2

/-! ## Two layouts of a tree -/

structure Respacing where
  old : Element
  new : Element
  old_sound : old.sound = true
  new_sound : new.sound = true
  respaced : old.respaced new = true

namespace Respacing

open Cursor Scope

def Twin (r : Respacing) : Cursor → Cursor → Prop := Paired r.old r.new fun _ => True

namespace Twin

variable {r : Respacing} {c c' access access' : Cursor}

theorem element_respaced (h : r.Twin c c') : c.element.respaced c'.element = true := by
  induction h with
  | root => exact r.respaced
  | @child c c' d d' i _ _ hd hd' ih =>
    have hrel := rel_getElem? i (Element.children_of_respaced ih)
    rw [element_childAt hd, element_childAt hd'] at hrel
    cases hrel with
    | some hdd => exact hdd

theorem isNode_eq (h : r.Twin c c') : c'.isNode = c.isNode :=
  Element.isNode_of_respaced h.element_respaced

theorem kind_eq (h : r.Twin c c') : c'.kind = c.kind := Element.kind_of_respaced h.element_respaced

theorem aligned (h : r.Twin c c') : Aligned r.Twin c c' := by
  have hchildren := Element.children_of_respaced h.element_respaced
  exact .of_childAt hchildren.length_eq.symm fun _ _ _ hd hd' => h.child trivial hd hd'

theorem above (h : r.Twin c c') :
    List.Forall₂ (fun s s' => r.Twin s s' ∧ ∃ i p, at? (i :: p) s = some c ∧ at? (i :: p) s' = some c')
      (onFrames c.above) (onFrames c'.above) :=
  (Paired.above h).imp fun _ _ hs => ⟨hs.1.1, hs.2⟩

theorem compact_text (h : r.Twin c c') :
    Text.compact c'.text.toList = Text.compact c.text.toList :=
  Element.compact_text h.element_respaced

theorem text_eq_iff (h : r.Twin c c') {s : String} (htells : c.tells s = true) :
    c'.text = s ↔ c.text = s := by
  simp only [Cursor.tells, Bool.or_eq_true, decide_eq_true_eq] at htells
  rcases htells with hne | hone
  · have hother : ∀ x : String, Text.compact x.toList = Text.compact c.text.toList → x ≠ s := by
      rintro x hx rfl
      exact hne hx.symm
    simp [hother _ h.compact_text, hother _ rfl]
  · rw [Cursor.text, Cursor.text, Element.text_of_single h.element_respaced hone]

end Twin

theorem inStep (r : Respacing) : InStep r.Twin where
  isNode_eq h := h.isNode_eq
  kind_iff h _ _ := by rw [h.kind_eq]
  text_eq {c c'} h hnode := by
    refine Element.text_of_single h.element_respaced ?_
    obtain ⟨e, offset, above⟩ := c
    cases e with
    | token t => simp [Element.tokens]
    | node g es => cases hnode
  aligned h _ := h.aligned

/-! ## Names -/

namespace Twin

variable {r : Respacing} {c c' access access' : Cursor}

theorem told_eq {ds ds' : List Declaration} {name : String}
    (h : List.Forall₂ (Declaration.Pair r.Twin) ds ds')
    (htells : ∀ x ∈ searched name ds, x.1.tells x.2 = true) : told name ds' = told name ds := by
  refine Scope.told_eq h (fun d hd n' hn => ?_) fun d _ x _ x' hx => ?_
  · exact hn.text_eq_iff (htells (d.name, name) (List.mem_map.2 ⟨d, hd, rfl⟩))
  · exact TypeName.ofDeclared?_of_compact hx.compact_text

theorem resolve_eq (hacc : r.Twin access access') (h : r.Twin c c') (huse : Use r.old access c)
    (huse' : Use r.new access' c') (hkind : c.kind = .identifier) {name : String}
    (harrows : ∀ x ∈ arrows c.enclosing, x.1.tells x.2 = true)
    (hnames : ∀ x ∈ searched name (visible c), x.1.tells x.2 = true) :
    resolve name c' = resolve name c := by
  have hout : ∀ s ∈ onFrames access.above, s ∈ c.enclosing := by
    intro s hs
    unfold Cursor.enclosing
    rw [onFrames_childAt huse.first]
    split <;> simp [hs]
  have hvisible := r.inStep.visible huse huse' r.old_sound r.new_sound
    (fun _ _ hs => ⟨hs.of_left, hs.of_right⟩) hacc.above
    (fun s hs hlambda d hd d' hdd => hdd.text_eq_iff (harrows (d, "=>") ?_)) h hkind
  · rw [Scope.resolve_eq, Scope.resolve_eq, told_eq hvisible hnames]
  · exact List.mem_flatMap.2 ⟨s, List.mem_filter.2 ⟨hout s hs, decide_eq_true hlambda⟩,
      List.mem_map.2 ⟨d, hd, rfl⟩⟩

theorem oracle_of_identifier (hacc : r.Twin access access') (h : r.Twin c c')
    (huse : Use r.old access c) (huse' : Use r.new access' c') (hkind : c.kind = .identifier)
    (htells : ∀ x ∈ comparisons c, x.1.tells x.2 = true) : oracle c' = oracle c := by
  have htokens := Element.tokens_of_respaced h.element_respaced
  rw [Scope.oracle_of_identifier hkind, Scope.oracle_of_identifier (h.kind_eq.trans hkind)]
  unfold comparisons at htells
  rw [if_pos hkind] at htells
  generalize c.element.tokens = ts at htokens htells
  generalize c'.element.tokens = ts' at htokens
  cases htokens with
  | nil => rfl
  | @cons first first' _ _ hfirst _ =>
    obtain ⟨-, hsame, -⟩ := Token.respaced_iff.1 hfirst
    simp only [List.head?_cons, Option.toList_some, List.flatMap_singleton, List.forall_mem_cons]
      at htells
    obtain ⟨hself, hrest⟩ := htells
    have hread := h.text_eq_iff hself
    simp only [List.head?_cons, Option.map_some, Option.some.injEq, hsame,
      eq_comm (a := first.text), hread]
    split
    · rename_i htext
      rw [if_pos htext, List.forall_mem_append] at hrest
      rw [hread.2 htext, htext]
      exact hacc.resolve_eq h huse huse' hkind hrest.1 hrest.2
    · rfl

theorem oracle_eq (hacc : r.Twin access access') (h : r.Twin c c') (huse : Use r.old access c)
    (huse' : Use r.new access' c') (htells : ∀ x ∈ comparisons c, x.1.tells x.2 = true) :
    oracle c' = oracle c := by
  refine r.inStep.oracle_eq h (r.inStep.enclosing h (h.above.imp fun _ _ hs => hs.1))
    (fun hkind => hacc.oracle_of_identifier h huse huse' hkind htells) ?_
  intro hkind _ hthis n n' s s' hname hn hs hss
  simp only [comparisons, hkind, reduceCtorEq, if_false, hthis, if_true, hname, hs,
    Option.toList_some, List.flatMap_singleton, List.forall_mem_cons] at htells
  rw [(hn.text_eq_iff htells.1).2 rfl, told_memberDeclarations, told_memberDeclarations]
  exact told_eq (r.inStep.memberDeclarations hss.aligned) htells.2

theorem isSome_flagged_eq (h : r.Twin c c')
    (htells : ∀ x ∈ Check.comparisons c, x.1.tells x.2 = true) :
    (Check.flagged? oracle c').isSome = (Check.flagged? oracle c).isSome := by
  have herror : c'.hasError = c.hasError := Element.hasError_of_respaced h.element_respaced
  unfold Check.comparisons at htells
  split at htells
  · rw [List.forall_mem_append] at htells
    refine Check.isSome_flagged_eq (r.inStep.ofNode h.aligned h.isNode_eq h.kind_eq herror
      fun a a' n n' ha _ hname hn => ?_) fun k k' hk hk' haccess hreceiver => ?_
    · exact hn.text_eq_iff (htells.1 (n, cancellationFlag) (by simp [ha, hname]))
    · refine haccess.oracle_eq hreceiver (Check.use_of_ofNode h.of_left hk)
        (Check.use_of_ofNode h.of_right hk') fun x hx => htells.2 x ?_
      simpa [hk, Except.toOption] using hx
  · -- Neither is an if statement without errors.
    rename_i hshape
    have hshape' := hshape
    rw [← h.isNode_eq, ← h.kind_eq, ← herror] at hshape'
    rw [Bool.eq_false_iff.2 (mt Check.shape_of_flagged hshape),
      Bool.eq_false_iff.2 (mt Check.shape_of_flagged hshape')]

end Twin

theorem mem_flaggedPaths_iff (r : Respacing) {t t' : Tree} (hold : t.root = r.old)
    (hnew : t'.root = r.new) (htells : t.tells = true) {p : Path} :
    p ∈ t'.flaggedPaths ↔ p ∈ t.flaggedPaths := by
  have hflag : ∀ c c', r.Twin c c' →
      (Check.flagged? oracle c').isSome = (Check.flagged? oracle c).isSome := by
    intro c c' h
    refine h.isSome_flagged_eq fun x hx => ?_
    have hnode := Check.isNode_of_mem_comparisons hx
    have hof : Of t.root c := hold ▸ h.of_left
    exact List.all_eq_true.1 (List.all_eq_true.1 htells c (mem_nodes_ofRoot.2 ⟨hnode, hof⟩)) x hx
  have halign : ∀ c c', r.Twin c c' → True → Aligned r.Twin c c' := fun _ _ h _ => h.aligned
  rw [Tree.mem_flaggedPaths_iff, Tree.mem_flaggedPaths_iff, hold, hnew]
  constructor
  · rintro ⟨c', hc', rfl, hc⟩
    obtain ⟨c, h⟩ := Paired.exists_left halign hc' fun _ _ => trivial
    exact ⟨c, h.of_left, h.path_eq.symm, hflag c c' h ▸ hc⟩
  · rintro ⟨c, hc, rfl, hflagged⟩
    obtain ⟨c', h⟩ := Paired.exists_right halign hc fun _ _ => trivial
    exact ⟨c', h.of_right, h.path_eq, (hflag c c' h).trans hflagged⟩

end Respacing

/-- Other blanks change nothing in what is flagged, if what reads like a name is a single token. -/
theorem Tree.flaggedPaths_respaced {t t' : Tree} (ht : t.root.sound = true)
    (ht' : t'.root.sound = true) (h : t.root.respaced t'.root = true) (htells : t.tells = true) :
    t'.flaggedPaths = t.flaggedPaths := by
  let r : Respacing := ⟨t.root, t'.root, ht, ht', h⟩
  exact Path.eq_of_mem_iff (f := id) t'.sorted_flaggedPaths t.sorted_flaggedPaths
    fun p => r.mem_flaggedPaths_iff rfl rfl htells

namespace Sample

def spaced (gap : String) (kind : Kind) (text : String) : Element :=
  .token { label := [], kind, text, leading := gap, trailing := gap }

def spacedCheck (gap : String) : Element :=
  .make [] .ifStatement
    [spaced gap .ifKeyword "if", spaced gap .openParen "(",
      .make [] .memberAccessExpression
        [spaced gap .identifier "ct", spaced gap .dot ".", spaced gap .identifier cancellationFlag],
      spaced gap .closeParen ")",
      .make [] .throwStatement [spaced gap .throwKeyword "throw", spaced gap .semicolon ";"]]

def laidOut (gap : String) : Tree :=
  { root := .make [] .compilationUnit
      [.make [] .methodDeclaration
        [.make [] .parameterList
          [.make [] .parameter
            [.make [] (.other "qualified_name")
              [spaced gap .identifier "Threading", spaced gap .dot ".",
                spaced gap .identifier "CancellationToken"],
              spaced gap .identifier "ct"]],
          .make [] .block
            [spacedCheck gap,
              .make [] .lambdaExpression
                [spaced gap .identifier "ct", spaced gap (.other "=>") "=>", spacedCheck gap]]]] }

end Sample

theorem Sample.flaggedPaths_laidOut :
    (Sample.laidOut "").root.sound = true ∧ (Sample.laidOut "\n\u3000").root.sound = true ∧
      (Sample.laidOut "").root.respaced (Sample.laidOut "\n\u3000").root = true ∧
      (Sample.laidOut "").tells = true ∧ (Sample.laidOut "").flaggedPaths = [[0, 1, 0]] ∧
      (Sample.laidOut "\n\u3000").flaggedPaths = [[0, 1, 0]] := by
  have hsound : (Sample.laidOut "").root.sound = true := by decide
  have hsound' : (Sample.laidOut "\n\u3000").root.sound = true := by decide
  have hspaced : (Sample.laidOut "").root.respaced (Sample.laidOut "\n\u3000").root = true := by
    decide
  have htells : (Sample.laidOut "").tells = true := by decide
  have hpaths : (Sample.laidOut "").flaggedPaths = [[0, 1, 0]] := by decide
  refine ⟨hsound, hsound', hspaced, htells, hpaths, ?_⟩
  rw [Tree.flaggedPaths_respaced hsound hsound' hspaced htells, hpaths]

end CancellationLint
