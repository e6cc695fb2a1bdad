import CancellationLint.Proofs.LayoutPasses

/-! # Fixing round after round

An if statement in the receiver of a check outlives the fix of that check, and an oracle may answer
differently once the text has changed, so what is found after a fix may need another one. But each
fix takes an if statement away, and what a tree must be like to be fixed stays true of it. So fixing
until nothing is found comes to an end. -/

namespace CancellationLint
namespace Element

/-! ## If statements -/

mutual

/-- How many if statements the element holds, itself included. -/
def ifs : Element → Nat
  | .token _ => 0
  | .node h children => (if h.kind = .ifStatement then 1 else 0) + ifsOf children

def ifsOf : List Element → Nat
  | [] => 0
  | e :: rest => e.ifs + ifsOf rest

end

theorem ifsOf_set {es : List Element} {old new : Element} {i : Nat} (hold : es[i]? = some old) :
    ifsOf (es.set i new) + old.ifs = ifsOf es + new.ifs := by
  induction es generalizing i with
  | nil => cases hold
  | cons e es ih =>
    cases i with
    | zero =>
      cases hold
      simp only [List.set_cons_zero, ifsOf]
      omega
    | succ i =>
      have := ih hold
      simp only [List.set_cons_succ, ifsOf]
      omega

theorem ifs_le_ifsOf {es : List Element} {e : Element} {i : Nat} (h : es[i]? = some e) :
    e.ifs ≤ ifsOf es := by
  have := @ifsOf_set es e (.token default) i h
  rw [ifs] at this
  omega

theorem ifs_at_le {e x : Element} {p : Path} (h : e.at? p = some x) : x.ifs ≤ e.ifs := by
  induction p generalizing e with
  | nil =>
    cases h
    exact le_rfl
  | cons i p ih =>
    obtain ⟨d, hd, hx⟩ := at?_cons_iff.1 h
    cases e with
    | token t => cases hd
    | node g es =>
      have hle := ifs_le_ifsOf (show es[i]? = some d from hd)
      have := ih hx
      rw [ifs]
      omega

theorem ifs_at_lt {e x : Element} {i : Nat} {p : Path} (hnode : e.isNode = true)
    (hkind : e.kind = .ifStatement) (h : e.at? (i :: p) = some x) : x.ifs < e.ifs := by
  obtain ⟨d, hd, hx⟩ := at?_cons_iff.1 h
  cases e with
  | token t => cases hnode
  | node g es =>
    have hle := ifs_le_ifsOf (show es[i]? = some d from hd)
    have := ifs_at_le hx
    rw [ifs, if_pos (show g.kind = .ifStatement from hkind)]
    omega

theorem countP_nodesFrom (e : Element) (offset : Nat) (above : List Frame) :
    (Cursor.nodesFrom offset above e).countP (fun c => c.kind = .ifStatement) = e.ifs := by
  induction e generalizing offset above with
  | token t => rfl
  | node h es ih =>
    have hall : ∀ (parent : Cursor) (k offset : Nat),
        (Cursor.nodesAmong parent k offset es).countP (fun c => c.kind = .ifStatement) =
          ifsOf es := by
      intro parent
      induction es with
      | nil => exact fun _ _ => rfl
      | cons e es ihes =>
        intro k offset
        rw [Cursor.nodesAmong, List.countP_append, ih e (by simp),
          ihes (fun d hd => ih d (by simp [hd])), ifsOf]
    rw [Cursor.nodesFrom, List.countP_cons, hall, ifs, Nat.add_comm]
    by_cases hkind : h.kind = .ifStatement <;> simp [Cursor.kind, kind, hkind]

/-! ## Elements that can stand in for others -/

def opens : Element → Bool
  | .token t => t.text ≠ ""
  | .node _ _ => false

theorem ifLed_node_iff {h : Head} {es : List Element} :
    (Element.node h es).ifLed = true ↔
      (h.kind = .ifStatement → ∀ x, es.find? hasTokens = some x → x.opens = true) := by
  by_cases hkind : h.kind = .ifStatement
  · cases hx : es.find? hasTokens with
    | none => simp [ifLed, children, hx]
    | some x => cases x <;> simp [ifLed, isNode, kind, children, hkind, hx, opens]
  · simp [ifLed, kind, hkind]

theorem find?_hasTokens_set {es : List Element} {old new x : Element} {i : Nat}
    (hold : es[i]? = some old) (hsame : new.hasTokens = old.hasTokens)
    (h : (es.set i new).find? hasTokens = some x) :
    es.find? hasTokens = some x ∨ es.find? hasTokens = some old ∧ x = new := by
  induction es generalizing i with
  | nil => cases hold
  | cons e es ih =>
    cases i with
    | zero =>
      cases hold
      rw [List.set_cons_zero, List.find?_cons, hsame] at h
      rw [List.find?_cons]
      cases he : old.hasTokens with
      | true =>
        rw [he] at h
        cases h
        exact Or.inr ⟨rfl, rfl⟩
      | false =>
        rw [he] at h
        exact Or.inl h
    | succ i =>
      rw [List.set_cons_succ, List.find?_cons] at h
      rw [List.find?_cons]
      cases he : e.hasTokens with
      | true =>
        rw [he] at h
        exact Or.inl h
      | false =>
        rw [he] at h
        exact ih hold h

/-- At least `n` if statements fewer are in the second element, which fits where the first one
was. -/
structure Loses (n : Nat) (e e' : Element) : Prop where
  hasTokens_eq : e'.hasTokens = e.hasTokens
  opens_eq : e'.opens = e.opens
  kind_ne : e.kind ≠ .ifStatement → e'.kind ≠ .ifStatement
  sound : e.sound = true → e'.sound = true
  led : e.all ifLed = true → e'.all ifLed = true
  ifs_le : e'.ifs + n ≤ e.ifs

namespace Loses

theorem refl (e : Element) : Loses 0 e e := ⟨rfl, rfl, id, id, id, le_rfl⟩

theorem trans {m n : Nat} {a b c : Element} (hab : Loses m a b) (hbc : Loses n b c) :
    Loses (m + n) a c where
  hasTokens_eq := hbc.hasTokens_eq.trans hab.hasTokens_eq
  opens_eq := hbc.opens_eq.trans hab.opens_eq
  kind_ne := hbc.kind_ne ∘ hab.kind_ne
  sound := hbc.sound ∘ hab.sound
  led := hbc.led ∘ hab.led
  ifs_le := by
    have := hab.ifs_le
    have := hbc.ifs_le
    omega

theorem mono {m n : Nat} {e e' : Element} (h : Loses n e e') (hle : m ≤ n) : Loses m e e' where
  __ := h
  ifs_le := le_trans (Nat.add_le_add_left hle _) h.ifs_le

theorem swap {n : Nat} {h : Head} {es : List Element} {old new : Element} {i : Nat} (l : Label)
    (hold : es[i]? = some old) (hnew : Loses n old new) :
    Loses n (.node h es) (.node (h.swap l old (es.set i new)) (es.set i new)) where
  hasTokens_eq := by
    rw [hasTokens, hasTokens, anyTokens_eq, anyTokens_eq, any_set hold hnew.hasTokens_eq]
  opens_eq := rfl
  kind_ne := id
  sound hs := by
    have hes := ((sound_node_iff h es).1 hs).2.2
    exact sound_set hs (hnew.sound (hes old (List.mem_of_getElem? hold)))
  led hl := by
    obtain ⟨hself, hes⟩ := (all_node_iff _ h es).1 hl
    refine (all_node_iff _ _ _).2 ⟨ifLed_node_iff.2 fun hkind x hx => ?_, fun e he => ?_⟩
    · -- The first token is where it was, or it is the one that gave way.
      rcases find?_hasTokens_set hold hnew.hasTokens_eq hx with hsame | ⟨hfirst, rfl⟩
      · exact ifLed_node_iff.1 hself hkind x hsame
      · rw [hnew.opens_eq]
        exact ifLed_node_iff.1 hself hkind old hfirst
    · rcases List.mem_or_eq_of_mem_set he with he | rfl
      · exact hes e he
      · exact hnew.led (hes old (List.mem_of_getElem? hold))
  ifs_le := by
    have hset := @ifsOf_set es old new i hold
    have hle := hnew.ifs_le
    rw [ifs, ifs, show (h.swap l old (es.set i new)).kind = h.kind from rfl]
    omega

theorem head {h h' : Head} (es : List Element) (hkind : h'.kind = h.kind)
    (hwidth : h'.width = h.width) (herr : h'.hasError = h.hasError) :
    Loses 0 (.node h es) (.node h' es) where
  hasTokens_eq := rfl
  opens_eq := rfl
  kind_ne hne := by rwa [kind, hkind]
  sound hs := by
    rw [sound_node_iff] at hs ⊢
    rwa [hkind, hwidth, herr]
  led hl := by
    rw [all_node_iff, ifLed_node_iff] at hl ⊢
    rwa [hkind]
  ifs_le := by rw [ifs, ifs, hkind, Nat.add_zero]

theorem token (t : Token) (l : Label) (leading trailing : String) :
    Loses 0 (.token t) (.token { t with label := l, leading, trailing }) :=
  ⟨rfl, rfl, id, fun _ => rfl, fun _ => rfl, le_rfl⟩

theorem lasting : Lasting (Loses 0) where
  token := token
  relabel h es l := head es rfl rfl rfl
  swap l hold hnew := swap l hold hnew
  refl := refl
  trans := trans
  withReformat l r e := by
    cases e with
    | token t => exact token t l t.leading t.trailing
    | node h es => exact head es rfl rfl rfl

theorem put {n : Nat} {l : Label} {e e' x new : Element} {p : Path} (hx : e.at? p = some x)
    (hnew : Loses n x new) (h : put? l new p e = some e') : Loses n e e' := by
  induction p generalizing e e' l with
  | nil =>
    cases hx
    cases h
    exact hnew
  | cons i p ih =>
    obtain ⟨g, es, old, child, rfl, hold, hchild, rfl⟩ := put?_cons_iff.1 h
    obtain ⟨d, hd, hx⟩ := at?_cons_iff.1 hx
    obtain rfl : d = old := Option.some.inj (hd.symm.trans hold)
    exact swap l hold (ih hx hchild)

end Loses
end Element

/-! ## Fixes -/

namespace Fix

theorem ifs_callStatement (l : Label) (receiver : Element) :
    (callStatement l receiver).ifs = receiver.ifs := by
  simp [callStatement, Element.make, Element.ifs, Element.ifsOf]

theorem led_callStatement (l : Label) {receiver : Element}
    (h : receiver.all Element.ifLed = true) :
    (callStatement l receiver).all Element.ifLed = true := by
  have htoken : ∀ t, (Element.token t).all Element.ifLed = true := fun _ => rfl
  simp [callStatement, Element.make, Element.all_node_iff, Element.ifLed_node_iff, h, htoken]

/-- A check gives way to a call around its receiver, which holds an if statement less. -/
theorem loses_replacementFor (l : Label) {check : Check} (indent : Option String)
    (h : Check.ofNode check.statement = .ok check) :
    Element.Loses 1 check.statement.element (replacementFor l check indent) := by
  obtain ⟨⟨hnode, hkind⟩, -⟩ := Check.ofNode_eq_ok_iff.1 h
  obtain ⟨i, j, name, hi, hrec, -⟩ := Check.places_of_ofNode h
  have hat : check.statement.element.at? [i, 0] = some check.receiver.element :=
    Element.at?_cons_iff.2 ⟨_, Cursor.element_childAt hi,
      Element.at?_cons_iff.2 ⟨_, Cursor.element_childAt hrec, rfl⟩⟩
  have hcall : Element.Loses 1 check.statement.element
      (callStatement (l.sub 0) check.receiver.element) :=
    { hasTokens_eq := by
        rw [(Element.hasTokens_iff _).2 (tokens_callStatement _ _),
          (Element.hasTokens_iff _).2 (Tree.tokens_ne_nil_of_check h)]
      opens_eq := by
        cases hst : check.statement.element with
        | token t => simp [Cursor.isNode, hst, Element.isNode] at hnode
        | node g es => rfl
      kind_ne := fun hne => absurd hkind hne
      sound := fun hs => sound_callStatement _ (Element.all_at hs hat)
      led := fun hl => led_callStatement _ (Element.all_at hl hat)
      ifs_le := by
        rw [ifs_callStatement]
        exact Element.ifs_at_lt hnode hkind hat }
  have hR := Element.Loses.lasting
  unfold replacementFor
  refine Element.Loses.trans ?_ (hR.withReformat l _ _)
  refine Element.Loses.trans ?_ (hR.withTrailing _ _ _)
  split
  · exact hcall
  · exact hcall.trans (hR.withLeading _ _ _)

end Fix

namespace FixAll

theorem loses_applyAll {l : Label} {i : Nat} {t t' : Tree} {fixes : List Fix}
    (hpaths : fixes.Pairwise fun a b => Path.Apart a.path b.path)
    (hat : ∀ fix ∈ fixes, t.at? fix.path = some fix.target)
    (hfix : ∀ fix ∈ fixes, Element.Loses 1 fix.target fix.replacement)
    (h : applyAll l i t fixes = .ok t') : Element.Loses fixes.length t.root t'.root := by
  induction fixes generalizing i t with
  | nil =>
    cases h
    exact Element.Loses.refl _
  | cons fix rest ih =>
    obtain ⟨hfirst, hrest⟩ := List.pairwise_cons.1 hpaths
    obtain ⟨-, root, hroot, hnext⟩ := applyAll_cons_eq_ok h
    have hstep : Element.Loses 1 t.root root :=
      Element.Loses.put (hat fix (by simp)) (hfix fix (by simp)) hroot
    have hlast : Element.Loses rest.length root t'.root := by
      refine @ih (i + 1) { t with root } hrest (fun f hf => ?_) (fun f hf => hfix f (by simp [hf]))
        hnext
      exact (Element.at?_put_of_apart (hfirst f hf) hroot).trans (hat f (by simp [hf]))
    rw [List.length_cons, Nat.add_comm]
    exact hstep.trans hlast

end FixAll

namespace Tree

theorem loses_fixAll {t : Tree} {l : Label} {ds : List Diagnostic} {out : FixAll}
    (h : t.fixAll l ds = .ok out) : Element.Loses out.applied.length t.root out.tree.root := by
  obtain ⟨-, checks, haims, hrun⟩ := run_of_fixAll h
  have hcheck := fun fix hfix => @FixAll.exists_check_of_mem _ _ fix hrun.applied hfix
  refine FixAll.loses_applyAll ((FixAll.precedes_of_mends haims hrun.applied).imp fun h => h.apart)
    ?_ ?_ hrun.tree
  · intro fix hfix
    obtain ⟨check, hmem, hmends⟩ := hcheck fix hfix
    exact FixAll.at?_of_mends haims (List.mem_of_mem_filter hmem) hmends
  · intro fix hfix
    obtain ⟨check, hmem, l, rfl⟩ := hcheck fix hfix
    obtain ⟨n, -, hn⟩ := (haims.mem_iff check).1 (List.mem_of_mem_filter hmem)
    exact Fix.loses_replacementFor l _ (checkAt?_eq_some hn).2.1

/-- Whatever the diagnostics are, the outermost statement around the first one is fixed. -/
theorem applied_ne_nil {t : Tree} {l : Label} {ds : List Diagnostic} {out : FixAll}
    (h : t.fixAll l ds = .ok out) (hds : ds ≠ []) : out.applied ≠ [] := by
  obtain ⟨hall, checks, haims, hrun⟩ := run_of_fixAll h
  obtain ⟨d, rest, rfl⟩ := List.exists_cons_of_ne_nil hds
  have hstart : d.location.span.start ∈ starts (d :: rest) := by simp [starts]
  obtain ⟨check, hcheck⟩ := hall _ hstart
  have hmem : check ∈ checks := (haims.mem_iff check).2 ⟨_, hstart, hcheck⟩
  obtain ⟨q, hq, -, hout⟩ := Path.exists_outermost (List.mem_map_of_mem hmem)
  obtain ⟨outer, houter, rfl⟩ := List.mem_map.1 hq
  intro hnil
  have happlied := hrun.applied
  rw [hnil, List.forall₂_nil_right_iff] at happlied
  exact List.filter_eq_nil_iff.1 happlied outer houter hout

/-! ## Rounds -/

def fixRound (t : Tree) (oracle : Oracle) (severity : Severity) (l : Label) (layout : Bool) :
    Except FixError Tree :=
  (t.fixAll (l.sub 0) (t.detect oracle severity)).map fun out =>
    if layout then out.tree.format (l.sub 1) else out.tree

theorem loses_fixRound {t s : Tree} {oracle : Oracle} {severity : Severity} {l : Label}
    {layout : Bool} (hfound : t.detect oracle severity ≠ [])
    (h : t.fixRound oracle severity l layout = .ok s) : Element.Loses 1 t.root s.root := by
  unfold fixRound at h
  cases hout : t.fixAll (l.sub 0) (t.detect oracle severity) with
  | error e =>
    rw [hout] at h
    cases h
  | ok out =>
    rw [hout] at h
    cases h
    have hpos := List.length_pos_iff.2 (applied_ne_nil hout hfound)
    have hfixed := (loses_fixAll hout).mono hpos
    split
    · rw [root_format]
      exact hfixed.trans (Layout.laid_of_lasting Element.Loses.lasting _ _)
    · exact hfixed

theorem exists_fixRound {t : Tree} (oracle : Oracle) (severity : Severity) (l : Label)
    (layout : Bool) (ht : t.root.sound = true) (hroot : t.root.kind ≠ .ifStatement)
    (hled : t.root.all Element.ifLed = true) :
    ∃ s, t.fixRound oracle severity l layout = .ok s := by
  obtain ⟨out, -, hout, -⟩ :=
    fixAll_picked (l.sub 0) (Text.LineIndex.ofText t.source) severity ht hroot hled
      (fun check (h : check ∈ t.flagged oracle) => h)
  exact ⟨_, by rw [fixRound, detect, hout]; rfl⟩

/-- Rounds until nothing is detected, from the `k`-th one on, with the number of rounds. -/
def fixRounds (oracle : Oracle) (severity : Severity) (labels : Nat → Label)
    (layouts : Nat → Bool) (k : Nat) (t : Tree) : Except FixError (Tree × Nat) :=
  if t.detect oracle severity = [] then .ok (t, k)
  else
    match hround : t.fixRound oracle severity (labels k) (layouts k) with
    | .error e => .error e
    | .ok s => fixRounds oracle severity labels layouts (k + 1) s
termination_by t.root.ifs
decreasing_by
  rename_i hfound
  exact (loses_fixRound hfound hround).ifs_le

theorem exists_fixRounds {t : Tree} (oracle : Oracle) (severity : Severity)
    (labels : Nat → Label) (layouts : Nat → Bool) (k : Nat) (ht : t.root.sound = true)
    (hroot : t.root.kind ≠ .ifStatement) (hled : t.root.all Element.ifLed = true) :
    ∃ s m, t.fixRounds oracle severity labels layouts k = .ok (s, m) ∧
      m + s.root.ifs ≤ k + t.root.ifs ∧ s.detect oracle severity = [] := by
  induction k, t using fixRounds.induct oracle severity labels layouts with
  | case1 k t hnone => exact ⟨t, k, by rw [fixRounds, if_pos hnone], le_rfl, hnone⟩
  | case2 k t hfound e hround =>
    obtain ⟨s, hs⟩ := exists_fixRound oracle severity (labels k) (layouts k) ht hroot hled
    rw [hround] at hs
    cases hs
  | case3 k t hfound s hround ih =>
    have hloses := loses_fixRound hfound hround
    obtain ⟨u, m, hu, hle, hnone⟩ := ih (hloses.sound ht) (hloses.kind_ne hroot) (hloses.led hled)
    refine ⟨u, m, ?_, ?_, hnone⟩
    · rw [fixRounds, if_neg hfound]
      split
      · rename_i e herror
        rw [hround] at herror
        cases herror
      · rename_i s' hs'
        rw [hround] at hs'
        cases hs'
        exact hu
    · have := hloses.ifs_le
      omega

def ifCount (t : Tree) : Nat := t.cursor.nodes.countP fun c => c.kind = .ifStatement

/-- Each round that fixes what is detected takes away an if statement, so the rounds come to an
end. -/
theorem fixRounds_ends (t : Tree) (oracle : Oracle) (severity : Severity) (labels : Nat → Label)
    (layouts : Nat → Bool) (ht : t.root.sound = true) (hroot : t.root.kind ≠ .ifStatement)
    (hled : t.root.all Element.ifLed = true) :
    ∃ s k, t.fixRounds oracle severity labels layouts 0 = .ok (s, k) ∧
      k + s.ifCount ≤ t.ifCount ∧ s.detect oracle severity = [] := by
  obtain ⟨s, k, hs, hle, hnone⟩ :=
    exists_fixRounds oracle severity labels layouts 0 ht hroot hled
  refine ⟨s, k, hs, ?_, hnone⟩
  have hcount : ∀ u : Tree, u.ifCount = u.root.ifs := fun u => Element.countP_nodesFrom u.root 0 []
  rw [hcount, hcount]
  omega

end Tree

def Sample.anyToken : Oracle := fun _ => some { name := tokenType, qualified := tokenType }

theorem Sample.fixRounds_nested :
    Sample.nested.root.sound = true ∧ Sample.nested.root.kind ≠ .ifStatement ∧
      Sample.nested.root.all Element.ifLed = true ∧ Sample.nested.ifCount = 2 ∧
      (Sample.nested.detect Sample.anyToken .warning).length = 2 ∧
      ∃ s k, Sample.nested.fixRounds Sample.anyToken .warning (fun k => [k]) (fun k => k = 0) 0 =
        .ok (s, k) ∧ k + s.ifCount ≤ 2 ∧ s.detect Sample.anyToken .warning = [] := by
  have hsound : Sample.nested.root.sound = true := by decide
  have hroot : Sample.nested.root.kind ≠ .ifStatement := by decide
  have hled : Sample.nested.root.all Element.ifLed = true := by decide
  have hcount : Sample.nested.ifCount = 2 := by decide
  refine ⟨hsound, hroot, hled, hcount, by decide +kernel, ?_⟩
  obtain ⟨s, k, hs, hle, hnone⟩ := Tree.fixRounds_ends Sample.nested Sample.anyToken .warning
    (fun k => [k]) (fun k => k = 0) hsound hroot hled
  rw [hcount] at hle
  exact ⟨s, k, hs, hle, hnone⟩

end CancellationLint
