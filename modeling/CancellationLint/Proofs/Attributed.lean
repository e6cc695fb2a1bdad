import CancellationLint.Proofs.Lossless
import CancellationLint.Proofs.LayoutPasses
import Mathlib.Data.List.Chain

/-! # Which token trivia belong to

In a tree that was built from a concrete one, trivia lead a token only if it is the first one or if
the trailing trivia of the token before end with a line feed. So where a token has leading trivia,
the text before them ends a line. -/

namespace CancellationLint

theorem Text.endsWith_feed_iff {s : String} : s.endsWith "\n" = true ↔ ['\n'] <:+ s.toList := by
  rw [String.endsWith_eq_endsWith_toSlice, String.Slice.endsWith_string_iff, String.copy_toSlice]
  rfl

/-- Whether trivia lead the second token only behind the end of a line. -/
def Token.Follows (a b : Token) : Prop := b.leading = "" ∨ a.trailing.endsWith "\n" = true

namespace Concrete

/-! ## Gaps -/

/-- Nothing is left for the token after unless a line feed ends what the token before gets. -/
theorem splitTrivia_feed (scan : Scan) (gap : List Char) (h : (splitTrivia scan gap).2 ≠ []) :
    ['\n'] <:+ (splitTrivia scan gap).1 := by
  fun_induction splitTrivia scan gap with
  | case1 => exact absurd rfl h
  | case2 | case6 => exact List.suffix_refl _
  | case3 rest parts ih | case4 rest parts ih | case5 rest parts ih =>
    exact (ih h).trans ((List.suffix_cons _ _).trans (List.suffix_cons _ _))
  | case7 scan c rest parts _ _ _ _ _ ih => exact (ih h).trans (List.suffix_cons _ _)

theorem shareTrivia_follows (t : Token) (gap : List Char) :
    ∃ trailing, (shareTrivia (some t) gap).1 = [{ t with trailing }] ∧
      ((shareTrivia (some t) gap).2 = "" ∨ trailing.endsWith "\n" = true) := by
  refine ⟨_, rfl, ?_⟩
  by_cases h : (splitTrivia .plain gap).2 = []
  · left
    unfold shareTrivia
    simp only [h, String.ofList_nil]
  · right
    rw [Text.endsWith_feed_iff, String.toList_ofList]
    exact splitTrivia_feed .plain gap h

theorem attach_follows {previous : Option Token} {offset : Nat} {rest : List Char}
    {leaves : List ConcreteHead} {ts : List Token}
    (h : attach previous offset rest leaves = some ts) :
    ts.IsChain Token.Follows ∧ ts.length = previous.toList.length + leaves.length + 1 ∧
      ∀ t ∈ previous, ∃ trailing others, ts = { t with trailing } :: others := by
  induction leaves generalizing previous offset rest ts with
  | nil =>
    cases h
    cases previous with
    | none => exact ⟨List.IsChain.singleton _, rfl, by simp⟩
    | some t =>
      obtain ⟨trailing, hfirst, hfollows⟩ := shareTrivia_follows t rest
      rw [hfirst]
      refine ⟨List.IsChain.cons_cons hfollows (List.IsChain.singleton _), rfl, ?_⟩
      rintro _ ⟨⟩
      exact ⟨trailing, _, rfl⟩
  | cons leaf leaves ih =>
    rw [attach] at h
    obtain ⟨⟨gap, behind⟩, -, h⟩ := Option.bind_eq_some_iff.1 h
    obtain ⟨⟨covered, tail⟩, -, h⟩ := Option.bind_eq_some_iff.1 h
    obtain ⟨others, hothers, rfl⟩ := Option.map_eq_some_iff.1 h
    obtain ⟨hchain, hlength, hfirst⟩ := ih hothers
    obtain ⟨trailing, later, rfl⟩ := hfirst _ rfl
    cases previous with
    | none =>
      refine ⟨hchain, ?_, by simp⟩
      simpa [shareTrivia, Nat.add_comm, Nat.add_left_comm] using hlength
    | some t =>
      obtain ⟨trailing', hshare, hfollows⟩ := shareTrivia_follows t gap
      rw [hshare]
      refine ⟨List.IsChain.cons_cons hfollows hchain, ?_, ?_⟩
      · simp only [List.length_append, List.length_cons, List.length_nil, Option.toList_some] at *
        omega
      · rintro _ ⟨⟩
        exact ⟨trailing', _, rfl⟩

/-! ## Built trees -/

variable {c : Concrete} {l : Label} {source : String} {root : Element}

theorem exists_attach (h : c.build? l source = some root) :
    ∃ ts, attach none 0 source.toList (leavesOf c.children) = some ts ∧
      root.tokens.map Token.bare = ts.map Token.bare := by
  obtain ⟨head, children⟩ := c
  rw [build?, Option.map_eq_some_iff] at h
  obtain ⟨ts, hattach, rfl⟩ := h
  refine ⟨ts, hattach, ?_⟩
  obtain ⟨-, hlength, -⟩ := attach_follows hattach
  obtain ⟨tokens, last, rfl⟩ : ∃ tokens last, ts = tokens ++ [last] :=
    (List.eq_nil_or_concat' ts).resolve_left (by rintro rfl; simp at hlength)
  obtain ⟨hleft, htokens⟩ := assembleAll_takes (fun c _ => takes c) l 0 tokens [last]
    (by simpa using hlength)
  simp only [tokens_marked, Element.make, Element.tokens_node, hleft, List.map_cons, List.map_nil,
    List.flatMap_append, List.map_append, htokens]
  rfl

theorem follows_of_build (h : c.build? l source = some root) :
    root.tokens.IsChain Token.Follows := by
  obtain ⟨ts, hattach, hbare⟩ := exists_attach h
  -- Labels do not matter here.
  have hmap : ∀ us : List Token, us.IsChain Token.Follows ↔
      (us.map Token.bare).IsChain Token.Follows :=
    fun us => (List.isChain_map (R := Token.Follows) Token.bare).symm
  rw [hmap, hbare, ← hmap]
  exact (attach_follows hattach).1

theorem fullText_of_build (h : c.build? l source = some root)
    (hfits : ∀ leaf ∈ leavesOf c.children, leaf.fitsIn source = true) : root.fullText = source := by
  obtain ⟨ts, hts, hbare⟩ := exists_attach h
  obtain ⟨trailing, tokens, leading, hattach, hfull, -, hrest⟩ :=
    @attach_eq source [] source.toList (leavesOf c.children) none rfl hfits (by simp)
  obtain rfl : trailing = "" := by simpa [settled] using hfull.symm
  obtain rfl := Option.some.inj (hts.symm.trans hattach)
  rw [Element.fullText_eq, Token.fullOf_of_bare hbare]
  simpa [settled, endToken, Token.fullText] using hrest

section
variable {test : Element → Bool}
  (hnode : ∀ mark l kind es, test (marked mark (.make l kind es)) = true)
include hnode

theorem all_marked (mark : Bool) (l : Label) (kind : Kind) {es : List Element}
    (hes : ∀ e ∈ es, e.all test = true) : (marked mark (.make l kind es)).all test = true := by
  cases mark with
  | false => exact (Element.all_node_iff test _ es).2 ⟨hnode false l kind es, hes⟩
  | true => exact (Element.all_node_iff test _ es).2 ⟨hnode true l kind es, hes⟩

variable (htoken : ∀ t, test (.token t) = true)
include htoken

theorem all_assemble (c : Concrete) (l : Label) (ts : List Token) (e : Element)
    (h : (assemble l ts c).1 = some e) : e.all test = true := by
  induction c using Concrete.induction generalizing l ts e with
  | node head children ih =>
    unfold assemble at h
    split at h
    · cases h
    · split at h
      · cases ts with
        | nil => cases h
        | cons t ts =>
          cases h
          exact htoken _
      · cases h
        refine all_marked hnode _ _ _ fun d hd => ?_
        obtain ⟨c, hc, m, us, hd⟩ := exists_assemble_of_mem hd
        exact ih c hc m us d hd

theorem all_build (h : c.build? l source = some root) : root.all test = true := by
  obtain ⟨head, children⟩ := c
  rw [build?, Option.map_eq_some_iff] at h
  obtain ⟨ts, -, rfl⟩ := h
  refine all_marked hnode _ _ _ fun e he => ?_
  rcases List.mem_append.1 he with he | he
  · obtain ⟨c, -, m, us, hc⟩ := exists_assemble_of_mem he
    exact all_assemble hnode htoken c m us e hc
  · obtain ⟨t, -, rfl⟩ := List.mem_map.1 he
    exact htoken _

end

theorem sound_of_build (h : c.build? l source = some root) : root.sound = true := by
  refine all_build (fun mark l kind es => ?_) (fun _ => rfl) h
  cases mark with
  | false => exact Element.fits_make l kind es
  | true => simp [marked, Element.make, Element.markError, Element.fits]

theorem plain_of_build (h : c.build? l source = some root) : root.plain = true := by
  refine all_build (fun mark l kind es => ?_) (fun _ => rfl) h
  cases mark <;> rfl

end Concrete
end CancellationLint
