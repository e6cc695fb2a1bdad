import CancellationLint.Rule
import CancellationLint.Types.TypeName
import Mathlib.Data.List.Basic
import Mathlib.Data.List.TakeWhile

/-! # Simple names of types

A type is written as segments with dots between them, each an identifier with the types it is
applied to, and perhaps an alias in front. Its simple name is the identifier of the last segment, as
long as no alias stands in the arguments of that segment. Otherwise the search for an alias ends
inside of the arguments, and the name is read from there. -/

namespace CancellationLint

def TypeName.isNameChar (c : Char) : Bool :=
  !Text.isBlank c && c ≠ '<' && c ≠ '>' && c ≠ '.' && c ≠ ':' && c ≠ ','

structure Identifier where
  chars : List Char
  plain : chars.all TypeName.isNameChar = true := by decide

mutual

/-- A type as it is written: `alias::Outer.Last`, where the alias may be missing. -/
inductive TypeText where
  | mk (qualifier? : Option Identifier) (outer : List TypeSegment) (last : TypeSegment)

/-- `Name<Argument,Argument>`, or the name alone if there are no arguments. -/
inductive TypeSegment where
  | mk (name : Identifier) (arguments : List TypeText)

end

namespace Identifier

def text (name : Identifier) : String := String.ofList name.chars

theorem not_special {name : Identifier} {c : Char} (h : c ∈ name.chars) :
    Text.isBlank c = false ∧ c ≠ '<' ∧ c ≠ '>' ∧ c ≠ '.' ∧ c ≠ ':' ∧ c ≠ ',' := by
  have hplain := List.all_eq_true.1 name.plain c h
  simpa [TypeName.isNameChar, and_assoc] using hplain

theorem colon_not_mem (name : Identifier) : ':' ∉ name.chars :=
  fun h => (not_special h).2.2.2.2.1 rfl

end Identifier

namespace TypeText

def qualifierChars : Option Identifier → List Char
  | none => []
  | some name => name.chars ++ [':', ':']

mutual

def chars : TypeText → List Char
  | .mk qualifier? outer last => qualifierChars qualifier? ++ outerChars outer ++ segmentChars last

def segmentChars : TypeSegment → List Char
  | .mk name [] => name.chars
  | .mk name (first :: others) => name.chars ++ '<' :: argumentChars (first :: others) ++ ['>']

def outerChars : List TypeSegment → List Char
  | [] => []
  | segment :: rest => segmentChars segment ++ '.' :: outerChars rest

def argumentChars : List TypeText → List Char
  | [] => []
  | [type] => type.chars
  | type :: next :: rest => type.chars ++ ',' :: argumentChars (next :: rest)

end

def text (type : TypeText) : String := String.ofList type.chars

mutual

def aliased : TypeText → Bool
  | .mk qualifier? outer last => qualifier?.isSome || anyAliased outer || segmentAliased last

def segmentAliased : TypeSegment → Bool
  | .mk _ arguments => argumentsAliased arguments

def anyAliased : List TypeSegment → Bool
  | [] => false
  | segment :: rest => segmentAliased segment || anyAliased rest

def argumentsAliased : List TypeText → Bool
  | [] => false
  | type :: rest => type.aliased || argumentsAliased rest

end

/-! ## What every type text has -/

/-- A property of the pieces of a type text that stays where they are put together. -/
structure Textual (P : List Char → Prop) : Prop where
  name (name : Identifier) : P name.chars
  dot : P ['.']
  comma : P [',']
  colons : P [':', ':']
  append {a b : List Char} : P a → P b → P (a ++ b)
  enclose {a : List Char} : P a → P ('<' :: a ++ ['>'])

namespace Textual

variable {P : List Char → Prop}

theorem nil (hP : Textual P) : P [] := hP.name { chars := [] }

theorem ofQualifier (hP : Textual P) (qualifier? : Option Identifier) :
    P (qualifierChars qualifier?) := by
  cases qualifier? with
  | none => exact hP.nil
  | some name => exact hP.append (hP.name name) hP.colons

mutual

theorem ofType (hP : Textual P) : ∀ type : TypeText, P type.chars
  | .mk qualifier? outer last => by
    unfold chars
    exact hP.append (hP.append (hP.ofQualifier qualifier?) (hP.ofOuter outer)) (hP.ofSegment last)

theorem ofSegment (hP : Textual P) : ∀ segment : TypeSegment, P (segmentChars segment)
  | .mk name [] => by
    unfold segmentChars
    exact hP.name name
  | .mk name (first :: others) => by
    unfold segmentChars
    rw [List.append_assoc]
    exact hP.append (hP.name name) (hP.enclose (hP.ofArguments (first :: others)))

theorem ofOuter (hP : Textual P) : ∀ outer : List TypeSegment, P (outerChars outer)
  | [] => hP.nil
  | segment :: rest => by
    unfold outerChars
    exact hP.append (hP.ofSegment segment) (hP.append hP.dot (hP.ofOuter rest))

theorem ofArguments (hP : Textual P) : ∀ arguments : List TypeText, P (argumentChars arguments)
  | [] => hP.nil
  | [type] => by
    unfold argumentChars
    exact hP.ofType type
  | type :: next :: rest => by
    unfold argumentChars
    exact hP.append (hP.ofType type) (hP.append hP.comma (hP.ofArguments (next :: rest)))

end

end Textual

/-! ## Colons -/

def Paired (cs : List Char) : Prop :=
  ':' ∈ cs → ∃ a b, cs = a ++ ':' :: ':' :: b ∧ ':' ∉ b

theorem paired_of_not_mem {cs : List Char} (h : ':' ∉ cs) : Paired cs := fun hmem => absurd hmem h

theorem paired_append {a b : List Char} (ha : Paired a) (hb : Paired b) : Paired (a ++ b) := by
  intro hmem
  by_cases hcolon : ':' ∈ b
  · obtain ⟨c, d, rfl, hd⟩ := hb hcolon
    exact ⟨a ++ c, d, by simp, hd⟩
  · obtain ⟨c, d, rfl, hd⟩ := ha ((List.mem_append.1 hmem).resolve_right hcolon)
    exact ⟨c, d ++ b, by simp, by simp [hd, hcolon]⟩

theorem textual_paired : Textual Paired where
  name name := paired_of_not_mem name.colon_not_mem
  dot := paired_of_not_mem (by decide)
  comma := paired_of_not_mem (by decide)
  colons _ := ⟨[], [], rfl, by decide⟩
  append := paired_append
  enclose ha := by
    refine paired_append (paired_append (a := ['<']) (paired_of_not_mem (by decide)) ha) ?_
    exact paired_of_not_mem (by decide)

mutual

theorem colon_mem_iff : ∀ type : TypeText, ':' ∈ type.chars ↔ type.aliased = true
  | .mk qualifier? outer last => by
    have hqualifier : ':' ∈ qualifierChars qualifier? ↔ qualifier?.isSome = true := by
      cases qualifier? <;> simp [qualifierChars]
    simp [chars, aliased, hqualifier, colon_mem_outer outer, colon_mem_segment last, or_assoc]

theorem colon_mem_segment :
    ∀ segment : TypeSegment, ':' ∈ segmentChars segment ↔ segmentAliased segment = true
  | .mk name [] => by
    simp [segmentChars, segmentAliased, argumentsAliased, Identifier.colon_not_mem]
  | .mk name (first :: others) => by
    simp [segmentChars, segmentAliased, Identifier.colon_not_mem,
      colon_mem_arguments (first :: others)]

theorem colon_mem_outer :
    ∀ outer : List TypeSegment, ':' ∈ outerChars outer ↔ anyAliased outer = true
  | [] => by simp [outerChars, anyAliased]
  | segment :: rest => by
    simp [outerChars, anyAliased, colon_mem_segment segment, colon_mem_outer rest]

theorem colon_mem_arguments :
    ∀ arguments : List TypeText, ':' ∈ argumentChars arguments ↔ argumentsAliased arguments = true
  | [] => by simp [argumentChars, argumentsAliased]
  | [type] => by simp [argumentChars, argumentsAliased, colon_mem_iff type]
  | type :: next :: rest => by
    have hrest := colon_mem_arguments (next :: rest)
    rw [argumentChars, argumentsAliased]
    simp [colon_mem_iff type, hrest]

end

/-! ## Brackets -/

/-- How deep in brackets a text ends that starts at the given depth. -/
def depthAfter (depth : Nat) : List Char → Nat
  | [] => depth
  | c :: rest =>
    if c = '<' then depthAfter (depth + 1) rest
    else if c = '>' then depthAfter (depth - 1) rest
    else depthAfter depth rest

theorem depthAfter_append (depth : Nat) (a b : List Char) :
    depthAfter depth (a ++ b) = depthAfter (depthAfter depth a) b := by
  induction a generalizing depth with
  | nil => rfl
  | cons c a ih =>
    simp only [List.cons_append, depthAfter]
    split
    · exact ih _
    · split <;> exact ih _

theorem depthAfter_mono {d e : Nat} (h : d ≤ e) (cs : List Char) :
    depthAfter d cs ≤ depthAfter e cs := by
  induction cs generalizing d e with
  | nil => exact h
  | cons c cs ih =>
    simp only [depthAfter]
    split
    · exact ih (by omega)
    · split
      · exact ih (by omega)
      · exact ih h

theorem depthAfter_of_names {cs : List Char} (depth : Nat)
    (h : ∀ c ∈ cs, c ≠ '<' ∧ c ≠ '>') : depthAfter depth cs = depth := by
  induction cs with
  | nil => rfl
  | cons c cs ih =>
    obtain ⟨hopen, hclose⟩ := h c (by simp)
    simp only [depthAfter, hopen, hclose, if_false]
    exact ih fun d hd => h d (by simp [hd])

theorem textual_depthAfter : Textual fun cs => ∀ depth, depthAfter depth cs = depth where
  name name depth := by
    apply depthAfter_of_names
    intro c hc
    obtain ⟨-, hopen, hclose, -⟩ := Identifier.not_special hc
    exact ⟨hopen, hclose⟩
  dot _ := rfl
  comma _ := rfl
  colons _ := rfl
  append ha hb depth := by rw [depthAfter_append, ha, hb]
  enclose ha depth := by
    rw [depthAfter_append, depthAfter]
    simp [ha, depthAfter]

/-- Where a type text ends, no part at its end is inside of brackets that it opened. -/
theorem depthAfter_suffix {a b : List Char} (h : ∀ depth, depthAfter depth (a ++ b) = depth) :
    depthAfter 0 b = 0 := by
  have hmono := depthAfter_mono (Nat.zero_le (depthAfter 0 a)) b
  rw [← depthAfter_append, h] at hmono
  omega

/-! ## The three cuts -/

theorem afterAlias_of_not_mem {cs : List Char} (kept : List Char) (h : ':' ∉ cs) :
    TypeName.afterAlias kept cs = kept := by
  induction cs with
  | nil => rfl
  | cons c cs ih =>
    simp only [List.mem_cons, not_or] at h
    rw [TypeName.afterAlias]
    · exact ih h.2
    · exact fun hc => h.1 hc.symm

theorem afterAlias_append (kept a : List Char) {b : List Char} (h : ':' ∉ b) :
    TypeName.afterAlias kept (a ++ ':' :: ':' :: b) = b := by
  induction a generalizing kept with
  | nil =>
    have hhead : b.head? ≠ some ':' := fun hb => h (List.mem_of_mem_head? hb)
    simp only [List.nil_append, TypeName.afterAlias, List.head?_cons, if_true, List.tail_cons,
      if_neg hhead]
    exact afterAlias_of_not_mem b h
  | cons c a ih =>
    by_cases hc : c = ':'
    · subst hc
      rw [List.cons_append, TypeName.afterAlias]
      exact ih _
    · rw [List.cons_append, TypeName.afterAlias]
      · exact ih _
      · exact hc

theorem lastSegment_dot {depth : Nat} {cs : List Char} (kept rest : List Char)
    (h : depthAfter depth cs = 0) :
    TypeName.lastSegment depth kept (cs ++ '.' :: rest) = TypeName.lastSegment 0 rest rest := by
  induction cs generalizing depth kept with
  | nil =>
    cases h
    rfl
  | cons c cs ih =>
    simp only [depthAfter] at h
    simp only [List.cons_append, TypeName.lastSegment]
    split at h
    · rename_i hopen
      rw [if_pos hopen]
      exact ih kept h
    · rename_i hopen
      rw [if_neg hopen]
      split at h
      · rename_i hclose
        rw [if_pos hclose]
        exact ih kept h
      · rename_i hclose
        rw [if_neg hclose]
        split
        · exact ih _ h
        · exact ih kept h

theorem lastSegment_names {cs : List Char} (depth : Nat) (kept rest : List Char)
    (h : ∀ c ∈ cs, c ≠ '<' ∧ c ≠ '>' ∧ c ≠ '.') :
    TypeName.lastSegment depth kept (cs ++ rest) = TypeName.lastSegment depth kept rest := by
  induction cs with
  | nil => rfl
  | cons c cs ih =>
    obtain ⟨hopen, hclose, hdot⟩ := h c (by simp)
    simp only [List.cons_append, TypeName.lastSegment, hopen, hclose, hdot, if_false,
      decide_false, Bool.false_and, Bool.false_eq_true]
    exact ih fun d hd => h d (by simp [hd])

theorem names_of_mem (name : Identifier) : ∀ c ∈ name.chars, c ≠ '<' ∧ c ≠ '>' ∧ c ≠ '.' := by
  intro c hc
  obtain ⟨-, hopen, hclose, hdot, -⟩ := Identifier.not_special hc
  exact ⟨hopen, hclose, hdot⟩

/-- Inside of brackets no dot counts. -/
theorem textual_lastSegment : Textual fun cs => ∀ depth kept rest,
    TypeName.lastSegment (depth + 1) kept (cs ++ rest) =
      TypeName.lastSegment (depth + 1) kept rest where
  name name depth kept rest := lastSegment_names _ _ _ (names_of_mem name)
  dot _ _ _ := rfl
  comma _ _ _ := rfl
  colons _ _ _ := rfl
  append ha hb depth kept rest := by rw [List.append_assoc, ha, hb]
  enclose ha depth kept rest := by
    rw [List.append_assoc, List.cons_append, TypeName.lastSegment, if_pos rfl, ha]
    rfl

theorem lastSegment_segment (kept : List Char) (segment : TypeSegment) :
    TypeName.lastSegment 0 kept (segmentChars segment) = kept := by
  obtain ⟨name, arguments⟩ := segment
  cases arguments with
  | nil =>
    have hname := lastSegment_names 0 kept [] (names_of_mem name)
    rw [List.append_nil] at hname
    rw [segmentChars, hname]
    rfl
  | cons first others =>
    rw [segmentChars, List.append_assoc, lastSegment_names 0 kept _ (names_of_mem name),
      List.cons_append, TypeName.lastSegment, if_pos rfl,
      textual_lastSegment.ofArguments (first :: others)]
    rfl

theorem trim_name (name : Identifier) : Text.trim name.chars = name.chars := by
  have hblank : ∀ cs : List Char, (∀ c ∈ cs, Text.isBlank c = false) →
      cs.dropWhile Text.isBlank = cs := by
    intro cs h
    rw [List.dropWhile_eq_self_iff]
    intro hpos
    simp [h _ (List.getElem_mem hpos)]
  have hname : ∀ c ∈ name.chars, Text.isBlank c = false := fun c hc => (Identifier.not_special hc).1
  rw [Text.trim, hblank _ hname, hblank _ (by simpa using hname), List.reverse_reverse]

theorem takeWhile_segment (name : Identifier) (arguments : List TypeText) :
    (segmentChars (.mk name arguments)).takeWhile (· ≠ '<') = name.chars := by
  have hname : ∀ c ∈ name.chars, decide (c ≠ '<') = true :=
    fun c hc => decide_eq_true (Identifier.not_special hc).2.1
  cases arguments with
  | nil =>
    rw [segmentChars]
    exact List.takeWhile_eq_self_iff.2 hname
  | cons first others =>
    rw [segmentChars, List.append_assoc, List.takeWhile_append_of_pos hname]
    simp

/-! ## Names of types -/

theorem simpleName_of_afterAlias {s : String} {b : List Char} {name : Identifier}
    {arguments : List TypeText}
    (h : TypeName.afterAlias s.toList s.toList = segmentChars (.mk name arguments) ∨
      depthAfter 0 b = 0 ∧
        TypeName.afterAlias s.toList s.toList = b ++ '.' :: segmentChars (.mk name arguments)) :
    TypeName.simpleName s = name.text := by
  unfold TypeName.simpleName Identifier.text
  simp only
  rcases h with h | ⟨hdepth, h⟩
  · rw [h, lastSegment_segment, takeWhile_segment, trim_name]
  · rw [h, lastSegment_dot _ _ hdepth, lastSegment_segment, takeWhile_segment, trim_name]

theorem exists_afterAlias {front rest : List Char} (kept : List Char) (hpaired : Paired front)
    (hdepth : ∀ depth, depthAfter depth front = depth) (hrest : ':' ∉ rest)
    (hkept : kept = front ++ '.' :: rest) :
    ∃ b, depthAfter 0 b = 0 ∧
      TypeName.afterAlias kept (front ++ '.' :: rest) = b ++ '.' :: rest := by
  by_cases hcolon : ':' ∈ front
  · obtain ⟨a, b, rfl, hb⟩ := hpaired hcolon
    have hsuffix : depthAfter 0 b = 0 :=
      depthAfter_suffix (a := a ++ [':', ':']) (by simpa using hdepth)
    refine ⟨b, hsuffix, ?_⟩
    rw [List.append_assoc]
    exact afterAlias_append kept a (by simp [hb, hrest])
  · refine ⟨front, hdepth 0, ?_⟩
    rw [hkept]
    exact afterAlias_of_not_mem _ (by simp [hcolon, hrest])

theorem outerChars_concat (outer : List TypeSegment) (segment : TypeSegment) :
    outerChars (outer ++ [segment]) = outerChars outer ++ segmentChars segment ++ ['.'] := by
  induction outer with
  | nil => simp [outerChars]
  | cons first rest ih => simp [outerChars, ih]

theorem simpleName_of_not_aliased (qualifier? : Option Identifier) (outer : List TypeSegment)
    (name : Identifier) {arguments : List TypeText} (h : argumentsAliased arguments = false) :
    TypeName.simpleName (TypeText.mk qualifier? outer (.mk name arguments)).text = name.text := by
  have hsegment : ':' ∉ segmentChars (.mk name arguments) := by
    rw [colon_mem_segment, segmentAliased, h]
    decide
  have htext : (TypeText.mk qualifier? outer (.mk name arguments)).text.toList =
      qualifierChars qualifier? ++ outerChars outer ++ segmentChars (.mk name arguments) := by
    rw [text, chars, String.toList_ofList]
  rcases List.eq_nil_or_concat' outer with rfl | ⟨front, segment, rfl⟩
  · rw [outerChars, List.append_nil] at htext
    have hplain : TypeName.afterAlias (TypeText.mk qualifier? [] (.mk name arguments)).text.toList
        (TypeText.mk qualifier? [] (.mk name arguments)).text.toList =
          segmentChars (.mk name arguments) := by
      rw [htext]
      cases qualifier? with
      | none => exact afterAlias_of_not_mem _ hsegment
      | some qualifier =>
        rw [qualifierChars, List.append_assoc]
        exact afterAlias_append _ _ hsegment
    exact simpleName_of_afterAlias (b := []) (Or.inl hplain)
  · -- An alias in front of the last dot takes its part away, and the dot all of the rest.
    have hfront : ∀ {P : List Char → Prop}, Textual P →
        P (qualifierChars qualifier? ++ outerChars front ++ segmentChars segment) := fun hP =>
      hP.append (hP.append (hP.ofQualifier qualifier?) (hP.ofOuter front)) (hP.ofSegment segment)
    have hsplit : (TypeText.mk qualifier? (front ++ [segment]) (.mk name arguments)).text.toList =
        qualifierChars qualifier? ++ outerChars front ++ segmentChars segment ++
          '.' :: segmentChars (.mk name arguments) := by
      rw [htext, outerChars_concat]
      simp
    obtain ⟨b, hdepth, hb⟩ := exists_afterAlias _ (hfront textual_paired)
      (hfront textual_depthAfter) hsegment hsplit
    exact simpleName_of_afterAlias (Or.inr ⟨hdepth, by rw [hsplit] at hb ⊢; exact hb⟩)

/-- Once an alias stands in the arguments, nothing before them has a part in the name. -/
theorem simpleName_of_aliased (qualifier? : Option Identifier) (outer : List TypeSegment)
    (name : Identifier) {arguments : List TypeText} (h : argumentsAliased arguments = true) :
    TypeName.simpleName (TypeText.mk qualifier? outer (.mk name arguments)).text =
      TypeName.simpleName (String.ofList (argumentChars arguments) ++ ">") := by
  have hcolon : ':' ∈ argumentChars arguments := (colon_mem_arguments arguments).2 h
  obtain ⟨a, b, hab, hb⟩ := textual_paired.ofArguments arguments hcolon
  have hrest : ':' ∉ b ++ ['>'] := by simp [hb]
  have hwhole : (TypeText.mk qualifier? outer (.mk name arguments)).text.toList =
      (qualifierChars qualifier? ++ outerChars outer ++ name.chars ++ '<' :: a) ++
        ':' :: ':' :: (b ++ ['>']) := by
    cases arguments with
    | nil => cases h
    | cons first others =>
      rw [text, chars, segmentChars, hab, String.toList_ofList]
      simp
  have hinner : (String.ofList (argumentChars arguments) ++ ">").toList =
      a ++ ':' :: ':' :: (b ++ ['>']) := by
    simp [hab]
  unfold TypeName.simpleName
  simp only [hwhole, hinner, afterAlias_append _ _ hrest]

/-- The name of a type is that of its last segment, unless an alias stands in the arguments there.
-/
theorem name_ofQualified (arguments : List TypeText) :
    (∀ qualifier? outer name,
      (TypeName.ofQualified (TypeText.mk qualifier? outer (.mk name arguments)).text).name =
        if argumentsAliased arguments then
          TypeName.simpleName (String.ofList (argumentChars arguments) ++ ">")
        else name.text) ∧
    ((∀ qualifier? outer name,
      (TypeName.ofQualified (TypeText.mk qualifier? outer (.mk name arguments)).text).name =
        name.text) ↔ argumentsAliased arguments = false) := by
  have hname : ∀ qualifier? outer name,
      (TypeName.ofQualified (TypeText.mk qualifier? outer (.mk name arguments)).text).name =
        if argumentsAliased arguments then
          TypeName.simpleName (String.ofList (argumentChars arguments) ++ ">")
        else name.text := by
    intro qualifier? outer name
    split
    · rename_i haliased
      exact simpleName_of_aliased qualifier? outer name haliased
    · rename_i haliased
      exact simpleName_of_not_aliased qualifier? outer name (by simpa using haliased)
  refine ⟨hname, fun hright => ?_, fun h qualifier? outer name => ?_⟩
  · by_contra haliased
    -- Two types that differ in their identifier would have the same name.
    have hfirst := hright none [] { chars := ['a'] }
    have hsecond := hright none [] { chars := ['b'] }
    rw [hname, if_pos (by simpa using haliased)] at hfirst hsecond
    exact absurd (hfirst.symm.trans hsecond) (by decide)
  · rw [hname, h]
    rfl

end TypeText

namespace Sample

def lazyToken : TypeText :=
  .mk none [] (.mk { chars := "Lazy".toList }
    [.mk (some { chars := "global".toList }) [.mk { chars := "N".toList } []]
      (.mk { chars := "CancellationToken".toList }
        [.mk none [] (.mk { chars := "int".toList } [])])])

theorem name_lazyToken :
    lazyToken.text = "Lazy<global::N.CancellationToken<int>>" ∧
      (TypeName.ofQualified lazyToken.text).name = tokenType ∧
      (TypeName.ofQualified "List<global::System.String>").name = "String>" := by
  decide +kernel

end Sample
end CancellationLint
