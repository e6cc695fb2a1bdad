import CancellationLint.Proofs.FileNames

/-! # Path names put together

What joining path names does to their steps and to their parts. The slash between the two is written
once, whether or not the first of them ends with one. -/

namespace CancellationLint
namespace PathName

/-! ## Between slashes -/

theorem segmentsFrom_cons_of_ne {c : Char} (h : c ≠ '/') (current rest : List Char) :
    segmentsFrom current (c :: rest) = segmentsFrom (c :: current) rest := by
  rw [segmentsFrom]
  exact h

theorem segmentsFrom_append_slash (current a b : List Char) :
    segmentsFrom current (a ++ '/' :: b) = segmentsFrom current a ++ segmentsFrom [] b := by
  induction a generalizing current with
  | nil => rfl
  | cons c a ih =>
    by_cases hc : c = '/'
    · subst hc
      simp [segmentsFrom, ih]
    · rw [List.cons_append, segmentsFrom_cons_of_ne hc, segmentsFrom_cons_of_ne hc, ih]

theorem segmentsFrom_of_not_mem {a : List Char} (h : '/' ∉ a) (current : List Char) :
    segmentsFrom current a = [current.reverse ++ a] := by
  induction a generalizing current with
  | nil => simp [segmentsFrom]
  | cons c a ih =>
    simp only [List.mem_cons, not_or] at h
    rw [segmentsFrom_cons_of_ne (Ne.symm h.1), ih h.2]
    simp

theorem segments_ne_nil (p : PathName) : p.segments ≠ [] :=
  segmentsFrom_ne_nil [] p.text.toList

theorem segments_ne_of_text {p : PathName} (h : p.text ≠ "") : p.segments ≠ [[]] := by
  unfold segments
  cases htext : p.text.toList with
  | nil => exact absurd (String.toList_eq_nil_iff.1 htext) h
  | cons c rest =>
    by_cases hc : c = '/'
    · subst hc
      obtain ⟨segment, others, hrest⟩ := List.exists_cons_of_ne_nil (segmentsFrom_ne_nil [] rest)
      simp [segmentsFrom, hrest]
    · obtain ⟨segment, others, hrest, hne⟩ := exists_segmentsFrom rest (List.cons_ne_nil c [])
      rw [segmentsFrom_cons_of_ne hc, hrest]
      simp [hne]

/-! ## Names -/

/-- Whether a text is read as the name of something in a directory. -/
def isName (text : String) : Bool :=
  text ≠ "" && text ≠ "." && text ≠ ".." && !text.toList.contains '/'

theorem isName_iff {text : String} :
    isName text = true ↔ text ≠ "" ∧ text ≠ "." ∧ text ≠ ".." ∧ '/' ∉ text.toList := by
  simp [isName, and_assoc]

theorem ofSegment?_of_isName {name : String} (h : isName name = true) :
    Part.ofSegment? name.toList = some (.name name) := by
  obtain ⟨hempty, hdot, hdots, -⟩ := isName_iff.1 h
  have hne : ∀ {text : String}, name ≠ text → name.toList ≠ text.toList :=
    fun hne heq => hne (String.toList_inj.1 heq)
  have h₁ : name.toList ≠ [] := hne hempty
  have h₂ : name.toList ≠ ['.'] := hne hdot
  have h₃ : name.toList ≠ ['.', '.'] := hne hdots
  simp [Part.ofSegment?, h₁, h₂, h₃]

theorem segments_of_isName {name : String} (h : isName name = true) :
    segments { text := name } = [name.toList] := by
  simp [segments, segmentsFrom_of_not_mem (isName_iff.1 h).2.2.2]

theorem steps_of_isName {name : String} (h : isName name = true) :
    steps { text := name } = [.name name] := by
  simp [steps, segments_of_isName h, ofSegment?_of_isName h]

theorem isAbsolute_eq_false_of_isName {name : String} (h : isName name = true) :
    isAbsolute { text := name } = false := by
  rw [Bool.eq_false_iff]
  intro habs
  rw [isAbsolute, String.startsWith_string_iff] at habs
  exact (isName_iff.1 h).2.2.2 (habs.subset (by simp))

/-! ## Joining -/

theorem segments_join (base : PathName) {other : PathName} (h : other.isAbsolute = false) :
    base.text = "" ∧ base.join other = other ∨
      (∃ front, front ≠ [] ∧ base.segments = front ++ [[]] ∧
        (base.join other).segments = front ++ other.segments) ∨
      base.segments ≠ [[]] ∧ (base.join other).segments = base.segments ++ other.segments := by
  unfold join
  rw [h]
  by_cases hempty : base.text = ""
  · left
    simp [hempty]
  · right
    by_cases hslash : base.text.toList.getLast? = some '/'
    · left
      obtain ⟨front, hfront⟩ := List.getLast?_eq_some_iff.1 hslash
      refine ⟨segmentsFrom [] front, segmentsFrom_ne_nil [] front, ?_, ?_⟩
      · rw [segments, hfront, segmentsFrom_append_slash]
        rfl
      · simp [segments, hfront, segmentsFrom_append_slash]
    · right
      refine ⟨segments_ne_of_text hempty, ?_⟩
      simp [segments, hempty, hslash, segmentsFrom_append_slash]

theorem mem_text_join {base other : PathName} {c : Char} (h : c ∈ (base.join other).text.toList) :
    c = '/' ∨ c ∈ base.text.toList ∨ c ∈ other.text.toList := by
  unfold join at h
  split at h
  · exact .inr (.inr h)
  · split at h
    · rw [String.toList_append, List.mem_append] at h
      exact .inr h
    · simp only [String.toList_append, List.mem_append] at h
      rcases h with (h | h) | h
      · exact .inr (.inl h)
      · exact .inl (by simpa using h)
      · exact .inr (.inr h)

theorem text_join_ne {base other : PathName} (hbase : base.text ≠ "") (h : other.isAbsolute = false) :
    (base.join other).text ≠ "" := by
  unfold join
  rw [h]
  simp only [Bool.false_eq_true, if_false]
  split <;> simp [hbase]

theorem isAbsolute_join {base other : PathName} (h : other.isAbsolute = false) :
    (base.join other).isAbsolute = base.isAbsolute := by
  by_cases hempty : base.text = ""
  · have hbase : base.isAbsolute = false := by
      rw [Bool.eq_false_iff, isAbsolute, Ne, String.startsWith_string_iff, hempty]
      decide
    simp [join, h, hempty, hbase]
  · obtain ⟨c, rest, hbase⟩ := List.exists_cons_of_ne_nil (mt String.toList_eq_nil_iff.1 hempty)
    rw [Bool.eq_iff_iff]
    unfold isAbsolute join
    rw [h, String.startsWith_string_iff, String.startsWith_string_iff, hbase]
    simp only [Bool.false_eq_true, if_false]
    split <;> simp [hbase, List.cons_prefix_cons]

theorem join_of_relative (a : PathName) {b : PathName} (h : b.isAbsolute = false) :
    a.join b = { text := a.text ++
      (if a.text = "" ∨ a.text.toList.getLast? = some '/' then "" else "/") ++ b.text } := by
  unfold join
  rw [h]
  simp only [Bool.false_eq_true, if_false, Bool.or_eq_true, decide_eq_true_eq]
  split <;> simp

theorem join_assoc (a : PathName) {b c : PathName} (hb : b.isAbsolute = false)
    (hc : c.isAbsolute = false) : (a.join b).join c = a.join (b.join c) := by
  have hbc : (b.join c).isAbsolute = false := by rw [isAbsolute_join hc, hb]
  rw [join_of_relative _ hc, join_of_relative a hbc, join_of_relative b hc, join_of_relative a hb]
  by_cases hempty : b.text = ""
  · -- What stands before an empty name is empty or ends with a slash.
    simp only [hempty, String.append_empty, true_or, if_true, String.empty_append]
    split <;> simp_all
  · have hlast : ∀ text : String,
        (text ++ b.text).toList.getLast? = b.text.toList.getLast? := by
      intro text
      rw [String.toList_append, List.getLast?_append_of_ne_nil]
      simpa using hempty
    simp only [hlast, hempty, false_or, String.append_eq_empty_iff, and_false]
    simp only [String.append_assoc]
/-- The steps of two path names are taken in turn; a last one that stays in place may be lost. -/
theorem steps_join {base other : PathName} (hbase : base.text ≠ "") (h : other.isAbsolute = false) :
    (base.join other).steps = base.steps ++ other.steps ∨
      ∃ front, base.steps = front ++ [.here] ∧ (base.join other).steps = front ++ other.steps := by
  rcases segments_join base h with ⟨hempty, -⟩ | ⟨front, -, hfront, hjoin⟩ | ⟨-, hjoin⟩
  · exact absurd hempty hbase
  · refine .inr ⟨front.map fun segment => (Part.ofSegment? segment).getD .here, ?_, ?_⟩
    · rw [steps, hfront, List.map_append]
      rfl
    · rw [steps, hjoin, List.map_append]
      rfl
  · left
    rw [steps, hjoin, List.map_append]
    rfl

theorem leading_append {front a b : List (List Char)} (hfront : front ≠ []) (ha : a ≠ [])
    (hb : b ≠ []) : leading (front ++ a) = leading (front ++ b) := by
  have hfirst : ∀ (first s t : List Char) (u v : List (List Char)),
      leading (first :: s :: u) = leading (first :: t :: v) := by
    intro first s t u v
    unfold leading
    split <;> simp_all
  obtain ⟨first, others, rfl⟩ := List.exists_cons_of_ne_nil hfront
  obtain ⟨s, u, hs⟩ := List.exists_cons_of_ne_nil (List.append_ne_nil_of_right_ne_nil others ha)
  obtain ⟨t, v, ht⟩ := List.exists_cons_of_ne_nil (List.append_ne_nil_of_right_ne_nil others hb)
  rw [List.cons_append, List.cons_append, hs, ht]
  exact hfirst first s t u v

theorem leading_append_of_ne {front : List (List Char)} (hfront : front ≠ []) (h : front ≠ [[]])
    (a : List (List Char)) : leading (front ++ a) = leading front := by
  cases front with
  | nil => exact absurd rfl hfront
  | cons first others =>
    cases others with
    | nil =>
      unfold leading
      split <;> simp_all
    | cons second others => exact @leading_append [first] _ _ (by simp) (by simp) (by simp)

theorem parts_join_of_isName {base : PathName} {name : String} (h : isName name = true) :
    (base.join { text := name }).parts = base.parts ++ [.name name] := by
  have hname := ofSegment?_of_isName h
  have hempty : Part.ofSegment? [] = none := rfl
  unfold parts
  rcases segments_join base (isAbsolute_eq_false_of_isName h) with
    ⟨hbase, hjoin⟩ | ⟨front, hfront, hbase, hjoin⟩ | ⟨hbase, hjoin⟩
  · have hfront : leading [name.toList] = [] := by
      unfold leading
      split
      · simp_all
      · simp_all [Part.ofSegment?]
      · rfl
    rw [hjoin, segments_of_isName h, hfront, segments, hbase]
    simp [segmentsFrom, leading, hname, hempty]
  · rw [hjoin, hbase, segments_of_isName h,
      leading_append hfront (List.cons_ne_nil name.toList []) (List.cons_ne_nil [] [])]
    simp [hname, hempty]
  · rw [hjoin, segments_of_isName h,
      leading_append_of_ne base.segments_ne_nil hbase]
    simp [hname]

def below (base : PathName) (names : List String) : PathName :=
  names.foldl (fun path name => path.join { text := name }) base

theorem below_cons (base : PathName) (name : String) (names : List String) :
    base.below (name :: names) = (base.join { text := name }).below names :=
  rfl

theorem join_below (a : PathName) {base : PathName} {names : List String}
    (hbase : base.isAbsolute = false) (h : ∀ name ∈ names, isName name = true) :
    a.join (base.below names) = (a.join base).below names := by
  induction names generalizing base with
  | nil => rfl
  | cons name names ih =>
    have hname := isAbsolute_eq_false_of_isName (h name (by simp))
    rw [below_cons, below_cons, join_assoc a hbase hname]
    exact ih (by rw [isAbsolute_join hname, hbase]) fun n hn => h n (List.mem_cons_of_mem _ hn)

theorem parts_below {base : PathName} {names : List String}
    (h : ∀ name ∈ names, isName name = true) :
    (base.below names).parts = base.parts ++ names.map .name := by
  induction names generalizing base with
  | nil => simp [below]
  | cons name names ih =>
    rw [below_cons, ih fun n hn => h n (List.mem_cons_of_mem _ hn),
      parts_join_of_isName (h name (by simp)), List.append_assoc]
    rfl

theorem isAbsolute_below {base : PathName} {names : List String}
    (h : ∀ name ∈ names, isName name = true) : (base.below names).isAbsolute = base.isAbsolute := by
  rw [Bool.eq_iff_iff, ← root_mem_parts_iff, ← root_mem_parts_iff, parts_below h]
  simp

theorem map_name_inj {names others : List String} :
    names.map Part.name = others.map Part.name ↔ names = others :=
  List.map_inj_right fun _ _ => Part.name.inj

/-! ## Absolute names -/

theorem segmentsFrom_intercalate {names : List String} (h : ∀ name ∈ names, isName name = true)
    (hne : names ≠ []) :
    segmentsFrom [] (['/'].intercalate (names.map String.toList)) = names.map String.toList := by
  induction names with
  | nil => exact absurd rfl hne
  | cons name names ih =>
    have hname := segmentsFrom_of_not_mem (isName_iff.1 (h name (by simp))).2.2.2 []
    cases names with
    | nil => simpa using hname
    | cons next names =>
      rw [List.map_cons, List.map_cons, List.intercalate_cons_cons, List.append_assoc,
        List.singleton_append, segmentsFrom_append_slash, hname, ← List.map_cons,
        ih (fun n hn => h n (List.mem_cons_of_mem _ hn)) (by simp)]
      rfl

theorem mem_text_ofNames {names : List String} {c : Char} (h : c ∈ (ofNames names).text.toList) :
    c = '/' ∨ ∃ name ∈ names, c ∈ name.toList := by
  have hmem : ∀ texts : List (List Char), c ∈ ['/'].intercalate texts →
      c = '/' ∨ ∃ text ∈ texts, c ∈ text := by
    intro texts htexts
    induction texts with
    | nil => simp at htexts
    | cons text texts ih =>
      by_cases hnil : texts = []
      · exact .inr ⟨text, by simp, by simpa [hnil] using htexts⟩
      · rw [List.intercalate_cons_of_ne_nil hnil, List.mem_append, List.mem_append] at htexts
        rcases htexts with (hin | hin) | hin
        · exact .inr ⟨text, by simp, hin⟩
        · exact .inl (List.mem_singleton.1 hin)
        · exact (ih hin).imp_right fun ⟨t, ht, hc⟩ => ⟨t, List.mem_cons_of_mem _ ht, hc⟩
  rw [ofNames, String.toList_append, List.mem_append, String.toList_intercalate] at h
  rcases h with h | h
  · exact .inl (List.mem_singleton.1 h)
  · refine (hmem _ h).imp_right ?_
    rintro ⟨text, htext, hc⟩
    obtain ⟨name, hname, rfl⟩ := List.mem_map.1 htext
    exact ⟨name, hname, hc⟩

theorem segments_ofNames {names : List String} (h : ∀ name ∈ names, isName name = true) :
    (ofNames names).segments = [] :: if names = [] then [[]] else names.map String.toList := by
  have htext : (ofNames names).text.toList = '/' :: ['/'].intercalate (names.map String.toList) := by
    simp [ofNames, String.toList_intercalate]
  rw [segments, htext, segmentsFrom, List.reverse_nil]
  split
  · rename_i hnil
    simp [hnil, segmentsFrom]
  · rename_i hne
    rw [segmentsFrom_intercalate h hne]

theorem isAbsolute_ofNames (names : List String) : (ofNames names).isAbsolute = true := by
  rw [isAbsolute, String.startsWith_string_iff]
  simp [ofNames, List.cons_prefix_cons]

theorem text_ofNames_ne (names : List String) : (ofNames names).text ≠ "" := by
  simp [ofNames]

theorem parts_ofNames {names : List String} (h : ∀ name ∈ names, isName name = true) :
    (ofNames names).parts = .root :: names.map .name := by
  have hempty : Part.ofSegment? [] = none := rfl
  have hnames : (names.map String.toList).filterMap Part.ofSegment? = names.map .name := by
    rw [List.filterMap_map, ← List.filterMap_eq_map]
    exact List.filterMap_congr fun name hname => ofSegment?_of_isName (h name hname)
  rw [parts, segments_ofNames h, List.filterMap_cons_none hempty]
  split
  · rename_i hnil
    simp [hnil, leading, hempty]
  · rename_i hne
    obtain ⟨name, others, rfl⟩ := List.exists_cons_of_ne_nil hne
    rw [hnames]
    rfl

theorem steps_ofNames {names : List String} (h : ∀ name ∈ names, isName name = true) :
    (ofNames names).steps = .here :: if names = [] then [.here] else names.map .name := by
  rw [steps, segments_ofNames h]
  split
  · rfl
  · rw [List.map_cons, List.map_map]
    congr 1
    exact List.map_congr_left fun name hname => by simp [ofSegment?_of_isName (h name hname)]

end PathName
end CancellationLint
