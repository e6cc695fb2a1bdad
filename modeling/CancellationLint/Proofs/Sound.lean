import CancellationLint.Element.Path
import CancellationLint.Proofs.Tokens

/-! # Sound elements

A node stores its width and whether there is an error in it. However nodes are built, the width is
that of the children, and neither an error of a child nor an error of the node is missed. -/

namespace CancellationLint
namespace Element

mutual

def all (test : Element → Bool) : Element → Bool
  | .token t => test (.token t)
  | .node h children => test (.node h children) && allOf test children

def allOf (test : Element → Bool) : List Element → Bool
  | [] => true
  | e :: rest => e.all test && allOf test rest

end

theorem allOf_iff (test : Element → Bool) (es : List Element) :
    allOf test es = true ↔ ∀ e ∈ es, e.all test = true := by
  induction es with
  | nil => simp [allOf]
  | cons e es ih => simp [allOf, ih]

theorem all_node_iff (test : Element → Bool) (h : Head) (es : List Element) :
    (Element.node h es).all test = true ↔
      test (.node h es) = true ∧ ∀ e ∈ es, e.all test = true := by
  rw [all, Bool.and_eq_true, allOf_iff]

theorem test_of_all {test : Element → Bool} {e : Element} (h : e.all test = true) :
    test e = true := by
  cases e with
  | token t => exact h
  | node g es => exact ((all_node_iff test g es).1 h).1

theorem all_of_mem {test : Element → Bool} {e child : Element} (h : e.all test = true)
    (hmem : child ∈ e.children) : child.all test = true := by
  cases e with
  | token t => cases hmem
  | node g es => exact ((all_node_iff test g es).1 h).2 child hmem

/-- Whether the width and the error mark of a node fit its children. -/
def fits : Element → Bool
  | .token _ => true
  | .node h children =>
    h.width = widthOf children && (!(h.kind = .error || children.any hasError) || h.hasError)

def sound (e : Element) : Bool := e.all fits

@[simp] theorem sound_token (t : Token) : (Element.token t).sound = true := rfl

theorem sound_node_iff (h : Head) (es : List Element) :
    (Element.node h es).sound = true ↔
      h.width = widthOf es ∧ (h.kind = .error ∨ es.any hasError = true → h.hasError = true) ∧
        ∀ e ∈ es, e.sound = true := by
  rw [sound, all_node_iff, fits, Bool.and_eq_true, decide_eq_true_eq, Bool.or_eq_true,
    Bool.not_eq_true', Bool.or_eq_false_iff, decide_eq_false_iff_not, and_assoc]
  refine and_congr_right fun _ => and_congr ?_ Iff.rfl
  cases h.hasError <;> cases es.any hasError <;> simp

def shows : Element → Bool
  | .token _ => true
  | .node h children => !(h.kind = .error || children.any hasError) || h.hasError

/-- Whether all errors show in the nodes above them. -/
def showsErrors (e : Element) : Bool := e.all shows

theorem showsErrors_node_iff {h : Head} {es : List Element} :
    (Element.node h es).showsErrors = true ↔
      (h.kind = .error ∨ es.any hasError = true → h.hasError = true) ∧
        ∀ e ∈ es, e.showsErrors = true := by
  rw [showsErrors, all_node_iff, shows]
  refine and_congr ?_ Iff.rfl
  cases h.hasError <;> cases es.any hasError <;> simp

theorem showsErrors_of_sound {e : Element} (he : e.sound = true) : e.showsErrors = true := by
  induction e with
  | token t => rfl
  | node h es ih =>
    obtain ⟨-, hmark, hes⟩ := (sound_node_iff h es).1 he
    exact showsErrors_node_iff.2 ⟨hmark, fun e hmem => ih e hmem (hes e hmem)⟩

/-- The stored width is the number of bytes of the full text. -/
theorem width_eq {e : Element} (he : e.sound = true) : e.width = e.fullText.utf8ByteSize := by
  induction e with
  | token t => simp [width, Token.width, fullText, Token.fullText]
  | node h es ih =>
    obtain ⟨hw, -, hes⟩ := (sound_node_iff h es).1 he
    rw [width, hw, fullText_node]
    clear hw he
    induction es with
    | nil => rfl
    | cons e es ihes =>
      rw [widthOf, List.map_cons, String.join_cons,
        String.utf8ByteSize_append, ih e (by simp) (hes e (by simp))]
      congr 1
      exact ihes (fun d hd => ih d (by simp [hd])) fun d hd => hes d (by simp [hd])

theorem fits_make (l : Label) (kind : Kind) (es : List Element) : (make l kind es).fits = true := by
  simp only [make, fits, decide_true, Bool.true_and, Bool.not_or_self]

theorem shows_make (l : Label) (kind : Kind) (es : List Element) :
    (make l kind es).shows = true := by
  simp only [make, shows, Bool.not_or_self]

theorem sound_withReformat {l : Label} {r : Option Reformat} {e : Element} (he : e.sound = true) :
    (withReformat l r e).sound = true := by
  cases e with
  | token t => rfl
  | node h es =>
    rw [sound_node_iff] at he
    rw [withReformat, sound_node_iff]
    exact he

theorem sound_swap {h : Head} {l : Label} {old : Element} {es : List Element}
    (hes : ∀ e ∈ es, e.sound = true) : (Element.node (h.swap l old es) es).sound = true := by
  rw [sound_node_iff]
  refine ⟨rfl, ?_, hes⟩
  rintro (hk | hany)
  · have : h.kind = .error := hk
    simp [Head.swap, this]
  · simp [Head.swap, hany]

theorem sound_set {h : Head} {l : Label} {old new : Element} {es : List Element} {i : Nat}
    (he : (Element.node h es).sound = true) (hnew : new.sound = true) :
    (Element.node (h.swap l old (es.set i new)) (es.set i new)).sound = true := by
  have hes := ((sound_node_iff h es).1 he).2.2
  refine sound_swap fun d hd => ?_
  rcases List.mem_or_eq_of_mem_set hd with hd | rfl
  · exact hes d hd
  · exact hnew

end Element
end CancellationLint
