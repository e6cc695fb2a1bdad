import CancellationLint.Types.Scope

/-! # What scopes declare

What a scope says of a name is read off the declarations in it: the first one of that name decides,
with the type that stands beside it. So a name is resolved by one search, through the declarations of
all the scopes around it from the inside out. -/

namespace CancellationLint
namespace Scope

/-- A declared name, and what stands as its type. -/
structure Declaration where
  name : Cursor
  type : Option Cursor

namespace Declaration

def typeName? (d : Declaration) : Option TypeName := d.type.bind fun c => TypeName.ofDeclared? c.text

def names (name : String) (d : Declaration) : Bool := d.name.text = name

end Declaration

/-- What declarations say of a name. -/
def told (name : String) (ds : List Declaration) : Lookup :=
  (ds.find? (·.names name)).map Declaration.typeName?

@[simp] theorem told_nil (name : String) : told name [] = none := rfl

theorem told_append (name : String) (as bs : List Declaration) :
    told name (as ++ bs) = (told name as).or (told name bs) := by
  unfold told
  rw [List.find?_append]
  cases as.find? (·.names name) <;> rfl

theorem told_flatMap {α : Type} (name : String) (as : List α) (f : α → List Declaration) :
    told name (as.flatMap f) = as.findSome? fun a => told name (f a) := by
  induction as with
  | nil => rfl
  | cons a as ih =>
    rw [List.flatMap_cons, told_append, ih, List.findSome?_cons]
    cases told name (f a) <;> rfl

theorem told_singleton (name : String) (d : Declaration) :
    told name [d] = if d.name.text = name then some d.typeName? else none := by
  by_cases h : d.name.text = name <;> simp [told, Declaration.names, h]

theorem told_map (name : String) (type : Option Cursor) (cs : List Cursor) :
    told name (cs.map fun c => { name := c, type }) =
      if cs.any (·.text = name) then some (Declaration.typeName? { name := default, type }) else none := by
  induction cs with
  | nil => rfl
  | cons c cs ih =>
    rw [List.map_cons, ← List.singleton_append, told_append, told_singleton, ih]
    by_cases h : c.text = name <;> simp [h, Declaration.typeName?]

/-! ## Declarations by their scope -/

def declarators (c : Cursor) : List Declaration :=
  ((c.childNodes.filter (·.kind = .variableDeclarator)).filterMap fun d =>
    d.children.find? (·.kind = .identifier)).map fun name => { name, type := c.children.head? }

def variableDeclarations (c : Cursor) : List Declaration := (variables? c).toList.flatMap declarators

def localDeclarations (use : Nat) (block : Cursor) : List Declaration :=
  block.childNodes.flatMap fun statement =>
    if statement.kind = .localDeclarationStatement && statement.span.stop ≤ use then
      variableDeclarations statement
    else []

def ofParameter : List Cursor → List Declaration
  | [] => []
  | name :: rest => [{ name, type := rest.head? }]

def implicitParameters (lambda : Cursor) : List Declaration :=
  ((lambda.children.takeWhile (·.text ≠ "=>")).filter fun child =>
    child.kind = .identifier || child.kind = .other "implicit_parameter").map fun name =>
      { name, type := none }

def parameterDeclarations (owner : Cursor) : List Declaration :=
  (if owner.kind = .lambdaExpression then implicitParameters owner else []) ++
    ((listed .parameterList owner).filter (·.kind = .parameter)).flatMap fun c =>
      ofParameter (parts c).reverse

def ofProperty : List Cursor → List Declaration
  | type :: name :: _ => [{ name, type := some type }]
  | _ => []

def ofMember (c : Cursor) : List Declaration :=
  if c.kind = .fieldDeclaration then variableDeclarations c
  else if c.kind = .propertyDeclaration then ofProperty (parts c)
  else []

def memberDeclarations (declaration : Cursor) : List Declaration :=
  (listed .declarationList declaration).flatMap ofMember

/-- What an enclosing node declares, as seen from an offset. -/
def declarations (use : Nat) (scope : Cursor) : List Declaration :=
  if scope.kind = .block then localDeclarations use scope
  else if scope.kind.hasParameters then parameterDeclarations scope
  else if scope.kind.isTypeDeclaration then
    parameterDeclarations scope ++ memberDeclarations scope
  else []

/-- All that is declared around a place, from the inside out. -/
def visible (c : Cursor) : List Declaration := c.enclosing.flatMap (declarations c.span.start)

/-! ## Lookups are searches -/

theorem told_declarators (name : String) (c : Cursor) :
    declarator name c = told name (declarators c) := by
  have hany : ∀ ds : List Cursor,
      (ds.filterMap fun d => d.children.find? (·.kind = .identifier)).any (·.text = name) =
        ds.any fun d => (d.children.find? (·.kind = .identifier)).any (·.text = name) := by
    intro ds
    induction ds with
    | nil => rfl
    | cons d ds ih =>
      rw [List.filterMap_cons, List.any_cons, ← ih]
      cases d.children.find? (·.kind = .identifier) <;> simp
  unfold declarator declarators
  rw [told_map, hany]
  unfold Cursor.childNodes
  cases c.children with
  | nil => rfl
  | cons type rest => rfl

theorem told_variableDeclarations (name : String) (c : Cursor) :
    (variables? c).bind (declarator name) = told name (variableDeclarations c) := by
  unfold variableDeclarations
  rw [told_flatMap]
  cases variables? c with
  | none => rfl
  | some d =>
    rw [Option.bind_some, told_declarators, Option.toList_some, List.findSome?_singleton]

theorem told_localDeclarations (name : String) (use : Nat) (block : Cursor) :
    locals name use block = told name (localDeclarations use block) := by
  unfold locals localDeclarations
  rw [told_flatMap]
  congr 1
  funext statement
  split
  · exact told_variableDeclarations name statement
  · rfl

theorem told_parameterDeclarations (name : String) (owner : Cursor) :
    parameters name owner = told name (parameterDeclarations owner) := by
  have himplicit : told name (implicitParameters owner) =
      if isImplicitParameter name owner then some none else none := by
    unfold implicitParameters isImplicitParameter
    rw [told_map, List.any_filter]
    rfl
  have hparameter : ∀ c, told name (ofParameter (parts c).reverse) = parameter name c := by
    intro c
    unfold parameter
    cases (parts c).reverse with
    | nil => rfl
    | cons declared rest =>
      rw [ofParameter, told_singleton]
      cases rest <;> rfl
  unfold parameters parameterDeclarations
  rw [told_append, told_flatMap]
  simp only [hparameter]
  by_cases hkind : owner.kind = .lambdaExpression
  · cases h : isImplicitParameter name owner <;> simp [hkind, himplicit, h]
  · simp [hkind]

theorem told_ofMember (name : String) (c : Cursor) : member name c = told name (ofMember c) := by
  unfold ofMember
  by_cases hfield : c.kind = .fieldDeclaration
  · rw [if_pos hfield, ← told_variableDeclarations, member, hfield]
  · rw [if_neg hfield]
    by_cases hproperty : c.kind = .propertyDeclaration
    · rw [if_pos hproperty, member, hproperty]
      simp only
      cases parts c with
      | nil => rfl
      | cons type rest =>
        cases rest with
        | nil => rfl
        | cons declared rest => rw [ofProperty, told_singleton]; rfl
    · rw [if_neg hproperty]
      unfold member
      split
      · contradiction
      · contradiction
      · rfl

theorem told_memberDeclarations (name : String) (c : Cursor) :
    members name c = told name (memberDeclarations c) := by
  unfold members memberDeclarations
  rw [told_flatMap]
  congr 1
  funext d
  exact told_ofMember name d

theorem told_declarations (name : String) (use : Nat) (scope : Cursor) :
    lookup name use scope = told name (declarations use scope) := by
  unfold lookup declarations
  rw [told_localDeclarations, told_parameterDeclarations, told_memberDeclarations, ← told_append]
  split
  · rfl
  split
  · rfl
  split <;> rfl

/-- The first declaration of the name decides, whatever its type. -/
theorem resolve_eq (name : String) (c : Cursor) : resolve name c = (told name (visible c)).join := by
  unfold resolve visible
  rw [told_flatMap, show lookup name c.span.start = _ from funext (told_declarations name _)]

end Scope
end CancellationLint
