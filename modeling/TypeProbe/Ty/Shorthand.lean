import TypeProbe.Ty.Basic

/-!
# Shorthands for types with one atom
-/

namespace TypeProbe.Ty

def ofKeyword (word : Keyword) : Ty :=
  single (.keyword word)

def ofLiteral (value : Literal) : Ty :=
  single (.literal value)

/-- The names of the classes below `bound`, or of all classes. -/
def classString (bound : Option String) : Ty :=
  single (.classString bound)

/-- The instances of a class. -/
def instanceOf (name : String) : Ty :=
  single (.object ⟨name, []⟩)

/-- The instances of a class with type parameters. -/
def generic (name : String) (params : List Ty) : Ty :=
  single (.generic ⟨name, []⟩ params)

/-- The record of the pairs, where a later pair replaces the type of an earlier one with its key. -/
def record (pairs : List (Key × Ty)) (isSealed : Bool) : Ty :=
  single (.record (.ofFields (Keyed.ofPairs pairs) isSealed))

/-- The sealed record of the elements of a list. -/
def tuple (elements : List Ty) : Ty :=
  single (.record (.ofElements elements))

/-- A closure without parameters. -/
def closure (result : Option Ty) : Ty :=
  single (.callable ⟨[], result, true, false⟩)

/-- A callable with one parameter and no declared result. -/
def callableOf (name : String) (type : Ty) : Ty :=
  single (.callable ⟨[⟨name, some type, false, false, false⟩], none, false, false⟩)

end TypeProbe.Ty
