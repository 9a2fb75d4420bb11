import TypeProbe.Keyed
import TypeProbe.Number.Binary64

/-!
# Types

A type `Ty` is a union: a list of atoms, whose order is kept but carries no meaning, and a mark that
says whether the slot which holds the value may be missing.  An atom is a keyword, a literal, a
class string, an object with further facets, a record with one type for each key, a callable, a
template parameter with a bound, an array or a list.

The fields of a record are a list of pairs read as an insertion-ordered map (`Keyed`).
`Record.hasListKeys` says that the keys are `0, 1, …` in order and no slot may be missing;
`Record.ofFields` sets the mark `isList` by that test, which a record built by hand may contradict.
-/

namespace TypeProbe

/-- The atoms that are written as one word. -/
inductive Keyword where
  | mixed | void | null | never | arrayKey | string | nonEmptyString | int | float | bool
  | boolTrue | boolFalse
deriving DecidableEq, Inhabited

/-- A type with one value, written as that value; a class name stands for
the text that names the class. -/
inductive Literal where
  | string (value : String)
  | int (value : Int)
  | float (value : Binary64)
  | className (name : String)
deriving DecidableEq, Inhabited

/-- The key of a record field. -/
inductive Key where
  | int (index : Int)
  | string (name : String)
deriving DecidableEq, Inhabited

mutual

/-- A union of atoms; `optional` marks a slot that may be missing. -/
structure Ty where
  atoms : List Atom
  optional : Bool

/-- One member of a union. -/
inductive Atom where
  | keyword (word : Keyword)
  | literal (value : Literal)
  | classString (bound : Option String)
  | object (self : ObjectType)
  | generic (self : ObjectType) (params : List Ty)
  | record (self : Record)
  | callable (self : Callable)
  | template (name scope : String) (bound : Ty)
  | array (key value : Ty) (nonEmpty : Bool)
  | list (value : Ty) (nonEmpty : Bool)

/-- An instance of a class that is also an instance of every facet. -/
structure ObjectType where
  name : String
  facets : List Atom

/-- A map with one type for each listed key; a sealed record has no other keys. -/
structure Record where
  fields : List (Key × Ty)
  isSealed : Bool
  isList : Bool

/-- A function; a parameter or a result without a type was not declared. -/
structure Callable where
  params : List Param
  result : Option Ty
  isClosure : Bool
  isPure : Bool

structure Param where
  name : String
  type : Option Ty
  byReference : Bool
  variadic : Bool
  optional : Bool

end

instance : Inhabited Ty := ⟨⟨[], false⟩⟩
instance : Inhabited Atom := ⟨.keyword .mixed⟩

/-- The text of a key as it stands. -/
def Key.text : Key → String
  | .int i => i.repr
  | .string s => s

namespace Ty

/-- The type with one atom. -/
def single (a : Atom) : Ty :=
  ⟨[a], false⟩

/-- The atom of a type that has only one. -/
def sole? (t : Ty) : Option Atom :=
  match t.atoms with
  | [a] => some a
  | _ => none

/-- The type in a slot that may be missing. -/
def asOptional (t : Ty) : Ty :=
  { t with optional := true }

/-- The type in a slot that is always there. -/
def asRequired (t : Ty) : Ty :=
  { t with optional := false }

end Ty

namespace Atom

def isMixed : Atom → Bool
  | .keyword .mixed => true
  | _ => false

def isNever : Atom → Bool
  | .keyword .never => true
  | _ => false

/-- Whether the atom stands for one scalar value. -/
def isLiteral : Atom → Bool
  | .literal _ => true
  | .keyword .boolTrue => true
  | .keyword .boolFalse => true
  | _ => false

/-- The object part of an object, with or without type parameters. -/
def object? : Atom → Option ObjectType
  | .object o => some o
  | .generic o _ => some o
  | _ => none

/-- The object with one more facet, behind those it has. -/
def withFacet? (a facet : Atom) : Option Atom :=
  match a with
  | .object o => some (.object { o with facets := o.facets ++ [facet] })
  | .generic o params => some (.generic { o with facets := o.facets ++ [facet] } params)
  | _ => none

end Atom

namespace Record

/-- Whether the keys are `start, start + 1, …` in order and every slot is always there. -/
def listKeysFrom (start : Nat) : List (Key × Ty) → Bool
  | [] => true
  | (k, t) :: rest => k == .int start && !t.optional && listKeysFrom (start + 1) rest

/-- Whether the keys are `0, 1, …` in order and every slot is always there. -/
def hasListKeys (fields : List (Key × Ty)) : Bool :=
  listKeysFrom 0 fields

/-- The record of the given fields, marked as a list by its keys. -/
def ofFields (fields : List (Key × Ty)) (isSealed : Bool) : Record :=
  ⟨fields, isSealed, hasListKeys fields⟩

/-- The fields with the keys `start, start + 1, …`. -/
def enumerate (start : Nat) : List Ty → List (Key × Ty)
  | [] => []
  | t :: rest => (.int start, t) :: enumerate (start + 1) rest

/-- The sealed record of the elements of a list. -/
def ofElements (elements : List Ty) : Record :=
  ofFields (enumerate 0 elements) true

/-- The types of the fields, in order. -/
def types (r : Record) : List Ty :=
  r.fields.map (·.2)

/-- The keys of the fields, in order. -/
def keys (r : Record) : List Key :=
  r.fields.map (·.1)

theorem listKeysFrom_iff {start : Nat} {fields : List (Key × Ty)} :
    listKeysFrom start fields = true ↔
      fields.map (·.1) = (List.range' start fields.length).map (fun i : Nat => Key.int i) ∧
        ∀ f ∈ fields, f.2.optional = false := by
  induction fields generalizing start with
  | nil => simp [listKeysFrom]
  | cons f rest ih =>
    obtain ⟨k, t⟩ := f
    simp only [listKeysFrom, Bool.and_eq_true, beq_iff_eq, Bool.not_eq_true', ih, List.map_cons,
      List.length_cons, List.range'_succ, List.cons.injEq, List.forall_mem_cons]
    exact and_and_and_comm

theorem hasListKeys_iff {fields : List (Key × Ty)} :
    hasListKeys fields = true ↔
      fields.map (·.1) = (List.range fields.length).map (fun i : Nat => Key.int i) ∧
        ∀ f ∈ fields, f.2.optional = false := by
  rw [List.range_eq_range']
  exact listKeysFrom_iff

/-- The record of given fields is a list if their keys are `0, 1, …` in order
and no slot may be missing. -/
theorem isList_ofFields_iff {fields : List (Key × Ty)} {isSealed : Bool} :
    (ofFields fields isSealed).isList = true ↔
      fields.map (·.1) = (List.range fields.length).map (fun i : Nat => Key.int i) ∧
        ∀ f ∈ fields, f.2.optional = false :=
  hasListKeys_iff

end Record

/-- The parameter that takes the argument at position `i`: the one there, or a last one that
takes all further arguments. -/
def Callable.paramAt? (c : Callable) (i : Nat) : Option Param :=
  c.params[i]?.or (c.params.getLast?.filter (·.variadic))

/-- The number of arguments a call needs. -/
def Callable.required (c : Callable) : Nat :=
  c.params.countP fun p => !p.optional && !p.variadic

end TypeProbe
