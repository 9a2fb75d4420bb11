import TypeProbe.Ty.Basic

/-!
# Reading a type with one atom

Readers that expect one atom of a certain form: each gives what the atom holds,
and `none` for any other type.
-/

namespace TypeProbe.Ty

theorem sole?_eq_some_iff {t : Ty} {a : Atom} : t.sole? = some a ↔ t.atoms = [a] := by
  unfold sole?
  split
  · rename_i b h
    rw [h, Option.some.injEq, List.cons.injEq, and_iff_left rfl]
  · rename_i h
    exact iff_of_false (fun e => by cases e) (h a)

def soleObject? (t : Ty) : Option ObjectType :=
  t.sole?.bind Atom.object?

/-- The atom itself, if it is an object. -/
def soleObjectAtom? (t : Ty) : Option Atom :=
  t.sole?.filter fun a => a.object?.isSome

def soleGeneric? (t : Ty) : Option (ObjectType × List Ty) :=
  match t.sole? with
  | some (.generic o params) => some (o, params)
  | _ => none

theorem soleGeneric?_eq_some_iff {t : Ty} {o : ObjectType} {params : List Ty} :
    t.soleGeneric? = some (o, params) ↔ t.atoms = [.generic o params] := by
  rw [← sole?_eq_some_iff]
  unfold soleGeneric?
  split
  · rename_i p ps h
    rw [h, Option.some.injEq, Option.some.injEq, Atom.generic.injEq, Prod.mk.injEq]
  · rename_i h
    exact iff_of_false (fun e => by cases e) (h o params)

def soleRecord? (t : Ty) : Option Record :=
  match t.sole? with
  | some (.record r) => some r
  | _ => none

theorem soleRecord?_eq_some_iff {t : Ty} {r : Record} :
    t.soleRecord? = some r ↔ t.atoms = [.record r] := by
  rw [← sole?_eq_some_iff]
  unfold soleRecord?
  split
  · rename_i r' h
    rw [h, Option.some.injEq, Option.some.injEq, Atom.record.injEq]
  · rename_i h
    exact iff_of_false (fun e => by cases e) (h r)

def soleCallable? (t : Ty) : Option Callable :=
  match t.sole? with
  | some (.callable c) => some c
  | _ => none

def soleString? (t : Ty) : Option String :=
  match t.sole? with
  | some (.literal (.string s)) => some s
  | _ => none

theorem soleString?_eq_some_iff {t : Ty} {s : String} :
    t.soleString? = some s ↔ t.atoms = [.literal (.string s)] := by
  rw [← sole?_eq_some_iff]
  unfold soleString?
  split
  · rename_i s' h
    rw [h, Option.some.injEq, Option.some.injEq, Atom.literal.injEq, Literal.string.injEq]
  · rename_i h
    exact iff_of_false (fun e => by cases e) (h s)

def soleClassName? (t : Ty) : Option String :=
  match t.sole? with
  | some (.literal (.className name)) => some name
  | _ => none

def soleBool? (t : Ty) : Option Bool :=
  match t.sole? with
  | some (.keyword .boolTrue) => some true
  | some (.keyword .boolFalse) => some false
  | _ => none

/-- The type parameter at `position` of an instance of exactly the class `name`. -/
def paramOf? (name : String) (position : Nat) (t : Ty) : Option Ty :=
  t.soleGeneric?.bind fun (o, params) => if o.name = name then params[position]? else none

/-- The type inside a wrapper: the first type parameter of an instance of
exactly the class `wrapper`. -/
def unwrap? (wrapper : String) (t : Ty) : Option Ty :=
  t.paramOf? wrapper 0

end TypeProbe.Ty
