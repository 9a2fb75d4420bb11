import TypeProbe.Classes
import TypeProbe.Ty.Build

/-!
# Containment of types

`Ty.isWithin h s t` judges whether every value of `s` is a value of `t`, where `h` relates the
classes.  A union lies within another if each of its atoms fits some atom of the other (`Ty.fits`);
a template parameter that fits no atom is judged by its bound.  The rules take the judgement on the
types inside the two given ones as an argument and do not recurse themselves; `within` applies them
again and again, at most `depthLimit` types deep below the given ones, and answers no beyond that.
-/

namespace TypeProbe

/-! ### Scalars -/

/-- The keywords apart from `mixed` and `never`: whether every value of the
first is one of the second. -/
def Keyword.fits : Keyword → Keyword → Bool
  | .string, .string | .string, .arrayKey => true
  | .nonEmptyString, .nonEmptyString | .nonEmptyString, .string | .nonEmptyString, .arrayKey => true
  | .int, .int | .int, .arrayKey => true
  | .arrayKey, .arrayKey => true
  | .float, .float => true
  | .bool, .bool | .boolTrue, .bool | .boolFalse, .bool => true
  | .boolTrue, .boolTrue | .boolFalse, .boolFalse => true
  | .void, .void | .null, .null => true
  | _, _ => false

/-- Whether a keyword other than `mixed` holds the value of a literal. -/
def Literal.fits : Literal → Keyword → Bool
  | .string _, .string | .string _, .arrayKey => true
  | .string s, .nonEmptyString => !s.isEmpty
  | .int _, .int | .int _, .arrayKey => true
  | .float _, .float => true
  | .className _, w => Keyword.nonEmptyString.fits w
  | _, _ => false

/-- Whether two literals have the same value; class names count up to ASCII case, floats as numbers. -/
def Literal.agrees : Literal → Literal → Bool
  | .string s, .string t => s == t
  | .int i, .int j => i == j
  | .float x, .float y => x.eq y
  | .className s, .className t => Ascii.same s t
  | _, _ => false

/-- Whether one atom of the type is `mixed` or a keyword that every value of `word` has. -/
def Ty.admits (t : Ty) (word : Keyword) : Bool :=
  t.atoms.any fun a =>
    match a with
    | .keyword w => w == .mixed || word.fits w
    | _ => false

/-! ### Compound types -/

section

variable (h : Hierarchy) (sub : Ty → Ty → Bool)

/-- Whether an object is an instance of a class through its own class or through one of its facets. -/
def ObjectType.reaches (o : ObjectType) (target : String) : Bool :=
  h o.name target || o.facets.any fun a => a.object?.any fun f => h f.name target

/-- Whether an object is an instance of the class and of every facet of another.  Facets that are
no objects ask for nothing. -/
def ObjectType.fits (o target : ObjectType) : Bool :=
  o.reaches h target.name && target.facets.all fun a => a.object?.all fun f => o.reaches h f.name

/-- Whether the lists are equally long and each type lies within its counterpart. -/
def Ty.pairwise (types targets : List Ty) : Bool :=
  types.length == targets.length && (types.zip targets).all fun (s, t) => sub s t

/-- The type parameters of two objects of one class are compared; those of
a subclass are taken to fit. -/
def ObjectType.genericFits (o : ObjectType) (params : List Ty) (target : ObjectType)
    (targets : List Ty) : Bool :=
  o.fits h target && (!Ascii.same o.name target.name || Ty.pairwise sub params targets)

/-- Whether each field of the target is there with a type within the field's, or may be missing; a
sealed target asks for a sealed record without other keys. -/
def Record.fits (r target : Record) : Bool :=
  (!target.isSealed || r.isSealed) &&
  target.fields.all (fun (k, t) =>
    match Keyed.get? k r.fields with
    | some s => (!s.optional || t.optional) && sub s t
    | none => t.optional) &&
  (!target.isSealed || r.keys.all fun k => (Keyed.get? k target.fields).isSome)

/-- The keys that an unsealed record does not list are array keys with any value. -/
def Record.fitsArray (r : Record) (key value : Ty) (nonEmpty : Bool) : Bool :=
  (r.isSealed || key.admits .arrayKey && value.admits .mixed) &&
  (r.types.any (fun t => !t.optional) || !nonEmpty) &&
  (r.fields.isEmpty || sub r.keyType key && sub r.valueType value)

def Record.fitsList (r : Record) (value : Ty) (nonEmpty : Bool) : Bool :=
  r.isList && r.isSealed && (!r.fields.isEmpty || !nonEmpty) && r.types.all fun t => sub t value

/-- Whether a function can be called wherever the target can: parameters are compared the other way
round, and a missing type asks for nothing. -/
def Callable.fits (c target : Callable) : Bool :=
  (!target.isClosure || c.isClosure) && (!target.isPure || c.isPure) &&
  decide (c.required ≤ target.params.length) &&
  target.params.zipIdx.all (fun (p, i) =>
    match (c.paramAt? i).bind (·.type), p.type with
    | some s, some t => sub t s
    | _, _ => true) &&
  match c.result, target.result with
  | _, none => true
  | none, some t => t.atoms.any Atom.isMixed
  | some s, some t => sub s t

/-! ### Atoms and unions -/

/-- Whether the first atom lies within the second, neither being decided by `mixed` or `never`. -/
def Atom.rule : Atom → Atom → Bool
  | .keyword v, .keyword w => v.fits w
  | .literal x, .keyword w => x.fits w
  | .literal x, .literal y => x.agrees y
  | .literal (.className name), .classString bound => bound.all fun b => h name b
  | .classString _, .keyword w => Keyword.nonEmptyString.fits w
  | .classString _, .classString none => true
  | .classString (some b), .classString (some c) => h b c
  | .object o, .object target => o.fits h target
  | .generic o _, .object target => o.fits h target
  | .generic o params, .generic target targets => o.genericFits h sub params target targets
  | .object o, .generic target targets =>
    o.fits h target && targets.all fun t => t.atoms.all Atom.isMixed
  | .record r, .record target => r.fits sub target
  | .record r, .array key value nonEmpty => r.fitsArray sub key value nonEmpty
  | .record r, .list value nonEmpty => r.fitsList sub value nonEmpty
  | .list v nonEmpty, .list value nonEmpty' => (nonEmpty || !nonEmpty') && sub v value
  | .list v nonEmpty, .array key value nonEmpty' =>
    (nonEmpty || !nonEmpty') && key.admits .int && sub v value
  | .array k v nonEmpty, .array key value nonEmpty' =>
    (nonEmpty || !nonEmpty') && sub k key && sub v value
  | .callable c, .callable target => c.fits sub target
  | .template name scope _, .template name' scope' _ => name == name' && scope == scope'
  | _, _ => false

/-- Whether the first atom lies within the second. -/
def Atom.fits (a b : Atom) : Bool :=
  b.isMixed || a.isNever || a.rule h sub b

/-- The bound of a template parameter. -/
def Atom.bound? : Atom → Option Ty
  | .template _ _ bound => some bound
  | _ => none

/-- Whether each atom fits some atom of the target, or has a bound that lies within the target. -/
def Ty.fits (s t : Ty) : Bool :=
  s.atoms.all fun a => t.atoms.any (a.fits h sub) || a.bound?.any fun bound => sub bound t

end

/-- Whether the first type lies within the second, where `depth` counts the types
the judgement may still enter. -/
def within (h : Hierarchy) : Nat → Ty → Ty → Bool
  | 0, _, _ => false
  | depth + 1, s, t => s.fits h (within h depth) t

/-- How many types deep the judgement goes below the two given ones. -/
def depthLimit : Nat := 64

/-- Whether every value of the first type is judged to be one of the second. -/
def Ty.isWithin (h : Hierarchy) (s t : Ty) : Bool :=
  within h (depthLimit + 1) s t

end TypeProbe
