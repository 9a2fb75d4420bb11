import TypeProbe.Ty.Basic

/-!
# Types that are written alike

`Ty.same` compares two types part by part: atoms, facets, parameters and the marks in order, the
fields of records as maps, float literals as numbers.  It is finer than equality of identities, and
it is not reflexive, since a NaN differs from itself.
-/

namespace TypeProbe

def Literal.same : Literal → Literal → Bool
  | .string s, .string t => s == t
  | .int i, .int j => i == j
  | .float x, .float y => x.eq y
  | .className s, .className t => s == t
  | _, _ => false

mutual

def Ty.same : Ty → Ty → Bool
  | ⟨atoms, optional⟩, u => Atom.sameAll atoms u.atoms && optional == u.optional
termination_by structural t => t

def Atom.same : Atom → Atom → Bool
  | .keyword v, .keyword w => v == w
  | .literal x, .literal y => x.same y
  | .classString b, .classString c => b == c
  | .object ⟨name, facets⟩, .object o => name == o.name && Atom.sameAll facets o.facets
  | .generic ⟨name, facets⟩ params, .generic o params' =>
    name == o.name && Atom.sameAll facets o.facets && Ty.sameAll params params'
  | .record ⟨fields, isSealed, isList⟩, .record r =>
    fields.length == r.fields.length && Record.sameFields fields r.fields &&
      isSealed == r.isSealed && isList == r.isList
  | .callable ⟨params, result, isClosure, isPure⟩, .callable c =>
    Param.sameAll params c.params &&
      (match result, c.result with
        | some t, some u => t.same u
        | none, none => true
        | _, _ => false) &&
      isClosure == c.isClosure && isPure == c.isPure
  | .template name scope bound, .template name' scope' bound' =>
    name == name' && scope == scope' && bound.same bound'
  | .array key value nonEmpty, .array key' value' nonEmpty' =>
    key.same key' && value.same value' && nonEmpty == nonEmpty'
  | .list value nonEmpty, .list value' nonEmpty' => value.same value' && nonEmpty == nonEmpty'
  | _, _ => false
termination_by structural a => a

def Atom.sameAll : List Atom → List Atom → Bool
  | [], [] => true
  | a :: rest, b :: others => a.same b && Atom.sameAll rest others
  | _, _ => false
termination_by structural l => l

def Ty.sameAll : List Ty → List Ty → Bool
  | [], [] => true
  | t :: rest, u :: others => t.same u && Ty.sameAll rest others
  | _, _ => false
termination_by structural l => l

/-- Whether every field of the first list has a field of the same key and type in the second. -/
def Record.sameFields : List (Key × Ty) → List (Key × Ty) → Bool
  | [], _ => true
  | (k, t) :: rest, others =>
    (match Keyed.get? k others with
      | some u => t.same u
      | none => false) && Record.sameFields rest others
termination_by structural l => l

def Param.sameAll : List Param → List Param → Bool
  | [], [] => true
  | ⟨name, type, byReference, variadic, optional⟩ :: rest, p :: others =>
    name == p.name &&
      (match type, p.type with
        | some t, some u => t.same u
        | none, none => true
        | _, _ => false) &&
      byReference == p.byReference && variadic == p.variadic && optional == p.optional &&
        Param.sameAll rest others
  | _, _ => false
termination_by structural l => l

end

end TypeProbe
