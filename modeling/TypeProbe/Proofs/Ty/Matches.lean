import Mathlib.Data.List.Forall2
import TypeProbe.Proofs.Ty.Parts

/-!
# Atoms that match part by part

`Atom.Matches R F` relates two atoms of one form that have the same names and marks, if `R` relates
the types inside them one by one and `F` their facets.  It looks one level deep; a relation on whole
types is a simulation (`Ty.Simulation`) if it can be followed from there on downwards, and types
agree (`Ty.Agrees`) if one relates them.
-/

namespace TypeProbe

/-- The marks agree, and the types as written are related. -/
structure Param.Matches (R : Ty → Ty → Prop) (p q : Param) : Prop where
  written : R p.written q.written
  byReference : p.byReference = q.byReference
  variadic : p.variadic = q.variadic
  optional : p.optional = q.optional

/-- The keys and the marks agree, and the types are related. -/
structure Record.FieldMatches (R : Ty → Ty → Prop) (f g : Key × Ty) : Prop where
  key : f.1 = g.1
  optional : f.2.optional = g.2.optional
  type : R f.2 g.2

/-- The same form with the same names and marks, and with related parts. -/
def Atom.Matches (R : Ty → Ty → Prop) (F : Atom → Atom → Prop) : Atom → Atom → Prop
  | .keyword v, .keyword w => v = w
  | .literal x, .literal y => x = y
  | .classString b, .classString c => b = c
  | .object o, .object p => o.name = p.name ∧ List.Forall₂ F o.facets p.facets
  | .generic o ts, .generic p us =>
    o.name = p.name ∧ List.Forall₂ F o.facets p.facets ∧ List.Forall₂ R ts us
  | .record r, .record q =>
    List.Forall₂ (Record.FieldMatches R) r.fields q.fields ∧ r.isSealed = q.isSealed ∧
      r.isList = q.isList
  | .callable c, .callable d =>
    List.Forall₂ (Param.Matches R) c.params d.params ∧ Option.Rel R c.result d.result ∧
      c.isClosure = d.isClosure ∧ c.isPure = d.isPure
  | .template name scope bound, .template name' scope' bound' =>
    name = name' ∧ scope = scope' ∧ R bound bound'
  | .array key value nonEmpty, .array key' value' nonEmpty' =>
    R key key' ∧ R value value' ∧ nonEmpty = nonEmpty'
  | .list value nonEmpty, .list value' nonEmpty' => R value value' ∧ nonEmpty = nonEmpty'
  | _, _ => False

/-- An atom that matches an object is one of the same class. -/
theorem Atom.Matches.exists_object {R : Ty → Ty → Prop} {F : Atom → Atom → Prop} {a b : Atom}
    (h : Atom.Matches R F a b) {p : ObjectType} (hp : b.object? = some p) :
    ∃ o, a.object? = some o ∧ o.name = p.name := by
  cases b with
  | object q =>
    obtain rfl := Option.some.inj hp
    cases a with
    | object o => exact ⟨o, rfl, h.1⟩
    | _ => exact h.elim
  | generic q us =>
    obtain rfl := Option.some.inj hp
    cases a with
    | generic o ts => exact ⟨o, rfl, h.1⟩
    | _ => exact h.elim
  | _ => cases hp

/-! ### Simulations -/

/-- Related types have related atoms, and those match with related parts. -/
structure Ty.Simulation (R : Ty → Ty → Prop) (F : Atom → Atom → Prop) : Prop where
  symm : ∀ {s t}, R s t → R t s
  exists_atom : ∀ {s t}, R s t → ∀ a ∈ s.atoms, ∃ b ∈ t.atoms, F a b
  atom : ∀ {a b}, F a b → Atom.Matches R F a b

/-- The types have the same structure: some simulation relates them.  They may differ in the order
and the number of their atoms, in the marks of slots that belong to no field, in the names of
parameters, and in whether `mixed` stands for a missing type. -/
def Ty.Agrees (s t : Ty) : Prop :=
  ∃ R F, Ty.Simulation R F ∧ R s t

theorem Ty.Agrees.symm {s t : Ty} (h : s.Agrees t) : t.Agrees s := by
  obtain ⟨R, F, hsim, hst⟩ := h
  exact ⟨R, F, hsim, hsim.symm hst⟩

end TypeProbe
