import TypeProbe.Settings.Basic
import TypeProbe.Ty.Single
import TypeProbe.Workspace

/-!
# Calls that build types

A test writes the types it expects as calls.  The type of such a call is `Wrapper<T>`, where
`T` is the type the call describes, and the arguments are wrapped types themselves: `shape`
makes a record, `generic` an object with type parameters, `intersection` an object with facets,
and `optional` marks a slot that may be missing.  A call whose arguments do not have the
expected form has no type of its own.
-/

namespace TypeProbe

/-- The type inside the wrapper. -/
def Ty.wrap (wrapper : String) (t : Ty) : Ty :=
  .single (.generic ⟨wrapper, []⟩ [t])

namespace Builder

/-- The record of the unwrapped fields of the first argument.  It is a list if that is one
and no slot may be missing. -/
def shape (wrapper : String) (args : List Ty) : Option Ty := do
  let record ← (← args[0]?).soleRecord?
  let fields ← record.fields.mapM fun (k, t) => (t.unwrap? wrapper).map fun s => (k, s)
  let isList := fields.all (fun f => !f.2.optional) && record.isList
  return Ty.wrap wrapper (.single (.record ⟨fields, record.isSealed, isList⟩))

/-- The unwrapped elements of a list record. -/
def elements? (wrapper : String) (list : Ty) : Option (List Ty) := do
  let record ← list.soleRecord?
  if record.isList then record.types.mapM (·.unwrap? wrapper) else none

/-- The first object of the list with the others as further facets. -/
def intersection (wrapper : String) (args : List Ty) : Option Ty := do
  let objects ← (← elements? wrapper (← args[0]?)).mapM Ty.soleObjectAtom?
  match objects with
  | [] => none
  | first :: facets =>
    let object ← facets.foldlM (fun object facet => object.withFacet? facet) first
    return Ty.wrap wrapper (.single object)

/-- The class that the first argument names, with the elements of the second as type parameters. -/
def generic (wrapper : String) (args : List Ty) : Option Ty := do
  let name ← (← args[0]?).soleClassName?
  let params ← elements? wrapper (← args[1]?)
  if params.isEmpty then none else return Ty.wrap wrapper (.single (.generic ⟨name, []⟩ params))

/-- The first type parameter of the call, in a slot that may be missing. -/
def optional (wrapper : String) (typeParams : Option (List Ty)) : Option Ty := do
  return Ty.wrap wrapper (← (← typeParams)[0]?).asOptional

end Builder

/-- The methods that build types. -/
inductive BuilderMethod where
  | shape | intersection | generic | optional
deriving DecidableEq

namespace BuilderMethod

def all : List BuilderMethod :=
  [.shape, .intersection, .generic, .optional]

def name : BuilderMethod → String
  | .shape => "shape"
  | .intersection => "intersection"
  | .generic => "generic"
  | .optional => "optional"

/-- The class that has the method. -/
def owner (settings : Settings) : BuilderMethod → String
  | .optional => settings.wrapperClass
  | _ => settings.builderClass

/-- The method that is called; its name and its class count up to ASCII case. -/
def ofCall? (settings : Settings) (className method : String) : Option BuilderMethod :=
  all.find? fun m => Ascii.same (m.owner settings) className && Ascii.same m.name method

/-- The classes whose calls build types. -/
def owners (settings : Settings) : List String :=
  distinctBy id (all.map fun m => m.owner settings)

end BuilderMethod

/-- The type of a call that builds a type. -/
def Builder.returnType? (settings : Settings) (w : Workspace) (className method : String)
    (args : List Expr) (typeParams : Option (List Ty)) : Option Ty := do
  let wrapper := settings.wrapperClass
  let types := (w.arguments? args).map fun args => args.map (·.type)
  match ← BuilderMethod.ofCall? settings className method with
  | .shape => Builder.shape wrapper (← types)
  | .intersection => Builder.intersection wrapper (← types)
  | .generic => Builder.generic wrapper (← types)
  | .optional => Builder.optional wrapper typeParams

end TypeProbe
