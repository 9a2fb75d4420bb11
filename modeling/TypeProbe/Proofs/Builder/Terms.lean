import TypeProbe.Proofs.Builder.Calls
import TypeProbe.Proofs.Builder.Shapes

/-!
# Nested calls build the type they describe

A type can be written as calls whose arguments are calls again (`Builder.Term`).  A checker types
them from the inside outwards: it knows the types of the arguments, which are wrapped types or
literals of wrapped types, when it asks for the type of a call (`Builder.Term.type?`).
`Builder.Term.denotation?` says what a term describes, without wrappers and without calls.  The type
of a term is the wrapped denotation, and a term has none exactly if it describes none
(`Builder.Term.type?_eq_wrap`).
-/

namespace TypeProbe

theorem Workspace.types_arguments? (w : Workspace) (args : List Expr) :
    (w.arguments? args).map (fun args => args.map (·.type)) =
      (args.map fun e => w.typeOf? e.id).mapM id := by
  induction args with
  | nil => rfl
  | cons e rest ih =>
    unfold arguments? at ih ⊢
    rw [List.mapM_cons, List.map_cons, List.mapM_cons, ← ih, argument?]
    cases w.typeOf? e.id <;> cases rest.mapM w.argument? <;> rfl

namespace Builder

/-! ### Terms and what they describe -/

/-- A type that is written as nested calls. -/
inductive Term where
  /-- An expression whose type wraps the given one. -/
  | base (type : Ty)
  | shape (fields : List (Key × Term))
  | generic (name : String) (params : List Term)
  | intersection (parts : List Term)
  | optional (term : Term)

namespace Term

mutual

/-- The type that the term describes. -/
def denotation? : Term → Option Ty
  | base t => some t
  | shape fields => do return .single (.record (.ofFields (← fieldDenotations? fields) true))
  | generic name params => do
    let types ← denotations? params
    if types.isEmpty then none else return .generic name types
  | intersection parts => do meet? (← denotations? parts)
  | optional term => do return (← term.denotation?).asOptional
termination_by structural t => t

def fieldDenotations? : List (Key × Term) → Option (List (Key × Ty))
  | [] => some []
  | (k, term) :: rest => do return (k, ← term.denotation?) :: (← fieldDenotations? rest)
termination_by structural l => l

def denotations? : List Term → Option (List Ty)
  | [] => some []
  | term :: rest => do return (← term.denotation?) :: (← denotations? rest)
termination_by structural l => l

end

end Term

/-! ### The types of calls -/

/-- What is around the calls: the letter case of their names, and for arguments of given types a
workspace that has found out these types.  An argument may have no type. -/
structure Host (settings : Settings) where
  className : BuilderMethod → String
  methodName : BuilderMethod → String
  call : List (Option Ty) → Workspace × List Expr
  same_className : ∀ m, Ascii.same (m.owner settings) (className m) = true
  same_methodName : ∀ m, Ascii.same m.name (methodName m) = true
  typeOf_call : ∀ types, (call types).2.map (fun e => (call types).1.typeOf? e.id) = types

/-- The type of a call with arguments of the given types. -/
def Host.returnType? {settings : Settings} (host : Host settings) (m : BuilderMethod)
    (types : List (Option Ty)) (typeParams : Option (List Ty)) : Option Ty :=
  Builder.returnType? settings (host.call types).1 (host.className m) (host.methodName m)
    (host.call types).2 typeParams

namespace Term

variable {settings : Settings} (host : Host settings)

mutual

/-- The type of the outermost call.  An array is typed as the sealed record of its elements, and
`optional` is called with the type parameters of the object it is a method of. -/
def type? : Term → Option Ty
  | base t => some (t.wrap settings.wrapperClass)
  | shape fields =>
    host.returnType? .shape
      [(fieldTypes? fields).map fun types => .single (.record (.ofFields types true))] none
  | generic name params =>
    host.returnType? .generic [some (.ofLiteral (.className name)), (types? params).map .tuple] none
  | intersection parts => host.returnType? .intersection [(types? parts).map .tuple] none
  | optional term => host.returnType? .optional [] (term.type?.bind fun t => t.soleGeneric?.map (·.2))
termination_by structural t => t

def fieldTypes? : List (Key × Term) → Option (List (Key × Ty))
  | [] => some []
  | (k, term) :: rest => do return (k, ← term.type?) :: (← fieldTypes? rest)
termination_by structural l => l

def types? : List Term → Option (List Ty)
  | [] => some []
  | term :: rest => do return (← term.type?) :: (← types? rest)
termination_by structural l => l

end

end Term

theorem Host.returnType?_eq {settings : Settings} (host : Host settings) (m : BuilderMethod)
    (types : List (Option Ty)) (typeParams : Option (List Ty)) :
    host.returnType? m types typeParams =
      match m with
      | .shape => (types.mapM id).bind (Builder.shape settings.wrapperClass)
      | .intersection => (types.mapM id).bind (Builder.intersection settings.wrapperClass)
      | .generic => (types.mapM id).bind (Builder.generic settings.wrapperClass)
      | .optional => Builder.optional settings.wrapperClass typeParams := by
  unfold Host.returnType? Builder.returnType?
  rw [Workspace.types_arguments?, host.typeOf_call,
    BuilderMethod.ofCall?_eq (host.same_className m) (host.same_methodName m)]
  cases m <;> rfl

/-! ### Terms and their types -/

namespace Term

section

variable {settings : Settings} (host : Host settings)

mutual

private theorem type?_eq : (term : Term) →
    term.type? host = term.denotation?.map (Ty.wrap settings.wrapperClass)
  | base t => rfl
  | shape fields => by
    rw [type?, denotation?, Host.returnType?_eq, fieldTypes?_eq fields]
    cases fieldDenotations? fields with
    | none => rfl
    | some types => exact shape_wrapFields settings.wrapperClass types true []
  | generic name params => by
    rw [type?, denotation?, Host.returnType?_eq, types?_eq params]
    cases denotations? params with
    | none => rfl
    | some types =>
      have h := generic_tuple_wrap settings.wrapperClass name types
      cases types with
      | nil => exact h
      | cons t rest => exact h
  | intersection parts => by
    rw [type?, denotation?, Host.returnType?_eq, types?_eq parts]
    cases denotations? parts with
    | none => rfl
    | some types => exact intersection_tuple_wrap settings.wrapperClass types
  | optional term => by
    rw [type?, denotation?, Host.returnType?_eq, type?_eq term]
    cases term.denotation? <;> rfl

private theorem fieldTypes?_eq : (fields : List (Key × Term)) →
    fieldTypes? host fields = (fieldDenotations? fields).map (wrapFields settings.wrapperClass)
  | [] => rfl
  | (k, term) :: rest => by
    rw [fieldTypes?, fieldDenotations?, type?_eq term, fieldTypes?_eq rest]
    cases term.denotation? <;> cases fieldDenotations? rest <;> rfl

private theorem types?_eq : (terms : List Term) →
    types? host terms = (denotations? terms).map fun types => types.map (Ty.wrap settings.wrapperClass)
  | [] => rfl
  | term :: rest => by
    rw [types?, denotations?, type?_eq term, types?_eq rest]
    cases term.denotation? <;> cases denotations? rest <;> rfl

end

end

private theorem keys_of_fieldDenotations? {fields : List (Key × Term)} {types : List (Key × Ty)}
    (h : fieldDenotations? fields = some types) : types.map (·.1) = fields.map (·.1) := by
  induction fields generalizing types with
  | nil =>
    cases h
    rfl
  | cons f rest ih =>
    obtain ⟨k, term⟩ := f
    rw [fieldDenotations?] at h
    obtain ⟨t, -, h⟩ := Option.bind_eq_some_iff.1 h
    obtain ⟨others, hrest, h⟩ := Option.bind_eq_some_iff.1 h
    cases h
    rw [List.map_cons, List.map_cons, ih hrest]

/-- The type of nested calls is the wrapped type that they describe, and there is none if they
describe none.  A shape is a sealed record with the keys as they are written, which is a list
exactly if these are `0, 1, …` in order and no slot may be missing.  To make a slot optional
twice is to make it optional. -/
theorem type?_eq_wrap (settings : Settings) (host : Host settings) :
    (∀ term : Term, term.type? host = term.denotation?.map (Ty.wrap settings.wrapperClass)) ∧
    (∀ fields r, (shape fields).type? host =
      some (Ty.wrap settings.wrapperClass (.single (.record r))) →
      r.isSealed = true ∧ r.keys = fields.map (·.1) ∧
        (r.isList = true ↔
          r.keys = (List.range fields.length).map (fun i : Nat => Key.int i) ∧
          ∀ t ∈ r.types, t.optional = false)) ∧
    ∀ term : Term, (optional (optional term)).type? host = (optional term).type? host := by
  refine ⟨type?_eq host, fun fields r h => ?_, fun term => ?_⟩
  · rw [type?_eq, denotation?] at h
    obtain ⟨t, ht, htr⟩ := Option.map_eq_some_iff.1 h
    obtain ⟨types, htypes, hrecord⟩ := Option.bind_eq_some_iff.1 ht
    cases hrecord
    cases htr
    have hkeys := keys_of_fieldDenotations? htypes
    have hlength : types.length = fields.length := by simpa using congrArg List.length hkeys
    refine ⟨rfl, hkeys, ?_⟩
    rw [Record.isList_ofFields_iff, hlength, Record.types, List.forall_mem_map]
    rfl
  · rw [type?_eq, type?_eq, denotation?, denotation?]
    cases term.denotation? <;> rfl

end Term

/-- Names as they are declared, and arguments that are numbered. -/
def Host.plain (settings : Settings) : Host settings where
  className m := m.owner settings
  methodName m := m.name
  call types :=
    let known := (List.range types.length).filter fun i => types[i]?.join.isSome
    ({ file := "", types := known.map fun i => (i, types[i]?.join.getD default) },
      (List.range types.length).map fun i => ⟨i, .other, none⟩)
  same_className _ := Ascii.same_refl _
  same_methodName _ := Ascii.same_refl _
  typeOf_call types := by
    refine List.ext_getElem (by simp) fun i hi hi' => ?_
    have hat : types[i]? = some types[i] := List.getElem?_eq_getElem hi'
    simp only [List.map_map, List.getElem_map, List.getElem_range, Function.comp_apply,
      Workspace.typeOf?, Keyed.get?_map, List.mem_filter, List.mem_range, hi', true_and, hat,
      Option.join_some]
    cases types[i] <;> rfl

namespace Term

/-- An entry with an identifier and, if there are any, a set of names that can be counted. -/
private def entry : Term :=
  shape [(.string "id", base (.ofKeyword .int)),
    (.string "names", optional (intersection [generic "Set" [base (.ofKeyword .string)],
      base (.instanceOf "Countable")]))]

theorem type?_eq_wrap_entry :
    entry.type? (Host.plain {}) = some (Ty.wrap "Fp\\PsalmToolkit\\StaticType\\StaticTypeInterface"
      (.single (.record ⟨[(.string "id", .ofKeyword .int),
        (.string "names",
          ⟨[.generic ⟨"Set", [.object ⟨"Countable", []⟩]⟩ [.ofKeyword .string]], true⟩)],
        true, false⟩))) :=
  ((type?_eq_wrap {} (Host.plain {})).1 entry).trans rfl

end Term

end Builder

end TypeProbe
