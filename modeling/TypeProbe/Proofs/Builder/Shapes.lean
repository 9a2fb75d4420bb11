import TypeProbe.Proofs.Builder.Calls

/-!
# Records of wrapped types

`shape` accepts a first argument that is a single record of wrapped types (`Ty.Wraps`) and gives
the record of the types inside (`Record.Unwraps`, `Builder.shape_eq_some_iff`).  The type of a
wrapped field never stands in a slot that may be missing by itself, whereas the type inside may;
so an argument can have the keys of a list and still describe a record that is none.  The mark
for lists stays right (`Record.Unwraps.hasListKeys`), and wrapping the fields of a record is
undone (`Builder.shape_wrapFields`).
-/

namespace TypeProbe

/-- The type is an instance of exactly the class `wrapper`, and `inner` is its first type parameter. -/
def Ty.Wraps (wrapper : String) (t inner : Ty) : Prop :=
  ∃ facets params, t.atoms = [.generic ⟨wrapper, facets⟩ (inner :: params)]

theorem Ty.unwrap?_eq_some_iff {wrapper : String} {t inner : Ty} :
    t.unwrap? wrapper = some inner ↔ t.Wraps wrapper inner := by
  unfold unwrap? paramOf?
  rw [Option.bind_eq_some_iff]
  constructor
  · rintro ⟨⟨⟨name, facets⟩, params⟩, hgeneric, hparam⟩
    obtain ⟨rfl, hfirst⟩ := Option.ite_none_right_eq_some.1 hparam
    obtain ⟨rest, rfl⟩ : ∃ rest, params = inner :: rest := by
      cases params with
      | nil => cases hfirst
      | cons t rest => exact ⟨rest, congrArg (· :: rest) (Option.some.inj hfirst)⟩
    exact ⟨facets, rest, soleGeneric?_eq_some_iff.1 hgeneric⟩
  · rintro ⟨facets, params, hatoms⟩
    exact ⟨_, soleGeneric?_eq_some_iff.2 hatoms, if_pos rfl⟩

/-- The keys of the record with the types inside those of its fields; a list stays one
unless a slot may be missing. -/
def Record.Unwraps (wrapper : String) (r inner : Record) : Prop :=
  List.Forall₂ (fun f g => g.1 = f.1 ∧ f.2.Wraps wrapper g.2) r.fields inner.fields ∧
    inner.isSealed = r.isSealed ∧
    (inner.isList = true ↔ r.isList = true ∧ ∀ g ∈ inner.fields, g.2.optional = false)

/-- A record that is marked as a list by its keys stays marked by its keys. -/
theorem Record.Unwraps.hasListKeys {wrapper : String} {r inner : Record} (h : r.Unwraps wrapper inner)
    (hr : r.isList = true → Record.hasListKeys r.fields = true) (hlist : inner.isList = true) :
    Record.hasListKeys inner.fields = true := by
  obtain ⟨hfields, -, hmark⟩ := h
  obtain ⟨hrlist, hrequired⟩ := hmark.1 hlist
  have hkeys : r.fields.map (·.1) = inner.fields.map (·.1) := by
    rw [← List.forall₂_eq_eq_eq, List.forall₂_map_left_iff, List.forall₂_map_right_iff]
    exact hfields.imp fun _ _ hf => hf.1.symm
  refine hasListKeys_iff.2 ⟨?_, hrequired⟩
  rw [← hkeys, (hasListKeys_iff.1 (hr hrlist)).1, hfields.length_eq]

namespace Builder

variable {wrapper : String}

private theorem mapM_unwrap?_eq_some_iff {fields inner : List (Key × Ty)} :
    fields.mapM (fun f => (f.2.unwrap? wrapper).map fun t => (f.1, t)) = some inner ↔
      List.Forall₂ (fun f g => g.1 = f.1 ∧ f.2.Wraps wrapper g.2) fields inner := by
  have hfield : ∀ f g : Key × Ty,
      (f.2.unwrap? wrapper).map (fun t => (f.1, t)) = some g ↔ g.1 = f.1 ∧ f.2.Wraps wrapper g.2 := by
    rintro ⟨k, t⟩ ⟨k', inner⟩
    simp only [Option.map_eq_some_iff, Ty.unwrap?_eq_some_iff, Prod.mk.injEq]
    constructor
    · rintro ⟨u, hu, rfl, rfl⟩
      exact ⟨rfl, hu⟩
    · rintro ⟨rfl, hinner⟩
      exact ⟨inner, hinner, rfl, rfl⟩
  simp only [mapM_eq_some_iff, hfield]

/-- The mark for lists that the built record gets. -/
private theorem mark_iff {fields : List (Key × Ty)} {r : Record} :
    (fields.all (fun f => !f.2.optional) && r.isList) = true ↔
      r.isList = true ∧ ∀ g ∈ fields, g.2.optional = false := by
  simp [and_comm]

theorem shape_eq_some_iff {args : List Ty} {result : Ty} :
    shape wrapper args = some result ↔
      ∃ arg ∈ args.head?, ∃ r inner : Record, arg.atoms = [.record r] ∧ r.Unwraps wrapper inner ∧
        result = Ty.wrap wrapper (.single (.record inner)) := by
  simp only [shape, Option.bind_eq_bind, Option.bind_eq_some_iff, mapM_unwrap?_eq_some_iff,
    Ty.soleRecord?_eq_some_iff, List.head?_eq_getElem?, Option.mem_def]
  refine exists_congr fun arg => and_congr_right fun _ => exists_congr fun r => ?_
  constructor
  · rintro ⟨hr, fields, hfields, hresult⟩
    exact ⟨⟨fields, r.isSealed, _⟩, hr, ⟨hfields, rfl, mark_iff⟩, (Option.some.inj hresult).symm⟩
  · rintro ⟨⟨fields, isSealed, isList⟩, hr, ⟨hfields, hsealed, hlist⟩, rfl⟩
    obtain rfl : isSealed = r.isSealed := hsealed
    obtain rfl : isList = (fields.all (fun f => !f.2.optional) && r.isList) :=
      Bool.eq_iff_iff.2 (hlist.trans mark_iff.symm)
    exact ⟨hr, fields, hfields, rfl⟩

/-! ### Which arguments are accepted -/

private theorem exists_unwraps_iff {r : Record} :
    (∃ inner, r.Unwraps wrapper inner) ↔ ∀ f ∈ r.fields, ∃ t, f.2.Wraps wrapper t := by
  have hfield : ∀ f : Key × Ty, (∃ g : Key × Ty, g.1 = f.1 ∧ f.2.Wraps wrapper g.2) ↔
      ∃ t, f.2.Wraps wrapper t :=
    fun f => ⟨fun ⟨g, _, hg⟩ => ⟨g.2, hg⟩, fun ⟨t, ht⟩ => ⟨(f.1, t), rfl, ht⟩⟩
  simp only [← hfield, ← exists_forall₂_iff]
  constructor
  · rintro ⟨inner, hfields, -, -⟩
    exact ⟨inner.fields, hfields⟩
  · rintro ⟨fields, hfields⟩
    exact ⟨⟨fields, r.isSealed, _⟩, hfields, rfl, mark_iff⟩

theorem isSome_shape_iff {args : List Ty} :
    (shape wrapper args).isSome = true ↔
      ∃ arg ∈ args.head?, ∃ r : Record, arg.atoms = [.record r] ∧
        ∀ f ∈ r.fields, ∃ t, f.2.Wraps wrapper t := by
  simp only [Option.isSome_iff_exists, shape_eq_some_iff, ← exists_unwraps_iff]
  constructor
  · rintro ⟨-, arg, harg, r, inner, hr, hinner, -⟩
    exact ⟨arg, harg, r, hr, inner, hinner⟩
  · rintro ⟨arg, harg, r, hr, inner, hinner⟩
    exact ⟨_, arg, harg, r, inner, hr, hinner, rfl⟩

/-! ### Records with their fields wrapped -/

/-- The fields with wrapped types. -/
def wrapFields (wrapper : String) (fields : List (Key × Ty)) : List (Key × Ty) :=
  fields.map fun f => (f.1, f.2.wrap wrapper)

/-- The keys of a record of wrapped types are those of the record, and none
of its slots may be missing. -/
private theorem hasListKeys_wrapFields {fields : List (Key × Ty)} :
    Record.hasListKeys (wrapFields wrapper fields) = true ↔
      fields.map (·.1) = (List.range fields.length).map (fun i : Nat => Key.int i) := by
  have hrequired : ∀ f ∈ wrapFields wrapper fields, f.2.optional = false := by
    intro f hf
    obtain ⟨g, -, rfl⟩ := List.mem_map.1 hf
    rfl
  rw [Record.hasListKeys_iff, and_iff_left hrequired, wrapFields, List.map_map, List.length_map]
  rfl

private theorem unwraps_wrapFields (fields : List (Key × Ty)) (isSealed : Bool) :
    (Record.ofFields (wrapFields wrapper fields) isSealed).Unwraps wrapper
      (.ofFields fields isSealed) := by
  refine ⟨?_, rfl, ?_⟩
  · have hfield : ∀ f ∈ fields, f.1 = f.1 ∧ (f.2.wrap wrapper).Wraps wrapper f.2 :=
      fun f _ => ⟨rfl, [], [], rfl⟩
    exact List.forall₂_map_left_iff.2 (List.forall₂_same.2 hfield)
  · exact Record.hasListKeys_iff.trans (and_congr_left' hasListKeys_wrapFields.symm)

/-- Wrapping the types of all fields of a record is undone. -/
theorem shape_wrapFields (wrapper : String) (fields : List (Key × Ty)) (isSealed : Bool)
    (others : List Ty) :
    shape wrapper (.single (.record (.ofFields (wrapFields wrapper fields) isSealed)) :: others) =
      some (Ty.wrap wrapper (.single (.record (.ofFields fields isSealed)))) :=
  shape_eq_some_iff.2 ⟨_, rfl, _, _, rfl, unwraps_wrapFields fields isSealed, rfl⟩

/-! ### The record that is built -/

/-- `shape` gives a type exactly if the first argument is a single record of wrapped types; the type
is the wrapped record of the types inside, with the keys and the seal of the argument.  The mark for
lists stays right, and the record with all its fields wrapped gives back the record itself. -/
theorem shape_unwraps (wrapper : String) :
    (∀ args : List Ty, (shape wrapper args).isSome = true ↔
      ∃ arg ∈ args.head?, ∃ r : Record, arg.atoms = [.record r] ∧
        ∀ f ∈ r.fields, ∃ t, f.2.Wraps wrapper t) ∧
    (∀ (args : List Ty) (result : Ty), shape wrapper args = some result ↔
      ∃ arg ∈ args.head?, ∃ r inner : Record, arg.atoms = [.record r] ∧ r.Unwraps wrapper inner ∧
        result = Ty.wrap wrapper (.single (.record inner))) ∧
    (∀ (arg : Ty) (others : List Ty) (r inner : Record), arg.atoms = [.record r] →
      shape wrapper (arg :: others) = some (Ty.wrap wrapper (.single (.record inner))) →
      (r.isList = true → Record.hasListKeys r.fields = true) →
        inner.isList = true → Record.hasListKeys inner.fields = true) ∧
    ∀ (fields : List (Key × Ty)) (isSealed : Bool) (others : List Ty),
      shape wrapper (.single (.record (.ofFields (wrapFields wrapper fields) isSealed)) :: others) =
        some (Ty.wrap wrapper (.single (.record (.ofFields fields isSealed)))) := by
  refine ⟨fun _ => isSome_shape_iff, fun _ _ => shape_eq_some_iff, ?_, shape_wrapFields wrapper⟩
  intro arg others r inner hr h
  obtain ⟨_, harg, r', inner', hr', hinner, hresult⟩ := shape_eq_some_iff.1 h
  obtain rfl := Option.some.inj harg
  obtain rfl : r = r' := by simpa using hr.symm.trans hr'
  cases hresult
  exact hinner.hasListKeys

/-- An open list of two elements; one has a further facet and a further type parameter. -/
private def wrappedPair : Record :=
  .ofFields [(.int 0, .generic "W" [.ofKeyword .int]),
    (.int 1, .single
      (.generic ⟨"W", [.object ⟨"Countable", []⟩]⟩ [.ofKeyword .string, .ofKeyword .null]))] false

private def barePair : Record :=
  .ofFields [(.int 0, .ofKeyword .int), (.int 1, .ofKeyword .string)] false

theorem shape_unwraps_pair :
    shape "W" [.single (.record wrappedPair), .ofKeyword .mixed] =
      some (Ty.wrap "W" (.single (.record barePair))) ∧
      (wrappedPair.isList = true → Record.hasListKeys wrappedPair.fields = true) ∧
      barePair.isList = true ∧ Record.hasListKeys barePair.fields = true := by
  have hshape : shape "W" [.single (.record wrappedPair), .ofKeyword .mixed] =
      some (Ty.wrap "W" (.single (.record barePair))) := by rfl
  have hmark : wrappedPair.isList = true → Record.hasListKeys wrappedPair.fields = true := id
  have hlist : barePair.isList = true := by decide +kernel
  exact ⟨hshape, hmark, hlist,
    (shape_unwraps "W").2.2.1 _ _ wrappedPair barePair rfl hshape hmark hlist⟩

end Builder

end TypeProbe
