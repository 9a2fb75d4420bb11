import TypeProbe.Builder
import TypeProbe.Proofs.Elementwise
import TypeProbe.Ty.Shorthand

/-!
# Calls on wrapped arguments

The arguments of the calls that build types are literals of wrapped types.  What a call gives on a
list of them is stated without the wrapper: `Builder.generic_tuple_wrap` and
`Builder.intersection_tuple_wrap`.
-/

namespace TypeProbe

/-! ### Dispatch -/

/-- No two methods have names that agree up to ASCII case. -/
theorem BuilderMethod.eq_of_same_name {m n : BuilderMethod} (h : Ascii.same m.name n.name = true) :
    m = n := by
  cases m <;> cases n <;> first | rfl | exact absurd h (by decide +kernel)

theorem BuilderMethod.ofCall?_eq {settings : Settings} {m : BuilderMethod}
    {className method : String} (hclass : Ascii.same (m.owner settings) className = true)
    (hname : Ascii.same m.name method = true) : ofCall? settings className method = some m := by
  unfold ofCall?
  cases hfind : all.find? fun m =>
    Ascii.same (m.owner settings) className && Ascii.same m.name method with
  | none =>
    have hm : m ∈ all := by cases m <;> decide
    have hnot := List.find?_eq_none.1 hfind m hm
    simp [hclass, hname] at hnot
  | some n =>
    have hfound := List.find?_some hfind
    have hn := (Bool.and_eq_true_iff.1 hfound).2
    have hsame : Ascii.same n.name m.name = true :=
      Ascii.same_iff.2 ((Ascii.same_iff.1 hn).trans (Ascii.same_iff.1 hname).symm)
    exact congrArg some (eq_of_same_name hsame)

/-! ### Array literals -/

namespace Record

private theorem types_enumerate (start : Nat) (elements : List Ty) :
    (enumerate start elements).map (·.2) = elements := by
  induction elements generalizing start with
  | nil => rfl
  | cons t rest ih => rw [enumerate, List.map_cons, ih]

private theorem listKeysFrom_enumerate (start : Nat) {elements : List Ty}
    (h : ∀ t ∈ elements, t.optional = false) :
    listKeysFrom start (enumerate start elements) = true := by
  induction elements generalizing start with
  | nil => rfl
  | cons t rest ih =>
    obtain ⟨ht, hrest⟩ := List.forall_mem_cons.1 h
    rw [enumerate, listKeysFrom, ht, ih _ hrest]
    simp

theorem types_ofElements (elements : List Ty) : (ofElements elements).types = elements :=
  types_enumerate 0 elements

theorem isList_ofElements {elements : List Ty} (h : ∀ t ∈ elements, t.optional = false) :
    (ofElements elements).isList = true :=
  listKeysFrom_enumerate 0 h

end Record

/-! ### Facets -/

/-- The object with further facets, behind those it has. -/
def Atom.withFacets (a : Atom) (facets : List Atom) : Atom :=
  match a with
  | .object o => .object { o with facets := o.facets ++ facets }
  | .generic o params => .generic { o with facets := o.facets ++ facets } params
  | _ => a

theorem Atom.withFacets_nil (a : Atom) : a.withFacets [] = a := by
  cases a with
  | object o => obtain ⟨name, facets⟩ := o; simp [withFacets]
  | generic o params => obtain ⟨name, facets⟩ := o; simp [withFacets]
  | _ => rfl

theorem Atom.withFacets_withFacets (a : Atom) (l m : List Atom) :
    (a.withFacets l).withFacets m = a.withFacets (l ++ m) := by
  cases a <;> simp [withFacets]

theorem Atom.isObject_withFacets {a : Atom} (h : a.object?.isSome = true) (facets : List Atom) :
    (a.withFacets facets).object?.isSome = true := by
  cases a with
  | object o => rfl
  | generic o params => rfl
  | _ => cases h

theorem Atom.withFacet?_eq {a : Atom} (h : a.object?.isSome = true) (f : Atom) :
    a.withFacet? f = some (a.withFacets [f]) := by
  cases a with
  | object o => rfl
  | generic o params => rfl
  | _ => cases h

namespace Builder

/-- The first object with the others as further facets, unless there is none or
one of the types is no object. -/
def meet? (types : List Ty) : Option Ty := do
  match ← types.mapM Ty.soleObjectAtom? with
  | [] => none
  | first :: facets => return .single (first.withFacets facets)

/-! ### Arguments that are wrapped -/

@[simp]
theorem unwrap?_wrap (wrapper : String) (t : Ty) : (t.wrap wrapper).unwrap? wrapper = some t := by
  simp [Ty.unwrap?, Ty.paramOf?, Ty.soleGeneric?, Ty.sole?, Ty.wrap, Ty.single]

theorem elements?_tuple_wrap (wrapper : String) (types : List Ty) :
    elements? wrapper (.tuple (types.map (Ty.wrap wrapper))) = some types := by
  have hlist : (Record.ofElements (types.map (Ty.wrap wrapper))).isList = true :=
    Record.isList_ofElements fun t ht => by
      obtain ⟨u, -, rfl⟩ := List.mem_map.1 ht
      rfl
  change (if (Record.ofElements (types.map (Ty.wrap wrapper))).isList then
      (Record.ofElements (types.map (Ty.wrap wrapper))).types.mapM (Ty.unwrap? wrapper)
    else none) = some types
  rw [if_pos hlist, Record.types_ofElements, mapM_map_eq_some (unwrap?_wrap wrapper)]

theorem generic_tuple_wrap (wrapper name : String) (types : List Ty) :
    generic wrapper [.ofLiteral (.className name), .tuple (types.map (Ty.wrap wrapper))] =
      if types.isEmpty then none else some (Ty.wrap wrapper (.generic name types)) := by
  change ((elements? wrapper (.tuple (types.map (Ty.wrap wrapper)))).bind fun params =>
    if params.isEmpty then none else some (Ty.wrap wrapper (.single (.generic ⟨name, []⟩ params)))) = _
  rw [elements?_tuple_wrap]
  rfl

/-- Adding facets one after the other to an object adds them all. -/
private theorem foldlM_withFacet? {a : Atom} (h : a.object?.isSome = true) (facets : List Atom) :
    facets.foldlM (fun object facet => object.withFacet? facet) a = some (a.withFacets facets) := by
  induction facets generalizing a with
  | nil => rw [Atom.withFacets_nil]; rfl
  | cons f rest ih =>
    rw [List.foldlM_cons, Atom.withFacet?_eq h, Option.bind_eq_bind, Option.bind_some,
      ih (Atom.isObject_withFacets h _), Atom.withFacets_withFacets, List.singleton_append]

/-- Each type of the list has one atom, which is the object at its place. -/
theorem forall₂_of_mapM {types : List Ty} {objects : List Atom}
    (h : types.mapM Ty.soleObjectAtom? = some objects) :
    List.Forall₂ (fun t a => t.atoms = [a] ∧ a.object?.isSome = true) types objects :=
  (mapM_eq_some_iff.1 h).imp fun _ _ ha =>
    (Option.filter_eq_some_iff.1 ha).imp_left Ty.sole?_eq_some_iff.1

theorem intersection_tuple_wrap (wrapper : String) (types : List Ty) :
    intersection wrapper [.tuple (types.map (Ty.wrap wrapper))] =
      (meet? types).map (Ty.wrap wrapper) := by
  simp only [intersection, meet?, List.getElem?_cons_zero, Option.bind_eq_bind, Option.bind_some,
    elements?_tuple_wrap]
  cases hobjects : types.mapM Ty.soleObjectAtom? with
  | none => rfl
  | some objects =>
    cases objects with
    | nil => rfl
    | cons first facets =>
      obtain _ | ⟨⟨-, hfirst⟩, -⟩ := forall₂_of_mapM hobjects
      simp only [Option.bind_some]
      rw [foldlM_withFacet? hfirst]
      rfl

end Builder

end TypeProbe
