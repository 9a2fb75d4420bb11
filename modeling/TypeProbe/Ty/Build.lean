import TypeProbe.Ty.Identity

/-!
# Building unions

A union that is built by the functions here has at least one atom and no two atoms of the same
identity: of several atoms with one identity the first is kept.  `Ty.ofAtoms?` builds from a list,
`Ty.add` adds one atom, `Ty.merge?`  joins several unions and `Ty.mapAtoms` replaces every atom.  A
record has a type for its keys and one for its values (`Record.keyType`, `Record.valueType`).
-/

namespace TypeProbe

/-- The atoms without those whose identity occurs earlier. -/
def Atom.distinct (atoms : List Atom) : List Atom :=
  distinctBy Atom.identity atoms

namespace Ty

/-- The union of the atoms, unless there are none. -/
def ofAtoms? (atoms : List Atom) : Option Ty :=
  match Atom.distinct atoms with
  | [] => none
  | a :: rest => some ⟨a :: rest, false⟩

/-- The union with one more atom, unless it has an atom of that identity. -/
def add (t : Ty) (a : Atom) : Ty :=
  if t.atoms.any fun b => b.identity == a.identity then t else { t with atoms := t.atoms ++ [a] }

/-- The union of several unions, unless they have no atoms; its slot may be
missing if one of theirs may. -/
def merge? (types : List Ty) : Option Ty :=
  (ofAtoms? (types.flatMap (·.atoms))).map fun t => { t with optional := types.any (·.optional) }

/-- The union of the images of the atoms. -/
def mapAtoms (f : Atom → Atom) (t : Ty) : Ty :=
  { t with atoms := Atom.distinct (t.atoms.map f) }

/-- The union with `null`. -/
def orNull (t : Ty) : Ty :=
  t.add (.keyword .null)

end Ty

/-- The literal that a key is. -/
def Key.literal : Key → Literal
  | .int i => .int i
  | .string s => .string s

namespace Record

/-- The union of the keys, or `never` if there are none. -/
def keyType (r : Record) : Ty :=
  (Ty.ofAtoms? (r.keys.map fun k => .literal k.literal)).getD (.single (.keyword .never))

/-- The union of the types of the fields, or `never` if there are none. -/
def valueType (r : Record) : Ty :=
  ((Ty.merge? r.types).map Ty.asRequired).getD (.single (.keyword .never))

end Record

/-! ### What every built union has -/

/-- At least one atom, and no two of the same identity. -/
def Ty.Distinct (t : Ty) : Prop :=
  t.atoms ≠ [] ∧ (t.atoms.map Atom.identity).Nodup

theorem Atom.nodup_distinct (atoms : List Atom) : ((Atom.distinct atoms).map Atom.identity).Nodup :=
  nodup_map_distinctBy Atom.identity atoms

theorem Atom.distinct_ne_nil {atoms : List Atom} (h : atoms ≠ []) : Atom.distinct atoms ≠ [] := by
  cases atoms with
  | nil => exact absurd rfl h
  | cons a rest => simp [Atom.distinct, distinctBy, Keyed.firsts]

theorem Ty.ofAtoms?_eq {atoms : List Atom} (h : atoms ≠ []) :
    Ty.ofAtoms? atoms = some ⟨Atom.distinct atoms, false⟩ := by
  unfold Ty.ofAtoms?
  split
  · rename_i hnil
    exact absurd hnil (Atom.distinct_ne_nil h)
  · rename_i a rest hcons
    rw [hcons]

theorem Ty.Distinct.of_ofAtoms? {atoms : List Atom} {t : Ty} (h : Ty.ofAtoms? atoms = some t) :
    t.Distinct := by
  have hn := Atom.nodup_distinct atoms
  unfold Ty.ofAtoms? at h
  split at h
  · cases h
  · rename_i a rest heq
    cases h
    rw [heq] at hn
    exact ⟨List.cons_ne_nil _ _, hn⟩

theorem Ty.optional_of_ofAtoms? {atoms : List Atom} {t : Ty} (h : Ty.ofAtoms? atoms = some t) :
    t.optional = false := by
  unfold Ty.ofAtoms? at h
  split at h <;> cases h
  rfl

theorem Ty.Distinct.add {t : Ty} (h : t.Distinct) (a : Atom) : (t.add a).Distinct := by
  unfold Ty.add
  split
  · exact h
  · rename_i hnot
    refine ⟨by simp, ?_⟩
    rw [List.map_append, List.nodup_append]
    refine ⟨h.2, by simp, ?_⟩
    intro x hx y hy hxy
    obtain ⟨b, hb, rfl⟩ := List.mem_map.1 hx
    simp only [List.map_cons, List.map_nil, List.mem_singleton] at hy
    exact hnot (List.any_eq_true.2 ⟨b, hb, by simp [hxy, hy]⟩)

theorem Ty.Distinct.of_merge? {types : List Ty} {t : Ty} (h : Ty.merge? types = some t) :
    t.Distinct := by
  obtain ⟨u, hu, rfl⟩ := Option.map_eq_some_iff.1 h
  have hd := Ty.Distinct.of_ofAtoms? hu
  exact ⟨hd.1, hd.2⟩

theorem Ty.Distinct.mapAtoms {t : Ty} (h : t.atoms ≠ []) (f : Atom → Atom) : (t.mapAtoms f).Distinct :=
  ⟨Atom.distinct_ne_nil (by simpa using h), Atom.nodup_distinct _⟩

end TypeProbe
