import TypeProbe.Ty.Build

/-!
# Widening of literals

`Ty.widened` replaces every literal by the keyword of its kind, and every record by the
nonempty list or array of its widened values, inside lists, arrays and type parameters too.
Facets, callables and templates stay as they are.  A record is widened through the union of its
values (`Atom.widened_record`).
-/

namespace TypeProbe

/-- The kind of a literal; a text that is not empty keeps that much. -/
def Literal.widened : Literal → Atom
  | .string s => .keyword (if s.isEmpty then .string else .nonEmptyString)
  | .int _ => .keyword .int
  | .float _ => .keyword .float
  | .className _ => .classString none

/-- The union of the atoms of the first pair of each identity, or `never` if there are none. -/
def Ty.ofFirsts (pairs : List (String × Atom)) : Ty :=
  match (Keyed.firsts pairs).map (·.2) with
  | [] => .single (.keyword .never)
  | atoms => ⟨Atom.distinct atoms, false⟩

/-- The key of a field with its identity and its kind. -/
def Key.widenedPair (k : Key) : String × Atom :=
  (k.literal.text, k.literal.widened)

mutual

def Ty.widened : Ty → Ty
  | ⟨atoms, optional⟩ => ⟨Atom.distinct (Atom.widenedAll atoms), optional⟩

def Atom.widened : Atom → Atom
  | .literal value => value.widened
  | .record ⟨fields, _, isList⟩ =>
    let value := Ty.ofFirsts (Record.widenedPairs fields)
    if isList then .list value true
    else .array (Ty.ofFirsts (fields.map fun f => f.1.widenedPair)) value true
  | .list value nonEmpty => .list value.widened nonEmpty
  | .array key value nonEmpty => .array key.widened value.widened nonEmpty
  | .generic o params => .generic o (Ty.widenedAll params)
  | a => a

def Atom.widenedAll : List Atom → List Atom
  | [] => []
  | a :: rest => a.widened :: Atom.widenedAll rest

def Ty.widenedAll : List Ty → List Ty
  | [] => []
  | t :: rest => t.widened :: Ty.widenedAll rest

/-- The atoms of all fields, each with its identity and in widened form. -/
def Record.widenedPairs : List (Key × Ty) → List (String × Atom)
  | [] => []
  | (_, ⟨atoms, _⟩) :: rest => Atom.widenedPairs atoms ++ Record.widenedPairs rest

def Atom.widenedPairs : List Atom → List (String × Atom)
  | [] => []
  | a :: rest => (a.identity, a.widened) :: Atom.widenedPairs rest

end

theorem Atom.widenedAll_eq_map (atoms : List Atom) :
    Atom.widenedAll atoms = atoms.map Atom.widened := by
  induction atoms with
  | nil => simp [Atom.widenedAll]
  | cons a rest ih => simp [Atom.widenedAll, ih]

theorem Ty.widenedAll_eq_map (types : List Ty) : Ty.widenedAll types = types.map Ty.widened := by
  induction types with
  | nil => simp [Ty.widenedAll]
  | cons t rest ih => simp [Ty.widenedAll, ih]

/-- Widening replaces every atom of a union by its widened form. -/
theorem Ty.widened_eq_mapAtoms (t : Ty) : t.widened = t.mapAtoms Atom.widened := by
  obtain ⟨atoms, optional⟩ := t
  rw [Ty.widened, Atom.widenedAll_eq_map, Ty.mapAtoms]

private theorem Atom.widenedPairs_eq_map (atoms : List Atom) :
    Atom.widenedPairs atoms = atoms.map fun a => (a.identity, a.widened) := by
  induction atoms with
  | nil => simp [Atom.widenedPairs]
  | cons a rest ih => simp [Atom.widenedPairs, ih]

private theorem Record.widenedPairs_eq_map (fields : List (Key × Ty)) :
    Record.widenedPairs fields = ((fields.map (·.2)).flatMap (·.atoms)).map fun a =>
      (a.identity, a.widened) := by
  induction fields with
  | nil => simp [Record.widenedPairs]
  | cons f rest ih =>
    obtain ⟨k, atoms, optional⟩ := f
    simp [Record.widenedPairs, Atom.widenedPairs_eq_map, ih]

/-- Keeping the first pair of each key and mapping the second parts can be done in either order. -/
private theorem firsts_map {κ α β : Type} [DecidableEq κ] (f : α → β) (l : List (κ × α)) :
    Keyed.firsts (l.map fun p => (p.1, f p.2)) = (Keyed.firsts l).map fun p => (p.1, f p.2) := by
  induction l with
  | nil => rfl
  | cons p rest ih =>
    obtain ⟨k, a⟩ := p
    simp only [List.map_cons, Keyed.firsts, ih, List.filter_map]
    rfl

/-- The widened union of the first atoms of each identity. -/
private theorem ofFirsts_map (atoms : List Atom) :
    Ty.ofFirsts (atoms.map fun a => (a.identity, a.widened)) =
      ((Ty.ofAtoms? atoms).getD (.single (.keyword .never))).widened := by
  have e : (Keyed.firsts (atoms.map fun a => (a.identity, a.widened))).map (·.2) =
      (Atom.distinct atoms).map Atom.widened := by
    have h := firsts_map Atom.widened (atoms.map fun a => (a.identity, a))
    simp only [List.map_map, Function.comp_def] at h
    rw [h, Atom.distinct, distinctBy, List.map_map, List.map_map]
    rfl
  unfold Ty.ofFirsts Ty.ofAtoms?
  rw [e]
  cases Atom.distinct atoms with
  | nil => rfl
  | cons a rest => rw [Option.getD_some, Ty.widened, Atom.widenedAll_eq_map]; rfl

/-- A record is widened to a list or an array of its widened keys and values. -/
theorem Atom.widened_record (r : Record) :
    (Atom.record r).widened =
      if r.isList then .list r.valueType.widened true
      else .array r.keyType.widened r.valueType.widened true := by
  obtain ⟨fields, isSealed, isList⟩ := r
  have hv : Ty.ofFirsts (Record.widenedPairs fields) =
      (Record.valueType ⟨fields, isSealed, isList⟩).widened := by
    rw [Record.widenedPairs_eq_map, ofFirsts_map]
    unfold Record.valueType Ty.merge? Record.types
    cases h : Ty.ofAtoms? ((fields.map (·.2)).flatMap (·.atoms)) with
    | none => rfl
    | some t =>
      obtain ⟨atoms, optional⟩ := t
      cases Ty.optional_of_ofAtoms? h
      rfl
  have hk : Ty.ofFirsts (fields.map fun f => f.1.widenedPair) =
      (Record.keyType ⟨fields, isSealed, isList⟩).widened := by
    have h := ofFirsts_map (fields.map fun f => .literal f.1.literal)
    simp only [List.map_map, Function.comp_def, Atom.identity, Atom.widened] at h
    unfold Record.keyType Record.keys
    simp only [List.map_map, Function.comp_def]
    exact h
  rw [Atom.widened, hv, hk]

end TypeProbe
