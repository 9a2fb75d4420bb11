import TypeProbe.Ty.Build

/-!
# The parts of a type

The types that stand directly inside an atom (`Atom.types`), its facets (`Atom.facets`), and
everything that is found by going on from there (`Atom.PartOf`, `Ty.Has`).  A statement about
all atoms follows if it passes from the facets and from the atoms of the types inside to the
atom itself (`Atom.induction`).
-/

namespace TypeProbe

/-- The types that stand directly inside an atom; a facet is an atom of its own. -/
def Atom.types : Atom → List Ty
  | .generic _ params => params
  | .record r => r.types
  | .callable c => c.params.filterMap (·.type) ++ c.result.toList
  | .template _ _ bound => [bound]
  | .array key value _ => [key, value]
  | .list value _ => [value]
  | _ => []

theorem Callable.mem_types_of_param {c : Callable} {p : Param} (hp : p ∈ c.params) {t : Ty}
    (ht : t ∈ p.type) : t ∈ (Atom.callable c).types :=
  List.mem_append_left _ (List.mem_filterMap.2 ⟨p, hp, ht⟩)

theorem Callable.mem_types_of_result {c : Callable} {t : Ty} (ht : t ∈ c.result) :
    t ∈ (Atom.callable c).types :=
  List.mem_append_right _ (Option.mem_toList.2 ht)

/-- The facets of an object; other atoms have none. -/
def Atom.facets : Atom → List Atom
  | .object o => o.facets
  | .generic o _ => o.facets
  | _ => []

/-- The type of a parameter as it is written: a missing one as `mixed`. -/
def Param.written (p : Param) : Ty :=
  p.type.getD (.single (.keyword .mixed))

/-- The first atom is the second one, or is found in a facet of it or in a type inside it. -/
inductive Atom.PartOf (b : Atom) : Atom → Prop where
  | self : PartOf b b
  | facet {a f : Atom} : f ∈ a.facets → PartOf b f → PartOf b a
  | inside {a c : Atom} {t : Ty} : t ∈ a.types → c ∈ t.atoms → PartOf b c → PartOf b a

/-- The atom occurs in the type at some depth. -/
def Ty.Has (t : Ty) (b : Atom) : Prop :=
  ∃ a ∈ t.atoms, b.PartOf a

/-- The type nests at most `n` unions deep, where a union of atoms without types inside is one deep. -/
def Ty.NestsWithin : Nat → Ty → Prop
  | 0, _ => False
  | n + 1, t => ∀ a ∈ t.atoms, ∀ u ∈ a.types, u.NestsWithin n

instance Ty.decidableNestsWithin : (n : Nat) → (t : Ty) → Decidable (t.NestsWithin n)
  | 0, _ => isFalse id
  | n + 1, t =>
    have := Ty.decidableNestsWithin n
    inferInstanceAs (Decidable (∀ a ∈ t.atoms, ∀ u ∈ a.types, u.NestsWithin n))

/-- The atom is no float that differs from itself and no record with one key twice. -/
def Atom.IsProper : Atom → Prop
  | .literal (.float x) => x.isNaN = false
  | .record r => r.keys.Nodup
  | _ => True

def Ty.IsProper (t : Ty) : Prop :=
  ∀ a, t.Has a → a.IsProper

/-! ### Going down -/

private theorem sizeOf_lt_of_mem_facets {a f : Atom} (h : f ∈ a.facets) : sizeOf f < sizeOf a := by
  have hf := List.sizeOf_lt_of_mem h
  cases a with
  | object o =>
    obtain ⟨name, facets⟩ := o
    simp only [Atom.facets, Atom.object.sizeOf_spec, ObjectType.mk.sizeOf_spec] at hf ⊢
    omega
  | generic o params =>
    obtain ⟨name, facets⟩ := o
    simp only [Atom.facets, Atom.generic.sizeOf_spec, ObjectType.mk.sizeOf_spec] at hf ⊢
    omega
  | _ => simp [Atom.facets] at h

private theorem sizeOf_lt_of_mem_types {a : Atom} {t : Ty} (h : t ∈ a.types) : sizeOf t < sizeOf a := by
  cases a with
  | generic o params =>
    have ht := List.sizeOf_lt_of_mem h
    simp only [Atom.types, Atom.generic.sizeOf_spec] at ht ⊢
    omega
  | record r =>
    obtain ⟨fields, isSealed, isList⟩ := r
    obtain ⟨⟨k, u⟩, hf, rfl⟩ := List.mem_map.1 h
    have hu := List.sizeOf_lt_of_mem hf
    simp only [Atom.record.sizeOf_spec, Record.mk.sizeOf_spec, Prod.mk.sizeOf_spec] at hu ⊢
    omega
  | callable c =>
    obtain ⟨params, result, isClosure, isPure⟩ := c
    rcases List.mem_append.1 h with h | h
    · obtain ⟨⟨name, type, byReference, variadic, optional⟩, hp, ht⟩ := List.mem_filterMap.1 h
      have hs := List.sizeOf_lt_of_mem hp
      simp only at ht
      subst ht
      simp only [Atom.callable.sizeOf_spec, Callable.mk.sizeOf_spec, Param.mk.sizeOf_spec,
        Option.some.sizeOf_spec] at hs ⊢
      omega
    · have ht := Option.mem_toList.1 h
      subst ht
      simp only [Atom.callable.sizeOf_spec, Callable.mk.sizeOf_spec, Option.some.sizeOf_spec]
      omega
  | template name scope bound =>
    obtain rfl := List.mem_singleton.1 h
    simp only [Atom.template.sizeOf_spec]
    omega
  | array key value nonEmpty =>
    simp only [Atom.types, List.mem_cons, List.not_mem_nil, or_false] at h
    rcases h with rfl | rfl <;> simp only [Atom.array.sizeOf_spec] <;> omega
  | list value nonEmpty =>
    obtain rfl := List.mem_singleton.1 h
    simp only [Atom.list.sizeOf_spec]
    omega
  | _ => simp [Atom.types] at h

private theorem sizeOf_lt_of_inside {a b : Atom} {t : Ty} (ht : t ∈ a.types) (hb : b ∈ t.atoms) :
    sizeOf b < sizeOf a := by
  have hatom := List.sizeOf_lt_of_mem hb
  have htype := sizeOf_lt_of_mem_types ht
  obtain ⟨atoms, optional⟩ := t
  simp only [Ty.mk.sizeOf_spec] at hatom htype
  omega

/-- Induction on an atom: the statement may be used for its facets and for the
atoms of the types inside it. -/
theorem Atom.induction {P : Atom → Prop}
    (step : ∀ a : Atom, (∀ f ∈ a.facets, P f) → (∀ t ∈ a.types, ∀ b ∈ t.atoms, P b) → P a)
    (a : Atom) : P a :=
  step a (fun f _ => Atom.induction step f) (fun _ _ b _ => Atom.induction step b)
termination_by sizeOf a
decreasing_by
  · exact sizeOf_lt_of_mem_facets ‹_›
  · exact sizeOf_lt_of_inside ‹_› ‹_›

/-- The atom and everything found in its facets and in the types inside it, as often as it occurs. -/
def Atom.parts (a : Atom) : List Atom :=
  a :: (a.facets.attach.flatMap (fun f => f.1.parts) ++
    a.types.attach.flatMap fun t => t.1.atoms.attach.flatMap fun b => b.1.parts)
termination_by sizeOf a
decreasing_by
  · exact sizeOf_lt_of_mem_facets f.2
  · exact sizeOf_lt_of_inside t.2 b.2

/-- The atoms that occur in the type at some depth, each as often as it occurs. -/
def Ty.parts (t : Ty) : List Atom :=
  t.atoms.flatMap Atom.parts

theorem Atom.parts_eq (a : Atom) :
    a.parts = a :: (a.facets.flatMap Atom.parts ++ a.types.flatMap Ty.parts) := by
  rw [Atom.parts]
  simp only [List.flatMap_subtype, List.unattach_attach]
  rfl

/-! ### Parts of parts -/

theorem Atom.PartOf.trans {a b c : Atom} (h : a.PartOf b) (h' : b.PartOf c) : a.PartOf c := by
  induction h' with
  | self => exact h
  | facet hf _ ih => exact .facet hf ih
  | inside ht hc _ ih => exact .inside ht hc ih

/-- A part of an atom is the atom itself, a part of a facet, or occurs in a type inside. -/
theorem Atom.partOf_iff {a b : Atom} :
    b.PartOf a ↔ b = a ∨ (∃ f ∈ a.facets, b.PartOf f) ∨ ∃ t ∈ a.types, t.Has b := by
  constructor
  · intro h
    cases h with
    | self => exact .inl rfl
    | facet hf h => exact .inr (.inl ⟨_, hf, h⟩)
    | inside ht hc h => exact .inr (.inr ⟨_, ht, _, hc, h⟩)
  · rintro (rfl | ⟨f, hf, h⟩ | ⟨t, ht, c, hc, h⟩)
    · exact .self
    · exact .facet hf h
    · exact .inside ht hc h

theorem Atom.mem_parts_iff {a b : Atom} : b ∈ a.parts ↔ b.PartOf a := by
  induction a using Atom.induction with
  | step a hf ht =>
    rw [Atom.parts_eq, Atom.partOf_iff, List.mem_cons, List.mem_append, List.mem_flatMap,
      List.mem_flatMap]
    refine or_congr_right (or_congr ?_ ?_)
    · exact exists_congr fun f => and_congr_right fun h => hf f h
    · refine exists_congr fun t => and_congr_right fun h => ?_
      rw [Ty.parts, List.mem_flatMap]
      exact exists_congr fun c => and_congr_right fun hc => ht t h c hc

theorem Ty.mem_parts_iff {t : Ty} {b : Atom} : b ∈ t.parts ↔ t.Has b := by
  rw [Ty.parts, List.mem_flatMap]
  exact exists_congr fun c => and_congr_right fun _ => Atom.mem_parts_iff

/-- What holds of an atom, of the parts of its facets and of what occurs in the types
inside it holds of its parts. -/
theorem Atom.forall_partOf {P : Atom → Prop} {a : Atom} (h : P a)
    (hf : ∀ f ∈ a.facets, ∀ b : Atom, b.PartOf f → P b) (ht : ∀ t ∈ a.types, ∀ b, t.Has b → P b) :
    ∀ b : Atom, b.PartOf a → P b := by
  intro b hb
  rcases Atom.partOf_iff.1 hb with rfl | ⟨f, hmem, hb⟩ | ⟨t, hmem, hb⟩
  · exact h
  · exact hf f hmem b hb
  · exact ht t hmem b hb

theorem Atom.partOf_leaf_iff {a b : Atom} (hf : a.facets = []) (ht : a.types = []) :
    b.PartOf a ↔ b = a := by
  rw [Atom.partOf_iff, hf, ht]
  simp

@[simp]
theorem Atom.partOf_keyword_iff {w : Keyword} {b : Atom} : b.PartOf (.keyword w) ↔ b = .keyword w :=
  Atom.partOf_leaf_iff rfl rfl

@[simp]
theorem Ty.has_single_iff {a b : Atom} : (Ty.single a).Has b ↔ b.PartOf a := by
  simp [Ty.Has, Ty.single]

@[simp]
theorem Atom.partOf_object_iff {name : String} {b : Atom} :
    b.PartOf (.object ⟨name, []⟩) ↔ b = .object ⟨name, []⟩ :=
  Atom.partOf_leaf_iff rfl rfl

theorem Ty.has_of_mem {t : Ty} {a : Atom} (h : a ∈ t.atoms) : t.Has a :=
  ⟨a, h, .self⟩

/-- What occurs in a type inside an atom of `t` occurs in `t`. -/
theorem Ty.Has.of_inside {t u : Ty} {a b : Atom} (ha : a ∈ t.atoms) (hu : u ∈ a.types) (h : u.Has b) :
    t.Has b := by
  obtain ⟨c, hc, hb⟩ := h
  exact ⟨a, ha, .inside hu hc hb⟩

/-! ### Proper types with one atom -/

theorem Ty.IsProper.single {t : Ty} (ht : t.IsProper) {a : Atom} (ha : t.Has a) :
    (Ty.single a).IsProper := by
  obtain ⟨c, hc, hac⟩ := ha
  exact fun b hb => ht b ⟨c, hc, (Ty.has_single_iff.1 hb).trans hac⟩

theorem Ty.isProper_single {a : Atom} (h : a.IsProper) (hf : ∀ f ∈ a.facets, (Ty.single f).IsProper)
    (ht : ∀ u ∈ a.types, u.IsProper) : (Ty.single a).IsProper := by
  intro b hb
  have facets : ∀ f ∈ a.facets, ∀ c : Atom, c.PartOf f → c.IsProper :=
    fun f hmem c hc => hf f hmem c (Ty.has_single_iff.2 hc)
  exact Atom.forall_partOf h facets ht b (Ty.has_single_iff.1 hb)

theorem Ty.isProper_leaf {a : Atom} (h : a.IsProper) (hf : a.facets = []) (ht : a.types = []) :
    (Ty.single a).IsProper :=
  Ty.isProper_single h (by simp [hf]) (by simp [ht])

end TypeProbe
