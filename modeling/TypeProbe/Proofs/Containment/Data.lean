import TypeProbe.Proofs.Containment.Rules
import TypeProbe.Proofs.Identity.Words
import TypeProbe.Proofs.Ty.Alike

/-!
# Data types

A data type is built from given atoms by lists, arrays and sealed records (`Ty.BuiltFrom`).  The
judgement on such a type is the judgement on each of its atoms (`Ty.BuiltFrom.within_iff`), and the
types of the keys and the values of a record cover its keys and the types of its fields
(`Record.literal_mem_keyType`, `Record.Covers`): an atom that was dropped because its identity
occurs earlier has a counterpart that is alike.
-/

namespace TypeProbe

/-- A sealed record with distinct keys, marked as a list exactly if the keys are `0, …, n - 1`, in
any order, and no slot may be missing. -/
structure Record.IsRegular (r : Record) : Prop where
  isSealed : r.isSealed = true
  nodup : r.keys.Nodup
  isList_iff : r.isList = true ↔
    (∀ k, k ∈ r.keys ↔ ∃ i < r.fields.length, k = .int i) ∧ ∀ t ∈ r.types, t.optional = false

mutual

/-- The type has an atom, and every atom of it is built from the given ones. -/
inductive Ty.BuiltFrom (leaf : Atom → Prop) : Ty → Prop where
  | union {t : Ty} : t.atoms ≠ [] → (∀ a ∈ t.atoms, a.BuiltFrom leaf) → t.BuiltFrom leaf

/-- The atom is a given one, or a list, an array or a regular record of
types built from the given ones. -/
inductive Atom.BuiltFrom (leaf : Atom → Prop) : Atom → Prop where
  | leaf {a : Atom} : leaf a → a.BuiltFrom leaf
  | list {value : Ty} {nonEmpty : Bool} : value.BuiltFrom leaf →
    (Atom.list value nonEmpty).BuiltFrom leaf
  | array {key value : Ty} {nonEmpty : Bool} :
    key.BuiltFrom leaf → value.BuiltFrom leaf → (Atom.array key value nonEmpty).BuiltFrom leaf
  | record {r : Record} : r.IsRegular → (∀ t ∈ r.types, t.BuiltFrom leaf) →
    (Atom.record r).BuiltFrom leaf

end

/-- The atoms without parts: keywords and literals. -/
def Atom.IsScalar : Atom → Prop
  | .keyword _ | .literal _ => True
  | _ => False

/-- Scalars, class strings and objects without type parameters. -/
def Atom.IsNominal : Atom → Prop
  | .keyword _ | .literal _ | .classString _ | .object _ => True
  | _ => False

theorem Atom.IsScalar.isNominal {a : Atom} (h : a.IsScalar) : a.IsNominal := by
  cases a with
  | keyword _ | literal _ => trivial
  | _ => exact h.elim

theorem Ty.BuiltFrom.atom {leaf : Atom → Prop} {t : Ty} (h : t.BuiltFrom leaf) {a : Atom}
    (ha : a ∈ t.atoms) : a.BuiltFrom leaf := by
  cases h with
  | union _ h => exact h a ha

theorem Ty.BuiltFrom.ne_nil {leaf : Atom → Prop} {t : Ty} (h : t.BuiltFrom leaf) : t.atoms ≠ [] := by
  cases h with
  | union hn _ => exact hn

theorem Ty.BuiltFrom.of_leaves {leaf : Atom → Prop} {t : Ty} (hn : t.atoms ≠ [])
    (h : ∀ a ∈ t.atoms, leaf a) : t.BuiltFrom leaf :=
  .union hn fun a ha => .leaf (h a ha)

theorem Ty.BuiltFrom.single {leaf : Atom → Prop} {a : Atom} (h : a.BuiltFrom leaf) :
    (Ty.single a).BuiltFrom leaf :=
  .union (List.cons_ne_nil _ _) fun b hb => by
    obtain rfl := List.mem_singleton.1 hb
    exact h

/-- The types inside an atom are built from the same atoms. -/
theorem Atom.BuiltFrom.types {leaf : Atom → Prop} (hleaf : ∀ a, leaf a → a.IsNominal) {a : Atom}
    (h : a.BuiltFrom leaf) : ∀ t ∈ a.types, t.BuiltFrom leaf := by
  intro t ht
  cases h with
  | leaf ha =>
    have hn := hleaf a ha
    cases a with
    | keyword _ | literal _ | classString _ | object _ => simp [Atom.types] at ht
    | _ => exact hn.elim
  | list hv =>
    obtain rfl := List.mem_singleton.1 ht
    exact hv
  | array hk hv =>
    rcases List.mem_pair.1 ht with rfl | rfl
    · exact hk
    · exact hv
  | record _ hr => exact hr t ht

theorem Atom.BuiltFrom.isRegular {leaf : Atom → Prop} (hleaf : ∀ a, leaf a → a.IsNominal) {r : Record}
    (h : (Atom.record r).BuiltFrom leaf) : r.IsRegular := by
  cases h with
  | leaf ha => exact (hleaf _ ha).elim
  | record hr _ => exact hr

theorem Atom.BuiltFrom.bound?_eq_none {leaf : Atom → Prop} (hleaf : ∀ a, leaf a → a.IsNominal)
    {a : Atom} (h : a.BuiltFrom leaf) : a.bound? = none := by
  cases a with
  | template name scope bound =>
    cases h with
    | leaf h => exact (hleaf _ h).elim
  | _ => rfl

/-- On data types the judgement asks that each atom lies within an atom of the target. -/
theorem Ty.BuiltFrom.within_iff {leaf : Atom → Prop} (hleaf : ∀ a, leaf a → a.IsNominal)
    {h : Hierarchy} {depth : Nat} {s t : Ty} (hs : s.BuiltFrom leaf) :
    within h (depth + 1) s t = true ↔ ∀ a ∈ s.atoms, a.FitsIn h (within h depth) t := by
  rw [within_succ_iff]
  refine forall₂_congr fun a ha => ⟨?_, .inl⟩
  rintro (hfit | ⟨bound, hb, -⟩)
  · exact hfit
  · rw [(hs.atom ha).bound?_eq_none hleaf] at hb
    cases hb

/-! ### Objects that are alike -/

section

variable {h : Hierarchy} {o p q : ObjectType}

theorem ObjectType.reaches_of_alike (hn : o.name = p.name)
    (hf : List.Forall₂ Atom.Alike o.facets p.facets) {target : String}
    (ho : o.reaches h target = true) : p.reaches h target = true := by
  rcases reaches_iff.1 ho with hself | ⟨a, ha, f, haf, hfacet⟩
  · exact reaches_iff.2 (.inl (hn ▸ hself))
  · obtain ⟨b, hb, hab⟩ := exists_mem_of_forall₂ hf ha
    obtain ⟨g, hg, hfg, -⟩ := hab.exists_object haf
    exact reaches_iff.2 (.inr ⟨b, hb, g, hg, hfg ▸ hfacet⟩)

/-- Fitting an object is fitting one that is alike. -/
theorem ObjectType.fits_of_alike (hn : p.name = q.name) (hf : List.Forall₂ Atom.Alike p.facets q.facets)
    (hop : o.fits h p = true) : o.fits h q = true := by
  obtain ⟨hname, hfacets⟩ := fits_iff.1 hop
  refine fits_iff.2 ⟨hn ▸ hname, fun b hb f hbf => ?_⟩
  obtain ⟨a, ha, hab⟩ := exists_mem_of_forall₂ hf.flip hb
  obtain ⟨g, hg, hfg, -⟩ := hab.symm.exists_object hbf
  exact hfg ▸ hfacets a ha g hg

end

/-! ### Distinct atoms -/

theorem Atom.mem_of_mem_distinct {atoms : List Atom} {a : Atom} (h : a ∈ Atom.distinct atoms) :
    a ∈ atoms :=
  mem_of_mem_distinctBy Atom.identity h

/-- Of every identity that occurs one atom is kept. -/
theorem Atom.exists_mem_distinct {atoms : List Atom} {a : Atom} (h : a ∈ atoms) :
    ∃ b ∈ Atom.distinct atoms, b.identity = a.identity :=
  List.mem_map.1 ((mem_map_distinctBy Atom.identity).2 (List.mem_map_of_mem h))

/-- The atoms of a union built from a list, or of `never` if the list is empty. -/
private theorem mem_getD_ofAtoms? {atoms : List Atom} {a : Atom} :
    a ∈ ((Ty.ofAtoms? atoms).getD (.single (.keyword .never))).atoms ↔
      a ∈ Atom.distinct atoms ∨ atoms = [] ∧ a = .keyword .never := by
  by_cases hn : atoms = []
  · subst hn
    simp [Ty.ofAtoms?, Atom.distinct, distinctBy, Keyed.firsts, Ty.single]
  · obtain ⟨b, rest, hd⟩ := List.exists_cons_of_ne_nil (Atom.distinct_ne_nil hn)
    simp [Ty.ofAtoms?, hd, hn]

private theorem distinct_getD_ofAtoms? {atoms : List Atom} :
    ((Ty.ofAtoms? atoms).getD (.single (.keyword .never))).Distinct := by
  cases h : Ty.ofAtoms? atoms with
  | none => exact ⟨List.cons_ne_nil _ _, List.nodup_singleton _⟩
  | some t => exact Ty.Distinct.of_ofAtoms? h

namespace Record

theorem mem_keyType {r : Record} {a : Atom} (h : a ∈ r.keyType.atoms) :
    (∃ k ∈ r.keys, a = .literal k.literal) ∨ r.fields = [] ∧ a = .keyword .never := by
  rcases mem_getD_ofAtoms?.1 h with h | ⟨hn, h⟩
  · obtain ⟨k, hk, rfl⟩ := List.mem_map.1 (Atom.mem_of_mem_distinct h)
    exact .inl ⟨k, hk, rfl⟩
  · exact .inr ⟨by simpa [keys] using hn, h⟩

/-- Every key is in the type of the keys, since different keys have different texts. -/
theorem literal_mem_keyType {r : Record} {k : Key} (h : k ∈ r.keys) :
    .literal k.literal ∈ r.keyType.atoms := by
  obtain ⟨b, hb, e⟩ :=
    Atom.exists_mem_distinct (List.mem_map_of_mem (f := fun k : Key => Atom.literal k.literal) h)
  obtain ⟨l, -, rfl⟩ := List.mem_map.1 (Atom.mem_of_mem_distinct hb)
  obtain rfl : l = k := Key.literal_text_injective (by simpa only [Atom.identity] using e)
  exact mem_getD_ofAtoms?.2 (.inl hb)

theorem atoms_valueType (r : Record) :
    r.valueType.atoms =
      ((Ty.ofAtoms? (r.types.flatMap (·.atoms))).getD (.single (.keyword .never))).atoms := by
  unfold valueType Ty.merge?
  cases Ty.ofAtoms? (r.types.flatMap (·.atoms)) <;> rfl

theorem mem_valueType {r : Record} {a : Atom} (h : a ∈ r.valueType.atoms) :
    (∃ t ∈ r.types, a ∈ t.atoms) ∨ (∀ t ∈ r.types, t.atoms = []) ∧ a = .keyword .never := by
  rw [atoms_valueType] at h
  rcases mem_getD_ofAtoms?.1 h with h | ⟨hn, h⟩
  · exact .inl (List.mem_flatMap.1 (Atom.mem_of_mem_distinct h))
  · exact .inr ⟨List.flatMap_eq_nil_iff.1 hn, h⟩

theorem distinct_keyType (r : Record) : r.keyType.Distinct :=
  distinct_getD_ofAtoms?

theorem distinct_valueType (r : Record) : r.valueType.Distinct := by
  rw [Ty.Distinct, atoms_valueType]
  exact distinct_getD_ofAtoms?

/-- Keys have no parts. -/
theorem has_keyType {r : Record} {a : Atom} (h : r.keyType.Has a) : a ∈ r.keyType.atoms := by
  obtain ⟨b, hb, hab⟩ := h
  rcases mem_keyType hb with ⟨k, -, rfl⟩ | ⟨-, rfl⟩ <;> exact (Atom.partOf_leaf_iff rfl rfl).1 hab ▸ hb

/-- What occurs in the type of the values occurs in a field. -/
theorem has_valueType {r : Record} {a : Atom} (h : r.valueType.Has a) :
    (∃ t ∈ r.types, t.Has a) ∨ a = .keyword .never := by
  obtain ⟨b, hb, hab⟩ := h
  rcases mem_valueType hb with ⟨t, ht, hbt⟩ | ⟨-, rfl⟩
  · exact .inl ⟨t, ht, b, hbt, hab⟩
  · exact .inr (Atom.partOf_keyword_iff.1 hab)

/-- Of every identity that occurs in a field, the type of the values has an
atom that occurs in a field. -/
theorem exists_mem_valueType {r : Record} {t : Ty} (ht : t ∈ r.types) {a : Atom} (ha : a ∈ t.atoms) :
    ∃ b ∈ r.valueType.atoms, b.identity = a.identity ∧ ∃ u ∈ r.types, b ∈ u.atoms := by
  obtain ⟨b, hb, e⟩ := Atom.exists_mem_distinct (List.mem_flatMap.2 ⟨t, ht, ha⟩)
  refine ⟨b, ?_, e, List.mem_flatMap.1 (Atom.mem_of_mem_distinct hb)⟩
  rw [atoms_valueType]
  exact mem_getD_ofAtoms?.2 (.inl hb)

end Record

/-! ### Covering -/

/-- Each atom of the first type has a counterpart in the second that is alike. -/
def Ty.CoveredBy (s t : Ty) : Prop :=
  ∀ a ∈ s.atoms, ∃ b ∈ t.atoms, a.Alike b

theorem Ty.CoveredBy.refl (t : Ty) : t.CoveredBy t :=
  fun a ha => ⟨a, ha, a.alike_refl⟩

theorem Ty.Alike.coveredBy {s t : Ty} (h : s.Alike t) : s.CoveredBy t :=
  fun _ ha => h.exists_mem ha

theorem Ty.CoveredBy.trans {s t u : Ty} (hst : s.CoveredBy t) (htu : t.CoveredBy u) :
    s.CoveredBy u := by
  intro a ha
  obtain ⟨b, hb, hab⟩ := hst a ha
  obtain ⟨c, hc, hbc⟩ := htu b hb
  exact ⟨c, hc, hab.trans hbc⟩

/-- For every record that occurs in the type, the type of its values covers the types of its fields. -/
def Ty.CoversFields (t : Ty) : Prop :=
  ∀ r, t.Has (.record r) → ∀ u ∈ r.types, u.CoveredBy r.valueType

/-- If atoms of one identity are alike, it does not matter which of them a union keeps. -/
theorem Ty.Coherent.coversFields {types : List Ty} (h : Ty.Coherent types) {t : Ty} (ht : t ∈ types) :
    t.CoversFields := by
  rintro r ⟨c, hc, hr⟩ u hu a ha
  obtain ⟨b, hb, e, w, hw, hbw⟩ := Record.exists_mem_valueType hu ha
  have has : ∀ v ∈ r.types, ∀ d ∈ v.atoms, t.Has d :=
    fun v hv d hd => ⟨c, hc, (Atom.PartOf.inside hv hd .self).trans hr⟩
  exact ⟨b, hb, h t ht t ht a b (has u hu a ha) (has w hw b hbw) e.symm⟩

theorem Ty.CoversFields.inside {s : Ty} (hs : s.CoversFields) {a : Atom} (ha : a ∈ s.atoms) {t : Ty}
    (ht : t ∈ a.types) : t.CoversFields :=
  fun r hr => hs r (.of_inside ha ht hr)

theorem Ty.CoversFields.valueType {s : Ty} (hs : s.CoversFields) {r : Record}
    (hr : .record r ∈ s.atoms) : r.valueType.CoversFields := by
  intro q hq
  rcases Record.has_valueType hq with ⟨t, ht, hq⟩ | hq
  · exact hs q (.of_inside hr ht hq)
  · cases hq

theorem Record.coversFields_keyType (r : Record) : r.keyType.CoversFields := by
  intro q hq
  rcases Record.mem_keyType (Record.has_keyType hq) with ⟨k, -, hq⟩ | ⟨-, hq⟩ <;> cases hq

/-! ### The types of keys and values -/

theorem Ty.BuiltFrom.keyType {leaf : Atom → Prop} (hscalar : ∀ a : Atom, a.IsScalar → leaf a)
    (r : Record) : r.keyType.BuiltFrom leaf := by
  refine .union r.distinct_keyType.1 fun a ha => ?_
  rcases Record.mem_keyType ha with ⟨k, -, rfl⟩ | ⟨-, rfl⟩ <;> exact .leaf (hscalar _ trivial)

/-- The type of the values of a record is made of the types of its fields. -/
theorem Ty.BuiltFrom.valueType {leaf : Atom → Prop} (hscalar : ∀ a : Atom, a.IsScalar → leaf a)
    {r : Record} (h : ∀ t ∈ r.types, t.BuiltFrom leaf) : r.valueType.BuiltFrom leaf := by
  refine .union r.distinct_valueType.1 fun a ha => ?_
  rcases Record.mem_valueType ha with ⟨t, ht, hat⟩ | ⟨-, rfl⟩
  · exact (h t ht).atom hat
  · exact .leaf (hscalar _ trivial)

/-! ### Regular records -/

namespace Record

/-- A field under a key of the record. -/
theorem exists_get? {r : Record} {k : Key} (h : k ∈ r.keys) : ∃ t, Keyed.get? k r.fields = some t :=
  Option.ne_none_iff_exists'.1 fun hn => Keyed.get?_eq_none_iff.1 hn h

theorem mem_types_of_get? {r : Record} {k : Key} {t : Ty} (h : Keyed.get? k r.fields = some t) :
    t ∈ r.types :=
  List.mem_map.2 ⟨_, Keyed.mem_of_get? h, rfl⟩

theorem mem_keys_of_get? {r : Record} {k : Key} {t : Ty} (h : Keyed.get? k r.fields = some t) :
    k ∈ r.keys :=
  List.mem_map.2 ⟨_, Keyed.mem_of_get? h, rfl⟩

variable {sub : Ty → Ty → Bool} {r target : Record}

/-- A field of a regular record that fits another has a counterpart there. -/
theorem IsRegular.get?_of_fits (ht : target.IsRegular) (hfit : r.fits sub target = true) {k : Key}
    {s : Ty} (hs : Keyed.get? k r.fields = some s) :
    ∃ t, Keyed.get? k target.fields = some t ∧ (s.optional = true → t.optional = true) ∧
      sub s t = true := by
  obtain ⟨-, hfields, hkeys⟩ := fits_iff.1 hfit
  obtain ⟨t, hget⟩ := exists_get? (hkeys ht.isSealed k (mem_keys_of_get? hs))
  rcases hfields _ (Keyed.mem_of_get? hget) with ⟨s', hs', ho, hsub⟩ | ⟨hnone, -⟩
  · obtain rfl : s' = s := Option.some.inj (hs'.symm.trans hs)
    exact ⟨t, hget, ho, hsub⟩
  · rw [hs] at hnone
    cases hnone

/-- A slot that is always there in the target is always there in a record that fits. -/
theorem exists_required_of_fits (hfit : r.fits sub target = true) {f : Key × Ty}
    (hf : f ∈ target.fields) (ho : f.2.optional = false) :
    ∃ s, Keyed.get? f.1 r.fields = some s ∧ s.optional = false := by
  rcases (fits_iff.1 hfit).2.1 f hf with ⟨s, hs, hopt, -⟩ | ⟨-, hopt⟩
  · exact ⟨s, hs, by_contra fun hn => by simp [hopt (by simpa using hn)] at ho⟩
  · rw [ho] at hopt
    cases hopt

/-- A regular record that fits a list record is a list record with as many fields. -/
theorem IsRegular.isList_of_fits (hr : r.IsRegular) (ht : target.IsRegular)
    (hfit : r.fits sub target = true) (hl : target.isList = true) :
    r.isList = true ∧ r.fields.length = target.fields.length := by
  obtain ⟨hset, hreq⟩ := ht.isList_iff.1 hl
  have hkeys : ∀ k, k ∈ r.keys ↔ k ∈ target.keys := by
    intro k
    refine ⟨(fits_iff.1 hfit).2.2 ht.isSealed k, fun hk => ?_⟩
    obtain ⟨f, hf, rfl⟩ := List.mem_map.1 hk
    obtain ⟨s, hs, -⟩ := exists_required_of_fits hfit hf (hreq _ (List.mem_map_of_mem hf))
    exact mem_keys_of_get? hs
  have hlen : r.fields.length = target.fields.length := by
    have hperm : r.keys.Perm target.keys := (List.perm_ext_iff_of_nodup hr.nodup ht.nodup).2 hkeys
    simpa [keys] using hperm.length_eq
  refine ⟨hr.isList_iff.2 ⟨fun k => by rw [hkeys, hset, hlen], fun s hs => ?_⟩, hlen⟩
  obtain ⟨f, hf, rfl⟩ := List.mem_map.1 hs
  obtain ⟨t, hget, ho, -⟩ := ht.get?_of_fits hfit (Keyed.get?_of_mem hr.nodup hf)
  by_contra hn
  have := hreq t (mem_types_of_get? hget)
  simp [ho (by simpa using hn)] at this

end Record

end TypeProbe
