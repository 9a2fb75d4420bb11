import TypeProbe.Proofs.Identity.Alike

/-!
# Unions as they are built

A union may be built from a list of atoms, by adding atoms one after the other, by joining
unions and by replacing atoms (`Ty.Built`).  All these ways keep of several atoms with one
identity the first, so they give the same unions (`Ty.foldl_add`, `Ty.merge?_eq`).  Which atoms
are kept depends on their order, the identity of the result does not; and unions may be joined
in groups first (`Ty.merge?_groups`).
-/

namespace TypeProbe

namespace Ty

/-- The union results from building unions, in any number of steps. -/
inductive Built : Ty → Prop where
  | ofAtoms {atoms : List Atom} {t : Ty} : ofAtoms? atoms = some t → Built t
  | single (a : Atom) : Built (.single a)
  | add {t : Ty} (a : Atom) : Built t → Built (t.add a)
  | merge {types : List Ty} {t : Ty} : (∀ u ∈ types, Built u) → merge? types = some t → Built t
  | mapAtoms {t : Ty} (f : Atom → Atom) : Built t → Built (t.mapAtoms f)
  | orNull {t : Ty} : Built t → Built t.orNull
  | asOptional {t : Ty} : Built t → Built t.asOptional
  | asRequired {t : Ty} : Built t → Built t.asRequired

theorem Built.distinct {t : Ty} (h : t.Built) : t.Distinct := by
  induction h with
  | ofAtoms h => exact .of_ofAtoms? h
  | single a => exact ⟨List.cons_ne_nil _ _, List.nodup_singleton _⟩
  | add a _ ih => exact ih.add a
  | merge _ h _ => exact .of_merge? h
  | mapAtoms f _ ih => exact .mapAtoms ih.1 f
  | orNull _ ih => exact ih.add _
  | asOptional _ ih => exact ih
  | asRequired _ ih => exact ih

/-- Atoms of different identities may be replaced by any atoms, one by one. -/
theorem Distinct.exists_map_eq {t : Ty} (h : t.Distinct) {images : List Atom}
    (hlength : images.length = t.atoms.length) : ∃ f, t.atoms.map f = images := by
  refine ⟨fun a => images.getD ((t.atoms.map Atom.identity).idxOf a.identity) a, ?_⟩
  refine List.ext_getElem (by rw [List.length_map, hlength]) fun i hi hi' => ?_
  have hmap : i < (t.atoms.map Atom.identity).length := by
    rw [List.length_map, ← hlength]
    exact hi'
  have hindex : (t.atoms.map Atom.identity).idxOf ((t.atoms.map Atom.identity)[i]) = i :=
    h.2.idxOf_getElem i hmap
  rw [List.getElem_map] at hindex ⊢
  rw [hindex, List.getD_eq_getElem _ _ hi']

theorem add_eq {t : Ty} (h : t.Distinct) (a : Atom) :
    t.add a = { t with atoms := Atom.distinct (t.atoms ++ [a]) } := by
  have hone : distinctBy Atom.identity [a] = [a] := distinctBy_eq_self _ (List.nodup_singleton _)
  obtain ⟨atoms, optional⟩ := t
  rw [Atom.distinct, distinctBy_append _ h.2, hone]
  unfold add
  split
  · rename_i hany
    obtain ⟨b, hb, hid⟩ := List.any_eq_true.1 hany
    have hmem : a.identity ∈ atoms.map Atom.identity := beq_iff_eq.1 hid ▸ List.mem_map_of_mem hb
    rw [List.filter_cons_of_neg (by simpa using hmem), List.filter_nil, List.append_nil]
  · rename_i hnot
    have hmem : a.identity ∉ atoms.map Atom.identity := by
      intro hmem
      obtain ⟨b, hb, hid⟩ := List.mem_map.1 hmem
      exact hnot (List.any_eq_true.2 ⟨b, hb, beq_iff_eq.2 hid⟩)
    rw [List.filter_cons_of_pos (by simpa using hmem)]
    rfl

/-- Adding atoms one after the other drops those whose identity is there. -/
theorem foldl_add {t : Ty} (h : t.Distinct) (atoms : List Atom) :
    atoms.foldl add t = { t with atoms := Atom.distinct (t.atoms ++ atoms) } := by
  induction atoms generalizing t with
  | nil =>
    rw [List.append_nil, Atom.distinct, distinctBy_eq_self _ h.2]
    cases t
    rfl
  | cons a rest ih =>
    rw [List.foldl_cons, ih (h.add a), add_eq h, Atom.distinct, Atom.distinct,
      distinctBy_distinctBy_append, List.append_assoc, List.singleton_append, Atom.distinct]

/-! ### Joining unions -/

/-- The union of unions that have atoms. -/
theorem merge?_eq {types : List Ty} (h : types.flatMap (·.atoms) ≠ []) :
    merge? types = some ⟨Atom.distinct (types.flatMap (·.atoms)), types.any (·.optional)⟩ := by
  rw [merge?, ofAtoms?_eq h]
  rfl

theorem flatMap_atoms_ne_nil {types : List Ty} (hn : types ≠ []) (h : ∀ t ∈ types, t.Distinct) :
    types.flatMap (·.atoms) ≠ [] := by
  obtain ⟨t, ht⟩ := List.exists_mem_of_ne_nil types hn
  intro hnil
  exact (h t ht).1 (List.flatMap_eq_nil_iff.1 hnil t ht)

/-- Unions of the same identities and marks are joined alike. -/
private theorem merge?_congr {types types' : List Ty}
    (hatoms : Atom.distinct (types.flatMap (·.atoms)) = Atom.distinct (types'.flatMap (·.atoms)))
    (hoptional : types.any (·.optional) = types'.any (·.optional)) : merge? types = merge? types' := by
  simp only [merge?, ofAtoms?, hatoms, hoptional]

/-- Unions may be joined in groups before they are joined. -/
theorem merge?_groups {groups : List (List Ty)} (h : ∀ types ∈ groups, ∀ t ∈ types, t.Distinct) :
    merge? (groups.filterMap merge?) = merge? groups.flatten := by
  suffices hboth : Atom.distinct ((groups.filterMap merge?).flatMap (·.atoms)) =
      Atom.distinct (groups.flatten.flatMap (·.atoms)) ∧
      (groups.filterMap merge?).any (·.optional) = groups.flatten.any (·.optional) from
    merge?_congr hboth.1 hboth.2
  induction groups with
  | nil => exact ⟨rfl, rfl⟩
  | cons types rest ih =>
    obtain ⟨hatoms, hoptional⟩ := ih fun types hmem => h types (List.mem_cons_of_mem _ hmem)
    by_cases hn : types = []
    · subst hn
      exact ⟨hatoms, hoptional⟩
    · have hmerge := merge?_eq (flatMap_atoms_ne_nil hn (h types List.mem_cons_self))
      rw [List.filterMap_cons_some hmerge, List.flatten_cons, List.flatMap_cons,
        List.flatMap_append, List.any_cons, List.any_append, hoptional]
      refine ⟨?_, rfl⟩
      unfold Atom.distinct at hatoms ⊢
      rw [distinctBy_distinctBy_append, distinctBy_append_eq, hatoms, distinctBy_append_eq]

/-- The order of the unions does not show in the identity of the joined one. -/
theorem identity_merge?_of_perm {types types' : List Ty} (h : types.Perm types') :
    (merge? types').map identity = (merge? types).map identity := by
  have hmem : ∀ a, a ∈ types'.flatMap (·.atoms) ↔ a ∈ types.flatMap (·.atoms) :=
    fun a => (h.flatMap_right _).mem_iff.symm
  by_cases hn : types.flatMap (·.atoms) = []
  · have hn' : types'.flatMap (·.atoms) = [] := by
      rw [List.eq_nil_iff_forall_not_mem] at hn ⊢
      exact fun a ha => hn a ((hmem a).1 ha)
    rw [merge?, merge?, hn, hn']
    rfl
  · have hn' : types'.flatMap (·.atoms) ≠ [] := by
      intro hnil
      rw [List.eq_nil_iff_forall_not_mem] at hnil
      exact hn (List.eq_nil_iff_forall_not_mem.2 fun a ha => hnil a ((hmem a).2 ha))
    rw [merge?_eq hn, merge?_eq hn', Option.map_some, Option.map_some]
    refine congrArg some (identity_eq_of_mem_iff fun x => ?_)
    rw [Atom.distinct, Atom.distinct, mem_map_distinctBy, mem_map_distinctBy, List.mem_map,
      List.mem_map]
    simp only [hmem]

/-- Joining a union with itself changes nothing. -/
theorem merge?_replicate {t : Ty} (h : t.Distinct) (n : Nat) :
    merge? (List.replicate (n + 1) t) = some t := by
  have hatoms : (List.replicate (n + 1) t).flatMap (·.atoms) =
      t.atoms ++ (List.replicate n t).flatMap (·.atoms) := rfl
  have hdistinct : Atom.distinct (t.atoms ++ (List.replicate n t).flatMap (·.atoms)) = t.atoms := by
    rw [Atom.distinct, distinctBy_append _ h.2, List.append_right_eq_self, List.filter_eq_nil_iff]
    intro a ha
    obtain ⟨u, hu, hau⟩ := List.mem_flatMap.1 (mem_of_mem_distinctBy _ ha)
    have hmem : a.identity ∈ t.atoms.map Atom.identity :=
      (List.mem_replicate.1 hu).2 ▸ List.mem_map_of_mem hau
    simpa using hmem
  have hoptional : (List.replicate (n + 1) t).any (·.optional) = t.optional := by
    simp
  have hn : t.atoms ++ (List.replicate n t).flatMap (·.atoms) ≠ [] := fun hnil =>
    h.1 (List.append_eq_nil_iff.1 hnil).1
  rw [merge?_eq (hatoms ▸ hn), hatoms, hdistinct, hoptional]
  cases t
  rfl

end Ty

/-- The atoms at whose place their identity occurs first. -/
def Atom.firsts (atoms : List Atom) : List Atom :=
  (atoms.zipIdx.filter fun e => (atoms.take e.2).all fun b =>
    decide (b.identity ≠ e.1.identity)).map (·.1)

/-- A union has an atom and no two atoms of one identity, however it is built; a map may give any
atoms for them, one by one.  Joining unions keeps the first atom of each identity, as building one
union of all atoms does, and adding the atoms of the later unions to the first one; the slot may be
missing if one of theirs may.  The identity of the joined union lists the identities of all atoms in
order, each once.  So the order of the unions does not show in it, they may be joined in groups
first, and a union is joined with itself to itself. -/
theorem Ty.built_keepsFirst :
    (∀ t : Ty, t.Built → t.Distinct ∧
      ∀ images : List Atom, images.length = t.atoms.length → ∃ f, t.atoms.map f = images) ∧
    (∀ (t : Ty) (rest : List Ty), (∀ s ∈ t :: rest, s.Built) →
      ∃ u, Ty.merge? (t :: rest) = some u ∧ u.atoms = Atom.firsts ((t :: rest).flatMap (·.atoms)) ∧
        Ty.ofAtoms? ((t :: rest).flatMap (·.atoms)) = some ⟨u.atoms, false⟩ ∧
        (rest.flatMap (·.atoms)).foldl Ty.add t = ⟨u.atoms, t.optional⟩ ∧
        (u.optional = true ↔ ∃ s ∈ t :: rest, s.optional = true) ∧
        ∃ ids : List String, ids.Pairwise (· < ·) ∧
          (∀ x, x ∈ ids ↔ ∃ s ∈ t :: rest, ∃ a ∈ s.atoms, a.identity = x) ∧
          u.identity = "|".intercalate ids) ∧
    (∀ groups : List (List Ty), (∀ types ∈ groups, ∀ t ∈ types, t.Built) →
      Ty.merge? (groups.filterMap Ty.merge?) = Ty.merge? groups.flatten) ∧
    (∀ types types' : List Ty, types.Perm types' →
      (Ty.merge? types').map Ty.identity = (Ty.merge? types).map Ty.identity) ∧
    ∀ (t : Ty) (n : Nat), t.Built → Ty.merge? (List.replicate (n + 1) t) = some t := by
  refine ⟨fun t ht => ⟨ht.distinct, fun images => ht.distinct.exists_map_eq⟩, fun t rest hbuilt => ?_,
    fun groups h => Ty.merge?_groups fun types hmem t ht => (h types hmem t ht).distinct,
    fun types types' h => Ty.identity_merge?_of_perm h, fun t n ht => Ty.merge?_replicate ht.distinct n⟩
  have hdistinct : ∀ s ∈ t :: rest, s.Distinct := fun s hs => (hbuilt s hs).distinct
  have hn := Ty.flatMap_atoms_ne_nil (List.cons_ne_nil t rest) hdistinct
  refine ⟨_, Ty.merge?_eq hn, ?_, ?_, ?_, ?_, ?_⟩
  · exact distinctBy_eq_filter_zipIdx _ _
  · exact Ty.ofAtoms?_eq hn
  · exact Ty.foldl_add (hdistinct t List.mem_cons_self) _
  · exact List.any_eq_true
  · refine ⟨sortedDistinct ((Atom.distinct ((t :: rest).flatMap (·.atoms))).map Atom.identity),
      pairwise_sortedDistinct _, fun x => ?_, Ty.identity_eq _⟩
    rw [mem_sortedDistinct, Atom.distinct, mem_map_distinctBy, List.mem_map]
    constructor
    · rintro ⟨a, ha, rfl⟩
      obtain ⟨s, hs, has⟩ := List.mem_flatMap.1 ha
      exact ⟨s, hs, a, has, rfl⟩
    · rintro ⟨s, hs, a, has, rfl⟩
      exact ⟨a, List.mem_flatMap.2 ⟨s, hs, has⟩, rfl⟩

/-- A function whose parameter has the given name, which its identity does not show, or `null`. -/
private def listener (parameter : String) : Ty :=
  (Ty.single (.callable ⟨[⟨parameter, none, false, false, false⟩], none, false, false⟩)).orNull

private theorem built_listener (parameter : String) : (listener parameter).Built :=
  .orNull (.single _)

theorem Ty.built_keepsFirst_listeners :
    (listener "x").Built ∧ (∀ s ∈ [listener "x", (listener "y").asOptional], s.Built) ∧
      (∃ f : Atom → Atom, (listener "x").atoms.map f = [.keyword .int, .keyword .int]) ∧
      (∃ u, Ty.merge? [listener "x", (listener "y").asOptional] = some u ∧ u.optional = true ∧
        (listener "y").atoms.foldl Ty.add (listener "x") = ⟨u.atoms, false⟩ ∧
        u.identity = "callable(mixed)|null") ∧
      Ty.merge? ([[listener "x", listener "y"], [listener "z"]].filterMap Ty.merge?) =
        Ty.merge? [listener "x", listener "y", listener "z"] ∧
      ([listener "x", listener "y"].Perm [listener "y", listener "x"] ∧
        (Ty.merge? [listener "y", listener "x"]).map Ty.identity =
          (Ty.merge? [listener "x", listener "y"]).map Ty.identity) ∧
      Ty.merge? [listener "x", listener "x"] = some (listener "x") := by
  obtain ⟨hbuilt, hjoin, hgroups, horder, hself⟩ := Ty.built_keepsFirst
  have hall : ∀ s ∈ [listener "x", (listener "y").asOptional], s.Built := by
    simpa using ⟨built_listener "x", (built_listener "y").asOptional⟩
  have hgrouped : ∀ types ∈ [[listener "x", listener "y"], [listener "z"]], ∀ t ∈ types, t.Built := by
    simpa using ⟨⟨built_listener "x", built_listener "y"⟩, built_listener "z"⟩
  have hswap : [listener "x", listener "y"].Perm [listener "y", listener "x"] := .swap _ _ _
  have hlength : [Atom.keyword .int, .keyword .int].length = (listener "x").atoms.length := by
    decide +kernel
  refine ⟨built_listener "x", hall, (hbuilt _ (built_listener "x")).2 _ hlength, ?_, hgroups _ hgrouped,
    ⟨hswap, horder _ _ hswap⟩, hself _ 1 (built_listener "x")⟩
  obtain ⟨u, hu, -, -, hfold, hoptional, -⟩ := hjoin _ _ hall
  have hidentity : (Ty.merge? [listener "x", (listener "y").asOptional]).map Ty.identity =
      some "callable(mixed)|null" := by
    decide +kernel
  rw [hu] at hidentity
  refine ⟨u, hu, hoptional.2 ⟨(listener "y").asOptional, by simp, rfl⟩, ?_, Option.some.inj hidentity⟩
  rw [List.flatMap_cons, List.flatMap_nil, List.append_nil] at hfold
  exact hfold

end TypeProbe
