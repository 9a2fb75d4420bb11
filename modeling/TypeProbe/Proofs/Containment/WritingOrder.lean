import TypeProbe.Proofs.Containment.Data
import TypeProbe.Proofs.Identity.Alike

/-!
# Containment does not see how unions are written

Alike types differ in the order of the atoms of their unions and in marks of slots that belong to no
field.  Neither shows in the judgement, whatever the classes are: `Ty.Alike.isWithin_eq`.  The
judgement searches the atoms of a union for one that fits, so their order matters in one place only:
the type of the values of a record keeps, of the atoms of one identity, that of the first field.  If
no union has two atoms of one identity (`Ty.IsReduced`), the fields decide which atoms are kept and
not the order within them (`Record.valueType_alike`).
-/

namespace TypeProbe

/-! ### Unions without repetitions -/

/-- No union in the type has two atoms of one identity. -/
def Ty.IsReduced (t : Ty) : Prop :=
  (t.atoms.map Atom.identity).Nodup ∧ ∀ a, t.Has a → ∀ u ∈ a.types, (u.atoms.map Atom.identity).Nodup

theorem Ty.IsReduced.inside {t u : Ty} (h : t.IsReduced) {a : Atom} (ha : a ∈ t.atoms)
    (hu : u ∈ a.types) : u.IsReduced :=
  ⟨h.2 a (Ty.has_of_mem ha) u hu, fun b hb => h.2 b (.of_inside ha hu hb)⟩

theorem Ty.isReduced_of {t : Ty} (h : (t.atoms.map Atom.identity).Nodup)
    (hf : ∀ a ∈ t.atoms, ∀ f ∈ a.facets, (Ty.single f).IsReduced)
    (ht : ∀ a ∈ t.atoms, ∀ u ∈ a.types, u.IsReduced) : t.IsReduced := by
  refine ⟨h, ?_⟩
  rintro b ⟨a, ha, hb⟩
  have types : ∀ u ∈ a.types, (u.atoms.map Atom.identity).Nodup := fun u hu => (ht a ha u hu).1
  exact Atom.forall_partOf types (fun f hmem c hc => (hf a ha f hmem).2 c (Ty.has_single_iff.2 hc))
    (fun u hu => (ht a ha u hu).2) b hb

theorem Record.isReduced_keyType (r : Record) : r.keyType.IsReduced := by
  refine ⟨r.distinct_keyType.2, fun a ha u hu => ?_⟩
  rcases mem_keyType (has_keyType ha) with ⟨k, -, rfl⟩ | ⟨-, rfl⟩ <;> simp [Atom.types] at hu

theorem Record.isReduced_valueType {r : Record} (h : ∀ t ∈ r.types, t.IsReduced) :
    r.valueType.IsReduced := by
  refine ⟨r.distinct_valueType.2, fun a ha u hu => ?_⟩
  rcases has_valueType ha with ⟨t, ht, hat⟩ | rfl
  · exact (h t ht).2 a hat u hu
  · simp [Atom.types] at hu

/-! ### Keys and values -/

/-- Up to order, atoms that are alike; the atoms of alike types are related
like this (`Ty.alike_iff`). -/
private abbrev AtomsAlike : List Atom → List Atom → Prop :=
  Relation.Comp (List.Forall₂ Atom.Alike) List.Perm

private theorem AtomsAlike.append {l m l' m' : List Atom} (hl : AtomsAlike l l')
    (hm : AtomsAlike m m') : AtomsAlike (l ++ m) (l' ++ m') := by
  obtain ⟨p, hlp, hp⟩ := hl
  obtain ⟨q, hmq, hq⟩ := hm
  exact ⟨p ++ q, List.rel_append hlp hmq, hp.append hq⟩

private theorem AtomsAlike.filter {l l' : List Atom} (h : AtomsAlike l l') {p q : Atom → Bool}
    (hpq : ∀ a b : Atom, a.Alike b → (p a = true ↔ q b = true)) :
    AtomsAlike (l.filter p) (l'.filter q) := by
  obtain ⟨m, hlm, hm⟩ := h
  exact ⟨m.filter q, List.rel_filter (fun a b hab => hpq a b hab) hlm, hm.filter q⟩

/-- An atom is dropped if an earlier type has one of its identity, wherever in that type it stands. -/
private theorem distinct_flatMap_alike {ts us : List Ty} (h : List.Forall₂ Ty.Alike ts us)
    (ht : ∀ t ∈ ts, (t.atoms.map Atom.identity).Nodup)
    (hu : ∀ u ∈ us, (u.atoms.map Atom.identity).Nodup) :
    AtomsAlike (Atom.distinct (ts.flatMap (·.atoms))) (Atom.distinct (us.flatMap (·.atoms))) := by
  induction h with
  | nil => exact ⟨[], .nil, .refl _⟩
  | @cons t u ts us htu _ ih =>
    obtain ⟨ht, hts⟩ := List.forall_mem_cons.1 ht
    obtain ⟨hu, hus⟩ := List.forall_mem_cons.1 hu
    rw [List.flatMap_cons, List.flatMap_cons, Atom.distinct, Atom.distinct, distinctBy_append _ ht,
      distinctBy_append _ hu]
    -- The atoms of `ts` and `us` that are dropped have the identities in `t` and in
    -- `u`, and these are the same.
    refine AtomsAlike.append (Ty.alike_iff.1 htu) ((ih hts hus).filter fun a b hab => ?_)
    rw [decide_eq_true_iff, decide_eq_true_iff, hab.identity_eq, htu.perm_identities.mem_iff]

private theorem getD_ofAtoms?_alike {l m : List Atom}
    (h : AtomsAlike (Atom.distinct l) (Atom.distinct m)) :
    ((Ty.ofAtoms? l).getD (.single (.keyword .never))).Alike
      ((Ty.ofAtoms? m).getD (.single (.keyword .never))) := by
  unfold Ty.ofAtoms?
  obtain ⟨others, hall, hperm⟩ := h
  cases hl : Atom.distinct l with
  | nil =>
    rw [hl] at hall
    cases hall
    rw [hperm.nil_eq.symm]
    exact Ty.alike_refl _
  | cons a rest =>
    cases hm : Atom.distinct m with
    | nil =>
      rw [hm] at hperm
      rw [hl, hperm.eq_nil] at hall
      cases hall
    | cons b rest' =>
      rw [hl] at hall
      rw [hm] at hperm
      exact Ty.alike_iff.2 ⟨others, hall, hperm⟩

namespace Record

variable {r q : Record}

theorem keyType_eq_of_alike (h : List.Forall₂ AlikeField r.fields q.fields) :
    r.keyType = q.keyType := by
  rw [keyType, keyType, keys, keys, map_fst_eq_of_alike h]

theorem types_alike (h : List.Forall₂ AlikeField r.fields q.fields) :
    List.Forall₂ Ty.Alike r.types q.types :=
  List.forall₂_map_left_iff.2 (List.forall₂_map_right_iff.2 (h.imp fun _ _ hfg => hfg.2.2))

/-- Fields that are alike have values of alike types. -/
theorem valueType_alike (h : List.Forall₂ AlikeField r.fields q.fields)
    (hr : ∀ t ∈ r.types, t.IsReduced) (hq : ∀ t ∈ q.types, t.IsReduced) :
    r.valueType.Alike q.valueType := by
  have hatoms := getD_ofAtoms?_alike
    (distinct_flatMap_alike (types_alike h) (fun t ht => (hr t ht).1) fun t ht => (hq t ht).1)
  rw [Ty.alike_iff] at hatoms ⊢
  rwa [atoms_valueType, atoms_valueType]

end Record

/-! ### Types that are written in two ways -/

/-- The types are alike, and no union in them has two atoms of one identity. -/
structure Ty.Rewritten (s t : Ty) : Prop where
  alike : s.Alike t
  left : s.IsReduced
  right : t.IsReduced

/-- The atoms are alike, and no union in them has two atoms of one identity. -/
structure Atom.Rewritten (a b : Atom) : Prop where
  alike : a.Alike b
  left : ∀ t ∈ a.types, t.IsReduced
  right : ∀ t ∈ b.types, t.IsReduced

theorem Ty.Rewritten.symm {s t : Ty} (h : s.Rewritten t) : t.Rewritten s :=
  ⟨h.alike.symm, h.right, h.left⟩

theorem Ty.Rewritten.exists_mem {s t : Ty} (h : s.Rewritten t) {a : Atom} (ha : a ∈ s.atoms) :
    ∃ b ∈ t.atoms, a.Rewritten b := by
  obtain ⟨b, hb, hab⟩ := h.alike.exists_mem ha
  exact ⟨b, hb, hab, fun _ => h.left.inside ha, fun _ => h.right.inside hb⟩

theorem Ty.Rewritten.exists_mem_left {s t : Ty} (h : s.Rewritten t) {b : Atom} (hb : b ∈ t.atoms) :
    ∃ a ∈ s.atoms, a.Rewritten b := by
  obtain ⟨a, ha, hab⟩ := h.alike.exists_mem_left hb
  exact ⟨a, ha, hab, fun _ => h.left.inside ha, fun _ => h.right.inside hb⟩

theorem Atom.Rewritten.inside {a b : Atom} (h : a.Rewritten b) {s t : Ty} (hs : s ∈ a.types)
    (ht : t ∈ b.types) (hst : s.Alike t) : s.Rewritten t :=
  ⟨hst, h.left s hs, h.right t ht⟩

theorem Atom.Rewritten.of_generic {o : ObjectType} {ts : List Ty} {b : Atom}
    (h : (Atom.generic o ts).Rewritten b) :
    ∃ p us, b = .generic p us ∧ (o.name = p.name ∧ List.Forall₂ Atom.Alike o.facets p.facets) ∧
      List.Forall₂ Ty.Rewritten ts us := by
  obtain ⟨p, us, rfl, hname, hfacets, hparams⟩ := Atom.generic_alike_iff.1 h.alike
  exact ⟨p, us, rfl, ⟨hname, hfacets⟩,
    forall₂_imp_of_mem (fun t ht u hu htu => h.inside ht hu htu) hparams⟩

theorem Atom.Rewritten.of_array {key value : Ty} {nonEmpty : Bool} {b : Atom}
    (h : (Atom.array key value nonEmpty).Rewritten b) :
    ∃ k v, b = .array k v nonEmpty ∧ key.Rewritten k ∧ value.Rewritten v := by
  obtain ⟨k, v, rfl, hk, hv⟩ := Atom.array_alike_iff.1 h.alike
  exact ⟨k, v, rfl, h.inside (by simp [Atom.types]) (by simp [Atom.types]) hk,
    h.inside (by simp [Atom.types]) (by simp [Atom.types]) hv⟩

theorem Atom.Rewritten.of_list {value : Ty} {nonEmpty : Bool} {b : Atom}
    (h : (Atom.list value nonEmpty).Rewritten b) :
    ∃ v, b = .list v nonEmpty ∧ value.Rewritten v := by
  obtain ⟨v, rfl, hv⟩ := Atom.list_alike_iff.1 h.alike
  exact ⟨v, rfl, h.inside (by simp [Atom.types]) (by simp [Atom.types]) hv⟩

theorem Atom.Rewritten.of_bound? {a b : Atom} (h : a.Rewritten b) {s : Ty} (hs : s ∈ a.bound?) :
    ∃ t ∈ b.bound?, s.Rewritten t := by
  cases a with
  | template name scope bound =>
    obtain rfl := Option.some.inj hs
    obtain ⟨u, rfl, hu⟩ := Atom.template_alike_iff.1 h.alike
    exact ⟨u, rfl, h.inside (by simp [Atom.types]) (by simp [Atom.types]) hu⟩
  | _ => cases hs

/-! ### Callables that are alike -/

section

variable {c d : Callable} (h : List.Forall₂ Param.Alike c.params d.params)

include h

theorem Callable.required_eq_of_alike : c.required = d.required := by
  have hmarks : c.params.map (fun p => !p.optional && !p.variadic) =
      d.params.map fun p => !p.optional && !p.variadic :=
    map_eq_of_forall₂ (fun p _ q _ hpq => by rw [hpq.2.2.1, hpq.2.2.2]) h
  have hcount := congrArg (List.countP id) hmarks
  rw [List.countP_map, List.countP_map] at hcount
  exact hcount

/-- The parameters that take the argument at one position are alike. -/
theorem Callable.rel_paramAt?_of_alike (i : Nat) :
    Option.Rel Param.Alike (c.paramAt? i) (d.paramAt? i) := by
  have hat := rel_getElem?_of_forall₂ h i
  have hlast := rel_getElem?_of_forall₂ h (c.params.length - 1)
  unfold Callable.paramAt?
  rw [List.getLast?_eq_getElem?, List.getLast?_eq_getElem?, ← h.length_eq]
  generalize c.params[i]? = p, d.params[i]? = q at hat
  generalize c.params[c.params.length - 1]? = p', d.params[c.params.length - 1]? = q' at hlast
  cases hat with
  | some hpq => exact .some hpq
  | none =>
    cases hlast with
    | none => exact .none
    | @some p q hpq =>
      rw [Option.none_or, Option.none_or, Option.filter_some, Option.filter_some, hpq.2.2.1]
      split
      · exact .some hpq
      · exact .none

end

/-! ### The rules -/

theorem Ty.Alike.mem_keyword {s t : Ty} (h : s.Alike t) {w : Keyword} (hw : .keyword w ∈ s.atoms) :
    .keyword w ∈ t.atoms := by
  obtain ⟨b, hb, hwb⟩ := h.exists_mem hw
  exact Atom.keyword_alike_iff.1 hwb ▸ hb

theorem Ty.Alike.admits {s t : Ty} (h : s.Alike t) {word : Keyword} (hs : s.admits word = true) :
    t.admits word = true := by
  obtain ⟨w, hw, hfit⟩ := Ty.admits_iff.1 hs
  exact Ty.admits_iff.2 ⟨w, h.mem_keyword hw, hfit⟩

private theorem objectFits_rewritten {h : Hierarchy} {o o' p p' : ObjectType}
    (ho : o.name = o'.name ∧ List.Forall₂ Atom.Alike o.facets o'.facets)
    (hp : p.name = p'.name ∧ List.Forall₂ Atom.Alike p.facets p'.facets) (hfit : o.fits h p = true) :
    o'.fits h p' = true := by
  obtain ⟨hname, hfacets⟩ := ObjectType.fits_iff.1 (ObjectType.fits_of_alike hp.1 hp.2 hfit)
  exact ObjectType.fits_iff.2 ⟨ObjectType.reaches_of_alike ho.1 ho.2 hname,
    fun a ha f hf => ObjectType.reaches_of_alike ho.1 ho.2 (hfacets a ha f hf)⟩

section

variable {h : Hierarchy} {sub : Ty → Ty → Bool}
  (hsub : ∀ {u u' v v' : Ty}, u.Rewritten u' → v.Rewritten v' → sub u v = true → sub u' v' = true)

include hsub

private theorem pairwise_rewritten {ts ts' us us' : List Ty} (ht : List.Forall₂ Ty.Rewritten ts ts')
    (hu : List.Forall₂ Ty.Rewritten us us') (hp : Ty.pairwise sub ts us = true) :
    Ty.pairwise sub ts' us' = true := by
  rw [Ty.pairwise_iff] at hp ⊢
  induction hp generalizing ts' us' with
  | nil =>
    cases ht
    cases hu
    exact .nil
  | cons hw _ ih =>
    cases ht with
    | cons htt' ht =>
      cases hu with
      | cons huu' hu => exact .cons (hsub htt' huu' hw) (ih ht hu)

private theorem recordFits_rewritten {r r' q q' : Record}
    (hr : (Atom.record r).Rewritten (.record r')) (hq : (Atom.record q).Rewritten (.record q'))
    (hfit : r.fits sub q = true) : r'.fits sub q' = true := by
  obtain ⟨_, e, hrf, hrs, -⟩ := Atom.record_alike_iff.1 hr.alike
  cases e
  obtain ⟨_, e, hqf, hqs, -⟩ := Atom.record_alike_iff.1 hq.alike
  cases e
  obtain ⟨hsealed, hfields, hkeys⟩ := Record.fits_iff.1 hfit
  refine Record.fits_iff.2 ⟨fun h => hrs ▸ hsealed (hqs ▸ h), fun g hg => ?_, fun h => ?_⟩
  · obtain ⟨f, hf, hkey, hmark, hfg⟩ := exists_mem_of_forall₂ hqf.flip hg
    have hget := Record.rel_get?_of_alike hrf f.1
    rw [← hkey, ← hmark]
    rcases hfields f hf with ⟨s, hs, ho, hsf⟩ | ⟨hnone, ho⟩
    · obtain ⟨s', hs', hmark', hss'⟩ := exists_mem_of_rel hget hs
      refine .inl ⟨s', hs', fun h => ho (hmark' ▸ h), hsub ?_ ?_ hsf⟩
      · exact hr.inside (Record.mem_types_of_get? hs) (Record.mem_types_of_get? hs') hss'
      · exact hq.inside (List.mem_map_of_mem hf) (List.mem_map_of_mem hg) hfg
    · exact .inr ⟨eq_none_of_rel hget hnone, ho⟩
  · rw [Record.keys, Record.keys, ← Record.map_fst_eq_of_alike hrf, ← Record.map_fst_eq_of_alike hqf]
    exact hkeys (hqs ▸ h)

private theorem fitsArray_rewritten {r r' : Record} {key key' value value' : Ty} {nonEmpty : Bool}
    (hr : (Atom.record r).Rewritten (.record r')) (hk : key.Rewritten key')
    (hv : value.Rewritten value') (hfit : r.fitsArray sub key value nonEmpty = true) :
    r'.fitsArray sub key' value' nonEmpty = true := by
  obtain ⟨_, e, hfields, hsealed, -⟩ := Atom.record_alike_iff.1 hr.alike
  cases e
  obtain ⟨hopen, hne, hinside⟩ := Record.fitsArray_eq_true_iff.1 hfit
  refine Record.fitsArray_eq_true_iff.2 ⟨?_, fun h => ?_, fun h => ?_⟩
  · rw [← hsealed]
    exact hopen.imp_right fun ⟨hkey, hvalue⟩ => ⟨hk.alike.admits hkey, hv.alike.admits hvalue⟩
  · obtain ⟨t, ht, ho⟩ := hne h
    obtain ⟨f, hf, rfl⟩ := List.mem_map.1 ht
    obtain ⟨g, hg, -, hmark, -⟩ := exists_mem_of_forall₂ hfields hf
    exact ⟨g.2, List.mem_map_of_mem hg, hmark ▸ ho⟩
  · obtain ⟨hkey, hvalue⟩ := hinside fun hnil => h (List.forall₂_nil_left_iff.1 (hnil ▸ hfields))
    refine ⟨hsub ⟨?_, r.isReduced_keyType, r'.isReduced_keyType⟩ hk hkey, hsub ⟨?_, ?_, ?_⟩ hv hvalue⟩
    · rw [Record.keyType_eq_of_alike hfields]
      exact r'.keyType.alike_refl
    · exact Record.valueType_alike hfields hr.left hr.right
    · exact Record.isReduced_valueType hr.left
    · exact Record.isReduced_valueType hr.right

private theorem fitsList_rewritten {r r' : Record} {value value' : Ty} {nonEmpty : Bool}
    (hr : (Atom.record r).Rewritten (.record r')) (hv : value.Rewritten value')
    (hfit : r.fitsList sub value nonEmpty = true) : r'.fitsList sub value' nonEmpty = true := by
  obtain ⟨_, e, hfields, hsealed, hlist⟩ := Atom.record_alike_iff.1 hr.alike
  cases e
  obtain ⟨hl, hs, hne, hall⟩ := Record.fitsList_iff.1 hfit
  refine Record.fitsList_iff.2 ⟨hlist ▸ hl, hsealed ▸ hs, fun h hnil => ?_, fun t ht => ?_⟩
  · exact hne h (List.forall₂_nil_right_iff.1 (hnil ▸ hfields))
  · obtain ⟨s, hs, hst⟩ := exists_mem_of_forall₂ (Record.types_alike hfields).flip ht
    exact hsub (hr.inside hs ht hst) hv (hall s hs)

private theorem callableFits_rewritten {c c' d d' : Callable}
    (hc : (Atom.callable c).Rewritten (.callable c'))
    (hd : (Atom.callable d).Rewritten (.callable d')) (hfit : c.fits sub d = true) :
    c'.fits sub d' = true := by
  obtain ⟨_, e, hcp, hcr, hcc, hcpure⟩ := Atom.callable_alike_iff.1 hc.alike
  cases e
  obtain ⟨_, e, hdp, hdr, hdc, hdpure⟩ := Atom.callable_alike_iff.1 hd.alike
  cases e
  obtain ⟨hclosure, hpure, hrequired, hparams, hresult⟩ := Callable.fits_iff.1 hfit
  refine Callable.fits_iff.2
    ⟨fun h => hcc ▸ hclosure (hdc ▸ h), fun h => hcpure ▸ hpure (hdpure ▸ h), ?_, ?_, ?_⟩
  · rw [← Callable.required_eq_of_alike hcp, ← hdp.length_eq]
    exact hrequired
  · intro i p' hp' s' hs' t' ht'
    obtain ⟨p, hp, hpp', -⟩ := exists_mem_left_of_rel (rel_getElem?_of_forall₂ hdp i) hp'
    obtain ⟨t, ht, htt'⟩ := exists_mem_left_of_rel hpp' ht'
    obtain ⟨q', hq', hqs'⟩ := Option.bind_eq_some_iff.1 hs'
    obtain ⟨q, hq, hqq', -⟩ := exists_mem_left_of_rel (Callable.rel_paramAt?_of_alike hcp i) hq'
    obtain ⟨s, hs, hss'⟩ := exists_mem_left_of_rel hqq' hqs'
    -- The parameters of the target come first here.
    refine hsub ?_ ?_ (hparams i p hp s (Option.bind_eq_some_iff.2 ⟨q, hq, hs⟩) t ht)
    · exact hd.inside (Callable.mem_types_of_param (List.mem_of_getElem? hp) ht)
        (Callable.mem_types_of_param (List.mem_of_getElem? hp') ht') htt'
    · exact hc.inside (Callable.mem_types_of_param (Callable.mem_of_paramAt? hq) hs)
        (Callable.mem_types_of_param (Callable.mem_of_paramAt? hq') hqs') hss'
  · intro t' ht'
    obtain ⟨t, ht, htt'⟩ := exists_mem_left_of_rel hdr ht'
    rcases hresult t ht with ⟨s, hs, hst⟩ | ⟨hnone, hmixed⟩
    · obtain ⟨s', hs', hss'⟩ := exists_mem_of_rel hcr hs
      refine .inl ⟨s', hs', hsub ?_ ?_ hst⟩
      · exact hc.inside (Callable.mem_types_of_result hs) (Callable.mem_types_of_result hs') hss'
      · exact hd.inside (Callable.mem_types_of_result ht) (Callable.mem_types_of_result ht') htt'
    · exact .inr ⟨eq_none_of_rel hcr hnone, htt'.mem_keyword hmixed⟩

/-- The rule for two atoms accepts every other way to write them. -/
private theorem rule_rewritten {a a' b b' : Atom} (ha : a.Rewritten a') (hb : b.Rewritten b')
    (hr : a.rule h sub b = true) : a'.rule h sub b' = true := by
  rw [Atom.rule_iff] at hr ⊢
  cases hr with
  | keyword hw =>
    rw [Atom.keyword_alike_iff.1 ha.alike, Atom.keyword_alike_iff.1 hb.alike]
    exact .keyword hw
  | literalKeyword hw =>
    rw [Atom.literal_alike_iff.1 ha.alike, Atom.keyword_alike_iff.1 hb.alike]
    exact .literalKeyword hw
  | literal hxy =>
    rw [Atom.literal_alike_iff.1 ha.alike, Atom.literal_alike_iff.1 hb.alike]
    exact .literal hxy
  | className hc =>
    rw [Atom.literal_alike_iff.1 ha.alike, Atom.classString_alike_iff.1 hb.alike]
    exact .className hc
  | classStringKeyword hw =>
    rw [Atom.classString_alike_iff.1 ha.alike, Atom.keyword_alike_iff.1 hb.alike]
    exact .classStringKeyword hw
  | classString hc =>
    rw [Atom.classString_alike_iff.1 ha.alike, Atom.classString_alike_iff.1 hb.alike]
    exact .classString hc
  | object ho hfits =>
    obtain ⟨o', ho', hoo'⟩ := ha.alike.exists_object ho
    obtain ⟨p', rfl, hp⟩ := Atom.object_alike_iff.1 hb.alike
    exact .object ho' (objectFits_rewritten hoo' hp hfits)
  | generic hfits =>
    obtain ⟨o', ts', rfl, ho, hts⟩ := ha.of_generic
    obtain ⟨p', us', rfl, hp, hus⟩ := hb.of_generic
    refine .generic ?_
    simp only [ObjectType.genericFits, Bool.and_eq_true, Bool.or_eq_true] at hfits ⊢
    rw [← ho.1, ← hp.1]
    exact ⟨objectFits_rewritten ho hp hfits.1, hfits.2.imp_right (pairwise_rewritten hsub hts hus)⟩
  | objectGeneric hfits hmixed =>
    obtain ⟨o', rfl, ho⟩ := Atom.object_alike_iff.1 ha.alike
    obtain ⟨p', us', rfl, hp, hus⟩ := hb.of_generic
    refine .objectGeneric (objectFits_rewritten ho hp hfits) fun u' hu' b' hb' => ?_
    obtain ⟨u, hu, huu'⟩ := exists_mem_of_forall₂ hus.flip hu'
    obtain ⟨b, hb, hbb'⟩ := huu'.alike.exists_mem_left hb'
    exact Atom.keyword_alike_iff.1 (hmixed u hu b hb ▸ hbb')
  | record hfits =>
    obtain ⟨r', rfl, -⟩ := Atom.record_alike_iff.1 ha.alike
    obtain ⟨q', rfl, -⟩ := Atom.record_alike_iff.1 hb.alike
    exact .record (recordFits_rewritten hsub ha hb hfits)
  | recordArray hfits =>
    obtain ⟨r', rfl, -⟩ := Atom.record_alike_iff.1 ha.alike
    obtain ⟨key', value', rfl, hkey, hvalue⟩ := hb.of_array
    exact .recordArray (fitsArray_rewritten hsub ha hkey hvalue hfits)
  | recordList hfits =>
    obtain ⟨r', rfl, -⟩ := Atom.record_alike_iff.1 ha.alike
    obtain ⟨value', rfl, hvalue⟩ := hb.of_list
    exact .recordList (fitsList_rewritten hsub ha hvalue hfits)
  | list hn hsubv =>
    obtain ⟨v', rfl, hv⟩ := ha.of_list
    obtain ⟨value', rfl, hvalue⟩ := hb.of_list
    exact .list hn (hsub hv hvalue hsubv)
  | listArray hn hk hsubv =>
    obtain ⟨v', rfl, hv⟩ := ha.of_list
    obtain ⟨key', value', rfl, hkey, hvalue⟩ := hb.of_array
    exact .listArray hn (hkey.alike.admits hk) (hsub hv hvalue hsubv)
  | array hn hsubk hsubv =>
    obtain ⟨k', v', rfl, hk, hv⟩ := ha.of_array
    obtain ⟨key', value', rfl, hkey, hvalue⟩ := hb.of_array
    exact .array hn (hsub hk hkey hsubk) (hsub hv hvalue hsubv)
  | callable hfits =>
    obtain ⟨c', rfl, -⟩ := Atom.callable_alike_iff.1 ha.alike
    obtain ⟨d', rfl, -⟩ := Atom.callable_alike_iff.1 hb.alike
    exact .callable (callableFits_rewritten hsub ha hb hfits)
  | template =>
    obtain ⟨bound', rfl, -⟩ := Atom.template_alike_iff.1 ha.alike
    obtain ⟨other', rfl, -⟩ := Atom.template_alike_iff.1 hb.alike
    exact .template

private theorem fits_rewritten {a a' b b' : Atom} (ha : a.Rewritten a') (hb : b.Rewritten b')
    (hfit : a.fits h sub b = true) : a'.fits h sub b' = true := by
  rw [Atom.fits_iff] at hfit ⊢
  refine hfit.imp ?_ (Or.imp ?_ (rule_rewritten hsub ha hb))
  · rintro rfl
    exact Atom.keyword_alike_iff.1 hb.alike
  · rintro rfl
    exact Atom.keyword_alike_iff.1 ha.alike

end

/-! ### The judgement -/

private theorem within_rewritten {h : Hierarchy} {depth : Nat} {s s' t t' : Ty} (hs : s.Rewritten s')
    (ht : t.Rewritten t') (hw : within h depth s t = true) : within h depth s' t' = true := by
  -- On the depth, for all ways to write all types: callables ask about
  -- the types in the other order.
  induction depth generalizing s s' t t' with
  | zero => cases hw
  | succ depth ih =>
    rw [within_succ_iff] at hw ⊢
    intro a' ha'
    obtain ⟨a, ha, haa'⟩ := hs.exists_mem_left ha'
    rcases hw a ha with ⟨b, hb, hab⟩ | ⟨bound, hbound, hwb⟩
    · obtain ⟨b', hb', hbb'⟩ := ht.exists_mem hb
      exact .inl ⟨b', hb', fits_rewritten ih haa' hbb' hab⟩
    · obtain ⟨bound', hbound', hbb'⟩ := haa'.of_bound? hbound
      exact .inr ⟨bound', hbound', ih hbb' ht hwb⟩

/-- How two types are written does not show in the judgement on them: the order of the atoms of
their unions, and marks of slots that belong to no field. -/
theorem Ty.Alike.isWithin_eq (h : Hierarchy) {s s' t t' : Ty} (hs : s.Alike s') (ht : t.Alike t')
    (hsr : s.IsReduced) (hsr' : s'.IsReduced) (htr : t.IsReduced) (htr' : t'.IsReduced) :
    s.isWithin h t = s'.isWithin h t' := by
  have hs : s.Rewritten s' := ⟨hs, hsr, hsr'⟩
  have ht : t.Rewritten t' := ⟨ht, htr, htr'⟩
  rw [Bool.eq_iff_iff]
  exact ⟨within_rewritten hs ht, within_rewritten hs.symm ht.symm⟩

private def words (ws : List Keyword) : Ty :=
  ⟨ws.map .keyword, false⟩

private theorem words_alike {vs ws : List Keyword} (h : vs.Perm ws) : (words vs).Alike (words ws) :=
  Ty.alike_of_perm (h.map _)

private theorem isReduced_words {ws : List Keyword} (h : ((words ws).atoms.map Atom.identity).Nodup) :
    (words ws).IsReduced := by
  refine Ty.isReduced_of h ?_ ?_ <;> intro a ha <;> obtain ⟨w, -, rfl⟩ := List.mem_map.1 ha
  · simp [Atom.facets]
  · simp [Atom.types]

private theorem isReduced_single {a : Atom} (hf : a.facets = []) (h : ∀ u ∈ a.types, u.IsReduced) :
    (Ty.single a).IsReduced := by
  refine Ty.isReduced_of (List.nodup_singleton _) ?_ ?_ <;> intro b hb <;>
    obtain rfl := List.mem_singleton.1 hb
  · simp [hf]
  · exact h

/-- A note with an identifier and, if it has one, a text. -/
private def note (id text : List Keyword) : Ty :=
  .single (.record ⟨[(.string "id", words id), (.string "text", (words text).asOptional)], true, false⟩)

private theorem isReduced_note {id text : List Keyword}
    (hid : ((words id).atoms.map Atom.identity).Nodup)
    (htext : ((words text).atoms.map Atom.identity).Nodup) : (note id text).IsReduced := by
  refine isReduced_single rfl fun u hu => ?_
  rcases List.mem_pair.1 hu with rfl | rfl
  · exact isReduced_words hid
  · exact isReduced_words htext

private def noteArray (value : List Keyword) : Ty :=
  .single (.array (words [.arrayKey]) (words value) true)

private theorem isReduced_noteArray {value : List Keyword}
    (h : ((words value).atoms.map Atom.identity).Nodup) : (noteArray value).IsReduced := by
  refine isReduced_single rfl fun u hu => ?_
  rcases List.mem_pair.1 hu with rfl | rfl
  · exact isReduced_words (by decide +kernel)
  · exact isReduced_words h

/-- A note lies within an array, however the two are written. -/
theorem Ty.Alike.isWithin_eq_note :
    (note [.int, .string] [.string, .null]).isWithin Hierarchy.flat (noteArray [.int, .string, .null]) =
      (note [.string, .int] [.null, .string]).asOptional.isWithin Hierarchy.flat
        (noteArray [.null, .int, .string]) := by
  have hid : (words [.int, .string]).Alike (words [.string, .int]) := words_alike (by decide)
  have htext : (words [.string, .null]).Alike (words [.null, .string]) := words_alike (by decide)
  have hvalue : (words [.int, .string, .null]).Alike (words [.null, .int, .string]) :=
    words_alike (by decide)
  have hnote : (note [.int, .string] [.string, .null]).Alike
      (note [.string, .int] [.null, .string]).asOptional := by
    refine Ty.alike_iff.2 ⟨(note [.string, .int] [.null, .string]).atoms, .cons ?_ .nil, .refl _⟩
    exact Atom.record_alike_iff.2
      ⟨_, rfl, .cons ⟨rfl, rfl, hid⟩ (.cons ⟨rfl, rfl, htext⟩ .nil), rfl, rfl⟩
  have harray : (noteArray [.int, .string, .null]).Alike (noteArray [.null, .int, .string]) :=
    Ty.alike_iff.2 ⟨_,
      .cons (Atom.array_alike_iff.2 ⟨_, _, rfl, Ty.alike_refl _, hvalue⟩) .nil, .refl _⟩
  have hreduced : (note [.string, .int] [.null, .string]).IsReduced :=
    isReduced_note (by decide +kernel) (by decide +kernel)
  exact Ty.Alike.isWithin_eq _ hnote harray
    (isReduced_note (by decide +kernel) (by decide +kernel)) hreduced
    (isReduced_noteArray (by decide +kernel)) (isReduced_noteArray (by decide +kernel))

end TypeProbe
