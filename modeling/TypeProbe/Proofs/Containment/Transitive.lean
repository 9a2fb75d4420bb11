import TypeProbe.Proofs.Classes.Ancestors
import TypeProbe.Proofs.Containment.Data

/-!
# Containment of data types is transitive

The judgement on scalars, class strings, objects, lists, arrays and regular records can be composed,
whatever the depth at which it stops.  In the composition the middle type appears twice, and the two
need not be the same: the atoms of the first have counterparts in the second that are alike.  That
is what a record leaves when the types of its fields become the type of its values.
-/

namespace TypeProbe

variable {h : Hierarchy}

/-! ### Scalars -/

theorem Keyword.fits_trans {u v w : Keyword} (huv : u.fits v = true) (hvw : v.fits w = true) :
    u.fits w = true := by
  cases u <;> cases v <;> simp [Keyword.fits] at huv <;> cases w <;> simp [Keyword.fits] at hvw ⊢

theorem Literal.fits_trans {x : Literal} {v w : Keyword} (hxv : x.fits v = true)
    (hvw : v.fits w = true) : x.fits w = true := by
  cases x with
  | className name => exact Keyword.fits_trans hxv hvw
  | _ => cases v <;> simp [Literal.fits] at hxv <;> cases w <;> simp_all [Keyword.fits, Literal.fits]

/-- Literals of one value lie within the same keywords. -/
theorem Literal.fits_of_agrees {x y : Literal} {w : Keyword} (hxy : x.agrees y = true)
    (hyw : y.fits w = true) : x.fits w = true := by
  cases x <;> cases y <;> simp [Literal.agrees] at hxy
  case string.string s t => exact hxy ▸ hyw
  case int.int i j => exact hxy ▸ hyw
  case float.float => cases w <;> simp [Literal.fits] at hyw ⊢
  case className.className => exact hyw

theorem Binary64.eq_trans {x y z : Binary64} (hxy : x.eq y = true) (hyz : y.eq z = true) :
    x.eq z = true := by
  simp only [Binary64.eq, Bool.and_eq_true, Bool.or_eq_true, beq_iff_eq] at hxy hyz ⊢
  obtain ⟨⟨hx, hy⟩, hbits | hzero⟩ := hxy
  · obtain rfl : x = y := by cases x; cases y; exact congrArg _ hbits
    exact hyz
  · obtain ⟨⟨-, hz⟩, hbits | hzero'⟩ := hyz
    · obtain rfl : y = z := by cases y; cases z; exact congrArg _ hbits
      exact ⟨⟨hx, hz⟩, .inr hzero⟩
    · exact ⟨⟨hx, hz⟩, .inr ⟨hzero.1, hzero'.2⟩⟩

theorem Literal.agrees_trans {x y z : Literal} (hxy : x.agrees y = true) (hyz : y.agrees z = true) :
    x.agrees z = true := by
  cases x <;> cases y <;> simp [Literal.agrees] at hxy <;> cases z <;> simp [Literal.agrees] at hyz ⊢
  case string.string.string => exact hxy.trans hyz
  case int.int.int => exact hxy.trans hyz
  case float.float.float => exact Binary64.eq_trans hxy hyz
  case className.className.className =>
    exact Ascii.same_iff.2 ((Ascii.same_iff.1 hxy).trans (Ascii.same_iff.1 hyz))

/-! ### Objects -/

/-- What an object fits, it reaches all that the other reaches. -/
theorem ObjectType.reaches_trans (hh : h.IsPreorder) {o p : ObjectType} {target : String}
    (hop : o.fits h p = true) (hp : p.reaches h target = true) : o.reaches h target = true := by
  have step : ∀ name, o.reaches h name = true → h name target = true → o.reaches h target = true := by
    intro name ho hname
    rcases reaches_iff.1 ho with hself | ⟨a, ha, f, hf, hfacet⟩
    · exact reaches_iff.2 (.inl (hh.trans hself hname))
    · exact reaches_iff.2 (.inr ⟨a, ha, f, hf, hh.trans hfacet hname⟩)
  obtain ⟨hname, hfacets⟩ := fits_iff.1 hop
  rcases reaches_iff.1 hp with hself | ⟨a, ha, f, hf, hfacet⟩
  · exact step _ hname hself
  · exact step _ (hfacets a ha f hf) hfacet

theorem ObjectType.fits_trans (hh : h.IsPreorder) {o p q : ObjectType} (hop : o.fits h p = true)
    (hpq : p.fits h q = true) : o.fits h q = true := by
  obtain ⟨hname, hfacets⟩ := fits_iff.1 hpq
  exact fits_iff.2
    ⟨reaches_trans hh hop hname, fun a ha f hf => reaches_trans hh hop (hfacets a ha f hf)⟩

/-! ### Unions that are made of others -/

/-- A type whose atoms all stem from types within the target lies within it too. -/
theorem within_of_forall_atom {depth : Nat} {s target : Ty} (hd : 0 < depth)
    (hs : ∀ a ∈ s.atoms, ∃ t : Ty, a ∈ t.atoms ∧ within h depth t target = true) :
    within h depth s target = true := by
  obtain ⟨n, rfl⟩ : ∃ n, depth = n + 1 := ⟨depth - 1, by omega⟩
  rw [within_succ_iff]
  intro a ha
  obtain ⟨t, hat, ht⟩ := hs a ha
  exact within_succ_iff.1 ht a hat

/-- The values of a record lie within a type if each field does. -/
theorem Record.within_valueType {depth : Nat} {r : Record} {target : Ty}
    (hn : ∃ t ∈ r.types, t.atoms ≠ []) (hr : ∀ t ∈ r.types, within h depth t target = true) :
    within h depth r.valueType target = true := by
  obtain ⟨u, hu, hun⟩ := hn
  refine within_of_forall_atom (pos_of_within (hr u hu)) fun a ha => ?_
  rcases mem_valueType ha with ⟨t, ht, hat⟩ | ⟨hnil, -⟩
  · exact ⟨t, hat, hr t ht⟩
  · exact absurd (hnil u hu) hun

theorem Record.within_keyType_of_subset {depth : Nat} {r q : Record} {target : Ty} (hn : r.fields ≠ [])
    (hk : ∀ k ∈ r.keys, k ∈ q.keys) (hq : within h depth q.keyType target = true) :
    within h depth r.keyType target = true := by
  refine within_of_forall_atom (pos_of_within hq) fun a ha => ⟨q.keyType, ?_, hq⟩
  rcases mem_keyType ha with ⟨k, hkr, rfl⟩ | ⟨hnil, -⟩
  · exact literal_mem_keyType (hk k hkr)
  · exact absurd hnil hn

/-- Indices lie within every type that admits `int`. -/
theorem Record.within_keyType_of_admits {depth : Nat} (hd : 0 < depth) {r : Record} {key : Ty}
    (hadm : key.admits .int = true) (hn : r.fields ≠ []) (hk : ∀ k ∈ r.keys, ∃ i, k = .int i) :
    within h depth r.keyType key = true := by
  obtain ⟨n, rfl⟩ : ∃ n, depth = n + 1 := ⟨depth - 1, by omega⟩
  obtain ⟨w, hw, hfit⟩ := Ty.admits_iff.1 hadm
  rw [within_succ_iff]
  intro a ha
  refine .inl ⟨.keyword w, hw, Atom.fits_iff.2 ?_⟩
  rcases mem_keyType ha with ⟨k, hkr, rfl⟩ | ⟨hnil, -⟩
  · obtain ⟨i, rfl⟩ := hk k hkr
    rcases hfit with rfl | hfit
    · exact .inl rfl
    · exact .inr (.inr (Literal.fits_trans (x := .int i) (v := .int) rfl hfit))
  · exact absurd hnil hn

/-! ### Records -/

section

variable {sub : Ty → Ty → Bool} {r p q : Record}

/-- A field of a record that fits `p` has its counterpart in every record that is alike to `p`. -/
private theorem Record.IsRegular.get?_of_fits_alike (hp : p.IsRegular) (hrp : r.fits sub p = true)
    (hpq : List.Forall₂ Record.AlikeField p.fields q.fields) {k : Key} {s : Ty}
    (hs : Keyed.get? k r.fields = some s) :
    ∃ t ∈ p.types, ∃ u, Keyed.get? k q.fields = some u ∧ t.Alike u ∧
      (s.optional = true → u.optional = true) ∧ sub s t = true := by
  obtain ⟨t, ht, ho, hsub⟩ := hp.get?_of_fits hrp hs
  have hrel := Record.rel_get?_of_alike hpq k
  rw [ht] at hrel
  cases hu : Keyed.get? k q.fields with
  | none => rw [hu] at hrel; cases hrel
  | some u =>
    rw [hu] at hrel
    cases hrel with
    | some htu => exact ⟨t, Record.mem_types_of_get? ht, u, rfl, htu.2, fun h => htu.1 ▸ ho h, hsub⟩

private theorem Record.exists_required_of_fits_alike (hrp : r.fits sub p = true)
    (hpq : List.Forall₂ Record.AlikeField p.fields q.fields) {f : Key × Ty} (hf : f ∈ q.fields)
    (ho : f.2.optional = false) : ∃ s, Keyed.get? f.1 r.fields = some s ∧ s.optional = false := by
  obtain ⟨g, hg, hk, hmark, -⟩ := exists_mem_of_forall₂ hpq.flip hf
  obtain ⟨s, hs, hso⟩ := Record.exists_required_of_fits hrp hg (hmark.trans ho)
  exact ⟨s, hk ▸ hs, hso⟩

end

/-- The judgement at this depth can be composed, and the type in the
middle may be covered by another. -/
private def Composes (h : Hierarchy) (depth : Nat) : Prop :=
  ∀ s t u v : Ty, s.BuiltFrom Atom.IsNominal → t.BuiltFrom Atom.IsNominal → u.BuiltFrom Atom.IsNominal →
    v.BuiltFrom Atom.IsNominal → u.CoversFields → within h depth s t = true → t.CoveredBy u →
    within h depth u v = true → within h depth s v = true

section

variable {depth : Nat} {r p q : Record}

private theorem built_types {a : Atom} (h : a.BuiltFrom Atom.IsNominal) :
    ∀ t ∈ a.types, t.BuiltFrom Atom.IsNominal :=
  h.types fun _ => id

private theorem regular {r : Record} (h : (Atom.record r).BuiltFrom Atom.IsNominal) : r.IsRegular :=
  h.isRegular fun _ => id

/-- Record in record in record. -/
private theorem Record.fits_trans (ih : Composes h depth) {target : Record}
    (hr : (Atom.record r).BuiltFrom Atom.IsNominal) (hp : (Atom.record p).BuiltFrom Atom.IsNominal)
    (hq : (Atom.record q).BuiltFrom Atom.IsNominal)
    (ht : (Atom.record target).BuiltFrom Atom.IsNominal) (hc : ∀ t ∈ q.types, t.CoversFields)
    (hrp : r.fits (within h depth) p = true)
    (hpq : List.Forall₂ Record.AlikeField p.fields q.fields)
    (hqt : q.fits (within h depth) target = true) : r.fits (within h depth) target = true := by
  have chain : ∀ k s, Keyed.get? k r.fields = some s →
      ∃ v, Keyed.get? k target.fields = some v ∧ (s.optional = true → v.optional = true) ∧
        within h depth s v = true := by
    intro k s hs
    obtain ⟨t, htp, u, hu, htu, hsu, hst⟩ := (regular hp).get?_of_fits_alike hrp hpq hs
    obtain ⟨v, hv, huv, hsub⟩ := (regular ht).get?_of_fits hqt hu
    refine ⟨v, hv, fun h => huv (hsu h), ?_⟩
    exact ih s t u v (built_types hr s (mem_types_of_get? hs)) (built_types hp t htp)
      (built_types hq u (mem_types_of_get? hu)) (built_types ht v (mem_types_of_get? hv))
      (hc u (mem_types_of_get? hu)) hst htu.coveredBy hsub
  refine fits_iff.2 ⟨fun _ => (regular hr).isSealed, fun f hf => ?_, fun _ k hk => ?_⟩
  · have hget := Keyed.get?_of_mem (regular ht).nodup hf
    cases hs : Keyed.get? f.1 r.fields with
    | some s =>
      obtain ⟨v, hv, ho, hsv⟩ := chain _ s hs
      obtain rfl : v = f.2 := Option.some.inj (hv.symm.trans hget)
      exact .inl ⟨s, rfl, ho, hsv⟩
    | none =>
      refine .inr ⟨rfl, by_contra fun hreq => ?_⟩
      obtain ⟨u, hu, huo⟩ := exists_required_of_fits hqt hf (by simpa using hreq)
      obtain ⟨s, hs', -⟩ := exists_required_of_fits_alike hrp hpq (Keyed.mem_of_get? hu) huo
      rw [hs] at hs'
      cases hs'
  · obtain ⟨s, hs⟩ := exists_get? hk
    obtain ⟨v, hv, -⟩ := chain k s hs
    exact mem_keys_of_get? hv

/-- Record in record in list. -/
private theorem Record.fitsList_trans (ih : Composes h depth) {value : Ty} {nonEmpty : Bool}
    (hr : (Atom.record r).BuiltFrom Atom.IsNominal) (hp : (Atom.record p).BuiltFrom Atom.IsNominal)
    (hq : (Atom.record q).BuiltFrom Atom.IsNominal) (hv : value.BuiltFrom Atom.IsNominal)
    (hc : ∀ t ∈ q.types, t.CoversFields) (hrp : r.fits (within h depth) p = true)
    (hpq : List.Forall₂ Record.AlikeField p.fields q.fields) (hl : p.isList = q.isList)
    (hqv : q.fitsList (within h depth) value nonEmpty = true) :
    r.fitsList (within h depth) value nonEmpty = true := by
  obtain ⟨hlist, -, hne, hsub⟩ := fitsList_iff.1 hqv
  obtain ⟨hrl, hlen⟩ := (regular hr).isList_of_fits (regular hp) hrp (hl.trans hlist)
  refine fitsList_iff.2 ⟨hrl, (regular hr).isSealed, fun h hnil => hne h ?_, fun s hs => ?_⟩
  · rw [← List.length_eq_zero_iff, ← hpq.length_eq, ← hlen, hnil]
    rfl
  · obtain ⟨f, hf, rfl⟩ := List.mem_map.1 hs
    have hget := Keyed.get?_of_mem (regular hr).nodup hf
    obtain ⟨t, ht, u, hu, htu, -, hst⟩ := (regular hp).get?_of_fits_alike hrp hpq hget
    have hmem := mem_types_of_get? hu
    exact ih _ t u value (built_types hr _ hs) (built_types hp t ht) (built_types hq u hmem) hv
      (hc u hmem) hst
      htu.coveredBy (hsub u hmem)

/-- Record in record in array.  The type of the values of `q` need not have the atoms of its
fields, but it covers them. -/
private theorem Record.fitsArray_trans (ih : Composes h depth) {key value : Ty} {nonEmpty : Bool}
    (hr : (Atom.record r).BuiltFrom Atom.IsNominal) (hp : (Atom.record p).BuiltFrom Atom.IsNominal)
    (hq : (Atom.record q).BuiltFrom Atom.IsNominal) (hv : value.BuiltFrom Atom.IsNominal)
    (hcov : ∀ t ∈ q.types, t.CoveredBy q.valueType) (hc : q.valueType.CoversFields)
    (hrp : r.fits (within h depth) p = true) (hpq : List.Forall₂ Record.AlikeField p.fields q.fields)
    (hqa : q.fitsArray (within h depth) key value nonEmpty = true) :
    r.fitsArray (within h depth) key value nonEmpty = true := by
  obtain ⟨hne, hsub⟩ := (fitsArray_iff (regular hq).isSealed).1 hqa
  have chain : ∀ k s, Keyed.get? k r.fields = some s →
      k ∈ q.keys ∧ ∃ t ∈ p.types, within h depth s t = true ∧ t.CoveredBy q.valueType := by
    intro k s hs
    obtain ⟨t, ht, u, hu, htu, -, hst⟩ := (regular hp).get?_of_fits_alike hrp hpq hs
    exact ⟨mem_keys_of_get? hu, t, ht, hst, htu.coveredBy.trans (hcov u (mem_types_of_get? hu))⟩
  refine (fitsArray_iff (regular hr).isSealed).2 ⟨fun h => ?_, fun hrn => ?_⟩
  · obtain ⟨t, ht, ho⟩ := hne h
    obtain ⟨f, hf, rfl⟩ := List.mem_map.1 ht
    obtain ⟨s, hs, hso⟩ := exists_required_of_fits_alike hrp hpq hf ho
    exact ⟨s, mem_types_of_get? hs, hso⟩
  · have hget : ∀ f ∈ r.fields, Keyed.get? f.1 r.fields = some f.2 :=
      fun f hf => Keyed.get?_of_mem (regular hr).nodup hf
    have hkeys : ∀ k ∈ r.keys, k ∈ q.keys := by
      intro k hk
      obtain ⟨s, hs⟩ := exists_get? hk
      exact (chain k s hs).1
    obtain ⟨f, hf⟩ := List.exists_mem_of_ne_nil _ hrn
    obtain ⟨hkey, hvalue⟩ := hsub fun hnil => by
      have := hkeys f.1 (List.mem_map_of_mem hf)
      simp [keys, hnil] at this
    refine ⟨within_keyType_of_subset hrn hkeys hkey,
      within_valueType ⟨f.2, List.mem_map_of_mem hf, ?_⟩ ?_⟩
    · exact (built_types hr f.2 (List.mem_map_of_mem hf)).ne_nil
    · intro s hs
      obtain ⟨g, hg, rfl⟩ := List.mem_map.1 hs
      obtain ⟨-, t, ht, hst, htq⟩ := chain _ _ (hget g hg)
      have bq : q.valueType.BuiltFrom Atom.IsNominal :=
        .valueType (fun _ => Atom.IsScalar.isNominal) (built_types hq)
      exact ih _ t _ value (built_types hr _ hs) (built_types hp t ht) bq hv hc hst htq hvalue

/-- Record in list in array. -/
private theorem Record.fitsArray_of_fitsList {value : Ty} {nonEmpty : Bool} {key target : Ty}
    {nonEmpty' : Bool} (hr : (Atom.record r).BuiltFrom Atom.IsNominal)
    (hrl : r.fitsList (within h depth) value nonEmpty = true)
    (hn : nonEmpty' = true → nonEmpty = true) (hadm : key.admits .int = true)
    (hsub : ∀ s ∈ r.types, within h depth s value = true → within h depth s target = true) :
    r.fitsArray (within h depth) key target nonEmpty' = true := by
  obtain ⟨hlist, -, hne, hall⟩ := fitsList_iff.1 hrl
  obtain ⟨hkeys, hreq⟩ := (regular hr).isList_iff.1 hlist
  refine (fitsArray_iff (regular hr).isSealed).2 ⟨fun h => ?_, fun hrn => ?_⟩
  · obtain ⟨f, hf⟩ := List.exists_mem_of_ne_nil _ (hne (hn h))
    exact ⟨f.2, List.mem_map_of_mem hf, hreq _ (List.mem_map_of_mem hf)⟩
  · obtain ⟨f, hf⟩ := List.exists_mem_of_ne_nil _ hrn
    have hmem : f.2 ∈ r.types := List.mem_map_of_mem hf
    refine ⟨within_keyType_of_admits (pos_of_within (hall _ hmem)) hadm hrn fun k hk => ?_, ?_⟩
    · obtain ⟨i, -, hi⟩ := (hkeys k).1 hk
      exact ⟨i, hi⟩
    · exact within_valueType ⟨f.2, hmem, (built_types hr _ hmem).ne_nil⟩ fun s hs =>
        hsub s hs (hall s hs)

/-- Record in array in array. -/
private theorem Record.fitsArray_mono {key value target targetValue : Ty}
    {nonEmpty nonEmpty' : Bool} (hr : (Atom.record r).BuiltFrom Atom.IsNominal)
    (hn : nonEmpty' = true → nonEmpty = true)
    (hkey : ∀ s : Ty, s.BuiltFrom Atom.IsNominal → within h depth s key = true →
      within h depth s target = true)
    (hvalue : ∀ s : Ty, s.BuiltFrom Atom.IsNominal → within h depth s value = true →
      within h depth s targetValue = true)
    (hra : r.fitsArray (within h depth) key value nonEmpty = true) :
    r.fitsArray (within h depth) target targetValue nonEmpty' = true := by
  obtain ⟨hne, hsub⟩ := (fitsArray_iff (regular hr).isSealed).1 hra
  refine (fitsArray_iff (regular hr).isSealed).2 ⟨fun h => hne (hn h), fun hrn => ?_⟩
  obtain ⟨hk, hv⟩ := hsub hrn
  have bk : r.keyType.BuiltFrom Atom.IsNominal := .keyType (fun _ => Atom.IsScalar.isNominal) r
  have bv : r.valueType.BuiltFrom Atom.IsNominal :=
    .valueType (fun _ => Atom.IsScalar.isNominal) (built_types hr)
  exact ⟨hkey _ bk hk, hvalue _ bv hv⟩

/-- What admits `int` lies only within types that admit it. -/
private theorem admits_of_within {word : Keyword} {s t u : Ty} (ht : t.BuiltFrom Atom.IsNominal)
    (hs : s.admits word = true) (hst : s.CoveredBy t) (htu : within h depth t u = true) :
    u.admits word = true := by
  obtain ⟨n, rfl⟩ : ∃ n, depth = n + 1 := ⟨depth - 1, by have := pos_of_within htu; omega⟩
  obtain ⟨w, hw, hword⟩ := Ty.admits_iff.1 hs
  obtain ⟨b, hb, hwb⟩ := hst _ hw
  obtain rfl := Atom.keyword_alike_iff.1 hwb
  obtain ⟨c, hc, hfit⟩ := (ht.within_iff fun _ => id).1 htu _ hb
  rcases Atom.fits_iff.1 hfit with rfl | hnever | hrule
  · exact Ty.admits_iff.2 ⟨.mixed, hc, .inl rfl⟩
  · obtain rfl : w = .never := by simpa using hnever
    rcases hword with hmixed | hword
    · cases hmixed
    · cases word <;> simp [Keyword.fits] at hword
  · cases c with
    | keyword w' =>
      rcases hword with rfl | hword
      · simp [Atom.rule, Keyword.fits] at hrule
      · exact Ty.admits_iff.2 ⟨w', hc, .inr (Keyword.fits_trans hword hrule)⟩
    | _ => simp [Atom.rule] at hrule

/-! ### Atoms -/

/-- Class literals, class strings and objects: the rules that ask the hierarchy. -/
private theorem rule_trans_of_className (hh : h.IsPreorder) {sub : Ty → Ty → Bool} {a b c : Atom}
    (hb : (∃ name, b = .literal (.className name)) ∨ (∃ bound, b = .classString bound))
    (hab : a.rule h sub b = true) (hbc : b.rule h sub c = true) : a.rule h sub c = true := by
  rcases hb with ⟨name, rfl⟩ | ⟨bound, rfl⟩
  · cases a with
    | literal x =>
      cases x with
      | className other =>
        have hagrees : (Literal.className other).agrees (.className name) = true := hab
        have hsame : Ascii.same other name = true := hagrees
        cases c with
        | keyword w => exact hbc
        | literal y => exact Literal.agrees_trans hagrees (by simpa [Atom.rule] using hbc)
        | classString bound =>
          cases bound with
          | none => rfl
          | some b => exact hh.trans (hh.of_same hsame) hbc
        | _ => simp [Atom.rule] at hbc
      | _ => simp [Atom.rule, Literal.agrees] at hab
    | _ => simp [Atom.rule] at hab
  · cases c with
    | keyword w =>
      cases a with
      | literal x =>
        cases x with
        | className name => exact hbc
        | _ => simp [Atom.rule] at hab
      | classString other => exact hbc
      | _ => simp [Atom.rule] at hab
    | classString upper =>
      cases upper with
      | none =>
        cases a with
        | literal x =>
          cases x with
          | className name => rfl
          | _ => simp [Atom.rule] at hab
        | classString other => cases other <;> rfl
        | _ => simp [Atom.rule] at hab
      | some d =>
        cases bound with
        | none => simp [Atom.rule] at hbc
        | some b =>
          cases a with
          | literal x =>
            cases x with
            | className name => exact hh.trans hab hbc
            | _ => simp [Atom.rule] at hab
          | classString other =>
            cases other with
            | none => simp [Atom.rule] at hab
            | some e => exact hh.trans hab hbc
          | _ => simp [Atom.rule] at hab
    | _ => simp [Atom.rule] at hbc

/-- The rules for atoms can be composed if the judgement on the types inside can be. -/
private theorem rule_trans (hh : h.IsPreorder) (ih : Composes h depth) {a b c d : Atom}
    (ha : a.BuiltFrom Atom.IsNominal) (hb : b.BuiltFrom Atom.IsNominal)
    (hc : c.BuiltFrom Atom.IsNominal) (hd : d.BuiltFrom Atom.IsNominal)
    (hcov : ∀ r, c = .record r → ∀ t ∈ r.types, t.CoveredBy r.valueType)
    (hin : ∀ t ∈ c.types, t.CoversFields) (hval : ∀ r, c = .record r → r.valueType.CoversFields)
    (hab : a.rule h (within h depth) b = true) (hbc : b.Alike c)
    (hcd : c.rule h (within h depth) d = true) : a.rule h (within h depth) d = true := by
  have implies : ∀ x y : Bool, (x || !y) = true → y = true → x = true := by decide
  have implied : ∀ x y : Bool, (y = true → x = true) → (x || !y) = true := by decide
  have inside : ∀ s : Ty, s.BuiltFrom Atom.IsNominal →
      ∀ t ∈ b.types, ∀ u ∈ c.types, ∀ v ∈ d.types, t.Alike u →
      within h depth u v = true → within h depth s t = true → within h depth s v = true :=
    fun s hs t ht u hu v hv htu huv hst => ih s t u v hs (built_types hb t ht) (built_types hc u hu)
      (built_types hd v hv) (hin u hu) hst htu.coveredBy huv
  have types := built_types ha
  -- The form of the middle atom leaves few rules on either side of it.
  cases b with
  | keyword v =>
    obtain rfl := Atom.keyword_alike_iff.1 hbc
    cases d with
    | keyword w =>
      cases a with
      | keyword u => exact Keyword.fits_trans hab hcd
      | literal x => exact Literal.fits_trans (x := x) (by simpa [Atom.rule] using hab) hcd
      | classString bound => exact Keyword.fits_trans hab hcd
      | _ => simp [Atom.rule] at hab
    | _ => simp [Atom.rule] at hcd
  | literal x =>
    obtain rfl := Atom.literal_alike_iff.1 hbc
    by_cases hname : ∃ name, x = .className name
    · obtain ⟨name, rfl⟩ := hname
      exact rule_trans_of_className hh (.inl ⟨name, rfl⟩) hab hcd
    · cases a with
      | literal y =>
        have hyx : y.agrees x = true := by simpa [Atom.rule] using hab
        cases d with
        | keyword w =>
          have hfit : y.fits w = true := Literal.fits_of_agrees hyx (by simpa [Atom.rule] using hcd)
          simpa [Atom.rule] using hfit
        | literal z =>
          have hagrees : y.agrees z = true := Literal.agrees_trans hyx (by simpa [Atom.rule] using hcd)
          simpa [Atom.rule] using hagrees
        | classString bound =>
          cases x with
          | className name => exact absurd ⟨name, rfl⟩ hname
          | _ => simp [Atom.rule] at hcd
        | _ => simp [Atom.rule] at hcd
      | _ => simp [Atom.rule] at hab
  | classString bound =>
    obtain rfl := Atom.classString_alike_iff.1 hbc
    exact rule_trans_of_className hh (.inr ⟨bound, rfl⟩) hab hcd
  | object o =>
    obtain ⟨p, rfl, hn, hf⟩ := Atom.object_alike_iff.1 hbc
    cases a with
    | object o' =>
      cases d with
      | object q => exact ObjectType.fits_trans hh (ObjectType.fits_of_alike hn hf hab) hcd
      | generic q params => cases hd with | leaf hd => exact hd.elim
      | _ => simp [Atom.rule] at hcd
    | generic o' params => cases ha with | leaf ha => exact ha.elim
    | _ => simp [Atom.rule] at hab
  | record p =>
    obtain ⟨q, rfl, hf, -, hl⟩ := Atom.record_alike_iff.1 hbc
    cases a with
    | record r =>
      cases d with
      | record target => exact Record.fits_trans ih ha hb hc hd hin hab hf hcd
      | array key value nonEmpty =>
        have hv := built_types hd value (by simp [Atom.types])
        exact Record.fitsArray_trans ih ha hb hc hv (hcov q rfl) (hval q rfl) hab hf hcd
      | list value nonEmpty =>
        exact Record.fitsList_trans ih ha hb hc (built_types hd value (by simp [Atom.types])) hin
          hab hf hl hcd
      | _ => simp [Atom.rule] at hcd
    | _ => simp [Atom.rule] at hab
  | array key value nonEmpty =>
    obtain ⟨key', value', rfl, hk, hv⟩ := Atom.array_alike_iff.1 hbc
    cases d with
    | array target target' nonEmpty' =>
      simp only [Atom.rule, Bool.and_eq_true] at hcd
      have hne : nonEmpty' = true → nonEmpty = true := implies _ _ hcd.1.1
      have hkey := fun s hs => inside s hs key (by simp [Atom.types]) key' (by simp [Atom.types]) target
        (by simp [Atom.types]) hk hcd.1.2
      have hvalue := fun s hs =>
        inside s hs value (by simp [Atom.types]) value' (by simp [Atom.types]) target'
        (by simp [Atom.types]) hv hcd.2
      cases a with
      | array k v n =>
        simp only [Atom.rule, Bool.and_eq_true] at hab ⊢
        have hkt := hkey k (types k (by simp [Atom.types])) hab.1.2
        have hvt := hvalue v (types v (by simp [Atom.types])) hab.2
        exact ⟨⟨implied _ _ fun h => implies _ _ hab.1.1 (hne h), hkt⟩, hvt⟩
      | list v n =>
        simp only [Atom.rule, Bool.and_eq_true] at hab ⊢
        have hadm := admits_of_within (built_types hc key' (by simp [Atom.types])) hab.1.2
          hk.coveredBy hcd.1.2
        have hvt := hvalue v (types v (by simp [Atom.types])) hab.2
        exact ⟨⟨implied _ _ fun h => implies _ _ hab.1.1 (hne h), hadm⟩, hvt⟩
      | record r => exact Record.fitsArray_mono ha hne hkey hvalue hab
      | _ => simp [Atom.rule] at hab
    | _ => simp [Atom.rule] at hcd
  | list value nonEmpty =>
    obtain ⟨value', rfl, hv⟩ := Atom.list_alike_iff.1 hbc
    cases d with
    | list target nonEmpty' =>
      simp only [Atom.rule, Bool.and_eq_true] at hcd
      have hne : nonEmpty' = true → nonEmpty = true := implies _ _ hcd.1
      have hvalue := fun s hs =>
        inside s hs value (by simp [Atom.types]) value' (by simp [Atom.types]) target
        (by simp [Atom.types]) hv hcd.2
      cases a with
      | list v n =>
        simp only [Atom.rule, Bool.and_eq_true] at hab ⊢
        exact ⟨implied _ _ fun h => implies _ _ hab.1 (hne h),
          hvalue v (types v (by simp [Atom.types])) hab.2⟩
      | record r =>
        obtain ⟨hl, hs, hn, hsub⟩ := Record.fitsList_iff.1 hab
        exact Record.fitsList_iff.2
          ⟨hl, hs, fun h => hn (hne h), fun s hs => hvalue s (types s hs) (hsub s hs)⟩
      | _ => simp [Atom.rule] at hab
    | array target target' nonEmpty' =>
      simp only [Atom.rule, Bool.and_eq_true] at hcd
      have hne : nonEmpty' = true → nonEmpty = true := implies _ _ hcd.1.1
      have hvalue := fun s hs =>
        inside s hs value (by simp [Atom.types]) value' (by simp [Atom.types]) target'
        (by simp [Atom.types]) hv hcd.2
      cases a with
      | list v n =>
        simp only [Atom.rule, Bool.and_eq_true] at hab ⊢
        have hvt := hvalue v (types v (by simp [Atom.types])) hab.2
        exact ⟨⟨implied _ _ fun h => implies _ _ hab.1 (hne h), hcd.1.2⟩, hvt⟩
      | record r =>
        exact Record.fitsArray_of_fitsList ha hab hne hcd.1.2 fun s hs => hvalue s (types s hs)
      | _ => simp [Atom.rule] at hab
    | _ => simp [Atom.rule] at hcd
  | _ => cases hb with | leaf hb => exact hb.elim

end

/-! ### The judgement -/

/-- The judgement on data types can be composed at every depth. -/
private theorem composes (hh : h.IsPreorder) (depth : Nat) : Composes h depth := by
  induction depth with
  | zero => exact fun _ _ _ _ _ _ _ _ _ hst => nomatch hst
  | succ depth ih =>
    intro s t u v bs bt bu bv hc hst htu huv
    rw [bs.within_iff fun _ => id] at hst ⊢
    rw [bu.within_iff fun _ => id] at huv
    intro a ha
    obtain ⟨b, hb, hab⟩ := hst a ha
    obtain ⟨c, hcu, hbc⟩ := htu b hb
    obtain ⟨d, hd, hcd⟩ := huv c hcu
    refine ⟨d, hd, Atom.fits_iff.2 ?_⟩
    rcases Atom.fits_iff.1 hcd with hmixed | rfl | hrule'
    · exact .inl hmixed
    · -- Only `never` lies within `never`.
      obtain rfl := Atom.alike_keyword_iff.1 hbc
      rcases Atom.fits_iff.1 hab with hmixed | hnever | hrule
      · cases hmixed
      · exact .inr (.inl hnever)
      · exact absurd hrule a.not_rule_never
    · rcases Atom.fits_iff.1 hab with rfl | hnever | hrule
      · obtain rfl := Atom.keyword_alike_iff.1 hbc
        exact absurd hrule' d.not_mixed_rule
      · exact .inr (.inl hnever)
      · refine .inr (.inr (rule_trans hh ih (bs.atom ha) (bt.atom hb) (bu.atom hcu) (bv.atom hd)
          ?_ ?_ ?_ hrule hbc hrule'))
        · rintro r rfl
          exact hc r (Ty.has_of_mem hcu)
        · exact fun t ht => hc.inside hcu ht
        · rintro r rfl
          exact hc.valueType hcu

/-- Containment of data types is transitive, over every class table and over
the hierarchy without links. -/
theorem Ty.BuiltFrom.isWithin_trans {h : Hierarchy}
    (hh : h = Hierarchy.flat ∨ ∃ classes, h = (ClassTable.ofList classes).hierarchy) {s t u : Ty}
    (hs : s.BuiltFrom Atom.IsNominal) (ht : t.BuiltFrom Atom.IsNominal)
    (hu : u.BuiltFrom Atom.IsNominal) (hc : Ty.Coherent [s, t, u]) (hst : s.isWithin h t = true)
    (htu : t.isWithin h u = true) : s.isWithin h u = true := by
  have hpre : h.IsPreorder := by
    rcases hh with rfl | ⟨classes, rfl⟩
    · exact Hierarchy.flat_isPreorder
    · exact ClassTable.hierarchy_isPreorder _
  exact composes hpre _ s t t u hs ht ht hu (hc.coversFields (by simp)) hst (.refl t) htu

/-- Two classes that extend each other, one of them below a third. -/
private def loop : List (String × List String) :=
  [("A", ["B"]), ("B", ["A", "C"])]

private def elements : Record :=
  .ofFields [(.int 0, .single (.object ⟨"A", []⟩))] true

private def elementList : Atom :=
  .list (.single (.object ⟨"B", []⟩)) true

private def elementArray : Atom :=
  .array (.single (.keyword .int)) ⟨[.object ⟨"C", []⟩, .keyword .null], false⟩ true

private theorem elements_isRegular : elements.IsRegular where
  isSealed := rfl
  nodup := by decide
  isList_iff := by
    refine ⟨fun _ => ⟨fun k => ?_, ?_⟩, fun _ => by decide⟩
    · simp [elements, Record.ofFields, Record.keys]
    · simp [elements, Record.ofFields, Record.types, Ty.single]

private theorem coherent_elements :
    Ty.Coherent [.single (.record elements), .single elementList, .single elementArray] := by
  refine .of_nodup [.record elements, elementList, elementArray, .object ⟨"A", []⟩, .object ⟨"B", []⟩,
    .object ⟨"C", []⟩, .keyword .int, .keyword .null] (by decide +kernel) fun t ht b hb => ?_
  simp only [List.mem_cons, List.not_mem_nil, or_false] at ht
  rcases ht with rfl | rfl | rfl
  · rw [Ty.has_single_iff, Atom.partOf_iff] at hb
    simp [Atom.facets, Atom.types, Record.types, elements, Record.ofFields] at hb ⊢
    tauto
  · rw [Ty.has_single_iff, Atom.partOf_iff] at hb
    simp [Atom.facets, Atom.types, elementList] at hb ⊢
    tauto
  · rw [Ty.has_single_iff, Atom.partOf_iff] at hb
    simp [Ty.Has, Atom.facets, Atom.types, elementArray, Ty.single] at hb ⊢
    tauto

private theorem builtFrom_object (name : String) :
    (Ty.single (.object ⟨name, []⟩)).BuiltFrom Atom.IsNominal :=
  .single (.leaf trivial)

private theorem builtFrom_elements : (Ty.single (.record elements)).BuiltFrom Atom.IsNominal := by
  refine .single (.record elements_isRegular fun t ht => ?_)
  obtain rfl : t = .single (.object ⟨"A", []⟩) := by
    simpa [elements, Record.ofFields, Record.types] using ht
  exact builtFrom_object "A"

private theorem builtFrom_elementArray : (Ty.single elementArray).BuiltFrom Atom.IsNominal := by
  refine .single (.array (.single (.leaf trivial)) (.of_leaves (by simp) fun a ha => ?_))
  rcases List.mem_pair.1 ha with rfl | rfl <;> trivial

theorem Ty.BuiltFrom.isWithin_trans_elements :
    (Ty.single (.record elements)).isWithin (ClassTable.ofList loop).hierarchy
      (.single elementArray) = true :=
  Ty.BuiltFrom.isWithin_trans (.inr ⟨loop, rfl⟩) builtFrom_elements
    (.single (.list (builtFrom_object "B")))
    builtFrom_elementArray coherent_elements (by decide +kernel) (by decide +kernel)

end TypeProbe
