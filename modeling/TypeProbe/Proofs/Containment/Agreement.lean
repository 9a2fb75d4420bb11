import TypeProbe.Proofs.Containment.Rules
import TypeProbe.Proofs.Ty.Alike

/-!
# Types that agree lie within each other

Types that can be followed side by side have the same parts up to order, so each lies within the
other if it nests no deeper than the judgement goes (`Ty.Agrees.within`).  A float that differs
from itself does not lie within itself, and a record with one key twice need not, so the types
have to be proper (`Ty.IsProper`).
-/

namespace TypeProbe

variable {h : Hierarchy} {sub : Ty → Ty → Bool} {R : Ty → Ty → Prop} {F : Atom → Atom → Prop}

/-! ### Objects -/

private theorem fits_of_facets (hh : ∀ name, h name name = true) {o p : ObjectType}
    (hname : o.name = p.name) (hfacets : List.Forall₂ (Atom.Matches R F) o.facets p.facets) :
    o.fits h p = true := by
  rw [ObjectType.fits_iff]
  constructor
  · rw [ObjectType.reaches_iff, hname]
    exact .inl (hh p.name)
  · intro b hb q hq
    obtain ⟨a, ha, hab⟩ := exists_mem_of_forall₂ hfacets.flip hb
    obtain ⟨f, hf, hfq⟩ := Atom.Matches.exists_object hab hq
    rw [ObjectType.reaches_iff]
    exact .inr ⟨a, ha, f, hf, hfq ▸ hh f.name⟩

/-- An object lies within one of the same class with facets that are alike. -/
theorem ObjectType.fits_alike (hh : ∀ name, h name name = true) {o p : ObjectType}
    (hname : o.name = p.name) (hfacets : List.Forall₂ Atom.Alike o.facets p.facets) :
    o.fits h p = true :=
  fits_of_facets hh hname (hfacets.imp fun _ _ => Atom.Alike.matches)

/-! ### Records -/

private theorem fits_of_fields {r q : Record} (hn : r.keys.Nodup)
    (hrq : Atom.Matches R F (.record r) (.record q))
    (hsub : ∀ t ∈ r.types, ∀ u ∈ q.types, R t u → sub t u = true) : r.fits sub q = true := by
  obtain ⟨hfields, hsealed, -⟩ := hrq
  have hkeys : r.keys = q.keys := map_eq_of_forall₂ (fun _ _ _ _ hfg => hfg.key) hfields
  rw [Record.fits_iff]
  refine ⟨fun hq => hsealed ▸ hq, fun g hg => .inl ?_, fun _ k hk => hkeys ▸ hk⟩
  obtain ⟨f, hf, hfg⟩ := exists_mem_of_forall₂ hfields.flip hg
  have hget : Keyed.get? f.1 r.fields = some f.2 := Keyed.get?_of_mem hn hf
  refine ⟨f.2, hfg.key ▸ hget, fun hf => hfg.optional ▸ hf, ?_⟩
  exact hsub f.2 (List.mem_map_of_mem hf) g.2 (List.mem_map_of_mem hg) hfg.type

/-! ### Callables -/

private theorem fits_of_params {c d : Callable} (hcd : Atom.Matches R F (.callable c) (.callable d))
    (hsub : ∀ t ∈ (Atom.callable c).types, ∀ u ∈ (Atom.callable d).types, R t u →
      sub t u = true ∧ sub u t = true) : c.fits sub d = true := by
  obtain ⟨hparams, hresult, hclosure, hpure⟩ := hcd
  have hle : c.required ≤ c.params.length := List.countP_le_length
  refine Callable.fits_iff.2
    ⟨fun h => hclosure ▸ h, fun h => hpure ▸ h, hparams.length_eq ▸ hle, fun i p hp s hs t ht => ?_,
      fun u hu => ?_⟩
  · obtain ⟨q, hq, hqp⟩ := exists_mem_left_of_rel (rel_getElem?_of_forall₂ hparams i) hp
    have hat : c.paramAt? i = some q := by rw [Callable.paramAt?, hq]; rfl
    have hqs : s ∈ q.type := by rwa [hat, Option.bind_some] at hs
    have hrel := hqp.written
    rw [Param.written, Param.written, Option.mem_def.1 hqs, Option.mem_def.1 ht] at hrel
    have hst := hsub s (Callable.mem_types_of_param (List.mem_of_getElem? hq) hqs) t
      (Callable.mem_types_of_param (List.mem_of_getElem? hp) ht) hrel
    exact hst.2
  · obtain ⟨t, ht, hrel⟩ := exists_mem_left_of_rel hresult hu
    exact .inl ⟨t, ht,
      (hsub t (Callable.mem_types_of_result ht) u (Callable.mem_types_of_result hu) hrel).1⟩

/-! ### Atoms and unions -/

private theorem literal_agrees_self {x : Literal} (hx : (Atom.literal x).IsProper) :
    x.agrees x = true := by
  cases x with
  | string s => exact beq_self_eq_true s
  | int i => exact beq_self_eq_true i
  | float x => exact Binary64.eq_self hx
  | className name => exact Ascii.same_iff.2 rfl

/-- Atoms that match fit if the types inside them do both ways. -/
private theorem fits_of_matches (hh : ∀ name, h name name = true)
    (hF : ∀ {f g}, F f g → Atom.Matches R F f g) {a b : Atom} (ha : a.IsProper)
    (hab : Atom.Matches R F a b)
    (hsub : ∀ t ∈ a.types, ∀ u ∈ b.types, R t u → sub t u = true ∧ sub u t = true) :
    a.fits h sub b = true := by
  cases a with
  | keyword v =>
    cases b with
    | keyword w =>
      obtain rfl : v = w := hab
      cases v <;> rfl
    | _ => exact hab.elim
  | literal x =>
    cases b with
    | literal y =>
      obtain rfl : x = y := hab
      exact (Atom.Rule.literal (literal_agrees_self ha)).fits
    | _ => exact hab.elim
  | classString bound =>
    cases b with
    | classString other =>
      obtain rfl : bound = other := hab
      exact (Atom.Rule.classString fun c hc => ⟨c, hc, hh c⟩).fits
    | _ => exact hab.elim
  | object o =>
    cases b with
    | object p => exact (Atom.Rule.object rfl (fits_of_facets hh hab.1 (hab.2.imp fun _ _ => hF))).fits
    | _ => exact hab.elim
  | generic o ts =>
    cases b with
    | generic p us =>
      obtain ⟨hname, hfacets, hparams⟩ := hab
      have hfits : o.fits h p = true := fits_of_facets hh hname (hfacets.imp fun _ _ => hF)
      have hpairs : Ty.pairwise sub ts us = true :=
        Ty.pairwise_iff.2 (forall₂_imp_of_mem (fun t ht u hu htu => (hsub t ht u hu htu).1) hparams)
      exact (Atom.Rule.generic (by simp [ObjectType.genericFits, hfits, hpairs])).fits
    | _ => exact hab.elim
  | record r =>
    cases b with
    | record q =>
      exact (Atom.Rule.record (fits_of_fields ha hab fun t ht u hu htu => (hsub t ht u hu htu).1)).fits
    | _ => exact hab.elim
  | callable c =>
    cases b with
    | callable d => exact (Atom.Rule.callable (fits_of_params hab hsub)).fits
    | _ => exact hab.elim
  | template name scope bound =>
    cases b with
    | template name' scope' bound' =>
      obtain ⟨rfl, rfl, -⟩ := hab
      exact Atom.Rule.template.fits
    | _ => exact hab.elim
  | array key value nonEmpty =>
    cases b with
    | array key' value' nonEmpty' =>
      obtain ⟨hkey, hvalue, rfl⟩ := hab
      have hk := (hsub key (by simp [Atom.types]) key' (by simp [Atom.types]) hkey).1
      have hv := (hsub value (by simp [Atom.types]) value' (by simp [Atom.types]) hvalue).1
      exact (Atom.Rule.array id hk hv).fits
    | _ => exact hab.elim
  | list value nonEmpty =>
    cases b with
    | list value' nonEmpty' =>
      obtain ⟨hvalue, rfl⟩ := hab
      have hv := (hsub value (by simp [Atom.types]) value' (by simp [Atom.types]) hvalue).1
      exact (Atom.Rule.list id hv).fits
    | _ => exact hab.elim

/-- Types that agree lie within each other, as deep as they nest. -/
theorem Ty.Agrees.within (hh : ∀ name, h name name = true) {n : Nat} {s t : Ty} (hs : s.IsProper)
    (ht : t.IsProper) (hns : s.NestsWithin n) (hnt : t.NestsWithin n) (hst : s.Agrees t) :
    within h n s t = true := by
  obtain ⟨R, F, hsim, hst⟩ := hst
  induction n generalizing s t with
  | zero => exact hns.elim
  | succ n ih =>
    rw [within_succ_iff]
    intro a ha
    obtain ⟨b, hb, hab⟩ := hsim.exists_atom hst a ha
    refine .inl ⟨b, hb, fits_of_matches hh hsim.atom (hs a (Ty.has_of_mem ha))
      (hsim.atom hab) fun u hu v hv huv => ?_⟩
    have hu' : u.IsProper := fun c hc => hs c (.of_inside ha hu hc)
    have hv' : v.IsProper := fun c hc => ht c (.of_inside hb hv hc)
    -- Parameters are compared the other way round, so both directions are needed.
    exact ⟨ih hu' hv' (hns a ha u hu) (hnt b hb v hv) huv,
      ih hv' hu' (hnt b hb v hv) (hns a ha u hu) (hsim.symm huv)⟩

/-- Atoms that are alike fit, as deep as the types inside them nest. -/
theorem Atom.Alike.fits (hh : ∀ name, h name name = true) {n : Nat} {a b : Atom} (hab : a.Alike b)
    (ha : (Ty.single a).IsProper) (hn : ∀ t ∈ a.types, t.NestsWithin n) :
    a.fits h (TypeProbe.within h n) b = true := by
  refine fits_of_matches hh Atom.Alike.matches (ha a (Ty.has_single_iff.2 .self))
    hab.matches fun t ht u _ htu => ?_
  have hproper : t.IsProper := fun c hc => ha c (.of_inside (List.mem_singleton.2 rfl) ht hc)
  have hproper' : u.IsProper := htu.isProper hproper
  have hnests' : u.NestsWithin n := htu.nestsWithin (hn t ht)
  exact ⟨htu.agrees.within hh hproper hproper' (hn t ht) hnests',
    htu.symm.agrees.within hh hproper' hproper hnests' (hn t ht)⟩

/-! ### A type and itself -/

/-- Every type lies within itself, unless it holds a float that differs from itself or nests
deeper than the judgement goes. -/
theorem Ty.isWithin_self (hh : h = Hierarchy.flat ∨ ∃ table : ClassTable, h = table.hierarchy) {t : Ty}
    (ht : t.IsProper) (hn : t.NestsWithin (depthLimit + 1)) : t.isWithin h t = true := by
  have hrefl : ∀ name, h name name = true := by
    intro name
    rcases hh with rfl | ⟨table, rfl⟩
    · exact Ascii.same_refl name
    · exact table.hierarchy_self name
  exact t.alike_refl.agrees.within hrefl ht ht hn hn

/-- A function whose first argument may be anything and whose further ones may be left out. -/
private def handler : Atom :=
  .callable ⟨[⟨"event", none, false, false, false⟩,
    ⟨"names", some (.single (.classString (some "A"))), true, true, true⟩],
    some (.single (.template "T" "f" (.single (.keyword .mixed)))), true, false⟩

/-- A table that is called a list though it has a name for a key and a slot that may be missing. -/
private def table : Atom :=
  .record ⟨[(.string "on", .single handler),
    (.int 7, (Ty.single (.literal (.float ⟨0x8000000000000000⟩))).asOptional)],
    false, true⟩

/-- A map of tables that can also be counted. -/
private def registry : Ty :=
  .single (.generic ⟨"Map", [.object ⟨"Countable", []⟩]⟩ [.single (.keyword .string), .single table])

private theorem isProper_handler : (Ty.single handler).IsProper := by
  have hnames : (Ty.single (.classString (some "A"))).IsProper := Ty.isProper_leaf trivial rfl rfl
  have hmixed : (Ty.single (.keyword .mixed)).IsProper := Ty.isProper_leaf trivial rfl rfl
  have hresult : (Ty.single (.template "T" "f" (.single (.keyword .mixed)))).IsProper :=
    Ty.isProper_single trivial (by simp [Atom.facets]) (by simpa [Atom.types] using hmixed)
  exact Ty.isProper_single trivial (by simp [handler, Atom.facets])
    (by simp [handler, Atom.types, hnames, hresult])

private theorem isProper_table : (Ty.single table).IsProper := by
  have hfloat : (Ty.single (.literal (.float ⟨0x8000000000000000⟩))).IsProper :=
    Ty.isProper_leaf (by decide : Binary64.isNaN ⟨0x8000000000000000⟩ = false) rfl rfl
  have hkeys : table.IsProper := by simp [table, Atom.IsProper, Record.keys]
  refine Ty.isProper_single hkeys (by simp [table, Atom.facets]) fun u hu => ?_
  rcases List.mem_pair.1 hu with rfl | rfl
  · exact isProper_handler
  · exact hfloat

theorem Ty.isWithin_self_registry :
    registry.NestsWithin (depthLimit + 1) ∧
      registry.isWithin (ClassTable.ofList [("Map", [])]).hierarchy registry = true := by
  have hstring : (Ty.single (.keyword .string)).IsProper := Ty.isProper_leaf trivial rfl rfl
  have hcountable : (Ty.single (.object ⟨"Countable", []⟩)).IsProper := Ty.isProper_leaf trivial rfl rfl
  have hproper : registry.IsProper :=
    Ty.isProper_single trivial (by simpa [Atom.facets] using hcountable)
      (by simp [Atom.types, hstring, isProper_table])
  have hnests : registry.NestsWithin (depthLimit + 1) := by decide +kernel
  exact ⟨hnests, Ty.isWithin_self (.inr ⟨_, rfl⟩) hproper hnests⟩

end TypeProbe
