import TypeProbe.Proofs.Classes.Ancestors
import TypeProbe.Proofs.Containment.Rules

/-!
# What the rules of containment ask about

The rules for two types ask for the judgement on certain pairs of types (`Ty.Asks`): on types inside
the two, on the types of the keys and the values of a record, and on the bound of a template
parameter.  The answers are used positively, and so are those of the hierarchy: whoever accepts more
of these pairs and relates more classes accepts no fewer types (`Ty.fits_mono`).  Hence answers on
other pairs do not matter (`Ty.fits_congr`), and what is accepted stays accepted when the judgement
may go deeper or a new class is declared (`within_mono_classes`).
-/

namespace TypeProbe

/-- The rule for the two atoms asks whether the first type lies within the second. -/
inductive Atom.Asks : Atom → Atom → Ty → Ty → Prop where
  | param {o p : ObjectType} {ts us : List Ty} {u v : Ty} : (u, v) ∈ ts.zip us →
    Asks (.generic o ts) (.generic p us) u v
  | field {r q : Record} {k : Key} {u v : Ty} : Keyed.get? k r.fields = some u → (k, v) ∈ q.fields →
    Asks (.record r) (.record q) u v
  | recordKeys {r : Record} {key value : Ty} {nonEmpty : Bool} : r.fields ≠ [] →
    Asks (.record r) (.array key value nonEmpty) r.keyType key
  | recordValues {r : Record} {key value : Ty} {nonEmpty : Bool} : r.fields ≠ [] →
    Asks (.record r) (.array key value nonEmpty) r.valueType value
  | recordElement {r : Record} {u value : Ty} {nonEmpty : Bool} : u ∈ r.types →
    Asks (.record r) (.list value nonEmpty) u value
  | element {v value : Ty} {nonEmpty nonEmpty' : Bool} :
    Asks (.list v nonEmpty) (.list value nonEmpty') v value
  | elementValue {v key value : Ty} {nonEmpty nonEmpty' : Bool} :
    Asks (.list v nonEmpty) (.array key value nonEmpty') v value
  | arrayKey {k v key value : Ty} {nonEmpty nonEmpty' : Bool} :
    Asks (.array k v nonEmpty) (.array key value nonEmpty') k key
  | arrayValue {k v key value : Ty} {nonEmpty nonEmpty' : Bool} :
    Asks (.array k v nonEmpty) (.array key value nonEmpty') v value
  | argument {c d : Callable} {i : Nat} {p : Param} {u v : Ty} : d.params[i]? = some p → u ∈ p.type →
    v ∈ (c.paramAt? i).bind (·.type) → Asks (.callable c) (.callable d) u v
  | result {c d : Callable} {u v : Ty} : u ∈ c.result → v ∈ d.result →
    Asks (.callable c) (.callable d) u v

/-- The rules for `s` and `t` ask whether `u` lies within `v`. -/
def Ty.Asks (s t u v : Ty) : Prop :=
  (∃ a ∈ s.atoms, ∃ b ∈ t.atoms, a.Asks b u v) ∨ (∃ a ∈ s.atoms, a.bound? = some u) ∧ v = t

variable {h h' : Hierarchy} {sub sub' : Ty → Ty → Bool}

/-! ### Objects -/

section

variable (hh : ∀ c d, h c d = true → h' c d = true)

include hh

theorem ObjectType.reaches_mono {o : ObjectType} {target : String} (hr : o.reaches h target = true) :
    o.reaches h' target = true := by
  rcases reaches_iff.1 hr with hself | ⟨a, ha, f, hf, hfacet⟩
  · exact reaches_iff.2 (.inl (hh _ _ hself))
  · exact reaches_iff.2 (.inr ⟨a, ha, f, hf, hh _ _ hfacet⟩)

theorem ObjectType.fits_mono {o target : ObjectType} (hf : o.fits h target = true) :
    o.fits h' target = true := by
  obtain ⟨hname, hfacets⟩ := fits_iff.1 hf
  exact fits_iff.2 ⟨reaches_mono hh hname, fun a ha f hfa => reaches_mono hh (hfacets a ha f hfa)⟩

private theorem genericFits_mono {o target : ObjectType} {ts us : List Ty}
    (hsub : ∀ u v, (Atom.generic o ts).Asks (.generic target us) u v → sub u v = true → sub' u v = true)
    (hf : o.genericFits h sub ts target us = true) : o.genericFits h' sub' ts target us = true := by
  simp only [ObjectType.genericFits, Bool.and_eq_true, Bool.or_eq_true] at hf ⊢
  refine ⟨ObjectType.fits_mono hh hf.1, hf.2.imp_right fun hpairs => ?_⟩
  rw [Ty.pairwise_iff, List.forall₂_iff_zip] at hpairs ⊢
  exact ⟨hpairs.1, fun {u v} huv => hsub u v (.param huv) (hpairs.2 huv)⟩

end

/-! ### Records and callables -/

private theorem recordFits_mono {r q : Record}
    (hsub : ∀ u v, (Atom.record r).Asks (.record q) u v → sub u v = true → sub' u v = true)
    (hf : r.fits sub q = true) : r.fits sub' q = true := by
  obtain ⟨hsealed, hfields, hkeys⟩ := Record.fits_iff.1 hf
  refine Record.fits_iff.2 ⟨hsealed, fun f hmem => ?_, hkeys⟩
  rcases hfields f hmem with ⟨s, hs, ho, hst⟩ | hnone
  · exact .inl ⟨s, hs, ho, hsub s f.2 (.field hs hmem) hst⟩
  · exact .inr hnone

private theorem fitsArray_mono {r : Record} {key value : Ty} {nonEmpty : Bool}
    (hsub : ∀ u v, (Atom.record r).Asks (.array key value nonEmpty) u v → sub u v = true →
      sub' u v = true) (hf : r.fitsArray sub key value nonEmpty = true) :
    r.fitsArray sub' key value nonEmpty = true := by
  obtain ⟨hopen, hne, hinside⟩ := Record.fitsArray_eq_true_iff.1 hf
  refine Record.fitsArray_eq_true_iff.2 ⟨hopen, hne, fun hfields => ?_⟩
  obtain ⟨hkey, hvalue⟩ := hinside hfields
  exact ⟨hsub _ _ (.recordKeys hfields) hkey, hsub _ _ (.recordValues hfields) hvalue⟩

private theorem fitsList_mono {r : Record} {value : Ty} {nonEmpty : Bool}
    (hsub : ∀ u v, (Atom.record r).Asks (.list value nonEmpty) u v → sub u v = true → sub' u v = true)
    (hf : r.fitsList sub value nonEmpty = true) : r.fitsList sub' value nonEmpty = true := by
  obtain ⟨hlist, hsealed, hne, hall⟩ := Record.fitsList_iff.1 hf
  exact Record.fitsList_iff.2
    ⟨hlist, hsealed, hne, fun t ht => hsub t value (.recordElement ht) (hall t ht)⟩

private theorem callableFits_mono {c d : Callable}
    (hsub : ∀ u v, (Atom.callable c).Asks (.callable d) u v → sub u v = true → sub' u v = true)
    (hf : c.fits sub d = true) : c.fits sub' d = true := by
  obtain ⟨hclosure, hpure, hrequired, hparams, hresult⟩ := Callable.fits_iff.1 hf
  refine Callable.fits_iff.2 ⟨hclosure, hpure, hrequired, fun i p hp s hs t ht => ?_, fun t ht => ?_⟩
  · exact hsub t s (.argument hp ht hs) (hparams i p hp s hs t ht)
  · rcases hresult t ht with ⟨s, hs, hst⟩ | hmixed
    · exact .inl ⟨s, hs, hsub s t (.result hs ht) hst⟩
    · exact .inr hmixed

/-! ### Atoms and unions -/

theorem Atom.rule_mono (hh : ∀ c d, h c d = true → h' c d = true) {a b : Atom}
    (hsub : ∀ u v, a.Asks b u v → sub u v = true → sub' u v = true) (hr : a.rule h sub b = true) :
    a.rule h' sub' b = true := by
  rw [Atom.rule_iff] at hr ⊢
  cases hr with
  | keyword hw => exact .keyword hw
  | literalKeyword hw => exact .literalKeyword hw
  | literal hxy => exact .literal hxy
  | className hb => exact .className fun c hc => hh _ c (hb c hc)
  | classStringKeyword hw => exact .classStringKeyword hw
  | classString hb =>
    refine .classString fun d hd => ?_
    obtain ⟨c, hc, hcd⟩ := hb d hd
    exact ⟨c, hc, hh c d hcd⟩
  | object ho hfits => exact .object ho (ObjectType.fits_mono hh hfits)
  | generic hfits => exact .generic (genericFits_mono hh hsub hfits)
  | objectGeneric hfits hmixed => exact .objectGeneric (ObjectType.fits_mono hh hfits) hmixed
  | record hfits => exact .record (recordFits_mono hsub hfits)
  | recordArray hfits => exact .recordArray (fitsArray_mono hsub hfits)
  | recordList hfits => exact .recordList (fitsList_mono hsub hfits)
  | list hn hv => exact .list hn (hsub _ _ .element hv)
  | listArray hn hk hv => exact .listArray hn hk (hsub _ _ .elementValue hv)
  | array hn hk hv => exact .array hn (hsub _ _ .arrayKey hk) (hsub _ _ .arrayValue hv)
  | callable hfits => exact .callable (callableFits_mono hsub hfits)
  | template => exact .template

/-- Judging more of what is asked about accepts no fewer types. -/
theorem Ty.fits_mono (hh : ∀ c d, h c d = true → h' c d = true) {s t : Ty}
    (hsub : ∀ u v, s.Asks t u v → sub u v = true → sub' u v = true) (hf : s.fits h sub t = true) :
    s.fits h' sub' t = true := by
  rw [Ty.fits_iff] at hf ⊢
  intro a ha
  rcases hf a ha with ⟨b, hb, hab⟩ | ⟨bound, hbound, hw⟩
  · refine .inl ⟨b, hb, Atom.fits_iff.2 ?_⟩
    rcases Atom.fits_iff.1 hab with hmixed | hnever | hrule
    · exact .inl hmixed
    · exact .inr (.inl hnever)
    · exact .inr (.inr (Atom.rule_mono hh (fun u v huv => hsub u v (.inl ⟨a, ha, b, hb, huv⟩)) hrule))
  · exact .inr ⟨bound, hbound, hsub bound t (.inr ⟨⟨a, ha, hbound⟩, rfl⟩) hw⟩

/-- Only the answers that are asked for matter. -/
theorem Ty.fits_congr {s t : Ty} (hsub : ∀ u v, s.Asks t u v → sub u v = sub' u v) :
    s.fits h sub t = s.fits h sub' t := by
  rw [Bool.eq_iff_iff]
  constructor
  · exact Ty.fits_mono (fun _ _ => id) fun u v huv hw => hsub u v huv ▸ hw
  · exact Ty.fits_mono (fun _ _ => id) fun u v huv hw => (hsub u v huv).symm ▸ hw

/-- What is accepted stays accepted if the judgement may go deeper and more classes are related. -/
theorem within_mono_classes (hh : ∀ c d, h c d = true → h' c d = true) {m n : Nat} (hmn : m ≤ n)
    {s t : Ty} (hw : within h m s t = true) : within h' n s t = true := by
  induction m generalizing n s t with
  | zero => cases hw
  | succ m ih =>
    obtain ⟨k, rfl⟩ : ∃ k, n = k + 1 := ⟨n - 1, by omega⟩
    have hmk : m ≤ k := by omega
    exact Ty.fits_mono hh (fun _ _ _ huv => ih hmk huv) hw

theorem within_mono {m n : Nat} (hmn : m ≤ n) {s t : Ty} (hw : within h m s t = true) :
    within h n s t = true :=
  within_mono_classes (fun _ _ => id) hmn hw

/-! ### More classes -/

/-- A hierarchy that relates more classes accepts no fewer types.  In particular a table that
declares one more class accepts all types that it accepted before. -/
theorem Ty.isWithin_of_moreClasses :
    (∀ h h' : Hierarchy, (∀ c d, h c d = true → h' c d = true) →
      ∀ s t : Ty, s.isWithin h t = true → s.isWithin h' t = true) ∧
    ∀ (table : ClassTable) (name : String), ¬ table.Declares name →
      ∀ (parents : List String) (s t : Ty), s.isWithin table.hierarchy t = true →
        s.isWithin (table.declare name parents).hierarchy t = true := by
  constructor
  · intro h h' hh s t hw
    exact within_mono_classes hh (Nat.le_refl _) hw
  · intro table name hnew parents s t hw
    have hh : ∀ c d, table.hierarchy c d = true → (table.declare name parents).hierarchy c d = true :=
      fun _ _ => ClassTable.hierarchy_declare hnew parents
    exact within_mono_classes hh (Nat.le_refl _) hw

/-- A class below another one that is not declared. -/
private def vehicles : ClassTable :=
  .ofList [("Car", ["Vehicle"])]

/-- A function that takes any vehicle and returns some kind of car. -/
private def repair : Ty :=
  .single (.callable ⟨[⟨"v", some (.instanceOf "Vehicle"), false, false, false⟩],
    some (.single (.template "T" "repair" (.instanceOf "Car"))), false, false⟩)

private def repairOfCars : Ty :=
  .single (.callable ⟨[⟨"c", some (.instanceOf "Car"), false, false, false⟩],
    some (.instanceOf "Vehicle"), false, false⟩)

theorem Ty.isWithin_of_moreClasses_vehicles :
    repair.isWithin .flat repairOfCars = false ∧
      repair.isWithin vehicles.hierarchy repairOfCars = true ∧
      ((∀ c d, vehicles.hierarchy c d = true → (fun _ _ => true : Hierarchy) c d = true) ∧
        repair.isWithin (fun _ _ => true) repairOfCars = true) ∧
      ¬ vehicles.Declares "Vehicle" ∧
        repair.isWithin (vehicles.declare "Vehicle" ["Thing"]).hierarchy repairOfCars = true := by
  have hflat : repair.isWithin .flat repairOfCars = false := by decide +kernel
  have hw : repair.isWithin vehicles.hierarchy repairOfCars = true := by decide +kernel
  have hall : ∀ c d, vehicles.hierarchy c d = true → (fun _ _ => true : Hierarchy) c d = true :=
    fun _ _ _ => rfl
  have hnew : ¬ vehicles.Declares "Vehicle" := by
    unfold ClassTable.Declares
    decide +kernel
  exact ⟨hflat, hw, ⟨hall, Ty.isWithin_of_moreClasses.1 _ _ hall _ _ hw⟩,
    hnew, Ty.isWithin_of_moreClasses.2 _ _ hnew _ _ _ hw⟩

end TypeProbe
