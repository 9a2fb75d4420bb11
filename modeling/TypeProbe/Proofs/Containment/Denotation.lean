import TypeProbe.Proofs.Containment.Data

/-!
# The data of a type

A datum is a scalar or a map with ordered entries, and `Datum.In` says which data a type has.
Alike atoms have the same data (`Datum.InAtom.of_alike`), and a type lies within another only
if the other has all its data.

Nothing is asked of the entries of a map but what a type asks of them, so the statements hold in
particular of maps whose keys are distinct and of integers of any width.
-/

namespace TypeProbe

inductive Datum where
  | null
  | bool (b : Bool)
  | int (i : Int)
  | float (x : Binary64)
  | string (s : String)
  | map (entries : List (Key × Datum))

/-- The value that a key is. -/
def Key.value : Key → Datum
  | .int i => .int i
  | .string s => .string s

/-- The values of a keyword. -/
def Keyword.Holds : Keyword → Datum → Prop
  | .mixed, _ => True
  | .void, .null | .null, .null => True
  | .arrayKey, .int _ | .arrayKey, .string _ => True
  | .string, .string _ => True
  | .nonEmptyString, .string s => s ≠ ""
  | .int, .int _ => True
  | .float, .float _ => True
  | .bool, .bool _ => True
  | .boolTrue, .bool b => b = true
  | .boolFalse, .bool b => b = false
  | _, _ => False

/-- The values of a literal: one text or integer, the floats of one number, and
the texts that name a class. -/
def Literal.Holds : Literal → Datum → Prop
  | .string s, .string t => s = t
  | .int i, .int j => i = j
  | .float x, .float y => x.eq y = true
  | .className name, .string s => s ≠ "" ∧ Ascii.same name s = true
  | _, _ => False

/-- The keys `0, …, n - 1` in order. -/
def Key.upTo (n : Nat) : List Key :=
  (List.range n).map fun i : Nat => .int i

mutual

/-- The value is one of the type. -/
inductive Datum.In : Datum → Ty → Prop where
  | member {v : Datum} {a : Atom} {t : Ty} : a ∈ t.atoms → v.InAtom a → v.In t

inductive Datum.InAtom : Datum → Atom → Prop where
  | keyword {v : Datum} {w : Keyword} : w.Holds v → v.InAtom (.keyword w)
  | literal {v : Datum} {x : Literal} : x.Holds v → v.InAtom (.literal x)
  | list {entries : List (Key × Datum)} {value : Ty} {nonEmpty : Bool} :
    entries.map (·.1) = Key.upTo entries.length → (nonEmpty = true → entries ≠ []) →
    (∀ e ∈ entries, e.2.In value) → (Datum.map entries).InAtom (.list value nonEmpty)
  | array {entries : List (Key × Datum)} {key value : Ty} {nonEmpty : Bool} :
    (nonEmpty = true → entries ≠ []) → (∀ e ∈ entries, e.1.value.In key) →
    (∀ e ∈ entries, e.2.In value) →
    (Datum.map entries).InAtom (.array key value nonEmpty)
  /-- A list record: the keys `0, …, n - 1` in order, each with a value of its type. -/
  | listRecord {entries : List (Key × Datum)} {r : Record} :
    r.isSealed = true → r.isList = true → entries.map (·.1) = Key.upTo r.fields.length →
    (∀ e ∈ entries, ∀ t, Keyed.get? e.1 r.fields = some t → e.2.In t) →
      (Datum.map entries).InAtom (.record r)
  /-- Any other record: no unlisted key, every required one, each with a value of its type. -/
  | record {entries : List (Key × Datum)} {r : Record} :
    r.isSealed = true → r.isList = false → (∀ e ∈ entries, e.1 ∈ r.keys) →
    (∀ f ∈ r.fields, f.2.optional = false → f.1 ∈ entries.map (·.1)) →
    (∀ e ∈ entries, ∀ t, Keyed.get? e.1 r.fields = some t → e.2.In t) →
      (Datum.map entries).InAtom (.record r)

end

/-! ### Scalars -/

theorem Keyword.Holds.of_fits {w w' : Keyword} (h : w.fits w' = true) {v : Datum} (hv : w.Holds v) :
    w'.Holds v := by
  cases w <;> cases w' <;> simp [Keyword.fits] at h <;> cases v <;> simp_all [Keyword.Holds]

theorem Literal.Holds.of_fits {x : Literal} {w : Keyword} (h : x.fits w = true) {v : Datum}
    (hv : x.Holds v) : w.Holds v := by
  cases x with
  | className name =>
    cases v with
    | string s => exact Keyword.Holds.of_fits h hv.1
    | _ => exact hv.elim
  | _ => cases w <;> simp [Literal.fits] at h <;> cases v <;> simp_all [Keyword.Holds, Literal.Holds]

/-- Numbers equal to one number are equal to each other. -/
private theorem eq_of_eq_eq {x y z : Binary64} (hy : x.eq y = true) (hz : x.eq z = true) :
    y.eq z = true := by
  simp only [Binary64.eq, Bool.and_eq_true, Bool.or_eq_true, beq_iff_eq] at hy hz ⊢
  obtain ⟨⟨_, hny⟩, hby⟩ := hy
  obtain ⟨⟨_, hnz⟩, hbz⟩ := hz
  refine ⟨⟨hny, hnz⟩, ?_⟩
  have zero : ∀ u w : Binary64, u.bits = w.bits → u.isZero = w.isZero := by
    rintro ⟨u⟩ ⟨w⟩ h
    simp only at h
    rw [h]
  rcases hby with hby | hby <;> rcases hbz with hbz | hbz
  · exact .inl (hby.symm.trans hbz)
  · exact .inr ⟨(zero _ _ hby) ▸ hbz.1, hbz.2⟩
  · exact .inr ⟨hby.2, (zero _ _ hbz) ▸ hby.1⟩
  · exact .inr ⟨hby.2, hbz.2⟩

theorem Literal.Holds.of_agrees {x y : Literal} (h : x.agrees y = true) {v : Datum} (hv : x.Holds v) :
    y.Holds v := by
  cases x <;> cases y <;> simp [Literal.agrees] at h <;> cases v <;> simp [Literal.Holds] at hv ⊢
  case string.string.string => exact h ▸ hv
  case int.int.int => exact h ▸ hv
  case float.float.float => exact eq_of_eq_eq h hv
  case className.className.string =>
    exact ⟨hv.1, Ascii.same_iff.2 ((Ascii.same_iff.1 h).symm.trans (Ascii.same_iff.1 hv.2))⟩

/-! ### Alike types -/

theorem Datum.In.iff {v : Datum} {t : Ty} : v.In t ↔ ∃ a ∈ t.atoms, v.InAtom a := by
  constructor
  · rintro ⟨ha, hv⟩
    exact ⟨_, ha, hv⟩
  · rintro ⟨a, ha, hv⟩
    exact .member ha hv

theorem Datum.In.of_coveredBy {v : Datum} {s t : Ty}
    (h : ∀ a ∈ s.atoms, ∀ b, a.Alike b → v.InAtom a → v.InAtom b) (hst : s.CoveredBy t)
    (hv : v.In s) : v.In t := by
  obtain ⟨a, ha, hva⟩ := Datum.In.iff.1 hv
  obtain ⟨b, hb, hab⟩ := hst a ha
  exact .member hb (h a ha b hab hva)

/-- The value of a field lies in the field of a record that is alike. -/
private theorem in_get?_of_alike {l m : List (Key × Ty)} (h : List.Forall₂ Record.AlikeField l m)
    {k : Key} {v : Datum} (hv : ∀ t, Keyed.get? k l = some t → ∀ u : Ty, t.Alike u → v.In u)
    (u : Ty) (hu : Keyed.get? k m = some u) : v.In u := by
  have hrel := Record.rel_get?_of_alike h k
  rw [hu] at hrel
  cases hl : Keyed.get? k l with
  | none => rw [hl] at hrel; cases hrel
  | some t =>
    rw [hl] at hrel
    cases hrel with
    | some htu => exact hv t hl u htu.2

/-- An atom has the values of an atom that is alike. -/
theorem Datum.InAtom.of_alike {a b : Atom} (hab : a.Alike b) {v : Datum} (hv : v.InAtom a) :
    v.InAtom b := by
  induction a using Atom.induction generalizing b v with
  | step a _ inside =>
    have types : ∀ t ∈ a.types, ∀ u : Ty, t.Alike u → ∀ v : Datum, v.In t → v.In u :=
      fun t ht u htu v =>
      Datum.In.of_coveredBy (fun c hc _ hcd => inside t ht c hc hcd) htu.coveredBy
    cases hv with
    | keyword hw => exact Atom.keyword_alike_iff.1 hab ▸ .keyword hw
    | literal hx => exact Atom.literal_alike_iff.1 hab ▸ .literal hx
    | list hk hn he =>
      obtain ⟨w, rfl, hw⟩ := Atom.list_alike_iff.1 hab
      exact .list hk hn fun e h => types _ (by simp [Atom.types]) w hw _ (he e h)
    | array hn hk he =>
      obtain ⟨k, w, rfl, hkey, hw⟩ := Atom.array_alike_iff.1 hab
      exact .array hn (fun e h => types _ (by simp [Atom.types]) k hkey _ (hk e h))
        fun e h => types _ (by simp [Atom.types]) w hw _ (he e h)
    | @listRecord entries r hs hl hk he =>
      obtain ⟨q, rfl, hf, hs', hl'⟩ := Atom.record_alike_iff.1 hab
      refine .listRecord (hs' ▸ hs) (hl' ▸ hl) (hf.length_eq ▸ hk) fun e h => in_get?_of_alike hf ?_
      exact fun t ht u htu =>
        types t (List.mem_map.2 ⟨_, Keyed.mem_of_get? ht, rfl⟩) u htu _ (he e h t ht)
    | @record entries r hs hl hk hreq he =>
      obtain ⟨q, rfl, hf, hs', hl'⟩ := Atom.record_alike_iff.1 hab
      have hkeys : r.keys = q.keys := Record.map_fst_eq_of_alike hf
      refine .record (hs' ▸ hs) (hl' ▸ hl) (hkeys ▸ hk) (fun g hg hgo => ?_) fun e h =>
        in_get?_of_alike hf ?_
      · obtain ⟨f, hfr, hk, ho, -⟩ := exists_mem_of_forall₂ hf.flip hg
        exact hk ▸ hreq f hfr (ho.trans hgo)
      · exact fun t ht u htu =>
          types t (List.mem_map.2 ⟨_, Keyed.mem_of_get? ht, rfl⟩) u htu _ (he e h t ht)

/-! ### Records -/

private theorem length_upTo (n : Nat) : (Key.upTo n).length = n := by
  simp [Key.upTo]

theorem Key.mem_upTo {k : Key} {n : Nat} : k ∈ Key.upTo n ↔ ∃ i < n, k = .int i := by
  simp only [Key.upTo, List.mem_map, List.mem_range, eq_comm]

/-- The data of a regular record: each entry has a value for its key, the required keys are there,
and in a list record the keys are in order. -/
theorem Record.IsRegular.inAtom_iff {r : Record} (hr : r.IsRegular) {entries : List (Key × Datum)} :
    (Datum.map entries).InAtom (.record r) ↔
      (∀ e ∈ entries, ∃ t, Keyed.get? e.1 r.fields = some t ∧ e.2.In t) ∧
      (∀ f ∈ r.fields, f.2.optional = false → f.1 ∈ entries.map (·.1)) ∧
      (r.isList = true → entries.map (·.1) = Key.upTo r.fields.length) := by
  constructor
  · intro hv
    cases hv with
    | listRecord _ hl hk he =>
      have hmem : ∀ k, k ∈ entries.map (·.1) ↔ k ∈ r.keys := by
        intro k
        rw [hk, Key.mem_upTo, ((hr.isList_iff.1 hl).1 k)]
      refine ⟨fun e h => ?_, fun f hf _ => (hmem _).2 (List.mem_map_of_mem hf), fun _ => hk⟩
      obtain ⟨t, ht⟩ := exists_get? ((hmem _).1 (List.mem_map_of_mem h))
      exact ⟨t, ht, he e h t ht⟩
    | record _ hl hk hreq he =>
      refine ⟨fun e h => ?_, hreq, fun h => by simp [hl] at h⟩
      obtain ⟨t, ht⟩ := exists_get? (hk e h)
      exact ⟨t, ht, he e h t ht⟩
  · rintro ⟨he, hreq, hl⟩
    have hget : ∀ e ∈ entries, ∀ t, Keyed.get? e.1 r.fields = some t → e.2.In t := by
      intro e h t ht
      obtain ⟨u, hu, hv⟩ := he e h
      obtain rfl : u = t := Option.some.inj (hu.symm.trans ht)
      exact hv
    cases hlist : r.isList with
    | true => exact .listRecord hr.isSealed hlist (hl hlist) hget
    | false =>
      refine .record hr.isSealed hlist (fun e h => ?_) hreq hget
      obtain ⟨t, ht, -⟩ := he e h
      exact mem_keys_of_get? ht

/-! ### Containment -/

/-- The rule for two records. -/
private theorem inAtom_of_fits {sub : Ty → Ty → Bool} {r target : Record} (hr : r.IsRegular)
    (ht : target.IsRegular) (hfit : r.fits sub target = true)
    (ih : ∀ s ∈ r.types, ∀ t ∈ target.types, sub s t = true → ∀ v : Datum, v.In s → v.In t)
    {entries : List (Key × Datum)} (hv : (Datum.map entries).InAtom (.record r)) :
    (Datum.map entries).InAtom (.record target) := by
  obtain ⟨he, hreq, hl⟩ := hr.inAtom_iff.1 hv
  refine ht.inAtom_iff.2 ⟨fun e h => ?_, fun f hf ho => ?_, fun htl => ?_⟩
  · obtain ⟨s, hs, hes⟩ := he e h
    obtain ⟨t, hget, -, hsub⟩ := ht.get?_of_fits hfit hs
    exact ⟨t, hget, ih s (Record.mem_types_of_get? hs) t (Record.mem_types_of_get? hget) hsub _ hes⟩
  · obtain ⟨s, hs, hso⟩ := Record.exists_required_of_fits hfit hf ho
    exact hreq (f.1, s) (Keyed.mem_of_get? hs) hso
  · obtain ⟨hrl, hlen⟩ := hr.isList_of_fits ht hfit htl
    exact hlen ▸ hl hrl

/-- The rule for a record and an array: the keys and the values of a datum lie in the types of the
keys and the values of the record. -/
private theorem inAtom_of_fitsArray {sub : Ty → Ty → Bool} {r : Record} {key value : Ty}
    {nonEmpty : Bool} (hr : r.IsRegular) (hcov : ∀ t ∈ r.types, t.CoveredBy r.valueType)
    (hfit : r.fitsArray sub key value nonEmpty = true)
    (ihKey : sub r.keyType key = true → ∀ v : Datum, v.In r.keyType → v.In key)
    (ihValue : sub r.valueType value = true → ∀ v : Datum, v.In r.valueType → v.In value)
    {entries : List (Key × Datum)} (hv : (Datum.map entries).InAtom (.record r)) :
    (Datum.map entries).InAtom (.array key value nonEmpty) := by
  obtain ⟨he, hreq, -⟩ := hr.inAtom_iff.1 hv
  obtain ⟨hne, hsub⟩ := (Record.fitsArray_iff hr.isSealed).1 hfit
  refine .array (fun h hnil => ?_) (fun e h => ?_) (fun e h => ?_)
  · obtain ⟨t, ht, ho⟩ := hne h
    obtain ⟨f, hf, rfl⟩ := List.mem_map.1 ht
    have := hreq f hf ho
    simp [hnil] at this
  · obtain ⟨t, ht, -⟩ := he e h
    refine ihKey (hsub (List.ne_nil_of_mem (Keyed.mem_of_get? ht))).1 _ ?_
    refine .member (Record.literal_mem_keyType (Record.mem_keys_of_get? ht)) (.literal ?_)
    cases e.1 <;> exact rfl
  · obtain ⟨t, ht, het⟩ := he e h
    refine ihValue (hsub (List.ne_nil_of_mem (Keyed.mem_of_get? ht))).2 _ ?_
    exact .of_coveredBy (fun _ _ _ hab => Datum.InAtom.of_alike hab)
      (hcov t (Record.mem_types_of_get? ht)) het

/-- The rule for a record and a list. -/
private theorem inAtom_of_fitsList {sub : Ty → Ty → Bool} {r : Record} {value : Ty} {nonEmpty : Bool}
    (hr : r.IsRegular) (hfit : r.fitsList sub value nonEmpty = true)
    (ih : ∀ s ∈ r.types, sub s value = true → ∀ v : Datum, v.In s → v.In value)
    {entries : List (Key × Datum)} (hv : (Datum.map entries).InAtom (.record r)) :
    (Datum.map entries).InAtom (.list value nonEmpty) := by
  obtain ⟨he, -, hl⟩ := hr.inAtom_iff.1 hv
  obtain ⟨hlist, -, hne, hsub⟩ := Record.fitsList_iff.1 hfit
  have hlen : entries.length = r.fields.length := by
    simpa [length_upTo] using congrArg List.length (hl hlist)
  refine .list (hlen ▸ hl hlist) (fun h hnil => hne h ?_) (fun e h => ?_)
  · rw [← List.length_eq_zero_iff, ← hlen, hnil]
    rfl
  · obtain ⟨t, ht, het⟩ := he e h
    have hmem := Record.mem_types_of_get? ht
    exact ih t hmem (hsub t hmem) _ het

/-- A map lies in an array if it lies in a list whose keys the array admits. -/
private theorem inAtom_of_admits {key value value' : Ty} {nonEmpty nonEmpty' : Bool}
    (hadm : key.admits .int = true) (hne : nonEmpty' = true → nonEmpty = true)
    (ih : ∀ v : Datum, v.In value → v.In value') {entries : List (Key × Datum)}
    (hv : (Datum.map entries).InAtom (.list value nonEmpty)) :
    (Datum.map entries).InAtom (.array key value' nonEmpty') := by
  cases hv with
  | list hk hn he =>
    refine .array (fun h => hn (hne h)) (fun e h => ?_) (fun e h => ih _ (he e h))
    have hmem : e.1 ∈ Key.upTo entries.length := hk ▸ List.mem_map_of_mem h
    obtain ⟨i, -, hi⟩ := Key.mem_upTo.1 hmem
    obtain ⟨w, hw, hfit⟩ := Ty.admits_iff.1 hadm
    rw [hi]
    refine .member hw (.keyword ?_)
    rcases hfit with rfl | hfit
    · trivial
    · exact Keyword.Holds.of_fits (w := .int) (v := .int i) hfit trivial

section

variable {h : Hierarchy} {sub : Ty → Ty → Bool}

/-- A judgement on types inside that is sound makes the rules for atoms sound. -/
private theorem inAtom_of_rule
    (ih : ∀ s t : Ty, s.BuiltFrom Atom.IsScalar → t.BuiltFrom Atom.IsScalar → s.CoversFields →
      sub s t = true → ∀ v : Datum, v.In s → v.In t) {a b : Atom} (ha : a.BuiltFrom Atom.IsScalar)
    (hb : b.BuiltFrom Atom.IsScalar) {s : Ty} (has : a ∈ s.atoms) (hc : s.CoversFields)
    (hrule : a.rule h sub b = true) {v : Datum} (hv : v.InAtom a) : v.InAtom b := by
  have implies : ∀ x y : Bool, (x || !y) = true → y = true → x = true := by decide
  have built := ha.types fun _ => Atom.IsScalar.isNominal
  have built' := hb.types fun _ => Atom.IsScalar.isNominal
  have covers : ∀ t ∈ a.types, t.CoversFields := fun t ht => hc.inside has ht
  have inside : ∀ t ∈ a.types, ∀ u ∈ b.types, sub t u = true → ∀ v : Datum, v.In t → v.In u :=
    fun t ht u hu => ih t u (built t ht) (built' u hu) (covers t ht)
  cases a with
  | keyword v =>
    cases hv with
    | keyword hw =>
      cases b with
      | keyword w => exact .keyword (Keyword.Holds.of_fits hrule hw)
      | _ => simp [Atom.rule] at hrule
  | literal x =>
    cases hv with
    | literal hx =>
      cases b with
      | keyword w => exact .keyword (Literal.Holds.of_fits (by simpa [Atom.rule] using hrule) hx)
      | literal y => exact .literal (Literal.Holds.of_agrees (by simpa [Atom.rule] using hrule) hx)
      | classString bound => cases hb with | leaf hb => exact hb.elim
      | _ => simp [Atom.rule] at hrule
  | list value nonEmpty =>
    have hmap : ∃ entries, v = .map entries := by cases hv; exact ⟨_, rfl⟩
    obtain ⟨entries, rfl⟩ := hmap
    cases b with
    | list value' nonEmpty' =>
      simp only [Atom.rule, Bool.and_eq_true] at hrule
      cases hv with
      | list hk hn he =>
        have hsub := inside value (by simp [Atom.types]) value' (by simp [Atom.types]) hrule.2
        exact .list hk (fun h => hn (implies _ _ hrule.1 h)) fun e h => hsub _ (he e h)
    | array key value' nonEmpty' =>
      simp only [Atom.rule, Bool.and_eq_true] at hrule
      have hsub := inside value (by simp [Atom.types]) value' (by simp [Atom.types]) hrule.2
      exact inAtom_of_admits hrule.1.2 (implies _ _ hrule.1.1) hsub hv
    | _ => simp [Atom.rule] at hrule
  | array key value nonEmpty =>
    cases b with
    | array key' value' nonEmpty' =>
      simp only [Atom.rule, Bool.and_eq_true] at hrule
      cases hv with
      | array hn hk he =>
        have hkey := inside key (by simp [Atom.types]) key' (by simp [Atom.types]) hrule.1.2
        have hvalue := inside value (by simp [Atom.types]) value' (by simp [Atom.types]) hrule.2
        exact .array (fun h => hn (implies _ _ hrule.1.1 h)) (fun e h => hkey _ (hk e h)) fun e h =>
          hvalue _ (he e h)
    | _ => simp [Atom.rule] at hrule
  | record r =>
    have hr := ha.isRegular fun _ => Atom.IsScalar.isNominal
    have hmap : ∃ entries, v = .map entries := by cases hv <;> exact ⟨_, rfl⟩
    obtain ⟨entries, rfl⟩ := hmap
    cases b with
    | record target =>
      exact inAtom_of_fits hr (hb.isRegular fun _ => Atom.IsScalar.isNominal) hrule inside hv
    | list value nonEmpty =>
      exact inAtom_of_fitsList hr hrule (fun t ht => inside t ht value (by simp [Atom.types])) hv
    | array key value nonEmpty =>
      -- The types of the keys and the values do not occur in the record, so
      -- `inside` does not apply to them.
      have hcov := hc r (Ty.has_of_mem has)
      refine inAtom_of_fitsArray hr hcov hrule ?_ ?_ hv
      · exact ih _ _ (.keyType (fun _ => id) r) (built' key (by simp [Atom.types]))
          r.coversFields_keyType
      · exact ih _ _ (.valueType (fun _ => id) built) (built' value (by simp [Atom.types]))
          (hc.valueType has)
    | _ => simp [Atom.rule] at hrule
  | _ => cases hv

/-- The judgement on data types is sound at every depth. -/
theorem Datum.In.of_within {depth : Nat} {s t : Ty} (hs : s.BuiltFrom Atom.IsScalar)
    (ht : t.BuiltFrom Atom.IsScalar) (hc : s.CoversFields) (hw : within h depth s t = true)
    {v : Datum} (hv : v.In s) : v.In t := by
  induction depth generalizing s t v with
  | zero => cases hw
  | succ depth ih =>
    obtain ⟨a, ha, hva⟩ := Datum.In.iff.1 hv
    obtain ⟨b, hb, hfit⟩ := (hs.within_iff (fun _ => Atom.IsScalar.isNominal)).1 hw a ha
    refine .member hb ?_
    rcases Atom.fits_iff.1 hfit with rfl | rfl | hrule
    · exact .keyword trivial
    · cases hva with
      | keyword hw => exact hw.elim
    · exact inAtom_of_rule (fun s t hs ht hc hw v hv => ih hs ht hc hw hv) (hs.atom ha)
        (ht.atom hb) ha hc hrule hva

end

/-- A type that lies within another has only data of the other. -/
theorem Datum.In.of_isWithin {h : Hierarchy} {s t : Ty} (hs : s.BuiltFrom Atom.IsScalar)
    (ht : t.BuiltFrom Atom.IsScalar) (hc : Ty.Coherent [s, t]) (hw : s.isWithin h t = true) {v : Datum}
    (hv : v.In s) : v.In t :=
  .of_within hs ht (hc.coversFields List.mem_cons_self) hw hv

/-- A record whose two fields share `int`, one of them in a slot that may be missing. -/
private def row : Record :=
  .ofFields [(.string "a", ⟨[.keyword .int, .keyword .string], false⟩),
    (.string "b", ⟨[.keyword .int], true⟩)] true

/-- The arrays that such a record lies in. -/
private def rows : Atom :=
  .array (.single (.keyword .string)) ⟨[.keyword .string, .keyword .int], false⟩ true

private theorem row_isRegular : row.IsRegular where
  isSealed := rfl
  nodup := by decide
  isList_iff := by
    constructor
    · intro h
      cases h
    · rintro ⟨hk, -⟩
      obtain ⟨i, -, h⟩ := (hk (.string "a")).1 (by decide)
      cases h

private theorem coherent_row_rows : Ty.Coherent [.single (.record row), .single rows] := by
  refine .of_nodup [.record row, rows, .keyword .int, .keyword .string]
    (by decide +kernel) fun t ht b hb => ?_
  rcases List.mem_pair.1 ht with rfl | rfl
  · rw [Ty.has_single_iff, Atom.partOf_iff] at hb
    simp [Ty.Has, Atom.facets, Atom.types, Record.types, row, Record.ofFields] at hb ⊢
    tauto
  · rw [Ty.has_single_iff, Atom.partOf_iff] at hb
    simp [Ty.Has, Atom.facets, Atom.types, rows, Ty.single] at hb ⊢
    tauto

private theorem builtFrom_row : (Ty.single (.record row)).BuiltFrom Atom.IsScalar := by
  have hscalar : ∀ t ∈ row.types, t.atoms ≠ [] ∧
      ∀ a ∈ t.atoms, a = .keyword .int ∨ a = .keyword .string := by
    simp [row, Record.ofFields, Record.types]
  refine .single (.record row_isRegular fun t ht => .of_leaves (hscalar t ht).1 fun a ha => ?_)
  rcases (hscalar t ht).2 a ha with rfl | rfl <;> trivial

private theorem builtFrom_rows : (Ty.single rows).BuiltFrom Atom.IsScalar := by
  refine .single (.array (.of_leaves (by simp [Ty.single]) fun a ha => ?_)
    (.of_leaves (by simp) fun a ha => ?_))
  · obtain rfl := List.mem_singleton.1 ha
    trivial
  · rcases List.mem_pair.1 ha with rfl | rfl <;> trivial

theorem Datum.In.of_isWithin_row :
    (Ty.single (.record row)).isWithin Hierarchy.flat (.single rows) = true ∧
      ∀ v : Datum, v.In (.single (.record row)) → v.In (.single rows) := by
  have hw : (Ty.single (.record row)).isWithin Hierarchy.flat (.single rows) = true := by decide +kernel
  exact ⟨hw, fun _ => Datum.In.of_isWithin builtFrom_row builtFrom_rows coherent_row_rows hw⟩

end TypeProbe
