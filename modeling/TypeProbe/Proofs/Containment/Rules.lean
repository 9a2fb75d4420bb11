import Mathlib.Data.List.Forall2
import TypeProbe.Ty.Containment
import TypeProbe.Ty.Shorthand

/-!
# What the rules of containment ask for

One statement for each rule that compares types: what it means for records, arrays, lists and
callables that the rule accepts (`Record.fits_iff`, `Record.fitsArray_iff`, `Record.fitsList_iff`,
`Callable.fits_iff`), and one for a step of the whole judgement (`within_succ_iff`).  `Atom.Rule`
lists the pairs of atoms that are accepted, so that a proof can go through the rules one by one
(`Atom.rule_iff`).  At the end stand `mixed`, which every type lies within, `never`, which lies
within every type, and types with one atom.
-/

namespace TypeProbe

variable {h : Hierarchy} {sub : Ty → Ty → Bool}

/-! ### Atoms and unions -/

theorem Atom.isMixed_iff {a : Atom} : a.isMixed = true ↔ a = .keyword .mixed := by
  unfold Atom.isMixed
  split <;> simp_all

theorem Atom.isNever_iff {a : Atom} : a.isNever = true ↔ a = .keyword .never := by
  unfold Atom.isNever
  split <;> simp_all

theorem Atom.fits_iff {a b : Atom} :
    a.fits h sub b = true ↔ b = .keyword .mixed ∨ a = .keyword .never ∨ a.rule h sub b = true := by
  simp only [Atom.fits, Bool.or_eq_true, Atom.isMixed_iff, Atom.isNever_iff, or_assoc]

/-- The atom lies within some atom of the type. -/
def Atom.FitsIn (h : Hierarchy) (sub : Ty → Ty → Bool) (a : Atom) (t : Ty) : Prop :=
  ∃ b ∈ t.atoms, a.fits h sub b = true

theorem Ty.fits_iff {s t : Ty} :
    s.fits h sub t = true ↔
      ∀ a ∈ s.atoms, a.FitsIn h sub t ∨ ∃ bound ∈ a.bound?, sub bound t = true := by
  simp only [Ty.fits, List.all_eq_true, Bool.or_eq_true, List.any_eq_true, Option.any_eq_true,
    Atom.FitsIn]
  rfl

/-- One step of the judgement. -/
theorem within_succ_iff {depth : Nat} {s t : Ty} :
    within h (depth + 1) s t = true ↔
      ∀ a ∈ s.atoms, a.FitsIn h (within h depth) t ∨
        ∃ bound ∈ a.bound?, within h depth bound t = true :=
  Ty.fits_iff

theorem pos_of_within {depth : Nat} {s t : Ty} (hw : within h depth s t = true) : 0 < depth := by
  cases depth with
  | zero => cases hw
  | succ depth => exact Nat.succ_pos depth

theorem Ty.admits_iff {t : Ty} {word : Keyword} :
    t.admits word = true ↔ ∃ w, .keyword w ∈ t.atoms ∧ (w = .mixed ∨ word.fits w = true) := by
  simp only [Ty.admits, List.any_eq_true]
  constructor
  · rintro ⟨a, ha, h⟩
    cases a with
    | keyword w => exact ⟨w, ha, by simpa using h⟩
    | _ => cases h
  · rintro ⟨w, hw, h⟩
    exact ⟨.keyword w, hw, by simpa using h⟩

/-! ### Objects -/

/-- An object reaches a class through its own class or through that of a facet. -/
theorem ObjectType.reaches_iff {o : ObjectType} {target : String} :
    o.reaches h target = true ↔
      h o.name target = true ∨ ∃ a ∈ o.facets, ∃ f, a.object? = some f ∧ h f.name target = true := by
  simp [ObjectType.reaches, Option.any_eq_true]

theorem ObjectType.fits_iff {o target : ObjectType} :
    o.fits h target = true ↔
      o.reaches h target.name = true ∧
        ∀ a ∈ target.facets, ∀ f, a.object? = some f → o.reaches h f.name = true := by
  simp [ObjectType.fits, Option.all_eq_true]

theorem Ty.pairwise_iff {ts us : List Ty} :
    Ty.pairwise sub ts us = true ↔ List.Forall₂ (fun t u => sub t u = true) ts us := by
  rw [List.forall₂_iff_zip]
  simp [Ty.pairwise]

/-! ### Records -/

namespace Record

/-- Each field of the target has a field within it, or may be missing and has none. -/
theorem fits_iff {r target : Record} :
    r.fits sub target = true ↔
      (target.isSealed = true → r.isSealed = true) ∧
      (∀ f ∈ target.fields,
        (∃ s, Keyed.get? f.1 r.fields = some s ∧ (s.optional = true → f.2.optional = true) ∧
          sub s f.2 = true) ∨
          Keyed.get? f.1 r.fields = none ∧ f.2.optional = true) ∧
      (target.isSealed = true → ∀ k ∈ r.keys, k ∈ target.keys) := by
  have himp : ∀ b c : Bool, (!b || c) = true ↔ (b = true → c = true) := by decide
  have hkey : ∀ k, (Keyed.get? k target.fields).isSome = true ↔ k ∈ target.keys := by
    intro k
    rw [← Option.ne_none_iff_isSome, ne_eq, Keyed.get?_eq_none_iff, Classical.not_not]
    rfl
  unfold fits
  rw [Bool.and_eq_true, Bool.and_eq_true, himp, himp, List.all_eq_true, List.all_eq_true, and_assoc]
  refine and_congr .rfl (and_congr (forall₂_congr fun f _ => ?_)
    (forall_congr' fun _ => forall₂_congr fun k _ => hkey k))
  dsimp only
  cases Keyed.get? f.1 r.fields with
  | none => simp
  | some s => rw [Bool.and_eq_true, himp]; simp

/-- The keys that an unsealed record does not list are array keys with any value. -/
theorem fitsArray_eq_true_iff {r : Record} {key value : Ty} {nonEmpty : Bool} :
    r.fitsArray sub key value nonEmpty = true ↔
      (r.isSealed = true ∨ key.admits .arrayKey = true ∧ value.admits .mixed = true) ∧
      (nonEmpty = true → ∃ t ∈ r.types, t.optional = false) ∧
      (r.fields ≠ [] → sub r.keyType key = true ∧ sub r.valueType value = true) := by
  cases nonEmpty <;> cases hf : r.fields <;> simp [fitsArray, hf, and_assoc]

/-- A sealed record lies in an array if its keys and its values do; an array that is not empty asks
for a slot that is always there. -/
theorem fitsArray_iff {r : Record} {key value : Ty} {nonEmpty : Bool} (hs : r.isSealed = true) :
    r.fitsArray sub key value nonEmpty = true ↔
      (nonEmpty = true → ∃ t ∈ r.types, t.optional = false) ∧
      (r.fields ≠ [] → sub r.keyType key = true ∧ sub r.valueType value = true) := by
  rw [fitsArray_eq_true_iff, and_iff_right (.inl hs)]

theorem fitsList_iff {r : Record} {value : Ty} {nonEmpty : Bool} :
    r.fitsList sub value nonEmpty = true ↔
      r.isList = true ∧ r.isSealed = true ∧ (nonEmpty = true → r.fields ≠ []) ∧
        ∀ t ∈ r.types, sub t value = true := by
  cases nonEmpty <;> simp [fitsList, and_assoc]

end Record

/-! ### Callables -/

theorem Callable.mem_of_paramAt? {c : Callable} {i : Nat} {p : Param} (h : c.paramAt? i = some p) :
    p ∈ c.params := by
  rcases Option.or_eq_some_iff.1 h with h | ⟨-, h⟩
  · exact List.mem_of_getElem? h
  · exact List.mem_of_getLast? (Option.filter_eq_some_iff.1 h).1

/-- Where both parameters at a position have a type, that of the target lies within the other; the
results are compared the other way round, and only `mixed` stands for a missing one. -/
theorem Callable.fits_iff {c target : Callable} :
    c.fits sub target = true ↔
      (target.isClosure = true → c.isClosure = true) ∧ (target.isPure = true → c.isPure = true) ∧
      c.required ≤ target.params.length ∧
      (∀ i p, target.params[i]? = some p →
        ∀ s ∈ (c.paramAt? i).bind (·.type), ∀ t ∈ p.type, sub t s = true) ∧
      ∀ t ∈ target.result,
        (∃ s ∈ c.result, sub s t = true) ∨ c.result = none ∧ .keyword .mixed ∈ t.atoms := by
  have himp : ∀ b c : Bool, (!b || c) = true ↔ (b = true → c = true) := by decide
  unfold fits
  rw [Bool.and_eq_true, Bool.and_eq_true, Bool.and_eq_true, Bool.and_eq_true, himp, himp,
    decide_eq_true_iff, List.all_eq_true, and_assoc, and_assoc, and_assoc]
  refine and_congr .rfl (and_congr .rfl (and_congr .rfl (and_congr ?_ ?_)))
  · simp only [Prod.forall, List.mk_mem_zipIdx_iff_getElem?]
    rw [forall_comm]
    refine forall_congr' fun i => forall_congr' fun p => forall_congr' fun _ => ?_
    cases (c.paramAt? i).bind (·.type) <;> cases p.type <;> simp
  · cases target.result <;> cases c.result <;> simp [Atom.isMixed_iff]

/-! ### One case for each rule -/

/-- How an atom can lie within another one, neither being decided by `mixed` or `never`: one case
for each pair of forms that the rules accept. -/
inductive Atom.Rule (h : Hierarchy) (sub : Ty → Ty → Bool) : Atom → Atom → Prop where
  | keyword {v w : Keyword} : v.fits w = true → Rule h sub (.keyword v) (.keyword w)
  | literalKeyword {x : Literal} {w : Keyword} : x.fits w = true → Rule h sub (.literal x) (.keyword w)
  | literal {x y : Literal} : x.agrees y = true → Rule h sub (.literal x) (.literal y)
  | className {name : String} {bound : Option String} : (∀ c ∈ bound, h name c = true) →
    Rule h sub (.literal (.className name)) (.classString bound)
  | classStringKeyword {bound : Option String} {w : Keyword} : Keyword.nonEmptyString.fits w = true →
    Rule h sub (.classString bound) (.keyword w)
  | classString {bound target : Option String} : (∀ d ∈ target, ∃ c ∈ bound, h c d = true) →
    Rule h sub (.classString bound) (.classString target)
  | object {a : Atom} {o target : ObjectType} : a.object? = some o → o.fits h target = true →
    Rule h sub a (.object target)
  | generic {o target : ObjectType} {ts us : List Ty} : o.genericFits h sub ts target us = true →
    Rule h sub (.generic o ts) (.generic target us)
  | objectGeneric {o target : ObjectType} {us : List Ty} : o.fits h target = true →
    (∀ u ∈ us, ∀ b ∈ u.atoms, b = .keyword .mixed) → Rule h sub (.object o) (.generic target us)
  | record {r target : Record} : r.fits sub target = true → Rule h sub (.record r) (.record target)
  | recordArray {r : Record} {key value : Ty} {nonEmpty : Bool} :
    r.fitsArray sub key value nonEmpty = true →
    Rule h sub (.record r) (.array key value nonEmpty)
  | recordList {r : Record} {value : Ty} {nonEmpty : Bool} : r.fitsList sub value nonEmpty = true →
    Rule h sub (.record r) (.list value nonEmpty)
  | list {v value : Ty} {nonEmpty nonEmpty' : Bool} : (nonEmpty' = true → nonEmpty = true) →
    sub v value = true →
    Rule h sub (.list v nonEmpty) (.list value nonEmpty')
  | listArray {v key value : Ty} {nonEmpty nonEmpty' : Bool} : (nonEmpty' = true → nonEmpty = true) →
    key.admits .int = true → sub v value = true →
      Rule h sub (.list v nonEmpty) (.array key value nonEmpty')
  | array {k v key value : Ty} {nonEmpty nonEmpty' : Bool} : (nonEmpty' = true → nonEmpty = true) →
    sub k key = true → sub v value = true →
      Rule h sub (.array k v nonEmpty) (.array key value nonEmpty')
  | callable {c target : Callable} : c.fits sub target = true →
    Rule h sub (.callable c) (.callable target)
  | template {name scope : String} {bound bound' : Ty} :
    Rule h sub (.template name scope bound) (.template name scope bound')

private theorem nonEmpty_iff {b c : Bool} : (b || !c) = true ↔ (c = true → b = true) := by
  cases b <;> cases c <;> simp

theorem Atom.Rule.of_rule {a b : Atom} (hr : a.rule h sub b = true) : Atom.Rule h sub a b := by
  cases a with
  | keyword v =>
    cases b with
    | keyword w => exact .keyword hr
    | _ => cases hr
  | literal x =>
    cases b with
    | keyword w => exact .literalKeyword (by simpa [Atom.rule] using hr)
    | literal y => exact .literal (by simpa [Atom.rule] using hr)
    | classString bound =>
      cases x with
      | className name => exact .className (by simpa [Atom.rule, Option.all_eq_true] using hr)
      | _ => cases hr
    | _ => simp [Atom.rule] at hr
  | classString bound =>
    cases b with
    | keyword w => exact .classStringKeyword hr
    | classString target =>
      refine .classString fun d hd => ?_
      obtain rfl := Option.mem_def.1 hd
      cases bound with
      | none => cases hr
      | some c => exact ⟨c, rfl, hr⟩
    | _ => simp [Atom.rule] at hr
  | object o =>
    cases b with
    | object target => exact .object rfl hr
    | generic target us =>
      obtain ⟨hfits, hmixed⟩ := Bool.and_eq_true_iff.1 hr
      simp only [List.all_eq_true, Atom.isMixed_iff] at hmixed
      exact .objectGeneric hfits hmixed
    | _ => cases hr
  | generic o ts =>
    cases b with
    | object target => exact .object rfl hr
    | generic target us => exact .generic hr
    | _ => cases hr
  | record r =>
    cases b with
    | record target => exact .record hr
    | array key value nonEmpty => exact .recordArray hr
    | list value nonEmpty => exact .recordList hr
    | _ => cases hr
  | callable c =>
    cases b with
    | callable target => exact .callable hr
    | _ => cases hr
  | template name scope bound =>
    cases b with
    | template name' scope' bound' =>
      obtain ⟨hname, hscope⟩ := Bool.and_eq_true_iff.1 hr
      obtain rfl := eq_of_beq hname
      obtain rfl := eq_of_beq hscope
      exact .template
    | _ => cases hr
  | array k v nonEmpty =>
    cases b with
    | array key value nonEmpty' =>
      simp only [Atom.rule, Bool.and_eq_true, nonEmpty_iff] at hr
      exact .array hr.1.1 hr.1.2 hr.2
    | _ => cases hr
  | list v nonEmpty =>
    cases b with
    | array key value nonEmpty' =>
      simp only [Atom.rule, Bool.and_eq_true, nonEmpty_iff] at hr
      exact .listArray hr.1.1 hr.1.2 hr.2
    | list value nonEmpty' =>
      simp only [Atom.rule, Bool.and_eq_true, nonEmpty_iff] at hr
      exact .list hr.1 hr.2
    | _ => cases hr

theorem Atom.Rule.rule {a b : Atom} (hr : Atom.Rule h sub a b) : a.rule h sub b = true := by
  cases hr with
  | keyword hw | classStringKeyword hw | generic hw | record hw | recordArray hw | recordList hw
  | callable hw =>
    exact hw
  | literalKeyword hw => simpa [Atom.rule] using hw
  | literal hxy => simpa [Atom.rule] using hxy
  | @className name bound hb =>
    cases bound with
    | none => rfl
    | some c => exact hb c rfl
  | @classString bound target hb =>
    cases target with
    | none => cases bound <;> rfl
    | some d =>
      obtain ⟨c, hc, hcd⟩ := hb d rfl
      obtain rfl := Option.mem_def.1 hc
      exact hcd
  | object ho hfits =>
    cases a with
    | object p => exact Option.some.inj ho ▸ hfits
    | generic p ts => exact Option.some.inj ho ▸ hfits
    | _ => cases ho
  | objectGeneric hfits hmixed =>
    simpa only [Atom.rule, Bool.and_eq_true, List.all_eq_true, Atom.isMixed_iff]
      using And.intro hfits hmixed
  | list hn hv =>
    simpa only [Atom.rule, Bool.and_eq_true, nonEmpty_iff] using And.intro hn hv
  | listArray hn hk hv =>
    simp only [Atom.rule, Bool.and_eq_true, nonEmpty_iff]
    exact ⟨⟨hn, hk⟩, hv⟩
  | array hn hk hv =>
    simp only [Atom.rule, Bool.and_eq_true, nonEmpty_iff]
    exact ⟨⟨hn, hk⟩, hv⟩
  | template => simp [Atom.rule]

theorem Atom.rule_iff {a b : Atom} : a.rule h sub b = true ↔ Atom.Rule h sub a b :=
  ⟨Atom.Rule.of_rule, Atom.Rule.rule⟩

theorem Atom.Rule.fits {a b : Atom} (hr : Atom.Rule h sub a b) : a.fits h sub b = true :=
  Atom.fits_iff.2 (.inr (.inr hr.rule))

/-! ### The top and the bottom -/

theorem Atom.not_rule_never (a : Atom) : ¬ a.rule h sub (.keyword .never) = true := by
  cases a with
  | keyword w => cases w <;> simp [Atom.rule, Keyword.fits]
  | literal x => cases x <;> simp [Atom.rule, Literal.fits, Keyword.fits]
  | _ => simp [Atom.rule, Keyword.fits]

theorem Atom.not_mixed_rule (a : Atom) : ¬ (Atom.keyword .mixed).rule h sub a = true := by
  cases a with
  | keyword w => cases w <;> simp [Atom.rule, Keyword.fits]
  | _ => simp [Atom.rule]

theorem within_of_mem_mixed {depth : Nat} (hd : 0 < depth) {s t : Ty} (ht : .keyword .mixed ∈ t.atoms) :
    within h depth s t = true := by
  obtain ⟨n, rfl⟩ : ∃ n, depth = n + 1 := ⟨depth - 1, by omega⟩
  rw [within_succ_iff]
  intro a _
  exact .inl ⟨.keyword .mixed, ht, Atom.fits_iff.2 (.inl rfl)⟩

/-- Only `mixed` has all values. -/
theorem mem_mixed_of_within {depth : Nat} {t : Ty} (hw : within h depth (.ofKeyword .mixed) t = true) :
    .keyword .mixed ∈ t.atoms := by
  have hpos := pos_of_within hw
  obtain ⟨n, rfl⟩ : ∃ n, depth = n + 1 := ⟨depth - 1, by omega⟩
  rcases within_succ_iff.1 hw _ (List.mem_singleton.2 rfl) with ⟨b, hb, hfits⟩ | ⟨bound, hbound, -⟩
  · rcases Atom.fits_iff.1 hfits with rfl | hnever | hrule
    · exact hb
    · cases hnever
    · exact absurd hrule b.not_mixed_rule
  · cases hbound

theorem within_never {depth : Nat} (hd : 0 < depth) {t : Ty} (ht : t.atoms ≠ []) :
    within h depth (.ofKeyword .never) t = true := by
  obtain ⟨n, rfl⟩ : ∃ n, depth = n + 1 := ⟨depth - 1, by omega⟩
  obtain ⟨b, hb⟩ := List.exists_mem_of_ne_nil _ ht
  rw [within_succ_iff]
  intro a ha
  obtain rfl := List.mem_singleton.1 ha
  exact .inl ⟨b, hb, Atom.fits_iff.2 (.inr (.inl rfl))⟩

/-- The mark of a slot is not looked at. -/
theorem within_asRequired {depth : Nat} (s t : Ty) :
    within h depth s.asRequired t = within h depth s t := by
  cases depth <;> rfl

/-! ### Types with one atom -/

/-- An atom without a bound has to fit an atom of the target. -/
theorem Ty.isWithin_single_iff {a : Atom} (ha : a.bound? = none) {t : Ty} :
    (Ty.single a).isWithin h t = true ↔ a.FitsIn h (within h depthLimit) t := by
  unfold Ty.isWithin
  rw [within_succ_iff]
  simp [Ty.single, ha]

theorem Record.isWithin_iff {r target : Record} :
    (Ty.single (.record r)).isWithin h (.single (.record target)) = true ↔
      r.fits (within h depthLimit) target = true := by
  rw [Ty.isWithin_single_iff rfl]
  simp [Atom.FitsIn, Ty.single, Atom.fits_iff, Atom.rule]

theorem Callable.isWithin_iff {c target : Callable} :
    (Ty.single (.callable c)).isWithin h (.single (.callable target)) = true ↔
      c.fits (within h depthLimit) target = true := by
  rw [Ty.isWithin_single_iff rfl]
  simp [Atom.FitsIn, Ty.single, Atom.fits_iff, Atom.rule]

end TypeProbe
