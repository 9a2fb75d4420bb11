import TypeProbe.Proofs.Containment.Monotone
import TypeProbe.Ty.Shorthand

/-!
# Calls of a function where another one is expected

A callable admits calls with at least the arguments it requires and at most as many as it has
parameters, or any number if the last parameter takes the rest (`Callable.Admits`).  A function
serves all calls that a target admits if none of them leaves out an argument that it requires
and each argument it declares a parameter for is passed with a type within that of the
parameter (`Callable.Serves`).

The judgement looks at the parameters of the target one by one.  So it vouches for the calls with at
least as many arguments as the target has parameters, as far as these parameters go
(`Callable.serves_iff`).  The calls that leave out optional arguments, and the arguments that a rest
parameter takes from the function's further parameters, it does not see.
-/

namespace TypeProbe

variable {h : Hierarchy}

namespace Callable

/-! ### Calls -/

/-- The last parameter, if it takes all further arguments. -/
def rest? (c : Callable) : Option Param :=
  c.params.getLast?.filter (·.variadic)

/-- Whether the callable may be called with `n` arguments. -/
def Admits (c : Callable) (n : Nat) : Prop :=
  c.required ≤ n ∧ (n ≤ c.params.length ∨ c.rest?.isSome = true)

/-- The function can be called in every way the target may be called: with enough arguments, each of
which the parameter for it takes; what the function declares no parameter for it leaves aside. -/
def Serves (h : Hierarchy) (c target : Callable) : Prop :=
  ∀ n, target.Admits n → c.required ≤ n ∧
    ∀ i < n, ∀ p ∈ c.paramAt? i,
      ∃ q ∈ target.paramAt? i, ∀ s ∈ p.type, ∀ t ∈ q.type, t.isWithin h s = true

theorem paramAt?_of_lt {c : Callable} {i : Nat} (hi : i < c.params.length) :
    c.paramAt? i = c.params[i]? := by
  rw [paramAt?, List.getElem?_eq_getElem hi]
  rfl

theorem paramAt?_of_le {c : Callable} {i : Nat} (hi : c.params.length ≤ i) :
    c.paramAt? i = c.rest? := by
  rw [paramAt?, List.getElem?_eq_none hi]
  rfl

theorem required_le_length (c : Callable) : c.required ≤ c.params.length :=
  List.countP_le_length

/-- The last parameter is the one at the last position. -/
theorem getElem?_of_rest? {c : Callable} {p : Param} (hp : c.rest? = some p) :
    0 < c.params.length ∧ c.params[c.params.length - 1]? = some p := by
  have hlast : c.params.getLast? = some p := (Option.filter_eq_some_iff.1 hp).1
  refine ⟨List.length_pos_of_ne_nil fun hnil => ?_, ?_⟩
  · rw [hnil] at hlast
    cases hlast
  · rw [← List.getLast?_eq_getElem?, hlast]

/-! ### What the judgement vouches for -/

variable {c target : Callable}

/-- At a position where the target declares a parameter, its argument is taken. -/
theorem isWithin_of_getElem? (hfit : c.fits (within h depthLimit) target = true) {i : Nat}
    {p q : Param} (hp : c.paramAt? i = some p) (hq : target.params[i]? = some q) {s t : Ty}
    (hs : s ∈ p.type) (ht : t ∈ q.type) : t.isWithin h s = true := by
  obtain ⟨-, -, -, hparams, -⟩ := Callable.fits_iff.1 hfit
  have hbind : s ∈ (c.paramAt? i).bind (·.type) := by
    rw [hp, Option.bind_some]
    exact hs
  exact within_mono (Nat.le_succ depthLimit) (hparams i q hq s hbind t ht)

/-- Behind the parameters of the target its rest parameter's arguments are taken, if they are by the
parameters that the function declares there. -/
theorem isWithin_of_rest? (hfit : c.fits (within h depthLimit) target = true) {q : Param}
    (hq : target.rest? = some q)
    (hbehind : ∀ i, target.params.length ≤ i →
      ∀ p ∈ c.params[i]?, ∀ s ∈ p.type, ∀ t ∈ q.type, t.isWithin h s = true) {i : Nat}
    (hi : target.params.length ≤ i) {p : Param} (hp : c.paramAt? i = some p) {s t : Ty}
    (hs : s ∈ p.type) (ht : t ∈ q.type) : t.isWithin h s = true := by
  by_cases hc : i < c.params.length
  · rw [paramAt?_of_lt hc] at hp
    exact hbehind i hi p hp s hs t ht
  · -- The function's rest parameter is its last one, which stands behind the
    -- target's parameters or within them.
    rw [paramAt?_of_le (by omega)] at hp
    obtain ⟨hcpos, hclast⟩ := getElem?_of_rest? hp
    obtain ⟨htpos, htlast⟩ := getElem?_of_rest? hq
    by_cases hle : c.params.length ≤ target.params.length
    · have hat : c.paramAt? (target.params.length - 1) = some p := by
        by_cases heq : c.params.length = target.params.length
        · rw [paramAt?_of_lt (by omega), ← heq, hclast]
        · rw [paramAt?_of_le (by omega), hp]
      exact isWithin_of_getElem? hfit hat htlast hs ht
    · exact hbehind (c.params.length - 1) (by omega) p hclast s hs t ht

/-- A call that goes on to position `i` passes an argument of the rest parameter's type there. -/
theorem Serves.isWithin_of_rest? (hserves : c.Serves h target) {q : Param}
    (hq : target.rest? = some q) {i : Nat} (hi : target.params.length ≤ i) {p : Param}
    (hp : c.params[i]? = some p) {s t : Ty} (hs : s ∈ p.type) (ht : t ∈ q.type) :
    t.isWithin h s = true := by
  have hrequired : target.required ≤ i + 1 := by
    have := target.required_le_length
    omega
  have hadmits : target.Admits (i + 1) := ⟨hrequired, .inr (Option.isSome_iff_exists.2 ⟨q, hq⟩)⟩
  have hat : c.paramAt? i = some p := by
    obtain ⟨hlt, -⟩ := List.getElem?_eq_some_iff.1 hp
    rw [paramAt?_of_lt hlt, hp]
  obtain ⟨r, hr, hwithin⟩ := (hserves (i + 1) hadmits).2 i (Nat.lt_succ_self i) p hat
  rw [paramAt?_of_le hi, hq] at hr
  obtain rfl := Option.some.inj hr
  exact hwithin s hs t ht

/-- A function that is accepted needs no more arguments than the target has parameters and takes
what the target takes at the positions of these.  It serves all calls of the target if and only if
it requires no more arguments than the target does and its parameters behind those of the target
take what the target's rest parameter takes. -/
theorem serves_iff (h : Hierarchy) {c target : Callable}
    (hw : (Ty.single (.callable c)).isWithin h (.single (.callable target)) = true) :
    (c.required ≤ target.params.length ∧
      ∀ i < target.params.length, ∀ p ∈ c.paramAt? i, ∃ q ∈ target.paramAt? i,
        ∀ s ∈ p.type, ∀ t ∈ q.type, t.isWithin h s = true) ∧
    (c.Serves h target ↔
      c.required ≤ target.required ∧
        ∀ q ∈ target.rest?, ∀ i, target.params.length ≤ i → ∀ p ∈ c.params[i]?,
          ∀ s ∈ p.type, ∀ t ∈ q.type, t.isWithin h s = true) := by
  have hfit := Callable.isWithin_iff.1 hw
  have hdeclared : ∀ i < target.params.length, ∀ p ∈ c.paramAt? i, ∃ q ∈ target.paramAt? i,
      ∀ s ∈ p.type, ∀ t ∈ q.type, t.isWithin h s = true := by
    intro i hi p hp
    have hq := List.getElem?_eq_getElem hi
    exact ⟨_, (paramAt?_of_lt hi).trans hq, fun s hs t ht => isWithin_of_getElem? hfit hp hq hs ht⟩
  refine ⟨⟨(Callable.fits_iff.1 hfit).2.2.1, hdeclared⟩, fun hserves => ⟨?_, ?_⟩, ?_⟩
  · exact (hserves target.required ⟨Nat.le_refl _, .inl target.required_le_length⟩).1
  · intro q hq i hi p hp s hs t ht
    exact hserves.isWithin_of_rest? hq hi hp hs ht
  · rintro ⟨hrequired, hbehind⟩ n ⟨hn, hmost⟩
    refine ⟨Nat.le_trans hrequired hn, fun i hi p hp => ?_⟩
    by_cases hlt : i < target.params.length
    · exact hdeclared i hlt p hp
    · -- Only a rest parameter admits a call with arguments behind the target's parameters.
      obtain ⟨q, hq⟩ : ∃ q, target.rest? = some q := by
        rcases hmost with hmost | hrest
        · omega
        · exact Option.isSome_iff_exists.1 hrest
      refine ⟨q, (paramAt?_of_le (by omega)).trans hq, fun s hs t ht => ?_⟩
      exact isWithin_of_rest? hfit hq (hbehind q hq) (by omega) hp hs ht

/-- A callable with the given parameters and no declared result. -/
private def taking (params : List Param) : Callable :=
  ⟨params, none, false, false⟩

private def needed (word : Keyword) : Param :=
  ⟨"needed", some (.ofKeyword word), false, false, false⟩

private def optional (word : Keyword) : Param :=
  ⟨"optional", some (.ofKeyword word), false, false, true⟩

private def rest (word : Keyword) : Param :=
  ⟨"rest", some (.ofKeyword word), false, true, false⟩

/-- Any number of integers is passed; the function takes up to three and leaves the others aside. -/
theorem serves_iff_upToThree :
    (Ty.single (.callable (taking [needed .mixed, optional .int, optional .arrayKey]))).isWithin .flat
        (.single (.callable (taking [needed .int, rest .int]))) = true ∧
      (taking [needed .mixed, optional .int, optional .arrayKey]).Serves .flat
        (taking [needed .int, rest .int]) ∧
      (taking [needed .int, rest .int]).Admits 5 := by
  have hw :
      (Ty.single (.callable (taking [needed .mixed, optional .int, optional .arrayKey]))).isWithin .flat
        (.single (.callable (taking [needed .int, rest .int]))) = true := by decide +kernel
  refine ⟨hw, (serves_iff .flat hw).2.2 ⟨by decide, ?_⟩, by decide, .inr rfl⟩
  intro q hq i hi p hp s hs t ht
  obtain ⟨hlt, -⟩ := List.getElem?_eq_some_iff.1 hp
  obtain rfl : i = 2 := by
    have : 2 ≤ i := hi
    have : i < 3 := hlt
    omega
  obtain rfl := Option.some.inj hq
  obtain rfl := Option.some.inj hp
  obtain rfl := Option.some.inj hs
  obtain rfl := Option.some.inj ht
  decide +kernel

/-- Two functions that are accepted and do not serve all calls: a function that needs its
argument where it may be left out, and one whose second parameter takes texts where any
number of integers may be passed. -/
theorem isWithin_not_serves :
    ((Ty.single (.callable (taking [needed .int]))).isWithin .flat
        (.single (.callable (taking [optional .int]))) = true ∧
      ¬ (taking [needed .int]).Serves .flat (taking [optional .int])) ∧
    (Ty.single (.callable (taking [optional .int, optional .string]))).isWithin .flat
        (.single (.callable (taking [rest .int]))) = true ∧
      ¬ (taking [optional .int, optional .string]).Serves .flat (taking [rest .int]) := by
  refine ⟨⟨by decide +kernel, fun hserves => ?_⟩, by decide +kernel, fun hserves => ?_⟩
  · have hnone : (taking [optional .int]).Admits 0 := ⟨by decide, .inl (by decide)⟩
    have hle := (hserves 0 hnone).1
    exact absurd hle (by decide)
  · have htwo : (taking [rest .int]).Admits 2 := ⟨by decide, .inr rfl⟩
    obtain ⟨q, hq, hwithin⟩ := (hserves 2 htwo).2 1 (by decide) (optional .string) rfl
    obtain rfl := Option.some.inj hq
    exact absurd (hwithin _ rfl _ rfl) (by decide +kernel)

end Callable

end TypeProbe
