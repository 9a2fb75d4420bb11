import TypeProbe.Proofs.Number.DecimalText

/-!
# The shortest decimal reads back

Around every finite number lie the decimals that are nearer to it than to any other number, and
those in the middle between two neighbours belong to the one with the even mantissa (`ReadsAs`).  No
decimal belongs to two numbers (`ReadsAs.ordinal_eq`), the shortest decimal of a number belongs to
it (`shortest_readsAs`), and so a number is determined by its text (`text_injective`).
-/

namespace TypeProbe.Binary64

/-! ### Numbers in order -/

/-- The place of a finite number among those of its sign. -/
def ordinal (x : Binary64) : Nat :=
  x.exponent * 2 ^ 52 + x.fraction

private def mantissaAt (n : Nat) : Nat :=
  if n / 2 ^ 52 = 0 then n % 2 ^ 52 else 2 ^ 52 + n % 2 ^ 52

private def scaleAt (n : Nat) : Int :=
  (max (n / 2 ^ 52) 1 : Nat) - 1075

/-- The distance to the next larger number. -/
private def gapAt (n : Nat) : ℚ :=
  2 ^ scaleAt n

private def magnitudeAt (n : Nat) : ℚ :=
  mantissaAt n * gapAt n

/-- The middle between a number and the next larger one. -/
private def upperAt (n : Nat) : ℚ :=
  magnitudeAt n + gapAt n / 2

/-- The middle between a number and the next smaller one. -/
private def lowerAt (n : Nat) : ℚ :=
  magnitudeAt n - if n % 2 ^ 52 = 0 ∧ 1 < n / 2 ^ 52 then gapAt n / 4 else gapAt n / 2

/-- The decimal belongs to the number at that place. -/
private def ReadsAs (q : ℚ) (n : Nat) : Prop :=
  (lowerAt n < q ∨ n % 2 = 0 ∧ lowerAt n = q) ∧ (q < upperAt n ∨ n % 2 = 0 ∧ q = upperAt n)

private theorem gapAt_pos (n : Nat) : 0 < gapAt n := by
  unfold gapAt
  positivity

private theorem lowerAt_lt_magnitudeAt (n : Nat) : lowerAt n < magnitudeAt n := by
  have hpos := gapAt_pos n
  unfold lowerAt
  split <;> linarith

private theorem lowerAt_lt_upperAt (n : Nat) : lowerAt n < upperAt n := by
  have hpos := gapAt_pos n
  have hlt := lowerAt_lt_magnitudeAt n
  unfold upperAt
  linarith

/-- Neighbours meet in the middle. -/
private theorem upperAt_eq_lowerAt_succ (n : Nat) : upperAt n = lowerAt (n + 1) := by
  by_cases hf : n % 2 ^ 52 + 1 < 2 ^ 52
  · -- Both have the same exponent.
    have he : (n + 1) / 2 ^ 52 = n / 2 ^ 52 := by omega
    have hm : (n + 1) % 2 ^ 52 = n % 2 ^ 52 + 1 := by omega
    have hmant : mantissaAt (n + 1) = mantissaAt n + 1 := by
      unfold mantissaAt
      rw [he, hm]
      split <;> omega
    have hgap : gapAt (n + 1) = gapAt n := by
      unfold gapAt scaleAt
      rw [he]
    have hnot : ¬ ((n + 1) % 2 ^ 52 = 0 ∧ 1 < (n + 1) / 2 ^ 52) := by omega
    unfold upperAt lowerAt magnitudeAt
    rw [if_neg hnot, hmant, hgap]
    push_cast
    ring
  · have he : (n + 1) / 2 ^ 52 = n / 2 ^ 52 + 1 := by omega
    have hm : (n + 1) % 2 ^ 52 = 0 := by omega
    have hlast : n % 2 ^ 52 = 2 ^ 52 - 1 := by omega
    have hmant : mantissaAt (n + 1) = 2 ^ 52 := by
      unfold mantissaAt
      rw [he, hm]
      simp
    unfold upperAt lowerAt magnitudeAt
    rw [hmant, he, hm]
    by_cases hz : n / 2 ^ 52 = 0
    · -- The next number is the smallest with a leading one.
      have hmant' : mantissaAt n = 2 ^ 52 - 1 := by
        unfold mantissaAt
        rw [if_pos hz, hlast]
      have hgap : gapAt (n + 1) = gapAt n := by
        unfold gapAt scaleAt
        rw [he, hz]
        rfl
      rw [hmant', hgap, hz]
      norm_num
      ring
    · -- The next number has the next exponent.
      have hmant' : mantissaAt n = 2 ^ 53 - 1 := by
        unfold mantissaAt
        rw [if_neg hz, hlast]
        norm_num
      have hgap : gapAt (n + 1) = 2 * gapAt n := by
        have hscale : scaleAt (n + 1) = scaleAt n + 1 := by
          unfold scaleAt
          rw [he]
          omega
        unfold gapAt
        rw [hscale, zpow_add_one₀ two_ne_zero]
        ring
      have hpos : 1 < n / 2 ^ 52 + 1 := by omega
      rw [hmant', hgap, if_pos ⟨rfl, hpos⟩]
      norm_num
      ring

private theorem upperAt_le_lowerAt {n k : Nat} (h : n < k) :
    upperAt n ≤ lowerAt k ∧ (upperAt n = lowerAt k → k = n + 1) := by
  induction k with
  | zero => omega
  | succ k ih =>
    rcases Nat.lt_succ_iff_lt_or_eq.1 h with h | rfl
    · have hlt : upperAt n < lowerAt (k + 1) :=
        lt_of_le_of_lt (ih h).1 (upperAt_eq_lowerAt_succ k ▸ lowerAt_lt_upperAt k)
      exact ⟨hlt.le, fun e => absurd e hlt.ne⟩
    · exact ⟨(upperAt_eq_lowerAt_succ n).le, fun _ => rfl⟩

private theorem not_readsAs_of_lt {q : ℚ} {n k : Nat} (h : n < k) (hn : ReadsAs q n) :
    ¬ ReadsAs q k := by
  intro hk
  obtain ⟨hle, heq⟩ := upperAt_le_lowerAt h
  rcases hn.2 with hqn | ⟨hne, hqn⟩ <;> rcases hk.1 with hqk | ⟨hke, hqk⟩
  · linarith
  · linarith
  · linarith
  · -- The decimal is in the middle, and of two neighbours only one is even.
    have := heq (hqn.symm.trans hqk.symm)
    omega

/-- A decimal belongs to one number only. -/
private theorem ReadsAs.ordinal_eq {q : ℚ} {n k : Nat} (hn : ReadsAs q n) (hk : ReadsAs q k) :
    n = k := by
  rcases Nat.lt_trichotomy n k with h | h | h
  · exact absurd hk (not_readsAs_of_lt h hn)
  · exact h
  · exact absurd hn (not_readsAs_of_lt h hk)

/-! ### The number of a place -/

private theorem fraction_lt (x : Binary64) : x.fraction < 2 ^ 52 :=
  Nat.mod_lt _ (Nat.pow_pos (by omega))

private theorem mantissa_eq (x : Binary64) :
    x.mantissa = if x.exponent = 0 then x.fraction else 2 ^ 52 + x.fraction := rfl

private theorem ordinal_div (x : Binary64) : x.ordinal / 2 ^ 52 = x.exponent := by
  have := fraction_lt x
  unfold ordinal
  omega

private theorem ordinal_mod (x : Binary64) : x.ordinal % 2 ^ 52 = x.fraction := by
  have := fraction_lt x
  unfold ordinal
  omega

private theorem mantissaAt_ordinal (x : Binary64) : mantissaAt x.ordinal = x.mantissa := by
  rw [mantissa_eq, mantissaAt, ordinal_div, ordinal_mod]

private theorem gapAt_ordinal (x : Binary64) : gapAt x.ordinal = 2 ^ x.scale := by
  unfold gapAt scaleAt scale
  rw [ordinal_div]

/-- The mantissa is even at every second place. -/
private theorem mantissa_mod_two (x : Binary64) : x.mantissa % 2 = x.ordinal % 2 := by
  rw [← mantissaAt_ordinal]
  unfold mantissaAt
  split <;> omega

private theorem lowerAt_ordinal (x : Binary64) :
    lowerAt x.ordinal =
      magnitudeAt x.ordinal -
        if x.isAtPowerOfTwo then gapAt x.ordinal / 4 else gapAt x.ordinal / 2 := by
  have hiff : (x.ordinal % 2 ^ 52 = 0 ∧ 1 < x.ordinal / 2 ^ 52) ↔ x.isAtPowerOfTwo = true := by
    rw [ordinal_div, ordinal_mod]
    simp [isAtPowerOfTwo]
  unfold lowerAt
  simp only [hiff]

/-! ### Grids -/

/-- The distance to the next larger number, in the unit of `scaledBy`. -/
private def gapScaledBy (x : Binary64) (power : Int) : Nat :=
  2 ^ x.scale.toNat * 10 ^ (-power).toNat

private theorem zpow_toNat {b : ℚ} (hb : b ≠ 0) (z : Int) : b ^ z.toNat = b ^ z * b ^ (-z).toNat := by
  rcases Int.le_total 0 z with h | h
  · obtain ⟨n, rfl⟩ := Int.eq_ofNat_of_zero_le h
    simp
  · obtain ⟨n, hn⟩ := Int.eq_ofNat_of_zero_le (Int.neg_nonneg.2 h)
    obtain rfl : z = -(n : Int) := by omega
    have hpow : b ^ n ≠ 0 := pow_ne_zero n hb
    simp [hpow]

/-- On a grid the number, the distance to the next one and the distance of the grid
are integers times one factor. -/
private theorem exists_factor (x : Binary64) (power : Int) :
    ∃ c : ℚ, 0 < c ∧ magnitudeAt x.ordinal = (x.scaledBy power).1 * c ∧
      gapAt x.ordinal = gapScaledBy x power * c ∧
      (10 : ℚ) ^ power = (x.scaledBy power).2 * c := by
  have h2 := zpow_toNat (two_ne_zero (α := ℚ)) x.scale
  have h10 := zpow_toNat (b := 10) (by norm_num) power
  refine ⟨(2 ^ (-x.scale).toNat * 10 ^ (-power).toNat)⁻¹, by positivity, ?_, ?_, ?_⟩
  · rw [magnitudeAt, mantissaAt_ordinal, gapAt_ordinal]
    simp only [scaledBy, Nat.pow_eq]
    push_cast
    rw [h2]
    field_simp
  · rw [gapAt_ordinal]
    simp only [gapScaledBy]
    push_cast
    rw [h2]
    field_simp
  · simp only [scaledBy, Nat.pow_eq]
    push_cast
    rw [h10]
    field_simp

private theorem scaledBy_snd_pos (x : Binary64) (power : Int) : 0 < (x.scaledBy power).2 := by
  simp only [scaledBy, Nat.pow_eq]
  positivity

private theorem scaledBy_fst (x : Binary64) (power : Int) :
    (x.scaledBy power).1 = x.mantissa * gapScaledBy x power := by
  simp only [scaledBy, gapScaledBy, Nat.pow_eq, Nat.mul_assoc]

/-- The distance lies within the reach, or reaches it and the number is even. -/
private def Reaches (x : Binary64) (distance reach : Nat) : Prop :=
  distance < reach ∨ x.ordinal % 2 = 0 ∧ distance = reach

private theorem Reaches.le_of_not {x : Binary64} {distance reach : Nat}
    (h : ¬ Reaches x distance reach) : reach ≤ distance :=
  Nat.le_of_not_lt fun hlt => h (.inl hlt)

private def reachesB (x : Binary64) (distance reach : Nat) : Bool :=
  decide (distance < reach) || x.mantissa % 2 == 0 && distance == reach

private theorem reachesB_iff (x : Binary64) (distance reach : Nat) :
    reachesB x distance reach = true ↔ Reaches x distance reach := by
  simp [reachesB, Reaches, mantissa_mod_two]

/-- How far below a number its decimals go, four times over. -/
private def lowerReach (x : Binary64) (power : Int) : Nat :=
  if x.isAtPowerOfTwo then gapScaledBy x power else 2 * gapScaledBy x power

/-- The decimals that are tried on a grid: the one above the number if it
reaches it, else the one below. -/
private theorem nearestOn?_cases (x : Binary64) (power : Int) :
    ∃ d below above : Nat, (x.scaledBy power).1 = d * (x.scaledBy power).2 + below ∧
      below + above = (x.scaledBy power).2 ∧ 0 < above ∧
      ((x.nearestOn? power = some ⟨d + 1, power⟩ ∧ Reaches x (2 * above) (gapScaledBy x power)) ∨
        (x.nearestOn? power = some ⟨d, power⟩ ∧
          Reaches x (4 * below) (lowerReach x power)) ∨
        (x.nearestOn? power = none ∧ gapScaledBy x power ≤ 2 * above ∧
          lowerReach x power ≤ 4 * below)) := by
  have hfold : ∀ a b : Nat, (decide (a < b) || x.mantissa % 2 == 0 && a == b) = reachesB x a b :=
    fun _ _ => rfl
  have hgap : 2 ^ x.scale.toNat * 10 ^ (-power).toNat = gapScaledBy x power := rfl
  have hdown : (if x.isAtPowerOfTwo = true then gapScaledBy x power else 2 * gapScaledBy x power) =
      lowerReach x power := rfl
  have hpos := scaledBy_snd_pos x power
  unfold nearestOn?
  generalize x.scaledBy power = ratio at hpos ⊢
  obtain ⟨value, unit⟩ := ratio
  simp only at hpos ⊢
  have hmod := Nat.mod_lt value hpos
  have hvalue : value = value / unit * unit + value % unit := (Nat.div_add_mod' value unit).symm
  have hbelow : value - value / unit * unit = value % unit := by omega
  have habove : (value / unit + 1) * unit - value = unit - value % unit := by
    rw [Nat.add_mul, Nat.one_mul]
    omega
  refine ⟨value / unit, value % unit, unit - value % unit, hvalue, by omega, by omega, ?_⟩
  have hupper := reachesB_iff x (2 * (unit - value % unit)) (gapScaledBy x power)
  have hlower := reachesB_iff x (4 * (value % unit)) (lowerReach x power)
  simp only [hbelow, habove, Nat.pow_eq, hgap, hfold, hdown]
  generalize reachesB x (2 * (unit - value % unit)) (gapScaledBy x power) = upper at hupper ⊢
  generalize reachesB x (4 * (value % unit)) (lowerReach x power) = lower at hlower ⊢
  cases upper with
  | false =>
    have hnot : ¬ Reaches x (2 * (unit - value % unit)) (gapScaledBy x power) :=
      fun h => by cases hupper.2 h
    cases lower with
    | false =>
      exact .inr (.inr ⟨rfl, Reaches.le_of_not hnot, Reaches.le_of_not fun h => by cases hlower.2 h⟩)
    | true => exact .inr (.inl ⟨rfl, hlower.1 rfl⟩)
  | true =>
    cases lower with
    | false => exact .inl ⟨rfl, hupper.1 rfl⟩
    | true =>
      by_cases hle : unit - value % unit ≤ value % unit
      · exact .inl ⟨by simp [hle], hupper.1 rfl⟩
      · exact .inr (.inl ⟨by simp [hle], hlower.1 rfl⟩)

/-- A decimal that is found on a grid belongs to the number. -/
private theorem readsAs_of_nearestOn? {x : Binary64} {power : Int} {d : Decimal}
    (h : x.nearestOn? power = some d) : ReadsAs d.value x.ordinal := by
  obtain ⟨c, hc, hmag, hgap, hten⟩ := exists_factor x power
  obtain ⟨n, below, above, hvalue, hunit, habove, hcases⟩ := nearestOn?_cases x power
  have hvalue' : ((x.scaledBy power).1 : ℚ) = n * (below + above) + below := by
    rw [hvalue, ← hunit]
    push_cast
    ring
  have hunit' : ((x.scaledBy power).2 : ℚ) = below + above := by
    rw [← hunit]
    push_cast
    ring
  have hgapPos : 0 < gapAt x.ordinal := gapAt_pos _
  have hlower : lowerAt x.ordinal = magnitudeAt x.ordinal - lowerReach x power * c / 4 := by
    rw [lowerAt_ordinal, hgap, lowerReach]
    split <;> push_cast <;> ring
  have hreachPos : (0 : ℚ) < lowerReach x power * c := by
    have := lowerAt_lt_magnitudeAt x.ordinal
    linarith
  rw [hvalue'] at hmag
  rw [hunit'] at hten
  rcases hcases with ⟨he, hreach⟩ | ⟨he, hreach⟩ | ⟨he, -⟩ <;> rw [he] at h
  · obtain rfl := Option.some.inj h
    have hq : Decimal.value ⟨n + 1, power⟩ = magnitudeAt x.ordinal + above * c := by
      simp only [Decimal.value, hten, hmag]
      push_cast
      ring
    have hlt : magnitudeAt x.ordinal < Decimal.value ⟨n + 1, power⟩ := by
      have : (0 : ℚ) < above * c := by positivity
      linarith
    refine ⟨.inl ?_, ?_⟩
    · rw [hlower]
      linarith
    · rw [hq, upperAt, hgap]
      rcases hreach with hlt | ⟨heven, heq⟩
      · left
        have hcast : (2 : ℚ) * above < gapScaledBy x power := by exact_mod_cast hlt
        nlinarith
      · right
        have hcast : (2 : ℚ) * above = gapScaledBy x power := by exact_mod_cast heq
        exact ⟨heven, by rw [← hcast]; ring⟩
  · obtain rfl := Option.some.inj h
    have hq : Decimal.value ⟨n, power⟩ = magnitudeAt x.ordinal - below * c := by
      simp only [Decimal.value, hten, hmag]
      ring
    refine ⟨?_, .inl ?_⟩
    · rw [hq, hlower]
      rcases hreach with hlt | ⟨heven, heq⟩
      · left
        have hcast : (4 : ℚ) * below < lowerReach x power := by exact_mod_cast hlt
        nlinarith
      · right
        have hcast : (4 : ℚ) * below = lowerReach x power := by exact_mod_cast heq
        exact ⟨heven, by rw [← hcast]; ring⟩
    · have : (0 : ℚ) ≤ below * c := by positivity
      rw [hq, upperAt]
      linarith
  · cases h

/-! ### Seventeen digits suffice -/

private theorem mantissa_lt (x : Binary64) : x.mantissa < 2 ^ 53 := by
  have := fraction_lt x
  rw [mantissa_eq]
  split <;> omega

private theorem mantissa_of_isAtPowerOfTwo {x : Binary64} (h : x.isAtPowerOfTwo = true) :
    x.mantissa = 2 ^ 52 := by
  simp only [isAtPowerOfTwo, Bool.and_eq_true, beq_iff_eq, decide_eq_true_eq] at h
  rw [mantissa_eq, if_neg (by omega), h.1, Nat.add_zero]

/-- A grid with seventeen digits has a decimal that belongs to the number. -/
private theorem nearestOn?_ne_none {x : Binary64} {power : Int}
    (h : (10 : ℚ) ^ power * 10 ^ 16 ≤ magnitudeAt x.ordinal) :
    x.nearestOn? power ≠ none := by
  intro hnone
  obtain ⟨c, hc, hmag, -, hten⟩ := exists_factor x power
  obtain ⟨n, below, above, -, hunit, habove, hcases⟩ := nearestOn?_cases x power
  have hfine : (x.scaledBy power).2 * 10 ^ 16 ≤ x.mantissa * gapScaledBy x power := by
    rw [hmag, hten, mul_right_comm] at h
    rw [← scaledBy_fst]
    exact_mod_cast le_of_mul_le_mul_right h hc
  rcases hcases with ⟨he, -⟩ | ⟨he, -⟩ | ⟨-, hup, hdown⟩
  · rw [he] at hnone
    cases hnone
  · rw [he] at hnone
    cases hnone
  · unfold lowerReach at hdown
    split at hdown
    · rename_i hp
      rw [mantissa_of_isAtPowerOfTwo hp] at hfine
      omega
    · have hle : gapScaledBy x power ≤ (x.scaledBy power).2 := by omega
      have hlt := mantissa_lt x
      have hmul : x.mantissa * gapScaledBy x power ≤ 2 ^ 53 * (x.scaledBy power).2 :=
        Nat.mul_le_mul hlt.le hle
      omega

private theorem readsAs_shortestFrom {x : Binary64} {power : Int} {finer : Nat}
    (h : (10 : ℚ) ^ (power - finer) * 10 ^ 16 ≤ magnitudeAt x.ordinal) :
    ReadsAs (x.shortestFrom power (finer + 1)).value x.ordinal := by
  induction finer generalizing power with
  | zero =>
    cases hd : x.nearestOn? power with
    | none => exact absurd hd (nearestOn?_ne_none (by simpa using h))
    | some d => simpa [shortestFrom, hd] using readsAs_of_nearestOn? hd
  | succ finer ih =>
    rw [shortestFrom]
    cases hd : x.nearestOn? power with
    | none =>
      refine ih ?_
      have hpower : power - 1 - (finer : Int) = power - (finer + 1 : Nat) := by omega
      rw [hpower]
      exact h
    | some d => exact readsAs_of_nearestOn? hd

/-! ### The leading digit -/

private theorem leadingBelowOne_le {n d tries : Nat} (h : d ≤ 10 ^ tries * n) :
    (10 : ℚ) ^ leadingBelowOne n d tries * d ≤ n := by
  induction tries generalizing n with
  | zero =>
    have hle : d ≤ n := by omega
    simpa [leadingBelowOne] using (Nat.cast_le (α := ℚ)).2 hle
  | succ tries ih =>
    rw [leadingBelowOne]
    split
    · rename_i hle
      have hcast : (d : ℚ) ≤ 10 * n := by exact_mod_cast hle
      rw [zpow_neg_one]
      linarith
    · have hle : d ≤ 10 ^ tries * (10 * n) := by rwa [← Nat.mul_assoc, ← Nat.pow_succ]
      have hih := ih hle
      push_cast at hih
      rw [zpow_sub_one₀ (by norm_num)]
      linarith

private theorem leading_le {x : Binary64} (h : 0 < x.mantissa) :
    (10 : ℚ) ^ x.leading ≤ magnitudeAt x.ordinal := by
  obtain ⟨c, hc, hmag, -, hten⟩ := exists_factor x 0
  have hpos := scaledBy_snd_pos x 0
  rw [zpow_zero] at hten
  have hratio : (10 : ℚ) ^ x.leading * (x.scaledBy 0).2 ≤ (x.scaledBy 0).1 := by
    unfold leading
    simp only
    split
    · rename_i hle
      have hquot : 1 ≤ (x.scaledBy 0).1 / (x.scaledBy 0).2 := (Nat.one_le_div_iff hpos).2 hle
      have hlen := Nat.length_toDigits_pos (b := 10) (n := (x.scaledBy 0).1 / (x.scaledBy 0).2)
      obtain ⟨k, hk⟩ : ∃ k, (Nat.toDigits 10 ((x.scaledBy 0).1 / (x.scaledBy 0).2)).length = k + 1 :=
        ⟨_, (Nat.sub_add_cancel hlen).symm⟩
      have hpow : 10 ^ k ≤ (x.scaledBy 0).1 / (x.scaledBy 0).2 := by
        rcases Nat.eq_zero_or_pos k with rfl | hk'
        · exact hquot
        · have hiff := Nat.length_toDigits_le_iff (n := (x.scaledBy 0).1 / (x.scaledBy 0).2)
            (b := 10) (by omega) hk'
          omega
      have hmul : 10 ^ k * (x.scaledBy 0).2 ≤ (x.scaledBy 0).1 := (Nat.le_div_iff_mul_le hpos).1 hpow
      rw [hk]
      push_cast
      rw [add_sub_cancel_right, zpow_natCast]
      exact_mod_cast hmul
    · refine leadingBelowOne_le ?_
      have hvalue : 1 ≤ (x.scaledBy 0).1 := by
        rw [scaledBy_fst]
        have : 0 < gapScaledBy x 0 := by unfold gapScaledBy; positivity
        exact Nat.mul_pos h this
      have hunit : (x.scaledBy 0).2 ≤ 10 ^ 400 := by
        have hexp : (-x.scale).toNat ≤ 1074 := by
          unfold scale
          omega
        have hbound : ∀ n : Nat, 2 ^ (3 * n) ≤ 10 ^ n := fun n => by
          rw [Nat.pow_mul]
          exact Nat.pow_le_pow_left (by omega) n
        have hpow : 2 ^ (-x.scale).toNat ≤ 10 ^ 400 :=
          (Nat.pow_le_pow_right (by omega) (by omega)).trans (hbound 400)
        have hsnd : (x.scaledBy 0).2 = 2 ^ (-x.scale).toNat := by simp [scaledBy]
        rw [hsnd]
        exact hpow
      exact hunit.trans (Nat.le_mul_of_pos_right _ hvalue)
  have hcancel : (10 : ℚ) ^ x.leading * ((x.scaledBy 0).2 * c) ≤ (x.scaledBy 0).1 * c := by
    rw [← mul_assoc]
    exact mul_le_mul_of_nonneg_right hratio hc.le
  rw [← hten, mul_one] at hcancel
  rw [hmag]
  exact hcancel

/-- The shortest decimal belongs to the number. -/
private theorem shortest_readsAs {x : Binary64} (h : 0 < x.mantissa) :
    ReadsAs x.shortest.value x.ordinal := by
  refine readsAs_shortestFrom ?_
  have hpow : (10 : ℚ) ^ (x.leading - (16 : Nat)) * 10 ^ 16 = 10 ^ x.leading := by
    rw [← zpow_natCast, ← zpow_add₀ (by norm_num)]
    congr 1
    omega
  rw [hpow]
  exact leading_le h

/-! ### Texts -/

/-- The decimal that is written for a finite number. -/
private def written (x : Binary64) : Decimal :=
  if x.isZero then ⟨0, 0⟩ else x.shortest

private theorem written_readsAs (x : Binary64) : ReadsAs x.written.value x.ordinal := by
  unfold written
  split
  · rename_i h
    simp only [isZero, Bool.and_eq_true, beq_iff_eq] at h
    have hord : x.ordinal = 0 := by simp [ordinal, h]
    have hgap := gapAt_pos 0
    rw [hord]
    refine ⟨.inl ?_, .inl ?_⟩ <;> simp [Decimal.value, lowerAt, upperAt, magnitudeAt, mantissaAt, hgap]
  · rename_i h
    refine shortest_readsAs (Nat.pos_of_ne_zero fun hm => h ?_)
    rw [mantissa_eq] at hm
    simp only [isZero, Bool.and_eq_true, beq_iff_eq]
    split at hm <;> omega

private theorem text_eq {x : Binary64} (h : x.isNaN = false) :
    x.text.toList = (if x.isNegative then ['-'] else []) ++
      if x.isInfinite then "inf".toList else x.written.text.toList := by
  have hzero : (⟨0, 0⟩ : Decimal).text = "0" := by decide
  unfold text written
  rw [h]
  cases x.isNegative <;> cases x.isInfinite <;> cases x.isZero <;> simp [hzero]

private theorem ordinal_of_isInfinite {x : Binary64} (h : x.isInfinite = true) :
    x.ordinal = 2047 * 2 ^ 52 := by
  simp only [isInfinite, Bool.and_eq_true, beq_iff_eq] at h
  simp [ordinal, h]

private theorem eq_of_ordinal_eq {x y : Binary64} (hs : x.isNegative = y.isNegative)
    (ho : x.ordinal = y.ordinal) : x = y := by
  have toNat : ∀ z : Binary64, z.bits.toNat = (if z.isNegative then 2 ^ 63 else 0) + z.ordinal := by
    intro z
    have hlt := z.bits.toNat_lt
    simp only [isNegative, ordinal, exponent, fraction, Nat.pow_eq, decide_eq_true_eq]
    split <;> omega
  have hbits : x.bits = y.bits := by
    rw [← UInt64.toNat_inj, toNat, toNat, hs, ho]
  cases x
  cases y
  exact congrArg _ hbits

/-- The text of the number without its sign. -/
private def unsigned (x : Binary64) : List Char :=
  if x.isInfinite then "inf".toList else x.written.text.toList

private theorem unsigned_eq_cons (x : Binary64) :
    ∃ c rest, x.unsigned = c :: rest ∧ c ≠ '-' ∧ (x.isInfinite = true ↔ c = 'i') := by
  unfold unsigned
  cases x.isInfinite with
  | true => exact ⟨'i', ['n', 'f'], rfl, by decide, by simp⟩
  | false =>
    obtain ⟨c, rest, h, hc, -⟩ := x.written.toList_text
    refine ⟨c, rest, h, ?_, ?_⟩
    · rintro rfl
      cases hc
    · refine ⟨(fun h => nomatch h), ?_⟩
      rintro rfl
      cases hc

/-- A number is determined by its text. -/
theorem text_injective {x y : Binary64} (hx : x.isNaN = false) (hy : y.isNaN = false)
    (h : x.text = y.text) : x = y := by
  obtain ⟨c, rest, hxu, hxc, hxi⟩ := unsigned_eq_cons x
  obtain ⟨d, rest', hyu, hyd, hyi⟩ := unsigned_eq_cons y
  have hsign : x.isNegative = y.isNegative ∧ x.unsigned = y.unsigned := by
    have e := congrArg String.toList h
    rw [text_eq hx, text_eq hy] at e
    change (if x.isNegative then ['-'] else []) ++ x.unsigned =
      (if y.isNegative then ['-'] else []) ++ y.unsigned at e
    rw [hxu, hyu] at e ⊢
    revert e
    cases x.isNegative <;> cases y.isNegative <;> intro e
    · exact ⟨rfl, e⟩
    · exact absurd (List.cons.inj e).1 hxc
    · exact absurd (List.cons.inj e).1.symm hyd
    · exact ⟨rfl, (List.cons.inj e).2⟩
  have hinf : x.isInfinite = y.isInfinite := by
    have hcd : c = d := by
      have := hsign.2
      rw [hxu, hyu] at this
      exact (List.cons.inj this).1
    rw [Bool.eq_iff_iff, hxi, hyi, hcd]
  refine eq_of_ordinal_eq hsign.1 ?_
  cases hi : x.isInfinite with
  | true => rw [ordinal_of_isInfinite hi, ordinal_of_isInfinite (hinf ▸ hi)]
  | false =>
    have htext : x.written.text = y.written.text := by
      have := hsign.2
      unfold unsigned at this
      rw [← hinf, hi] at this
      simpa [String.ext_iff] using this
    have hvalue := Decimal.value_eq_of_text_eq htext
    exact (written_readsAs x).ordinal_eq (hvalue ▸ written_readsAs y)

/-- The text of a number holds no quote and no bracket. -/
theorem mem_text {x : Binary64} (hx : x.isNaN = false) {c : Char} (hc : c ∈ x.text.toList) :
    c.isAlphanum = true ∨ c = '-' ∨ c = '.' := by
  rw [text_eq hx] at hc
  rcases List.mem_append.1 hc with hc | hc
  · split at hc
    · exact .inr (.inl (List.mem_singleton.1 hc))
    · cases hc
  · split at hc
    · have hinf : ∀ c ∈ "inf".toList, c.isAlphanum = true := by simp
      exact .inl (hinf c hc)
    · obtain ⟨d, rest, hd, hdigit, hrest⟩ := x.written.toList_text
      rw [hd] at hc
      have hor : c.isDigit = true ∨ c = '.' := by
        rcases List.mem_cons.1 hc with rfl | hc
        · exact .inl hdigit
        · exact hrest c hc
      rcases hor with h | h
      · exact .inl (by simp [Char.isAlphanum, h])
      · exact .inr (.inr h)

end TypeProbe.Binary64
