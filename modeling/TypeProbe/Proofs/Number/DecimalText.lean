import Mathlib
import TypeProbe.Number.Shortest

/-!
# The text of a decimal

The text of a decimal has digits and at most one point, and it can be read back: decimals with one
text are equal as numbers (`Decimal.value_eq_of_text_eq`).
-/

namespace TypeProbe.Binary64

/-- The number that a decimal is. -/
def Decimal.value (d : Decimal) : ℚ :=
  d.digits * 10 ^ d.power

/-- The number that a positional text stands for. -/
def readDecimal (text : List Char) : ℚ :=
  let whole := text.takeWhile (· ≠ '.')
  let places := (text.dropWhile (· ≠ '.')).drop 1
  Nat.ofDigitChars 10 (whole ++ places) 0 / 10 ^ places.length

/-! ### Digits -/

private theorem isDigit_toDigits {n : Nat} : ∀ c ∈ Nat.toDigits 10 n, c.isDigit = true :=
  fun _ hc => Nat.isDigit_of_mem_toDigits (by omega) (by omega) hc

private theorem isDigit_append {x y : List Char} (hx : ∀ c ∈ x, c.isDigit = true)
    (hy : ∀ c ∈ y, c.isDigit = true) : ∀ c ∈ x ++ y, c.isDigit = true := by
  intro c hc
  rcases List.mem_append.1 hc with hc | hc
  · exact hx c hc
  · exact hy c hc

private theorem isDigit_replicate (n : Nat) : ∀ c ∈ List.replicate n '0', c.isDigit = true := by
  intro c hc
  rw [(List.mem_replicate.1 hc).2]
  rfl

private theorem ne_point_of_isDigit {c : Char} (h : c.isDigit = true) : decide (c ≠ '.') = true := by
  rw [decide_eq_true_iff]
  rintro rfl
  cases h

/-- A text of digits is read as an integer. -/
private theorem readDecimal_digits {x : List Char} (hx : ∀ c ∈ x, c.isDigit = true) :
    readDecimal x = Nat.ofDigitChars 10 x 0 := by
  have htake : x.takeWhile (· ≠ '.') = x := List.takeWhile_eq_self_iff.2 fun c hc =>
    ne_point_of_isDigit (hx c hc)
  have hdrop : x.dropWhile (· ≠ '.') = [] := List.dropWhile_eq_nil_iff.2 fun c hc =>
    ne_point_of_isDigit (hx c hc)
  simp only [readDecimal, htake, hdrop]
  simp

private theorem readDecimal_point {x y : List Char} (hx : ∀ c ∈ x, c.isDigit = true) :
    readDecimal (x ++ '.' :: y) = Nat.ofDigitChars 10 (x ++ y) 0 / 10 ^ y.length := by
  have hpos : ∀ c ∈ x, decide (c ≠ '.') = true := fun c hc => ne_point_of_isDigit (hx c hc)
  have htake : (x ++ '.' :: y).takeWhile (· ≠ '.') = x := by
    rw [List.takeWhile_append_of_pos hpos]
    simp
  have hdrop : (x ++ '.' :: y).dropWhile (· ≠ '.') = '.' :: y := by
    rw [List.dropWhile_append_of_pos hpos]
    simp
  simp only [readDecimal, htake, hdrop]
  simp

/-! ### The places behind the point -/

/-- All places of a number below one, zeros included. -/
private def places (digits n : Nat) : List Char :=
  List.replicate (n - (Nat.toDigits 10 (digits % 10 ^ n)).length) '0' ++
    Nat.toDigits 10 (digits % 10 ^ n)

/-- The places without the zeros at their end. -/
private def keptPlaces (digits n : Nat) : List Char :=
  ((places digits n).reverse.dropWhile (· == '0')).reverse

private theorem isDigit_places {digits n : Nat} : ∀ c ∈ places digits n, c.isDigit = true :=
  isDigit_append (isDigit_replicate _) isDigit_toDigits

private theorem length_places (digits : Nat) {n : Nat} (hn : 0 < n) : (places digits n).length = n := by
  have hlt : digits % 10 ^ n < 10 ^ n := Nat.mod_lt _ (by positivity)
  have hlen : (Nat.toDigits 10 (digits % 10 ^ n)).length ≤ n :=
    (Nat.length_toDigits_le_iff (by omega) hn).2 hlt
  simp only [places, List.length_append, List.length_replicate]
  omega

private theorem ofDigitChars_places {digits n : Nat} :
    Nat.ofDigitChars 10 (places digits n) 0 = digits % 10 ^ n := by
  rw [places, Nat.ofDigitChars_append, Nat.ofDigitChars_replicate_zero, Nat.mul_zero,
    Nat.ofDigitChars_ten_toDigits]

private theorem places_eq_kept (digits n : Nat) :
    ∃ k, places digits n = keptPlaces digits n ++ List.replicate k '0' := by
  have hzeros : ∀ c ∈ (places digits n).reverse.takeWhile (· == '0'), c = '0' := by
    intro c hc
    simpa using List.mem_takeWhile_imp hc
  refine ⟨((places digits n).reverse.takeWhile (· == '0')).length, ?_⟩
  rw [← List.reverse_inj, List.reverse_append, List.reverse_replicate, keptPlaces, List.reverse_reverse,
    ← List.eq_replicate_of_mem hzeros, List.takeWhile_append_dropWhile]

/-! ### Decimals -/

namespace Decimal

private theorem text_of_nonneg {d : Decimal} (h : 0 ≤ d.power) :
    d.text.toList = Nat.toDigits 10 d.digits ++ List.replicate d.power.toNat '0' := by
  simp [text, h]

private theorem text_of_neg {d : Decimal} (h : ¬ 0 ≤ d.power) :
    d.text.toList = Nat.toDigits 10 (d.digits / 10 ^ (-d.power).toNat) ++
      if keptPlaces d.digits (-d.power).toNat = [] then []
      else '.' :: keptPlaces d.digits (-d.power).toNat := by
  have hkept : keptPlaces d.digits (-d.power).toNat =
      ((List.replicate
        ((-d.power).toNat - (Nat.toDigits 10 (d.digits % 10 ^ (-d.power).toNat)).length) '0' ++
        Nat.toDigits 10 (d.digits % 10 ^ (-d.power).toNat)).reverse.dropWhile (· == '0')).reverse := rfl
  unfold text
  rw [if_neg h]
  simp only [Nat.pow_eq, ← hkept, List.isEmpty_iff]
  by_cases hk : keptPlaces d.digits (-d.power).toNat = []
  · simp [hk]
  · simp [hk]

/-- The text of a decimal reads as its value. -/
private theorem readDecimal_text (d : Decimal) : readDecimal d.text.toList = d.value := by
  by_cases h : 0 ≤ d.power
  · obtain ⟨n, hn⟩ := Int.eq_ofNat_of_zero_le h
    rw [text_of_nonneg h, readDecimal_digits (isDigit_append isDigit_toDigits (isDigit_replicate _)),
      Nat.ofDigitChars_append, Nat.ofDigitChars_ten_toDigits, Nat.ofDigitChars_replicate_zero,
      value, hn]
    push_cast
    rw [zpow_natCast]
    simp [mul_comm]
  · obtain ⟨n, hn⟩ : ∃ n : Nat, d.power = -(n : Int) := ⟨(-d.power).toNat, by omega⟩
    have hpos : 0 < n := by omega
    have hnat : (-d.power).toNat = n := by omega
    rw [text_of_neg h, hnat]
    obtain ⟨k, hk⟩ := places_eq_kept d.digits n
    have hlen : (keptPlaces d.digits n).length + k = n := by
      have := length_places d.digits hpos
      rw [hk, List.length_append, List.length_replicate] at this
      exact this
    have hread : readDecimal (Nat.toDigits 10 (d.digits / 10 ^ n) ++
        if keptPlaces d.digits n = [] then [] else '.' :: keptPlaces d.digits n) =
        Nat.ofDigitChars 10 (Nat.toDigits 10 (d.digits / 10 ^ n) ++ keptPlaces d.digits n) 0 /
          10 ^ (keptPlaces d.digits n).length := by
      split
      · rename_i hnil
        rw [hnil, List.append_nil, readDecimal_digits isDigit_toDigits]
        simp
      · exact readDecimal_point isDigit_toDigits
    -- The zeros that were dropped multiply numerator and denominator alike.
    have hall :
        Nat.ofDigitChars 10 (Nat.toDigits 10 (d.digits / 10 ^ n) ++ keptPlaces d.digits n) 0 * 10 ^ k =
          d.digits := by
      have hsum : Nat.ofDigitChars 10 (Nat.toDigits 10 (d.digits / 10 ^ n) ++ places d.digits n) 0 =
          d.digits := by
        rw [Nat.ofDigitChars_append, Nat.ofDigitChars_ten_toDigits,
          Nat.ofDigitChars_eq_ofDigitChars_zero, ofDigitChars_places, length_places d.digits hpos]
        exact Nat.div_add_mod d.digits (10 ^ n)
      rw [hk, ← List.append_assoc, Nat.ofDigitChars_append, Nat.ofDigitChars_replicate_zero] at hsum
      rw [mul_comm]
      exact hsum
    rw [hread, value, hn, zpow_neg, zpow_natCast]
    generalize Nat.ofDigitChars 10 (Nat.toDigits 10 (d.digits / 10 ^ n) ++ keptPlaces d.digits n)
      0 = m at hall ⊢
    generalize (keptPlaces d.digits n).length = p at hlen ⊢
    rw [← hall, ← hlen, pow_add]
    push_cast
    field_simp

/-- Decimals of one text are one number. -/
theorem value_eq_of_text_eq {d e : Decimal} (h : d.text = e.text) : d.value = e.value := by
  rw [← readDecimal_text, ← readDecimal_text, h]

/-- The text starts with a digit, and digits and points follow. -/
theorem toList_text (d : Decimal) :
    ∃ c rest, d.text.toList = c :: rest ∧ c.isDigit = true ∧
      ∀ e ∈ rest, e.isDigit = true ∨ e = '.' := by
  obtain ⟨n, tail, htext, htail⟩ : ∃ n tail, d.text.toList = Nat.toDigits 10 n ++ tail ∧
      ∀ c ∈ tail, c.isDigit = true ∨ c = '.' := by
    by_cases h : 0 ≤ d.power
    · exact ⟨_, _, text_of_nonneg h, fun c hc => .inl (isDigit_replicate _ c hc)⟩
    · refine ⟨_, _, text_of_neg h, fun c hc => ?_⟩
      split at hc
      · cases hc
      · rcases List.mem_cons.1 hc with rfl | hc
        · exact .inr rfl
        · obtain ⟨k, hk⟩ := places_eq_kept d.digits (-d.power).toNat
          exact .inl (isDigit_places c (hk ▸ List.mem_append_left _ hc))
  obtain ⟨c, rest, hdigits⟩ := List.exists_cons_of_ne_nil (Nat.toDigits_ne_nil (n := n) (b := 10))
  have hd : ∀ e ∈ c :: rest, e.isDigit = true := hdigits ▸ isDigit_toDigits
  refine ⟨c, rest ++ tail, by rw [htext, hdigits]; rfl, hd c List.mem_cons_self, fun e he => ?_⟩
  rcases List.mem_append.1 he with he | he
  · exact .inl (hd e (List.mem_cons_of_mem c he))
  · exact htail e he

end Decimal

end TypeProbe.Binary64
