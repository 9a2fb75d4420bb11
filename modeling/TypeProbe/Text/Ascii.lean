/-!
# Names without regard to ASCII letter case

Class names and the names of formats are compared up to the case of the letters `A` to `Z`;
every other character counts as written (`toList_lower`).  `Ascii.same` is equality of the
lower-cased names (`same_iff`).
-/

namespace TypeProbe.Ascii

/-- The text with the capitals `A` to `Z` turned into small letters. -/
def lower (s : String) : String :=
  String.ofList (s.toList.map Char.toLower)

/-- A capital becomes the letter 32 places behind it, and every other character stays. -/
theorem toLower_eq (c : Char) :
    c.toLower = if 'A' ≤ c ∧ c ≤ 'Z' then Char.ofNat (c.toNat + 32) else c := by
  unfold Char.toLower
  by_cases h : 'A' ≤ c ∧ c ≤ 'Z'
  · have hle : c.toNat ≤ 90 := h.2
    rw [dif_pos (show c.val ≥ 'A'.val ∧ c.val ≤ 'Z'.val from h), if_pos h]
    unfold Char.ofNat
    rw [dif_pos (show (c.toNat + 32).isValidChar from .inl (by omega))]
    apply Char.ext
    apply UInt32.toNat_inj.1
    show (c.toNat + 32) % 4294967296 = c.toNat + 32
    omega
  · rw [dif_neg (show ¬(c.val ≥ 'A'.val ∧ c.val ≤ 'Z'.val) from h), if_neg h]

theorem toList_lower (s : String) :
    (lower s).toList =
      s.toList.map fun c => if 'A' ≤ c ∧ c ≤ 'Z' then Char.ofNat (c.toNat + 32) else c := by
  rw [lower, String.toList_ofList]
  exact List.map_congr_left fun c _ => toLower_eq c

/-- Whether two names differ at most in the case of ASCII letters. -/
def same (s t : String) : Bool :=
  lower s == lower t

theorem same_iff {s t : String} : same s t = true ↔ lower s = lower t := by
  simp [same]

theorem same_refl (s : String) : same s s = true := by
  simp [same]

end TypeProbe.Ascii
