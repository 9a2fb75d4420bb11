/-!
# Replacement of markers

`Marker.replaceAll` replaces markers in a text in one pass from left to right.  Where several
markers match, the longest one in bytes is taken, and the earliest among equally long ones; a
replaced text is not searched again and an empty marker never matches.
-/

namespace TypeProbe.Marker

/-- The replacements with the longest marker first; equally long ones keep their order. -/
def byLength (replacements : List (String × String)) : List (String × String) :=
  replacements.mergeSort fun r s => decide (s.1.utf8ByteSize ≤ r.1.utf8ByteSize)

/-- The value of the first nonempty marker the text starts with, and the text behind that marker. -/
def match? (ordered : List (String × String)) (cs : List Char) : Option (String × List Char) :=
  match ordered with
  | [] => none
  | (marker, value) :: others =>
    if !marker.isEmpty && marker.toList.isPrefixOf cs then some (value, cs.drop marker.length)
    else match? others cs

theorem length_of_match? {ordered : List (String × String)} {cs rest : List Char} {value : String}
    (h : match? ordered cs = some (value, rest)) : rest.length < cs.length := by
  induction ordered with
  | nil => simp [match?] at h
  | cons r others ih =>
    obtain ⟨marker, v⟩ := r
    unfold match? at h
    split at h
    · rename_i hm
      simp only [Bool.and_eq_true, Bool.not_eq_true', List.isPrefixOf_iff_prefix] at hm
      obtain ⟨-, rfl⟩ := Prod.mk.inj (Option.some.inj h)
      have hle := hm.2.length_le
      rw [String.length_toList] at hle
      have : marker.length ≠ 0 := fun h0 => by
        have := String.length_eq_zero_iff.1 h0
        simp [this] at hm
      rw [List.length_drop]
      omega
    · exact ih h

/-- Replaces the marker at the front, if any, or copies one character. -/
def replaceChars (ordered : List (String × String)) (cs : List Char) : List Char :=
  match cs with
  | [] => []
  | c :: after =>
    match _h : match? ordered (c :: after) with
    | some (value, rest) => value.toList ++ replaceChars ordered rest
    | none => c :: replaceChars ordered after
termination_by cs.length
decreasing_by
  · exact length_of_match? _h
  · exact Nat.lt_succ_self after.length

/-- The text with its markers replaced. -/
def replaceAll (text : String) (replacements : List (String × String)) : String :=
  String.ofList (replaceChars (byLength replacements) text.toList)

/-- Without replacements the text stays as it is. -/
theorem replaceChars_nil (cs : List Char) : replaceChars [] cs = cs := by
  induction cs with
  | nil => unfold replaceChars; rfl
  | cons c rest ih =>
    unfold replaceChars
    split
    · rename_i h
      cases h
    · rw [ih]

end TypeProbe.Marker
