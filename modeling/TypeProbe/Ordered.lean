/-!
# Texts in order without repetition

`sortedDistinct` lists the members of a list of texts in increasing order, each once.  The
order is that of the code points, which is also the order of the encoded bytes.  The result
depends on the members alone: it has the same ones (`mem_sortedDistinct`) and is strictly
increasing (`pairwise_sortedDistinct`).
-/

namespace TypeProbe

/-- Inserts `s` into a strictly increasing list, unless it is there. -/
def insertOnce (s : String) : List String → List String
  | [] => [s]
  | t :: rest => if s < t then s :: t :: rest else if s = t then t :: rest else t :: insertOnce s rest

/-- The members of a list in increasing order, each once. -/
def sortedDistinct (l : List String) : List String :=
  l.foldr insertOnce []

theorem mem_insertOnce {s x : String} {l : List String} : x ∈ insertOnce s l ↔ x = s ∨ x ∈ l := by
  induction l with
  | nil => simp [insertOnce]
  | cons t rest ih =>
    unfold insertOnce
    split
    · simp
    · split
      · subst_vars; simp
      · simp only [List.mem_cons, ih]; exact or_left_comm

theorem mem_sortedDistinct {x : String} {l : List String} : x ∈ sortedDistinct l ↔ x ∈ l := by
  induction l with
  | nil => simp [sortedDistinct]
  | cons s rest ih =>
    have e : sortedDistinct (s :: rest) = insertOnce s (sortedDistinct rest) := rfl
    rw [e, mem_insertOnce, ih, List.mem_cons]

private theorem lt_of_not_lt_of_ne {s t : String} (h : ¬ s < t) (hne : s ≠ t) : t < s := by
  rcases Decidable.em (t < s) with h' | h'
  · exact h'
  · exact absurd (String.le_antisymm (String.not_lt.1 h') (String.not_lt.1 h)) hne

private theorem pairwise_insertOnce {s : String} {l : List String} (h : l.Pairwise (· < ·)) :
    (insertOnce s l).Pairwise (· < ·) := by
  induction l with
  | nil => simp [insertOnce]
  | cons t rest ih =>
    have ht := List.pairwise_cons.1 h
    unfold insertOnce
    split
    · rename_i hlt
      refine List.pairwise_cons.2 ⟨fun x hx => ?_, h⟩
      rcases List.mem_cons.1 hx with rfl | hx
      · exact hlt
      · exact String.lt_trans hlt (ht.1 x hx)
    · split
      · exact h
      · rename_i hlt hne
        refine List.pairwise_cons.2 ⟨fun x hx => ?_, ih ht.2⟩
        rcases mem_insertOnce.1 hx with rfl | hx
        · exact lt_of_not_lt_of_ne hlt hne
        · exact ht.1 x hx

theorem pairwise_sortedDistinct (l : List String) : (sortedDistinct l).Pairwise (· < ·) := by
  induction l with
  | nil => exact List.Pairwise.nil
  | cons s rest ih => exact pairwise_insertOnce ih

end TypeProbe
