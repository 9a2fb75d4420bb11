import Mathlib.Data.List.Basic

/-!
# Texts with brackets and quotes

`Clean stops text` says of a text that its brackets are closed, its quotes are paired, and none
of the characters `stops` stands outside of brackets and quotes.  Where such a text ends inside a
longer one can be found by reading from the left, so it can be cancelled in front of a stop
(`Clean.append_inj`), and the members of a list can be told from the list written with a
separator (`Clean.intercalate_inj`).
-/

namespace TypeProbe

/-- How many brackets are open, and whether a quoted text is. -/
structure Scan where
  depth : Nat
  quoted : Bool
deriving DecidableEq

namespace Scan

def start : Scan := ⟨0, false⟩

def opening : List Char := ['<', '{', '(']
def closing : List Char := ['>', '}', ')']

/-- Reads one character.  A closing bracket that was not opened is not read, nor is a stop
outside of brackets and quotes. -/
def read (stops : List Char) (s : Scan) (c : Char) : Option Scan :=
  if c = '\'' then some { s with quoted := !s.quoted }
  else if s.quoted then some s
  else if c ∈ opening then some { s with depth := s.depth + 1 }
  else if c ∈ closing then if s.depth = 0 then none else some { s with depth := s.depth - 1 }
  else if s.depth = 0 ∧ c ∈ stops then none
  else some s

end Scan

/-- Reading the text leads back to where it started. -/
def Clean (stops text : List Char) : Prop :=
  text.foldlM (Scan.read stops) Scan.start = some Scan.start

/-- The text is empty or starts with a character that is not read outside of brackets and quotes. -/
def Ends (stops rest : List Char) : Prop :=
  ∀ c ∈ rest.head?, Scan.read stops Scan.start c = none

theorem Ends.nil {stops : List Char} : Ends stops [] :=
  fun _ h => nomatch h

theorem Ends.cons {stops rest : List Char} {c : Char} (h : Scan.read stops Scan.start c = none) :
    Ends stops (c :: rest) := by
  intro d hd
  obtain rfl : c = d := Option.some.inj hd
  exact h

namespace Clean

variable {stops : List Char} {x y : List Char}

theorem nil : Clean stops [] := rfl

theorem append (hx : Clean stops x) (hy : Clean stops y) : Clean stops (x ++ y) := by
  unfold Clean at hx hy ⊢
  rw [List.foldlM_append, hx]
  exact hy

/-- A text of characters that mean nothing to the reader. -/
theorem of_forall (h : ∀ c ∈ x, Scan.read stops Scan.start c = some Scan.start) : Clean stops x := by
  induction x with
  | nil => exact nil
  | cons c rest ih =>
    have hc := h c List.mem_cons_self
    have hrest := ih fun d hd => h d (List.mem_cons_of_mem c hd)
    unfold Clean
    rw [List.foldlM_cons, hc]
    exact hrest

/-! ### Quotes -/

theorem quoted (h : '\'' ∉ x) : Clean stops ('\'' :: x ++ ['\'']) := by
  have inside : x.foldlM (Scan.read stops) ⟨0, true⟩ = some ⟨0, true⟩ := by
    induction x with
    | nil => rfl
    | cons c rest ih =>
      have hc : c ≠ '\'' := fun e => h (e ▸ List.mem_cons_self)
      have hread : Scan.read stops ⟨0, true⟩ c = some ⟨0, true⟩ := by simp [Scan.read, hc]
      rw [List.foldlM_cons, hread]
      exact ih fun hm => h (List.mem_cons_of_mem c hm)
  have hopen : Scan.read stops Scan.start '\'' = some ⟨0, true⟩ := rfl
  unfold Clean
  rw [List.cons_append, List.foldlM_cons, hopen]
  show (x ++ ['\'']).foldlM (Scan.read stops) ⟨0, true⟩ = some Scan.start
  rw [List.foldlM_append, inside]
  rfl

/-! ### Brackets -/

/-- Inside of brackets a text is read whatever the stops are. -/
private theorem read_deeper {s t : Scan} {c : Char} (h : Scan.read [] s c = some t) (d : Nat) :
    Scan.read stops ⟨s.depth + d + 1, s.quoted⟩ c = some ⟨t.depth + d + 1, t.quoted⟩ := by
  unfold Scan.read at h ⊢
  split_ifs at h ⊢ <;> first
    | (obtain rfl := Option.some.inj h; simp; try omega)
    | omega
    | simp_all

private theorem foldlM_deeper {s t : Scan} (h : x.foldlM (Scan.read []) s = some t) (d : Nat) :
    x.foldlM (Scan.read stops) ⟨s.depth + d + 1, s.quoted⟩ = some ⟨t.depth + d + 1, t.quoted⟩ := by
  induction x generalizing s with
  | nil => obtain rfl := Option.some.inj h; rfl
  | cons c rest ih =>
    rw [List.foldlM_cons] at h ⊢
    cases hc : Scan.read [] s c with
    | none => rw [hc] at h; cases h
    | some u =>
      rw [hc] at h
      rw [read_deeper hc d]
      exact ih h

theorem bracket {o c : Char} (ho : o ∈ Scan.opening) (hc : c ∈ Scan.closing) (hx : Clean [] x) :
    Clean stops (o :: x ++ [c]) := by
  have hopen : Scan.read stops Scan.start o = some ⟨1, false⟩ := by
    simp only [Scan.opening, List.mem_cons, List.not_mem_nil, or_false] at ho
    rcases ho with rfl | rfl | rfl <;> rfl
  have hclose : Scan.read stops ⟨1, false⟩ c = some Scan.start := by
    simp only [Scan.closing, List.mem_cons, List.not_mem_nil, or_false] at hc
    rcases hc with rfl | rfl | rfl <;> rfl
  -- One bracket deep nothing counts as a stop.
  have inside : x.foldlM (Scan.read stops) ⟨1, false⟩ = some ⟨1, false⟩ := foldlM_deeper hx 0
  unfold Clean
  rw [List.cons_append, List.foldlM_cons, hopen]
  show (x ++ [c]).foldlM (Scan.read stops) ⟨1, false⟩ = some Scan.start
  rw [List.foldlM_append, inside]
  show [c].foldlM (Scan.read stops) ⟨1, false⟩ = some Scan.start
  rw [List.foldlM_cons, hclose]
  rfl

/-! ### Fewer stops -/

private theorem read_mono {others : List Char} (hsub : ∀ c ∈ others, c ∈ stops) {s t : Scan} {c : Char}
    (h : Scan.read stops s c = some t) : Scan.read others s c = some t := by
  unfold Scan.read at h ⊢
  split_ifs at h ⊢ <;> simp_all

theorem mono {others : List Char} (hsub : ∀ c ∈ others, c ∈ stops) (hx : Clean stops x) :
    Clean others x := by
  have run : ∀ s t : Scan, x.foldlM (Scan.read stops) s = some t →
      x.foldlM (Scan.read others) s = some t := by
    clear hx
    induction x with
    | nil => exact fun _ _ h => h
    | cons c rest ih =>
      intro s t h
      rw [List.foldlM_cons] at h ⊢
      cases hc : Scan.read stops s c with
      | none => rw [hc] at h; cases h
      | some u =>
        rw [hc] at h
        rw [read_mono hsub hc]
        exact ih u t h
  exact run _ _ hx

/-! ### Cancellation -/

/-- A clean text that goes on after a clean one goes on with a character that can be read. -/
private theorem eq_of_prefix {z rest : List Char} (hx : Clean stops x) (hy : Clean stops (x ++ z))
    (hr : Ends stops (z ++ rest)) : z = [] := by
  cases z with
  | nil => rfl
  | cons c z =>
    have hc : Scan.read stops Scan.start c = none := hr c rfl
    unfold Clean at hx hy
    rw [List.foldlM_append, hx] at hy
    have hz : (c :: z).foldlM (Scan.read stops) Scan.start = some Scan.start := hy
    rw [List.foldlM_cons, hc] at hz
    cases hz

/-- Clean texts in front of a stop can be told from what follows. -/
theorem append_inj {r r' : List Char} (hx : Clean stops x) (hy : Clean stops y) (hr : Ends stops r)
    (hr' : Ends stops r') (h : x ++ r = y ++ r') : x = y ∧ r = r' := by
  rcases List.append_eq_append_iff.1 h with ⟨z, rfl, rfl⟩ | ⟨z, rfl, rfl⟩
  · obtain rfl := eq_of_prefix hx hy hr
    exact ⟨(List.append_nil x).symm, rfl⟩
  · obtain rfl := eq_of_prefix hy hx hr'
    exact ⟨List.append_nil y, rfl⟩

/-! ### Lists -/

theorem intercalate {sep : List Char} {xs : List (List Char)} (hsep : Clean stops sep)
    (h : ∀ x ∈ xs, Clean stops x) : Clean stops (sep.intercalate xs) := by
  induction xs with
  | nil => exact nil
  | cons x rest ih =>
    cases rest with
    | nil => simpa using h x List.mem_cons_self
    | cons y rest =>
      rw [List.intercalate_cons_cons]
      exact ((h x List.mem_cons_self).append hsep).append
        (ih fun z hz => h z (List.mem_cons_of_mem x hz))

/-- What follows the first member of a list written with a separator. -/
private theorem intercalate_cons {α : Type} {sep a : List α} {rest : List (List α)} :
    sep.intercalate (a :: rest) = a ++ if rest = [] then [] else sep ++ sep.intercalate rest := by
  cases rest with
  | nil => simp
  | cons b rest => simp

private theorem ends_of_sep {sep rest : List Char} (hne : sep ≠ []) (hsep : Ends stops sep) :
    Ends stops (sep ++ rest) := by
  obtain ⟨c, tail, rfl⟩ := List.exists_cons_of_ne_nil hne
  exact .cons (hsep c rfl)

/-- The members of a list can be told from the list written with a
separator that they do not contain. -/
theorem intercalate_inj {sep : List Char} (hne : sep ≠ []) (hsep : Ends stops sep)
    {xs ys : List (List Char)} (hx : ∀ x ∈ xs, Clean stops x ∧ x ≠ [])
    (hy : ∀ y ∈ ys, Clean stops y ∧ y ≠ []) (h : sep.intercalate xs = sep.intercalate ys) :
    xs = ys := by
  have tail : ∀ rest : List (List Char),
      Ends stops (if rest = [] then [] else sep ++ sep.intercalate rest) := by
    intro rest
    split
    · exact Ends.nil
    · exact ends_of_sep hne hsep
  have empty : ∀ (z : List Char) (rest : List (List Char)), z ≠ [] →
      sep.intercalate (z :: rest) ≠ [] := by
    intro z rest hz e
    rw [intercalate_cons] at e
    exact hz (List.append_eq_nil_iff.1 e).1
  induction xs generalizing ys with
  | nil =>
    cases ys with
    | nil => rfl
    | cons y rest => exact absurd h.symm (empty y rest (hy y List.mem_cons_self).2)
  | cons x xs ih =>
    cases ys with
    | nil => exact absurd h (empty x xs (hx x List.mem_cons_self).2)
    | cons y ys =>
      rw [intercalate_cons, intercalate_cons] at h
      obtain ⟨rfl, hrest⟩ :=
        append_inj (hx x List.mem_cons_self).1 (hy y List.mem_cons_self).1 (tail xs) (tail ys) h
      have hxs := fun z hz => hx z (List.mem_cons_of_mem x hz)
      have hys := fun z hz => hy z (List.mem_cons_of_mem x hz)
      -- Both lists end here or neither does, since a separator is not empty.
      by_cases hnx : xs = [] <;> by_cases hny : ys = []
      · rw [hnx, hny]
      · rw [if_pos hnx, if_neg hny] at hrest
        exact absurd (List.append_eq_nil_iff.1 hrest.symm).1 hne
      · rw [if_neg hnx, if_pos hny] at hrest
        exact absurd (List.append_eq_nil_iff.1 hrest).1 hne
      · rw [if_neg hnx, if_neg hny] at hrest
        rw [ih hxs hys (List.append_cancel_left hrest)]

end Clean

end TypeProbe
