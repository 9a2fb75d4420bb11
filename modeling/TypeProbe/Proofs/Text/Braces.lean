/-!
# Lines that follow the braces

A text may open and close braces (`openBraces?`).  Its lines follow the braces if each is indented
by four blanks for every brace that is open where it starts, not counting one that its first
character closes (`IsIndented`).  `Laid` says so of a text that starts with some braces open and
leaves some open; such texts may be put in a row (`Laid.append`).
-/

namespace TypeProbe

/-- The number of open braces behind a character; a brace that is not open cannot be closed. -/
def bracesBehind? (depth : Nat) (c : Char) : Option Nat :=
  if c = '{' then some (depth + 1)
  else if c = '}' then (if depth = 0 then none else some (depth - 1))
  else some depth

/-- The number of open braces behind a text that is read with `depth` open braces. -/
def openBraces? (depth : Nat) (text : List Char) : Option Nat :=
  text.foldlM bracesBehind? depth

/-- The line starts with four blanks for each of `depth` braces, where a brace at the front counts
as closed, and goes on with another character. -/
def IsIndented (depth : Nat) (line : List Char) : Prop :=
  ∃ n c rest, line = List.replicate (4 * n) ' ' ++ c :: rest ∧ c ≠ ' ' ∧ c ≠ '\n' ∧
    depth = if c = '}' then n + 1 else n

/-- The text has no braces and no line ends. -/
def IsUnbroken (text : List Char) : Prop :=
  ∀ c ∈ text, c ≠ '{' ∧ c ≠ '}' ∧ c ≠ '\n'

-- The instance is named because a search may find the one that tries all characters.
instance (text : List Char) : Decidable (IsUnbroken text) :=
  List.decidableBAll (fun c => c ≠ '{' ∧ c ≠ '}' ∧ c ≠ '\n') text

/-- Read with `depth` open braces, the text leaves `after` of them open; it has so many line ends,
and the line behind each of them is indented by the braces open there. -/
structure Laid (depth lineEnds after : Nat) (text : List Char) : Prop where
  braces : openBraces? depth text = some after
  lines : ∀ front line, text = front ++ '\n' :: line →
    ∃ k, openBraces? depth front = some k ∧ IsIndented k line
  count : text.count '\n' = lineEnds

theorem openBraces?_append (depth : Nat) (x y : List Char) :
    openBraces? depth (x ++ y) = (openBraces? depth x).bind (openBraces? · y) :=
  List.foldlM_append

theorem IsIndented.append {depth : Nat} {line : List Char} (h : IsIndented depth line)
    (rest : List Char) : IsIndented depth (line ++ rest) := by
  obtain ⟨n, c, tail, rfl, hc⟩ := h
  exact ⟨n, c, tail ++ rest, by rw [List.append_assoc, List.cons_append], hc⟩

@[simp]
theorem isUnbroken_nil : IsUnbroken [] :=
  fun _ h => nomatch h

@[simp]
theorem isUnbroken_cons {c : Char} {text : List Char} :
    IsUnbroken (c :: text) ↔ (c ≠ '{' ∧ c ≠ '}' ∧ c ≠ '\n') ∧ IsUnbroken text :=
  List.forall_mem_cons

@[simp]
theorem isUnbroken_append {x y : List Char} : IsUnbroken (x ++ y) ↔ IsUnbroken x ∧ IsUnbroken y :=
  List.forall_mem_append

namespace Laid

variable {depth n after : Nat} {text : List Char}

theorem nil (depth : Nat) : Laid depth 0 depth [] where
  braces := rfl
  lines _ _ h := by simp at h
  count := rfl

/-- A line end of two texts in a row is one of the first or one of the second text. -/
theorem append {m last : Nat} {rest : List Char} (h : Laid depth n after text)
    (h' : Laid after m last rest) : Laid depth (n + m) last (text ++ rest) where
  braces := by rw [openBraces?_append, h.braces, Option.bind_some, h'.braces]
  lines front line heq := by
    rcases List.append_eq_append_iff.1 heq with ⟨before, rfl, hrest⟩ | ⟨behind, htext, hline⟩
    · obtain ⟨k, hk, hind⟩ := h'.lines before line hrest
      exact ⟨k, by rw [openBraces?_append, h.braces, Option.bind_some, hk], hind⟩
    · cases behind with
      | nil =>
        -- The line end is the first character of the second text.
        obtain ⟨k, hk, hind⟩ := h'.lines [] line hline.symm
        rw [List.append_nil] at htext
        subst htext
        obtain rfl : after = k := Option.some.inj hk
        exact ⟨after, h.braces, hind⟩
      | cons c behind =>
        obtain ⟨rfl, rfl⟩ := List.cons.inj hline
        obtain ⟨k, hk, hind⟩ := h.lines front behind htext
        exact ⟨k, hk, hind.append rest⟩
  count := by rw [List.count_append, h.count, h'.count]

theorem of_isUnbroken (depth : Nat) (h : IsUnbroken text) : Laid depth 0 depth text where
  braces := by
    induction text with
    | nil => rfl
    | cons c text ih =>
      obtain ⟨hopen, hclose, -⟩ := h c List.mem_cons_self
      have hc : bracesBehind? depth c = some depth := by rw [bracesBehind?, if_neg hopen, if_neg hclose]
      rw [openBraces?, List.foldlM_cons, hc]
      exact ih fun d hd => h d (List.mem_cons_of_mem c hd)
  lines front line heq := by
    have hend : '\n' ∈ text := by simp [heq]
    exact absurd rfl (h '\n' hend).2.2
  count := List.count_eq_zero.2 fun hend => (h '\n' hend).2.2 rfl

theorem opening (depth : Nat) : Laid depth 0 (depth + 1) ['{'] where
  braces := rfl
  lines front line heq := by
    have hend : '\n' ∈ ['{'] := by simp [heq]
    simp at hend
  count := rfl

theorem closing (depth : Nat) : Laid (depth + 1) 0 depth ['}'] where
  braces := rfl
  lines front line heq := by
    have hend : '\n' ∈ ['}'] := by simp [heq]
    simp at hend
  count := rfl

/-- A line of its own without line ends. -/
theorem newLine (h : Laid depth 0 after text) (hind : IsIndented depth text) :
    Laid depth 1 after ('\n' :: text) where
  braces := h.braces
  lines front line heq := by
    cases front with
    | nil => exact ⟨depth, rfl, (List.cons.inj heq).2 ▸ hind⟩
    | cons c front =>
      have hend : '\n' ∈ text := by simp [(List.cons.inj heq).2]
      exact absurd hend (List.count_eq_zero.1 h.count)
  count := by rw [List.count_cons_self, h.count]

end Laid

end TypeProbe
