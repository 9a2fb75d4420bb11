/-!
# Templates with numbered places

A place of a template is a number in braces, written with decimal digits only.
`Template.fill` replaces each place whose number counts an argument by that argument, in one
pass from left to right: the text of an argument is not searched again, and a brace that
opens no such place stays as it is.
-/

namespace TypeProbe.Template

/-- The number a list of decimal digits denotes. -/
def number (digits : List Char) : Nat :=
  digits.foldl (fun n d => 10 * n + (d.toNat - '0'.toNat)) 0

/-- The argument a place stands for.  The number of a place is a word of 64 bits, so
a larger one counts nothing. -/
def argument? (digits : List Char) (args : List String) : Option String :=
  if digits.isEmpty || decide (UInt64.size ≤ number digits) then none else args[number digits]?

/-- What follows an opening brace, read as the rest of a place: the argument it stands
for and the text behind it. -/
def place? (args : List String) (cs : List Char) : Option (String × List Char) :=
  match cs.dropWhile Char.isDigit with
  | '}' :: rest => (argument? (cs.takeWhile Char.isDigit) args).map fun a => (a, rest)
  | _ => none

private theorem length_of_dropWhile_eq_cons {p : Char → Bool} {cs rest : List Char} {c : Char}
    (h : cs.dropWhile p = c :: rest) : rest.length < cs.length := by
  have := (List.dropWhile_sublist p (l := cs)).length_le
  rwa [h, List.length_cons] at this

theorem length_of_place? {args : List String} {cs rest : List Char} {a : String}
    (h : place? args cs = some (a, rest)) : rest.length < cs.length := by
  unfold place? at h
  split at h
  · rename_i r heq
    obtain ⟨b, -, hb⟩ := Option.map_eq_some_iff.1 h
    obtain ⟨-, rfl⟩ := Prod.mk.inj hb
    exact length_of_dropWhile_eq_cons heq
  · simp at h

/-- Copies the text up to the next opening brace, then fills the place there or keeps the brace. -/
def fillChars (args : List String) (cs : List Char) : List Char :=
  match _h : cs.dropWhile (· ≠ '{') with
  | [] => cs
  | c :: after =>
    match _hp : place? args after with
    | some (a, rest) => cs.takeWhile (· ≠ '{') ++ a.toList ++ fillChars args rest
    | none => cs.takeWhile (· ≠ '{') ++ c :: fillChars args after
termination_by cs.length
decreasing_by
  · exact Nat.lt_trans (length_of_place? _hp) (length_of_dropWhile_eq_cons _h)
  · exact length_of_dropWhile_eq_cons _h

/-- The template with its places filled. -/
def fill (template : String) (args : List String) : String :=
  String.ofList (fillChars args template.toList)

variable {args : List String}

/-- Without an opening brace nothing is filled. -/
theorem fillChars_of_forall_ne {cs : List Char} (h : ∀ c ∈ cs, c ≠ '{') :
    fillChars args cs = cs := by
  have hd : cs.dropWhile (· ≠ '{') = [] := by
    induction cs with
    | nil => rfl
    | cons c rest ih =>
      rw [List.dropWhile_cons_of_pos (by simpa using h c (List.mem_cons_self ..))]
      exact ih fun d hd => h d (List.mem_cons_of_mem _ hd)
  unfold fillChars
  split
  · rfl
  · rename_i heq
    rw [hd] at heq
    cases heq

private theorem dropWhile_append_brace {front after : List Char} (hfront : ∀ c ∈ front, c ≠ '{') :
    (front ++ '{' :: after).dropWhile (· ≠ '{') = '{' :: after := by
  rw [List.dropWhile_append_of_pos (by simpa using hfront)]
  rfl

private theorem takeWhile_append_brace {front after : List Char} (hfront : ∀ c ∈ front, c ≠ '{') :
    (front ++ '{' :: after).takeWhile (· ≠ '{') = front := by
  rw [List.takeWhile_append_of_pos (by simpa using hfront)]
  exact List.append_nil front

/-- Text without an opening brace is copied up to the next place, and that is filled. -/
theorem fillChars_append_place {front after rest : List Char} {a : String}
    (hfront : ∀ c ∈ front, c ≠ '{') (hp : place? args after = some (a, rest)) :
    fillChars args (front ++ '{' :: after) = front ++ a.toList ++ fillChars args rest := by
  rw [fillChars]
  split
  · rename_i heq
    rw [dropWhile_append_brace hfront] at heq
    cases heq
  · rename_i c after' heq
    rw [dropWhile_append_brace hfront] at heq
    obtain ⟨rfl, rfl⟩ := List.cons.inj heq
    rw [takeWhile_append_brace hfront]
    split
    · rename_i b rest' hb
      rw [hp] at hb
      obtain ⟨rfl, rfl⟩ := Prod.mk.inj (Option.some.inj hb)
      rfl
    · rename_i hb
      rw [hp] at hb
      cases hb

/-- A brace that opens no place is copied with the text before it. -/
theorem fillChars_append_brace {front after : List Char} (hfront : ∀ c ∈ front, c ≠ '{')
    (hp : place? args after = none) :
    fillChars args (front ++ '{' :: after) = front ++ '{' :: fillChars args after := by
  rw [fillChars]
  split
  · rename_i heq
    rw [dropWhile_append_brace hfront] at heq
    cases heq
  · rename_i c after' heq
    rw [dropWhile_append_brace hfront] at heq
    obtain ⟨rfl, rfl⟩ := List.cons.inj heq
    rw [takeWhile_append_brace hfront]
    split
    · rename_i b rest' hb
      rw [hp] at hb
      cases hb
    · rfl

/-- A single place at the end is filled with the argument as it stands. -/
theorem fill_append_place {front : String} (hfront : ∀ c ∈ front.toList, c ≠ '{') (a : String) :
    fill (front ++ "{0}") [a] = front ++ a := by
  have hplace : place? [a] ['0', '}'] = some (a, []) := by rfl
  have hend : fillChars [a] [] = [] := fillChars_of_forall_ne (by simp)
  unfold fill
  rw [String.toList_append]
  have h0 : "{0}".toList = ['{', '0', '}'] := by decide
  rw [h0, fillChars_append_place hfront hplace, hend, List.append_nil]
  rw [← String.toList_append, String.ofList_toList]

end TypeProbe.Template
