import Mathlib.Data.List.Infix
import TypeProbe.Proofs.Text.Offsets

/-!
# The places of a template are filled in one pass

`Template.Filled` says without an algorithm what becomes of a template: from left to right a
place at the front is replaced by its argument, and where there is none, one character is
copied.  `Template.fill` jumps from brace to brace instead.  Both agree, since only a brace
opens a place (`Template.fillChars_eq_iff`).  For the same reason a place that lies across the
end of a text is the only thing that can tell the filled text of a whole from those of its two
halves (`Template.Filled.append`).

The jumps may be made on the encoded text, by counting bytes: `Template.fillByOffsets?` cuts the
text at such offsets and fails if one of them lies inside a character, which never happens
(`Template.fillByOffsets?_eq`).
-/

namespace TypeProbe

namespace Template

/-- The digits write the number of the argument `a`, which is a word of 64 bits. -/
structure IsNumberOf (args : List String) (digits : List Char) (a : String) : Prop where
  nonempty : digits ≠ []
  isDigit : ∀ d ∈ digits, d.isDigit = true
  lt : Nat.ofDigitChars 10 digits 0 < UInt64.size
  argument : args[Nat.ofDigitChars 10 digits 0]? = some a

/-- The digits between braces. -/
def placeOf (digits : List Char) : List Char :=
  '{' :: (digits ++ ['}'])

/-- What becomes of a template when its places are filled. -/
inductive Filled (args : List String) : List Char → List Char → Prop where
  | done : Filled args [] []
  | place {digits rest out : List Char} {a : String} : IsNumberOf args digits a → Filled args rest out →
    Filled args (placeOf digits ++ rest) (a.toList ++ out)
  | copy {c : Char} {rest out : List Char} :
    (∀ digits a, IsNumberOf args digits a → ¬ placeOf digits <+: c :: rest) →
    Filled args rest out → Filled args (c :: rest) (c :: out)

/-- A place with an argument lies across the end of the first text. -/
def Straddles (args : List String) (x y : List Char) : Prop :=
  ∃ digits a front back, IsNumberOf args digits a ∧ placeOf digits = front ++ back ∧
    front ≠ [] ∧ back ≠ [] ∧ front <:+ x ∧ back <+: y

variable {args : List String}

/-! ### A place at the front -/

theorem number_eq (digits : List Char) : number digits = Nat.ofDigitChars 10 digits 0 :=
  rfl

theorem argument?_eq_some_iff {digits : List Char} (hdigits : ∀ d ∈ digits, d.isDigit = true)
    {a : String} : argument? digits args = some a ↔ IsNumberOf args digits a := by
  unfold argument?
  rw [number_eq]
  split
  · rename_i hno
    simp only [Bool.or_eq_true, List.isEmpty_iff, decide_eq_true_eq] at hno
    refine iff_of_false (by simp) fun h => ?_
    rcases hno with hnil | hle
    · exact h.nonempty hnil
    · exact absurd h.lt (Nat.not_lt.2 hle)
  · rename_i hyes
    simp only [Bool.or_eq_true, List.isEmpty_iff, decide_eq_true_eq, not_or, Nat.not_le] at hyes
    exact ⟨fun h => ⟨hyes.1, hdigits, hyes.2, h⟩, fun h => h.argument⟩

private theorem isDigit_brace : Char.isDigit '}' = false := by decide

/-- Digits up to a closing brace are read as one number. -/
private theorem place?_digits {digits : List Char} (hdigits : ∀ d ∈ digits, d.isDigit = true)
    (rest : List Char) :
    place? args (digits ++ '}' :: rest) = (argument? digits args).map fun a => (a, rest) := by
  have htake : (digits ++ '}' :: rest).takeWhile Char.isDigit = digits := by
    rw [List.takeWhile_append_of_pos hdigits, List.takeWhile_cons_of_neg (by simp [isDigit_brace])]
    exact List.append_nil digits
  have hdrop : (digits ++ '}' :: rest).dropWhile Char.isDigit = '}' :: rest := by
    rw [List.dropWhile_append_of_pos hdigits, List.dropWhile_cons_of_neg (by simp [isDigit_brace])]
  unfold place?
  simp only [hdrop, htake]

/-- What is read behind a brace is the rest of a place. -/
theorem place?_eq_some_iff {after rest : List Char} {a : String} :
    place? args after = some (a, rest) ↔
      ∃ digits, IsNumberOf args digits a ∧ '{' :: after = placeOf digits ++ rest := by
  have hdigits : ∀ d ∈ after.takeWhile Char.isDigit, d.isDigit = true :=
    fun d hd => List.mem_takeWhile_imp hd
  constructor
  · intro h
    unfold place? at h
    split at h
    · rename_i r hdrop
      obtain ⟨b, hb, heq⟩ := Option.map_eq_some_iff.1 h
      obtain ⟨rfl, rfl⟩ := Prod.mk.inj heq
      refine ⟨_, (argument?_eq_some_iff hdigits).1 hb, ?_⟩
      have hsplit := List.takeWhile_append_dropWhile (p := Char.isDigit) (l := after)
      rw [hdrop] at hsplit
      simp [placeOf, hsplit]
    · cases h
  · rintro ⟨digits, h, hafter⟩
    obtain rfl : after = digits ++ '}' :: rest := by
      simpa [placeOf] using hafter
    rw [place?_digits h.isDigit, (argument?_eq_some_iff h.isDigit).2 h]
    rfl

private theorem place?_eq_none_iff {after : List Char} :
    place? args after = none ↔
      ∀ digits a, IsNumberOf args digits a → ¬ placeOf digits <+: '{' :: after := by
  constructor
  · rintro hnone digits a h ⟨rest, hrest⟩
    have hsome : place? args after = some (a, rest) := place?_eq_some_iff.2 ⟨digits, h, hrest.symm⟩
    rw [hnone] at hsome
    cases hsome
  · intro h
    cases hp : place? args after with
    | none => rfl
    | some p =>
      obtain ⟨a, rest⟩ := p
      obtain ⟨digits, hnumber, hafter⟩ := place?_eq_some_iff.1 hp
      exact absurd ⟨rest, hafter.symm⟩ (h digits a hnumber)

/-! ### The whole template, one character at a time -/

theorem fillChars_nil : fillChars args [] = [] :=
  fillChars_of_forall_ne (by simp)

private theorem fillChars_of_place {after rest : List Char} {a : String}
    (h : place? args after = some (a, rest)) :
    fillChars args ('{' :: after) = a.toList ++ fillChars args rest :=
  fillChars_append_place (List.forall_mem_nil _) h

private theorem fillChars_of_brace {after : List Char} (h : place? args after = none) :
    fillChars args ('{' :: after) = '{' :: fillChars args after :=
  fillChars_append_brace (List.forall_mem_nil _) h

/-- A character that is no brace is copied. -/
private theorem fillChars_of_ne {c : Char} (hc : c ≠ '{') (cs : List Char) :
    fillChars args (c :: cs) = c :: fillChars args cs := by
  rcases forall_ne_or_exists_brace cs with h | ⟨front, after, rfl, hfront⟩
  · rw [fillChars_of_forall_ne h, fillChars_of_forall_ne (List.forall_mem_cons.2 ⟨hc, h⟩)]
  · have hmore : ∀ d ∈ c :: front, d ≠ '{' := List.forall_mem_cons.2 ⟨hc, hfront⟩
    cases hp : place? args after with
    | none =>
      exact (fillChars_append_brace hmore hp).trans
        (congrArg (c :: ·) (fillChars_append_brace hfront hp).symm)
    | some p =>
      exact (fillChars_append_place hmore hp).trans
        (congrArg (c :: ·) (fillChars_append_place hfront hp).symm)

/-- A place starts with a brace, so no other character does. -/
private theorem not_placeOf_prefix_of_ne {c : Char} (hc : c ≠ '{') (digits rest : List Char) :
    ¬ placeOf digits <+: c :: rest := fun h => hc (List.cons_prefix_cons.1 h).1.symm

/-- What the algorithm writes is what becomes of the template, and nothing else is. -/
theorem fillChars_eq_iff {cs out : List Char} : fillChars args cs = out ↔ Filled args cs out := by
  constructor
  · rintro rfl
    induction hn : cs.length using Nat.strong_induction_on generalizing cs with
    | _ n ih =>
      subst hn
      cases cs with
      | nil =>
        rw [fillChars_nil]
        exact .done
      | cons c rest =>
        by_cases hc : c = '{'
        · subst hc
          cases hp : place? args rest with
          | none =>
            rw [fillChars_of_brace hp]
            exact .copy (place?_eq_none_iff.1 hp) (ih _ (by simp) rfl)
          | some p =>
            obtain ⟨a, tail⟩ := p
            obtain ⟨digits, hnumber, hrest⟩ := place?_eq_some_iff.1 hp
            have hlt : tail.length < rest.length := length_of_place? hp
            rw [fillChars_of_place hp, hrest]
            exact .place hnumber (ih _ (by rw [List.length_cons]; omega) rfl)
        · rw [fillChars_of_ne hc]
          exact .copy (fun digits a _ => not_placeOf_prefix_of_ne hc digits rest) (ih _ (by simp) rfl)
  · intro h
    induction h with
    | done => exact fillChars_nil
    | @place digits rest out a hnumber _ ih =>
      rw [← ih]
      exact fillChars_of_place (place?_eq_some_iff.2 ⟨digits, hnumber, rfl⟩)
    | @copy c rest out hnone _ ih =>
      rw [← ih]
      by_cases hc : c = '{'
      · subst hc
        exact fillChars_of_brace (place?_eq_none_iff.2 hnone)
      · exact fillChars_of_ne hc rest

theorem fill_eq_iff {template result : String} :
    fill template args = result ↔ Filled args template.toList result.toList := by
  rw [← fillChars_eq_iff, fill, ← String.toList_inj, String.toList_ofList]

/-! ### Parts of a template -/

/-- The filled text of a whole is made of those of its halves, unless a place lies across. -/
theorem Filled.append {x y out out' : List Char} (hx : Filled args x out) (hy : Filled args y out')
    (h : ¬ Straddles args x y) : Filled args (x ++ y) (out ++ out') := by
  induction hx with
  | done => exact hy
  | @place digits rest out a hnumber _ ih =>
    have hrest : ¬ Straddles args rest y := by
      rintro ⟨ds, b, front, back, hds, heq, hfront, hback, hsuffix, hprefix⟩
      exact h ⟨ds, b, front, back, hds, heq, hfront, hback,
        hsuffix.trans (List.suffix_append _ _), hprefix⟩
    rw [List.append_assoc, List.append_assoc]
    exact .place hnumber (ih hrest)
  | @copy c rest out hnone _ ih =>
    have hrest : ¬ Straddles args rest y := by
      rintro ⟨ds, b, front, back, hds, heq, hfront, hback, hsuffix, hprefix⟩
      exact h ⟨ds, b, front, back, hds, heq, hfront, hback,
        hsuffix.trans (List.suffix_cons _ _), hprefix⟩
    refine .copy (fun digits a hnumber hfront => ?_) (ih hrest)
    -- A place at the front of the whole lies in the first half, or across its end.
    obtain ⟨tail, htail⟩ := hfront
    rcases List.append_eq_append_iff.1 (htail.trans (List.cons_append ..).symm) with
      ⟨more, hmore, -⟩ | ⟨more, hmore, hy⟩
    · exact hnone digits a hnumber ⟨more, hmore.symm⟩
    · by_cases hnil : more = []
      · subst hnil
        exact hnone digits a hnumber ⟨[], by simpa using hmore⟩
      · exact h ⟨digits, a, c :: rest, more, hnumber, hmore, List.cons_ne_nil _ _, hnil,
          List.suffix_refl _, tail, hy.symm⟩

/-- Behind its first character a place has no opening brace. -/
private theorem not_straddles_brace (x y : List Char) : ¬ Straddles args x ('{' :: y) := by
  rintro ⟨digits, a, front, back, hnumber, heq, hfront, hback, -, hprefix⟩
  cases front with
  | nil => exact hfront rfl
  | cons c front =>
    cases back with
    | nil => exact hback rfl
    | cons d back =>
      obtain rfl : d = '{' := (List.cons_prefix_cons.1 hprefix).1
      have hmem : '{' ∈ digits ++ ['}'] := by
        rw [(List.cons.inj heq).2]
        simp
      rcases List.mem_append.1 hmem with hd | hd
      · exact absurd (hnumber.isDigit _ hd) (by decide)
      · exact absurd (List.mem_singleton.1 hd) (by decide)

/-- Text without an opening brace is copied. -/
private theorem Filled.copied {x rest out : List Char} (hx : '{' ∉ x) (h : Filled args rest out) :
    Filled args (x ++ rest) (x ++ out) := by
  induction x with
  | nil => exact h
  | cons c x ih =>
    obtain ⟨hc, hx⟩ := not_or.1 (mt List.mem_cons.2 hx)
    exact .copy (fun digits _ _ => not_placeOf_prefix_of_ne (Ne.symm hc) digits _) (ih hx)

/-- Digits that write the number of no argument stand between their braces as before. -/
private theorem Filled.kept {digits rest out : List Char} (hdigits : ∀ d ∈ digits, d.isDigit = true)
    (hno : ∀ a, ¬ IsNumberOf args digits a) (h : Filled args rest out) :
    Filled args (placeOf digits ++ rest) (placeOf digits ++ out) := by
  have hnone : place? args (digits ++ '}' :: rest) = none := by
    rw [place?_digits hdigits, Option.map_eq_none_iff, Option.eq_none_iff_forall_ne_some]
    exact fun a ha => hno a ((argument?_eq_some_iff hdigits).1 ha)
  have hcopied : '{' ∉ digits ++ ['}'] := by
    intro hmem
    rcases List.mem_append.1 hmem with hd | hd
    · exact absurd (hdigits _ hd) (by decide)
    · exact absurd (List.mem_singleton.1 hd) (by decide)
  rw [List.append_cons] at hnone
  exact .copy (place?_eq_none_iff.1 hnone) (h.copied hcopied)

theorem not_isNumberOf {digits : List Char}
    (h : args.length ≤ Nat.ofDigitChars 10 digits 0 ∨ UInt64.size ≤ Nat.ofDigitChars 10 digits 0)
    (a : String) : ¬ IsNumberOf args digits a := by
  intro hnumber
  rcases h with hle | hle
  · have hsome := hnumber.argument
    rw [List.getElem?_eq_none hle] at hsome
    cases hsome
  · exact absurd hnumber.lt (Nat.not_lt.2 hle)

end Template

/-- What becomes of a template is what is read from left to right: a place at the front is replaced
by its argument, and any other character is copied.  The same results by counting bytes, where no
cut lies inside a character.  So every place is filled, wherever it stands, and numbers without an
argument are left between their braces; and the filled text of a whole is made of those of its
halves if no place lies across. -/
theorem Template.fill_singlePass (args : List String) :
    (∀ template result : String, fill template args = result ↔
      Filled args template.toList result.toList) ∧
    (∀ template : String, fillByOffsets? args template.toList = some (fill template args).toList) ∧
    (∀ (front back : String) (digits : List Char),
      (∀ a, IsNumberOf args digits a →
        fill (front ++ String.ofList (placeOf digits) ++ back) args =
          fill front args ++ a ++ fill back args) ∧
      ((∀ d ∈ digits, d.isDigit = true) →
        args.length ≤ Nat.ofDigitChars 10 digits 0 ∨ UInt64.size ≤ Nat.ofDigitChars 10 digits 0 →
        fill (front ++ String.ofList (placeOf digits) ++ back) args =
          fill front args ++ String.ofList (placeOf digits) ++ fill back args)) ∧
    ∀ s t : String, ¬ Straddles args s.toList t.toList →
      fill (s ++ t) args = fill s args ++ fill t args := by
  have hfilled : ∀ t : String, Filled args t.toList (fill t args).toList := fun t => fill_eq_iff.1 rfl
  refine ⟨fun template result => fill_eq_iff, fun template => ?_, fun front back digits => ⟨?_, ?_⟩, ?_⟩
  · rw [fillByOffsets?_eq, fill, String.toList_ofList]
  · intro a hnumber
    have hwhole := (hfilled front).append (.place hnumber (hfilled back)) (not_straddles_brace _ _)
    exact fill_eq_iff.2 (by simpa [placeOf] using hwhole)
  · intro hdigits hno
    have hkept := (hfilled back).kept hdigits (not_isNumberOf hno)
    have hwhole := (hfilled front).append hkept (not_straddles_brace _ _)
    exact fill_eq_iff.2 (by simpa [placeOf] using hwhole)
  · intro s t hst
    have hwhole := (hfilled s).append (hfilled t) hst
    exact fill_eq_iff.2 (by simpa using hwhole)

/-- The number of a place whose closing brace is missing. -/
private def unclosed : String :=
  String.singleton '{' ++ "1"

theorem Template.fill_singlePass_nested :
    (IsNumberOf ["{1}", "b"] ['0', '0'] "{1}" ∧
      fill ("é".push '{' ++ "{00}{1}") ["{1}", "b"] = "é".push '{' ++ "{1}b") ∧
    ((∀ d ∈ ['2'], d.isDigit = true) ∧ ["{1}", "b"].length ≤ Nat.ofDigitChars 10 ['2'] 0 ∧
      fill "é{2}{1}" ["{1}", "b"] = "é{2}b") ∧
    (¬ Straddles ["{1}", "b"] unclosed.toList "{0}".toList ∧
      fill (unclosed ++ "{0}") ["{1}", "b"] = unclosed ++ "{1}") := by
  obtain ⟨-, -, hplaces, happend⟩ := Template.fill_singlePass ["{1}", "b"]
  have hnumber : IsNumberOf ["{1}", "b"] ['0', '0'] "{1}" := ⟨by simp, by simp, by decide, rfl⟩
  have hdigits : ∀ d ∈ ['2'], d.isDigit = true := by simp
  have hlength : ["{1}", "b"].length ≤ Nat.ofDigitChars 10 ['2'] 0 := by decide
  have hapart : ¬ Straddles ["{1}", "b"] unclosed.toList "{0}".toList := not_straddles_brace _ _
  have hbrace : fill ("é".push '{') ["{1}", "b"] = "é".push '{' := by decide +kernel
  have hletter : fill "é" ["{1}", "b"] = "é" := by decide +kernel
  have hopen : fill unclosed ["{1}", "b"] = unclosed := by decide +kernel
  have hfirst : fill "{0}" ["{1}", "b"] = "{1}" := by decide +kernel
  have hsecond : fill "{1}" ["{1}", "b"] = "b" := by decide +kernel
  refine ⟨⟨hnumber, ?_⟩, ⟨hdigits, hlength, ?_⟩, ⟨hapart, ?_⟩⟩
  · have hwhole := (hplaces ("é".push '{') "{1}" ['0', '0']).1 _ hnumber
    rw [hbrace, hsecond] at hwhole
    exact hwhole
  · have hwhole := (hplaces "é" "{1}" ['2']).2 hdigits (.inl hlength)
    rw [hletter, hsecond] at hwhole
    exact hwhole
  · rw [happend _ _ hapart, hopen, hfirst]

end TypeProbe
