import Mathlib
import TypeProbe.Proofs.Identity.Brackets
import TypeProbe.Ty.Build

/-!
# Words in an identity

Names, numbers and keywords are words: texts of letters, digits, a few signs and characters outside
of ASCII, none of which means anything to a reader of brackets and separators.  A word can be told
from what follows if that starts with another character (`IsWord.append_inj`).  Keys, literals and
the labels of keys are determined by their texts.
-/

namespace TypeProbe

def isNameChar (c : Char) : Bool :=
  c.isAlphanum || c == '_' || c == '\\' || decide (128 ≤ c.toNat)

def isWordChar (c : Char) : Bool :=
  isNameChar c || c == '-'

/-- The characters that have a meaning in an identity. -/
def signs : List Char :=
  ['\'', '<', '>', '{', '}', '(', ')', '|', ',', '.', '=', '&', ':', '?', ' ']

def IsWord (text : List Char) : Prop :=
  ∀ c ∈ text, isWordChar c = true

/-- The text does not start with a character of words. -/
def NoWord (text : List Char) : Prop :=
  ∀ c ∈ text.head?, isWordChar c = false

/-- Whether the text is a name: characters of names, the first of them no digit. -/
def isName (s : String) : Bool :=
  match s.toList with
  | [] => false
  | c :: rest => !c.isDigit && (c :: rest).all isNameChar

/-- The words that are taken, so that no class has them for a name. -/
def reserved : List String :=
  ["mixed", "void", "null", "never", "string", "int", "float", "bool", "true", "false", "list", "array"]

def isClassName (s : String) : Bool :=
  isName s && !reserved.contains s

/-! ### Words -/

private theorem isWordChar_of_mem_signs : ∀ c ∈ signs, isWordChar c = false := by
  simp [signs, isWordChar, isNameChar]

theorem NoWord.nil : NoWord [] :=
  fun _ h => nomatch h

theorem NoWord.cons {c : Char} {rest : List Char} (h : isWordChar c = false) : NoWord (c :: rest) := by
  intro d hd
  obtain rfl : c = d := Option.some.inj hd
  exact h

private theorem eq_nil_of_noWord {z r : List Char} (hz : IsWord z) (hr : NoWord (z ++ r)) : z = [] := by
  cases z with
  | nil => rfl
  | cons c z =>
    have hc := hz c List.mem_cons_self
    rw [hr c rfl] at hc
    cases hc

theorem IsWord.append_inj {x y r r' : List Char} (hx : IsWord x) (hy : IsWord y) (hr : NoWord r)
    (hr' : NoWord r') (h : x ++ r = y ++ r') : x = y ∧ r = r' := by
  rcases List.append_eq_append_iff.1 h with ⟨z, rfl, rfl⟩ | ⟨z, rfl, rfl⟩
  · obtain rfl := eq_nil_of_noWord (fun c hc => hy c (List.mem_append_right x hc)) hr
    exact ⟨(List.append_nil x).symm, rfl⟩
  · obtain rfl := eq_nil_of_noWord (fun c hc => hx c (List.mem_append_right y hc)) hr'
    exact ⟨List.append_nil y, rfl⟩

/-- A character that is no quote, no bracket and no stop is read without effect. -/
theorem Scan.read_of_not_mem {stops : List Char} {c : Char} (hq : c ≠ '\'') (ho : c ∉ Scan.opening)
    (hc : c ∉ Scan.closing) (hs : c ∉ stops) : Scan.read stops Scan.start c = some Scan.start := by
  simp [Scan.read, hq, ho, hc, hs, Scan.start]

theorem IsWord.clean {stops x : List Char} (hs : ∀ c ∈ stops, c ∈ signs) (hx : IsWord x) :
    Clean stops x := by
  refine .of_forall fun c hc => ?_
  have hsign : c ∉ signs := by
    intro h
    have hw := hx c hc
    rw [isWordChar_of_mem_signs c h] at hw
    cases hw
  have hopen : ∀ d ∈ Scan.opening, d ∈ signs := by simp [Scan.opening, signs]
  have hclose : ∀ d ∈ Scan.closing, d ∈ signs := by simp [Scan.closing, signs]
  refine Scan.read_of_not_mem ?_ (fun h => hsign (hopen c h)) (fun h => hsign (hclose c h)) fun h =>
    hsign (hs c h)
  rintro rfl
  exact hsign (by decide)

/-! ### Names -/

theorem isName_iff {s : String} :
    isName s = true ↔
      s.toList ≠ [] ∧ (∀ c ∈ s.toList, isNameChar c = true) ∧
        ∀ c ∈ s.toList.head?, c.isDigit = false := by
  unfold isName
  cases hs : s.toList with
  | nil => simp
  | cons c rest => simp [and_comm]

theorem isWord_of_isName {s : String} (h : isName s = true) : IsWord s.toList := by
  intro c hc
  rw [isWordChar, (isName_iff.1 h).2.1 c hc]
  rfl

theorem isName_of_isClassName {s : String} (h : isClassName s = true) : isName s = true := by
  simp only [isClassName, Bool.and_eq_true] at h
  exact h.1

/-! ### Numbers -/

/-- The text of an integer starts with a digit or a minus sign, and digits follow. -/
theorem Int.toList_repr (i : Int) :
    ∃ c rest, i.repr.toList = c :: rest ∧ (c.isDigit = true ∨ c = '-') ∧
      ∀ d ∈ rest, d.isDigit = true := by
  have hnat : ∀ n : Nat, ∀ d ∈ n.repr.toList, d.isDigit = true := by
    intro n d hd
    rw [Nat.toList_repr] at hd
    exact Nat.isDigit_of_mem_toDigits (by omega) (by omega) hd
  rw [Int.repr_eq_if]
  split
  · obtain ⟨c, rest, h⟩ : ∃ c rest, i.toNat.repr.toList = c :: rest := by
      rw [Nat.toList_repr]
      exact List.exists_cons_of_ne_nil (Nat.toDigits_ne_nil (n := i.toNat) (b := 10))
    have hdigits := h ▸ hnat i.toNat
    exact ⟨c, rest, h, .inl (hdigits c List.mem_cons_self),
      fun d hd => hdigits d (List.mem_cons_of_mem c hd)⟩
  · exact ⟨'-', (-i).toNat.repr.toList, by simp, .inr rfl, hnat _⟩

private theorem isWordChar_of_isDigit {c : Char} (h : c.isDigit = true) : isWordChar c = true := by
  simp [isWordChar, isNameChar, Char.isAlphanum, h]

theorem Int.isWord_repr (i : Int) : IsWord i.repr.toList := by
  obtain ⟨c, rest, h, hc, hrest⟩ := Int.toList_repr i
  rw [h]
  intro d hd
  rcases List.mem_cons.1 hd with rfl | hd
  · rcases hc with hc | rfl
    · exact isWordChar_of_isDigit hc
    · rfl
  · exact isWordChar_of_isDigit (hrest d hd)

private theorem repr_ne_quoted (i : Int) (s : String) : i.repr ≠ "'" ++ s := by
  intro h
  obtain ⟨c, rest, hc, hd, -⟩ := Int.toList_repr i
  have e := congrArg String.toList h
  rw [hc, String.toList_append] at e
  obtain rfl : c = '\'' := (List.cons.inj e).1
  simp at hd

/-! ### Keywords and keys -/

theorem Keyword.text_injective {v w : Keyword} (h : v.text = w.text) : v = w := by
  cases v <;> cases w <;> first | rfl | exact absurd h (by decide)

/-- A key is determined by the text of the literal that it is. -/
theorem Key.literal_text_injective {k l : Key} (h : k.literal.text = l.literal.text) : k = l := by
  cases k with
  | int i =>
    cases l with
    | int j => simpa [Key.literal, Literal.text, Int.repr_inj] using h
    | string t =>
      exact absurd h
        (by simpa [Key.literal, Literal.text, String.append_assoc] using repr_ne_quoted i _)
  | string s =>
    cases l with
    | int j =>
      exact absurd h.symm
        (by simpa [Key.literal, Literal.text, String.append_assoc] using repr_ne_quoted j _)
    | string t => simpa [Key.literal, Literal.text, String.ext_iff] using h

/-- The name has no quote. -/
def Key.IsLegible : Key → Prop
  | .int _ => True
  | .string s => '\'' ∉ s.toList

private theorem isIdentifier_iff {text : List Char} :
    isIdentifier text = true ↔ ∃ c rest, text = c :: rest ∧ (c = '_' ∨ c.isAlpha = true) ∧
      ∀ d ∈ rest, d = '_' ∨ d.isAlphanum = true := by
  cases text with
  | nil => simp [isIdentifier]
  | cons c rest => simp [isIdentifier]

private theorem isWord_of_isIdentifier {text : List Char} (h : isIdentifier text = true) :
    IsWord text := by
  obtain ⟨c, rest, rfl, hc, hrest⟩ := isIdentifier_iff.1 h
  intro d hd
  rcases List.mem_cons.1 hd with rfl | hd
  · rcases hc with rfl | hc
    · rfl
    · simp [isWordChar, isNameChar, Char.isAlphanum, hc]
  · rcases hrest d hd with rfl | hd
    · rfl
    · simp [isWordChar, isNameChar, hd]

/-- A label is a word or a quoted text. -/
theorem Key.toList_label (k : Key) :
    IsWord k.label.toList ∨ ∃ s, k = .string s ∧ k.label.toList = '\'' :: s.toList ++ ['\''] := by
  cases k with
  | int i => exact .inl (Int.isWord_repr i)
  | string s =>
    by_cases hs : isIdentifier s.toList = true
    · exact .inl (by simpa [Key.label, hs] using isWord_of_isIdentifier hs)
    · exact .inr ⟨s, rfl, by simp [Key.label, hs]⟩

theorem Key.clean_label {stops : List Char} (hs : ∀ c ∈ stops, c ∈ signs) {k : Key} (hk : k.IsLegible) :
    Clean stops k.label.toList := by
  rcases k.toList_label with hw | ⟨s, rfl, h⟩
  · exact hw.clean hs
  · rw [h]
    exact .quoted hk

private theorem repr_ne_identifier (i : Int) {s : String} (h : isIdentifier s.toList = true) :
    i.repr ≠ s := by
  intro e
  obtain ⟨c, rest, hc, hd, -⟩ := Int.toList_repr i
  obtain ⟨d, tail, hs, hd', -⟩ := isIdentifier_iff.1 h
  rw [e, hs] at hc
  obtain rfl := (List.cons.inj hc).1
  rcases hd with hd | rfl
  · rcases hd' with rfl | hd'
    · cases hd
    · simp [Char.isAlpha, Char.isUpper, Char.isLower, Char.isDigit, UInt32.le_iff_toNat_le] at hd hd'
      omega
  · simp at hd'

private theorem quoted_ne_identifier {s t : String} (h : isIdentifier s.toList = true) :
    s ≠ "'" ++ t := by
  rintro rfl
  simp [isIdentifier] at h

/-- A key is determined by its label. -/
theorem Key.label_injective {k l : Key} (h : k.label = l.label) : k = l := by
  cases k with
  | int i =>
    cases l with
    | int j => exact congrArg Key.int (Int.repr_inj.1 h)
    | string t =>
      by_cases ht : isIdentifier t.toList = true <;> simp only [Key.label, ht] at h
      · exact absurd h (repr_ne_identifier i ht)
      · exact absurd h (by simpa [String.append_assoc] using repr_ne_quoted i _)
  | string s =>
    by_cases hs : isIdentifier s.toList = true
    · cases l with
      | int j => simp only [Key.label, hs] at h; exact absurd h.symm (repr_ne_identifier j hs)
      | string t =>
        by_cases ht : isIdentifier t.toList = true <;> simp only [Key.label, hs, ht] at h
        · exact congrArg Key.string h
        · exact absurd h (by simpa [String.append_assoc] using quoted_ne_identifier hs)
    · cases l with
      | int j =>
        simp only [Key.label, hs] at h
        exact absurd h.symm (by simpa [String.append_assoc] using repr_ne_quoted j _)
      | string t =>
        by_cases ht : isIdentifier t.toList = true <;> simp only [Key.label, hs, ht] at h
        · exact absurd h.symm (by simpa [String.append_assoc] using quoted_ne_identifier ht)
        · simpa [String.ext_iff] using h

end TypeProbe
