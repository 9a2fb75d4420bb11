import TypeProbe.Proofs.Identity.Legible

/-!
# The form of an atom can be read off its identity

The word at the start of an identity and the first characters behind it tell which form of atom was
written (`Form.read_word_rest`).
-/

namespace TypeProbe

inductive Form where
  | keyword | string | int | float | className | classString | object | generic | record
  | callable | template | array | list
deriving DecidableEq

def Atom.form : Atom → Form
  | .keyword _ => .keyword
  | .literal (.string _) => .string
  | .literal (.int _) => .int
  | .literal (.float _) => .float
  | .literal (.className _) => .className
  | .classString _ => .classString
  | .object _ => .object
  | .generic _ _ => .generic
  | .record _ => .record
  | .callable _ => .callable
  | .template _ _ _ => .template
  | .array _ _ _ => .array
  | .list _ _ => .list

/-- The words that stand for a keyword. -/
def keywordTexts : List String :=
  ["mixed", "void", "null", "never", "array-key", "string", "non-empty-string", "int", "float",
    "bool", "true", "false"]

/-- Reads the form of an atom: by the first characters behind the word, and by the
word where these do not decide. -/
def Form.read (word : String) : List Char → Form
  | [] =>
    if word.toList.head?.any fun c => c.isDigit || c == '-' then .int
    else if word = "class-string" then .classString
    else if word ∈ keywordTexts then .keyword
    else .object
  | '\'' :: _ => .string
  | '(' :: _ => if word = "float" then .float else .callable
  | '{' :: _ => .record
  | ':' :: ':' :: _ => .className
  | ':' :: _ => .template
  | '<' :: _ =>
    if word = "class-string" then .classString
    else if word ∈ ["array", "non-empty-array"] then .array
    else if word ∈ ["list", "non-empty-list"] then .list
    else .generic
  | _ => .object

/-! ### Reading -/

/-- No class has a word with another meaning for a name. -/
private theorem ne_of_isClassName {s w : String} (h : isClassName s = true)
    (hw : isClassName w = false) : s ≠ w := by
  rintro rfl
  rw [h] at hw
  cases hw

private theorem head_of_isClassName {s : String} (h : isClassName s = true) :
    s.toList.head?.any (fun c => c.isDigit || c == '-') = false := by
  obtain ⟨hne, hchars, hdigit⟩ := isName_iff.1 (isName_of_isClassName h)
  obtain ⟨c, rest, hs⟩ := List.exists_cons_of_ne_nil hne
  rw [hs] at hchars hdigit ⊢
  have hc := hchars c List.mem_cons_self
  have hd := hdigit c rfl
  have hminus : c ≠ '-' := by
    rintro rfl
    simp [isNameChar] at hc
  simp [hd, hminus]

private theorem read_className {name : String} (h : isClassName name = true) :
    Form.read name [] = .object := by
  have hkeywords : name ∉ keywordTexts := by
    have hall : ∀ w ∈ keywordTexts, isClassName w = false := by decide
    exact fun hm => ne_of_isClassName h (hall name hm) rfl
  have hclass : name ≠ "class-string" := ne_of_isClassName h (by decide)
  simp [Form.read, head_of_isClassName h, hkeywords, hclass]

private theorem read_generic {name : String} (h : isClassName name = true) (rest : List Char) :
    Form.read name ('<' :: rest) = .generic := by
  have hclass : name ≠ "class-string" := ne_of_isClassName h (by decide)
  have harray : name ≠ "array" := ne_of_isClassName h (by decide)
  have harray' : name ≠ "non-empty-array" := ne_of_isClassName h (by decide)
  have hlist : name ≠ "list" := ne_of_isClassName h (by decide)
  have hlist' : name ≠ "non-empty-list" := ne_of_isClassName h (by decide)
  simp [Form.read, hclass, harray, harray', hlist, hlist']

private theorem read_int (i : Int) : Form.read i.repr [] = .int := by
  obtain ⟨c, rest, hi, hc, -⟩ := Int.toList_repr i
  have hhead : i.repr.toList.head?.any (fun c => c.isDigit || c == '-') = true := by
    rw [hi]
    rcases hc with hc | rfl
    · simp [hc]
    · rfl
  unfold Form.read
  rw [if_pos hhead]

private theorem read_template {name scope : String} (h : isName scope = true) (rest : List Char) :
    Form.read name (':' :: scope.toList ++ rest) = .template := by
  obtain ⟨hne, hchars, -⟩ := isName_iff.1 h
  obtain ⟨c, tail, hs⟩ := List.exists_cons_of_ne_nil hne
  have hc : isNameChar c = true := hchars c (hs ▸ List.mem_cons_self)
  have hcolon : c ≠ ':' := by
    rintro rfl
    simp [isNameChar] at hc
  rw [hs]
  show Form.read name (':' :: c :: (tail ++ rest)) = .template
  unfold Form.read
  split <;> simp_all

/-- The word and the rest of the identity of a legible atom tell its form. -/
theorem Form.read_word_rest {a : Atom} (h : a.HasLegibleText) : Form.read a.word a.rest = a.form := by
  have hw := h.words
  cases a with
  | keyword w => cases w <;> decide
  | literal x =>
    cases x with
    | string s => rfl
    | int i => exact read_int i
    | float x => rfl
    | className name => rfl
  | classString bound => cases bound <;> rfl
  | object o =>
    cases hf : o.facets with
    | nil => simpa [Atom.rest, Atom.word, Atom.form, hf, Atom.facetsText] using read_className hw
    | cons f rest => simp [Atom.rest, hf, Atom.facetsText, Form.read, Atom.form]
  | generic o params => exact read_generic hw _
  | record r => rfl
  | callable c =>
    obtain ⟨params, result, isClosure, isPure⟩ := c
    cases isClosure <;> cases isPure <;> rfl
  | template name scope bound =>
    simpa [Atom.rest, Atom.word, Atom.form] using read_template hw.2
      (" as ".toList ++ bound.identity.toList)
  | array key value nonEmpty => cases nonEmpty <;> rfl
  | list value nonEmpty => cases nonEmpty <;> rfl

private theorem noWord_rest {a : Atom} : NoWord a.rest := by
  cases a with
  | keyword w => exact .nil
  | literal x =>
    cases x with
    | int i => exact .nil
    | _ => exact .cons (by decide)
  | classString bound =>
    cases bound with
    | none => exact .nil
    | some b => exact .cons (by decide)
  | object o =>
    cases hf : o.facets with
    | nil => simpa [Atom.rest, hf, Atom.facetsText] using NoWord.nil
    | cons f rest => simpa [Atom.rest, hf, Atom.facetsText] using NoWord.cons (c := '&') (by decide)
  | _ => exact .cons (by decide)

/-- Atoms of one identity start with the same word, go on with the same text and have the same form. -/
theorem Atom.word_rest_form_of_identity_eq {a b : Atom} (ha : a.HasLegibleText) (hb : b.HasLegibleText)
    (h : a.identity = b.identity) : a.word = b.word ∧ a.rest = b.rest ∧ a.form = b.form := by
  have e := congrArg String.toList h
  rw [Atom.toList_identity, Atom.toList_identity] at e
  obtain ⟨hword, hrest⟩ := IsWord.append_inj ha.isWord_word hb.isWord_word noWord_rest noWord_rest e
  have hword' : a.word = b.word := String.toList_injective hword
  refine ⟨hword', hrest, ?_⟩
  rw [← Form.read_word_rest ha, ← Form.read_word_rest hb, hword', hrest]

end TypeProbe
