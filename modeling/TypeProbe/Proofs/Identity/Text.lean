import TypeProbe.Proofs.Identity.Words
import TypeProbe.Proofs.Ty.Parts

/-!
# The identity of an atom as a word and a rest

The identity of an atom starts with a word (`Atom.word`), which is empty for a quoted text only, and
goes on with a bracket, a colon, an ampersand or a quote, if it goes on at all (`Atom.rest`).
-/

namespace TypeProbe

/-! ### The pieces of an identity -/

/-- A field of a record that is no list. -/
def Record.fieldText (f : Key × Ty) : List Char :=
  f.1.label.toList ++ ((if f.2.optional then ['?'] else []) ++ [':', ' '] ++ f.2.identity.toList)

/-- What stands at the end of an unsealed record. -/
def Record.openText : List Char :=
  "...<array-key, mixed>".toList

/-- The pieces of a record between the commas. -/
def Record.texts (r : Record) : List (List Char) :=
  (if r.isList then r.types.map (·.identity.toList) else r.fields.map Record.fieldText) ++
    if r.isSealed then [] else [Record.openText]

def Param.text (p : Param) : List Char :=
  (if p.byReference then ['&'] else []) ++
    (p.written.identity.toList ++
      ((if p.variadic then ['.', '.', '.'] else []) ++ if p.optional then ['='] else []))

def Atom.facetsText (facets : List Atom) : List Char :=
  facets.flatMap fun f => '&' :: f.identity.toList

/-- The word at the start of an identity. -/
def Atom.word : Atom → String
  | .keyword w => w.text
  | .literal (.string _) => ""
  | .literal (.int i) => i.repr
  | .literal (.float _) => "float"
  | .literal (.className name) => name
  | .classString _ => "class-string"
  | .object o => o.name
  | .generic o _ => o.name
  | .record r => if r.isList then "list" else "array"
  | .callable c => (if c.isPure then "pure-" else "") ++ if c.isClosure then "Closure" else "callable"
  | .template name _ _ => name
  | .array _ _ nonEmpty => if nonEmpty then "non-empty-array" else "array"
  | .list _ nonEmpty => if nonEmpty then "non-empty-list" else "list"

/-- What follows the word. -/
def Atom.rest : Atom → List Char
  | .keyword _ | .literal (.int _) | .classString none => []
  | .literal (.string s) => '\'' :: s.toList ++ ['\'']
  | .literal (.float x) => '(' :: x.text.toList ++ [')']
  | .literal (.className _) => [':', ':', 'c', 'l', 'a', 's', 's']
  | .classString (some bound) => '<' :: bound.toList ++ ['>']
  | .object o => Atom.facetsText o.facets
  | .generic o params =>
    '<' :: [',', ' '].intercalate (params.map (·.identity.toList)) ++ ['>'] ++ Atom.facetsText o.facets
  | .record r => '{' :: [',', ' '].intercalate r.texts ++ ['}']
  | .callable c =>
    '(' :: [',', ' '].intercalate (c.params.map Param.text) ++ [')'] ++
      match c.result with
      | some t => ':' :: t.identity.toList
      | none => []
  | .template _ scope bound => ':' :: scope.toList ++ " as ".toList ++ bound.identity.toList
  | .array key value _ => '<' :: (key.identity.toList ++ [',', ' '] ++ value.identity.toList) ++ ['>']
  | .list value _ => '<' :: value.identity.toList ++ ['>']

/-! ### The identity is made of the pieces -/

theorem Ty.toList_identity (t : Ty) :
    t.identity.toList =
      ['|'].intercalate ((sortedDistinct (t.atoms.map Atom.identity)).map String.toList) := by
  rw [Ty.identity_eq, String.toList_intercalate]
  rfl

/-- The identity of a type with one atom is that of the atom. -/
theorem Ty.identity_of_atoms_eq {t : Ty} {a : Atom} (h : t.atoms = [a]) : t.identity = a.identity := by
  rw [Ty.identity_eq, h]
  simp [sortedDistinct, insertOnce]

private theorem toList_facetsIdentity (facets : List Atom) :
    (Atom.facetsIdentity facets).toList = Atom.facetsText facets := by
  induction facets with
  | nil => simp [Atom.facetsIdentity, Atom.facetsText]
  | cons f rest ih =>
    simp only [Atom.facetsIdentity, String.toList_append, ih]
    simp [Atom.facetsText]

private theorem toList_fieldIdentities (fields : List (Key × Ty)) :
    (Record.fieldIdentities fields).map String.toList = fields.map Record.fieldText := by
  induction fields with
  | nil => simp [Record.fieldIdentities]
  | cons f rest ih =>
    obtain ⟨k, t⟩ := f
    simp only [Record.fieldIdentities, List.map_cons, ih]
    cases ht : t.optional <;> simp [Record.fieldText, ht]

private theorem toList_paramIdentities (params : List Param) :
    (Param.identities params).map String.toList = params.map Param.text := by
  induction params with
  | nil => simp [Param.identities]
  | cons p rest ih =>
    obtain ⟨name, type, byReference, variadic, optional⟩ := p
    have hmixed : (Ty.single (.keyword .mixed)).identity = "mixed" := by
      rw [Ty.identity_of_atoms_eq (a := .keyword .mixed) rfl, Atom.identity]
      rfl
    have hmark : ∀ (b : Bool) (s : String), (if b then s else "").toList =
        if b then s.toList else [] := by
      intro b s
      cases b <;> rfl
    cases type with
    | none =>
      simp only [Param.identities, List.map_cons, ih, String.toList_append, hmark, Param.text,
        Param.written, Option.getD_none, hmixed, List.append_assoc]
      rfl
    | some t =>
      simp only [Param.identities, List.map_cons, ih, String.toList_append, hmark, Param.text,
        Param.written, Option.getD_some, List.append_assoc]
      rfl

/-- The open end of a record is one more piece. -/
private theorem intercalate_openEnd (texts : List (List Char)) (isSealed : Bool) :
    [',', ' '].intercalate texts ++ (Record.openEnd isSealed texts.isEmpty).toList =
      [',', ' '].intercalate (texts ++ if isSealed then [] else [Record.openText]) := by
  have htext : Record.openText = "...<array-key, mixed>".toList := rfl
  cases isSealed with
  | true => simp [Record.openEnd]
  | false =>
    cases texts with
    | nil => simp [Record.openEnd, htext]
    | cons x rest =>
      simp only [Record.openEnd, List.isEmpty_cons, Bool.false_eq_true, ↓reduceIte,
        String.toList_append, htext]
      induction rest generalizing x with
      | nil => simp
      | cons y rest ih => simpa using ih y

private theorem toList_record (fields : List (Key × Ty)) (isSealed isList : Bool) :
    (Atom.record ⟨fields, isSealed, isList⟩).identity.toList =
      (if isList then "list" else "array").toList ++
        ('{' :: [',', ' '].intercalate (Record.texts ⟨fields, isSealed, isList⟩) ++ ['}']) := by
  have hsep : (", " : String).toList = [',', ' '] := rfl
  cases isList with
  | true =>
    have hmap : (Record.elementIdentities fields).map String.toList =
        (Record.types ⟨fields, isSealed, true⟩).map (·.identity.toList) := by
      simp [Record.elementIdentities_eq_map, Record.types]
    have hend := intercalate_openEnd
      ((Record.types ⟨fields, isSealed, true⟩).map (·.identity.toList)) isSealed
    have hlen : ((Record.types ⟨fields, isSealed, true⟩).map (·.identity.toList)).isEmpty =
        fields.isEmpty := by
      cases fields <;> rfl
    rw [hlen] at hend
    simp only [Atom.identity, Record.texts, String.toList_append, toList_inBraces,
      String.toList_intercalate, hsep, hmap, ↓reduceIte]
    rw [← hend]
  | false =>
    have hend := intercalate_openEnd (fields.map Record.fieldText) isSealed
    have hlen : (fields.map Record.fieldText).isEmpty = fields.isEmpty := by cases fields <;> rfl
    rw [hlen] at hend
    simp only [Atom.identity, Record.texts, String.toList_append, toList_inBraces,
      String.toList_intercalate, hsep, toList_fieldIdentities, Bool.false_eq_true, ↓reduceIte]
    rw [← hend]

/-- The identity of an atom is its word and what follows. -/
theorem Atom.toList_identity (a : Atom) : a.identity.toList = a.word.toList ++ a.rest := by
  cases a with
  | keyword w => simp [Atom.identity, Atom.word, Atom.rest]
  | literal x => cases x <;> simp [Atom.identity, Literal.text, Atom.word, Atom.rest]
  | classString bound => cases bound <;> simp [Atom.identity, Atom.word, Atom.rest]
  | object o =>
    obtain ⟨name, facets⟩ := o
    simp [Atom.identity, Atom.word, Atom.rest, toList_facetsIdentity]
  | generic o params =>
    obtain ⟨name, facets⟩ := o
    simp [Atom.identity, Atom.word, Atom.rest, toList_facetsIdentity, String.toList_intercalate,
      Ty.identities_eq_map, Function.comp_def]
  | record r =>
    obtain ⟨fields, isSealed, isList⟩ := r
    exact toList_record fields isSealed isList
  | callable c =>
    obtain ⟨params, result, isClosure, isPure⟩ := c
    cases result <;> cases isClosure <;> cases isPure <;>
      simp [Atom.identity, Atom.word, Atom.rest, String.toList_intercalate, toList_paramIdentities]
  | template name scope bound => simp [Atom.identity, Atom.word, Atom.rest]
  | array key value nonEmpty => cases nonEmpty <;> simp [Atom.identity, Atom.word, Atom.rest]
  | list value nonEmpty => cases nonEmpty <;> simp [Atom.identity, Atom.word, Atom.rest]

end TypeProbe
