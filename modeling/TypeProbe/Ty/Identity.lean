import TypeProbe.Number.Shortest
import TypeProbe.Ordered
import TypeProbe.Ty.Basic

/-!
# The identity of a type

`Ty.identity` writes a type as a text.  Two types count as equal if their texts agree
(`Ty.isEqual`).  The text of a union lists the texts of its atoms in order, each once, between bars,
so neither the order of the atoms nor the mark of an optional slot shows in it; the mark shows in
the text of a record, behind the key.
-/

namespace TypeProbe

/-- Whether the characters are letters, digits or underscores of ASCII and start with no digit. -/
def isIdentifier : List Char → Bool
  | [] => false
  | c :: rest => (c == '_' || c.isAlpha) && rest.all fun d => d == '_' || d.isAlphanum

/-- A key in the text of a record: an index or an identifier as it stands, any other name in quotes. -/
def Key.label : Key → String
  | .int i => i.repr
  | .string s => if isIdentifier s.toList then s else "'" ++ s ++ "'"

def Keyword.text : Keyword → String
  | .mixed => "mixed"
  | .void => "void"
  | .null => "null"
  | .never => "never"
  | .arrayKey => "array-key"
  | .string => "string"
  | .nonEmptyString => "non-empty-string"
  | .int => "int"
  | .float => "float"
  | .bool => "bool"
  | .boolTrue => "true"
  | .boolFalse => "false"

def Literal.text : Literal → String
  | .string s => "'" ++ s ++ "'"
  | .int i => i.repr
  | .float x => "float(" ++ x.text ++ ")"
  | .className name => name ++ "::class"

/-- The text between a pair of braces. -/
def inBraces (text : String) : String :=
  String.singleton '{' ++ text ++ String.singleton '}'

@[simp]
theorem toList_inBraces (text : String) : (inBraces text).toList = '{' :: text.toList ++ ['}'] := by
  simp [inBraces]

/-- What an unsealed record adds behind its fields. -/
def Record.openEnd (isSealed noFields : Bool) : String :=
  if isSealed then "" else (if noFields then "" else ", ") ++ "...<array-key, mixed>"

mutual

/-- The texts of the atoms in order, each once, between bars. -/
def Ty.identity : Ty → String
  | ⟨atoms, _⟩ => "|".intercalate (sortedDistinct (Atom.identities atoms))

def Atom.identity : Atom → String
  | .keyword word => word.text
  | .literal value => value.text
  | .classString none => "class-string"
  | .classString (some bound) => "class-string<" ++ bound ++ ">"
  | .object ⟨name, facets⟩ => name ++ Atom.facetsIdentity facets
  | .generic ⟨name, facets⟩ params =>
    name ++ "<" ++ ", ".intercalate (Ty.identities params) ++ ">" ++ Atom.facetsIdentity facets
  | .record ⟨fields, isSealed, isList⟩ =>
    (if isList then "list" else "array") ++ inBraces
      (", ".intercalate
          (if isList then Record.elementIdentities fields else Record.fieldIdentities fields) ++
        Record.openEnd isSealed fields.isEmpty)
  | .callable ⟨params, result, isClosure, isPure⟩ =>
    (if isPure then "pure-" else "") ++ (if isClosure then "Closure(" else "callable(") ++
    ", ".intercalate (Param.identities params) ++ ")" ++
    (match result with
      | some t => ":" ++ t.identity
      | none => "")
  | .template name scope bound => name ++ ":" ++ scope ++ " as " ++ bound.identity
  | .array key value nonEmpty =>
    (if nonEmpty then "non-empty-array<" else "array<") ++ key.identity ++ ", " ++ value.identity ++ ">"
  | .list value nonEmpty => (if nonEmpty then "non-empty-list<" else "list<") ++ value.identity ++ ">"

def Atom.identities : List Atom → List String
  | [] => []
  | a :: rest => a.identity :: Atom.identities rest

/-- The facets of an object, each behind an ampersand. -/
def Atom.facetsIdentity : List Atom → String
  | [] => ""
  | a :: rest => "&" ++ a.identity ++ Atom.facetsIdentity rest

def Ty.identities : List Ty → List String
  | [] => []
  | t :: rest => t.identity :: Ty.identities rest

def Record.elementIdentities : List (Key × Ty) → List String
  | [] => []
  | (_, t) :: rest => t.identity :: Record.elementIdentities rest

/-- Each field as its key, a question mark if the slot may be missing, a colon and its type. -/
def Record.fieldIdentities : List (Key × Ty) → List String
  | [] => []
  | (k, t) :: rest =>
    (k.label ++ (if t.optional then "?" else "") ++ ": " ++ t.identity) :: Record.fieldIdentities rest

/-- Each parameter as its type between the signs for a reference, for many
arguments and for a default. -/
def Param.identities : List Param → List String
  | [] => []
  | ⟨_, type, byReference, variadic, optional⟩ :: rest =>
    ((if byReference then "&" else "") ++
      (match type with
        | some t => t.identity
        | none => "mixed") ++
      (if variadic then "..." else "") ++ (if optional then "=" else "")) :: Param.identities rest

end

/-- Whether two types have the same identity. -/
def Ty.isEqual (s t : Ty) : Bool :=
  s.identity == t.identity

theorem Atom.identities_eq_map (atoms : List Atom) :
    Atom.identities atoms = atoms.map Atom.identity := by
  induction atoms with
  | nil => simp [Atom.identities]
  | cons a rest ih => simp [Atom.identities, ih]

theorem Ty.identities_eq_map (types : List Ty) : Ty.identities types = types.map Ty.identity := by
  induction types with
  | nil => simp [Ty.identities]
  | cons t rest ih => simp [Ty.identities, ih]

theorem Record.elementIdentities_eq_map (fields : List (Key × Ty)) :
    Record.elementIdentities fields = fields.map fun f => f.2.identity := by
  induction fields with
  | nil => simp [Record.elementIdentities]
  | cons f rest ih => obtain ⟨k, t⟩ := f; simp [Record.elementIdentities, ih]

/-- The identity of a union depends on the identities of its atoms alone. -/
theorem Ty.identity_eq (t : Ty) :
    t.identity = "|".intercalate (sortedDistinct (t.atoms.map Atom.identity)) := by
  obtain ⟨atoms, optional⟩ := t
  rw [Ty.identity, Atom.identities_eq_map]

end TypeProbe
