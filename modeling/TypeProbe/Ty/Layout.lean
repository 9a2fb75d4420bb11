import TypeProbe.Classes
import TypeProbe.Ty.Identity

/-!
# Types laid out for reading

`Ty.layout level` writes a type for a reader: class names without their namespace, the
parameters of callables with their names, and the fields of a record on lines of their own,
indented by four blanks for each level.  The level grows by one inside a record.  Apart from
records a type is written on one line.
-/

namespace TypeProbe

/-- The blanks in front of a line of the given level. -/
def indentation (level : Nat) : String :=
  String.ofList (List.replicate (4 * level) ' ')

mutual

def Ty.layout (level : Nat) : Ty → String
  | ⟨atoms, _⟩ => " | ".intercalate (Atom.layouts level atoms)
termination_by structural t => t

def Atom.layout (level : Nat) : Atom → String
  | .keyword word => word.text
  | .literal (.className name) => shortClassName name ++ "::class"
  | .literal value => value.text
  | .classString none => "class-string"
  | .classString (some bound) => shortClassName bound ++ "::class"
  | .object ⟨name, facets⟩ => shortClassName name ++ Atom.facetsLayout level facets
  | .generic ⟨name, facets⟩ params =>
    shortClassName name ++ "<" ++ ", ".intercalate (Ty.layouts level params) ++ ">" ++
      Atom.facetsLayout level facets
  | .record ⟨fields, _, isList⟩ =>
    "array" ++ inBraces
      (if isList then ", ".intercalate (Record.elementLayouts (level + 1) fields)
        else "\n" ++ Record.fieldLines level fields ++ indentation (level - 1))
  | .callable ⟨params, result, isClosure, isPure⟩ =>
    (if isPure then "pure-" else "") ++ (if isClosure then "Closure(" else "callable(") ++
    ", ".intercalate (Param.layouts level params) ++ "): " ++
    (match result with
      | some t => t.layout level
      | none => "void")
  | .template _ scope bound => "from " ++ shortClassName scope ++ " as " ++ bound.layout level
  | .array key value nonEmpty =>
    (if nonEmpty then "non-empty-array<" else "array<") ++ key.layout level ++ ", " ++
      value.layout level ++ ">"
  | .list value nonEmpty =>
    (if nonEmpty then "non-empty-list<" else "list<") ++ value.layout level ++ ">"
termination_by structural a => a

def Atom.layouts (level : Nat) : List Atom → List String
  | [] => []
  | a :: rest => a.layout level :: Atom.layouts level rest
termination_by structural l => l

/-- The facets behind an ampersand, if there are any. -/
def Atom.facetsLayout (level : Nat) : List Atom → String
  | [] => ""
  | a :: rest => " & " ++ ", ".intercalate (a.layout level :: Atom.layouts level rest)
termination_by structural l => l

def Ty.layouts (level : Nat) : List Ty → List String
  | [] => []
  | t :: rest => t.layout level :: Ty.layouts level rest
termination_by structural l => l

def Record.elementLayouts (level : Nat) : List (Key × Ty) → List String
  | [] => []
  | (_, t) :: rest => t.layout level :: Record.elementLayouts level rest
termination_by structural l => l

/-- One line for each field: its key, a question mark if the slot may be
missing, a colon and its type. -/
def Record.fieldLines (level : Nat) : List (Key × Ty) → String
  | [] => ""
  | (k, t) :: rest =>
    indentation level ++ k.text ++ (if t.optional then "?" else "") ++ ": " ++
      t.layout (level + 1) ++ ",\n" ++
    Record.fieldLines level rest
termination_by structural l => l

/-- Each parameter as its type, with a sign for many arguments, and its name,
with a sign for a reference. -/
def Param.layouts (level : Nat) : List Param → List String
  | [] => []
  | ⟨name, type, byReference, variadic, _⟩ :: rest =>
    ((if variadic then "..." else "") ++
      (match type with
        | some t => t.layout level
        | none => "mixed") ++
      " " ++ (if byReference then "&" else "") ++ "$" ++ name) :: Param.layouts level rest
termination_by structural l => l

end

theorem Atom.layouts_eq_map (level : Nat) (atoms : List Atom) :
    Atom.layouts level atoms = atoms.map (·.layout level) := by
  induction atoms with
  | nil => rfl
  | cons a rest ih => rw [Atom.layouts, ih, List.map_cons]

theorem Ty.layouts_eq_map (level : Nat) (types : List Ty) :
    Ty.layouts level types = types.map (·.layout level) := by
  induction types with
  | nil => rfl
  | cons t rest ih => rw [Ty.layouts, ih, List.map_cons]

theorem Record.elementLayouts_eq_map (level : Nat) (fields : List (Key × Ty)) :
    Record.elementLayouts level fields = fields.map fun f => f.2.layout level := by
  induction fields with
  | nil => rfl
  | cons f rest ih => rw [Record.elementLayouts, ih, List.map_cons]

/-- The type laid out as it stands at the margin. -/
def Ty.inline (t : Ty) : String :=
  t.layout 1

/-- The type laid out between two line ends. -/
def Ty.display (t : Ty) : String :=
  "\n" ++ t.inline ++ "\n"

end TypeProbe
