import TypeProbe.Keyed
import TypeProbe.Text.Ascii

/-!
# Classes and their ancestors

A hierarchy says of two class names whether the first class is the second one or below it.
`Hierarchy.flat` relates a class to itself only.  A `ClassTable` holds the parents that
each declared class names; the parents need not be declared, and the links may form
cycles.  `ClassTable.isBelow` follows one or more links, `ClassTable.hierarchy` any number
of them.  Names count up to ASCII case.
-/

namespace TypeProbe

/-- Whether the first class is the second one or below it. -/
abbrev Hierarchy := String → String → Bool

/-- The hierarchy without any links. -/
def Hierarchy.flat : Hierarchy :=
  Ascii.same

/-- The part of a class name behind the last separator. -/
def shortClassName (name : String) : String :=
  String.ofList (name.toList.reverse.takeWhile (· ≠ '\\')).reverse

/-- The declared classes with their parents, in lower case. -/
structure ClassTable where
  parents : List (String × List String) := []

namespace ClassTable

/-- Declares a class; an earlier declaration of the name is replaced. -/
def declare (table : ClassTable) (name : String) (parents : List String) : ClassTable :=
  ⟨Keyed.put (Ascii.lower name) (parents.map Ascii.lower) table.parents⟩

def ofList (classes : List (String × List String)) : ClassTable :=
  classes.foldl (fun table c => table.declare c.1 c.2) {}

/-- The parents that the class `name` names; `name` is in lower case. -/
def parentsOf (table : ClassTable) (name : String) : List String :=
  (Keyed.get? name table.parents).getD []

/-- How many parents the classes outside `seen` name. -/
def unseenLinks (seen : List String) : List (String × List String) → Nat
  | [] => 0
  | (name, parents) :: rest => (if name ∈ seen then 0 else parents.length) + unseenLinks seen rest

theorem unseenLinks_cons_le (name : String) (seen : List String)
    (entries : List (String × List String)) :
    unseenLinks (name :: seen) entries ≤ unseenLinks seen entries := by
  induction entries with
  | nil => exact Nat.le_refl 0
  | cons e rest ih =>
    simp only [unseenLinks, List.mem_cons]
    by_cases hs : e.1 ∈ seen
    · simpa [hs] using ih
    · by_cases hn : e.1 = name <;> simp [hs, hn] <;> omega

/-- Once a class is seen, its parents are counted no more. -/
theorem unseenLinks_cons {name : String} {seen : List String} (h : name ∉ seen)
    (entries : List (String × List String)) :
    ((Keyed.get? name entries).getD []).length + unseenLinks (name :: seen) entries ≤
      unseenLinks seen entries := by
  induction entries with
  | nil => exact Nat.le_refl 0
  | cons e rest ih =>
    have hle := unseenLinks_cons_le name seen rest
    simp only [unseenLinks, List.mem_cons, Keyed.get?]
    by_cases hn : e.1 = name
    · simp [hn, h]
      omega
    · by_cases hs : e.1 ∈ seen <;> simp [hn, hs] <;> omega

/-- Whether `target` is on the stack or above a class there.  The classes are taken off the stack
one by one, each is replaced by its parents, and one that was seen before is dropped. -/
def reaches (table : ClassTable) (target : String) (seen stack : List String) : Bool :=
  match stack with
  | [] => false
  | name :: rest =>
    if name = target then true
    else if _h : name ∈ seen then table.reaches target seen rest
    else table.reaches target (name :: seen) (table.parentsOf name ++ rest)
termination_by unseenLinks seen table.parents + stack.length
decreasing_by
  · exact Nat.lt_succ_self _
  · have := unseenLinks_cons _h table.parents
    rw [List.length_append, List.length_cons, parentsOf]
    omega

/-- Whether one or more links lead from `child` to `ancestor`. -/
def isBelow (table : ClassTable) (child ancestor : String) : Bool :=
  table.reaches (Ascii.lower ancestor) [] (table.parentsOf (Ascii.lower child))

/-- Whether the first class is the second one or below it. -/
def hierarchy (table : ClassTable) : Hierarchy :=
  fun child parent => Ascii.same child parent || table.isBelow child parent

theorem hierarchy_self (table : ClassTable) (name : String) : table.hierarchy name name = true := by
  rw [hierarchy, Ascii.same_refl]
  rfl

end ClassTable

end TypeProbe
