import TypeProbe.Classes
import TypeProbe.Code
import TypeProbe.Issue
import TypeProbe.Ty.Containment

/-!
# Workspaces

A workspace holds what a checker has found out: the types and locations of nodes, the declared
classes and the issues raised so far, in the order they were raised.  A node without a recorded
location lies at the start of the workspace's own file.
-/

namespace TypeProbe

structure Workspace where
  file : String
  types : List (Nat × Ty) := []
  locations : List (Nat × Location) := []
  classes : ClassTable := {}
  issues : List Issue := []

namespace Workspace

/-! ### Nodes -/

def setType (w : Workspace) (node : Nat) (type : Ty) : Workspace :=
  { w with types := Keyed.put node type w.types }

def setLocation (w : Workspace) (node : Nat) (location : Location) : Workspace :=
  { w with locations := Keyed.put node location w.locations }

/-- Places a node in the workspace's own file. -/
def setSpan (w : Workspace) (node start stop : Nat) : Workspace :=
  w.setLocation node (.between w.file start stop)

def typeOf? (w : Workspace) (node : Nat) : Option Ty :=
  Keyed.get? node w.types

def locationOf (w : Workspace) (node : Nat) : Location :=
  (Keyed.get? node w.locations).getD (.between w.file 0 0)

/-! ### Classes -/

def declare (w : Workspace) (name : String) (parents : List String) : Workspace :=
  { w with classes := w.classes.declare name parents }

/-- Whether every value of the first type is judged to be one of the second. -/
def contains (w : Workspace) (s t : Ty) : Bool :=
  s.isWithin w.classes.hierarchy t

/-! ### Issues -/

def report (w : Workspace) (issue : Issue) : Workspace :=
  { w with issues := w.issues ++ [issue] }

def issuesIn (w : Workspace) (file : String) : List Issue :=
  w.issues.filter fun i => i.location.file == file

def issuesOfKind (w : Workspace) (kind : String) : List Issue :=
  w.issues.filter fun i => i.kind == kind

/-- Drops the issues of a kind that start at an offset of a file. -/
def dismiss (w : Workspace) (file kind : String) (start : Nat) : Workspace :=
  { w with issues := w.issues.filter fun i =>
      !(i.location.file == file && i.kind == kind && i.location.start == start) }

/-! ### Arguments of calls -/

/-- An argument with the type a checker found for it. -/
structure Argument where
  node : Nat
  location : Location
  type : Ty

def argument? (w : Workspace) (e : Expr) : Option Argument :=
  (w.typeOf? e.id).map fun type => ⟨e.id, w.locationOf e.id, type⟩

/-- All arguments of a call, unless one of them has no type. -/
def arguments? (w : Workspace) (args : List Expr) : Option (List Argument) :=
  args.mapM w.argument?

/-- The type of the argument at a position. -/
def argumentType? (w : Workspace) (args : List Expr) (position : Nat) : Option Ty :=
  args[position]?.bind fun e => w.typeOf? e.id

end Workspace

end TypeProbe
