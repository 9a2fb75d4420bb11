import TypeProbe.Settings.Basic
import TypeProbe.Ty.Layout
import TypeProbe.Workspace

/-!
# Showing types on demand

An expression or a return statement whose comment holds the tag of the settings gets an issue with
its type, laid out for reading.  An assignment shows the type of the assigned value, a return
statement that of the returned one.
-/

namespace TypeProbe

/-- Whether the characters of `word` stand in the text one behind the other. -/
def occursIn (word : List Char) : List Char → Bool
  | [] => word.isEmpty
  | c :: rest => word.isPrefixOf (c :: rest) || occursIn word rest

/-- The text that stands for the type of a node. -/
def Workspace.shownType (w : Workspace) (node : Nat) : String :=
  match w.typeOf? node with
  | some t => t.display
  | none => "Unable to determine type"

/-- Reports the type of the node `typed` at the place of `node`, if the
comment of `node` asks for it. -/
def Workspace.showType (w : Workspace) (tag : String) (comment : Option String) (node typed : Nat) :
    Workspace :=
  if comment.any fun c => occursIn tag.toList c.toList then
    w.report (Message.shownType.issue (w.locationOf node) [w.shownType typed])
  else w

def Workspace.showExpr (w : Workspace) (tag : String) (e : Expr) : Workspace :=
  w.showType tag e.comment e.id <|
    match e.form with
    | .assign value => value.id
    | _ => e.id

def Workspace.showStmt (w : Workspace) (tag : String) (s : Stmt) : Workspace :=
  match s.form with
  | .return value => w.showType tag s.comment s.id ((value.map (·.id)).getD s.id)
  | _ => w

end TypeProbe
