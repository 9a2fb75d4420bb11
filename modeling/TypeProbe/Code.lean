/-!
# Expressions, statements and the events of an analysis

Only the forms that the analysis distinguishes are kept apart.  Every node has a number, under which
a workspace knows its type and its location, and may carry a comment.  An event says that a checker
is done with an expression, a statement or the body of a function.
-/

namespace TypeProbe

mutual

structure Expr where
  id : Nat
  form : ExprForm
  comment : Option String

inductive ExprForm where
  /-- A method call; a computed method has no name. -/
  | call (receiver : Expr) (name : Option String) (args : List Expr)
  | assign (value : Expr)
  | closure
  | arrow
  | other

end

inductive StmtForm where
  | return (value : Option Expr)
  | expression (value : Expr)
  | other

structure Stmt where
  id : Nat
  form : StmtForm
  comment : Option String

/-- Whether the expression is written as a function. -/
def Expr.isFunction (e : Expr) : Bool :=
  match e.form with
  | .closure | .arrow => true
  | _ => false

inductive BodyKind where
  | method | function | closure | arrow
deriving DecidableEq

/-- What a checker has just analysed, with the class around it, if any. -/
inductive Event where
  | expression (expr : Expr) (self : Option String)
  | statement (stmt : Stmt) (self : Option String)
  | body (kind : BodyKind) (self : Option String)

end TypeProbe
