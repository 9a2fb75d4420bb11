import TypeProbe.Assertion.Collect
import TypeProbe.Assertion.Verdict
import TypeProbe.Builder
import TypeProbe.ShownType

/-!
# Sessions

A session follows the analysis of a program: it holds the settings and the bags of the tests that
are still to be judged.  After an expression it shows the type that a comment asks for and reads the
assertion that the expression makes; after the body of a method it judges the bags of the class.
`Session.handle` is one step, on the session and on the workspace it works in.
-/

namespace TypeProbe

structure Session where
  settings : Settings := {}
  pending : Pending := {}

namespace Session

/-- The type of a call that builds a type. -/
def returnType? (s : Session) (w : Workspace) (className method : String) (args : List Expr)
    (typeParams : Option (List Ty)) : Option Ty :=
  Builder.returnType? s.settings w className method args typeParams

/-- Reads the assertion of a call into the bag of its test.  If the arguments cannot be read the bag
stays as it was, and the settings say whether that is reported. -/
def collect (s : Session) (w : Workspace) (call : AssertionCall) : Session × Workspace :=
  let bag := s.pending.get call.test
  match call.collect? w s.settings bag with
  | some bag => ({ s with pending := s.pending.set call.test bag }, w)
  | none =>
    ({ s with pending := s.pending.set call.test bag },
      if s.settings.reportMalformed then
        w.report (Message.malformedAssertion.issue (w.locationOf call.node) [call.name.text])
      else w)

def afterExpr (s : Session) (w : Workspace) (e : Expr) (self : Option String) : Session × Workspace :=
  let w := w.showExpr s.settings.showTag e
  match AssertionCall.ofExpr? s.settings w e self with
  | some call => s.collect w call
  | none => (s, w)

def afterStmt (s : Session) (w : Workspace) (stmt : Stmt) : Session × Workspace :=
  (s, w.showStmt s.settings.showTag stmt)

/-- After the body of a method of a test class, judges all bags of the class. -/
def afterBody (s : Session) (w : Workspace) (kind : BodyKind) (self : Option String) :
    Session × Workspace :=
  match kind, testClass? s.settings w self with
  | .method, some className =>
    let (bags, pending) := s.pending.take className
    ({ s with pending := pending }, bags.foldl Bag.judge w)
  | _, _ => (s, w)

/-- One step of the analysis. -/
def handle (s : Session) (w : Workspace) : Event → Session × Workspace
  | .expression e self => s.afterExpr w e self
  | .statement stmt _ => s.afterStmt w stmt
  | .body kind self => s.afterBody w kind self

end Session

end TypeProbe
