import TypeProbe.Assertion.Pending
import TypeProbe.Settings.Basic
import TypeProbe.Text.LetterCase
import TypeProbe.Text.Marker
import TypeProbe.Ty.Single
import TypeProbe.Workspace

/-!
# Reading assertions from calls

A call makes an assertion if it stands in a test class, its type names the test method, its
receiver carries assertions and its method is one of `AssertionName`
(`AssertionCall.ofExpr?`).  What it asserts is read from the types of its arguments, as the
workspace knows them at that time, and becomes an entry of the test's bag
(`AssertionCall.collect?`); a call with other arguments asserts nothing.
-/

namespace TypeProbe

structure AssertionCall where
  test : TestName
  name : AssertionName
  node : Nat
  args : List Expr

/-- The class, if it is a test class: one that extends the base class of tests. -/
def testClass? (settings : Settings) (w : Workspace) (self : Option String) : Option String :=
  self.filter fun c => w.classes.isBelow c settings.testBaseClass

namespace AssertionCall

/-- The lower-cased name of the test method, from the type `TestCase<'name'>` of a call. -/
def method? (settings : Settings) (w : Workspace) (node : Nat) : Option String := do
  let name ← (← (← w.typeOf? node).paramOf? settings.testCaseClass 0).soleString?
  return LetterCase.lower name

/-- Whether assertions are made on the value of an expression. -/
def isCarrier (settings : Settings) (w : Workspace) (receiver : Expr) : Bool :=
  ((w.typeOf? receiver.id).bind Ty.soleObject?).any fun o => settings.isCarrier o.name

/-- The assertion that an expression makes, if any, where `self` is the class around it. -/
def ofExpr? (settings : Settings) (w : Workspace) (e : Expr) (self : Option String) :
    Option AssertionCall :=
  match e.form with
  | .call receiver name args => do
    let className ← testClass? settings w self
    let method ← method? settings w e.id
    if isCarrier settings w receiver then
      return ⟨⟨className, method⟩, ← AssertionName.ofText? (← name), e.id, args⟩
    else none
  | _ => none

/-! ### What a call asserts -/

variable (w : Workspace) (call : AssertionCall)

/-- The function written as first argument and the type it returns; without a
declared one it returns nothing. -/
def codeBlock? : Option CodeBlock := do
  let block ← call.args[0]?
  let closure ← (← w.typeOf? block.id).soleCallable?
  if block.isFunction && closure.isClosure then
    return ⟨w.locationOf block.id, closure.result.getD (.single (.keyword .void))⟩
  else none

/-- The type wrapped in the first argument, compared by identity unless the
second argument is `false`. -/
def expectedReturn? (wrapper : String) : Option ExpectedReturn := do
  let type ← (← w.argumentType? call.args 0).unwrap? wrapper
  let invariant := ((w.argumentType? call.args 1).bind Ty.soleBool?).getD true
  return ⟨w.locationOf call.node, type, invariant⟩

/-- The values for the markers `#[key]` of a message, from a third argument whose
values are all literal texts. -/
def replacements? : Option (List (String × String)) := do
  let record ← (← w.argumentType? call.args 2).soleRecord?
  record.fields.mapM fun (k, t) => t.soleString?.map fun value => ("#[" ++ k.text ++ "]", value)

/-- The kind and the message of an expected issue.  Without values for its markers
the message stays as it is. -/
def expectedIssue? : Option ExpectedIssue := do
  let kind ← (← w.argumentType? call.args 0).soleString?
  let message ← (← w.argumentType? call.args 1).soleString?
  return ⟨kind, match call.replacements? w with
    | some replacements => Marker.replaceAll message replacements
    | none => message⟩

/-- The entry that the call makes in the bag of its test.  An expected issue
is added to those of the bag. -/
def entry? (settings : Settings) (bag : Bag) : Option Entry :=
  match call.name with
  | .haveCode => (call.codeBlock? w).map .code
  | .seeReturnType => (call.expectedReturn? w settings.wrapperClass).map .returnType
  | .seeIssue => (call.expectedIssue? w).map fun issue =>
    .issues ((bag.issues.getD ⟨w.locationOf call.node, []⟩).append issue)

/-- The bag with what the call asserts. -/
def collect? (settings : Settings) (bag : Bag) : Option Bag :=
  (call.entry? w settings bag).map bag.put

end AssertionCall

end TypeProbe
