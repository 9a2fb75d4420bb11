import TypeProbe.Location
import TypeProbe.Ty.Same

/-!
# Assertions about a code block

A static test gives a block of code and says what type it returns and which issues it raises.  What
is known about one test is gathered in a `Bag`, with at most one entry of each kind: writing an
entry replaces the one of its kind and keeps the others (`Bag.get?_put`).
-/

namespace TypeProbe

/-- The methods of a test that make assertions. -/
inductive AssertionName where
  | haveCode | seeReturnType | seeIssue
deriving DecidableEq

namespace AssertionName

def text : AssertionName → String
  | .haveCode => "haveCode"
  | .seeReturnType => "seeReturnType"
  | .seeIssue => "seePsalmIssue"

def all : List AssertionName :=
  [.haveCode, .seeReturnType, .seeIssue]

/-- The assertion of a method name, which counts as written. -/
def ofText? (name : String) : Option AssertionName :=
  all.find? fun a => a.text == name

theorem ofText?_text (a : AssertionName) : ofText? a.text = some a := by
  cases a <;> decide

end AssertionName

/-! ### Entries -/

/-- The code under test and the type it returns. -/
structure CodeBlock where
  location : Location
  returns : Ty

/-- The type the code should return, by identity if `invariant` and else by containment. -/
structure ExpectedReturn where
  location : Location
  type : Ty
  invariant : Bool

structure ExpectedIssue where
  kind : String
  message : String
deriving DecidableEq

/-- The issues the code should raise, in the order they were stated; the location is
that of the first statement. -/
structure ExpectedIssues where
  location : Location
  issues : List ExpectedIssue
deriving DecidableEq

/-- The text by which an issue and an expectation are matched. -/
def issueKey (kind message : String) : String :=
  "[" ++ kind ++ "]:[" ++ message ++ "]"

def ExpectedIssue.key (i : ExpectedIssue) : String :=
  issueKey i.kind i.message

/-- The expectations with one more behind them. -/
def ExpectedIssues.append (e : ExpectedIssues) (issue : ExpectedIssue) : ExpectedIssues :=
  { e with issues := e.issues ++ [issue] }

inductive EntryKind where
  | code | returnType | issues
deriving DecidableEq

inductive Entry where
  | code (block : CodeBlock)
  | returnType (expected : ExpectedReturn)
  | issues (expected : ExpectedIssues)

def Entry.kind : Entry → EntryKind
  | .code _ => .code
  | .returnType _ => .returnType
  | .issues _ => .issues

/-! ### Bags -/

structure Bag where
  code : Option CodeBlock := none
  returnType : Option ExpectedReturn := none
  issues : Option ExpectedIssues := none

namespace Bag

/-- The bag with an entry in place of the one of its kind. -/
def put (b : Bag) : Entry → Bag
  | .code block => { b with code := some block }
  | .returnType expected => { b with returnType := some expected }
  | .issues expected => { b with issues := some expected }

def get? (b : Bag) : EntryKind → Option Entry
  | .code => b.code.map .code
  | .returnType => b.returnType.map .returnType
  | .issues => b.issues.map .issues

theorem get?_put (b : Bag) (e : Entry) (k : EntryKind) :
    (b.put e).get? k = if e.kind = k then some e else b.get? k := by
  cases e <;> cases k <;> rfl

/-- The bag that results from writing the entries one after the other. -/
def ofEntries (entries : List Entry) : Bag :=
  entries.foldl put {}

/-- The number of entries. -/
def size (b : Bag) : Nat :=
  b.code.toList.length + b.returnType.toList.length + b.issues.toList.length

def isEmpty (b : Bag) : Bool :=
  b.size == 0

/-- Whether two bags hold the same entries, with types written alike. -/
def same (b c : Bag) : Bool :=
  (match b.code, c.code with
    | some x, some y => x.location == y.location && x.returns.same y.returns
    | none, none => true
    | _, _ => false) &&
  (match b.returnType, c.returnType with
    | some x, some y => x.location == y.location && x.type.same y.type && x.invariant == y.invariant
    | none, none => true
    | _, _ => false) &&
  b.issues == c.issues

end Bag

end TypeProbe
