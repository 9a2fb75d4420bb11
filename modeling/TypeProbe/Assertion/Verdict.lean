import TypeProbe.Assertion.Basic
import TypeProbe.Workspace

/-!
# Judging a bag

A bag with a code block and an expected type is judged by comparing the two types
(`Bag.returnVerdict?`), one with a code block and expected issues by looking for those issues in the
block (`Bag.issuesVerdict`).  Issues that were expected are dismissed from the workspace.  A failed
assertion gives an issue at the place of the assertion.
-/

namespace TypeProbe

namespace Bag

/-- The issue of a block that returns another type than expected. -/
def returnVerdict? (w : Workspace) (b : Bag) : Option Issue := do
  let block ← b.code
  let expected ← b.returnType
  let holds :=
    if expected.invariant then block.returns.isEqual expected.type
    else w.contains block.returns expected.type
  if holds then none
  else
    return Message.returnTypeMismatch.issue expected.location
      [block.returns.identity, expected.type.identity]

end Bag

namespace ExpectedIssues

/-- The issues of the file of the expectations that were expected and lie within the block. -/
def handled (expected : ExpectedIssues) (block : Location) (w : Workspace) : List Issue :=
  (w.issuesIn expected.location.file).filter fun i =>
    (expected.issues.map (·.key)).contains (issueKey i.kind i.text) &&
      block.coversRange i.location.start i.location.stop

/-- The expected issues that were not raised, once for each key. -/
def missing (expected : ExpectedIssues) (handled : List Issue) : List ExpectedIssue :=
  distinctBy ExpectedIssue.key
    (expected.issues.filter fun i => !(handled.map fun j => issueKey j.kind j.text).contains i.key)

/-- One line for each expected issue. -/
def listing (issues : List ExpectedIssue) : String :=
  String.join (issues.map fun i => "\n[" ++ i.kind ++ "]: " ++ i.message)

end ExpectedIssues

/-- The issue of a block that does not raise all the issues expected, and the workspace without the
issues of the kinds and places of those it did raise. -/
def Bag.issuesVerdict (w : Workspace) (b : Bag) : Option Issue × Workspace :=
  match b.issues, b.code with
  | some expected, some block =>
    let handled := expected.handled block.location w
    let missing := expected.missing handled
    (if missing.isEmpty then none
      else some (Message.missingIssues.issue expected.location [ExpectedIssues.listing missing]),
      handled.foldl (fun w i => w.dismiss expected.location.file i.kind i.location.start) w)
  | _, _ => (none, w)

/-- What a bag is found to fail in, the type before the issues, and the workspace
without the handled issues. -/
def Bag.verdicts (w : Workspace) (b : Bag) : List Issue × Workspace :=
  ((b.returnVerdict? w).toList ++ (b.issuesVerdict w).1.toList, (b.issuesVerdict w).2)

/-- Judges a bag and reports what it fails in. -/
def Bag.judge (w : Workspace) (b : Bag) : Workspace :=
  (b.verdicts w).1.foldl Workspace.report (b.verdicts w).2

end TypeProbe
