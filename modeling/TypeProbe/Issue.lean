import TypeProbe.Location
import TypeProbe.Text.Template

/-!
# Issues and the messages they are made from

An issue has a kind, a code, a category, a text and a location.  The issues this library raises
are made from the messages `Message.all`, each with a template for the text; an issue that a
checker raised has the code zero.
-/

namespace TypeProbe

inductive Category where
  | warning | error | suggestion | message
deriving DecidableEq, Inhabited

structure Issue where
  kind : String
  code : Nat
  category : Category
  text : String
  location : Location
deriving DecidableEq

/-- An error of any kind, as a checker raises it. -/
def Issue.error (kind text : String) (location : Location) : Issue :=
  ⟨kind, 0, .error, text, location⟩

structure Message where
  code : Nat
  kind : String
  category : Category
  template : String
deriving DecidableEq

namespace Message

def returnTypeMismatch : Message :=
  ⟨9001, "SeeReturnTypeAssertionFailed", .error, "Actual return type: {0}, Expected return type: {1}"⟩

def missingIssues : Message :=
  ⟨9002, "SeePsalmIssueAssertionFailed", .error, "Expected issues were not raised:{0}"⟩

def malformedAssertion : Message :=
  ⟨9003, "MalformedAssertion", .error,
    "Malformed '{0}' assertion: its arguments could not be resolved to the expected types"⟩

def shownType : Message :=
  ⟨9100, "Trace", .message, "{0}"⟩

def all : List Message :=
  [returnTypeMismatch, missingIssues, malformedAssertion, shownType]

def ofCode? (code : Nat) : Option Message :=
  all.find? fun m => m.code == code

def ofKind? (kind : String) : Option Message :=
  all.find? fun m => m.kind == kind

/-- The issue with the message's template filled. -/
def issue (m : Message) (location : Location) (args : List String) : Issue :=
  ⟨m.kind, m.code, m.category, Template.fill m.template args, location⟩

end Message

end TypeProbe
