import TypeProbe.Settings.Document

/-!
# Settings

The names of the classes and the tag that the analysis looks for.  Settings are read from a flat
document: an object that names some of the fields, each at most once, or an array that gives the
first ones in the order of `Settings.names`.  Fields that are not given keep their defaults, and
anything else in a document is refused.
-/

namespace TypeProbe

/-- The defaults are the classes of the toolkit that the assertions belong to. -/
structure Settings where
  /-- The class whose methods build types. -/
  builderClass : String := "Fp\\PsalmToolkit\\StaticType\\StaticTypes"
  /-- The class whose first type parameter is a type that was built. -/
  wrapperClass : String := "Fp\\PsalmToolkit\\StaticType\\StaticTypeInterface"
  /-- The class that every test class extends. -/
  testBaseClass : String := "Fp\\PsalmToolkit\\StaticTest\\PsalmTest"
  /-- The class of a test, whose type parameter is the name of the test method. -/
  testCaseClass : String := "Fp\\PsalmToolkit\\StaticTest\\StaticTestCase"
  /-- The class of a test whose code block is still to come. -/
  codeBlockClass : String := "Fp\\PsalmToolkit\\StaticTest\\PsalmCodeBlockFactory"
  /-- The tag in a comment that asks for a type to be shown. -/
  showTag : String := "@show-type"
  /-- Whether assertions that cannot be read are reported. -/
  reportMalformed : Bool := false
deriving DecidableEq

/-- Why settings cannot be had. -/
inductive SettingsError where
  | malformed
  | unreadable (path : String)
  | invalid (path : String)
deriving DecidableEq

def SettingsError.message : SettingsError → String
  | .malformed => "failed to parse toolkit configuration"
  | .unreadable path => "failed to read toolkit configuration " ++ path
  | .invalid path => "invalid toolkit configuration " ++ path

namespace Settings

/-- The names of the fields in a document. -/
def names : List String :=
  ["staticTypesClass", "staticTypeInterface", "testCaseBaseClass", "staticTestCaseClass",
    "codeBlockFactoryClass",
    "showTypeTag", "reportMalformedAssertions"]

/-- Sets the field of a name, if there is one and the value is of its kind. -/
def set? (s : Settings) (name : String) (value : Value) : Option Settings :=
  match name, value with
  | "staticTypesClass", .text v => some { s with builderClass := v }
  | "staticTypeInterface", .text v => some { s with wrapperClass := v }
  | "testCaseBaseClass", .text v => some { s with testBaseClass := v }
  | "staticTestCaseClass", .text v => some { s with testCaseClass := v }
  | "codeBlockFactoryClass", .text v => some { s with codeBlockClass := v }
  | "showTypeTag", .text v => some { s with showTag := v }
  | "reportMalformedAssertions", .truth b => some { s with reportMalformed := b }
  | _, _ => none

/-- Sets one field after the other. -/
def setAll? (s : Settings) (members : List (String × Value)) : Option Settings :=
  members.foldlM (fun s m => s.set? m.1 m.2) s

/-- The settings a document gives. -/
def ofDocument? : Document → Option Settings
  | .object members => if (members.map (·.1)).Nodup then setAll? {} members else none
  | .array items => if items.length ≤ names.length then setAll? {} (names.zip items) else none

/-- The settings a text gives. -/
def parse (source : String) : Except SettingsError Settings :=
  match (Document.parse? source).bind ofDocument? with
  | some s => .ok s
  | none => .error .malformed

/-- The settings the file at `path` gives: `bytes` are its contents, if it exists. -/
def load (path : String) (bytes : Option ByteArray) : Except SettingsError Settings :=
  match bytes.bind String.fromUTF8? with
  | none => .error (.unreadable path)
  | some source => (parse source).mapError fun _ => .invalid path

/-- Whether assertions are made on instances of the class. -/
def isCarrier (s : Settings) (className : String) : Bool :=
  className == s.testCaseClass || className == s.codeBlockClass

end Settings

end TypeProbe
