import TypeProbe.Text.Ascii

/-!
# Forms of a log

The name of a form counts up to ASCII case, and an unknown name means plain text.
-/

namespace TypeProbe

inductive LogFormat where
  | text | tree | json
deriving DecidableEq

def LogFormat.ofName (name : String) : LogFormat :=
  if Ascii.lower name = "tree" then .tree else if Ascii.lower name = "json" then .json else .text

end TypeProbe
