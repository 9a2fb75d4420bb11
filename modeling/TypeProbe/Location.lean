/-!
# Locations in source files

A location is a range of offsets in a file, `start` inclusive and `stop` exclusive, with
`start ≤ stop`.  `Location.between` makes one from any two offsets by raising the end to the start.
-/

namespace TypeProbe

structure Location where
  file : String
  start : Nat
  stop : Nat
  start_le_stop : start ≤ stop
deriving DecidableEq

namespace Location

/-- The range from `start` to `stop`, empty if `stop` comes first. -/
def between (file : String) (start stop : Nat) : Location :=
  ⟨file, start, max stop start, Nat.le_max_right stop start⟩

def length (l : Location) : Nat :=
  l.stop - l.start

def isEmpty (l : Location) : Bool :=
  l.start == l.stop

/-- Whether the range from `first` to `last` lies within the location's range. -/
def coversRange (l : Location) (first last : Nat) : Bool :=
  decide (l.start ≤ first) && decide (last ≤ l.stop)

/-- Whether the other location lies in the same file and within this one. -/
def covers (l other : Location) : Bool :=
  l.file == other.file && l.coversRange other.start other.stop

def text (l : Location) : String :=
  l.file ++ ":" ++ l.start.repr ++ ".." ++ l.stop.repr

end Location

end TypeProbe
