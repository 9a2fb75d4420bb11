import TypeProbe.Assertion.Basic

/-!
# Pending bags

The bags that wait to be judged, one for each test, in the order in which the tests were
first met.  A test is a class with the name of a method.  Writing a bag leaves the other
tests' bags alone (`get_set_of_ne`), and taking the bags of a class leaves the other classes'
bags alone (`get_take_of_ne`).
-/

namespace TypeProbe

/-- A test class and the lower-cased name of a test method. -/
structure TestName where
  className : String
  method : String
deriving DecidableEq

structure Pending where
  bags : List (TestName × Bag) := []

namespace Pending

/-- The bag of a test, or an empty one. -/
def get (p : Pending) (test : TestName) : Bag :=
  (Keyed.get? test p.bags).getD {}

/-- Replaces the bag of a test, or adds it behind the others. -/
def set (p : Pending) (test : TestName) (bag : Bag) : Pending :=
  ⟨Keyed.put test bag p.bags⟩

/-- The bags of a class, in order, and the bags that stay. -/
def take (p : Pending) (className : String) : List Bag × Pending :=
  ((p.bags.filter fun e => e.1.className == className).map (·.2),
    ⟨p.bags.filter fun e => !(e.1.className == className)⟩)

theorem get_set_self (p : Pending) (test : TestName) (bag : Bag) : (p.set test bag).get test = bag := by
  simp [get, set, Keyed.get?_put_self]

theorem get_set_of_ne (p : Pending) {test other : TestName} (h : other ≠ test) (bag : Bag) :
    (p.set test bag).get other = p.get other := by
  simp [get, set, Keyed.get?_put_of_ne h]

theorem get_take_of_ne (p : Pending) {className : String} {test : TestName}
    (h : test.className ≠ className) : (p.take className).2.get test = p.get test := by
  have hkeep : (!(test.className == className)) = true := by simp [h]
  have hbags := Keyed.get?_filter (fun t : TestName => !(t.className == className)) hkeep p.bags
  exact congrArg (fun bag? => bag?.getD {}) hbags

end Pending

end TypeProbe
