import Mathlib.Data.Option.Basic
import TypeProbe.Proofs.Assertion.Handled
import TypeProbe.Session

/-!
# What one event does to a session

An event makes an assertion (`Event.call?`), asks for the bags of a class to be judged
(`Event.judged?`), or does neither.  The equations `Session.handle_of_call`,
`Session.handle_of_judged` and `Session.handle_of_neither` say what becomes of the pending bags and
of the issues in each of the cases.  Types, locations and classes are never changed
(`Session.exists_handle_eq`), and the bags of a class only by events within it
(`Session.ofClass_handle_of_ne`).
-/

namespace TypeProbe

/-- The class around an event. -/
def Event.self : Event → Option String
  | .expression _ self => self
  | .statement _ self => self
  | .body _ self => self

/-- The expression or statement that an event is about. -/
def Event.node? : Event → Option Nat
  | .expression e _ => some e.id
  | .statement stmt _ => some stmt.id
  | .body _ _ => none

/-- The assertion that an event makes. -/
def Event.call? (settings : Settings) (w : Workspace) : Event → Option AssertionCall
  | .expression e self => AssertionCall.ofExpr? settings w e self
  | _ => none

/-- The class whose bags are judged after an event. -/
def Event.judged? (settings : Settings) (w : Workspace) : Event → Option String
  | .body .method self => testClass? settings w self
  | _ => none

/-- The bag of a test with what a call asserts, if its arguments can be read. -/
def AssertionCall.collected (w : Workspace) (call : AssertionCall) (settings : Settings) (bag : Bag) :
    Bag :=
  (call.collect? w settings bag).getD bag

/-- Only a test class is found, and it is the class around. -/
theorem testClass?_eq_some_iff {settings : Settings} {w : Workspace} {self : Option String}
    {className : String} :
    testClass? settings w self = some className ↔
      self = some className ∧ w.classes.isBelow className settings.testBaseClass = true := by
  simp [testClass?]

theorem AssertionCall.of_ofExpr? {settings : Settings} {w : Workspace} {e : Expr} {self : Option String}
    {call : AssertionCall} (h : ofExpr? settings w e self = some call) :
    self = some call.test.className ∧ call.node = e.id := by
  obtain ⟨id, form, comment⟩ := e
  cases form with
  | call receiver name args =>
    simp only [ofExpr?, Option.bind_eq_bind, Option.bind_eq_some_iff] at h
    obtain ⟨className, hclass, method, -, h⟩ := h
    split at h
    · simp only [Option.bind_eq_some_iff, Option.pure_def, Option.some.injEq] at h
      obtain ⟨-, -, -, -, rfl⟩ := h
      exact ⟨(testClass?_eq_some_iff.1 hclass).1, rfl⟩
    · cases h
  | _ => cases h

namespace Event

variable {settings : Settings} {w : Workspace} {e : Event}

theorem self_of_call {call : AssertionCall} (h : e.call? settings w = some call) :
    e.self = some call.test.className ∧ e.node? = some call.node := by
  cases e with
  | expression e self =>
    obtain ⟨hself, hnode⟩ := AssertionCall.of_ofExpr? h
    exact ⟨hself, congrArg some hnode.symm⟩
  | _ => cases h

theorem self_of_judged {className : String} (h : e.judged? settings w = some className) :
    e.self = some className := by
  cases e with
  | body kind self =>
    cases kind with
    | method => exact (testClass?_eq_some_iff.1 h).1
    | _ => cases h
  | _ => cases h

theorem judged?_of_call {call : AssertionCall} (h : e.call? settings w = some call) :
    e.judged? settings w = none := by
  cases e with
  | expression e self => rfl
  | _ => cases h

end Event

/-! ### The bags of a class -/

/-- The bags of a class, in order. -/
def Pending.ofClass (p : Pending) (className : String) : Pending :=
  ⟨p.bags.filter fun e => e.1.className == className⟩

def Session.ofClass (s : Session) (className : String) : Session :=
  { s with pending := s.pending.ofClass className }

namespace Pending

variable {className : String} {test : TestName}

theorem ofClass_set (p : Pending) (h : test.className = className) (bag : Bag) :
    (p.set test bag).ofClass className = (p.ofClass className).set test bag := by
  unfold ofClass set
  rw [Keyed.filter_put_of_pos (fun t : TestName => t.className == className) (by simp [h])]

theorem ofClass_set_of_ne (p : Pending) (h : test.className ≠ className) (bag : Bag) :
    (p.set test bag).ofClass className = p.ofClass className := by
  unfold ofClass set
  rw [Keyed.filter_put_of_neg (fun t : TestName => t.className == className) (by simp [h])]

theorem get_ofClass (p : Pending) (h : test.className = className) :
    (p.ofClass className).get test = p.get test := by
  unfold ofClass get
  rw [Keyed.get?_filter (fun t : TestName => t.className == className) (by simp [h])]

theorem take_ofClass (p : Pending) (className : String) :
    ((p.ofClass className).take className).1 = (p.take className).1 ∧
      ((p.ofClass className).take className).2 = (p.take className).2.ofClass className := by
  simp [ofClass, take, List.filter_filter]

theorem ofClass_take_of_ne (p : Pending) {other : String} (h : other ≠ className) :
    (p.take other).2.ofClass className = p.ofClass className := by
  unfold ofClass take
  rw [List.filter_filter]
  congr 1
  refine List.filter_congr fun e _ => ?_
  by_cases hclass : e.1.className = className
  · simp [hclass, Ne.symm h]
  · simp [hclass]

end Pending

/-! ### The issues of an event -/

namespace Workspace

/-- The issue that shows the type of the node `typed` at the place of `node`,
if the comment asks for it. -/
def shown (w : Workspace) (tag : String) (comment : Option String) (node typed : Nat) : List Issue :=
  if comment.any fun c => occursIn tag.toList c.toList then
    [Message.shownType.issue (w.locationOf node) [w.shownType typed]]
  else []

/-- The issue that shows the type that an event asks for. -/
def shownBy (w : Workspace) (tag : String) : Event → List Issue
  | .expression e _ =>
    w.shown tag e.comment e.id <|
      match e.form with
      | .assign value => value.id
      | _ => e.id
  | .statement stmt _ =>
    match stmt.form with
    | .return value => w.shown tag stmt.comment stmt.id ((value.map (·.id)).getD stmt.id)
    | _ => []
  | .body _ _ => []

theorem mem_shown {w : Workspace} {tag : String} {comment : Option String} {node typed : Nat}
    {i : Issue} (h : i ∈ w.shown tag comment node typed) : i.location = w.locationOf node := by
  unfold shown at h
  split at h
  · obtain rfl := List.mem_singleton.1 h
    rfl
  · cases h

theorem mem_shownBy {w : Workspace} {tag : String} {e : Event} {i : Issue} (h : i ∈ w.shownBy tag e) :
    ∃ node ∈ e.node?, i.location = w.locationOf node := by
  cases e with
  | expression e self => exact ⟨e.id, rfl, mem_shown h⟩
  | statement stmt self =>
    obtain ⟨id, form, comment⟩ := stmt
    cases form with
    | «return» value => exact ⟨id, rfl, mem_shown h⟩
    | _ => cases h
  | body kind self => cases h

theorem showType_eq (w : Workspace) (tag : String) (comment : Option String) (node typed : Nat) :
    w.showType tag comment node typed =
      { w with issues := w.issues ++ w.shown tag comment node typed } := by
  unfold showType shown
  split
  · rfl
  · simp

theorem showExpr_eq (w : Workspace) (tag : String) (e : Expr) (self : Option String) :
    w.showExpr tag e = { w with issues := w.issues ++ w.shownBy tag (.expression e self) } :=
  w.showType_eq tag e.comment e.id _

theorem showStmt_eq (w : Workspace) (tag : String) (stmt : Stmt) (self : Option String) :
    w.showStmt tag stmt = { w with issues := w.issues ++ w.shownBy tag (.statement stmt self) } := by
  obtain ⟨id, form, comment⟩ := stmt
  cases form with
  | «return» value => exact w.showType_eq tag comment id _
  | expression value => simp [showStmt, shownBy]
  | other => simp [showStmt, shownBy]

end Workspace

namespace Session

/-- The issue of a call whose arguments cannot be read, if the settings ask for it. -/
def complaint (s : Session) (w : Workspace) (call : AssertionCall) : List Issue :=
  if (call.collect? w s.settings (s.pending.get call.test)).isNone && s.settings.reportMalformed then
    [Message.malformedAssertion.issue (w.locationOf call.node) [call.name.text]]
  else []

/-- The issues that an event raises, verdicts apart. -/
def notices (s : Session) (w : Workspace) (e : Event) : List Issue :=
  w.shownBy s.settings.showTag e ++ (e.call? s.settings w).elim [] (s.complaint w)

theorem collect_eq (s : Session) (w : Workspace) (call : AssertionCall) :
    s.collect w call =
      ({ s with
          pending := s.pending.set call.test (call.collected w s.settings (s.pending.get call.test)) },
        { w with issues := w.issues ++ s.complaint w call }) := by
  unfold collect AssertionCall.collected complaint
  cases h : call.collect? w s.settings (s.pending.get call.test) with
  | some bag => simp [h]
  | none => cases hreport : s.settings.reportMalformed <;> simp [h, Workspace.report]

variable {s : Session} {w : Workspace} {e : Event}

/-- A recognised assertion goes to the bag of its test, whose bag stays as it
was if nothing can be read. -/
theorem handle_of_call {call : AssertionCall} (h : e.call? s.settings w = some call) :
    s.handle w e =
      ({ s with
          pending := s.pending.set call.test (call.collected w s.settings (s.pending.get call.test)) },
        { w with issues := w.issues ++ s.notices w e }) := by
  cases e with
  | expression e self =>
    have hcall : AssertionCall.ofExpr? s.settings (w.showExpr s.settings.showTag e) e self =
        some call := by
      rw [w.showExpr_eq _ e self]
      exact h
    have hrun : s.handle w (.expression e self) = s.collect (w.showExpr s.settings.showTag e) call := by
      simp only [handle, afterExpr, hcall]
    rw [hrun, w.showExpr_eq _ e self, collect_eq, notices, h, ← List.append_assoc]
    rfl
  | statement stmt self => cases h
  | body kind self => cases h

theorem handle_of_judged {className : String} (h : e.judged? s.settings w = some className) :
    s.handle w e =
      ({ s with pending := (s.pending.take className).2 },
        (s.pending.take className).1.foldl Bag.judge w) := by
  cases e with
  | expression e self => cases h
  | statement stmt self => cases h
  | body kind self =>
    cases kind with
    | method =>
      have hself : testClass? s.settings w self = some className := h
      simp only [handle, afterBody, hself]
    | _ => cases h

theorem handle_of_neither (hcall : e.call? s.settings w = none)
    (hjudged : e.judged? s.settings w = none) :
    s.handle w e = (s, { w with issues := w.issues ++ s.notices w e }) := by
  have hnotices : s.notices w e = w.shownBy s.settings.showTag e := by
    rw [notices, hcall]
    exact List.append_nil _
  rw [hnotices]
  cases e with
  | expression e self =>
    have hcall' : AssertionCall.ofExpr? s.settings (w.showExpr s.settings.showTag e) e self = none := by
      rw [w.showExpr_eq _ e self]
      exact hcall
    have hrun : s.handle w (.expression e self) = (s, w.showExpr s.settings.showTag e) := by
      simp only [handle, afterExpr, hcall']
    rw [hrun, w.showExpr_eq _ e self]
  | statement stmt self =>
    have hrun : s.handle w (.statement stmt self) = (s, w.showStmt s.settings.showTag stmt) := rfl
    rw [hrun, w.showStmt_eq _ stmt self]
  | body kind self =>
    cases kind with
    | method =>
      have hself : testClass? s.settings w self = none := hjudged
      simp [handle, afterBody, hself, Workspace.shownBy]
    | _ => simp [handle, afterBody, Workspace.shownBy]

/-- The issues of an event stand where it does. -/
theorem mem_notices {i : Issue} (h : i ∈ s.notices w e) :
    ∃ node ∈ e.node?, i.location = w.locationOf node := by
  rcases List.mem_append.1 h with h | h
  · exact Workspace.mem_shownBy h
  · cases hcall : e.call? s.settings w with
    | none => simp [hcall] at h
    | some call =>
      rw [hcall, Option.elim_some, complaint] at h
      split at h
      · obtain rfl := List.mem_singleton.1 h
        exact ⟨call.node, (Event.self_of_call hcall).2, rfl⟩
      · cases h

/-- Types, locations and classes stay as they are. -/
theorem exists_handle_eq (s : Session) (w : Workspace) (e : Event) :
    ∃ pending issues, s.handle w e = ({ s with pending := pending }, { w with issues := issues }) := by
  cases hcall : e.call? s.settings w with
  | some call => exact ⟨_, _, handle_of_call hcall⟩
  | none =>
    cases hjudged : e.judged? s.settings w with
    | some className =>
      obtain ⟨issues, hrun⟩ := Bag.exists_foldl_judge_eq (s.pending.take className).1 w
      exact ⟨_, issues, by rw [handle_of_judged hjudged, hrun]⟩
    | none => exact ⟨_, _, handle_of_neither hcall hjudged⟩

/-- An event leaves the bags of the other classes alone. -/
theorem ofClass_handle_of_ne {className : String} (h : e.self ≠ some className) :
    (s.handle w e).1.ofClass className = s.ofClass className := by
  cases hcall : e.call? s.settings w with
  | some call =>
    have htest : call.test.className ≠ className := fun ht => h (ht ▸ (Event.self_of_call hcall).1)
    rw [handle_of_call hcall, ofClass, Pending.ofClass_set_of_ne _ htest]
    rfl
  | none =>
    cases hjudged : e.judged? s.settings w with
    | some judged =>
      have hother : judged ≠ className := fun ht => h (ht ▸ Event.self_of_judged hjudged)
      rw [handle_of_judged hjudged, ofClass, Pending.ofClass_take_of_ne _ hother]
      rfl
    | none => rw [handle_of_neither hcall hjudged]

/-! ### Runs -/

/-- A session in which nothing has happened yet. -/
def start (settings : Settings) : Session :=
  { settings := settings }

/-- The session and the workspace after some events. -/
def run (s : Session) (w : Workspace) (events : List Event) : Session × Workspace :=
  events.foldl (fun p e => p.1.handle p.2 e) (s, w)

theorem run_cons (s : Session) (w : Workspace) (e : Event) (rest : List Event) :
    s.run w (e :: rest) = (s.handle w e).1.run (s.handle w e).2 rest := rfl

end Session

end TypeProbe
