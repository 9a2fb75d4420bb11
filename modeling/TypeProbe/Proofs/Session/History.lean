import Mathlib.Data.List.Induction
import TypeProbe.Proofs.Session.Steps

/-!
# What the pending bags keep of the past

A session is followed through moments: events, each with the workspace as it is at that time, so
that types and classes may change in any way in between.  A moment may read an assertion, which
stays unjudged until the bags of its class are judged (`unjudged`).  The pending bags are at all
times those of the unjudged readings (`Session.pending_follow`): one for each test, in the order
in which the tests were first met, with the last block and the last expected type that could be
read and with all expected issues.
-/

namespace TypeProbe

/-- An event, and the workspace in which it is handled. -/
structure Moment where
  workspace : Workspace
  event : Event

/-- An assertion, and the workspace in which its arguments are read. -/
structure Reading where
  workspace : Workspace
  call : AssertionCall

namespace Moment

/-- The assertion that is made at the moment. -/
def reading? (settings : Settings) (m : Moment) : Option Reading :=
  (m.event.call? settings m.workspace).map fun call => ⟨m.workspace, call⟩

/-- The class whose bags are judged at the moment. -/
def judged? (settings : Settings) (m : Moment) : Option String :=
  m.event.judged? settings m.workspace

end Moment

namespace Reading

variable (r : Reading)

def test : TestName :=
  r.call.test

def location : Location :=
  r.workspace.locationOf r.call.node

/-! What can be read, if the assertion is of the kind. -/

def block? : Option CodeBlock :=
  if r.call.name = .haveCode then r.call.codeBlock? r.workspace else none

def returnType? (settings : Settings) : Option ExpectedReturn :=
  if r.call.name = .seeReturnType then r.call.expectedReturn? r.workspace settings.wrapperClass
  else none

def issue? : Option ExpectedIssue :=
  if r.call.name = .seeIssue then r.call.expectedIssue? r.workspace else none

end Reading

/-- The readings whose class has not been judged since, in order. -/
def unjudged (settings : Settings) : List Moment → List Reading
  | [] => []
  | m :: later =>
    ((m.reading? settings).toList.filter fun r =>
      later.all fun n => n.judged? settings ≠ some r.test.className) ++
      unjudged settings later

/-- The bag of a test, from all that was read for it: the last block and the last type, and all
issues at the place of the first. -/
def Bag.ofReadings (settings : Settings) (readings : List Reading) : Bag where
  code := (readings.filterMap Reading.block?).getLast?
  returnType := (readings.filterMap fun r => r.returnType? settings).getLast?
  issues :=
    (readings.find? fun r => r.issue?.isSome).map fun first =>
      ⟨first.location, readings.filterMap Reading.issue?⟩

/-- The bags of the tests that were read, in the order in which the tests were first met. -/
def Pending.ofReadings (settings : Settings) (readings : List Reading) : Pending :=
  ⟨(readings.map Reading.test).eraseDups.map fun test =>
    (test, Bag.ofReadings settings (readings.filter fun r => r.test = test))⟩

/-- The session after some moments. -/
def Session.follow (s : Session) (moments : List Moment) : Session :=
  moments.foldl (fun s m => (s.handle m.workspace m.event).1) s

/-! ### Unjudged readings -/

theorem mem_unjudged {settings : Settings} {moments : List Moment} {r : Reading} :
    r ∈ unjudged settings moments ↔
      ∃ earlier m later, moments = earlier ++ m :: later ∧ m.reading? settings = some r ∧
        ∀ n ∈ later, n.judged? settings ≠ some r.test.className := by
  induction moments with
  | nil => simp [unjudged]
  | cons m rest ih =>
    simp only [unjudged, List.mem_append, List.mem_filter, Option.mem_toList, List.all_eq_true,
      decide_eq_true_eq, ih]
    constructor
    · rintro (⟨hread, hlater⟩ | ⟨earlier, n, later, rfl, hread, hlater⟩)
      · exact ⟨[], m, rest, rfl, hread, hlater⟩
      · exact ⟨m :: earlier, n, later, rfl, hread, hlater⟩
    · rintro ⟨earlier, n, later, hmoments, hread, hlater⟩
      cases earlier with
      | nil =>
        obtain ⟨rfl, rfl⟩ := List.cons_eq_cons.1 hmoments
        exact .inl ⟨hread, hlater⟩
      | cons e earlier =>
        obtain ⟨rfl, rfl⟩ := List.cons_eq_cons.1 hmoments
        exact .inr ⟨earlier, n, later, rfl, hread, hlater⟩

/-- One more moment: the readings of the class that it judges go, and its own reading comes. -/
theorem unjudged_concat (settings : Settings) (moments : List Moment) (m : Moment) :
    unjudged settings (moments ++ [m]) =
      ((unjudged settings moments).filter fun r => m.judged? settings ≠ some r.test.className) ++
        (m.reading? settings).toList := by
  induction moments with
  | nil => simp [unjudged]
  | cons n rest ih => simp [unjudged, ih, List.filter_filter, Bool.and_comm]

/-! ### The bags of the readings -/

private theorem filterMap_issue?_eq_nil {readings : List Reading}
    (h : (readings.find? fun r => r.issue?.isSome) = none) :
    readings.filterMap Reading.issue? = [] := by
  refine List.filterMap_eq_nil_iff.2 fun r hr => ?_
  simpa using List.find?_eq_none.1 h r hr

/-- A further reading changes the bag of its test as collecting the assertion does. -/
theorem Bag.ofReadings_concat (settings : Settings) (readings : List Reading) (r : Reading) :
    ofReadings settings (readings ++ [r]) =
      r.call.collected r.workspace settings (ofReadings settings readings) := by
  obtain ⟨w, test, name, node, args⟩ := r
  simp only [ofReadings, AssertionCall.collected, AssertionCall.collect?, AssertionCall.entry?,
    List.filterMap_append, List.getLast?_append, List.find?_append]
  cases name with
  | haveCode =>
    cases hread : AssertionCall.codeBlock? w ⟨test, .haveCode, node, args⟩ with
    | none => simp [Reading.block?, Reading.returnType?, Reading.issue?, hread]
    | some block => simp [Reading.block?, Reading.returnType?, Reading.issue?, hread, put]
  | seeReturnType =>
    cases hread : AssertionCall.expectedReturn? w ⟨test, .seeReturnType, node, args⟩
      settings.wrapperClass with
    | none => simp [Reading.block?, Reading.returnType?, Reading.issue?, hread]
    | some expected => simp [Reading.block?, Reading.returnType?, Reading.issue?, hread, put]
  | seeIssue =>
    cases hread : AssertionCall.expectedIssue? w ⟨test, .seeIssue, node, args⟩ with
    | none => simp [Reading.block?, Reading.returnType?, Reading.issue?, hread]
    | some issue =>
      cases hfirst : readings.find? fun r => r.issue?.isSome with
      | none =>
        simp [Reading.block?, Reading.returnType?, Reading.issue?, Reading.location, hread, put,
          ExpectedIssues.append, filterMap_issue?_eq_nil hfirst]
      | some first =>
        simp [Reading.block?, Reading.returnType?, Reading.issue?, hread, put, ExpectedIssues.append]

section eraseDups

variable {α : Type} [DecidableEq α]

private theorem eraseDups_concat (l : List α) (a : α) :
    (l ++ [a]).eraseDups = if a ∈ l.eraseDups then l.eraseDups else l.eraseDups ++ [a] := by
  rw [List.eraseDups_append]
  by_cases ha : a ∈ l
  · simp [List.mem_eraseDups, List.removeAll, ha]
  · simp [List.mem_eraseDups, List.removeAll, ha, List.eraseDups_cons]

-- Both by the length, since an element that is kept drops its copies from the rest.

private theorem nodup_eraseDups : ∀ l : List α, l.eraseDups.Nodup
  | [] => by simp
  | a :: l => by
    have hlength : (l.filter fun b => !b == a).length ≤ l.length := List.length_filter_le _ _
    rw [List.eraseDups_cons]
    exact List.nodup_cons.2 ⟨by simp [List.mem_eraseDups], nodup_eraseDups _⟩
termination_by l => l.length

private theorem eraseDups_filter (keep : α → Bool) :
    ∀ l : List α, (l.filter keep).eraseDups = l.eraseDups.filter keep
  | [] => rfl
  | a :: l => by
    have hlength : (l.filter fun b => !b == a).length ≤ l.length := List.length_filter_le _ _
    have ih := eraseDups_filter keep (l.filter fun b => !b == a)
    rw [List.eraseDups_cons, List.filter_cons, List.filter_cons, ← ih, List.filter_filter]
    cases ha : keep a with
    | true => simp [List.eraseDups_cons, List.filter_filter, Bool.and_comm]
    | false =>
      have hne : ∀ b ∈ l, keep b = (keep b && !b == a) := by
        intro b _
        by_cases hb : b = a
        · simp [hb, ha]
        · simp [hb]
      simp [← List.filter_congr hne]
termination_by l => l.length

end eraseDups

namespace Pending

variable (settings : Settings) (readings : List Reading)

theorem get_ofReadings (test : TestName) :
    (ofReadings settings readings).get test =
      Bag.ofReadings settings (readings.filter fun r => r.test = test) := by
  rw [get, ofReadings, Keyed.get?_map]
  by_cases htest : test ∈ (readings.map Reading.test).eraseDups
  · rw [if_pos htest, Option.getD_some]
  · have hnone : (readings.filter fun r => r.test = test) = [] := by
      refine List.filter_eq_nil_iff.2 fun r hr hrtest => htest ?_
      exact List.mem_eraseDups.2 (List.mem_map.2 ⟨r, hr, of_decide_eq_true hrtest⟩)
    rw [if_neg htest, hnone]
    rfl

theorem ofReadings_concat (r : Reading) :
    ofReadings settings (readings ++ [r]) =
      (ofReadings settings readings).set r.test
        (r.call.collected r.workspace settings ((ofReadings settings readings).get r.test)) := by
  have hself : r.call.collected r.workspace settings ((ofReadings settings readings).get r.test) =
      Bag.ofReadings settings ((readings ++ [r]).filter fun x => x.test = r.test) := by
    rw [get_ofReadings, ← Bag.ofReadings_concat, List.filter_append]
    simp
  have hothers : ∀ test, test ≠ r.test →
      Bag.ofReadings settings (readings.filter fun x => x.test = test) =
      Bag.ofReadings settings ((readings ++ [r]).filter fun x => x.test = test) := by
    intro test htest
    simp [List.filter_append, Ne.symm htest]
  rw [hself, set]
  unfold ofReadings
  rw [Keyed.put_map (nodup_eraseDups _) hothers, List.map_append, List.map_singleton, eraseDups_concat]

theorem take_ofReadings (className : String) :
    ((ofReadings settings readings).take className).2 =
      ofReadings settings (readings.filter fun r => r.test.className ≠ className) := by
  have hkeys : ((readings.filter fun r => r.test.className ≠ className).map Reading.test).eraseDups =
      (readings.map Reading.test).eraseDups.filter fun test => !(test.className == className) := by
    rw [← eraseDups_filter, List.filter_map]
    simp [Function.comp_def, Bool.beq_eq_decide_eq]
  unfold ofReadings
  rw [hkeys]
  refine congrArg Pending.mk (List.filter_map.trans (List.map_congr_left fun test htest => ?_))
  have hclass : test.className ≠ className := by simpa using (List.mem_filter.1 htest).2
  have hsame : (readings.filter fun r => r.test.className ≠ className).filter (fun r => r.test = test) =
      readings.filter fun r => r.test = test := by
    rw [List.filter_filter]
    refine List.filter_congr fun r _ => ?_
    by_cases hr : r.test = test
    · simp [hr, hclass]
    · simp [hr]
  rw [hsame]

end Pending

/-! ### Following a session -/

namespace Session

variable (settings : Settings) (moments : List Moment)

theorem follow_concat (s : Session) (m : Moment) :
    s.follow (moments ++ [m]) = ((s.follow moments).handle m.workspace m.event).1 :=
  List.foldl_concat ..

theorem settings_follow (s : Session) : (s.follow moments).settings = s.settings := by
  induction moments generalizing s with
  | nil => rfl
  | cons m rest ih =>
    obtain ⟨pending, issues, hrun⟩ := s.exists_handle_eq m.workspace m.event
    exact (ih _).trans (congrArg (·.1.settings) hrun)

/-- At all times the pending bags are those of the unjudged readings. -/
theorem pending_follow :
    ((start settings).follow moments).pending =
      Pending.ofReadings settings (unjudged settings moments) := by
  -- By the last moment: judging drops what was read before it, so nothing can be
  -- said from the first moment on.
  induction moments using List.reverseRecOn with
  | nil => rfl
  | append_singleton moments m ih =>
    have hsettings : ((start settings).follow moments).settings = settings := settings_follow moments _
    rw [follow_concat, unjudged_concat]
    generalize (start settings).follow moments = s at hsettings ih
    subst hsettings
    cases hcall : m.event.call? s.settings m.workspace with
    | some call =>
      have hjudged : m.judged? s.settings = none := Event.judged?_of_call hcall
      rw [handle_of_call hcall, ih]
      simp [hjudged, Moment.reading?, hcall, Pending.ofReadings_concat, Reading.test]
    | none =>
      cases hjudged : m.event.judged? s.settings m.workspace with
      | some className =>
        rw [handle_of_judged hjudged, ih, Pending.take_ofReadings]
        simp [Moment.reading?, Moment.judged?, hcall, hjudged, eq_comm]
      | none =>
        rw [handle_of_neither hcall hjudged, ih]
        simp [Moment.reading?, Moment.judged?, hcall, hjudged]

theorem mem_pending_follow {test : TestName} :
    test ∈ ((start settings).follow moments).pending.bags.map (·.1) ↔
      ∃ r ∈ unjudged settings moments, r.test = test := by
  rw [pending_follow, Pending.ofReadings, List.map_map]
  simp [Function.comp_def, List.mem_eraseDups]

/-- The pending bags are those of the unjudged readings, so a test has one if and only if it was
read after its class was last judged.  A moment that reads and judges nothing leaves the bags as
they are, and so does one of another class with the bags of a class. -/
theorem pending_follow_unjudged :
    ((start settings).follow moments).pending =
      Pending.ofReadings settings (unjudged settings moments) ∧
      (∀ test, test ∈ ((start settings).follow moments).pending.bags.map (·.1) ↔
        ∃ earlier m later r, moments = earlier ++ m :: later ∧ m.reading? settings = some r ∧
          r.test = test ∧ ∀ n ∈ later, n.judged? settings ≠ some test.className) ∧
      ∀ m : Moment,
        (m.reading? settings = none → m.judged? settings = none →
          ((start settings).follow (moments ++ [m])).pending =
            ((start settings).follow moments).pending) ∧
        ∀ className, m.event.self ≠ some className →
          ((start settings).follow (moments ++ [m])).pending.ofClass className =
            ((start settings).follow moments).pending.ofClass className := by
  refine ⟨pending_follow settings moments, fun test => ?_, fun m => ⟨fun hread hjudged => ?_, ?_⟩⟩
  · rw [mem_pending_follow]
    constructor
    · rintro ⟨r, hr, rfl⟩
      obtain ⟨earlier, m, later, hmoments, hread, hlater⟩ := mem_unjudged.1 hr
      exact ⟨earlier, m, later, r, hmoments, hread, rfl, hlater⟩
    · rintro ⟨earlier, m, later, r, hmoments, hread, rfl, hlater⟩
      exact ⟨r, mem_unjudged.2 ⟨earlier, m, later, hmoments, hread, hlater⟩, rfl⟩
  · rw [pending_follow, pending_follow, unjudged_concat, hread, hjudged]
    simp
  · intro className hself
    rw [follow_concat]
    exact congrArg (·.pending) (ofClass_handle_of_ne hself)

end Session

end TypeProbe
