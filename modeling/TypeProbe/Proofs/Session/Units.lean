import TypeProbe.Proofs.Session.Steps

/-!
# Units that are analysed at the same time

An event belongs to a unit, a class with the file it is written in, if it stands in that class or in
none and its node lies in that file.  What concerns a unit are the pending bags of the class and the
issues of the file.  An event of the unit does to this part what it would do if there were nothing
else (`Session.part_handle`), and an event of another unit leaves it alone
(`Session.part_handle_of_ne`), as long as the bags of a class report in the file of the class
(`Session.Confined`).  So the events of two units may be interleaved in any way
(`Session.run_of_interleaving`).
-/

namespace TypeProbe

/-- The third list is made of the first two, each in its order. -/
inductive Interleaving {α : Type} : List α → List α → List α → Prop
  | nil : Interleaving [] [] []
  | left {x : α} {xs ys zs : List α} (h : Interleaving xs ys zs) : Interleaving (x :: xs) ys (x :: zs)
  | right {y : α} {xs ys zs : List α} (h : Interleaving xs ys zs) : Interleaving xs (y :: ys) (y :: zs)

namespace Interleaving

variable {α : Type} {xs ys zs : List α}

theorem symm (h : Interleaving xs ys zs) : Interleaving ys xs zs := by
  induction h with
  | nil => exact .nil
  | left _ ih => exact .right ih
  | right _ ih => exact .left ih

theorem alone (xs : List α) : Interleaving xs [] xs := by
  induction xs with
  | nil => exact .nil
  | cons x xs ih => exact .left ih

end Interleaving

/-- Whether an event stands in the class or in none, and its node lies in the file. -/
structure Event.BelongsTo (w : Workspace) (className file : String) (e : Event) : Prop where
  self : ∀ c ∈ e.self, c = className
  node : ∀ n ∈ e.node?, (w.locationOf n).file = file

/-- Whether all that a bag asserts about its block is stated in the file. -/
structure Bag.ReportsIn (file : String) (b : Bag) : Prop where
  returnType : ∀ e ∈ b.returnType, e.location.file = file
  issues : ∀ e ∈ b.issues, e.location.file = file

theorem Bag.ReportsIn.empty (file : String) : ({} : Bag).ReportsIn file :=
  ⟨by simp, by simp⟩

/-! ### The part of a unit -/

def Workspace.ofFile (w : Workspace) (file : String) : Workspace :=
  { w with issues := w.issuesIn file }

/-- The part of a session and its workspace that concerns a class and a file. -/
def Session.part (className file : String) (p : Session × Workspace) : Session × Workspace :=
  (p.1.ofClass className, p.2.ofFile file)

/-- Whether the bags of a class report in the file. -/
def Session.Confined (className file : String) (s : Session) : Prop :=
  ∀ entry ∈ (s.ofClass className).pending.bags, entry.2.ReportsIn file

/-! ### Judging -/

namespace Bag

variable {file : String} {b : Bag}

theorem ReportsIn.file_of_handles (hb : b.ReportsIn file) {i : Issue} (hi : b.handles i = true) :
    i.location.file = file := by
  obtain ⟨expected, hexpected, -, -, hfile, -⟩ := handles_iff.1 hi
  rw [hfile, hb.issues expected hexpected]

theorem ReportsIn.file_of_dismisses (hb : b.ReportsIn file) {w : Workspace} {i : Issue}
    (hi : b.dismisses w i = true) : i.location.file = file := by
  obtain ⟨j, -, hj, hij⟩ := dismisses_iff.1 hi
  rw [(Issue.coincides_iff.1 hij).1, hb.file_of_handles hj]

theorem ReportsIn.file_of_mem_verdicts (hb : b.ReportsIn file) {w : Workspace} {i : Issue}
    (hi : i ∈ (b.verdicts w).1) : i.location.file = file := by
  rcases mem_verdicts hi with ⟨e, he, -, hlocation⟩ | ⟨e, he, -, hlocation⟩
  · rw [hlocation, hb.returnType e he]
  · rw [hlocation, hb.issues e he]

/-- Judging a bag is the same with the issues of its file alone. -/
theorem ReportsIn.ofFile_judge (hb : b.ReportsIn file) (w : Workspace) :
    (b.judge w).ofFile file = b.judge (w.ofFile file) := by
  have hhandled : (w.ofFile file).issues.filter b.handles = w.issues.filter b.handles := by
    simp only [Workspace.ofFile, Workspace.issuesIn, List.filter_filter]
    refine List.filter_congr fun i _ => ?_
    by_cases hi : b.handles i = true
    · simp [hi, hb.file_of_handles hi]
    · simp [Bool.eq_false_iff.2 hi]
  have hverdicts : (b.verdicts (w.ofFile file)).1 = (b.verdicts w).1 := verdicts_congr rfl hhandled
  have hfile : (b.verdicts w).1.filter (fun i => i.location.file == file) = (b.verdicts w).1 :=
    List.filter_eq_self.2 fun i hi => by simp [hb.file_of_mem_verdicts hi]
  rw [judge_eq, judge_eq, hverdicts]
  simp only [dismisses_congr hhandled]
  simp only [Workspace.ofFile, Workspace.issuesIn, List.filter_append, hfile, List.filter_filter]
  congr 2
  exact List.filter_congr fun i _ => Bool.and_comm _ _

/-- Judging a bag leaves the issues of other files alone. -/
theorem ReportsIn.ofFile_judge_of_ne (hb : b.ReportsIn file) {other : String} (h : other ≠ file)
    (w : Workspace) : (b.judge w).ofFile other = w.ofFile other := by
  have hverdicts : (b.verdicts w).1.filter (fun i => i.location.file == other) = [] :=
    List.filter_eq_nil_iff.2 fun i hi => by simp [hb.file_of_mem_verdicts hi, Ne.symm h]
  rw [judge_eq]
  simp only [Workspace.ofFile, Workspace.issuesIn, List.filter_append, hverdicts, List.append_nil,
    List.filter_filter]
  congr 1
  refine List.filter_congr fun i _ => ?_
  by_cases hi : i.location.file = other
  · have hkept : ¬ b.dismisses w i = true := fun hd => h (hi.symm.trans (hb.file_of_dismisses hd))
    simp [hi, Bool.eq_false_iff.2 hkept]
  · simp [hi]

variable {bags : List Bag}

theorem ofFile_foldl_judge (h : ∀ b ∈ bags, b.ReportsIn file) (w : Workspace) :
    (bags.foldl judge w).ofFile file = bags.foldl judge (w.ofFile file) := by
  induction bags generalizing w with
  | nil => rfl
  | cons b rest ih =>
    rw [List.foldl_cons, List.foldl_cons, ih fun c hc => h c (List.mem_cons_of_mem _ hc),
      (h b List.mem_cons_self).ofFile_judge]

theorem ofFile_foldl_judge_of_ne (h : ∀ b ∈ bags, b.ReportsIn file) {other : String}
    (hne : other ≠ file) (w : Workspace) : (bags.foldl judge w).ofFile other = w.ofFile other := by
  induction bags generalizing w with
  | nil => rfl
  | cons b rest ih =>
    rw [List.foldl_cons, ih fun c hc => h c (List.mem_cons_of_mem _ hc),
      (h b List.mem_cons_self).ofFile_judge_of_ne hne]

end Bag

/-! ### Collecting -/

private theorem location_of_expectedReturn? {w : Workspace} {call : AssertionCall}
    {wrapper : String} {e : ExpectedReturn} (h : call.expectedReturn? w wrapper = some e) :
    e.location = w.locationOf call.node := by
  simp only [AssertionCall.expectedReturn?, Option.bind_eq_bind, Option.bind_eq_some_iff,
    Option.pure_def, Option.some.injEq] at h
  obtain ⟨-, -, -, -, rfl⟩ := h
  rfl

/-- What is read from a call is stated at the call. -/
theorem Bag.ReportsIn.collected {file : String} {w : Workspace} {call : AssertionCall}
    (hcall : (w.locationOf call.node).file = file) (settings : Settings) {bag : Bag}
    (hbag : bag.ReportsIn file) : (call.collected w settings bag).ReportsIn file := by
  unfold AssertionCall.collected AssertionCall.collect? AssertionCall.entry?
  obtain ⟨code, returnType, issues⟩ := bag
  cases call.name with
  | haveCode =>
    cases call.codeBlock? w with
    | none => exact hbag
    | some block => exact ⟨hbag.returnType, hbag.issues⟩
  | seeReturnType =>
    cases hread : call.expectedReturn? w settings.wrapperClass with
    | none => exact hbag
    | some expected =>
      refine ⟨?_, hbag.issues⟩
      rintro e ⟨⟩
      rw [location_of_expectedReturn? hread, hcall]
  | seeIssue =>
    cases call.expectedIssue? w with
    | none => exact hbag
    | some issue =>
      refine ⟨hbag.returnType, ?_⟩
      rintro e ⟨⟩
      cases issues with
      | none => exact hcall
      | some expected => exact hbag.issues expected rfl

/-! ### One event -/

namespace Workspace

variable {file : String} {issues : List Issue}

theorem ofFile_append (w : Workspace) (h : ∀ i ∈ issues, i.location.file = file) :
    ({ w with issues := w.issues ++ issues } : Workspace).ofFile file =
      { w.ofFile file with issues := (w.ofFile file).issues ++ issues } := by
  have hfile : issues.filter (fun i => i.location.file == file) = issues :=
    List.filter_eq_self.2 fun i hi => by simp [h i hi]
  simp [ofFile, issuesIn, List.filter_append, hfile]

theorem ofFile_append_of_ne (w : Workspace) (h : ∀ i ∈ issues, i.location.file = file)
    {other : String} (hne : other ≠ file) :
    ({ w with issues := w.issues ++ issues } : Workspace).ofFile other = w.ofFile other := by
  have hfile : issues.filter (fun i => i.location.file == other) = [] :=
    List.filter_eq_nil_iff.2 fun i hi => by simp [h i hi, Ne.symm hne]
  simp [ofFile, issuesIn, List.filter_append, hfile]

end Workspace

theorem Event.BelongsTo.file_of_mem_notices {className file : String} {w : Workspace} {e : Event}
    (he : e.BelongsTo w className file) (s : Session) :
    ∀ i ∈ s.notices w e, i.location.file = file := by
  intro i hi
  obtain ⟨node, hnode, hlocation⟩ := Session.mem_notices hi
  rw [hlocation, he.node node hnode]

theorem Event.call?_ofFile (settings : Settings) (w : Workspace) (file : String) (e : Event) :
    e.call? settings (w.ofFile file) = e.call? settings w := by
  cases e <;> rfl

theorem Event.judged?_ofFile (settings : Settings) (w : Workspace) (file : String) (e : Event) :
    e.judged? settings (w.ofFile file) = e.judged? settings w := by
  cases e with
  | body kind self => cases kind <;> rfl
  | _ => rfl

namespace Session

variable {className file : String} {s : Session} {w : Workspace} {e : Event}

/-- The bag of a test of the class reports in the file. -/
theorem Confined.get (hs : s.Confined className file) {test : TestName}
    (htest : test.className = className) : (s.pending.get test).ReportsIn file := by
  rw [← Pending.get_ofClass _ htest, Pending.get]
  cases hbag : Keyed.get? test (s.pending.ofClass className).bags with
  | none => exact .empty file
  | some bag => exact hs _ (Keyed.mem_of_get? hbag)

theorem Confined.take (hs : s.Confined className file) :
    ∀ b ∈ (s.pending.take className).1, b.ReportsIn file := by
  intro b hb
  obtain ⟨entry, hentry, rfl⟩ := List.mem_map.1 hb
  exact hs entry hentry

theorem notices_part (he : ∀ call, e.call? s.settings w = some call → call.test.className = className) :
    (s.ofClass className).notices (w.ofFile file) e = s.notices w e := by
  have hshown : (w.ofFile file).shownBy s.settings.showTag e = w.shownBy s.settings.showTag e := by
    cases e <;> rfl
  have hcomplaint : ∀ call : AssertionCall, call.test.className = className →
      (s.ofClass className).complaint (w.ofFile file) call = s.complaint w call := by
    intro call htest
    unfold complaint
    rw [show (s.ofClass className).pending.get call.test = s.pending.get call.test from
      Pending.get_ofClass _ htest]
    rfl
  unfold notices
  rw [show (s.ofClass className).settings = s.settings from rfl, hshown, Event.call?_ofFile]
  cases hcall : e.call? s.settings w with
  | none => rfl
  | some call => rw [Option.elim_some, Option.elim_some, hcomplaint call (he call hcall)]

/-- An event of a unit does to the part of the unit what it would do if there were nothing else. -/
theorem part_handle (hs : s.Confined className file) (he : e.BelongsTo w className file) :
    part className file (s.handle w e) = (s.ofClass className).handle (w.ofFile file) e := by
  have hclass : ∀ call, e.call? s.settings w = some call → call.test.className = className :=
    fun call h => he.self _ (Event.self_of_call h).1
  have hissues := w.ofFile_append (he.file_of_mem_notices s)
  cases hcall : e.call? s.settings w with
  | some call =>
    have hpart : e.call? (s.ofClass className).settings (w.ofFile file) = some call :=
      (Event.call?_ofFile _ _ _ _).trans hcall
    have htest := hclass call hcall
    have hbag : call.collected (w.ofFile file) s.settings
        ((s.pending.ofClass className).get call.test) =
        call.collected w s.settings (s.pending.get call.test) := by
      rw [Pending.get_ofClass _ htest]
      rfl
    rw [handle_of_call hcall, handle_of_call hpart, notices_part hclass, part, hissues, ofClass,
      Pending.ofClass_set _ htest, ← hbag]
    rfl
  | none =>
    have hpart : e.call? (s.ofClass className).settings (w.ofFile file) = none :=
      (Event.call?_ofFile _ _ _ _).trans hcall
    cases hjudged : e.judged? s.settings w with
    | some judged =>
      obtain rfl : judged = className := he.self _ (Event.self_of_judged hjudged)
      have hpart' : e.judged? (s.ofClass judged).settings (w.ofFile file) = some judged :=
        (Event.judged?_ofFile _ _ _ _).trans hjudged
      obtain ⟨hbags, hrest⟩ := s.pending.take_ofClass judged
      rw [handle_of_judged hjudged, handle_of_judged hpart', part, Bag.ofFile_foldl_judge hs.take,
        ← hbags, ofClass, ← hrest]
      rfl
    | none =>
      have hpart' : e.judged? (s.ofClass className).settings (w.ofFile file) = none :=
        (Event.judged?_ofFile _ _ _ _).trans hjudged
      rw [handle_of_neither hcall hjudged, handle_of_neither hpart hpart', notices_part hclass,
        part, hissues]

/-- An event of a unit leaves the parts of other units alone. -/
theorem part_handle_of_ne (hs : s.Confined className file) (he : e.BelongsTo w className file)
    {otherClass otherFile : String} (hclass : otherClass ≠ className) (hfile : otherFile ≠ file) :
    part otherClass otherFile (s.handle w e) = part otherClass otherFile (s, w) := by
  have hsession : (s.handle w e).1.ofClass otherClass = s.ofClass otherClass :=
    ofClass_handle_of_ne fun h => hclass (he.self _ h)
  have hissues := w.ofFile_append_of_ne (he.file_of_mem_notices s) hfile
  have hworkspace : (s.handle w e).2.ofFile otherFile = w.ofFile otherFile := by
    cases hcall : e.call? s.settings w with
    | some call => rw [handle_of_call hcall, hissues]
    | none =>
      cases hjudged : e.judged? s.settings w with
      | some judged =>
        obtain rfl : judged = className := he.self _ (Event.self_of_judged hjudged)
        rw [handle_of_judged hjudged, Bag.ofFile_foldl_judge_of_ne hs.take hfile]
      | none => rw [handle_of_neither hcall hjudged, hissues]
  exact Prod.ext hsession hworkspace

/-- The bags of a class go on reporting in the file. -/
theorem Confined.handle (hs : s.Confined className file) (he : e.BelongsTo w className file) :
    (s.handle w e).1.Confined className file := by
  cases hcall : e.call? s.settings w with
  | some call =>
    obtain ⟨hself, hnode⟩ := Event.self_of_call hcall
    have htest : call.test.className = className := he.self _ hself
    rw [handle_of_call hcall]
    intro entry hentry
    rw [ofClass, Pending.ofClass_set _ htest] at hentry
    rcases Keyed.mem_of_mem_put hentry with rfl | hentry
    · exact (hs.get htest).collected (he.node _ hnode) s.settings
    · exact hs entry hentry
  | none =>
    cases hjudged : e.judged? s.settings w with
    | some judged =>
      obtain rfl : judged = className := he.self _ (Event.self_of_judged hjudged)
      rw [handle_of_judged hjudged]
      intro entry hentry
      obtain ⟨hstays, hclass⟩ := List.mem_filter.1 hentry
      exact hs entry (List.mem_filter.2 ⟨(List.mem_filter.1 hstays).1, hclass⟩)
    | none =>
      rw [handle_of_neither hcall hjudged]
      exact hs

theorem Confined.handle_of_ne (hs : s.Confined className file) (he : e.BelongsTo w className file)
    {otherClass otherFile : String} (hother : s.Confined otherClass otherFile)
    (hclass : otherClass ≠ className) (hfile : otherFile ≠ file) :
    (s.handle w e).1.Confined otherClass otherFile := by
  have hpart := congrArg Prod.fst (part_handle_of_ne hs he hclass hfile)
  intro entry hentry
  rw [show (s.handle w e).1.ofClass otherClass = s.ofClass otherClass from hpart] at hentry
  exact hother entry hentry

theorem confined_start (settings : Settings) (className file : String) :
    (start settings).Confined className file :=
  fun _ hentry => nomatch hentry

end Session

theorem Event.BelongsTo.handle {className file : String} {w : Workspace} {e : Event}
    (he : e.BelongsTo w className file) (s : Session) (last : Event) :
    e.BelongsTo (s.handle w last).2 className file := by
  obtain ⟨pending, issues, hrun⟩ := s.exists_handle_eq w last
  rw [hrun]
  exact ⟨he.self, he.node⟩

/-! ### Interleaved runs -/

namespace Session

variable {class₁ class₂ file₁ file₂ : String} {xs ys zs : List Event}

/-- The part of a unit runs through the events of the unit, whatever events
of another one come between. -/
theorem part_run (hclass : class₁ ≠ class₂) (hfile : file₁ ≠ file₂) (h : Interleaving xs ys zs)
    {s : Session} {w : Workspace} (hs₁ : s.Confined class₁ file₁) (hs₂ : s.Confined class₂ file₂)
    (hxs : ∀ e ∈ xs, e.BelongsTo w class₁ file₁) (hys : ∀ e ∈ ys, e.BelongsTo w class₂ file₂) :
    part class₁ file₁ (s.run w zs) = (s.ofClass class₁).run (w.ofFile file₁) xs := by
  induction h generalizing s w with
  | nil => rfl
  | @left e xs ys zs h ih =>
    have he : e.BelongsTo w class₁ file₁ := hxs e List.mem_cons_self
    rw [run_cons, run_cons, ← part_handle hs₁ he]
    refine ih (hs₁.handle he) (hs₁.handle_of_ne he hs₂ hclass.symm hfile.symm) ?_ ?_
    · exact fun x hx => (hxs x (List.mem_cons_of_mem _ hx)).handle s e
    · exact fun y hy => (hys y hy).handle s e
  | @right e xs ys zs h ih =>
    have he : e.BelongsTo w class₂ file₂ := hys e List.mem_cons_self
    have hpart := part_handle_of_ne hs₂ he hclass hfile
    rw [run_cons, ih (hs₂.handle_of_ne he hs₁ hclass hfile) (hs₂.handle he)]
    · exact congrArg (fun p : Session × Workspace => p.1.run p.2 xs) hpart
    · exact fun x hx => (hxs x hx).handle s e
    · exact fun y hy => (hys y (List.mem_cons_of_mem _ hy)).handle s e

/-- Two units, each in a file of its own: the issues in the file and the pending bags of the class
are those of the events of the unit alone. -/
theorem run_of_interleaving (settings : Settings) (w : Workspace) (hclass : class₁ ≠ class₂)
    (hfile : file₁ ≠ file₂) (h : Interleaving xs ys zs) (hxs : ∀ e ∈ xs, e.BelongsTo w class₁ file₁)
    (hys : ∀ e ∈ ys, e.BelongsTo w class₂ file₂) :
    (((start settings).run w zs).2.issuesIn file₁ = ((start settings).run w xs).2.issuesIn file₁ ∧
        ((start settings).run w zs).1.pending.ofClass class₁ =
          ((start settings).run w xs).1.pending.ofClass class₁) ∧
      ((start settings).run w zs).2.issuesIn file₂ = ((start settings).run w ys).2.issuesIn file₂ ∧
        ((start settings).run w zs).1.pending.ofClass class₂ =
          ((start settings).run w ys).1.pending.ofClass class₂ := by
  have hs₁ := confined_start settings class₁ file₁
  have hs₂ := confined_start settings class₂ file₂
  have hpart₁ : part class₁ file₁ ((start settings).run w zs) =
      part class₁ file₁ ((start settings).run w xs) :=
    (part_run hclass hfile h hs₁ hs₂ hxs hys).trans
      (part_run hclass hfile (.alone xs) hs₁ hs₂ hxs (by simp)).symm
  have hpart₂ : part class₂ file₂ ((start settings).run w zs) =
      part class₂ file₂ ((start settings).run w ys) :=
    (part_run hclass.symm hfile.symm h.symm hs₂ hs₁ hys hxs).trans
      (part_run hclass.symm hfile.symm (.alone ys) hs₂ hs₁ hys (by simp)).symm
  exact ⟨⟨congrArg (·.2.issues) hpart₁, congrArg (·.1.pending) hpart₁⟩,
    congrArg (·.2.issues) hpart₂, congrArg (·.1.pending) hpart₂⟩

/-- A test that expects an issue of the kind `K` from its block, and the end of its body. -/
private def testEvents (className : String) (node : Nat) : List Event :=
  [.expression ⟨node + 1,
    .call ⟨node, .other, none⟩ (some "haveCode") [⟨node + 2, .closure, none⟩], none⟩
      (some className),
    .expression ⟨node + 3, .call ⟨node, .other, none⟩ (some "seePsalmIssue")
      [⟨node + 4, .other, none⟩, ⟨node + 5, .other, none⟩], none⟩ (some className),
    .body .method (some className)]

/-- The types of the nodes of a test that expects `K` with a message. -/
private def testTypes (node : Nat) (message : String) : List (Nat × Ty) :=
  let testCase := ({} : Settings).testCaseClass
  let test : Ty := .single (.generic ⟨testCase, []⟩ [.single (.literal (.string "test"))])
  [(node, .single (.object ⟨testCase, []⟩)), (node + 1, test),
    (node + 2, .single (.callable ⟨[], none, true, false⟩)),
    (node + 3, test), (node + 4, .single (.literal (.string "K"))),
    (node + 5, .single (.literal (.string message)))]

private def testLocations (file : String) (node : Nat) : List (Nat × Location) :=
  [(node + 1, .between file 0 20), (node + 2, .between file 10 20), (node + 3, .between file 30 40)]

/-- Two tests in two files, with an issue in the block of each. -/
private def twoFiles : Workspace where
  file := "other"
  types := testTypes 0 "m" ++ testTypes 10 "n"
  locations := testLocations "a" 0 ++ testLocations "b" 10
  classes := ClassTable.ofList [("A", [({} : Settings).testBaseClass]),
    ("B", [({} : Settings).testBaseClass])]
  issues := [.error "K" "m" (.between "a" 12 14), .error "K" "m" (.between "b" 12 14)]

private theorem testEvents_belong {w : Workspace} {className file : String} {node : Nat}
    (hcode : (w.locationOf (node + 1)).file = file) (hissue : (w.locationOf (node + 3)).file = file) :
    ∀ e ∈ testEvents className node, e.BelongsTo w className file := by
  intro e he
  simp only [testEvents, List.mem_cons, List.not_mem_nil, or_false] at he
  rcases he with rfl | rfl | rfl
  · exact ⟨fun c hc => (Option.some.inj hc).symm, fun n hn => Option.some.inj hn ▸ hcode⟩
  · exact ⟨fun c hc => (Option.some.inj hc).symm, fun n hn => Option.some.inj hn ▸ hissue⟩
  · exact ⟨fun c hc => (Option.some.inj hc).symm, nofun⟩

private def alternating : List Event :=
  (List.zip (testEvents "A" 0) (testEvents "B" 10)).flatMap fun p => [p.1, p.2]

theorem run_of_interleaving_alternating :
    Interleaving (testEvents "A" 0) (testEvents "B" 10) alternating ∧
      ((start {}).run twoFiles alternating).2.issuesIn "a" = [] ∧
      ((start {}).run twoFiles alternating).2.issuesIn "b" =
        [.error "K" "m" (.between "b" 12 14),
          Message.missingIssues.issue (.between "b" 30 40) ["\n[K]: n"]] := by
  have hz : Interleaving (testEvents "A" 0) (testEvents "B" 10) alternating :=
    .left (.right (.left (.right (.left (.right .nil)))))
  have hxs : ∀ e ∈ testEvents "A" 0, e.BelongsTo twoFiles "A" "a" :=
    testEvents_belong (by decide) (by decide)
  have hys : ∀ e ∈ testEvents "B" 10, e.BelongsTo twoFiles "B" "b" :=
    testEvents_belong (by decide) (by decide)
  obtain ⟨⟨ha, -⟩, hb, -⟩ := run_of_interleaving {} twoFiles (by decide) (by decide) hz hxs hys
  refine ⟨hz, ha.trans ?_, hb.trans ?_⟩
  · decide +kernel
  · decide +kernel

end Session

end TypeProbe
