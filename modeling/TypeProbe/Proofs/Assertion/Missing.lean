import TypeProbe.Assertion.Verdict

/-!
# What the verdict on expected issues says

An expectation is raised if an issue with its key was recorded within the block
(`ExpectedIssue.IsRaised`).  There is a verdict exactly if some expectation is not raised, and
its text has one line for each of these, in the order in which they were stated and each key
once (`ExpectedIssues.unraised`).  The lines are what fills the place of the message, so
nothing in them is taken for a place.  A key shows the kind and the message if the kind has no
closing bracket (`issueKey_inj`).
-/

namespace TypeProbe

/-! ### Keys -/

private theorem eq_of_append_cons_eq {c : Char} {x y r r' : List Char} (hx : c ∉ x) (hy : c ∉ y)
    (h : x ++ c :: r = y ++ c :: r') : x = y := by
  induction x generalizing y with
  | nil =>
    cases y with
    | nil => rfl
    | cons b y =>
      obtain ⟨rfl, -⟩ := List.cons.inj h
      exact absurd List.mem_cons_self hy
  | cons a x ih =>
    cases y with
    | nil =>
      obtain ⟨rfl, -⟩ := List.cons.inj h
      exact absurd List.mem_cons_self hx
    | cons b y =>
      obtain ⟨rfl, htail⟩ := List.cons.inj h
      rw [ih (fun hc => hx (List.mem_cons_of_mem _ hc))
        (fun hc => hy (List.mem_cons_of_mem _ hc)) htail]

private theorem toList_issueKey (kind message : String) :
    (issueKey kind message).toList =
      '[' :: (kind.toList ++ ']' :: (":[".toList ++ message.toList ++ "]".toList)) := by
  simp [issueKey, String.toList_append]

/-- A key shows the kind and the message, if the kind has no closing bracket. -/
theorem issueKey_inj {kind kind' message message' : String} (hk : ']' ∉ kind.toList)
    (hk' : ']' ∉ kind'.toList) :
    issueKey kind message = issueKey kind' message' ↔ kind = kind' ∧ message = message' := by
  constructor
  · intro h
    have htext := congrArg String.toList h
    rw [toList_issueKey, toList_issueKey] at htext
    have hrest := (List.cons.inj htext).2
    have hkind : kind.toList = kind'.toList := eq_of_append_cons_eq hk hk' hrest
    rw [hkind] at hrest
    have hmessage := List.append_cancel_right (List.cons.inj (List.append_cancel_left hrest)).2
    exact ⟨String.toList_inj.1 hkind, String.toList_inj.1 (List.append_cancel_left hmessage)⟩
  · rintro ⟨rfl, rfl⟩
    rfl

/-! ### Expectations that are not raised -/

/-- An issue of the file with the key of the expectation lies within the block. -/
def ExpectedIssue.IsRaised (e : ExpectedIssue) (w : Workspace) (file : String) (block : Location) :
    Prop :=
  ∃ i ∈ w.issuesIn file,
    issueKey i.kind i.text = e.key ∧ block.start ≤ i.location.start ∧ i.location.stop ≤ block.stop

instance (e : ExpectedIssue) (w : Workspace) (file : String) (block : Location) :
    Decidable (e.IsRaised w file block) :=
  inferInstanceAs (Decidable (∃ i ∈ w.issuesIn file,
    issueKey i.kind i.text = e.key ∧ block.start ≤ i.location.start ∧ i.location.stop ≤ block.stop))

theorem ExpectedIssue.isRaised_congr {e d : ExpectedIssue} (h : e.key = d.key) {w : Workspace}
    {file : String} {block : Location} : e.IsRaised w file block ↔ d.IsRaised w file block := by
  unfold IsRaised
  rw [h]

namespace ExpectedIssues

/-- The expectations that are not raised in the block, each at the first
place where its key is stated. -/
def unraised (expected : ExpectedIssues) (w : Workspace) (block : Location) : List ExpectedIssue :=
  (expected.issues.zipIdx.filter fun (e, n) =>
    decide (¬ e.IsRaised w expected.location.file block) &&
      (expected.issues.take n).all fun d => decide (d.key ≠ e.key)).map (·.1)

/-- An expectation is raised exactly if a handled issue has its key. -/
private theorem isRaised_iff {expected : ExpectedIssues} {e : ExpectedIssue}
    (he : e ∈ expected.issues) {w : Workspace} {block : Location} :
    e.IsRaised w expected.location.file block ↔
      e.key ∈ (expected.handled block w).map fun i => issueKey i.kind i.text := by
  simp only [ExpectedIssue.IsRaised, handled, List.mem_map, List.mem_filter, Bool.and_eq_true,
    List.contains_iff_mem, Location.coversRange, decide_eq_true_eq]
  constructor
  · rintro ⟨i, hi, hkey, hstart, hstop⟩
    exact ⟨i, ⟨hi, ⟨e, he, hkey.symm⟩, hstart, hstop⟩, hkey⟩
  · rintro ⟨i, ⟨hi, -, hstart, hstop⟩, hkey⟩
    exact ⟨i, hi, hkey, hstart, hstop⟩

/-- What is missing beside the handled issues is, without the repeated keys, what is not raised. -/
private theorem missing_handled (expected : ExpectedIssues) (w : Workspace) (block : Location) :
    expected.missing (expected.handled block w) =
      distinctBy ExpectedIssue.key
        (expected.issues.filter fun e => decide (¬ e.IsRaised w expected.location.file block)) := by
  refine congrArg (distinctBy ExpectedIssue.key) (List.filter_congr fun e he => ?_)
  rw [Bool.eq_iff_iff, Bool.not_eq_true', ← Bool.not_eq_true, List.contains_iff_mem, ← isRaised_iff he,
    decide_eq_true_iff]

theorem missing_eq_unraised (expected : ExpectedIssues) (w : Workspace) (block : Location) :
    expected.missing (expected.handled block w) = expected.unraised w block := by
  -- Whether an expectation is raised depends on its key alone, so it does not
  -- matter when keys are dropped.
  have hkey : ∀ e d : ExpectedIssue, e.key = d.key →
      decide (¬ e.IsRaised w expected.location.file block) =
        decide (¬ d.IsRaised w expected.location.file block) := by
    intro e d h
    exact decide_eq_decide.2 (not_congr (ExpectedIssue.isRaised_congr h))
  rw [missing_handled, distinctBy_filter _ hkey, distinctBy_eq_filter_zipIdx, List.filter_map,
    List.filter_filter]
  rfl

theorem unraised_eq_nil_iff {expected : ExpectedIssues} {w : Workspace} {block : Location} :
    expected.unraised w block = [] ↔
      ∀ e ∈ expected.issues, e.IsRaised w expected.location.file block := by
  rw [← missing_eq_unraised, missing_handled, distinctBy_eq_nil_iff, List.filter_eq_nil_iff]
  simp

end ExpectedIssues

/-! ### The verdict -/

/-- The place of the message is filled with the lines as they stand. -/
private theorem issue_missingIssues (location : Location) (lines : String) :
    Message.missingIssues.issue location [lines] =
      { kind := "SeePsalmIssueAssertionFailed", code := 9002, category := .error,
        text := "Expected issues were not raised:" ++ lines, location := location } := by
  have hplain : ∀ c ∈ "Expected issues were not raised:".toList, c ≠ '{' := by simp
  have htext : (Message.missingIssues.issue location [lines]).text =
      "Expected issues were not raised:" ++ lines :=
    Template.fill_append_place hplain lines
  rw [← htext]
  rfl

/-- A bag with a code block and expected issues gives no verdict if all of them are
raised.  Otherwise the verdict stands where the issues were expected and lists, behind a
fixed text, those that are not raised. -/
theorem Bag.issuesVerdict_fst (w : Workspace) {b : Bag} {expected : ExpectedIssues}
    {block : CodeBlock} (hissues : b.issues = some expected) (hcode : b.code = some block) :
    ((b.issuesVerdict w).1 =
        if ∀ e ∈ expected.issues, e.IsRaised w expected.location.file block.location then none
        else some
          { kind := "SeePsalmIssueAssertionFailed", code := 9002, category := .error,
            text := "Expected issues were not raised:" ++
              String.join ((expected.unraised w block.location).map fun e =>
                "\n[" ++ e.kind ++ "]: " ++ e.message),
            location := expected.location }) ∧
      ∀ kind kind' message message' : String, ']' ∉ kind.toList → ']' ∉ kind'.toList →
        (issueKey kind message = issueKey kind' message' ↔ kind = kind' ∧ message = message') := by
  have hverdict : (b.issuesVerdict w).1 =
      if (expected.missing (expected.handled block.location w)).isEmpty then none
      else some (Message.missingIssues.issue expected.location
        [ExpectedIssues.listing (expected.missing (expected.handled block.location w))]) := by
    unfold issuesVerdict
    rw [hissues, hcode]
  refine ⟨?_, fun _ _ _ _ => issueKey_inj⟩
  rw [hverdict, ExpectedIssues.missing_eq_unraised, issue_missingIssues]
  by_cases hraised : ∀ e ∈ expected.issues, e.IsRaised w expected.location.file block.location
  · rw [if_pos hraised, if_pos (List.isEmpty_iff.2 (ExpectedIssues.unraised_eq_nil_iff.2 hraised))]
  · rw [if_neg hraised,
      if_neg fun h => hraised (ExpectedIssues.unraised_eq_nil_iff.1 (List.isEmpty_iff.1 h))]
    rfl

/-- `K` is expected and raised twice, `L` is stated twice and looks like a place, `M`
is raised outside the block. -/
private def expectingBag : Bag where
  code := some ⟨.between "test" 100 200, .single (.keyword .void)⟩
  issues := some ⟨.between "test" 250 280,
    [⟨"K", "m"⟩, ⟨"L", "{0}"⟩, ⟨"M", "m"⟩, ⟨"L", "{0}"⟩, ⟨"K", "m"⟩]⟩

private def recorded : Workspace where
  file := "test"
  issues := [.error "K" "m" (.between "test" 120 130), .error "K" "m" (.between "test" 140 150),
    .error "M" "m" (.between "test" 190 210)]

theorem Bag.issuesVerdict_fst_recorded :
    expectingBag.issues.isSome = true ∧ expectingBag.code.isSome = true ∧
      (expectingBag.issuesVerdict recorded).1 = some
        { kind := "SeePsalmIssueAssertionFailed", code := 9002, category := .error,
          text := "Expected issues were not raised:\n[L]: {0}\n[M]: m",
          location := .between "test" 250 280 } ∧
      issueKey "L" "]:[m" ≠ issueKey "L" "m" := by
  have h := Bag.issuesVerdict_fst recorded (b := expectingBag) rfl rfl
  refine ⟨rfl, rfl, h.1.trans ?_, fun hkey => ?_⟩
  · decide +kernel
  · exact absurd ((h.2 "L" "L" "]:[m" "m" (by decide) (by decide)).1 hkey).2 (by decide)

end TypeProbe
