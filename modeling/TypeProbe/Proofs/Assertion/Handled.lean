import Mathlib.Data.List.Basic
import TypeProbe.Assertion.Verdict

/-!
# What judging a bag does to the issues of a workspace

A bag handles the issues that it expects and that lie within its block (`Bag.handles`).  It
dismisses every issue that coincides with a handled one, which means that both are of one kind and
start at one place (`Bag.dismisses`).  Judging drops the dismissed issues, keeps the others in order
and adds the verdicts behind them (`Bag.judge_eq`), and the verdicts depend on the handled issues
and on the classes alone (`Bag.verdicts_congr`).  No more is dismissed than was handled if and only
if no other issue coincides with a handled one (`Bag.issues_issuesVerdict`).
-/

namespace TypeProbe

/-- Whether two issues are of one kind and start at one place of a file. -/
def Issue.coincides (i j : Issue) : Bool :=
  i.location.file == j.location.file && i.kind == j.kind && i.location.start == j.location.start

theorem Issue.coincides_iff {i j : Issue} :
    i.coincides j = true ↔
      i.location.file = j.location.file ∧ i.kind = j.kind ∧ i.location.start = j.location.start := by
  simp [coincides, and_assoc]

/-- Whether an issue of the file of the expectations has the key of one of
them and lies within the block. -/
def ExpectedIssues.handles (expected : ExpectedIssues) (block : Location) (i : Issue) : Bool :=
  i.location.file == expected.location.file &&
    (expected.issues.map (·.key)).contains (issueKey i.kind i.text) &&
    block.coversRange i.location.start i.location.stop

namespace Bag

/-- Whether an issue is one that the bag expects from its block. -/
def handles (b : Bag) (i : Issue) : Bool :=
  match b.issues, b.code with
  | some expected, some block => expected.handles block.location i
  | _, _ => false

/-- Whether an issue goes when the bag is judged. -/
def dismisses (b : Bag) (w : Workspace) (i : Issue) : Bool :=
  (w.issues.filter b.handles).any i.coincides

theorem handles_iff {b : Bag} {i : Issue} :
    b.handles i = true ↔
      ∃ expected ∈ b.issues, ∃ block ∈ b.code, i.location.file = expected.location.file ∧
        (∃ e ∈ expected.issues, e.key = issueKey i.kind i.text) ∧
        block.location.start ≤ i.location.start ∧ i.location.stop ≤ block.location.stop := by
  obtain ⟨code, returnType, issues⟩ := b
  cases issues with
  | none => simp [handles]
  | some expected =>
    cases code with
    | none => simp [handles]
    | some block => simp [handles, ExpectedIssues.handles, Location.coversRange, and_assoc]

theorem dismisses_iff {b : Bag} {w : Workspace} {i : Issue} :
    b.dismisses w i = true ↔ ∃ j ∈ w.issues, b.handles j = true ∧ i.coincides j = true := by
  simp [dismisses]

theorem dismisses_of_handles {b : Bag} {w : Workspace} {i : Issue} (hi : i ∈ w.issues)
    (h : b.handles i = true) : b.dismisses w i = true :=
  dismisses_iff.2 ⟨i, hi, h, Issue.coincides_iff.2 ⟨rfl, rfl, rfl⟩⟩

theorem dismisses_congr {b : Bag} {w w' : Workspace}
    (h : w.issues.filter b.handles = w'.issues.filter b.handles) (i : Issue) :
    b.dismisses w i = b.dismisses w' i := by
  rw [dismisses, dismisses, h]

end Bag

/-! ### The steps of judging -/

theorem ExpectedIssues.handled_eq (expected : ExpectedIssues) (block : Location) (w : Workspace) :
    expected.handled block w = w.issues.filter (expected.handles block) := by
  unfold handled Workspace.issuesIn
  rw [List.filter_filter]
  refine List.filter_congr fun i _ => ?_
  rw [Bool.and_comm]
  exact (Bool.and_assoc _ _ _).symm

/-- Dismissing the kinds and starts of some issues of a file drops what coincides with one of them. -/
private theorem foldl_dismiss {file : String} {dismissed : List Issue}
    (h : ∀ i ∈ dismissed, i.location.file = file) (w : Workspace) :
    dismissed.foldl (fun w i => w.dismiss file i.kind i.location.start) w =
      { w with issues := w.issues.filter fun i => !dismissed.any i.coincides } := by
  induction dismissed generalizing w with
  | nil => simp
  | cons j rest ih =>
    have hj : j.location.file = file := h j List.mem_cons_self
    rw [List.foldl_cons, ih fun i hi => h i (List.mem_cons_of_mem _ hi)]
    simp only [Workspace.dismiss, List.filter_filter, List.any_cons, Bool.not_or, ← hj]
    congr 1
    exact List.filter_congr fun i _ => Bool.and_comm _ _

theorem Workspace.foldl_report (issues : List Issue) (w : Workspace) :
    issues.foldl Workspace.report w = { w with issues := w.issues ++ issues } := by
  induction issues generalizing w with
  | nil => simp
  | cons i rest ih => rw [List.foldl_cons, ih]; simp [Workspace.report]

namespace Bag

/-- Judging the expected issues drops the dismissed issues and changes nothing else. -/
theorem issuesVerdict_snd (w : Workspace) (b : Bag) :
    (b.issuesVerdict w).2 = { w with issues := w.issues.filter fun i => !b.dismisses w i } := by
  -- A bag that lacks an entry handles nothing, so nothing is dismissed.
  have hnone : (∀ i, b.handles i = false) →
      w = { w with issues := w.issues.filter fun i => !b.dismisses w i } := by
    intro h
    have hkept : ∀ i ∈ w.issues, (!b.dismisses w i) = true := by simp [dismisses, h]
    rw [List.filter_eq_self.2 hkept]
  obtain ⟨code, returnType, issues⟩ := b
  cases issues with
  | none => exact hnone fun _ => rfl
  | some expected =>
    cases code with
    | none => exact hnone fun _ => rfl
    | some block =>
      have hfile : ∀ i ∈ w.issues.filter (expected.handles block.location),
          i.location.file = expected.location.file := by
        intro i hi
        have h := (List.mem_filter.1 hi).2
        simp only [ExpectedIssues.handles, Bool.and_eq_true, beq_iff_eq] at h
        exact h.1.1
      have hrun := foldl_dismiss hfile w
      rw [← ExpectedIssues.handled_eq] at hrun
      refine hrun.trans ?_
      rw [ExpectedIssues.handled_eq]
      rfl

theorem issuesVerdict_fst_congr {b : Bag} {w w' : Workspace}
    (h : w.issues.filter b.handles = w'.issues.filter b.handles) :
    (b.issuesVerdict w).1 = (b.issuesVerdict w').1 := by
  obtain ⟨code, returnType, issues⟩ := b
  cases issues with
  | none => rfl
  | some expected =>
    cases code with
    | none => rfl
    | some block =>
      have hhandled : expected.handled block.location w = expected.handled block.location w' := by
        rw [ExpectedIssues.handled_eq, ExpectedIssues.handled_eq]
        exact h
      simp only [issuesVerdict, hhandled]

theorem returnVerdict?_congr {w w' : Workspace} (h : w.classes = w'.classes) (b : Bag) :
    b.returnVerdict? w = b.returnVerdict? w' := by
  unfold returnVerdict? Workspace.contains
  rw [h]

/-- Two workspaces in which the bag handles the same issues give the same verdicts. -/
theorem verdicts_congr {b : Bag} {w w' : Workspace} (hclasses : w.classes = w'.classes)
    (hhandled : w.issues.filter b.handles = w'.issues.filter b.handles) :
    (b.verdicts w).1 = (b.verdicts w').1 := by
  unfold verdicts
  rw [returnVerdict?_congr hclasses, issuesVerdict_fst_congr hhandled]

/-- Judging drops the dismissed issues and adds the verdicts behind the others. -/
theorem judge_eq (w : Workspace) (b : Bag) :
    b.judge w = { w with issues := (w.issues.filter fun i => !b.dismisses w i) ++
      (b.verdicts w).1 } := by
  have hsnd : (b.verdicts w).2 = { w with issues := w.issues.filter fun i => !b.dismisses w i } :=
    issuesVerdict_snd w b
  rw [judge, Workspace.foldl_report, hsnd]

theorem exists_foldl_judge_eq (bags : List Bag) (w : Workspace) :
    ∃ issues, bags.foldl judge w = { w with issues := issues } := by
  induction bags generalizing w with
  | nil => exact ⟨w.issues, rfl⟩
  | cons b rest ih =>
    obtain ⟨issues, h⟩ := ih (b.judge w)
    exact ⟨issues, by rw [List.foldl_cons, h, judge_eq]⟩

/-- A verdict stands where the expectation that failed was stated. -/
theorem mem_verdicts {b : Bag} {w : Workspace} {i : Issue} (h : i ∈ (b.verdicts w).1) :
    (∃ e ∈ b.returnType, i.kind = Message.returnTypeMismatch.kind ∧ i.location = e.location) ∨
      ∃ e ∈ b.issues, i.kind = Message.missingIssues.kind ∧ i.location = e.location := by
  obtain ⟨code, returnType, issues⟩ := b
  rcases List.mem_append.1 h with h | h
  · left
    cases code with
    | none => simp [returnVerdict?] at h
    | some block =>
      cases returnType with
      | none => simp [returnVerdict?] at h
      | some e =>
        refine ⟨e, rfl, ?_⟩
        simp only [returnVerdict?, Option.bind_eq_bind, Option.bind_some] at h
        generalize (if e.invariant = true then block.returns.isEqual e.type
          else w.contains block.returns e.type) = holds at h
        cases holds with
        | true => cases h
        | false =>
          obtain rfl := List.mem_singleton.1 h
          exact ⟨rfl, rfl⟩
  · right
    cases issues with
    | none => simp [issuesVerdict] at h
    | some e =>
      cases code with
      | none => simp [issuesVerdict] at h
      | some block =>
        refine ⟨e, rfl, ?_⟩
        simp only [issuesVerdict] at h
        split at h
        · cases h
        · obtain rfl := List.mem_singleton.1 h
          exact ⟨rfl, rfl⟩

end Bag

/-! ### What is dismissed beside the handled issues -/

private theorem filter_eq_filter_iff {α : Type} {p q : α → Bool} {l : List α} :
    l.filter p = l.filter q ↔ ∀ x ∈ l, p x = q x := by
  constructor
  · intro h x hx
    have hmem : x ∈ l.filter p ↔ x ∈ l.filter q := by rw [h]
    simp only [List.mem_filter, hx, true_and] at hmem
    exact Bool.eq_iff_iff.2 hmem
  · exact List.filter_congr

theorem Bag.issues_issuesVerdict (w : Workspace) (b : Bag) :
    (b.issuesVerdict w).2 = { w with issues := w.issues.filter fun i => !b.dismisses w i } ∧
      ((b.issuesVerdict w).2.issues = w.issues.filter (fun i => !b.handles i) ↔
        ∀ i ∈ w.issues, ∀ j ∈ w.issues, b.handles j = true → i.coincides j = true →
          b.handles i = true) := by
  refine ⟨issuesVerdict_snd w b, ?_⟩
  rw [issuesVerdict_snd, filter_eq_filter_iff]
  constructor
  · intro h i hi j hj hhandled hij
    have hdismissed : b.dismisses w i = true := dismisses_iff.2 ⟨j, hj, hhandled, hij⟩
    have hsame := h i hi
    rw [hdismissed] at hsame
    simpa using hsame.symm
  · intro h i hi
    by_cases hhandled : b.handles i = true
    · rw [hhandled, dismisses_of_handles hi hhandled]
    · have hkept : ¬ b.dismisses w i = true := by
        intro hdismissed
        obtain ⟨j, hj, hjhandled, hij⟩ := dismisses_iff.1 hdismissed
        exact hhandled (h i hi j hj hjhandled hij)
      rw [Bool.eq_false_iff.2 hhandled, Bool.eq_false_iff.2 hkept]

/-- The bag of a block from 100 to 200 that is expected to raise `K: m`. -/
private def shortBag : Bag where
  code := some ⟨.between "test" 100 200, .single (.keyword .void)⟩
  issues := some ⟨.between "test" 250 280, [⟨"K", "m"⟩]⟩

/-- The expected issue, one with another message at the same place, and one
that reaches outside the block. -/
private def crowded : Workspace where
  file := "test"
  issues := [.error "K" "m" (.between "test" 120 130), .error "K" "other" (.between "test" 120 130),
    .error "K" "m" (.between "test" 120 210)]

/-- Only the first issue is handled, but all three are dismissed. -/
theorem Bag.issuesVerdict_crowded :
    (shortBag.issuesVerdict crowded).2.issues = [] ∧
      crowded.issues.filter (fun i => !shortBag.handles i) =
        [.error "K" "other" (.between "test" 120 130), .error "K" "m" (.between "test" 120 210)] := by
  decide +kernel

end TypeProbe
