import Mathlib.Data.List.Basic
import Mathlib.Data.List.Perm.Basic
import TypeProbe.Proofs.Assertion.Handled
import TypeProbe.Proofs.Assertion.Missing
import TypeProbe.Session

/-!
# The order in which bags are judged

Bags with blocks apart from each other do not see what judging the others does, if no bag expects an
issue of the kind of a verdict: what one bag dismisses starts in its own block, and no verdict is
handled or dismissed.  So each bag gives the verdicts that it would give alone, and the issues that
stay are those that no bag dismisses (`Bag.foldl_judge`).  Another order changes the order of the
verdicts only (`Session.afterBody_of_perm`).
-/

namespace TypeProbe

/-- Whether one location ends before the other starts. -/
def Location.IsApartFrom (l m : Location) : Prop :=
  l.stop < m.start ∨ m.stop < l.start

namespace Bag

/-- Whether the blocks of two bags are apart. -/
def IsApartFrom (b c : Bag) : Prop :=
  ∀ x ∈ b.code, ∀ y ∈ c.code, x.location.IsApartFrom y.location

/-- Whether no expected issue is of the kind of a verdict, nor of one that a key does not show. -/
def ExpectsNoVerdict (b : Bag) : Prop :=
  ∀ expected ∈ b.issues, ∀ e ∈ expected.issues,
    ']' ∉ e.kind.toList ∧ e.kind ≠ Message.returnTypeMismatch.kind ∧ e.kind ≠ Message.missingIssues.kind

theorem IsApartFrom.symm {b c : Bag} (h : b.IsApartFrom c) : c.IsApartFrom b :=
  fun y hy x hx => (h x hx y hy).symm

/-! ### What one bag does to another one -/

/-- What a bag handles is not of the kind of a verdict. -/
private theorem kind_ne_of_handles {c : Bag} {i : Issue} (hc : c.ExpectsNoVerdict)
    (hi : c.handles i = true) :
    i.kind ≠ Message.returnTypeMismatch.kind ∧ i.kind ≠ Message.missingIssues.kind := by
  obtain ⟨expected, hexpected, -, -, -, ⟨e, he, hkey⟩, -⟩ := handles_iff.1 hi
  obtain ⟨hbracket, hreturn, hissues⟩ := hc expected hexpected e he
  constructor
  · intro hkind
    rw [hkind] at hkey
    exact hreturn ((issueKey_inj hbracket (by decide)).1 hkey).1
  · intro hkind
    rw [hkind] at hkey
    exact hissues ((issueKey_inj hbracket (by decide)).1 hkey).1

/-- A verdict coincides with nothing that a bag handles. -/
private theorem not_coincides_verdict {b c : Bag} {w : Workspace} {i j : Issue}
    (hc : c.ExpectsNoVerdict) (hi : i ∈ (b.verdicts w).1) (hj : c.handles j = true) :
    ¬ i.coincides j = true := by
  intro hij
  obtain ⟨hreturn, hissues⟩ := kind_ne_of_handles hc hj
  rw [← (Issue.coincides_iff.1 hij).2.1] at hreturn hissues
  rcases mem_verdicts hi with ⟨-, -, hkind, -⟩ | ⟨-, -, hkind, -⟩
  · exact hreturn hkind
  · exact hissues hkind

private theorem not_handles_verdict {b c : Bag} {w : Workspace} {i : Issue} (hc : c.ExpectsNoVerdict)
    (hi : i ∈ (b.verdicts w).1) : ¬ c.handles i = true :=
  fun h => not_coincides_verdict hc hi h (Issue.coincides_iff.2 ⟨rfl, rfl, rfl⟩)

private theorem not_dismisses_verdict {b c : Bag} {w w' : Workspace} {i : Issue}
    (hc : c.ExpectsNoVerdict) (hi : i ∈ (b.verdicts w).1) : ¬ c.dismisses w' i = true := by
  intro h
  obtain ⟨j, -, hj, hij⟩ := dismisses_iff.1 h
  exact not_coincides_verdict hc hi hj hij

/-- What a bag dismisses starts in its block, so another block does not hold it. -/
private theorem not_dismisses_of_handles {b c : Bag} {w : Workspace} {i : Issue} (hbc : b.IsApartFrom c)
    (hi : c.handles i = true) : ¬ b.dismisses w i = true := by
  intro h
  obtain ⟨j, -, hj, hij⟩ := dismisses_iff.1 h
  obtain ⟨-, -, block, hblock, -, -, hjstart, hjstop⟩ := handles_iff.1 hj
  obtain ⟨-, -, other, hother, -, -, histart, histop⟩ := handles_iff.1 hi
  have hstart : i.location.start = j.location.start := (Issue.coincides_iff.1 hij).2.2
  have hi' := i.location.start_le_stop
  have hj' := j.location.start_le_stop
  rcases hbc block hblock other hother with hlt | hlt <;> omega

/-- Judging a bag leaves the issues that a bag apart from it handles as they are. -/
theorem filter_handles_judge {b c : Bag} (hbc : b.IsApartFrom c) (hc : c.ExpectsNoVerdict)
    (w : Workspace) : (b.judge w).issues.filter c.handles = w.issues.filter c.handles := by
  have hverdicts : (b.verdicts w).1.filter c.handles = [] :=
    List.filter_eq_nil_iff.2 fun i hi => not_handles_verdict hc hi
  rw [judge_eq, List.filter_append, hverdicts, List.append_nil, List.filter_filter]
  refine List.filter_congr fun i _ => ?_
  by_cases hi : c.handles i = true
  · rw [hi, Bool.eq_false_iff.2 (not_dismisses_of_handles hbc hi)]
    rfl
  · rw [Bool.eq_false_iff.2 hi, Bool.false_and]

theorem classes_judge (w : Workspace) (b : Bag) : (b.judge w).classes = w.classes := by
  rw [judge_eq]

/-! ### Judging one bag after the other -/

/-- A bag gives the verdicts that it would give alone, whatever bags
apart from it are judged before. -/
theorem verdicts_foldl_judge {before : List Bag} {c : Bag} (hapart : ∀ b ∈ before, b.IsApartFrom c)
    (hc : c.ExpectsNoVerdict) (w : Workspace) :
    (c.verdicts (before.foldl judge w)).1 = (c.verdicts w).1 := by
  induction before generalizing w with
  | nil => rfl
  | cons b rest ih =>
    rw [List.foldl_cons, ih fun d hd => hapart d (List.mem_cons_of_mem _ hd)]
    exact verdicts_congr (classes_judge w b) (filter_handles_judge (hapart b List.mem_cons_self) hc w)

/-- Judging bags drops the issues that one of them dismisses and adds the
verdicts of each behind the others. -/
theorem foldl_judge {bags : List Bag} (hapart : bags.Pairwise IsApartFrom)
    (hkinds : ∀ b ∈ bags, b.ExpectsNoVerdict) (w : Workspace) :
    bags.foldl judge w =
      { w with issues := (w.issues.filter fun i => !bags.any fun b => b.dismisses w i) ++
          bags.flatMap fun b => (b.verdicts w).1 } := by
  induction bags generalizing w with
  | nil => simp
  | cons b rest ih =>
    obtain ⟨hb, hrest⟩ := List.pairwise_cons.1 hapart
    have hkinds' : ∀ c ∈ rest, c.ExpectsNoVerdict := fun c hc => hkinds c (List.mem_cons_of_mem _ hc)
    have hhandled : ∀ c ∈ rest, (b.judge w).issues.filter c.handles = w.issues.filter c.handles :=
      fun c hc => filter_handles_judge (hb c hc) (hkinds' c hc) w
    have hverdicts : rest.flatMap (fun c => (c.verdicts (b.judge w)).1) =
        rest.flatMap fun c => (c.verdicts w).1 :=
      List.flatMap_congr fun c hc => verdicts_congr (classes_judge w b) (hhandled c hc)
    have hdismisses : ∀ i, (rest.any fun c => c.dismisses (b.judge w) i) =
        rest.any fun c => c.dismisses w i := by
      intro i
      rw [Bool.eq_iff_iff, List.any_eq_true, List.any_eq_true]
      exact exists_congr fun c => and_congr_right fun hc => by rw [dismisses_congr (hhandled c hc)]
    -- The verdicts of the first bag stay, the other issues are dropped in two steps.
    have hkept : (b.verdicts w).1.filter (fun i => !rest.any fun c => c.dismisses w i) =
        (b.verdicts w).1 := by
      refine List.filter_eq_self.2 fun i hi => ?_
      rw [Bool.not_eq_true', List.any_eq_false]
      exact fun c hc => not_dismisses_verdict (hkinds' c hc) hi
    rw [List.foldl_cons, ih hrest hkinds', hverdicts]
    simp only [hdismisses]
    rw [judge_eq]
    simp only [List.filter_append, hkept, List.filter_filter, List.any_cons, Bool.not_or,
      List.flatMap_cons, List.append_assoc]
    congr 2
    exact List.filter_congr fun i _ => Bool.and_comm _ _

end Bag

/-- After a body, whatever the order of the bags of the class: the issues that stay are those that
no bag dismisses, behind them stand the verdicts of one bag after the other, and each bag gives
those that it would give alone. -/
theorem Session.afterBody_of_perm {bags : List Bag} (hapart : bags.Pairwise Bag.IsApartFrom)
    (hkinds : ∀ b ∈ bags, b.ExpectsNoVerdict) (w : Workspace) {s : Session} {self : Option String}
    {className : String} (hself : testClass? s.settings w self = some className)
    (hperm : (s.pending.take className).1.Perm bags) :
    (s.afterBody w .method self).2 =
        { w with issues := (w.issues.filter fun i => !bags.any fun b => b.dismisses w i) ++
            (s.pending.take className).1.flatMap fun b => (b.verdicts w).1 } ∧
      ∀ before b after, (s.pending.take className).1 = before ++ b :: after →
        (b.verdicts (before.foldl Bag.judge w)).1 = (b.verdicts w).1 := by
  have hapart' : (s.pending.take className).1.Pairwise Bag.IsApartFrom :=
    (hperm.pairwise_iff Bag.IsApartFrom.symm).2 hapart
  have hkinds' : ∀ b ∈ (s.pending.take className).1, b.ExpectsNoVerdict :=
    fun b hb => hkinds b (hperm.mem_iff.1 hb)
  constructor
  · have hrun : (s.afterBody w .method self).2 = (s.pending.take className).1.foldl Bag.judge w := by
      simp only [Session.afterBody, hself]
    rw [hrun, Bag.foldl_judge hapart' hkinds']
    simp only [hperm.any_eq]
  · intro before b after hsplit
    rw [hsplit] at hapart' hkinds'
    obtain ⟨-, -, hbefore⟩ := List.pairwise_append.1 hapart'
    refine Bag.verdicts_foldl_judge (fun c hc => hbefore c hc b List.mem_cons_self)
      (hkinds' b (by simp)) w

/-- The bag of a block from `start` to `start + 10` that is expected to raise an issue. -/
private def blockBag (start : Nat) (message : String) : Bag where
  code := some ⟨.between "test" start (start + 10), .single (.keyword .void)⟩
  issues := some ⟨.between "test" (start + 10) (start + 15), [⟨"K", message⟩]⟩

/-- A test class with the expected issue of the first block in both blocks. -/
private def twoBlocks : Workspace where
  file := "test"
  classes := ClassTable.ofList [("T", [({} : Settings).testBaseClass])]
  issues := [.error "K" "m" (.between "test" 5 8), .error "K" "m" (.between "test" 25 28)]

/-- The bag of the second block is taken first. -/
private def secondFirst : Session where
  pending := ⟨[(⟨"T", "b"⟩, blockBag 20 "n"), (⟨"T", "a"⟩, blockBag 0 "m")]⟩

theorem Session.afterBody_of_perm_secondFirst :
    [blockBag 0 "m", blockBag 20 "n"].Pairwise Bag.IsApartFrom ∧
      (∀ b ∈ [blockBag 0 "m", blockBag 20 "n"], b.ExpectsNoVerdict) ∧
      (secondFirst.pending.take "T").1.Perm [blockBag 0 "m", blockBag 20 "n"] ∧
      (secondFirst.afterBody twoBlocks .method (some "T")).2.issues =
        [.error "K" "m" (.between "test" 25 28),
          Message.missingIssues.issue (.between "test" 30 35) ["\n[K]: n"]] := by
  have hapart : [blockBag 0 "m", blockBag 20 "n"].Pairwise Bag.IsApartFrom := by
    simp [Bag.IsApartFrom, Location.IsApartFrom, blockBag, Location.between]
  have hkinds : ∀ b ∈ [blockBag 0 "m", blockBag 20 "n"], b.ExpectsNoVerdict := by
    intro b hb expected hexpected e he
    rcases List.mem_pair.1 hb with rfl | rfl <;> obtain rfl := Option.some.inj hexpected <;>
      obtain rfl := List.mem_singleton.1 he <;> decide
  have hself : testClass? secondFirst.settings twoBlocks (some "T") = some "T" := by decide +kernel
  have hperm : (secondFirst.pending.take "T").1.Perm [blockBag 0 "m", blockBag 20 "n"] :=
    List.Perm.swap _ _ _
  have hrun := (Session.afterBody_of_perm hapart hkinds twoBlocks hself hperm).1
  refine ⟨hapart, hkinds, hperm, (congrArg Workspace.issues hrun).trans ?_⟩
  decide +kernel

end TypeProbe
