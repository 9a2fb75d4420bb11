import TypeProbe.Assertion.Verdict
import TypeProbe.Proofs.Classes.Ancestors
import TypeProbe.Proofs.Containment.Agreement
import TypeProbe.Proofs.Identity.Matching

/-!
# Expectations by identity and by containment

An invariant expectation compares identities, another one asks for containment.  The first is the
stronger one if the types agree in structure, or if both are legible.  The identity of other types
leaves out brackets, quotes or keys that their parts need, so an expectation may be met by identity
though the types have nothing to do with each other.
-/

namespace TypeProbe

/-- The bag with its expectation, if any, made invariant or not. -/
def Bag.withInvariant (b : Bag) (invariant : Bool) : Bag :=
  { b with returnType := b.returnType.map fun e => { e with invariant := invariant } }

/-- There is no verdict on a bag that lacks an entry, or whose types agree in the sense asked for. -/
private theorem returnVerdict?_withInvariant_iff {w : Workspace} {b : Bag} {invariant : Bool} :
    (b.withInvariant invariant).returnVerdict? w = none ↔
      ∀ block ∈ b.code, ∀ e ∈ b.returnType,
        (if invariant then block.returns.isEqual e.type else w.contains block.returns e.type) =
          true := by
  obtain ⟨code, returnType, issues⟩ := b
  cases code with
  | none => simp [Bag.withInvariant, Bag.returnVerdict?]
  | some block =>
    cases returnType with
    | none => simp [Bag.withInvariant, Bag.returnVerdict?]
    | some e => cases invariant <;> simp [Bag.withInvariant, Bag.returnVerdict?]

/-- An expectation that is met by identity is met by containment, both ways, if the
types agree or are legible. -/
theorem Bag.returnVerdict?_withInvariant (w : Workspace) (b : Bag)
    (hcode : ∀ block ∈ b.code, block.returns.IsProper ∧ block.returns.NestsWithin (depthLimit + 1))
    (hreturn : ∀ e ∈ b.returnType, e.type.IsProper ∧ e.type.NestsWithin (depthLimit + 1))
    (hread : ∀ block ∈ b.code, ∀ e ∈ b.returnType,
      block.returns.Agrees e.type ∨ block.returns.IsLegible ∧ e.type.IsLegible)
    (hv : (b.withInvariant true).returnVerdict? w = none) :
    (b.withInvariant false).returnVerdict? w = none ∧
      ∀ block ∈ b.code, ∀ e ∈ b.returnType,
        w.contains block.returns e.type = true ∧ w.contains e.type block.returns = true := by
  have hh : ∀ name, w.classes.hierarchy name name = true := w.classes.hierarchy_self
  have hcontains : ∀ block ∈ b.code, ∀ e ∈ b.returnType,
      w.contains block.returns e.type = true ∧ w.contains e.type block.returns = true := by
    intro block hblock e he
    have heq : block.returns.isEqual e.type = true :=
      returnVerdict?_withInvariant_iff.1 hv block hblock e he
    have hagrees : block.returns.Agrees e.type := by
      rcases hread block hblock e he with h | ⟨hs, ht⟩
      · exact h
      · have hsame : block.returns.SameText e.type := ⟨hs, ht, eq_of_beq heq⟩
        exact hsame.agrees
    obtain ⟨hs, hns⟩ := hcode block hblock
    obtain ⟨ht, hnt⟩ := hreturn e he
    exact ⟨hagrees.within hh hs ht hns hnt, hagrees.symm.within hh ht hs hnt hns⟩
  exact ⟨returnVerdict?_withInvariant_iff.2 fun block hblock e he =>
    (hcontains block hblock e he).1, hcontains⟩

/-- The bag of a block that returns `s` where `t` is expected. -/
private def bagOf (s t : Ty) : Bag where
  code := some ⟨.between "test" 0 1, s⟩
  returnType := some ⟨.between "test" 2 3, t, true⟩

/-- A function with a parameter that may be left out, which gives an instance of `A` and of `B`. -/
private def factory : Atom :=
  .callable ⟨[⟨"x", some (.single (.keyword .int)), false, false, true⟩],
    some (.single (.object ⟨"A", [.object ⟨"B", []⟩]⟩)), false, true⟩

private theorem isLegible_single {a : Atom} (h : a.IsLegible) : (Ty.single a).IsLegible :=
  ⟨List.cons_ne_nil _ _, fun _ hb => List.mem_singleton.1 hb ▸ h⟩

private theorem isLegible_factory : factory.IsLegible := by
  have hB : (Atom.object ⟨"B", []⟩).IsLegible :=
    .of_parts ⟨(by decide : isClassName "B" = true), by simp [Atom.facets], by simp [Atom.tail?],
      by simp [Atom.types]⟩
      (by simp [Atom.facets]) (by simp [Atom.types])
  have hA : (Atom.object ⟨"A", [.object ⟨"B", []⟩]⟩).IsLegible := by
    refine .of_parts
      ⟨(by decide : isClassName "A" = true), ?_, by simp [Atom.tail?], by simp [Atom.types]⟩ ?_
      (by simp [Atom.types])
    · rintro f hf
      obtain rfl := List.mem_singleton.1 hf
      exact ⟨rfl, by simp [Atom.tail?]⟩
    · rintro f hf
      exact List.mem_singleton.1 hf ▸ hB
  have htypes : ∀ t ∈ factory.types, t.IsLegible := by
    rintro t ht
    rcases List.mem_pair.1 ht with rfl | rfl
    · exact isLegible_single (Atom.isLegible_keyword .int)
    · exact isLegible_single hA
  refine .of_parts ⟨trivial, by simp [factory, Atom.facets], ?_, fun t ht => (htypes t ht).1⟩
    (by simp [factory, Atom.facets]) htypes
  rintro t ⟨⟩
  exact ⟨_, rfl⟩

/-- The function or nothing, where nothing or the function is expected. -/
private def factoryBag : Bag :=
  bagOf ⟨[factory, .keyword .null], false⟩ ⟨[.keyword .null, factory], true⟩

theorem Bag.returnVerdict?_withInvariant_factory :
    (factoryBag.withInvariant true).returnVerdict? { file := "test" } = none ∧
      (factoryBag.withInvariant false).returnVerdict? { file := "test" } = none := by
  have hs : (⟨[factory, .keyword .null], false⟩ : Ty).IsLegible :=
    ⟨by simp, by simp [isLegible_factory, Atom.isLegible_keyword]⟩
  have ht : (⟨[.keyword .null, factory], true⟩ : Ty).IsLegible :=
    ⟨by simp, by simp [isLegible_factory, Atom.isLegible_keyword]⟩
  have hv : (factoryBag.withInvariant true).returnVerdict? { file := "test" } = none := by
    decide +kernel
  refine ⟨hv, (Bag.returnVerdict?_withInvariant _ _ ?_ ?_ ?_ hv).1⟩
  · rintro block ⟨⟩
    exact ⟨hs.isProper, by decide +kernel⟩
  · rintro e ⟨⟩
    exact ⟨ht.isProper, by decide +kernel⟩
  · rintro block ⟨⟩ e ⟨⟩
    exact .inr ⟨hs, ht⟩

/-! ### Identities that can be read in two ways -/

private def object (name : String) (facets : List Atom) : Atom :=
  .object ⟨name, facets⟩

/-- A callable without parameters. -/
private def giving (result : Ty) : Atom :=
  .callable ⟨[], some result, false, false⟩

/-- A function that gives an integer, or a text. -/
private def givingOrText : Ty :=
  ⟨[giving (.single (.keyword .int)), .keyword .string], false⟩

/-- A function that gives an integer or a text. -/
private def givingEither : Ty :=
  .single (giving ⟨[.keyword .int, .keyword .string], false⟩)

theorem Bag.returnVerdict?_givingEither :
    ((bagOf givingOrText givingEither).withInvariant true).returnVerdict? { file := "test" } = none ∧
      (((bagOf givingOrText givingEither).withInvariant false).returnVerdict?
        { file := "test" }).isSome = true ∧
      givingOrText.NestsWithin 2 ∧ givingEither.NestsWithin 2 := by
  have hnone :
      (((bagOf givingOrText givingEither).withInvariant true).returnVerdict?
        { file := "test" }).isNone = true := by decide +kernel
  exact ⟨Option.isNone_iff_eq_none.1 hnone, by decide +kernel, by decide +kernel, by decide +kernel⟩

/-- Pairs of types of one identity.  Each shows a part whose end cannot be seen: the result of a
callable and the bound of a template parameter with several atoms, the facets of a facet and of what
stands at its end, a quote in a text and in a key, and the keys of a record that are not written. -/
private def confusable : List (Ty × Ty) :=
  [(givingOrText, givingEither),
    (⟨[.template "T" "f" (.single (.keyword .int)), .keyword .string], false⟩,
      .single (.template "T" "f" ⟨[.keyword .int, .keyword .string], false⟩)),
    (.single (object "A" [object "B" [object "C" []]]),
      .single (object "A" [object "B" [], object "C" []])),
    (.single (object "A" [giving (.single (object "B" [object "C" []]))]),
      .single (object "A" [giving (.single (object "B" [])), object "C" []])),
    (.single (.literal (.string "a'|'b")), ⟨[.literal (.string "a"), .literal (.string "b")], false⟩),
    (.single (.record (.ofFields [(.string "a-b': int, 'c-d", .single (.keyword .int))] true)),
      .single (.record (.ofFields [(.string "a-b", .single (.keyword .int)),
        (.string "c-d", .single (.keyword .int))] true))),
    (.single (.record ⟨[(.string "a", .single (.keyword .int))], true, true⟩),
      .single (.record (.ofFields [(.int 0, .single (.keyword .int))] true)))]

/-- Every one of these expectations is met by identity and not by containment. -/
example :
    ∀ p ∈ confusable, p.1.NestsWithin 2 ∧ p.2.NestsWithin 2 ∧
      (((bagOf p.1 p.2).withInvariant true).returnVerdict? { file := "test" }).isNone = true ∧
      (((bagOf p.1 p.2).withInvariant false).returnVerdict? { file := "test" }).isSome = true := by
  decide +kernel

end TypeProbe
