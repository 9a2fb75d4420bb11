import TypeProbe.Assertion.Verdict
import TypeProbe.Proofs.Identity.Alike

/-!
# An invariant expectation does not see how unions are written

An invariant expectation compares identities, and so do the texts of the issue it raises.
Alike types have one identity, so a bag may be replaced by one with alike types
(`Bag.Alike`): it is judged in the same way, whatever the workspace
(`Bag.Alike.returnVerdict?_eq`, `Bag.Alike.judge_eq`).
-/

namespace TypeProbe

/-! ### Unions built from the same identities -/

/-- The union built from some atoms has the identity that their identities determine. -/
theorem Ty.exists_ofAtoms?_identity_eq {xs ys : List Atom} (hxs : xs ≠ [])
    (h : ∀ x, x ∈ xs.map Atom.identity ↔ x ∈ ys.map Atom.identity) :
    ∃ s t, Ty.ofAtoms? xs = some s ∧ Ty.ofAtoms? ys = some t ∧ s.identity = t.identity := by
  have hys : ys ≠ [] := by
    rintro rfl
    obtain ⟨a, ha⟩ := List.exists_mem_of_ne_nil xs hxs
    have hmem : a.identity ∈ [] := (h a.identity).1 (List.mem_map_of_mem ha)
    cases hmem
  refine ⟨_, _, Ty.ofAtoms?_eq hxs, Ty.ofAtoms?_eq hys, Ty.identity_eq_of_mem_iff fun x => ?_⟩
  rw [Atom.distinct, Atom.distinct, mem_map_distinctBy, mem_map_distinctBy, h]

/-! ### Bags that are written differently -/

/-- The bags differ at most in how the unions in their types are written. -/
structure Bag.Alike (b c : Bag) : Prop where
  code : Option.Rel (fun x y : CodeBlock => x.location = y.location ∧ x.returns.Alike y.returns)
    b.code c.code
  returnType : Option.Rel
    (fun e f : ExpectedReturn => e.location = f.location ∧ e.invariant = f.invariant ∧
      e.type.Alike f.type)
    b.returnType c.returnType
  issues : b.issues = c.issues

theorem Ty.Alike.isEqual_eq {s s' t t' : Ty} (hs : s.Alike s') (ht : t.Alike t') :
    s.isEqual t = s'.isEqual t' := by
  rw [Ty.isEqual, Ty.isEqual, hs.identity_eq, ht.identity_eq]

/-- An invariant expectation gives the same verdict.  The classes are not asked,
so the workspaces may differ. -/
theorem Bag.Alike.returnVerdict?_eq {b c : Bag} (h : b.Alike c)
    (hb : ∀ e ∈ b.returnType, e.invariant = true) (w w' : Workspace) :
    b.returnVerdict? w = c.returnVerdict? w' := by
  obtain ⟨code, returnType, issues⟩ := b
  obtain ⟨code', returnType', issues'⟩ := c
  obtain ⟨hcode, hreturn, -⟩ := h
  cases hcode with
  | none => simp [Bag.returnVerdict?]
  | @some block block' hblock =>
    cases hreturn with
    | none => simp [Bag.returnVerdict?]
    | @some e e' he =>
      obtain ⟨-, hblock⟩ := hblock
      obtain ⟨hlocation, hinvariant, htype⟩ := he
      have hinv : e.invariant = true := hb e rfl
      have hinv' : e'.invariant = true := hinvariant ▸ hinv
      have hequal : block.returns.isEqual e.type = block'.returns.isEqual e'.type :=
        hblock.isEqual_eq htype
      simp only [Bag.returnVerdict?, bind, Option.bind, hinv, hinv', if_true, hequal, hlocation,
        hblock.identity_eq, htype.identity_eq]

theorem Bag.Alike.issuesVerdict_eq {b c : Bag} (h : b.Alike c) (w : Workspace) :
    b.issuesVerdict w = c.issuesVerdict w := by
  obtain ⟨code, returnType, issues⟩ := b
  obtain ⟨code', returnType', issues'⟩ := c
  obtain ⟨hcode, -, rfl⟩ := h
  cases hcode with
  | none => rfl
  | @some block block' hblock =>
    cases issues with
    | none => rfl
    | some expected => simp only [Bag.issuesVerdict, hblock.1]

theorem Bag.Alike.judge_eq {b c : Bag} (h : b.Alike c) (hb : ∀ e ∈ b.returnType, e.invariant = true)
    (w : Workspace) : b.judge w = c.judge w := by
  have hreturn : b.returnVerdict? w = c.returnVerdict? w := h.returnVerdict?_eq hb w w
  rw [Bag.judge, Bag.judge, Bag.verdicts, Bag.verdicts, hreturn, h.issuesVerdict_eq w]

/-- How unions are written does not show in identities: not in those of types that are alike, nor in
those of unions built from atoms of the same identities.  So it shows neither in equality nor in the
judgement of bags whose expectation, if any, is invariant. -/
theorem Ty.identity_ignores_writingOrder :
    (∀ s t : Ty, s.Alike t → s.identity = t.identity) ∧
      (∀ xs ys : List Atom, xs ≠ [] → (∀ x, x ∈ xs.map Atom.identity ↔ x ∈ ys.map Atom.identity) →
        ∃ s t, Ty.ofAtoms? xs = some s ∧ Ty.ofAtoms? ys = some t ∧ s.identity = t.identity) ∧
      (∀ s s' t t' : Ty, s.Alike s' → t.Alike t' → s.isEqual t = s'.isEqual t') ∧
      ∀ b c : Bag, b.Alike c → (∀ e ∈ b.returnType, e.invariant = true) →
        (∀ w w' : Workspace, b.returnVerdict? w = c.returnVerdict? w') ∧
          ∀ w : Workspace, b.judge w = c.judge w := by
  refine ⟨fun s t h => h.identity_eq, fun xs ys hxs h => Ty.exists_ofAtoms?_identity_eq hxs h,
    fun s s' t t' hs ht => hs.isEqual_eq ht, fun b c h hb => ⟨?_, ?_⟩⟩
  · exact h.returnVerdict?_eq hb
  · exact h.judge_eq hb

/-- One atom of each kind that has types inside, here the given one. -/
private def holders (t : Ty) : List Atom :=
  [.object ⟨"A", [.generic ⟨"B", []⟩ [t]]⟩, .record ⟨[(.string "a", t.asOptional)], true, false⟩,
    .callable ⟨[⟨"x", some t, false, false, true⟩], some t, true, false⟩, .template "T" "f" t,
    .array t t false, .list t true]

private theorem holders_alike {t u : Ty} (h : t.Alike u) :
    List.Forall₂ Atom.Alike (holders t) (holders u) := by
  have hfacet : (Atom.generic ⟨"B", []⟩ [t]).Alike (.generic ⟨"B", []⟩ [u]) :=
    Atom.generic_alike_iff.2 ⟨_, _, rfl, rfl, .nil, .cons h .nil⟩
  have hparam : Param.Alike ⟨"x", some t, false, false, true⟩ ⟨"x", some u, false, false, true⟩ :=
    ⟨.some h, rfl, rfl, rfl⟩
  have hfield : t.asOptional.Alike u.asOptional := by
    have hatoms := Ty.alike_iff.1 h
    exact Ty.alike_iff.2 hatoms
  refine .cons ?_ (.cons ?_ (.cons ?_ (.cons ?_ (.cons ?_ (.cons ?_ .nil)))))
  · exact Atom.object_alike_iff.2 ⟨_, rfl, rfl, .cons hfacet .nil⟩
  · exact Atom.record_alike_iff.2 ⟨_, rfl, .cons ⟨rfl, rfl, hfield⟩ .nil, rfl, rfl⟩
  · exact Atom.callable_alike_iff.2 ⟨_, rfl, .cons hparam .nil, .some h, rfl, rfl⟩
  · exact Atom.template_alike_iff.2 ⟨_, rfl, h⟩
  · exact Atom.array_alike_iff.2 ⟨_, _, rfl, h, h⟩
  · exact Atom.list_alike_iff.2 ⟨_, rfl, h⟩

private def intOrText : Ty :=
  ⟨[.keyword .int, .keyword .string], false⟩

private def textOrInt : Ty :=
  ⟨[.keyword .string, .keyword .int], true⟩

/-- The bag of a block that returns the type where an integer is expected. -/
private def returning (atoms : List Atom) : Bag where
  code := some ⟨.between "test" 0 1, ⟨atoms, false⟩⟩
  returnType := some ⟨.between "test" 2 3, .single (.keyword .int), true⟩

private theorem returning_alike {xs ys : List Atom} (h : (⟨xs, false⟩ : Ty).Alike ⟨ys, false⟩) :
    (returning xs).Alike (returning ys) where
  code := .some ⟨rfl, h⟩
  returnType := .some ⟨rfl, rfl, Ty.alike_refl _⟩
  issues := rfl

theorem Ty.identity_ignores_writingOrder_holders :
    (⟨holders intOrText, false⟩ : Ty).identity = (⟨(holders textOrInt).reverse, true⟩ : Ty).identity ∧
      (∃ s t, Ty.ofAtoms? (holders intOrText) = some s ∧
        Ty.ofAtoms? (holders intOrText ++ holders textOrInt) = some t ∧ s.identity = t.identity) ∧
      ∀ w : Workspace, (returning (holders intOrText)).judge w =
        (returning (holders textOrInt).reverse).judge w := by
  have halike : intOrText.Alike textOrInt := Ty.alike_of_perm (.swap _ _ _)
  have hall : List.Forall₂ Atom.Alike (holders intOrText) (holders textOrInt) := holders_alike halike
  have hmap : (holders intOrText).map Atom.identity = (holders textOrInt).map Atom.identity :=
    map_eq_of_forall₂ (fun a _ b _ hab => hab.identity_eq) hall
  have hreverse : ∀ optional, (⟨holders intOrText, false⟩ : Ty).Alike
      ⟨(holders textOrInt).reverse, optional⟩ :=
    fun optional => Ty.alike_iff.2 ⟨_, hall, (List.reverse_perm _).symm⟩
  obtain ⟨hid, hbuilt, -, hbags⟩ := Ty.identity_ignores_writingOrder
  refine ⟨hid _ _ (hreverse true), hbuilt _ _ (List.cons_ne_nil _ _) fun x => ?_, ?_⟩
  · rw [List.map_append, ← hmap, List.mem_append, or_self]
  · refine (hbags _ _ (returning_alike (hreverse false)) ?_).2
    rintro e ⟨⟩
    rfl

end TypeProbe
