import TypeProbe.Proofs.Builder.Calls
import TypeProbe.Proofs.Classes.Ancestors
import TypeProbe.Proofs.Containment.Agreement
import TypeProbe.Proofs.Containment.Unlimited

/-!
# How an intersection lies below its arguments

An intersection is the first object with the others as further facets.  It lies within the first
argument and within the class of each one.  The judgement looks at the classes of its facets and at
nothing else of them, so the facets and the type parameters of the other arguments are lost: the
intersection lies within such an argument if the classes it is made of reach the facets there and if
the type parameters of the first object are enough (`Builder.isWithin_intersection_iff`).
-/

namespace TypeProbe

/-! ### Objects within objects -/

/-- What the type parameters of the second object ask of the first one. -/
def Atom.ParamsFit (h : Hierarchy) : Atom → Atom → Prop
  | .generic o ts, .generic p us =>
    Ascii.same o.name p.name = true → List.Forall₂ (fun t u => t.isWithin h u = true) ts us
  | .object _, .generic _ us => ∀ u ∈ us, ∀ c ∈ u.atoms, c = .keyword .mixed
  | _, _ => True

/-- The object is an instance of the class and of all facets of the other one, and its type
parameters fit.  Below type parameters the judgement goes one type less deep than on types of their
own, which low ones do not see. -/
private theorem isWithin_object_iff {h : Hierarchy} {a b : Atom} {o p : ObjectType}
    (ha : a.object? = some o) (hb : b.object? = some p) (hta : ∀ t ∈ a.types, t.NestsWithin 32)
    (htb : ∀ u ∈ b.types, u.NestsWithin 32) (optional : Bool) :
    (Ty.single a).isWithin h ⟨[b], optional⟩ = true ↔ o.fits h p = true ∧ a.ParamsFit h b := by
  have hwithin : ∀ t ∈ a.types, ∀ u ∈ b.types, within h depthLimit t u = t.isWithin h u := by
    intro t ht u hu
    have hheights := Nat.add_le_add (Ty.height_le_iff.2 (hta t ht)) (Ty.height_le_iff.2 (htb u hu))
    have hinside : within h depthLimit t u = t.liesWithin h u :=
      within_eq_liesWithin (by rw [depthLimit]; omega)
    have hwhole : t.isWithin h u = t.liesWithin h u := within_eq_liesWithin (by rw [depthLimit]; omega)
    rw [hinside, hwhole]
  have hbound : a.bound? = none := by
    cases a with
    | template name scope bound => cases ha
    | _ => rfl
  rw [Ty.isWithin_single_iff hbound]
  cases a with
  | object q =>
    obtain rfl := Option.some.inj ha
    cases b with
    | object p' =>
      obtain rfl := Option.some.inj hb
      simp [Atom.FitsIn, Atom.fits_iff, Atom.rule, Atom.ParamsFit]
    | generic p' us =>
      obtain rfl := Option.some.inj hb
      simp [Atom.FitsIn, Atom.fits_iff, Atom.rule, Atom.ParamsFit, Atom.isMixed_iff]
    | _ => cases hb
  | generic q ts =>
    obtain rfl := Option.some.inj ha
    cases b with
    | object p' =>
      obtain rfl := Option.some.inj hb
      simp [Atom.FitsIn, Atom.fits_iff, Atom.rule, Atom.ParamsFit]
    | generic p' us =>
      obtain rfl := Option.some.inj hb
      have hparams : List.Forall₂ (fun t u => within h depthLimit t u = true) ts us ↔
          List.Forall₂ (fun t u => t.isWithin h u = true) ts us := by
        constructor
        · exact forall₂_imp_of_mem fun t ht u hu hw => (hwithin t ht u hu) ▸ hw
        · exact forall₂_imp_of_mem fun t ht u hu hw => (hwithin t ht u hu) ▸ hw
      cases hsame : Ascii.same q.name p'.name <;>
        simp [Atom.FitsIn, Atom.fits_iff, Atom.rule, Atom.ParamsFit, ObjectType.genericFits,
          Ty.pairwise_iff, hsame, hparams]
    | _ => cases hb
  | _ => cases ha

/-- Type parameters fit themselves. -/
theorem Atom.paramsFit_self (table : ClassTable) {a : Atom}
    (h : ∀ u ∈ a.types, u.IsProper ∧ u.NestsWithin 32) : a.ParamsFit table.hierarchy a := by
  cases a with
  | generic o ts =>
    intro _
    refine List.forall₂_same.2 fun t ht => ?_
    obtain ⟨hproper, hnests⟩ := h t ht
    exact Ty.isWithin_self (.inr ⟨table, rfl⟩) hproper (hnests.mono (by decide))
  | _ => exact trivial

/-! ### Further facets -/

theorem Atom.object?_withFacets {a : Atom} {o : ObjectType} (ha : a.object? = some o)
    (facets : List Atom) : (a.withFacets facets).object? = some ⟨o.name, o.facets ++ facets⟩ := by
  cases a with
  | object q => obtain rfl := Option.some.inj ha; rfl
  | generic q ts => obtain rfl := Option.some.inj ha; rfl
  | _ => cases ha

theorem Atom.types_withFacets (a : Atom) (facets : List Atom) :
    (a.withFacets facets).types = a.types := by
  cases a <;> rfl

theorem Atom.facets_eq {a : Atom} {o : ObjectType} (ha : a.object? = some o) : a.facets = o.facets := by
  cases a with
  | object q => obtain rfl := Option.some.inj ha; rfl
  | generic q ts => obtain rfl := Option.some.inj ha; rfl
  | _ => cases ha

/-- Type parameters fit or not whatever the facets are. -/
theorem Atom.paramsFit_withFacets_iff {h : Hierarchy} {a b : Atom} {facets : List Atom} :
    (a.withFacets facets).ParamsFit h b ↔ a.ParamsFit h b := by
  cases a <;> cases b <;> rfl

namespace Builder

/-- Of the classes that an intersection is made of, one is the given class or below it: that of the
first object, that of a facet of it or that of a further object. -/
def MeetReaches (h : Hierarchy) (first : Atom) (others : List Atom) (target : String) : Prop :=
  ∃ a ∈ first :: (first.facets ++ others), ∃ o, a.object? = some o ∧ h o.name target = true

theorem reaches_withFacets_iff {h : Hierarchy} {first : Atom} {o : ObjectType}
    (ho : first.object? = some o) {others : List Atom} {target : String} :
    (⟨o.name, o.facets ++ others⟩ : ObjectType).reaches h target = true ↔
      MeetReaches h first others target := by
  rw [ObjectType.reaches_iff, MeetReaches, Atom.facets_eq ho]
  simp [ho]

/-- The class of each argument is reached. -/
theorem MeetReaches.of_mem {h : Hierarchy} (hh : ∀ name, h name name = true) {first b : Atom}
    {others : List Atom} (hb : b ∈ first :: others) {p : ObjectType} (hp : b.object? = some p) :
    MeetReaches h first others p.name := by
  refine ⟨b, ?_, p, hp, hh p.name⟩
  rcases List.mem_cons.1 hb with rfl | hb
  · exact List.mem_cons_self
  · exact List.mem_cons_of_mem _ (List.mem_append_right _ hb)

/-- So is the class of each facet of the first one. -/
theorem MeetReaches.of_facet {h : Hierarchy} (hh : ∀ name, h name name = true) {first f : Atom}
    {others : List Atom} (hf : f ∈ first.facets) {q : ObjectType} (hq : f.object? = some q) :
    MeetReaches h first others q.name :=
  ⟨f, List.mem_cons_of_mem _ (List.mem_append_left _ hf), q, hq, hh q.name⟩

/-- The intersection within an object of low type parameters. -/
private theorem isWithin_meet_iff {h : Hierarchy} {first b : Atom} {others : List Atom}
    {o p : ObjectType} (ho : first.object? = some o) (hp : b.object? = some p)
    (hfirst : ∀ t ∈ first.types, t.NestsWithin 32) (hb : ∀ u ∈ b.types, u.NestsWithin 32)
    (optional : Bool) :
    (Ty.single (first.withFacets others)).isWithin h ⟨[b], optional⟩ = true ↔
      (MeetReaches h first others p.name ∧
        ∀ f ∈ b.facets, ∀ q, f.object? = some q → MeetReaches h first others q.name) ∧
        first.ParamsFit h b := by
  have hmeet : ∀ t ∈ (first.withFacets others).types, t.NestsWithin 32 := by rwa [Atom.types_withFacets]
  rw [isWithin_object_iff (Atom.object?_withFacets ho others) hp hmeet hb,
    Atom.paramsFit_withFacets_iff, ObjectType.fits_iff, Atom.facets_eq hp]
  simp only [reaches_withFacets_iff ho]

/-- An intersection of objects lies within the first argument and within the class of each one.
Within an argument it lies exactly if it reaches the classes of the facets there and the type
parameters of the first object are enough for those there. -/
theorem isWithin_intersection_iff (wrapper : String) (table : ClassTable) {types : List Ty}
    {first : Atom} {others : List Atom}
    (hobjects : types.mapM Ty.soleObjectAtom? = some (first :: others))
    (hparams : ∀ a ∈ first :: others, ∀ u ∈ a.types, u.IsProper ∧ u.NestsWithin 32) :
    ∃ i : Ty, intersection wrapper [.tuple (types.map (Ty.wrap wrapper))] = some (i.wrap wrapper) ∧
      (∀ t ∈ types.head?, i.isWithin table.hierarchy t = true) ∧
      (∀ a ∈ first :: others, ∀ o, a.object? = some o →
        i.isWithin table.hierarchy (.instanceOf o.name) = true) ∧
      ∀ t ∈ types, ∀ a ∈ t.atoms,
        (i.isWithin table.hierarchy t = true ↔
          (∀ f ∈ a.facets, ∀ q, f.object? = some q → MeetReaches table.hierarchy first others q.name) ∧
            first.ParamsFit table.hierarchy a) := by
  have hh := table.hierarchy_self
  have hlow : ∀ a ∈ first :: others, ∀ u ∈ a.types, u.NestsWithin 32 :=
    fun a ha u hu => (hparams a ha u hu).2
  have hfirst : ∀ u ∈ first.types, u.NestsWithin 32 := hlow first List.mem_cons_self
  have hall := forall₂_of_mapM hobjects
  have hobject : ∀ a ∈ first :: others, ∃ o, a.object? = some o := by
    intro a ha
    obtain ⟨t, -, -, ho⟩ := exists_mem_of_forall₂ hall.flip ha
    exact Option.isSome_iff_exists.1 ho
  obtain ⟨o, ho⟩ := hobject first List.mem_cons_self
  -- The class of an argument is reached anyway, which leaves its facets and its type parameters.
  have hwithin : ∀ {t : Ty} {a : Atom}, t.atoms = [a] → a ∈ first :: others →
      ((Ty.single (first.withFacets others)).isWithin table.hierarchy t = true ↔
        (∀ f ∈ a.facets, ∀ q, f.object? = some q → MeetReaches table.hierarchy first others q.name) ∧
          first.ParamsFit table.hierarchy a) := by
    rintro ⟨atoms, optional⟩ a rfl ha
    obtain ⟨p, hp⟩ := hobject a ha
    have hreach : MeetReaches table.hierarchy first others p.name := .of_mem hh ha hp
    rw [isWithin_meet_iff ho hp hfirst (hlow a ha), and_iff_right hreach]
  refine ⟨.single (first.withFacets others), ?_, ?_, ?_, ?_⟩
  · rw [intersection_tuple_wrap, meet?, hobjects]
    rfl
  · intro t ht
    obtain _ | ⟨⟨hatoms, -⟩, -⟩ := hall
    obtain rfl := Option.some.inj ht
    have hself : first.ParamsFit table.hierarchy first :=
      Atom.paramsFit_self table fun u hu => hparams first List.mem_cons_self u hu
    exact (hwithin hatoms List.mem_cons_self).2 ⟨fun f hf q hq => .of_facet hh hf hq, hself⟩
  · intro a ha p hp
    have hreach : MeetReaches table.hierarchy first others p.name := .of_mem hh ha hp
    have hparams : first.ParamsFit table.hierarchy (.object ⟨p.name, []⟩) := by
      cases first <;> exact trivial
    exact (isWithin_meet_iff (p := ⟨p.name, []⟩) ho rfl hfirst (by simp [Atom.types]) false).2
      ⟨⟨hreach, by simp [Atom.facets]⟩, hparams⟩
  · intro t ht a ha
    obtain ⟨b, hb, hatoms, -⟩ := exists_mem_of_forall₂ hall ht
    obtain rfl : a = b := by simpa [hatoms] using ha
    exact hwithin hatoms hb

/-- A map of ones that can be counted. -/
private def ones : Atom :=
  .generic ⟨"Map", [.object ⟨"Countable", []⟩]⟩ [.single (.literal (.int 1))]

/-- Something that can be counted and walked through. -/
private def bag : Atom :=
  .object ⟨"Bag", [.object ⟨"Countable", []⟩, .object ⟨"Iterable", []⟩]⟩

private def integers : Atom :=
  .generic ⟨"Map", []⟩ [.single (.keyword .int)]

/-- A bag can be walked through, a map need not be. -/
private def bags : ClassTable :=
  .ofList [("Bag", ["Iterable"])]

theorem isWithin_intersection_iff_bag :
    ∃ i : Ty, intersection
      "Typed" [.tuple ([.single ones, .single bag, .single integers].map (Ty.wrap "Typed"))] =
        some (i.wrap "Typed") ∧
      i.isWithin bags.hierarchy (.single ones) = true ∧ i.isWithin bags.hierarchy (.single bag) = true ∧
      i.isWithin bags.hierarchy (.single integers) = true := by
  have hobjects : [.single ones, .single bag, .single integers].mapM Ty.soleObjectAtom? =
      some [ones, bag, integers] := rfl
  have hone : (Ty.single (.literal (.int 1))).IsProper := Ty.isProper_leaf trivial rfl rfl
  have hint : (Ty.single (.keyword .int)).IsProper := Ty.isProper_leaf trivial rfl rfl
  have hparams : ∀ a ∈ [ones, bag, integers], ∀ u ∈ a.types, u.IsProper ∧ u.NestsWithin 32 := by
    intro a ha u hu
    simp only [List.mem_cons, List.not_mem_nil, or_false] at ha
    rcases ha with rfl | rfl | rfl
    · exact List.mem_singleton.1 hu ▸ ⟨hone, by decide⟩
    · cases hu
    · exact List.mem_singleton.1 hu ▸ ⟨hint, by decide⟩
  obtain ⟨i, hi, hhead, -, hiff⟩ := isWithin_intersection_iff "Typed" bags hobjects hparams
  refine ⟨i, hi, hhead _ rfl, ?_, ?_⟩
  · refine (hiff _ (by simp) bag (List.mem_singleton.2 rfl)).2 ⟨fun f hf q hq => ?_, trivial⟩
    rcases List.mem_pair.1 hf with rfl | rfl <;> obtain rfl := Option.some.inj hq
    · exact .of_facet bags.hierarchy_self (List.mem_singleton.2 rfl) rfl
    · exact ⟨bag, by simp, _, rfl, by decide +kernel⟩
  · refine (hiff _ (by simp) integers (List.mem_singleton.2 rfl)).2
      ⟨fun f hf => (by cases hf), fun _ => ?_⟩
    exact .cons (by decide +kernel) .nil

/-- The two types have an intersection that does not lie within the second one. -/
private def LosesSecond (s t : Ty) : Prop :=
  ∃ i : Ty, intersection "Typed" [.tuple ([s, t].map (Ty.wrap "Typed"))] = some (i.wrap "Typed") ∧
    i.isWithin ({} : ClassTable).hierarchy t = false

private theorem losesSecond_of_meet? {s t : Ty}
    (h : (meet? [s, t]).any (fun i => !i.isWithin ({} : ClassTable).hierarchy t) = true) :
    LosesSecond s t := by
  obtain ⟨i, hi, hnot⟩ := (Option.any_eq_true _ _).1 h
  refine ⟨i, ?_, by simpa using hnot⟩
  rw [intersection_tuple_wrap, hi]
  rfl

/-- A facet of a facet is lost, and so are type parameters that the first type has not. -/
theorem not_isWithin_intersection :
    LosesSecond (.instanceOf "A") (.single (.object ⟨"B", [.object ⟨"C", []⟩]⟩)) ∧
      LosesSecond (.instanceOf "A") (.generic "B" [.single (.keyword .int)]) ∧
      LosesSecond (.generic "A" [.single (.keyword .int)])
        (.generic "A" [.single (.keyword .string)]) :=
  ⟨losesSecond_of_meet? (by decide +kernel), losesSecond_of_meet? (by decide +kernel),
    losesSecond_of_meet? (by decide +kernel)⟩

end Builder

end TypeProbe
