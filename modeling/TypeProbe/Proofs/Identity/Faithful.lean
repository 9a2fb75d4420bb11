import TypeProbe.Proofs.Identity.Matching

/-!
# The identity of a plain type is faithful

A type is plain (`Ty.IsPlain`) if it is built, at any depth, from keywords, texts and keys without
quotes, integers, class strings, objects whose facets are objects without facets, lists, arrays and
records, and if no union has two atoms of one identity.  Plain types are legible, and those of one
identity are alike (`Atom.IsPlain.alike`).
-/

namespace TypeProbe

/-- The forms of the atoms of plain types, with classes named by names that are not taken. -/
def Atom.HasPlainForm : Atom → Prop
  | .literal (.string s) => '\'' ∉ s.toList
  | .literal (.float _) => False
  | .literal (.className name) => isClassName name = true
  | .classString bound => ∀ b ∈ bound, isClassName b = true
  | .object o | .generic o _ =>
    isClassName o.name = true ∧ ∀ f ∈ o.facets, (f.object?).isSome ∧ f.facets = []
  | .record r =>
    r.keys.Nodup ∧ (∀ k ∈ r.keys, k.IsLegible) ∧ (r.isList = true → Record.hasListKeys r.fields = true)
  | .callable _ | .template _ _ _ => False
  | _ => True

def Atom.IsPlain (a : Atom) : Prop :=
  ∀ b : Atom, b.PartOf a → b.HasPlainForm ∧ ∀ t ∈ b.types, t.Distinct

def Ty.IsPlain (t : Ty) : Prop :=
  t.Distinct ∧ ∀ a ∈ t.atoms, a.IsPlain

namespace Atom.IsPlain

variable {a : Atom}

theorem self (h : a.IsPlain) : a.HasPlainForm :=
  (h a .self).1

theorem facet (h : a.IsPlain) {f : Atom} (hf : f ∈ a.facets) : f.IsPlain :=
  fun b hb => h b (.facet hf hb)

theorem inside (h : a.IsPlain) {t : Ty} (ht : t ∈ a.types) : t.IsPlain :=
  ⟨(h a .self).2 t ht, fun _ hc b hb => h b (.inside ht hc hb)⟩

end Atom.IsPlain

/-! ### Plain types are legible -/

private theorem isTight_of_object {f : Atom} (h : (f.object?).isSome ∧ f.facets = []) : f.IsTight := by
  refine ⟨h.2, fun t ht => ?_⟩
  cases f with
  | object o => cases ht
  | generic o params => cases ht
  | _ => cases h.1

private theorem hasLegibleText_of_plain {a : Atom} (h : a.HasPlainForm)
    (ht : ∀ t ∈ a.types, t.Distinct) : a.HasLegibleText := by
  have htypes : ∀ t ∈ a.types, t.atoms ≠ [] := fun t hmem => (ht t hmem).1
  have noTail : ∀ {o : Option Ty}, o = none → ∀ t ∈ o, ∃ b, t.atoms = [b] := by
    rintro _ rfl t hmem
    cases hmem
  cases a with
  | keyword w => exact ⟨trivial, by simp [Atom.facets], noTail rfl, htypes⟩
  | literal x =>
    refine ⟨?_, by simp [Atom.facets], noTail rfl, htypes⟩
    cases x with
    | string s => exact h
    | int i => trivial
    | float x => exact h.elim
    | className name => exact isName_of_isClassName h
  | classString bound =>
    exact ⟨fun b hb => isName_of_isClassName (h b hb), by simp [Atom.facets], noTail rfl, htypes⟩
  | object o => exact ⟨h.1, fun f hf => isTight_of_object (h.2 f hf), noTail rfl, htypes⟩
  | generic o params => exact ⟨h.1, fun f hf => isTight_of_object (h.2 f hf), noTail rfl, htypes⟩
  | record r => exact ⟨h, by simp [Atom.facets], noTail rfl, htypes⟩
  | callable c => exact h.elim
  | template name scope bound => exact h.elim
  | array key value nonEmpty => exact ⟨trivial, by simp [Atom.facets], noTail rfl, htypes⟩
  | list value nonEmpty => exact ⟨trivial, by simp [Atom.facets], noTail rfl, htypes⟩

theorem Atom.IsPlain.isLegible {a : Atom} (h : a.IsPlain) : a.IsLegible :=
  fun b hb => hasLegibleText_of_plain (h b hb).1 (h b hb).2

theorem Ty.IsPlain.isLegible {t : Ty} (h : t.IsPlain) : t.IsLegible :=
  ⟨h.1.1, fun a ha => (h.2 a ha).isLegible⟩

/-! ### Plain types of one identity -/

/-- Unions of one identity are alike if their atoms of one identity are. -/
private theorem alike_of_atoms {s t : Ty} (hs : s.IsPlain) (ht : t.IsPlain)
    (h : s.identity = t.identity)
    (hatoms : ∀ a ∈ s.atoms, ∀ b ∈ t.atoms, a.identity = b.identity → a.Alike b) : s.Alike t := by
  have hperm : (s.atoms.map Atom.identity).Perm (t.atoms.map Atom.identity) :=
    (List.perm_ext_iff_of_nodup hs.1.2 ht.1.2).2
      (Ty.mem_identities_of_identity_eq hs.isLegible ht.isLegible h)
  -- The atoms of `t` are put in the order in which their identities occur in `s`.
  have hall : List.Forall₂ (fun x b => x = Atom.identity b) (t.atoms.map Atom.identity) t.atoms :=
    List.forall₂_map_left_iff.2 (List.forall₂_same.2 fun _ _ => rfl)
  obtain ⟨others, hothers, hmem⟩ := List.perm_comp_forall₂ hperm hall
  have hmap : List.Forall₂ (fun a b : Atom => a.identity = b.identity) s.atoms others :=
    List.forall₂_map_left_iff.1 hothers
  refine Ty.alike_iff.2 ⟨others, forall₂_imp_of_mem (fun a ha b hb => ?_) hmap, hmem⟩
  exact hatoms a ha b (hmem.mem_iff.1 hb)

theorem Atom.IsPlain.alike {a b : Atom} (ha : a.IsPlain) (hb : b.IsPlain)
    (h : a.identity = b.identity) : a.Alike b := by
  induction a using Atom.induction generalizing b with
  | step a facets inside =>
    have hmatch : Atom.Matches Ty.SameText Atom.SameText a b := ha.isLegible.matches hb.isLegible h
    have types : ∀ t ∈ a.types, ∀ u ∈ b.types, t.SameText u → t.Alike u := by
      intro t ht u hu e
      refine alike_of_atoms (ha.inside ht) (hb.inside hu) e.identity fun c hc d hd => ?_
      exact inside t ht c hc ((ha.inside ht).2 c hc) ((hb.inside hu).2 d hd)
    have facets : ∀ f ∈ a.facets, ∀ g ∈ b.facets, f.SameText g → f.Alike g :=
      fun f hf g hg e => facets f hf (ha.facet hf) (hb.facet hg) e.identity
    cases a with
    | keyword v =>
      cases b with
      | keyword w => exact Atom.keyword_alike_iff.2 (congrArg Atom.keyword hmatch.symm)
      | _ => exact hmatch.elim
    | literal x =>
      cases b with
      | literal y => exact Atom.literal_alike_iff.2 (congrArg Atom.literal hmatch.symm)
      | _ => exact hmatch.elim
    | classString bound =>
      cases b with
      | classString other => exact Atom.classString_alike_iff.2 (congrArg Atom.classString hmatch.symm)
      | _ => exact hmatch.elim
    | object o =>
      cases b with
      | object p =>
        obtain ⟨hname, hfacets⟩ := hmatch
        exact Atom.object_alike_iff.2 ⟨p, rfl, hname, forall₂_imp_of_mem facets hfacets⟩
      | _ => exact hmatch.elim
    | generic o ts =>
      cases b with
      | generic p us =>
        obtain ⟨hname, hfacets, hparams⟩ := hmatch
        exact Atom.generic_alike_iff.2
          ⟨p, us, rfl, hname, forall₂_imp_of_mem facets hfacets, forall₂_imp_of_mem types hparams⟩
      | _ => exact hmatch.elim
    | record r =>
      cases b with
      | record q =>
        obtain ⟨hfields, hmarks⟩ := hmatch
        refine Atom.record_alike_iff.2
          ⟨q, rfl, forall₂_imp_of_mem (fun f hf g hg hfg => ?_) hfields, hmarks⟩
        exact ⟨hfg.key, hfg.optional,
          types _ (List.mem_map_of_mem hf) _ (List.mem_map_of_mem hg) hfg.type⟩
      | _ => exact hmatch.elim
    | callable c => exact ha.self.elim
    | template name scope bound => exact ha.self.elim
    | array key value nonEmpty =>
      cases b with
      | array key' value' nonEmpty' =>
        obtain ⟨hkey, hvalue, rfl⟩ := hmatch
        refine Atom.array_alike_iff.2 ⟨key', value', rfl, ?_, ?_⟩
        · exact types key (by simp [Atom.types]) key' (by simp [Atom.types]) hkey
        · exact types value (by simp [Atom.types]) value' (by simp [Atom.types]) hvalue
      | _ => exact hmatch.elim
    | list value nonEmpty =>
      cases b with
      | list value' nonEmpty' =>
        obtain ⟨hvalue, rfl⟩ := hmatch
        refine Atom.list_alike_iff.2 ⟨value', rfl, ?_⟩
        exact types value (by simp [Atom.types]) value' (by simp [Atom.types]) hvalue
      | _ => exact hmatch.elim

/-- Plain types of one identity are alike. -/
theorem Ty.IsPlain.alike_of_identity_eq {s t : Ty} (hs : s.IsPlain) (ht : t.IsPlain)
    (h : s.identity = t.identity) : s.Alike t := by
  refine alike_of_atoms hs ht h fun a ha b hb => ?_
  exact (hs.2 a ha).alike (ht.2 b hb)

private theorem isPlain_of_parts {a : Atom} (h : a.HasPlainForm) (hf : ∀ f ∈ a.facets, f.IsPlain)
    (ht : ∀ t ∈ a.types, t.IsPlain) : a.IsPlain :=
  Atom.forall_partOf ⟨h, fun t hmem => (ht t hmem).1⟩ hf fun t hmem b ⟨c, hc, hb⟩ =>
    (ht t hmem).2 c hc b hb

/-- A text with a separator in it, or an integer, in a slot that may be missing. -/
private def entry : Ty :=
  ⟨[.literal (.string "a|b"), .keyword .int], true⟩

/-- The same atoms, the other way round. -/
private def entry' : Ty :=
  ⟨[.keyword .int, .literal (.string "a|b")], true⟩

private def faceted : Atom :=
  .object ⟨"A", [.object ⟨"B", []⟩]⟩

private def sheet (entry : Ty) : Atom :=
  .record (.ofFields [(.string "a b", entry)] false)

private theorem isPlain_leaf {a : Atom} (h : a.HasPlainForm) (ht : a.types = [])
    (hf : a.facets = []) : a.IsPlain :=
  isPlain_of_parts h (by simp [hf]) (by simp [ht])

private theorem isPlain_entry {t : Ty} (hn : (t.atoms.map Atom.identity).Nodup)
    (h : ∀ a, a ∈ t.atoms ↔ a = .keyword .int ∨ a = .literal (.string "a|b")) : t.IsPlain := by
  refine ⟨⟨List.ne_nil_of_mem ((h _).2 (.inl rfl)), hn⟩, fun a ha => ?_⟩
  rcases (h a).1 ha with rfl | rfl
  · exact isPlain_leaf trivial rfl rfl
  · exact isPlain_leaf (by simp [Atom.HasPlainForm]) rfl rfl

private theorem isPlain_faceted : faceted.IsPlain := by
  refine isPlain_of_parts ⟨by decide, ?_⟩ ?_ (by simp [faceted, Atom.types])
  · simp [Atom.object?, Atom.facets]
  · have hleaf : (Atom.object ⟨"B", []⟩).IsPlain := isPlain_leaf ⟨by decide, by simp⟩ rfl rfl
    simpa [faceted, Atom.facets] using hleaf

private theorem isPlain_sheet {t : Ty} (ht : t.IsPlain) : (sheet t).IsPlain := by
  refine isPlain_of_parts ⟨?_, ?_, ?_⟩ (by simp [sheet, Atom.facets]) ?_
  · exact List.nodup_singleton _
  · simp [Record.ofFields, Record.keys, Key.IsLegible]
  · simp [Record.ofFields]
  · simpa [sheet, Atom.types, Record.types, Record.ofFields] using ht

/-- A faceted object or a sheet, and the same with all members the other way round. -/
private def page : Ty :=
  ⟨[sheet entry, faceted], false⟩

private def page' : Ty :=
  ⟨[faceted, sheet entry'], false⟩

theorem Ty.IsPlain.alike_of_identity_eq_page : page.identity = page'.identity ∧ page.Alike page' := by
  have hentry : entry.IsPlain := isPlain_entry (by decide +kernel) (by simp [entry, or_comm])
  have hentry' : entry'.IsPlain := isPlain_entry (by decide +kernel) (by simp [entry'])
  have hpage : page.IsPlain := by
    refine ⟨⟨List.cons_ne_nil _ _, by decide +kernel⟩, fun a ha => ?_⟩
    rcases List.mem_pair.1 ha with rfl | rfl
    · exact isPlain_sheet hentry
    · exact isPlain_faceted
  have hpage' : page'.IsPlain := by
    refine ⟨⟨List.cons_ne_nil _ _, by decide +kernel⟩, fun a ha => ?_⟩
    rcases List.mem_pair.1 ha with rfl | rfl
    · exact isPlain_faceted
    · exact isPlain_sheet hentry'
  have hid : page.identity = page'.identity := by decide +kernel
  exact ⟨hid, Ty.IsPlain.alike_of_identity_eq hpage hpage' hid⟩

end TypeProbe
