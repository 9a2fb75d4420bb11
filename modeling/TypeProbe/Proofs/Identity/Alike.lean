import Mathlib.Data.List.Sort
import TypeProbe.Proofs.Identity.Text
import TypeProbe.Proofs.Ty.Alike

/-!
# Alike types have one identity

The identity of a union lists the identities of its atoms in order, each once, so it depends on
which ones there are and on nothing else (`Ty.identity_eq_of_mem_iff`).  Hence alike types have the
same identity (`Ty.Alike.identity_eq`).
-/

namespace TypeProbe

theorem sortedDistinct_congr {l m : List String} (h : ∀ x, x ∈ l ↔ x ∈ m) :
    sortedDistinct l = sortedDistinct m := by
  have hmem : ∀ x, x ∈ sortedDistinct l ↔ x ∈ sortedDistinct m := by
    simpa only [mem_sortedDistinct] using h
  exact (pairwise_sortedDistinct l).eq_of_mem_iff (pairwise_sortedDistinct m) hmem

theorem Ty.identity_eq_of_mem_iff {s t : Ty}
    (h : ∀ x, x ∈ s.atoms.map Atom.identity ↔ x ∈ t.atoms.map Atom.identity) :
    s.identity = t.identity := by
  rw [Ty.identity_eq, Ty.identity_eq, sortedDistinct_congr h]

private theorem identity_eq_of_pieces {a b : Atom} (hword : a.word = b.word) (hrest : a.rest = b.rest) :
    a.identity = b.identity :=
  String.toList_injective (by rw [Atom.toList_identity, Atom.toList_identity, hword, hrest])

private theorem identity_eq_of_atoms {s t : Ty} (hst : s.Alike t)
    (h : ∀ a ∈ s.atoms, ∀ b, a.Alike b → a.identity = b.identity) : s.identity = t.identity := by
  obtain ⟨others, hall, hperm⟩ := Ty.alike_iff.1 hst
  have hmap : s.atoms.map Atom.identity = others.map Atom.identity :=
    map_eq_of_forall₂ (fun a ha b _ hab => h a ha b hab) hall
  exact Ty.identity_eq_of_mem_iff fun x => by rw [hmap, (hperm.map Atom.identity).mem_iff]

private theorem facetsText_eq {fs gs : List Atom} (hall : List.Forall₂ Atom.Alike fs gs)
    (h : ∀ f ∈ fs, ∀ g, f.Alike g → f.identity = g.identity) :
    Atom.facetsText fs = Atom.facetsText gs := by
  unfold Atom.facetsText
  rw [List.flatMap_def, List.flatMap_def, map_eq_of_forall₂ (fun f hf g _ hfg => ?_) hall]
  rw [h f hf g hfg]

private theorem paramText_eq {p q : Param} (hpq : p.Alike q)
    (h : ∀ t ∈ p.type, ∀ u, t.Alike u → t.identity = u.identity) : p.text = q.text := by
  obtain ⟨htype, href, hvariadic, hoptional⟩ := hpq
  have hmap : p.type.map Ty.identity = q.type.map Ty.identity :=
    map_eq_of_rel (fun t ht u _ htu => h t ht u htu) htype
  have hwritten : p.written.identity = q.written.identity := by
    rw [Param.written, Param.written, ← Option.getD_map Ty.identity,
      ← Option.getD_map Ty.identity, hmap]
  rw [Param.text, Param.text, hwritten, href, hvariadic, hoptional]

theorem Atom.Alike.identity_eq {a b : Atom} (hab : a.Alike b) : a.identity = b.identity := by
  induction a using Atom.induction generalizing b with
  | step a facets inside =>
    have types : ∀ t ∈ a.types, ∀ u : Ty, t.Alike u → t.identity = u.identity :=
      fun t ht u htu => identity_eq_of_atoms htu fun c hc d hcd => inside t ht c hc hcd
    have facets : ∀ f ∈ a.facets, ∀ g : Atom, f.Alike g → f.identity = g.identity :=
      fun f hf g hfg => facets f hf hfg
    cases a with
    | keyword w => rw [Atom.keyword_alike_iff.1 hab]
    | literal x => rw [Atom.literal_alike_iff.1 hab]
    | classString bound => rw [Atom.classString_alike_iff.1 hab]
    | object o =>
      obtain ⟨p, rfl, hname, hfacets⟩ := Atom.object_alike_iff.1 hab
      exact identity_eq_of_pieces hname (facetsText_eq hfacets facets)
    | generic o params =>
      obtain ⟨p, us, rfl, hname, hfacets, hparams⟩ := Atom.generic_alike_iff.1 hab
      refine identity_eq_of_pieces hname ?_
      have htexts : params.map (·.identity.toList) = us.map (·.identity.toList) :=
        map_eq_of_forall₂ (fun t ht u _ htu => by rw [types t ht u htu]) hparams
      simp only [Atom.rest, facetsText_eq hfacets facets, htexts]
    | record r =>
      obtain ⟨q, rfl, hfields, hsealed, hlist⟩ := Atom.record_alike_iff.1 hab
      have htype : ∀ f ∈ r.fields, ∀ g ∈ q.fields, Record.AlikeField f g →
          f.2.identity = g.2.identity :=
        fun f hf g _ hfg => types f.2 (List.mem_map_of_mem hf) g.2 hfg.2.2
      have htypes : r.types.map (·.identity.toList) = q.types.map (·.identity.toList) := by
        rw [Record.types, Record.types, List.map_map, List.map_map]
        exact map_eq_of_forall₂
          (fun f hf g hg hfg => congrArg String.toList (htype f hf g hg hfg)) hfields
      have hkeyed : r.fields.map Record.fieldText = q.fields.map Record.fieldText := by
        refine map_eq_of_forall₂ (fun f hf g hg hfg => ?_) hfields
        rw [Record.fieldText, Record.fieldText, htype f hf g hg hfg, hfg.1, hfg.2.1]
      refine identity_eq_of_pieces (by simp only [Atom.word, hlist]) ?_
      simp only [Atom.rest, Record.texts, htypes, hkeyed, hsealed, hlist]
    | callable c =>
      obtain ⟨d, rfl, hparams, hresult, hclosure, hpure⟩ := Atom.callable_alike_iff.1 hab
      have htexts : c.params.map Param.text = d.params.map Param.text := by
        refine map_eq_of_forall₂ (fun p hp q _ hpq => paramText_eq hpq fun t ht => types t ?_) hparams
        exact Callable.mem_types_of_param hp ht
      have hend : c.result.map Ty.identity = d.result.map Ty.identity :=
        map_eq_of_rel (fun t ht u _ => types t (Callable.mem_types_of_result ht) u) hresult
      refine identity_eq_of_pieces (by simp only [Atom.word, hclosure, hpure]) ?_
      cases hc : c.result <;> cases hd : d.result <;> simp_all [Atom.rest]
    | template name scope bound =>
      obtain ⟨u, rfl, hbound⟩ := Atom.template_alike_iff.1 hab
      refine identity_eq_of_pieces rfl ?_
      simp only [Atom.rest, types bound (by simp [Atom.types]) u hbound]
    | array key value nonEmpty =>
      obtain ⟨k, v, rfl, hkey, hvalue⟩ := Atom.array_alike_iff.1 hab
      refine identity_eq_of_pieces rfl ?_
      simp only [Atom.rest, types key (by simp [Atom.types]) k hkey,
        types value (by simp [Atom.types]) v hvalue]
    | list value nonEmpty =>
      obtain ⟨v, rfl, hvalue⟩ := Atom.list_alike_iff.1 hab
      refine identity_eq_of_pieces rfl ?_
      simp only [Atom.rest, types value (by simp [Atom.types]) v hvalue]

/-- The atoms of alike types have the same identities, each as often. -/
theorem Ty.Alike.perm_identities {s t : Ty} (hst : s.Alike t) :
    (s.atoms.map Atom.identity).Perm (t.atoms.map Atom.identity) := by
  obtain ⟨others, hall, hperm⟩ := Ty.alike_iff.1 hst
  rw [map_eq_of_forall₂ (fun a _ b _ hab => Atom.Alike.identity_eq hab) hall]
  exact hperm.map Atom.identity

/-- Alike types have the same identity. -/
theorem Ty.Alike.identity_eq {s t : Ty} (hst : s.Alike t) : s.identity = t.identity :=
  Ty.identity_eq_of_mem_iff fun _ => hst.perm_identities.mem_iff

end TypeProbe
