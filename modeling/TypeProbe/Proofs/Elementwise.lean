import Mathlib.Data.List.Forall2

/-!
# Lists that are related element by element

`List.Forall₂` and `Option.Rel` relate lists and options whose elements are related at each place.
Here stand what follows for members, for images and for positions, and what it means that all
elements of a list can be read (`mapM_eq_some_iff`).
-/

namespace TypeProbe

/-- An element of the first list has a related one in the second. -/
theorem exists_mem_of_forall₂ {α β : Type} {R : α → β → Prop} {l : List α} {m : List β}
    (h : List.Forall₂ R l m) {a : α} (ha : a ∈ l) : ∃ b ∈ m, R a b := by
  induction h with
  | nil => cases ha
  | cons hab _ ih =>
    rcases List.mem_cons.1 ha with rfl | ha
    · exact ⟨_, List.mem_cons_self, hab⟩
    · obtain ⟨b, hb, h⟩ := ih ha
      exact ⟨b, List.mem_cons_of_mem _ hb, h⟩

/-- A relation between the elements of two lists that are related one by one
may use where they come from. -/
theorem forall₂_imp_of_mem {α β : Type} {R S : α → β → Prop} {l : List α} {m : List β}
    (h : ∀ a ∈ l, ∀ b ∈ m, R a b → S a b) (hlm : List.Forall₂ R l m) : List.Forall₂ S l m := by
  rw [List.forall₂_iff_zip] at hlm ⊢
  refine ⟨hlm.1, fun {a b} hab => ?_⟩
  obtain ⟨ha, hb⟩ := List.of_mem_zip hab
  exact h a ha b hb (hlm.2 hab)

/-- Lists with the same images are related one by one if elements with the same image are. -/
theorem forall₂_of_map_eq {α β γ : Type} {f : α → γ} {g : β → γ} {R : α → β → Prop} {l : List α}
    {m : List β} (h : ∀ a ∈ l, ∀ b ∈ m, f a = g b → R a b) (e : l.map f = m.map g) :
    List.Forall₂ R l m := by
  have heq : List.Forall₂ (fun x y => x = y) (l.map f) (m.map g) := List.forall₂_eq_eq_eq ▸ e
  exact forall₂_imp_of_mem h (List.forall₂_map_right_iff.1 (List.forall₂_map_left_iff.1 heq))

/-- Lists that are related one by one have the same images if related elements do. -/
theorem map_eq_of_forall₂ {α β γ : Type} {f : α → γ} {g : β → γ} {R : α → β → Prop} {l : List α}
    {m : List β} (h : ∀ a ∈ l, ∀ b ∈ m, R a b → f a = g b) (hlm : List.Forall₂ R l m) :
    l.map f = m.map g := by
  have heq : List.Forall₂ (fun x y => x = y) (l.map f) (m.map g) :=
    List.forall₂_map_left_iff.2 (List.forall₂_map_right_iff.2 (forall₂_imp_of_mem h hlm))
  exact List.forall₂_eq_eq_eq ▸ heq

theorem map_eq_of_rel {α β γ : Type} {f : α → γ} {g : β → γ} {R : α → β → Prop} {s : Option α}
    {t : Option β} (h : ∀ a ∈ s, ∀ b ∈ t, R a b → f a = g b) (hst : Option.Rel R s t) :
    s.map f = t.map g := by
  cases hst with
  | none => rfl
  | some hab => exact congrArg some (h _ rfl _ rfl hab)

theorem exists_mem_of_rel {α β : Type} {R : α → β → Prop} {s : Option α} {t : Option β}
    (h : Option.Rel R s t) {a : α} (ha : a ∈ s) : ∃ b ∈ t, R a b := by
  cases h with
  | none => cases ha
  | some hab =>
    obtain rfl := Option.some.inj ha
    exact ⟨_, rfl, hab⟩

theorem exists_mem_left_of_rel {α β : Type} {R : α → β → Prop} {s : Option α} {t : Option β}
    (h : Option.Rel R s t) {b : β} (hb : b ∈ t) : ∃ a ∈ s, R a b := by
  cases h with
  | none => cases hb
  | some hab =>
    obtain rfl := Option.some.inj hb
    exact ⟨_, rfl, hab⟩

theorem eq_none_of_rel {α β : Type} {R : α → β → Prop} {s : Option α} {t : Option β}
    (h : Option.Rel R s t) (hs : s = none) : t = none := by
  subst hs
  cases h
  rfl

theorem rel_getElem?_of_forall₂ {α β : Type} {R : α → β → Prop} {l : List α} {m : List β}
    (hlm : List.Forall₂ R l m) (i : Nat) : Option.Rel R l[i]? m[i]? := by
  induction hlm generalizing i with
  | nil => exact .none
  | cons hab _ ih =>
    cases i with
    | zero => exact .some hab
    | succ i => exact ih i

/-- There is a list of related elements if each element has a related one. -/
theorem exists_forall₂_iff {α β : Type} {R : α → β → Prop} {l : List α} :
    (∃ m, List.Forall₂ R l m) ↔ ∀ a ∈ l, ∃ b, R a b := by
  induction l with
  | nil => exact iff_of_true ⟨[], .nil⟩ (by simp)
  | cons a rest ih =>
    simp only [List.forall₂_cons_left_iff, List.forall_mem_cons, ← ih]
    constructor
    · rintro ⟨-, b, m, hab, hm, rfl⟩
      exact ⟨⟨b, hab⟩, m, hm⟩
    · rintro ⟨⟨b, hab⟩, m, hm⟩
      exact ⟨b :: m, b, m, hab, hm, rfl⟩

/-! ### Lists that are read element by element -/

/-- All elements can be read exactly if there is a list of what each one reads as. -/
theorem mapM_eq_some_iff {α β : Type} {read : α → Option β} {l : List α} {m : List β} :
    l.mapM read = some m ↔ List.Forall₂ (fun a b => read a = some b) l m := by
  induction l generalizing m with
  | nil => simp [eq_comm]
  | cons a rest ih =>
    rw [List.mapM_cons, List.forall₂_cons_left_iff, Option.bind_eq_bind, Option.bind_eq_some_iff]
    refine exists_congr fun b => ⟨?_, ?_⟩
    · rintro ⟨hb, h⟩
      obtain ⟨bs, hbs, h⟩ := Option.bind_eq_some_iff.1 h
      cases h
      exact ⟨bs, hb, ih.1 hbs, rfl⟩
    · rintro ⟨bs, hb, hbs, rfl⟩
      exact ⟨hb, Option.bind_eq_some_iff.2 ⟨bs, ih.2 hbs, rfl⟩⟩

/-- Reading back each element that was written reads back the list. -/
theorem mapM_map_eq_some {α β : Type} {write : α → β} {read : β → Option α}
    (h : ∀ a, read (write a) = some a) (l : List α) : (l.map write).mapM read = some l := by
  rw [mapM_eq_some_iff, List.forall₂_map_left_iff]
  exact List.forall₂_same.2 fun a _ => h a

end TypeProbe
