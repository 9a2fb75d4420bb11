import Mathlib.Data.List.Nodup
import Mathlib.Data.List.Perm.Basic
import TypeProbe.Proofs.Elementwise
import TypeProbe.Proofs.Ty.Matches

/-!
# Types that are equal up to order

`Ty.Alike` relates two types that differ at most in the order of the atoms of their unions, at any
depth, and in the marks of optional slots that belong to no field of a record.  The names of
parameters are left aside too.  The fields of a record, its facets and its parameters stay in their
order.  To be alike is an equivalence (`Atom.alike_refl`, `Atom.Alike.symm`, `Atom.Alike.trans`),
and `Ty.Coherent` says of several types that atoms of one identity in them are alike.
-/

namespace TypeProbe

mutual

/-- Up to order, the atoms of the two types are alike. -/
def Ty.Alike : Ty → Ty → Prop
  | ⟨atoms, _⟩, u => ∃ others, Atom.AlikeAll atoms others ∧ others.Perm u.atoms
termination_by structural t => t

def Atom.Alike : Atom → Atom → Prop
  | .keyword v, .keyword w => v = w
  | .literal x, .literal y => x = y
  | .classString b, .classString c => b = c
  | .object ⟨name, facets⟩, .object o => name = o.name ∧ Atom.AlikeAll facets o.facets
  | .generic ⟨name, facets⟩ params, .generic o params' =>
    name = o.name ∧ Atom.AlikeAll facets o.facets ∧ Ty.AlikeAll params params'
  | .record ⟨fields, isSealed, isList⟩, .record r =>
    Record.AlikeFields fields r.fields ∧ isSealed = r.isSealed ∧ isList = r.isList
  | .callable ⟨params, result, isClosure, isPure⟩, .callable c =>
    Param.AlikeAll params c.params ∧ Ty.AlikeOption result c.result ∧ isClosure = c.isClosure ∧
      isPure = c.isPure
  | .template name scope bound, .template name' scope' bound' =>
    name = name' ∧ scope = scope' ∧ bound.Alike bound'
  | .array key value nonEmpty, .array key' value' nonEmpty' =>
    key.Alike key' ∧ value.Alike value' ∧ nonEmpty = nonEmpty'
  | .list value nonEmpty, .list value' nonEmpty' => value.Alike value' ∧ nonEmpty = nonEmpty'
  | _, _ => False
termination_by structural a => a

def Atom.AlikeAll : List Atom → List Atom → Prop
  | [], [] => True
  | a :: rest, b :: others => a.Alike b ∧ Atom.AlikeAll rest others
  | _, _ => False
termination_by structural l => l

def Ty.AlikeAll : List Ty → List Ty → Prop
  | [], [] => True
  | t :: rest, u :: others => t.Alike u ∧ Ty.AlikeAll rest others
  | _, _ => False
termination_by structural l => l

/-- The same keys in the same order, with the same marks and with types that are alike. -/
def Record.AlikeFields : List (Key × Ty) → List (Key × Ty) → Prop
  | [], [] => True
  | (k, t) :: rest, (k', u) :: others =>
    k = k' ∧ t.optional = u.optional ∧ t.Alike u ∧ Record.AlikeFields rest others
  | _, _ => False
termination_by structural l => l

def Param.AlikeAll : List Param → List Param → Prop
  | [], [] => True
  | ⟨_, type, byReference, variadic, optional⟩ :: rest, p :: others =>
    Ty.AlikeOption type p.type ∧ byReference = p.byReference ∧ variadic = p.variadic ∧
      optional = p.optional ∧ Param.AlikeAll rest others
  | _, _ => False
termination_by structural l => l

def Ty.AlikeOption : Option Ty → Option Ty → Prop
  | some t, some u => t.Alike u
  | none, none => True
  | _, _ => False
termination_by structural o => o

end

/-- The marks of the parameters agree, and their types are alike or both missing. -/
def Param.Alike (p q : Param) : Prop :=
  Option.Rel Ty.Alike p.type q.type ∧ p.byReference = q.byReference ∧ p.variadic = q.variadic ∧
    p.optional = q.optional

/-- The keys and the marks of the fields agree, and their types are alike. -/
def Record.AlikeField (f g : Key × Ty) : Prop :=
  f.1 = g.1 ∧ f.2.optional = g.2.optional ∧ f.2.Alike g.2

/-! ### The relations on lists -/

theorem Atom.alikeAll_iff {l m : List Atom} : Atom.AlikeAll l m ↔ List.Forall₂ Atom.Alike l m := by
  induction l generalizing m with
  | nil => cases m <;> simp [Atom.AlikeAll]
  | cons a rest ih => cases m <;> simp [Atom.AlikeAll, ih]

theorem Ty.alikeAll_iff {l m : List Ty} : Ty.AlikeAll l m ↔ List.Forall₂ Ty.Alike l m := by
  induction l generalizing m with
  | nil => cases m <;> simp [Ty.AlikeAll]
  | cons t rest ih => cases m <;> simp [Ty.AlikeAll, ih]

theorem Record.alikeFields_iff {l m : List (Key × Ty)} :
    Record.AlikeFields l m ↔ List.Forall₂ Record.AlikeField l m := by
  induction l generalizing m with
  | nil => cases m <;> simp [Record.AlikeFields]
  | cons f rest ih =>
    cases m with
    | nil => simp [Record.AlikeFields]
    | cons g others => simp [Record.AlikeFields, Record.AlikeField, ih, and_assoc]

theorem Ty.alikeOption_iff {s t : Option Ty} : Ty.AlikeOption s t ↔ Option.Rel Ty.Alike s t := by
  cases s <;> cases t <;> simp [Ty.AlikeOption]

theorem Param.alikeAll_iff {l m : List Param} : Param.AlikeAll l m ↔ List.Forall₂ Param.Alike l m := by
  induction l generalizing m with
  | nil => cases m <;> simp [Param.AlikeAll]
  | cons p rest ih =>
    cases m with
    | nil => simp [Param.AlikeAll]
    | cons q others =>
      obtain ⟨name, type, byReference, variadic, optional⟩ := p
      simp only [Param.AlikeAll, Param.Alike, List.forall₂_cons, Ty.alikeOption_iff, ih, and_assoc]

theorem Ty.alike_iff {s t : Ty} :
    s.Alike t ↔ ∃ others, List.Forall₂ Atom.Alike s.atoms others ∧ others.Perm t.atoms := by
  obtain ⟨atoms, optional⟩ := s
  simp only [Ty.Alike, Atom.alikeAll_iff]

/-! ### What is alike to an atom of each form -/

theorem Atom.keyword_alike_iff {w : Keyword} {b : Atom} :
    (Atom.keyword w).Alike b ↔ b = .keyword w := by
  cases b with
  | keyword v => exact ⟨fun h : w = v => h ▸ rfl, fun h => (Atom.keyword.inj h).symm⟩
  | _ => exact ⟨False.elim, nofun⟩

theorem Atom.literal_alike_iff {x : Literal} {b : Atom} :
    (Atom.literal x).Alike b ↔ b = .literal x := by
  cases b with
  | literal y => exact ⟨fun h : x = y => h ▸ rfl, fun h => (Atom.literal.inj h).symm⟩
  | _ => exact ⟨False.elim, nofun⟩

theorem Atom.classString_alike_iff {bound : Option String} {b : Atom} :
    (Atom.classString bound).Alike b ↔ b = .classString bound := by
  cases b with
  | classString other =>
    exact ⟨fun h : bound = other => h ▸ rfl, fun h => (Atom.classString.inj h).symm⟩
  | _ => exact ⟨False.elim, nofun⟩

theorem Atom.object_alike_iff {o : ObjectType} {b : Atom} :
    (Atom.object o).Alike b ↔
      ∃ p, b = .object p ∧ o.name = p.name ∧ List.Forall₂ Atom.Alike o.facets p.facets := by
  obtain ⟨name, facets⟩ := o
  simp only [← Atom.alikeAll_iff]
  cases b with
  | object p =>
    refine ⟨fun h => ⟨p, rfl, h⟩, ?_⟩
    rintro ⟨_, ⟨⟩, h⟩
    exact h
  | _ => exact ⟨False.elim, nofun⟩

theorem Atom.generic_alike_iff {o : ObjectType} {ts : List Ty} {b : Atom} :
    (Atom.generic o ts).Alike b ↔
      ∃ p us, b = .generic p us ∧ o.name = p.name ∧ List.Forall₂ Atom.Alike o.facets p.facets ∧
        List.Forall₂ Ty.Alike ts us := by
  obtain ⟨name, facets⟩ := o
  simp only [← Atom.alikeAll_iff, ← Ty.alikeAll_iff]
  cases b with
  | generic p us =>
    refine ⟨fun h => ⟨p, us, rfl, h⟩, ?_⟩
    rintro ⟨_, _, ⟨⟩, h⟩
    exact h
  | _ => exact ⟨False.elim, nofun⟩

theorem Atom.record_alike_iff {r : Record} {b : Atom} :
    (Atom.record r).Alike b ↔
      ∃ q, b = .record q ∧ List.Forall₂ Record.AlikeField r.fields q.fields ∧ r.isSealed = q.isSealed ∧
        r.isList = q.isList := by
  obtain ⟨fields, isSealed, isList⟩ := r
  simp only [← Record.alikeFields_iff]
  cases b with
  | record q =>
    refine ⟨fun h => ⟨q, rfl, h⟩, ?_⟩
    rintro ⟨_, ⟨⟩, h⟩
    exact h
  | _ => exact ⟨False.elim, nofun⟩

theorem Atom.callable_alike_iff {c : Callable} {b : Atom} :
    (Atom.callable c).Alike b ↔
      ∃ d, b = .callable d ∧ List.Forall₂ Param.Alike c.params d.params ∧
        Option.Rel Ty.Alike c.result d.result ∧ c.isClosure = d.isClosure ∧
        c.isPure = d.isPure := by
  obtain ⟨params, result, isClosure, isPure⟩ := c
  simp only [← Param.alikeAll_iff, ← Ty.alikeOption_iff]
  cases b with
  | callable d =>
    refine ⟨fun h => ⟨d, rfl, h⟩, ?_⟩
    rintro ⟨_, ⟨⟩, h⟩
    exact h
  | _ => exact ⟨False.elim, nofun⟩

theorem Atom.template_alike_iff {name scope : String} {bound : Ty} {b : Atom} :
    (Atom.template name scope bound).Alike b ↔ ∃ u, b = .template name scope u ∧ bound.Alike u := by
  cases b with
  | template name' scope' u =>
    constructor
    · rintro ⟨rfl, rfl, h⟩
      exact ⟨u, rfl, h⟩
    · rintro ⟨_, ⟨⟩, h⟩
      exact ⟨rfl, rfl, h⟩
  | _ => exact ⟨False.elim, nofun⟩

theorem Atom.array_alike_iff {key value : Ty} {nonEmpty : Bool} {b : Atom} :
    (Atom.array key value nonEmpty).Alike b ↔
      ∃ k v, b = .array k v nonEmpty ∧ key.Alike k ∧ value.Alike v := by
  cases b with
  | array k v nonEmpty' =>
    constructor
    · rintro ⟨hk, hv, rfl⟩
      exact ⟨k, v, rfl, hk, hv⟩
    · rintro ⟨_, _, ⟨⟩, hk, hv⟩
      exact ⟨hk, hv, rfl⟩
  | _ => exact ⟨False.elim, nofun⟩

theorem Atom.list_alike_iff {value : Ty} {nonEmpty : Bool} {b : Atom} :
    (Atom.list value nonEmpty).Alike b ↔ ∃ v, b = .list v nonEmpty ∧ value.Alike v := by
  cases b with
  | list v nonEmpty' =>
    constructor
    · rintro ⟨hv, rfl⟩
      exact ⟨v, rfl, hv⟩
    · rintro ⟨_, ⟨⟩, hv⟩
      exact ⟨hv, rfl⟩
  | _ => exact ⟨False.elim, nofun⟩

/-- Only a keyword is alike to it. -/
theorem Atom.alike_keyword_iff {w : Keyword} {a : Atom} : a.Alike (.keyword w) ↔ a = .keyword w := by
  refine ⟨fun h => ?_, fun h => h ▸ Atom.keyword_alike_iff.2 rfl⟩
  cases a with
  | keyword v => exact (Atom.keyword_alike_iff.1 h).symm
  | literal x => cases Atom.literal_alike_iff.1 h
  | classString bound => cases Atom.classString_alike_iff.1 h
  | object o => obtain ⟨_, h, -⟩ := Atom.object_alike_iff.1 h; cases h
  | generic o params => obtain ⟨_, _, h, -⟩ := Atom.generic_alike_iff.1 h; cases h
  | record r => obtain ⟨_, h, -⟩ := Atom.record_alike_iff.1 h; cases h
  | callable c => obtain ⟨_, h, -⟩ := Atom.callable_alike_iff.1 h; cases h
  | template name scope bound => obtain ⟨_, h, -⟩ := Atom.template_alike_iff.1 h; cases h
  | array key value nonEmpty => obtain ⟨_, _, h, -⟩ := Atom.array_alike_iff.1 h; cases h
  | list value nonEmpty => obtain ⟨_, h, -⟩ := Atom.list_alike_iff.1 h; cases h

/-- Each atom of a type has its counterpart in a type that is alike. -/
theorem Ty.Alike.exists_mem {s t : Ty} (h : s.Alike t) {a : Atom} (ha : a ∈ s.atoms) :
    ∃ b ∈ t.atoms, a.Alike b := by
  obtain ⟨others, hall, hperm⟩ := Ty.alike_iff.1 h
  obtain ⟨b, hb, hab⟩ := exists_mem_of_forall₂ hall ha
  exact ⟨b, hperm.mem_iff.1 hb, hab⟩

theorem Ty.Alike.exists_mem_left {s t : Ty} (h : s.Alike t) {b : Atom} (hb : b ∈ t.atoms) :
    ∃ a ∈ s.atoms, a.Alike b := by
  obtain ⟨others, hall, hperm⟩ := Ty.alike_iff.1 h
  exact exists_mem_of_forall₂ hall.flip (hperm.mem_iff.2 hb)

/-- An atom that is alike to an object is one of the same class with facets that are alike. -/
theorem Atom.Alike.exists_object {a b : Atom} (h : a.Alike b) {o : ObjectType}
    (ho : a.object? = some o) :
    ∃ p, b.object? = some p ∧ o.name = p.name ∧ List.Forall₂ Atom.Alike o.facets p.facets := by
  cases a with
  | object q =>
    obtain rfl := Option.some.inj ho
    obtain ⟨p, rfl, hp⟩ := Atom.object_alike_iff.1 h
    exact ⟨p, rfl, hp⟩
  | generic q ts =>
    obtain rfl := Option.some.inj ho
    obtain ⟨p, us, rfl, hname, hfacets, -⟩ := Atom.generic_alike_iff.1 h
    exact ⟨p, rfl, hname, hfacets⟩
  | _ => cases ho

/-! ### Fields that are alike -/

theorem Record.map_fst_eq_of_alike {l m : List (Key × Ty)} (h : List.Forall₂ Record.AlikeField l m) :
    l.map (·.1) = m.map (·.1) :=
  map_eq_of_forall₂ (fun _ _ _ _ hfg => hfg.1) h

/-- The fields under one key have the same mark and types that are alike. -/
theorem Record.rel_get?_of_alike {l m : List (Key × Ty)} (h : List.Forall₂ Record.AlikeField l m)
    (k : Key) :
    Option.Rel (fun t u => t.optional = u.optional ∧ t.Alike u) (Keyed.get? k l)
      (Keyed.get? k m) := by
  induction h with
  | nil => exact .none
  | @cons f g _ _ hfg _ ih =>
    obtain ⟨j, t⟩ := f
    obtain ⟨j', u⟩ := g
    obtain ⟨rfl, hmark, htu⟩ := hfg
    by_cases hk : j = k
    · simp only [Keyed.get?, hk, ↓reduceIte]
      exact .some ⟨hmark, htu⟩
    · simpa only [Keyed.get?, hk, ↓reduceIte] using ih

/-! ### An equivalence -/

theorem Ty.alike_refl_of {t : Ty} (h : ∀ a ∈ t.atoms, a.Alike a) : t.Alike t :=
  Ty.alike_iff.2 ⟨t.atoms, List.forall₂_same.2 h, List.Perm.refl _⟩

theorem Atom.alike_refl (a : Atom) : a.Alike a := by
  induction a using Atom.induction with
  | step a facets inside =>
    have types : ∀ t ∈ a.types, t.Alike t := fun t ht => Ty.alike_refl_of (inside t ht)
    cases a with
    | keyword w => exact Atom.keyword_alike_iff.2 rfl
    | literal x => exact Atom.literal_alike_iff.2 rfl
    | classString bound => exact Atom.classString_alike_iff.2 rfl
    | object o => exact Atom.object_alike_iff.2 ⟨o, rfl, rfl, List.forall₂_same.2 facets⟩
    | generic o params =>
      exact Atom.generic_alike_iff.2
        ⟨o, params, rfl, rfl, List.forall₂_same.2 facets, List.forall₂_same.2 types⟩
    | record r =>
      refine Atom.record_alike_iff.2 ⟨r, rfl, List.forall₂_same.2 fun f hf => ⟨rfl, rfl, ?_⟩, rfl, rfl⟩
      exact types _ (List.mem_map_of_mem hf)
    | callable c =>
      refine Atom.callable_alike_iff.2
        ⟨c, rfl, List.forall₂_same.2 fun p hp => ⟨?_, rfl, rfl, rfl⟩, ?_, rfl, rfl⟩
      · cases ht : p.type with
        | none => exact .none
        | some t => exact .some (types t (Callable.mem_types_of_param hp ht))
      · cases ht : c.result with
        | none => exact .none
        | some t => exact .some (types t (List.mem_append_right _ (by simp [ht])))
    | template name scope bound =>
      exact Atom.template_alike_iff.2 ⟨bound, rfl, types bound (by simp [Atom.types])⟩
    | array key value nonEmpty =>
      exact Atom.array_alike_iff.2
        ⟨key, value, rfl, types key (by simp [Atom.types]), types value (by simp [Atom.types])⟩
    | list value nonEmpty =>
      exact Atom.list_alike_iff.2 ⟨value, rfl, types value (by simp [Atom.types])⟩

theorem Ty.alike_of_perm {s t : Ty} (h : s.atoms.Perm t.atoms) : s.Alike t :=
  Ty.alike_iff.2 ⟨s.atoms, List.forall₂_same.2 fun a _ => a.alike_refl, h⟩

theorem Ty.alike_refl (t : Ty) : t.Alike t :=
  Ty.alike_of_perm (.refl _)

/-- A relation that can be turned round at each element of a list can be turned round on the list. -/
private theorem forall₂_symm_of {α : Type} {R : α → α → Prop} {l m : List α}
    (h : ∀ a ∈ l, ∀ b, R a b → R b a) (hlm : List.Forall₂ R l m) : List.Forall₂ R m l :=
  (forall₂_imp_of_mem (S := fun a b => R b a) (fun a ha b _ => h a ha b) hlm).flip

private theorem rel_symm_of {α : Type} {R : α → α → Prop} {s t : Option α}
    (h : ∀ a ∈ s, ∀ b, R a b → R b a) (hst : Option.Rel R s t) : Option.Rel R t s := by
  cases hst with
  | none => exact .none
  | some hab => exact .some (h _ rfl _ hab)

theorem Ty.alike_symm_of {s t : Ty} (h : ∀ a ∈ s.atoms, ∀ b : Atom, a.Alike b → b.Alike a)
    (hst : s.Alike t) : t.Alike s := by
  obtain ⟨l, hsl, hlt⟩ := Ty.alike_iff.1 hst
  exact Ty.alike_iff.2 (List.perm_comp_forall₂ hlt.symm (forall₂_symm_of h hsl))

theorem Atom.Alike.symm {a b : Atom} (hab : a.Alike b) : b.Alike a := by
  induction a using Atom.induction generalizing b with
  | step a facets inside =>
    have types : ∀ t ∈ a.types, ∀ u : Ty, t.Alike u → u.Alike t :=
      fun t ht u => Ty.alike_symm_of fun c hc _ => inside t ht c hc
    have facets : ∀ f ∈ a.facets, ∀ g : Atom, f.Alike g → g.Alike f := fun f hf _ => facets f hf
    cases a with
    | keyword w => obtain rfl := Atom.keyword_alike_iff.1 hab; exact hab
    | literal x => obtain rfl := Atom.literal_alike_iff.1 hab; exact hab
    | classString bound => obtain rfl := Atom.classString_alike_iff.1 hab; exact hab
    | object o =>
      obtain ⟨p, rfl, hn, hf⟩ := Atom.object_alike_iff.1 hab
      exact Atom.object_alike_iff.2 ⟨o, rfl, hn.symm, forall₂_symm_of facets hf⟩
    | generic o params =>
      obtain ⟨p, us, rfl, hn, hf, ht⟩ := Atom.generic_alike_iff.1 hab
      exact Atom.generic_alike_iff.2
        ⟨o, params, rfl, hn.symm, forall₂_symm_of facets hf, forall₂_symm_of types ht⟩
    | record r =>
      obtain ⟨q, rfl, hf, hs, hl⟩ := Atom.record_alike_iff.1 hab
      refine Atom.record_alike_iff.2 ⟨r, rfl, forall₂_symm_of ?_ hf, hs.symm, hl.symm⟩
      rintro f hf g ⟨hk, ho, ht⟩
      exact ⟨hk.symm, ho.symm, types _ (List.mem_map_of_mem hf) _ ht⟩
    | callable c =>
      obtain ⟨d, rfl, hp, hr, hc, hpure⟩ := Atom.callable_alike_iff.1 hab
      refine Atom.callable_alike_iff.2
        ⟨c, rfl, forall₂_symm_of ?_ hp, rel_symm_of ?_ hr, hc.symm, hpure.symm⟩
      · rintro p hp q ⟨ht, hb, hv, ho⟩
        refine ⟨rel_symm_of (fun t ht => ?_) ht, hb.symm, hv.symm, ho.symm⟩
        exact types t (Callable.mem_types_of_param hp ht)
      · exact fun t ht => types t (Callable.mem_types_of_result ht)
    | template name scope bound =>
      obtain ⟨u, rfl, ht⟩ := Atom.template_alike_iff.1 hab
      exact Atom.template_alike_iff.2 ⟨bound, rfl, types bound (by simp [Atom.types]) _ ht⟩
    | array key value nonEmpty =>
      obtain ⟨k, v, rfl, hk, hv⟩ := Atom.array_alike_iff.1 hab
      exact Atom.array_alike_iff.2
        ⟨key, value, rfl, types key (by simp [Atom.types]) _ hk,
          types value (by simp [Atom.types]) _ hv⟩
    | list value nonEmpty =>
      obtain ⟨v, rfl, hv⟩ := Atom.list_alike_iff.1 hab
      exact Atom.list_alike_iff.2 ⟨value, rfl, types value (by simp [Atom.types]) _ hv⟩

theorem Ty.Alike.symm {s t : Ty} (h : s.Alike t) : t.Alike s :=
  Ty.alike_symm_of (fun _ _ _ hab => hab.symm) h

/-- A relation that can be composed from each element of a list on can be composed on the list. -/
private theorem forall₂_trans_of {α : Type} {R : α → α → Prop} {l m n : List α}
    (h : ∀ a ∈ l, ∀ b c, R a b → R b c → R a c) (hlm : List.Forall₂ R l m) (hmn : List.Forall₂ R m n) :
    List.Forall₂ R l n := by
  induction hlm generalizing n with
  | nil => exact hmn
  | cons hab _ ih =>
    cases hmn with
    | cons hbc rest =>
      exact .cons (h _ List.mem_cons_self _ _ hab hbc)
        (ih (fun a ha => h a (List.mem_cons_of_mem _ ha)) rest)

theorem Ty.alike_trans_of {s t u : Ty}
    (h : ∀ a ∈ s.atoms, ∀ b c : Atom, a.Alike b → b.Alike c → a.Alike c) (hst : s.Alike t)
    (htu : t.Alike u) : s.Alike u := by
  obtain ⟨l, hsl, hlt⟩ := Ty.alike_iff.1 hst
  obtain ⟨m, htm, hmu⟩ := Ty.alike_iff.1 htu
  obtain ⟨n, hln, hnm⟩ := List.perm_comp_forall₂ hlt htm
  exact Ty.alike_iff.2 ⟨n, forall₂_trans_of h hsl hln, hnm.trans hmu⟩

private theorem rel_trans_of {α : Type} {R : α → α → Prop} {s t u : Option α}
    (h : ∀ a ∈ s, ∀ b c, R a b → R b c → R a c) (hst : Option.Rel R s t) (htu : Option.Rel R t u) :
    Option.Rel R s u := by
  cases hst with
  | none => exact htu
  | some hab =>
    cases htu with
    | some hbc => exact .some (h _ rfl _ _ hab hbc)

theorem Atom.Alike.trans {a b c : Atom} (hab : a.Alike b) (hbc : b.Alike c) : a.Alike c := by
  induction a using Atom.induction generalizing b c with
  | step a facets inside =>
    have types : ∀ t ∈ a.types, ∀ u v : Ty, t.Alike u → u.Alike v → t.Alike v :=
      fun t ht u v => Ty.alike_trans_of fun d hd _ _ => inside t ht d hd
    have facets : ∀ f ∈ a.facets, ∀ g k : Atom, f.Alike g → g.Alike k → f.Alike k :=
      fun f hf _ _ => facets f hf
    cases a with
    | keyword w => obtain rfl := Atom.keyword_alike_iff.1 hab; exact hbc
    | literal x => obtain rfl := Atom.literal_alike_iff.1 hab; exact hbc
    | classString bound => obtain rfl := Atom.classString_alike_iff.1 hab; exact hbc
    | object o =>
      obtain ⟨p, rfl, hn, hf⟩ := Atom.object_alike_iff.1 hab
      obtain ⟨q, rfl, hn', hf'⟩ := Atom.object_alike_iff.1 hbc
      exact Atom.object_alike_iff.2 ⟨q, rfl, hn.trans hn', forall₂_trans_of facets hf hf'⟩
    | generic o params =>
      obtain ⟨p, us, rfl, hn, hf, ht⟩ := Atom.generic_alike_iff.1 hab
      obtain ⟨q, vs, rfl, hn', hf', ht'⟩ := Atom.generic_alike_iff.1 hbc
      exact Atom.generic_alike_iff.2
        ⟨q, vs, rfl, hn.trans hn', forall₂_trans_of facets hf hf', forall₂_trans_of types ht ht'⟩
    | record r =>
      obtain ⟨q, rfl, hf, hs, hl⟩ := Atom.record_alike_iff.1 hab
      obtain ⟨p, rfl, hf', hs', hl'⟩ := Atom.record_alike_iff.1 hbc
      refine Atom.record_alike_iff.2 ⟨p, rfl, forall₂_trans_of ?_ hf hf', hs.trans hs', hl.trans hl'⟩
      rintro f hf g k ⟨hk, ho, ht⟩ ⟨hk', ho', ht'⟩
      exact ⟨hk.trans hk', ho.trans ho', types _ (List.mem_map_of_mem hf) _ _ ht ht'⟩
    | callable c =>
      obtain ⟨d, rfl, hp, hr, hc, hpure⟩ := Atom.callable_alike_iff.1 hab
      obtain ⟨e, rfl, hp', hr', hc', hpure'⟩ := Atom.callable_alike_iff.1 hbc
      refine Atom.callable_alike_iff.2
        ⟨e, rfl, forall₂_trans_of ?_ hp hp', rel_trans_of ?_ hr hr', hc.trans hc', hpure.trans hpure'⟩
      · rintro p hp q k ⟨ht, hb, hv, ho⟩ ⟨ht', hb', hv', ho'⟩
        refine ⟨rel_trans_of (fun t ht => ?_) ht ht', hb.trans hb', hv.trans hv', ho.trans ho'⟩
        exact types t (Callable.mem_types_of_param hp ht)
      · exact fun t ht => types t (Callable.mem_types_of_result ht)
    | template name scope bound =>
      obtain ⟨u, rfl, ht⟩ := Atom.template_alike_iff.1 hab
      obtain ⟨v, rfl, ht'⟩ := Atom.template_alike_iff.1 hbc
      exact Atom.template_alike_iff.2 ⟨v, rfl, types bound (by simp [Atom.types]) _ _ ht ht'⟩
    | array key value nonEmpty =>
      obtain ⟨k, v, rfl, hk, hv⟩ := Atom.array_alike_iff.1 hab
      obtain ⟨k', v', rfl, hk', hv'⟩ := Atom.array_alike_iff.1 hbc
      exact Atom.array_alike_iff.2 ⟨k', v', rfl, types key (by simp [Atom.types]) _ _ hk hk',
        types value (by simp [Atom.types]) _ _ hv hv'⟩
    | list value nonEmpty =>
      obtain ⟨v, rfl, hv⟩ := Atom.list_alike_iff.1 hab
      obtain ⟨v', rfl, hv'⟩ := Atom.list_alike_iff.1 hbc
      exact Atom.list_alike_iff.2 ⟨v', rfl, types value (by simp [Atom.types]) _ _ hv hv'⟩

/-! ### The parts of alike types -/

theorem Atom.Alike.exists_mem_types {a b : Atom} (h : a.Alike b) {t : Ty} (ht : t ∈ a.types) :
    ∃ u ∈ b.types, t.Alike u := by
  cases a with
  | generic o ts =>
    obtain ⟨p, us, rfl, -, -, hparams⟩ := Atom.generic_alike_iff.1 h
    exact exists_mem_of_forall₂ hparams ht
  | record r =>
    obtain ⟨q, rfl, hfields, -⟩ := Atom.record_alike_iff.1 h
    obtain ⟨f, hf, rfl⟩ := List.mem_map.1 ht
    obtain ⟨g, hg, hfg⟩ := exists_mem_of_forall₂ hfields hf
    exact ⟨g.2, List.mem_map_of_mem hg, hfg.2.2⟩
  | callable c =>
    obtain ⟨d, rfl, hparams, hresult, -⟩ := Atom.callable_alike_iff.1 h
    rcases List.mem_append.1 ht with ht | ht
    · obtain ⟨p, hp, ht⟩ := List.mem_filterMap.1 ht
      obtain ⟨q, hq, hpq⟩ := exists_mem_of_forall₂ hparams hp
      obtain ⟨u, hu, htu⟩ := exists_mem_of_rel hpq.1 ht
      exact ⟨u, Callable.mem_types_of_param hq hu, htu⟩
    · obtain ⟨u, hu, htu⟩ := exists_mem_of_rel hresult (Option.mem_toList.1 ht)
      exact ⟨u, Callable.mem_types_of_result hu, htu⟩
  | template name scope bound =>
    obtain ⟨u, rfl, hbound⟩ := Atom.template_alike_iff.1 h
    obtain rfl := List.mem_singleton.1 ht
    exact ⟨u, List.mem_singleton.2 rfl, hbound⟩
  | array key value nonEmpty =>
    obtain ⟨k, v, rfl, hkey, hvalue⟩ := Atom.array_alike_iff.1 h
    rcases List.mem_pair.1 ht with rfl | rfl
    · exact ⟨k, List.mem_pair.2 (.inl rfl), hkey⟩
    · exact ⟨v, List.mem_pair.2 (.inr rfl), hvalue⟩
  | list value nonEmpty =>
    obtain ⟨v, rfl, hvalue⟩ := Atom.list_alike_iff.1 h
    obtain rfl := List.mem_singleton.1 ht
    exact ⟨v, List.mem_singleton.2 rfl, hvalue⟩
  | _ => cases ht

theorem Atom.Alike.exists_mem_facets {a b : Atom} (h : a.Alike b) {f : Atom} (hf : f ∈ a.facets) :
    ∃ g ∈ b.facets, f.Alike g := by
  cases a with
  | object o =>
    obtain ⟨p, rfl, -, hfacets⟩ := Atom.object_alike_iff.1 h
    exact exists_mem_of_forall₂ hfacets hf
  | generic o ts =>
    obtain ⟨p, us, rfl, -, hfacets, -⟩ := Atom.generic_alike_iff.1 h
    exact exists_mem_of_forall₂ hfacets hf
  | _ => cases hf

theorem Atom.Alike.exists_partOf {a b c : Atom} (h : a.Alike b) (hc : c.PartOf a) :
    ∃ d, d.PartOf b ∧ c.Alike d := by
  induction hc generalizing b with
  | self => exact ⟨b, .self, h⟩
  | facet hf _ ih =>
    obtain ⟨g, hg, hfg⟩ := h.exists_mem_facets hf
    obtain ⟨d, hd, hcd⟩ := ih hfg
    exact ⟨d, .facet hg hd, hcd⟩
  | inside ht hmem _ ih =>
    obtain ⟨u, hu, htu⟩ := h.exists_mem_types ht
    obtain ⟨e, he, hmem⟩ := htu.exists_mem hmem
    obtain ⟨d, hd, hcd⟩ := ih hmem
    exact ⟨d, .inside hu he hd, hcd⟩

theorem Atom.Alike.isProper {a b : Atom} (h : a.Alike b) (ha : a.IsProper) : b.IsProper := by
  cases a with
  | literal x => exact Atom.literal_alike_iff.1 h ▸ ha
  | record r =>
    obtain ⟨q, rfl, hfields, -⟩ := Atom.record_alike_iff.1 h
    have hkeys : r.keys = q.keys := Record.map_fst_eq_of_alike hfields
    exact (hkeys ▸ ha : q.keys.Nodup)
  | keyword w => exact Atom.keyword_alike_iff.1 h ▸ trivial
  | classString bound => exact Atom.classString_alike_iff.1 h ▸ trivial
  | object o => obtain ⟨_, rfl, -⟩ := Atom.object_alike_iff.1 h; trivial
  | generic o ts => obtain ⟨_, _, rfl, -⟩ := Atom.generic_alike_iff.1 h; trivial
  | callable c => obtain ⟨_, rfl, -⟩ := Atom.callable_alike_iff.1 h; trivial
  | template name scope bound => obtain ⟨_, rfl, -⟩ := Atom.template_alike_iff.1 h; trivial
  | array key value nonEmpty => obtain ⟨_, _, rfl, -⟩ := Atom.array_alike_iff.1 h; trivial
  | list value nonEmpty => obtain ⟨_, rfl, -⟩ := Atom.list_alike_iff.1 h; trivial

theorem Ty.Alike.isProper {s t : Ty} (h : s.Alike t) (hs : s.IsProper) : t.IsProper := by
  rintro b ⟨c, hc, hb⟩
  obtain ⟨d, hd, hcd⟩ := h.exists_mem_left hc
  obtain ⟨a, ha, hab⟩ := hcd.symm.exists_partOf hb
  exact hab.symm.isProper (hs a ⟨d, hd, ha⟩)

/-- Alike types nest equally deep. -/
theorem Ty.Alike.nestsWithin {n : Nat} {s t : Ty} (h : s.Alike t) (hs : s.NestsWithin n) :
    t.NestsWithin n := by
  induction n generalizing s t with
  | zero => exact hs.elim
  | succ n ih =>
    intro b hb u hu
    obtain ⟨a, ha, hab⟩ := h.exists_mem_left hb
    obtain ⟨v, hv, huv⟩ := hab.symm.exists_mem_types hu
    exact ih huv.symm (hs a ha v hv)

/-! ### Alike types as a simulation -/

private theorem Param.Alike.matches {p q : Param} (h : p.Alike q) : Param.Matches Ty.Alike p q := by
  obtain ⟨htype, href, hvariadic, hoptional⟩ := h
  refine ⟨?_, href, hvariadic, hoptional⟩
  unfold Param.written
  cases hp : p.type with
  | none =>
    cases hq : q.type with
    | none => exact Ty.alike_iff.2 ⟨_, .cons (Atom.keyword_alike_iff.2 rfl) .nil, .refl _⟩
    | some u => rw [hp, hq] at htype; cases htype
  | some t =>
    cases hq : q.type with
    | none => rw [hp, hq] at htype; cases htype
    | some u =>
      rw [hp, hq] at htype
      cases htype with
      | some htu => exact htu

theorem Atom.Alike.matches {a b : Atom} (h : a.Alike b) : Atom.Matches Ty.Alike Atom.Alike a b := by
  cases a with
  | keyword w => rw [Atom.keyword_alike_iff.1 h]; rfl
  | literal x => rw [Atom.literal_alike_iff.1 h]; rfl
  | classString bound => rw [Atom.classString_alike_iff.1 h]; rfl
  | object o =>
    obtain ⟨p, rfl, hname, hfacets⟩ := Atom.object_alike_iff.1 h
    exact ⟨hname, hfacets⟩
  | generic o params =>
    obtain ⟨p, us, rfl, hname, hfacets, hparams⟩ := Atom.generic_alike_iff.1 h
    exact ⟨hname, hfacets, hparams⟩
  | record r =>
    obtain ⟨q, rfl, hfields, hmarks⟩ := Atom.record_alike_iff.1 h
    exact ⟨hfields.imp fun f g hfg => ⟨hfg.1, hfg.2.1, hfg.2.2⟩, hmarks⟩
  | callable c =>
    obtain ⟨d, rfl, hparams, hrest⟩ := Atom.callable_alike_iff.1 h
    exact ⟨hparams.imp fun p q hpq => hpq.matches, hrest⟩
  | template name scope bound =>
    obtain ⟨u, rfl, hbound⟩ := Atom.template_alike_iff.1 h
    exact ⟨rfl, rfl, hbound⟩
  | array key value nonEmpty =>
    obtain ⟨k, v, rfl, hkey, hvalue⟩ := Atom.array_alike_iff.1 h
    exact ⟨hkey, hvalue, rfl⟩
  | list value nonEmpty =>
    obtain ⟨v, rfl, hvalue⟩ := Atom.list_alike_iff.1 h
    exact ⟨hvalue, rfl⟩

private theorem simulation_alike : Ty.Simulation Ty.Alike Atom.Alike where
  symm h := h.symm
  exists_atom h _ ha := h.exists_mem ha
  atom h := h.matches

theorem Ty.Alike.agrees {s t : Ty} (h : s.Alike t) : s.Agrees t :=
  ⟨_, _, simulation_alike, h⟩

/-! ### Atoms of one identity -/

/-- In the types taken together, atoms of one identity are alike. -/
def Ty.Coherent (types : List Ty) : Prop :=
  ∀ s ∈ types, ∀ t ∈ types, ∀ a b, s.Has a → t.Has b → a.identity = b.identity → a.Alike b

/-- Types whose parts all have different identities are coherent. -/
theorem Ty.Coherent.of_nodup {types : List Ty} (parts : List Atom)
    (hn : (parts.map Atom.identity).Nodup) (h : ∀ t ∈ types, ∀ b, t.Has b → b ∈ parts) :
    Ty.Coherent types := by
  intro s hs t ht a b ha hb e
  have hab : a = b := List.inj_on_of_nodup_map hn (h s hs a ha) (h t ht b hb) e
  exact hab ▸ a.alike_refl

end TypeProbe
