import Mathlib.Data.Nat.Find
import TypeProbe.Proofs.Containment.Data
import TypeProbe.Proofs.Containment.Monotone

/-!
# Containment without a limit to the depth

The rules ask about pairs of types whose heights add up to less (`Ty.Asks.height_lt`), so the
judgement that goes by the rules alone, `Ty.liesWithin`, comes to an end on all types, and there is
only one such judgement.  The limited judgement accepts nothing that it does not accept, and is the
same on all types whose heights add up to no more than the limit.
-/

namespace TypeProbe

variable {h : Hierarchy}

/-! ### Heights -/

theorem Ty.NestsWithin.mono {m n : Nat} {t : Ty} (ht : t.NestsWithin m) (hmn : m ≤ n) :
    t.NestsWithin n := by
  induction n generalizing m t with
  | zero =>
    obtain rfl : m = 0 := by omega
    exact ht
  | succ n ih =>
    cases m with
    | zero => exact ht.elim
    | succ m => exact fun a ha u hu => ih (ht a ha u hu) (by omega)

/-- Finitely many statements that hold from some number on hold together from some number on. -/
private theorem exists_forall_mem {α : Type} {P : Nat → α → Prop}
    (hP : ∀ {m n a}, P m a → m ≤ n → P n a) {l : List α} (h : ∀ a ∈ l, ∃ n, P n a) :
    ∃ n, ∀ a ∈ l, P n a := by
  induction l with
  | nil => exact ⟨0, by simp⟩
  | cons a rest ih =>
    obtain ⟨m, hm⟩ := h a List.mem_cons_self
    obtain ⟨n, hn⟩ := ih fun b hb => h b (List.mem_cons_of_mem _ hb)
    refine ⟨max m n, fun b hb => ?_⟩
    rcases List.mem_cons.1 hb with rfl | hb
    · exact hP hm (Nat.le_max_left m n)
    · exact hP (hn b hb) (Nat.le_max_right m n)

private theorem exists_nestsWithin_of {t : Ty}
    (h : ∀ a ∈ t.atoms, ∃ n, ∀ u ∈ a.types, u.NestsWithin n) : ∃ n, t.NestsWithin n := by
  obtain ⟨n, hn⟩ := exists_forall_mem (fun ha hmn u hu => (ha u hu).mono hmn) h
  exact ⟨n + 1, hn⟩

theorem Ty.exists_nestsWithin (t : Ty) : ∃ n, t.NestsWithin n := by
  have atom : ∀ a : Atom, ∃ n, ∀ u ∈ a.types, u.NestsWithin n := by
    intro a
    induction a using Atom.induction with
    | step a _ inside =>
      have types : ∀ u ∈ a.types, ∃ n, u.NestsWithin n :=
        fun u hu => exists_nestsWithin_of (inside u hu)
      exact exists_forall_mem (P := Ty.NestsWithin) Ty.NestsWithin.mono types
  exact exists_nestsWithin_of fun a _ => atom a

/-- How many unions deep the type nests; a union of atoms without types inside is one deep. -/
def Ty.height (t : Ty) : Nat :=
  Nat.find t.exists_nestsWithin

theorem Ty.height_le_iff {t : Ty} {n : Nat} : t.height ≤ n ↔ t.NestsWithin n := by
  rw [Ty.height, Nat.find_le_iff]
  exact ⟨fun ⟨_, hmn, hm⟩ => hm.mono hmn, fun hn => ⟨n, Nat.le_refl n, hn⟩⟩

theorem Ty.height_pos (t : Ty) : 0 < t.height := by
  by_contra hn
  exact Ty.height_le_iff.1 (by omega : t.height ≤ 0)

theorem Ty.height_lt_of_mem_types {t u : Ty} {a : Atom} (ha : a ∈ t.atoms) (hu : u ∈ a.types) :
    u.height < t.height := by
  obtain ⟨n, hn⟩ : ∃ n, t.height = n + 1 := ⟨t.height - 1, by have := t.height_pos; omega⟩
  have ht : t.NestsWithin (n + 1) := Ty.height_le_iff.1 hn.le
  have := Ty.height_le_iff.2 (ht a ha u hu)
  omega

/-! ### What is asked about is lower -/

private theorem height_le_one_of {t : Ty} (h : ∀ a ∈ t.atoms, a.types = []) : t.height ≤ 1 :=
  Ty.height_le_iff.2 fun a ha u hu => by simp [h a ha] at hu

theorem Record.height_keyType_lt {t : Ty} {r : Record} (hr : .record r ∈ t.atoms) (hn : r.fields ≠ []) :
    r.keyType.height < t.height := by
  obtain ⟨f, hf⟩ := List.exists_mem_of_ne_nil _ hn
  have hfield : f.2.height < t.height := Ty.height_lt_of_mem_types hr (List.mem_map_of_mem hf)
  have hkeys : r.keyType.height ≤ 1 := by
    refine height_le_one_of fun a ha => ?_
    rcases Record.mem_keyType ha with ⟨k, -, rfl⟩ | ⟨-, rfl⟩ <;> rfl
  have := f.2.height_pos
  omega

/-- The type of the values of a record is as high as the highest of its fields. -/
theorem Record.height_valueType_lt {t : Ty} {r : Record} (hr : .record r ∈ t.atoms)
    (hn : r.fields ≠ []) : r.valueType.height < t.height := by
  obtain ⟨f, hf⟩ := List.exists_mem_of_ne_nil _ hn
  have hfield : f.2.height < t.height := Ty.height_lt_of_mem_types hr (List.mem_map_of_mem hf)
  obtain ⟨n, hn⟩ : ∃ n, t.height = n + 2 := ⟨t.height - 2, by have := f.2.height_pos; omega⟩
  suffices hvalue : r.valueType.NestsWithin (n + 1) by
    have := Ty.height_le_iff.2 hvalue
    omega
  intro a ha u hu
  rcases Record.mem_valueType ha with ⟨w, hw, haw⟩ | ⟨-, rfl⟩
  · have hwt : w.height < t.height := Ty.height_lt_of_mem_types hr hw
    have huw : u.height < w.height := Ty.height_lt_of_mem_types haw hu
    exact Ty.height_le_iff.1 (by omega)
  · cases hu

/-- The types of a pair that the rule for two atoms asks about are lower than the types of the
atoms, in one order or, for the parameters of callables, in the other. -/
private theorem height_lt_of_asks {s t u v : Ty} {a b : Atom} (ha : a ∈ s.atoms) (hb : b ∈ t.atoms)
    (h : a.Asks b u v) :
    (u.height < s.height ∧ v.height < t.height) ∨ (u.height < t.height ∧ v.height < s.height) := by
  have inside : ∀ w ∈ a.types, ∀ x ∈ b.types, w.height < s.height ∧ x.height < t.height :=
    fun w hw x hx => ⟨Ty.height_lt_of_mem_types ha hw, Ty.height_lt_of_mem_types hb hx⟩
  cases h with
  | param huv =>
    obtain ⟨hu, hv⟩ := List.of_mem_zip huv
    exact .inl (inside u hu v hv)
  | field hu hv => exact .inl (inside u (Record.mem_types_of_get? hu) v (List.mem_map_of_mem hv))
  | recordKeys hn =>
    exact .inl ⟨Record.height_keyType_lt ha hn, Ty.height_lt_of_mem_types hb (by simp [Atom.types])⟩
  | recordValues hn =>
    exact .inl ⟨Record.height_valueType_lt ha hn, Ty.height_lt_of_mem_types hb (by simp [Atom.types])⟩
  | recordElement hu => exact .inl (inside u hu v (by simp [Atom.types]))
  | element | elementValue | arrayKey | arrayValue =>
    exact .inl (inside u (by simp [Atom.types]) v (by simp [Atom.types]))
  | argument hp hu hv =>
    obtain ⟨q, hq, hqv⟩ := Option.bind_eq_some_iff.1 hv
    have hvc := Callable.mem_types_of_param (Callable.mem_of_paramAt? hq) hqv
    have hud := Callable.mem_types_of_param (List.mem_of_getElem? hp) hu
    exact .inr (inside v hvc u hud).symm
  | result hu hv =>
    exact .inl (inside u (Callable.mem_types_of_result hu) v (Callable.mem_types_of_result hv))

/-- The heights of a pair that the rules ask about add up to less. -/
theorem Ty.Asks.height_lt {s t u v : Ty} (h : s.Asks t u v) :
    u.height + v.height < s.height + t.height := by
  rcases h with ⟨a, ha, b, hb, hab⟩ | ⟨⟨a, ha, hbound⟩, rfl⟩
  · rcases height_lt_of_asks ha hb hab with ⟨hu, hv⟩ | ⟨hu, hv⟩ <;> omega
  · -- A bound is judged against the whole target, so only the first type gets lower.
    have hu : u.height < s.height := by
      cases a with
      | template name scope bound =>
        obtain rfl : bound = u := Option.some.inj hbound
        exact Ty.height_lt_of_mem_types ha (by simp [Atom.types])
      | _ => cases hbound
    omega

/-! ### The judgement without a limit -/

/-- Whether the first type lies within the second by the rules alone.  All pairs that they ask about
are lower, so nothing is cut off here. -/
def Ty.liesWithin (h : Hierarchy) (s t : Ty) : Bool :=
  s.fits h
    (fun u v => if _ : u.height + v.height < s.height + t.height then u.liesWithin h v else false) t
termination_by s.height + t.height

theorem Ty.liesWithin_eq (s t : Ty) : s.liesWithin h t = s.fits h (Ty.liesWithin h) t := by
  rw [Ty.liesWithin]
  exact Ty.fits_congr fun u v huv => dif_pos huv.height_lt

/-- A judgement that goes by the rules is this one. -/
theorem Ty.eq_liesWithin {judge : Ty → Ty → Bool} (hj : ∀ s t, judge s t = s.fits h judge t) :
    judge = Ty.liesWithin h := by
  have agree : ∀ p : Ty × Ty, judge p.1 p.2 = p.1.liesWithin h p.2 := by
    intro p
    induction p using (measure fun p : Ty × Ty => p.1.height + p.2.height).wf.induction with
    | h p ih =>
      rw [hj, Ty.liesWithin_eq]
      exact Ty.fits_congr fun u v huv => ih (u, v) huv.height_lt
  funext s t
  exact agree (s, t)

theorem Ty.liesWithin_of_within {depth : Nat} {s t : Ty} (hw : within h depth s t = true) :
    s.liesWithin h t = true := by
  induction depth generalizing s t with
  | zero => cases hw
  | succ depth ih =>
    rw [Ty.liesWithin_eq]
    exact Ty.fits_mono (fun _ _ => id) (fun _ _ _ => ih) hw

/-- As many steps as the heights allow are enough. -/
theorem within_eq_liesWithin {depth : Nat} {s t : Ty} (hd : s.height + t.height ≤ depth + 1) :
    within h depth s t = s.liesWithin h t := by
  induction depth generalizing s t with
  | zero =>
    have hs := s.height_pos
    have ht := t.height_pos
    omega
  | succ depth ih =>
    rw [Ty.liesWithin_eq]
    refine Ty.fits_congr fun u v huv => ih ?_
    have := huv.height_lt
    omega

/-- There is exactly one judgement by the rules alone.  They consult it on what they ask about, and
asking comes to an end.  The limited judgement accepts nothing else, and as long as the heights add
up to no more than the limit it answers the same. -/
theorem Ty.isWithin_eq_liesWithin (h : Hierarchy) :
    (∀ judge : Ty → Ty → Bool, (∀ s t, judge s t = s.fits h judge t) ↔ judge = Ty.liesWithin h) ∧
      (∀ (sub sub' : Ty → Ty → Bool) (s t : Ty), (∀ u v, s.Asks t u v → sub u v = sub' u v) →
        s.fits h sub t = s.fits h sub' t) ∧
      (WellFounded fun p q : Ty × Ty => q.1.Asks q.2 p.1 p.2) ∧
      ∀ s t : Ty, (s.isWithin h t = true → s.liesWithin h t = true) ∧
        (s.height + t.height ≤ depthLimit → s.isWithin h t = s.liesWithin h t) := by
  refine ⟨fun judge => ⟨Ty.eq_liesWithin, ?_⟩, fun _ _ _ _ => Ty.fits_congr, ?_,
    fun s t => ⟨?_, fun hd => ?_⟩⟩
  · rintro rfl
    exact Ty.liesWithin_eq
  · exact Subrelation.wf Ty.Asks.height_lt (measure fun p : Ty × Ty => p.1.height + p.2.height).wf
  · exact Ty.liesWithin_of_within
  · exact within_eq_liesWithin (by omega)

/-- Lists of lists, `n` deep. -/
private def nested : Nat → Ty
  | 0 => .single (.keyword .int)
  | n + 1 => .single (.list (nested n) false)

/-- At the limit the two judgements answer the same, and far enough beyond it they do not. -/
theorem Ty.isWithin_eq_liesWithin_nested :
    ((nested 31).height + (nested 31).height ≤ depthLimit ∧
      (nested 31).isWithin .flat (nested 31) = true ∧ (nested 31).liesWithin .flat (nested 31) = true) ∧
    (nested 65).isWithin .flat (nested 65) = false ∧
      (nested 65).liesWithin .flat (nested 65) = true := by
  have hheight : (nested 31).height ≤ 32 := Ty.height_le_iff.2 (by decide +kernel)
  have hsum : (nested 31).height + (nested 31).height ≤ depthLimit := Nat.add_le_add hheight hheight
  have hwithin : (nested 31).isWithin .flat (nested 31) = true := by decide +kernel
  have hsame := ((Ty.isWithin_eq_liesWithin .flat).2.2.2 (nested 31) (nested 31)).2 hsum
  have hdeep : within .flat 66 (nested 65) (nested 65) = true := by decide +kernel
  exact ⟨⟨hsum, hwithin, hsame ▸ hwithin⟩, by decide +kernel, Ty.liesWithin_of_within hdeep⟩

end TypeProbe
