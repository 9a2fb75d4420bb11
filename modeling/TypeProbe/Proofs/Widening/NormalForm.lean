import TypeProbe.Proofs.Containment.Unlimited
import TypeProbe.Ty.Widen

/-!
# Widened types are in normal form

One step of widening replaces the atoms of a union and leaves the types inside them to further steps
(`Atom.widenedBy`).  The types it goes on with need not be parts of the given one: a record is
widened through the union of its keys and the union of the types of its fields.  They are lower all
the same, or `never`, so widening comes to an end (`Ty.wellFounded_goesTo`) and the steps determine
its result (`Ty.eq_widened`).  What widening has reached (`Ty.Exposes`) is no literal and no record,
and widening it once more changes nothing.
-/

namespace TypeProbe

/-! ### Where widening goes -/

/-- The types inside an atom that widening gets to. -/
def Atom.exposedTypes : Atom → List Ty
  | .generic _ params => params
  | .record r => r.types
  | .array key value _ => [key, value]
  | .list value _ => [value]
  | _ => []

/-- The atom is one of the type, or of a list, an array, a record or a type
parameter there, at any depth. -/
inductive Ty.Exposes (b : Atom) : Ty → Prop where
  | atom {t : Ty} : b ∈ t.atoms → Exposes b t
  | inside {t u : Ty} {a : Atom} : a ∈ t.atoms → u ∈ a.exposedTypes → Exposes b u → Exposes b t

theorem Atom.exposedTypes_subset_types (a : Atom) : a.exposedTypes ⊆ a.types := by
  cases a with
  | generic _ _ | record _ | array _ _ _ | list _ _ => exact List.Subset.refl _
  | _ => exact List.nil_subset _

theorem Ty.Exposes.of_inside {t u : Ty} {a b : Atom} (h : t.Exposes a) (hu : u ∈ a.exposedTypes)
    (hb : b ∈ u.atoms) : t.Exposes b := by
  induction h with
  | atom ha => exact .inside ha hu (.atom hb)
  | inside hc hmem _ ih => exact .inside hc hmem ih

theorem Ty.Exposes.has {t : Ty} {a : Atom} (h : t.Exposes a) : t.Has a := by
  induction h with
  | atom ha => exact Ty.has_of_mem ha
  | inside hc hu _ ih => exact .of_inside hc (Atom.exposedTypes_subset_types _ hu) ih

theorem Ty.exposes_single_iff {a b : Atom} :
    (Ty.single a).Exposes b ↔ b = a ∨ ∃ u ∈ a.exposedTypes, u.Exposes b := by
  constructor
  · intro h
    cases h with
    | atom hb => exact .inl (List.mem_singleton.1 hb)
    | inside hc hu h =>
      obtain rfl := List.mem_singleton.1 hc
      exact .inr ⟨_, hu, h⟩
  · rintro (rfl | ⟨u, hu, h⟩)
    · exact .atom (List.mem_singleton.2 rfl)
    · exact .inside (List.mem_singleton.2 rfl) hu h

theorem Ty.exposes_asOptional_iff {t : Ty} {b : Atom} : t.asOptional.Exposes b ↔ t.Exposes b := by
  constructor
  · intro h
    cases h with
    | atom hb => exact .atom hb
    | inside ha hu h => exact .inside ha hu h
  · intro h
    cases h with
    | atom hb => exact .atom hb
    | inside ha hu h => exact .inside ha hu h

/-! ### One step -/

/-- The widened form of an atom, where `widen` widens the types inside it. -/
def Atom.widenedBy (widen : Ty → Ty) : Atom → Atom
  | .literal value => value.widened
  | .record r =>
    if r.isList then .list (widen r.valueType) true
    else .array (widen r.keyType) (widen r.valueType) true
  | .list value nonEmpty => .list (widen value) nonEmpty
  | .array key value nonEmpty => .array (widen key) (widen value) nonEmpty
  | .generic o params => .generic o (params.map widen)
  | a => a

/-- The types that a step goes on with. -/
def Atom.nextTypes : Atom → List Ty
  | .record r => if r.isList then [r.valueType] else [r.keyType, r.valueType]
  | a => a.exposedTypes

/-- Widening the first type goes on with the second. -/
def Ty.GoesTo (t u : Ty) : Prop :=
  ∃ a ∈ t.atoms, u ∈ a.nextTypes

theorem Atom.widened_eq_widenedBy (a : Atom) : a.widened = a.widenedBy Ty.widened := by
  cases a with
  | record r => exact Atom.widened_record r
  | generic o params => rw [Atom.widened, Ty.widenedAll_eq_map, Atom.widenedBy]
  | _ => rfl

theorem Record.mem_nextTypes {r : Record} {u : Ty} (h : u ∈ (Atom.record r).nextTypes) :
    u = r.keyType ∨ u = r.valueType := by
  cases hl : r.isList with
  | true => exact .inr (by simpa [Atom.nextTypes, hl] using h)
  | false => simpa [Atom.nextTypes, hl] using h

theorem Atom.widenedBy_congr {f g : Ty → Ty} {a : Atom} (h : ∀ u ∈ a.nextTypes, f u = g u) :
    a.widenedBy f = a.widenedBy g := by
  cases a with
  | record r =>
    cases hl : r.isList with
    | true =>
      have hvalue := h r.valueType (by simp [Atom.nextTypes, hl])
      simp [Atom.widenedBy, hl, hvalue]
    | false =>
      have hkey := h r.keyType (by simp [Atom.nextTypes, hl])
      have hvalue := h r.valueType (by simp [Atom.nextTypes, hl])
      simp [Atom.widenedBy, hl, hkey, hvalue]
  | generic o params =>
    have hparams : params.map f = params.map g := List.map_congr_left h
    rw [Atom.widenedBy, Atom.widenedBy, hparams]
  | array key value nonEmpty =>
    have hkey := h key (by simp [Atom.nextTypes, Atom.exposedTypes])
    have hvalue := h value (by simp [Atom.nextTypes, Atom.exposedTypes])
    rw [Atom.widenedBy, Atom.widenedBy, hkey, hvalue]
  | list value nonEmpty =>
    have hvalue := h value (by simp [Atom.nextTypes, Atom.exposedTypes])
    rw [Atom.widenedBy, Atom.widenedBy, hvalue]
  | _ => rfl

/-! ### The steps come to an end -/

private theorem acc_never : Acc (fun u t : Ty => t.GoesTo u) (.single (.keyword .never)) := by
  refine ⟨_, fun u hu => ?_⟩
  obtain ⟨a, ha, hu⟩ := hu
  obtain rfl := List.mem_singleton.1 ha
  cases hu

/-- A type that widening goes on with is lower, or `never`, which stands for the keys
and values of an empty record. -/
private theorem height_lt_of_goesTo {t u : Ty} (h : t.GoesTo u) :
    u.height < t.height ∨ u = .single (.keyword .never) := by
  obtain ⟨a, ha, hu⟩ := h
  have inside : u ∈ a.types → u.height < t.height := fun hmem => Ty.height_lt_of_mem_types ha hmem
  cases a with
  | record r =>
    by_cases hn : r.fields = []
    · obtain ⟨fields, isSealed, isList⟩ := r
      obtain rfl : fields = [] := hn
      exact .inr ((Record.mem_nextTypes hu).elim id id)
    · left
      rcases Record.mem_nextTypes hu with rfl | rfl
      · exact Record.height_keyType_lt ha hn
      · exact Record.height_valueType_lt ha hn
  | _ => exact .inl (inside (Atom.exposedTypes_subset_types _ hu))

theorem Ty.wellFounded_goesTo : WellFounded fun u t : Ty => t.GoesTo u := by
  have accessible : ∀ (n : Nat) (t : Ty), t.height ≤ n → Acc (fun u t : Ty => t.GoesTo u) t := by
    intro n
    induction n with
    | zero =>
      intro t hn
      have := t.height_pos
      omega
    | succ n ih =>
      intro t hn
      refine ⟨t, fun u hu => ?_⟩
      rcases height_lt_of_goesTo hu with hlt | rfl
      · exact ih u (by omega)
      · exact acc_never
  exact ⟨fun t => accessible t.height t (Nat.le_refl _)⟩

/-- What goes by the steps is widening. -/
theorem Ty.eq_widened {widen : Ty → Ty} (h : ∀ t, widen t = t.mapAtoms (Atom.widenedBy widen)) :
    widen = Ty.widened := by
  funext t
  induction t using Ty.wellFounded_goesTo.induction with
  | _ t ih =>
    have hatoms : ∀ a ∈ t.atoms, a.widenedBy widen = a.widened := by
      intro a ha
      rw [Atom.widened_eq_widenedBy]
      exact Atom.widenedBy_congr fun u hu => ih u ⟨a, ha, hu⟩
    rw [h, Ty.widened_eq_mapAtoms, Ty.mapAtoms, Ty.mapAtoms, List.map_congr_left hatoms]

/-! ### The second time nothing changes -/

theorem Ty.mem_widened {t : Ty} {c : Atom} (h : c ∈ t.widened.atoms) :
    ∃ a ∈ t.atoms, a.widened = c := by
  rw [Ty.widened_eq_mapAtoms] at h
  exact List.mem_map.1 (Atom.mem_of_mem_distinct h)

private theorem Literal.widened_widened (x : Literal) : x.widened.widened = x.widened := by
  cases x <;> rfl

/-- A union of widened atoms is widened already. -/
private theorem widened_widened_of {t : Ty} (h : ∀ a ∈ t.atoms, a.widened.widened = a.widened) :
    t.widened.widened = t.widened := by
  have hatoms : ∀ c ∈ t.widened.atoms, c.widened = c := by
    intro c hc
    obtain ⟨a, ha, rfl⟩ := Ty.mem_widened hc
    exact h a ha
  have hdistinct : Atom.distinct t.widened.atoms = t.widened.atoms := by
    refine distinctBy_eq_self Atom.identity ?_
    rw [Ty.widened_eq_mapAtoms]
    exact Atom.nodup_distinct _
  have hsame : t.widened.atoms.map Atom.widened = t.widened.atoms := by
    rw [List.map_congr_left hatoms, List.map_id']
  rw [Ty.widened_eq_mapAtoms t.widened, Ty.mapAtoms, hsame, hdistinct]
  obtain ⟨atoms, optional⟩ := t
  rfl

theorem Atom.widened_widened (a : Atom) : a.widened.widened = a.widened := by
  induction a using Atom.induction with
  | step a _ inside =>
    have types : ∀ t ∈ a.types, t.widened.widened = t.widened :=
      fun t ht => widened_widened_of (inside t ht)
    cases a with
    | literal x =>
      rw [Atom.widened]
      exact x.widened_widened
    | record r =>
      -- The values are a union of atoms of the fields, and for those the statement is known.
      have hvalue : r.valueType.widened.widened = r.valueType.widened := by
        refine widened_widened_of fun b hb => ?_
        rcases Record.mem_valueType hb with ⟨t, ht, hbt⟩ | ⟨-, rfl⟩
        · exact inside t ht b hbt
        · rfl
      have hkey : r.keyType.widened.widened = r.keyType.widened := by
        refine widened_widened_of fun b hb => ?_
        rcases Record.mem_keyType hb with ⟨k, -, rfl⟩ | ⟨-, rfl⟩
        · exact k.literal.widened_widened
        · rfl
      rw [Atom.widened_record]
      split
      · rw [Atom.widened, hvalue]
      · rw [Atom.widened, hkey, hvalue]
    | generic o params =>
      have hparams : (params.map Ty.widened).map Ty.widened = params.map Ty.widened := by
        rw [List.map_map]
        exact List.map_congr_left types
      rw [Atom.widened, Atom.widened, Ty.widenedAll_eq_map, Ty.widenedAll_eq_map, hparams]
    | array key value nonEmpty =>
      have hkey := types key (by simp [Atom.types])
      have hvalue := types value (by simp [Atom.types])
      rw [Atom.widened, Atom.widened, hkey, hvalue]
    | list value nonEmpty =>
      have hvalue := types value (by simp [Atom.types])
      rw [Atom.widened, Atom.widened, hvalue]
    | _ => rfl

theorem Ty.widened_widened (t : Ty) : t.widened.widened = t.widened :=
  widened_widened_of fun a _ => a.widened_widened

/-! ### What is left -/

/-- What stands in a type that widening does not change is not changed by it either. -/
private theorem widened_eq_of_exposes {t : Ty} {b : Atom} (h : t.Exposes b) (ht : t.widened = t) :
    b.widened = b := by
  have atoms : ∀ {u : Ty}, u.widened = u → ∀ a ∈ u.atoms, a.widened = a := by
    intro u hu a ha
    rw [← hu] at ha
    obtain ⟨c, -, rfl⟩ := Ty.mem_widened ha
    exact c.widened_widened
  induction h with
  | atom hb => exact atoms ht b hb
  | @inside t u a ha hu _ ih =>
    refine ih ?_
    have hw := atoms ht a ha
    cases a with
    | record r =>
      rw [Atom.widened_record] at hw
      split at hw <;> cases hw
    | generic o params =>
      rw [Atom.widened, Ty.widenedAll_eq_map] at hw
      have hparams : params.map Ty.widened = params := (Atom.generic.inj hw).2
      have hid : params.map Ty.widened = params.map id := by rw [hparams, List.map_id]
      exact List.map_inj_left.1 hid u hu
    | array key value nonEmpty =>
      rw [Atom.widened] at hw
      obtain ⟨hkey, hvalue, -⟩ := Atom.array.inj hw
      rcases List.mem_pair.1 hu with rfl | rfl
      · exact hkey
      · exact hvalue
    | list value nonEmpty =>
      rw [Atom.widened] at hw
      obtain rfl := List.mem_singleton.1 hu
      exact (Atom.list.inj hw).1
    | _ => cases hu

theorem Ty.optional_widened (t : Ty) : t.widened.optional = t.optional := by
  rw [Ty.widened_eq_mapAtoms]
  rfl

theorem Ty.atoms_widened_eq_nil_iff {t : Ty} : t.widened.atoms = [] ↔ t.atoms = [] := by
  rw [Ty.widened_eq_mapAtoms]
  exact (distinctBy_eq_nil_iff Atom.identity).trans List.map_eq_nil_iff

theorem Ty.nodup_widened (t : Ty) : (t.widened.atoms.map Atom.identity).Nodup := by
  rw [Ty.widened_eq_mapAtoms]
  exact Atom.nodup_distinct _

/-- Widening comes to an end on all types, and a step depends on what it goes on with alone, so the
steps determine the result.  In it no literal and no record is left where widening gets to, a second
widening changes nothing, the mark of the slot is kept, and the union has an atom if the given one
has, with no two atoms of one identity. -/
theorem Ty.widened_isNormal :
    ((WellFounded fun u t : Ty => t.GoesTo u) ∧
      (∀ (f g : Ty → Ty) (a : Atom), (∀ u ∈ a.nextTypes, f u = g u) → a.widenedBy f = a.widenedBy g) ∧
      ∀ widen : Ty → Ty, (∀ t, widen t = t.mapAtoms (Atom.widenedBy widen)) ↔ widen = Ty.widened) ∧
      ∀ t : Ty, ((∀ x, ¬ t.widened.Exposes (.literal x)) ∧ ∀ r, ¬ t.widened.Exposes (.record r)) ∧
        t.widened.widened = t.widened ∧ t.widened.optional = t.optional ∧
        (t.widened.atoms = [] ↔ t.atoms = []) ∧ (t.widened.atoms.map Atom.identity).Nodup := by
  refine ⟨⟨Ty.wellFounded_goesTo, fun f g a h => Atom.widenedBy_congr h,
      fun widen => ⟨Ty.eq_widened, ?_⟩⟩,
    fun t => ⟨⟨fun x hx => ?_, fun r hr => ?_⟩, t.widened_widened, t.optional_widened,
      Ty.atoms_widened_eq_nil_iff,
      t.nodup_widened⟩⟩
  · rintro rfl t
    have hstep : Atom.widenedBy Ty.widened = Atom.widened := funext fun a => a.widened_eq_widenedBy.symm
    rw [hstep]
    exact t.widened_eq_mapAtoms
  · have hw := widened_eq_of_exposes hx t.widened_widened
    cases x <;> cases hw
  · have hw := widened_eq_of_exposes hr t.widened_widened
    rw [Atom.widened_record] at hw
    split at hw <;> cases hw

/-- Entries with a number and a name, or one number, in a slot that may be missing. -/
private def entries : Ty where
  atoms := [.list (.single (.record ⟨[(.string "id", .single (.literal (.int 1))),
    (.string "name", (Ty.single (.literal (.string "x"))).asOptional)], true, false⟩)) false,
    .literal (.int 2)]
  optional := true

theorem Ty.widened_isNormal_entries :
    (entries.widened.identity = "int|list<non-empty-array<non-empty-string, int|non-empty-string>>" ∧
        entries.widened.optional = true) ∧
      (∀ x, ¬ entries.widened.Exposes (.literal x)) ∧ (∀ r, ¬ entries.widened.Exposes (.record r)) ∧
      entries.widened.widened = entries.widened := by
  obtain ⟨⟨hliteral, hrecord⟩, hagain, hslot, -⟩ := Ty.widened_isNormal.2 entries
  have hidentity : entries.widened.identity =
      "int|list<non-empty-array<non-empty-string, int|non-empty-string>>" := by
    decide +kernel
  exact ⟨⟨hidentity, hslot⟩, hliteral, hrecord, hagain⟩

end TypeProbe
