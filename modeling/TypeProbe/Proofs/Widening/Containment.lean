import TypeProbe.Proofs.Containment.Agreement
import TypeProbe.Proofs.Widening.NormalForm

/-!
# Widening only loses precision

A type lies within its widened form (`Ty.isWithin_widened`).  A record becomes a list or an
array that is not empty, so it has to be sealed, and one of its slots has to be always there; a
record of which that is not so does not lie within its widened form.  Of several atoms with one
identity a union keeps one, before widening and behind it, so such atoms have to be widened
alike (`Ty.WidensCoherently`).
-/

namespace TypeProbe

variable {h : Hierarchy}

/-- Atoms that share their identity, or share it once they are widened, have
widened forms that are alike. -/
def Ty.WidensCoherently (t : Ty) : Prop :=
  ∀ a b, t.Exposes a → t.Exposes b → a.identity = b.identity ∨ a.widened.identity = b.widened.identity →
    a.widened.Alike b.widened

/-- Types whose atoms all have different identities, before widening and behind
it, are widened coherently. -/
theorem Ty.WidensCoherently.of_nodup {t : Ty} (parts : List Atom)
    (hn : (parts.map Atom.identity).Nodup) (hw : (parts.map fun a => a.widened.identity).Nodup)
    (h : ∀ b, t.Exposes b → b ∈ parts) : t.WidensCoherently := by
  intro a b ha hb hid
  have hab : a = b := by
    rcases hid with hid | hid
    · exact List.inj_on_of_nodup_map hn (h a ha) (h b hb) hid
    · exact List.inj_on_of_nodup_map hw (h a ha) (h b hb) hid
  exact hab ▸ Atom.alike_refl _

/-- The widened form of each atom of the first type is alike to an atom of the second. -/
def Ty.WidensInto (s t : Ty) : Prop :=
  ∀ a ∈ s.atoms, ∃ c ∈ t.atoms, a.widened.Alike c

/-! ### What is left of a union -/

/-- The atoms of a union are widened into every type that is alike to the widened union, if those
that share their identity then are alike. -/
private theorem widensInto_of_alike {s t : Ty}
    (hs : ∀ a ∈ s.atoms, ∀ b ∈ s.atoms, a.widened.identity = b.widened.identity →
      a.widened.Alike b.widened) (hst : s.widened.Alike t) : s.WidensInto t := by
  intro a ha
  obtain ⟨c, hc, hid⟩ := Atom.exists_mem_distinct (List.mem_map_of_mem (f := Atom.widened) ha)
  have hmem : c ∈ s.widened.atoms := by
    rw [Ty.widened_eq_mapAtoms]
    exact hc
  obtain ⟨b, hb, rfl⟩ := Ty.mem_widened hmem
  obtain ⟨d, hd, hbd⟩ := hst.exists_mem hmem
  exact ⟨d, hd, (hs a ha b hb hid.symm).trans hbd⟩

/-- The widened form of a key, or of `never` if there are none, is a keyword
that does not hold all keys. -/
private theorem exists_widened_eq_keyword {r : Record} {a : Atom} (ha : a ∈ r.keyType.atoms) :
    ∃ w : Keyword, a.widened = .keyword w ∧ w ≠ .mixed ∧ Keyword.arrayKey.fits w = false := by
  rcases Record.mem_keyType ha with ⟨k, -, rfl⟩ | ⟨-, rfl⟩
  · cases k with
    | int i => exact ⟨.int, rfl, by decide, rfl⟩
    | string s =>
      by_cases hs : s.isEmpty = true
      · exact ⟨.string, by simp [Atom.widened, Key.literal, Literal.widened, hs], by decide, rfl⟩
      · exact ⟨.nonEmptyString, by simp [Atom.widened, Key.literal, Literal.widened, hs],
          by decide, rfl⟩
  · exact ⟨.never, rfl, by decide, rfl⟩

private theorem widensInto_keyType {r : Record} {k : Ty} (hk : r.keyType.widened.Alike k) :
    r.keyType.WidensInto k := by
  refine widensInto_of_alike (fun a ha b hb hid => ?_) hk
  obtain ⟨v, hv, -⟩ := exists_widened_eq_keyword ha
  obtain ⟨w, hw, -⟩ := exists_widened_eq_keyword hb
  rw [hv, hw, Atom.identity, Atom.identity] at hid
  rw [hv, hw, Keyword.text_injective hid]
  exact Atom.alike_refl _

section

variable {root : Ty} (hroot : root.WidensCoherently)

include hroot

private theorem widensInto_of_exposes {s t : Ty} (hs : ∀ a ∈ s.atoms, root.Exposes a)
    (hst : s.widened.Alike t) : s.WidensInto t :=
  widensInto_of_alike (fun a ha b hb hid => hroot a b (hs a ha) (hs b hb) (.inr hid)) hst

private theorem widensInto_valueType {r : Record} (hr : root.Exposes (.record r)) {v : Ty}
    (hv : r.valueType.widened.Alike v) : r.valueType.WidensInto v := by
  have field : ∀ {t : Ty} {a : Atom}, t ∈ r.types → a ∈ t.atoms → root.Exposes a :=
    fun ht ha => hr.of_inside ht ha
  refine widensInto_of_alike (fun a ha b hb hid => ?_) hv
  rcases Record.mem_valueType ha with ⟨t, ht, hat⟩ | ⟨hnone, rfl⟩
  · rcases Record.mem_valueType hb with ⟨u, hu, hbu⟩ | ⟨hnone, rfl⟩
    · exact hroot a b (field ht hat) (field hu hbu) (.inr hid)
    · exact absurd hat (by simp [hnone t ht])
  · rcases Record.mem_valueType hb with ⟨u, hu, hbu⟩ | ⟨-, rfl⟩
    · exact absurd hbu (by simp [hnone u hu])
    · exact Atom.alike_refl _

/-- An atom of a field that is missing in the union of the values shares its
identity with one that is there. -/
private theorem widensInto_of_mem_types {r : Record} (hr : root.Exposes (.record r)) {v : Ty}
    (hv : r.valueType.widened.Alike v) {t : Ty} (ht : t ∈ r.types) : t.WidensInto v := by
  intro a ha
  obtain ⟨b, hb, hid, u, hu, hbu⟩ := Record.exists_mem_valueType ht ha
  obtain ⟨c, hc, hbc⟩ := widensInto_valueType hroot hr hv b hb
  have hab : a.widened.Alike b.widened :=
    hroot a b (hr.of_inside ht ha) (hr.of_inside hu hbu) (.inl hid.symm)
  exact ⟨c, hc, hab.trans hbc⟩

end

/-! ### Atoms -/

/-- There are no other keys than the listed ones, and one of them is always there. -/
def Record.IsFilled (r : Record) : Prop :=
  r.isSealed = true ∧ ∃ t ∈ r.types, t.optional = false

theorem Record.IsFilled.ne_nil {r : Record} (hr : r.IsFilled) : r.fields ≠ [] := by
  intro hnil
  obtain ⟨-, t, ht, -⟩ := hr
  rw [Record.types, hnil] at ht
  cases ht

private theorem literal_fits_widened {sub : Ty → Ty → Bool} {x : Literal} {c : Atom}
    (hc : x.widened.Alike c) : (Atom.literal x).fits h sub c = true := by
  cases x with
  | string s =>
    obtain rfl := Atom.keyword_alike_iff.1 hc
    refine (Atom.Rule.literalKeyword ?_).fits
    by_cases hs : s.isEmpty = true <;> simp [Literal.fits, hs]
  | int i =>
    obtain rfl := Atom.keyword_alike_iff.1 hc
    exact (Atom.Rule.literalKeyword rfl).fits
  | float x =>
    obtain rfl := Atom.keyword_alike_iff.1 hc
    exact (Atom.Rule.literalKeyword rfl).fits
  | className name =>
    obtain rfl := Atom.classString_alike_iff.1 hc
    exact (Atom.Rule.className (by simp)).fits

/-- A record fits its widened form if its keys and values, or the types of its fields,
lie within the types there. -/
private theorem record_fits_widened {sub : Ty → Ty → Bool} {root : Ty}
    (hroot : root.WidensCoherently) {r : Record} (hr : root.Exposes (.record r))
    (hfilled : r.IsFilled) {c : Atom} (hc : (Atom.record r).widened.Alike c)
    (hkeys : ∀ k, r.keyType.WidensInto k → sub r.keyType k = true)
    (hvalues : ∀ v, r.valueType.WidensInto v → sub r.valueType v = true)
    (htypes : ∀ t ∈ r.types, ∀ v, t.WidensInto v → sub t v = true) :
    (Atom.record r).fits h sub c = true := by
  rw [Atom.widened_record] at hc
  by_cases hl : r.isList = true
  · rw [if_pos hl] at hc
    obtain ⟨v, rfl, hv⟩ := Atom.list_alike_iff.1 hc
    have hfits : r.fitsList sub v true = true := Record.fitsList_iff.2
      ⟨hl, hfilled.1, fun _ => hfilled.ne_nil,
        fun t ht => htypes t ht v (widensInto_of_mem_types hroot hr hv ht)⟩
    exact (Atom.Rule.recordList hfits).fits
  · rw [if_neg hl] at hc
    obtain ⟨k, v, rfl, hk, hv⟩ := Atom.array_alike_iff.1 hc
    have hfits : r.fitsArray sub k v true = true := (Record.fitsArray_iff hfilled.1).2
      ⟨fun _ => hfilled.2, fun _ =>
        ⟨hkeys k (widensInto_keyType hk), hvalues v (widensInto_valueType hroot hr hv)⟩⟩
    exact (Atom.Rule.recordArray hfits).fits

/-! ### Unions -/

/-- The atoms of the first type are scalars, such as the keys of a record, or widening
the second type gets to them. -/
private def Ty.ComesFrom (s root : Ty) : Prop :=
  ∀ a ∈ s.atoms, root.Exposes a ∨ a.IsScalar

/-- The types that a record is widened through nest no deeper than its fields. -/
private theorem nestsWithin_of_types {r : Record} (hr : r.fields ≠ []) {n : Nat}
    (hn : ∀ t ∈ r.types, t.NestsWithin n) : r.keyType.NestsWithin n ∧ r.valueType.NestsWithin n := by
  have hmem : Atom.record r ∈ (Ty.single (.record r)).atoms := List.mem_singleton.2 rfl
  have hrecord : (Ty.single (.record r)).height ≤ n + 1 := by
    refine Ty.height_le_iff.2 fun a ha => ?_
    obtain rfl := List.mem_singleton.1 ha
    exact hn
  have hkey := Record.height_keyType_lt hmem hr
  have hvalue := Record.height_valueType_lt hmem hr
  exact ⟨Ty.height_le_iff.1 (by omega), Ty.height_le_iff.1 (by omega)⟩

section

variable (hh : ∀ name, h name name = true) {root : Ty} (hroot : root.WidensCoherently)
  (hproper : root.IsProper)
  (hfilled : ∀ r, root.Exposes (.record r) → r.IsFilled)

include hh hroot hproper hfilled

/-- An atom that widening gets to fits its widened form, if the types that are
asked about lie within theirs. -/
private theorem fits_widened {n : Nat} {a c : Atom} (ha : root.Exposes a)
    (types : ∀ u ∈ a.types, u.NestsWithin n)
    (hsub : ∀ {s t : Ty}, s.ComesFrom root → s.NestsWithin n → s.WidensInto t →
      within h n s t = true) (hac : a.widened.Alike c) : a.fits h (within h n) c = true := by
  have atoms : ∀ u ∈ a.exposedTypes, ∀ b ∈ u.atoms, root.Exposes b :=
    fun u hu b hb => ha.of_inside hu hb
  have inside : ∀ u ∈ a.exposedTypes, ∀ v, u.WidensInto v → within h n u v = true := fun u hu v huv =>
    hsub (fun b hb => .inl (atoms u hu b hb)) (types u (Atom.exposedTypes_subset_types a hu)) huv
  have alike : ∀ u ∈ a.exposedTypes, ∀ v, u.widened.Alike v → within h n u v = true := fun u hu v huv =>
    inside u hu v (widensInto_of_exposes hroot (atoms u hu) huv)
  cases a with
  | literal x => exact literal_fits_widened hac
  | record r =>
    have hr : r.IsFilled := hfilled r ha
    obtain ⟨hkey, hvalue⟩ := nestsWithin_of_types hr.ne_nil types
    -- The unions of the keys and of the values are no parts of the record, but their atoms
    -- are keys or come from there.
    refine record_fits_widened hroot ha hr hac (fun k hk => hsub (fun b hb => .inr ?_) hkey hk)
      (fun v hv => hsub (fun b hb => ?_) hvalue hv) inside
    · rcases Record.mem_keyType hb with ⟨j, -, rfl⟩ | ⟨-, rfl⟩ <;> exact trivial
    · rcases Record.mem_valueType hb with ⟨u, hu, hbu⟩ | ⟨-, rfl⟩
      · exact .inl (atoms u hu b hbu)
      · exact .inr trivial
  | generic o ts =>
    rw [Atom.widened, Ty.widenedAll_eq_map] at hac
    obtain ⟨p, us, rfl, hname, hfacets, hparams⟩ := Atom.generic_alike_iff.1 hac
    have hpairs : Ty.pairwise (within h n) ts us = true := Ty.pairwise_iff.2
      (forall₂_imp_of_mem (fun u hu v _ huv => alike u hu v huv) (List.forall₂_map_left_iff.1 hparams))
    have hfits : o.fits h p = true := ObjectType.fits_alike hh hname hfacets
    exact (Atom.Rule.generic (by simp [ObjectType.genericFits, hfits, hpairs])).fits
  | array key value nonEmpty =>
    obtain ⟨k, v, rfl, hk, hv⟩ := Atom.array_alike_iff.1 hac
    have hkey : within h n key k = true := alike key (by simp [Atom.exposedTypes]) k hk
    have hvalue : within h n value v = true := alike value (by simp [Atom.exposedTypes]) v hv
    exact (Atom.Rule.array id hkey hvalue).fits
  | list value nonEmpty =>
    obtain ⟨v, rfl, hv⟩ := Atom.list_alike_iff.1 hac
    have hvalue : within h n value v = true := alike value (by simp [Atom.exposedTypes]) v hv
    exact (Atom.Rule.list id hvalue).fits
  -- Widening leaves the other atoms as they are, with all that is inside them.
  | _ => exact Atom.Alike.fits hh hac (hproper.single ha.has) types

private theorem within_of_widensInto {n : Nat} {s t : Ty} (hs : s.ComesFrom root) (hn : s.NestsWithin n)
    (hst : s.WidensInto t) : within h n s t = true := by
  -- On the depth, for all unions of such atoms and not only for the types inside the root.
  induction n generalizing s t with
  | zero => exact hn.elim
  | succ n ih =>
    rw [within_succ_iff]
    intro a ha
    obtain ⟨c, hc, hac⟩ := hst a ha
    refine .inl ⟨c, hc, ?_⟩
    rcases hs a ha with hexposed | hscalar
    · exact fits_widened hh hroot hproper hfilled hexposed (hn a ha) ih hac
    · cases a with
      | keyword w => exact Atom.Alike.fits hh hac (Ty.isProper_leaf trivial rfl rfl) (hn _ ha)
      | literal x => exact literal_fits_widened hac
      | _ => exact hscalar.elim

end

/-! ### Records that are not filled -/

/-- A record alone that lies within its widened form is filled. -/
private theorem isFilled_of_isWithin_widened {r : Record} (hl : r.isList = Record.hasListKeys r.fields)
    (hw : (Ty.single (.record r)).isWithin h (Ty.single (.record r)).widened = true) : r.IsFilled := by
  rw [Ty.isWithin_single_iff rfl] at hw
  obtain ⟨c, hc, hfits⟩ := hw
  obtain ⟨a, ha, rfl⟩ := Ty.mem_widened hc
  obtain rfl := List.mem_singleton.1 ha
  rw [Atom.widened_record] at hfits
  by_cases hlist : r.isList = true
  · rw [if_pos hlist] at hfits
    have hrule : r.fitsList (within h depthLimit) r.valueType.widened true = true := by
      simpa [Atom.fits_iff, Atom.rule] using hfits
    obtain ⟨-, hsealed, hfields, -⟩ := Record.fitsList_iff.1 hrule
    obtain ⟨f, hf⟩ := List.exists_mem_of_ne_nil _ (hfields rfl)
    have hrequired : ∀ f ∈ r.fields, f.2.optional = false := (Record.hasListKeys_iff.1 (hl ▸ hlist)).2
    exact ⟨hsealed, f.2, List.mem_map_of_mem hf, hrequired f hf⟩
  · rw [if_neg hlist] at hfits
    have hrule : r.fitsArray (within h depthLimit) r.keyType.widened r.valueType.widened
      true = true := by
      simpa [Atom.fits_iff, Atom.rule] using hfits
    obtain ⟨hsealed | ⟨hkeys, -⟩, hrequired, -⟩ := Record.fitsArray_eq_true_iff.1 hrule
    · exact ⟨hsealed, hrequired rfl⟩
    · -- The widened keys would have to take all array keys, which none of them does.
      obtain ⟨w, hw, hadmits⟩ := Ty.admits_iff.1 hkeys
      obtain ⟨k, hk, hwidened⟩ := Ty.mem_widened hw
      obtain ⟨v, hv, hmixed, hfits⟩ := exists_widened_eq_keyword hk
      obtain rfl : v = w := Atom.keyword.inj (hv.symm.trans hwidened)
      rcases hadmits with rfl | hadmits
      · exact absurd rfl hmixed
      · exact absurd hadmits (by simp [hfits])

/-- A type lies within its widened form if it nests no deeper than the judgement goes, the
records that widening gets to are filled, and atoms that widening gets to and that share an
identity are widened alike.  The records have to be filled: one that stands alone does not lie
within its widened form otherwise. -/
theorem Ty.isWithin_widened (hh : ∀ name, h name name = true) :
    (∀ t : Ty, t.IsProper → t.NestsWithin (depthLimit + 1) → t.WidensCoherently →
      (∀ r, t.Exposes (.record r) → r.IsFilled) → t.isWithin h t.widened = true) ∧
    ∀ r : Record, r.isList = Record.hasListKeys r.fields →
      (Ty.single (.record r)).isWithin h (Ty.single (.record r)).widened = true → r.IsFilled := by
  refine ⟨fun t ht hn hc hfilled => ?_, fun r hl hw => isFilled_of_isWithin_widened hl hw⟩
  have hinto : t.WidensInto t.widened :=
    widensInto_of_exposes hc (fun a ha => .atom ha) (Ty.alike_refl _)
  exact within_of_widensInto hh hc ht hfilled (fun a ha => .inl (.atom ha)) hn hinto

/-- A product has a number, and a name that may be missing. -/
private def product : Record :=
  .ofFields [(.string "id", .single (.literal (.int 1))),
    (.string "name", (Ty.single (.literal (.string "x"))).asOptional)] true

/-- Boxes of lists of products. -/
private def boxes : Ty :=
  .generic "Box" [.single (.list (.single (.record product)) false)]

/-- The atoms that widening gets to in the boxes. -/
private def boxesParts : List Atom :=
  [.generic ⟨"Box", []⟩ [.single (.list (.single (.record product)) false)],
    .list (.single (.record product)) false,
    .record product, .literal (.int 1), .literal (.string "x")]

private theorem mem_of_exposes_boxes {b : Atom} (hb : boxes.Exposes b) : b ∈ boxesParts := by
  simpa [Ty.exposes_single_iff, Ty.exposes_asOptional_iff, boxes, boxesParts, Ty.generic,
    Atom.exposedTypes, product, Record.ofFields, Record.types] using hb

private theorem isProper_boxes : boxes.IsProper := by
  have hone : (Ty.single (.literal (.int 1))).IsProper := Ty.isProper_leaf trivial rfl rfl
  have hname : (Ty.single (.literal (.string "x"))).IsProper := Ty.isProper_leaf trivial rfl rfl
  have hproduct : (Ty.single (.record product)).IsProper := by
    refine Ty.isProper_single (by simp [Atom.IsProper, product, Record.ofFields, Record.keys])
      (by simp [Atom.facets])
      fun u hu => ?_
    rcases List.mem_pair.1 hu with rfl | rfl
    · exact hone
    · exact hname
  have hlist : (Ty.single (.list (.single (.record product)) false)).IsProper :=
    Ty.isProper_single trivial (by simp [Atom.facets]) (by simpa [Atom.types] using hproduct)
  exact Ty.isProper_single trivial (by simp [Atom.facets]) (by simpa [Atom.types] using hlist)

theorem Ty.isWithin_widened_boxes :
    boxes.isWithin Hierarchy.flat boxes.widened = true ∧
      boxes.widened.identity =
        "Box<list<non-empty-array<non-empty-string, int|non-empty-string>>>" := by
  have hc : boxes.WidensCoherently :=
    .of_nodup boxesParts (by decide +kernel) (by decide +kernel) fun b hb => mem_of_exposes_boxes hb
  have hfilled : ∀ r, boxes.Exposes (.record r) → r.IsFilled := by
    intro r hr
    have hmem := mem_of_exposes_boxes hr
    obtain rfl : r = product := by simpa [boxesParts] using hmem
    exact ⟨rfl, .single (.literal (.int 1)), List.mem_cons_self, rfl⟩
  have hwithin := (Ty.isWithin_widened Ascii.same_refl).1 boxes isProper_boxes
    (by decide +kernel) hc hfilled
  exact ⟨hwithin, by decide +kernel⟩

/-- A callable without parameters. -/
private def source (result : Ty) : Atom :=
  .callable ⟨[], some result, false, false⟩

/-- Boxes with types of different atoms, whose identities agree once an
empty text is widened to a text. -/
private def unlikeBoxes : Ty where
  atoms := [.generic ⟨"Box", []⟩ [⟨[source (.single (.keyword .int)), .literal (.string "")], false⟩],
    .generic ⟨"Box", []⟩ [.single (source ⟨[.keyword .int, .keyword .string], false⟩)]]
  optional := false

/-- Types that do not lie within their widened forms: a record without fields, one whose only slot
may be missing, one that is not sealed, and boxes of which one is lost. -/
private def overstated : List Ty :=
  [.single (.record (.ofFields [] true)),
    .single (.record (.ofFields [(.string "a", (Ty.single (.keyword .int)).asOptional)] true)),
    .single (.record (.ofFields [(.string "a", .single (.keyword .int))] false)), unlikeBoxes]

theorem Ty.not_isWithin_widened :
    overstated.map (fun t => t.isWithin Hierarchy.flat t.widened) = [false, false, false, false] ∧
      ∀ t ∈ overstated, t.NestsWithin 3 := by
  decide +kernel

end TypeProbe
