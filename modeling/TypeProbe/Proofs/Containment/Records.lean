import TypeProbe.Proofs.Containment.Denotation

/-!
# Records where records and lists are expected

Two limits of the rule that compares records key by key.

A record that is not sealed may have any values under the keys it does not list.  The rule asks of a
target only that the keys it lists beyond these may be missing, not that it takes any value there.
So a sealed record may lie within the first record and not within the target, and this does not
happen exactly if the target takes any value under its further keys and takes what the record takes
under the others (`Record.forall_sealed_isWithin_iff`).

The rule asks of a target that is a list only that its indices are there.  So a record that is
accepted where lists are expected has all these indices, and no other keys if the target is sealed,
but it is a list only if the keys stand in order (`Record.isList_iff_of_isWithin`).
-/

namespace TypeProbe

variable {h : Hierarchy}

namespace Record

/-! ### Keys that a record does not list -/

/-- No key occurs twice, and the type of each field has an atom. -/
structure IsMap (r : Record) : Prop where
  nodup : r.keys.Nodup
  ne_nil : ∀ t ∈ r.types, t.atoms ≠ []

/-- The sealed record with the values of `u` under the key `k` and no values
under the other keys of `r`. -/
private def probe (r : Record) (k : Key) (u : Ty) : Record :=
  .ofFields (Keyed.put k u.asRequired (r.keys.map fun j => (j, .ofKeyword .never))) true

section

variable {r target : Record} {k : Key} {u : Ty}

private theorem get?_probe_self : Keyed.get? k (probe r k u).fields = some u.asRequired :=
  Keyed.get?_put_self k _ _

private theorem get?_probe_of_ne {j : Key} (hj : j ≠ k) (hmem : j ∈ r.keys) :
    Keyed.get? j (probe r k u).fields = some (.ofKeyword .never) := by
  refine (Keyed.get?_put_of_ne hj _ _).trans ?_
  rw [Keyed.get?_map, if_pos hmem]

private theorem isMap_probe (hr : r.IsMap) (hu : u.atoms ≠ []) : (probe r k u).IsMap where
  nodup := by
    have hkeys : (r.keys.map fun j => (j, Ty.ofKeyword .never)).map (·.1) = r.keys := by
      rw [List.map_map]
      exact List.map_id r.keys
    refine Keyed.nodup_put ?_ k _
    rw [hkeys]
    exact hr.nodup
  ne_nil := by
    intro t ht
    obtain ⟨f, hf, rfl⟩ := List.mem_map.1 ht
    rcases Keyed.mem_of_mem_put hf with rfl | hf
    · exact hu
    · obtain ⟨j, -, rfl⟩ := List.mem_map.1 hf
      exact List.cons_ne_nil _ _

/-- The probe lies within the record if that takes the values of `u` or does not list the key. -/
private theorem probe_fits (hr : r.IsMap) (hopen : r.isSealed = false)
    (hk : ∀ t, Keyed.get? k r.fields = some t → within h depthLimit u t = true) :
    (probe r k u).fits (within h depthLimit) r = true := by
  refine fits_iff.2 ⟨fun hs => ?_, fun f hf => .inl ?_, fun hs => ?_⟩
  · rw [hopen] at hs
    cases hs
  · have hget : Keyed.get? f.1 r.fields = some f.2 := Keyed.get?_of_mem hr.nodup hf
    by_cases hfk : f.1 = k
    · rw [hfk] at hget ⊢
      refine ⟨u.asRequired, get?_probe_self, nofun, ?_⟩
      rw [within_asRequired]
      exact hk f.2 hget
    · have hnever : within h depthLimit (.ofKeyword .never) f.2 = true :=
        within_never (by decide) (hr.ne_nil f.2 (List.mem_map_of_mem hf))
      exact ⟨_, get?_probe_of_ne hfk (List.mem_map_of_mem hf), nofun, hnever⟩
  · rw [hopen] at hs
    cases hs

/-- Where the probe lies within the target, that takes the values of `u` under the key. -/
private theorem within_of_probe_fits (hfit : (probe r k u).fits (within h depthLimit) target = true)
    {t : Ty} (ht : (k, t) ∈ target.fields) : within h depthLimit u t = true := by
  rcases (fits_iff.1 hfit).2.1 _ ht with ⟨s, hs, -, hsub⟩ | ⟨hnone, -⟩
  · obtain rfl : u.asRequired = s := Option.some.inj (get?_probe_self.symm.trans hs)
    rwa [within_asRequired] at hsub
  · cases get?_probe_self.symm.trans hnone

/-- A record within another one, of which the target takes all that it must and may
take, lies within the target. -/
private theorem fits_trans_of_unlisted {s : Record} (hs : s.IsMap)
    (hsr : s.fits (within h depthLimit) r = true) (hrt : r.fits (within h depthLimit) target = true)
    (hopen : target.isSealed = false)
    (hmixed : ∀ f ∈ target.fields, f.1 ∉ r.keys → .keyword .mixed ∈ f.2.atoms)
    (hlisted : ∀ f ∈ target.fields, ∀ t, Keyed.get? f.1 r.fields = some t →
      ∀ u : Ty, u.atoms ≠ [] → within h depthLimit u t = true → within h depthLimit u f.2 = true) :
    s.fits (within h depthLimit) target = true := by
  have hunsealed : ¬ target.isSealed = true := by simp [hopen]
  refine fits_iff.2 ⟨fun hsealed => absurd hsealed hunsealed, fun f hf => ?_,
    fun hsealed => absurd hsealed hunsealed⟩
  rcases (fits_iff.1 hrt).2.1 f hf with ⟨t, ht, hto, -⟩ | ⟨hnone, ho⟩
  · -- The record lists the key.
    rcases (fits_iff.1 hsr).2.1 (f.1, t) (Keyed.mem_of_get? ht) with ⟨u, hu, huo, hut⟩ | ⟨hu, hopt⟩
    · exact .inl ⟨u, hu, fun h => hto (huo h),
        hlisted f hf t ht u (hs.ne_nil u (mem_types_of_get? hu)) hut⟩
    · exact .inr ⟨hu, hto hopt⟩
  · -- The record does not list the key, so the other one may have anything there.
    have hmem : .keyword .mixed ∈ f.2.atoms := hmixed f hf (Keyed.get?_eq_none_iff.1 hnone)
    cases hu : Keyed.get? f.1 s.fields with
    | none => exact .inr ⟨rfl, ho⟩
    | some u => exact .inl ⟨u, rfl, fun _ => ho, within_of_mem_mixed (by decide) hmem⟩

end

/-- A target that takes an unsealed record is not sealed, and the keys it lists beyond those of the
record may be missing.  It takes every sealed record within that record if and only if it takes any
value under these keys and, under each other key, all values that the record takes there. -/
theorem forall_sealed_isWithin_iff (h : Hierarchy) {r target : Record} (hr : r.IsMap)
    (hopen : r.isSealed = false)
    (hw : (Ty.single (.record r)).isWithin h (.single (.record target)) = true) :
    target.isSealed = false ∧ (∀ f ∈ target.fields, f.1 ∉ r.keys → f.2.optional = true) ∧
      ((∀ s : Record, s.IsMap → s.isSealed = true →
        (Ty.single (.record s)).isWithin h (.single (.record r)) = true →
          (Ty.single (.record s)).isWithin h (.single (.record target)) = true) ↔
        (∀ f ∈ target.fields, f.1 ∉ r.keys → (Ty.ofKeyword .mixed).isWithin h f.2 = true) ∧
          ∀ f ∈ target.fields, ∀ t, Keyed.get? f.1 r.fields = some t → ∀ u : Ty, u.atoms ≠ [] →
            within h depthLimit u t = true → within h depthLimit u f.2 = true) := by
  have hfit := isWithin_iff.1 hw
  have hunsealed : target.isSealed = false := by
    by_contra hsealed
    have hrs := (fits_iff.1 hfit).1 (by simpa using hsealed)
    rw [hopen] at hrs
    cases hrs
  refine ⟨hunsealed, fun f hf hk => ?_,
    fun hall => ⟨fun f hf hk => ?_, fun f hf t ht u hu hut => ?_⟩, ?_⟩
  · rcases (fits_iff.1 hfit).2.1 f hf with ⟨s, hs, -⟩ | ⟨-, ho⟩
    · exact absurd (mem_keys_of_get? hs) hk
    · exact ho
  · have hprobe : (probe r f.1 (.ofKeyword .mixed)).fits (within h depthLimit) r = true :=
      probe_fits hr hopen fun t ht => absurd (mem_keys_of_get? ht) hk
    have htarget := isWithin_iff.1
      (hall _ (isMap_probe hr (List.cons_ne_nil _ _)) rfl (isWithin_iff.2 hprobe))
    have hmixed : .keyword .mixed ∈ f.2.atoms := mem_mixed_of_within (within_of_probe_fits htarget hf)
    exact within_of_mem_mixed (Nat.succ_pos depthLimit) hmixed
  · have hprobe : (probe r f.1 u).fits (within h depthLimit) r = true := by
      refine probe_fits hr hopen fun t' ht' => ?_
      obtain rfl : t = t' := Option.some.inj (ht.symm.trans ht')
      exact hut
    have htarget := isWithin_iff.1 (hall _ (isMap_probe hr hu) rfl (isWithin_iff.2 hprobe))
    exact within_of_probe_fits htarget hf
  · rintro ⟨hmixed, hlisted⟩ s hs - hsr
    have hmem : ∀ f ∈ target.fields, f.1 ∉ r.keys → .keyword .mixed ∈ f.2.atoms :=
      fun f hf hk => mem_mixed_of_within (hmixed f hf hk)
    exact isWithin_iff.2 (fits_trans_of_unlisted hs (isWithin_iff.1 hsr) hfit hunsealed hmem hlisted)

/-- The record with an integer under `a` and the values of `t` under `b`, if that is given. -/
private def pair (t : Option Ty) (isSealed : Bool) : Record :=
  .ofFields ((.string "a", .ofKeyword .int) :: (t.map fun u => (Key.string "b", u)).toList) isSealed

/-- A record that lists `a` alone lies within one that lists `b` too, if there may be anything. -/
theorem forall_sealed_isWithin_iff_anything :
    (pair none false).IsMap ∧
      (Ty.single (.record (pair none false))).isWithin .flat
        (.single (.record (pair (some (Ty.ofKeyword .mixed).asOptional) false))) = true ∧
      ∀ s : Record, s.IsMap → s.isSealed = true →
        (Ty.single (.record s)).isWithin .flat (.single (.record (pair none false))) = true →
        (Ty.single (.record s)).isWithin .flat
          (.single (.record (pair (some (Ty.ofKeyword .mixed).asOptional) false))) = true := by
  have hmap : (pair none false).IsMap := by
    refine ⟨by decide, fun t ht => ?_⟩
    obtain rfl := List.mem_singleton.1 ht
    exact List.cons_ne_nil _ _
  have hw : (Ty.single (.record (pair none false))).isWithin .flat
      (.single (.record (pair (some (Ty.ofKeyword .mixed).asOptional) false))) = true := by
        decide +kernel
  refine ⟨hmap, hw, (forall_sealed_isWithin_iff .flat hmap rfl hw).2.2.2 ⟨?_, ?_⟩⟩
  · intro f hf hk
    rcases List.mem_pair.1 hf with rfl | rfl
    · exact absurd (by decide) hk
    · decide +kernel
  · intro f hf t ht u _ hu
    rcases List.mem_pair.1 hf with rfl | rfl
    · obtain rfl := Option.some.inj ht
      exact hu
    · cases ht

/-- With a text under `b` the target still takes the record that lists `a` alone.  A record with an
integer under `b` lies within the latter and not within the target. -/
theorem isWithin_open_text :
    (Ty.single (.record (pair none false))).isWithin .flat
        (.single (.record (pair (some (Ty.ofKeyword .string).asOptional) false))) = true ∧
      (Ty.ofKeyword .mixed).isWithin .flat (Ty.ofKeyword .string).asOptional = false ∧
      (Ty.single (.record (pair (some (.ofKeyword .int)) true))).isWithin .flat
        (.single (.record (pair none false))) = true ∧
      (Ty.single (.record (pair (some (.ofKeyword .int)) true))).isWithin .flat
        (.single (.record (pair (some (Ty.ofKeyword .string).asOptional) false))) = false := by
  decide +kernel

/-! ### Lists -/

end Record

/-- Both keys are indices, and the first is the smaller one. -/
def Key.Before : Key → Key → Prop
  | .int i, .int j => i < j
  | _, _ => False

instance Key.decidableBefore : (k l : Key) → Decidable (k.Before l)
  | .int i, .int j => inferInstanceAs (Decidable (i < j))
  | .int _, .string _ | .string _, _ => isFalse id

/-- A list, or a record that its keys mark as a list. -/
def Atom.IsListForm : Atom → Prop
  | .list _ _ => True
  | .record r => r.isList = true ∧ Record.hasListKeys r.fields = true
  | _ => False

theorem Key.pairwise_upTo (n : Nat) : (Key.upTo n).Pairwise Key.Before := by
  unfold Key.upTo
  rw [List.pairwise_map]
  exact List.pairwise_lt_range.imp fun hij => Int.ofNat_lt.2 hij

theorem Key.nodup_upTo (n : Nat) : (Key.upTo n).Nodup := by
  refine (Key.pairwise_upTo n).imp ?_
  rintro k _ hk rfl
  cases k with
  | int i => exact absurd hk (Int.lt_irrefl i)
  | string s => exact hk

/-- The indices in some order are in order if each is before the next. -/
theorem Key.eq_upTo_of_perm {keys : List Key} {n : Nat} (hp : keys.Perm (Key.upTo n))
    (hb : keys.Pairwise Key.Before) : keys = Key.upTo n := by
  refine List.Perm.eq_of_pairwise ?_ hb (Key.pairwise_upTo n) hp
  intro k l _ _ hkl hlk
  cases k with
  | int i =>
    cases l with
    | int j => exact absurd (Int.lt_trans hkl hlk) (Int.lt_irrefl i)
    | string s => exact hkl.elim
  | string s => exact hkl.elim

namespace Record

section

variable {sub : Ty → Ty → Bool} {fields : List (Key × Ty)} {isSealed : Bool} {c : Record}

/-- A record that fits a list record has its indices. -/
private theorem exists_index_of_fits (hc : hasListKeys c.fields = true)
    (hfit : (ofFields fields isSealed).fits sub c = true) {k : Key}
    (hk : k ∈ Key.upTo c.fields.length) :
    ∃ u, Keyed.get? k fields = some u ∧ u.optional = false := by
  obtain ⟨hkeys, hrequired⟩ := hasListKeys_iff.1 hc
  have hmem : k ∈ c.fields.map (·.1) := by
    rw [hkeys]
    exact hk
  obtain ⟨f, hf, rfl⟩ := List.mem_map.1 hmem
  exact exists_required_of_fits hfit hf (hrequired f hf)

/-- A record that fits a sealed list record has nothing but its indices. -/
private theorem perm_upTo_of_fits (hn : (fields.map (·.1)).Nodup) (hc : hasListKeys c.fields = true)
    (hfit : (ofFields fields isSealed).fits sub c = true) (hs : c.isSealed = true) :
    (fields.map (·.1)).Perm (Key.upTo c.fields.length) ∧ ∀ f ∈ fields, f.2.optional = false := by
  have hlisted : ∀ k ∈ fields.map (·.1), k ∈ Key.upTo c.fields.length := by
    intro k hk
    have hmem : k ∈ c.fields.map (·.1) := (fits_iff.1 hfit).2.2 hs k hk
    rw [(hasListKeys_iff.1 hc).1] at hmem
    exact hmem
  refine ⟨(List.perm_ext_iff_of_nodup hn (Key.nodup_upTo _)).2 fun k => ⟨hlisted k, fun hk => ?_⟩,
    fun f hf => ?_⟩
  · obtain ⟨u, hu, -⟩ := exists_index_of_fits hc hfit hk
    exact List.mem_map.2 ⟨_, Keyed.mem_of_get? hu, rfl⟩
  · obtain ⟨u, hu, ho⟩ := exists_index_of_fits hc hfit (hlisted f.1 (List.mem_map_of_mem hf))
    obtain rfl : f.2 = u := Option.some.inj ((Keyed.get?_of_mem hn hf).symm.trans hu)
    exact ho

/-- Where lists are expected, a record is accepted by a list type, being
a list, or by a list record. -/
private theorem isList_or_fits_of_isWithin {t : Ty} (ht : ∀ a ∈ t.atoms, a.IsListForm)
    (hw : (Ty.single (.record (ofFields fields isSealed))).isWithin h t = true) :
    (ofFields fields isSealed).isList = true ∨
      ∃ c, .record c ∈ t.atoms ∧ hasListKeys c.fields = true ∧
        (ofFields fields isSealed).fits (within h depthLimit) c = true := by
  obtain ⟨b, hb, hfits⟩ := (Ty.isWithin_single_iff rfl).1 hw
  rcases Atom.fits_iff.1 hfits with rfl | hnever | hrule
  · exact (ht _ hb).elim
  · cases hnever
  · cases Atom.Rule.of_rule hrule with
    | object ho => cases ho
    | record hfit => exact .inr ⟨_, hb, (ht _ hb).2, hfit⟩
    | recordArray => exact (ht _ hb).elim
    | recordList hfit => exact .inl (fitsList_iff.1 hfit).1

end

/-- A record that is accepted where only lists stand is a list, or has the indices of a list
record among these, none of which may be missing; of a sealed one it has the indices in some
order and nothing else.  So if the list records are sealed, the record is a list if and only
if its keys stand in order. -/
theorem isList_iff_of_isWithin (h : Hierarchy) {fields : List (Key × Ty)}
    (hn : (fields.map (·.1)).Nodup) {isSealed : Bool} {t : Ty} (ht : ∀ a ∈ t.atoms, a.IsListForm)
    (hw : (Ty.single (.record (ofFields fields isSealed))).isWithin h t = true) :
    ((ofFields fields isSealed).isList = true ∨
      ∃ c, .record c ∈ t.atoms ∧
        (∀ k ∈ Key.upTo c.fields.length, ∃ u, Keyed.get? k fields = some u ∧ u.optional = false) ∧
        (c.isSealed = true →
          (fields.map (·.1)).Perm (Key.upTo c.fields.length) ∧ ∀ f ∈ fields, f.2.optional = false)) ∧
    ((∀ c, .record c ∈ t.atoms → c.isSealed = true) →
      ((ofFields fields isSealed).isList = true ↔ (fields.map (·.1)).Pairwise Key.Before)) := by
  have haccepted := isList_or_fits_of_isWithin ht hw
  refine ⟨haccepted.imp_right ?_, fun hsealed => ⟨fun hlist => ?_, fun hordered => ?_⟩⟩
  · rintro ⟨c, hc, hkeys, hfit⟩
    exact ⟨c, hc, fun k hk => exists_index_of_fits hkeys hfit hk, perm_upTo_of_fits hn hkeys hfit⟩
  · rw [(isList_ofFields_iff.1 hlist).1]
    exact Key.pairwise_upTo _
  · rcases haccepted with hlist | ⟨c, hc, hkeys, hfit⟩
    · exact hlist
    · obtain ⟨hperm, hrequired⟩ := perm_upTo_of_fits hn hkeys hfit (hsealed c hc)
      have hlength : fields.length = c.fields.length := by simpa [Key.upTo] using hperm.length_eq
      refine isList_ofFields_iff.2 ⟨?_, hrequired⟩
      rw [hlength]
      exact Key.eq_upTo_of_perm hperm hordered

/-- The records with integers under the given keys. -/
private def integers (keys : List Key) (isSealed : Bool) : Record :=
  .ofFields (keys.map fun k => (k, .ofKeyword .int)) isSealed

/-- Texts in a list, or two integers. -/
private def textsOrPair : Ty :=
  ⟨[.list (.ofKeyword .string) false, .record (integers [.int 0, .int 1] true)], false⟩

theorem isList_iff_of_isWithin_textsOrPair :
    (∀ a ∈ textsOrPair.atoms, a.IsListForm) ∧ (∀ c, .record c ∈ textsOrPair.atoms → c.isSealed = true) ∧
      (Ty.single (.record (integers [.int 0, .int 1] true))).isWithin .flat textsOrPair = true ∧
      (integers [.int 0, .int 1] true).isList = true := by
  have hform : ∀ a ∈ textsOrPair.atoms, a.IsListForm := by
    intro a ha
    rcases List.mem_pair.1 ha with rfl | rfl
    · exact trivial
    · exact ⟨by decide, by decide⟩
  have hsealed : ∀ c, .record c ∈ textsOrPair.atoms → c.isSealed = true := by
    intro c hc
    rcases List.mem_pair.1 hc with hc | hc <;> cases hc
    rfl
  have hw : (Ty.single (.record (integers [.int 0, .int 1] true))).isWithin .flat
      textsOrPair = true := by
    decide +kernel
  exact ⟨hform, hsealed, hw,
    ((isList_iff_of_isWithin .flat (by decide) hform hw).2 hsealed).2 (by decide)⟩

/-- A sealed list of two integers takes a record with the same keys the other way round,
though lists that take the former do not take the latter.  A list that is not sealed takes
a record with a further key. -/
theorem isWithin_not_isList :
    ((Ty.single (.record (integers [.int 1, .int 0] true))).isWithin .flat
          (.single (.record (integers [.int 0, .int 1] true))) = true ∧
        (Ty.single (.record (integers [.int 0, .int 1] true))).isWithin .flat
          (.single (.list (.ofKeyword .int) false)) = true ∧
        (Ty.single (.record (integers [.int 1, .int 0] true))).isWithin .flat
          (.single (.list (.ofKeyword .int) false)) = false ∧
        (integers [.int 1, .int 0] true).isList = false) ∧
      (Ty.single (.record (integers [.int 0, .string "a"] true))).isWithin .flat
          (.single (.record (integers [.int 0] false))) = true ∧
        (integers [.int 0] false).isList = true ∧
          (integers [.int 0, .string "a"] true).isList = false := by
  decide +kernel

end Record

end TypeProbe
