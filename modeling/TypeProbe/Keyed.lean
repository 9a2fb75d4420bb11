/-!
# Lists of pairs as insertion-ordered maps

A list of pairs is read as a map from first to second components: `Keyed.get?` finds the value of a
key, `Keyed.put` replaces it where it stands or appends it, and `Keyed.firsts` keeps the first pair
of each key.  `distinctBy f` keeps the first element of each value of `f`.  The keys of `put k v l`
are those of `l`, in their order, with `k` at the end if it is new (`map_fst_put`), and no key
occurs twice in `firsts l` (`nodup_firsts`).
-/

namespace TypeProbe

namespace Keyed

variable {κ α : Type} [DecidableEq κ]

/-- The value of the first pair with key `k`. -/
def get? (k : κ) : List (κ × α) → Option α
  | [] => none
  | (k', a) :: rest => if k' = k then some a else get? k rest

/-- Replaces the value of `k` where it stands, or appends the pair. -/
def put (k : κ) (a : α) : List (κ × α) → List (κ × α)
  | [] => [(k, a)]
  | (k', a') :: rest => if k' = k then (k, a) :: rest else (k', a') :: put k a rest

/-- The map that results from writing the pairs one after the other. -/
def ofPairs (pairs : List (κ × α)) : List (κ × α) :=
  pairs.foldl (fun l p => put p.1 p.2 l) []

/-- The first pair of each key, in order. -/
def firsts : List (κ × α) → List (κ × α)
  | [] => []
  | (k, a) :: rest => (k, a) :: (firsts rest).filter fun p => p.1 ≠ k

theorem get?_put_self (k : κ) (a : α) (l : List (κ × α)) : get? k (put k a l) = some a := by
  induction l with
  | nil => simp [put, get?]
  | cons p rest ih =>
    obtain ⟨k', a'⟩ := p
    unfold put
    split <;> simp_all [get?]

theorem get?_put_of_ne {k k' : κ} (h : k' ≠ k) (a : α) (l : List (κ × α)) :
    get? k' (put k a l) = get? k' l := by
  induction l with
  | nil => simp [put, get?, Ne.symm h]
  | cons p rest ih =>
    obtain ⟨j, b⟩ := p
    unfold put
    split
    · subst_vars; simp [get?, Ne.symm h]
    · simp [get?, ih]

theorem map_fst_put (k : κ) (a : α) (l : List (κ × α)) :
    (put k a l).map (·.1) = if k ∈ l.map (·.1) then l.map (·.1) else l.map (·.1) ++ [k] := by
  induction l with
  | nil => simp [put]
  | cons p rest ih =>
    obtain ⟨j, b⟩ := p
    unfold put
    by_cases h : j = k
    · simp [h]
    · rw [if_neg h, List.map_cons, ih]
      by_cases hm : k ∈ rest.map (·.1) <;> simp [hm, Ne.symm h]

theorem nodup_put {l : List (κ × α)} (h : (l.map (·.1)).Nodup) (k : κ) (a : α) :
    ((put k a l).map (·.1)).Nodup := by
  rw [map_fst_put]
  split
  · exact h
  · rename_i hk
    rw [List.nodup_append]
    refine ⟨h, by simp, fun x hx y hy hxy => hk ?_⟩
    rwa [← List.mem_singleton.1 hy, ← hxy]

theorem mem_of_mem_put {k : κ} {a : α} {l : List (κ × α)} {e : κ × α} (h : e ∈ put k a l) :
    e = (k, a) ∨ e ∈ l := by
  induction l with
  | nil => exact .inl (List.mem_singleton.1 h)
  | cons p rest ih =>
    obtain ⟨j, b⟩ := p
    unfold put at h
    split at h
    · exact (List.mem_cons.1 h).imp_right (List.mem_cons_of_mem _)
    · rcases List.mem_cons.1 h with rfl | h
      · exact .inr List.mem_cons_self
      · exact (ih h).imp_right (List.mem_cons_of_mem _)

/-!
Dropping keys commutes with writing another one, and does not show when a kept key is looked up.
-/

theorem filter_put_of_pos (keep : κ → Bool) {k : κ} (h : keep k = true) (a : α) (l : List (κ × α)) :
    (put k a l).filter (fun e => keep e.1) = put k a (l.filter fun e => keep e.1) := by
  induction l with
  | nil => simp [put, h]
  | cons p rest ih =>
    obtain ⟨j, b⟩ := p
    by_cases hj : j = k
    · simp [put, hj, h]
    · cases hkeep : keep j <;> simp [put, hj, hkeep, ih]

theorem filter_put_of_neg (keep : κ → Bool) {k : κ} (h : keep k = false) (a : α) (l : List (κ × α)) :
    (put k a l).filter (fun e => keep e.1) = l.filter fun e => keep e.1 := by
  induction l with
  | nil => simp [put, h]
  | cons p rest ih =>
    obtain ⟨j, b⟩ := p
    by_cases hj : j = k
    · simp [put, hj, h]
    · simp [put, hj, List.filter_cons, ih]

theorem get?_filter (keep : κ → Bool) {k : κ} (h : keep k = true) (l : List (κ × α)) :
    get? k (l.filter fun e => keep e.1) = get? k l := by
  induction l with
  | nil => rfl
  | cons p rest ih =>
    obtain ⟨j, b⟩ := p
    by_cases hj : j = k
    · simp [get?, hj, h]
    · cases hkeep : keep j <;> simp [get?, hj, hkeep, ih]

/-! A map that is given by its keys and a function from keys to values. -/

theorem get?_map (keys : List κ) (f : κ → α) (k : κ) :
    get? k (keys.map fun j => (j, f j)) = if k ∈ keys then some (f k) else none := by
  induction keys with
  | nil => rfl
  | cons j rest ih =>
    by_cases hj : j = k
    · simp [get?, hj]
    · simp [get?, hj, Ne.symm hj, ih]

theorem put_map {keys : List κ} (hn : keys.Nodup) {f g : κ → α} {k : κ} (h : ∀ j, j ≠ k → f j = g j) :
    put k (g k) (keys.map fun j => (j, f j)) =
      (if k ∈ keys then keys else keys ++ [k]).map fun j => (j, g j) := by
  induction keys with
  | nil => rfl
  | cons j rest ih =>
    obtain ⟨hj, hrest⟩ := List.nodup_cons.1 hn
    by_cases hk : j = k
    · subst hk
      have hsame : ∀ i ∈ rest, (i, f i) = (i, g i) := fun i hi => by rw [h i fun e => hj (e ▸ hi)]
      simp [put, List.map_congr_left hsame]
    · by_cases hm : k ∈ rest <;> simp [put, hk, Ne.symm hk, ih hrest, hm, h j hk]

theorem mem_of_get? {k : κ} {a : α} {l : List (κ × α)} (h : get? k l = some a) : (k, a) ∈ l := by
  induction l with
  | nil => cases h
  | cons p rest ih =>
    obtain ⟨j, b⟩ := p
    unfold get? at h
    split at h
    · rename_i hk
      cases h
      subst hk
      exact List.mem_cons_self
    · exact List.mem_cons_of_mem _ (ih h)

theorem get?_of_mem {k : κ} {a : α} {l : List (κ × α)} (hn : (l.map (·.1)).Nodup) (h : (k, a) ∈ l) :
    get? k l = some a := by
  induction l with
  | nil => cases h
  | cons p rest ih =>
    obtain ⟨hp, hrest⟩ := List.nodup_cons.1 hn
    rcases List.mem_cons.1 h with rfl | h
    · simp [get?]
    · have hne : p.1 ≠ k := by
        rintro rfl
        exact hp (List.mem_map_of_mem (f := (·.1)) h)
      simpa [get?, hne] using ih hrest h

theorem get?_eq_none_iff {k : κ} {l : List (κ × α)} : get? k l = none ↔ k ∉ l.map (·.1) := by
  induction l with
  | nil => simp [get?]
  | cons p rest ih =>
    by_cases hk : p.1 = k
    · simp [get?, hk]
    · simp [get?, hk, ih, Ne.symm hk]

theorem mem_of_mem_firsts {p : κ × α} {l : List (κ × α)} (h : p ∈ firsts l) : p ∈ l := by
  induction l with
  | nil => exact h
  | cons q rest ih =>
    rcases List.mem_cons.1 h with rfl | h
    · exact List.mem_cons_self ..
    · exact List.mem_cons_of_mem _ (ih (List.mem_filter.1 h).1)

/-- Of every key that occurs one pair is kept. -/
theorem exists_mem_firsts {p : κ × α} {l : List (κ × α)} (h : p ∈ l) : ∃ q ∈ firsts l, q.1 = p.1 := by
  induction l with
  | nil => cases h
  | cons r rest ih =>
    by_cases hk : r.1 = p.1
    · exact ⟨r, List.mem_cons_self, hk⟩
    · obtain ⟨q, hq, e⟩ := ih ((List.mem_cons.1 h).resolve_left fun hp => hk (hp ▸ rfl))
      exact ⟨q, List.mem_cons_of_mem _ (List.mem_filter.2 ⟨hq, by simp [e, Ne.symm hk]⟩), e⟩

theorem nodup_firsts (l : List (κ × α)) : ((firsts l).map (·.1)).Nodup := by
  induction l with
  | nil => simp [firsts]
  | cons q rest ih =>
    obtain ⟨k, a⟩ := q
    refine List.nodup_cons.2 ⟨by simp, ?_⟩
    exact (List.Sublist.map _ List.filter_sublist).nodup ih

end Keyed

/-- The elements of `l` without those whose value of `f` occurs earlier. -/
def distinctBy {κ α : Type} [DecidableEq κ] (f : α → κ) (l : List α) : List α :=
  (Keyed.firsts (l.map fun a => (f a, a))).map (·.2)

section

variable {κ α : Type} [DecidableEq κ] (f : α → κ)

theorem distinctBy_cons (a : α) (l : List α) :
    distinctBy f (a :: l) = a :: (distinctBy f l).filter fun b => f b ≠ f a := by
  unfold distinctBy
  rw [List.map_cons, Keyed.firsts, List.map_cons, List.filter_map]
  refine congrArg (fun m : List (κ × α) => a :: m.map (·.2)) (List.filter_congr fun p hp => ?_)
  obtain ⟨b, -, rfl⟩ := List.mem_map.1 (Keyed.mem_of_mem_firsts hp)
  rfl

theorem mem_of_mem_distinctBy {l : List α} {a : α} (h : a ∈ distinctBy f l) : a ∈ l := by
  obtain ⟨p, hp, rfl⟩ := List.mem_map.1 h
  obtain ⟨b, hb, rfl⟩ := List.mem_map.1 (Keyed.mem_of_mem_firsts hp)
  exact hb

/-- Each kept element stands under its own value of `f`. -/
private theorem map_distinctBy (l : List α) :
    (distinctBy f l).map f = (Keyed.firsts (l.map fun a => (f a, a))).map (·.1) := by
  unfold distinctBy
  rw [List.map_map]
  apply List.map_congr_left
  intro p hp
  obtain ⟨a, -, rfl⟩ := List.mem_map.1 (Keyed.mem_of_mem_firsts hp)
  rfl

theorem nodup_map_distinctBy (l : List α) : ((distinctBy f l).map f).Nodup := by
  rw [map_distinctBy]
  exact Keyed.nodup_firsts _

/-- No value of `f` is lost. -/
theorem mem_map_distinctBy {l : List α} {k : κ} : k ∈ (distinctBy f l).map f ↔ k ∈ l.map f := by
  constructor
  · intro h
    obtain ⟨a, ha, rfl⟩ := List.mem_map.1 h
    exact List.mem_map_of_mem (mem_of_mem_distinctBy f ha)
  · intro h
    obtain ⟨a, ha, rfl⟩ := List.mem_map.1 h
    obtain ⟨p, hp, hkey⟩ := Keyed.exists_mem_firsts (List.mem_map_of_mem (f := fun a => (f a, a)) ha)
    rw [map_distinctBy]
    exact List.mem_map.2 ⟨p, hp, hkey⟩

/-- Of what follows other elements, those are dropped whose value occurs before. -/
theorem distinctBy_append_eq (l m : List α) :
    distinctBy f (l ++ m) = distinctBy f l ++ (distinctBy f m).filter fun b => f b ∉ l.map f := by
  induction l with
  | nil => exact (List.filter_eq_self.2 (by simp)).symm
  | cons a rest ih =>
    rw [List.cons_append, distinctBy_cons, distinctBy_cons, ih, List.filter_append, List.filter_filter,
      List.cons_append]
    refine congrArg (fun n => a :: ((distinctBy f rest).filter (fun b => f b ≠ f a) ++ n))
      (List.filter_congr fun b _ => ?_)
    simp only [List.map_cons, List.mem_cons, not_or, Bool.decide_and]

/-- Nothing is dropped if no two elements have one value of `f`. -/
theorem distinctBy_eq_self {l : List α} (hl : (l.map f).Nodup) : distinctBy f l = l := by
  induction l with
  | nil => rfl
  | cons a rest ih =>
    obtain ⟨ha, hrest⟩ := List.nodup_cons.1 hl
    rw [distinctBy_cons, ih hrest]
    refine congrArg (a :: ·) (List.filter_eq_self.2 fun b hb => ?_)
    have hne : f b ≠ f a := fun e => ha (e ▸ List.mem_map_of_mem hb)
    simpa using hne

/-- Of what follows elements with different values of `f`, the elements with one
of these values are dropped. -/
theorem distinctBy_append {l : List α} (hl : (l.map f).Nodup) (m : List α) :
    distinctBy f (l ++ m) = l ++ (distinctBy f m).filter fun b => f b ∉ l.map f := by
  rw [distinctBy_append_eq, distinctBy_eq_self f hl]

/-- The front may be freed of repetitions before the whole is. -/
theorem distinctBy_distinctBy_append (l m : List α) :
    distinctBy f (distinctBy f l ++ m) = distinctBy f (l ++ m) := by
  rw [distinctBy_append_eq, distinctBy_append_eq, distinctBy_eq_self f (nodup_map_distinctBy f l)]
  refine congrArg (distinctBy f l ++ ·) (List.filter_congr fun b _ => ?_)
  exact decide_eq_decide.2 (not_congr (mem_map_distinctBy f))

theorem distinctBy_eq_nil_iff {l : List α} : distinctBy f l = [] ↔ l = [] := by
  cases l with
  | nil => exact iff_of_true rfl rfl
  | cons a rest =>
    rw [distinctBy_cons]
    exact iff_of_false (List.cons_ne_nil _ _) (List.cons_ne_nil _ _)

/-- A test that asks for the value of `f` alone may be made before or after. -/
theorem distinctBy_filter {p : α → Bool} (hp : ∀ a b, f a = f b → p a = p b) (l : List α) :
    distinctBy f (l.filter p) = (distinctBy f l).filter p := by
  induction l with
  | nil => rfl
  | cons a rest ih =>
    rw [distinctBy_cons]
    by_cases ha : p a = true
    · rw [List.filter_cons_of_pos ha, List.filter_cons_of_pos ha, distinctBy_cons, ih,
        List.filter_filter, List.filter_filter]
      exact congrArg (a :: ·) (List.filter_congr fun b _ => Bool.and_comm _ _)
    · -- What the first element drops has its value, so the test drops it as well.
      have hkeep : ∀ b ∈ distinctBy f rest, p b = (p b && decide (f b ≠ f a)) := by
        intro b _
        by_cases hb : f b = f a
        · rw [hp b a hb, Bool.eq_false_iff.2 ha, Bool.false_and]
        · simp [hb]
      rw [List.filter_cons_of_neg ha, List.filter_cons_of_neg ha, ih, List.filter_filter]
      exact List.filter_congr hkeep

/-- The elements that are kept are those at whose place their value occurs first. -/
theorem distinctBy_eq_filter_zipIdx (l : List α) :
    distinctBy f l =
      (l.zipIdx.filter fun e => (l.take e.2).all fun b => decide (f b ≠ f e.1)).map (·.1) := by
  induction l with
  | nil => rfl
  | cons a rest ih =>
    rw [distinctBy_cons, ih, List.zipIdx_cons, Nat.zero_add, List.zipIdx_succ,
      List.filter_cons_of_pos (by simp), List.map_cons, List.filter_map, List.filter_filter,
      List.filter_map, List.map_map]
    have hlater : ∀ e : α × Nat,
        (decide (f e.1 ≠ f a) && (rest.take e.2).all fun b => decide (f b ≠ f e.1)) =
        ((a :: rest).take (e.2 + 1)).all fun b => decide (f b ≠ f e.1) := by
      intro e
      rw [List.take_succ_cons, List.all_cons, decide_eq_decide.2 (ne_comm)]
    refine congrArg (a :: ·) ?_
    have hcongr := List.filter_congr (l := rest.zipIdx) fun e _ => hlater e
    exact congrArg (List.map (·.1)) hcongr

end

end TypeProbe
