import TypeProbe.Proofs.Identity.Text
import TypeProbe.Proofs.Number.ReadsBack

/-!
# Legible types

A type is legible (`Ty.IsLegible`) if its identity shows where each part of it ends: names are
words, quoted texts hold no quote, what stands at the end of an atom without brackets has one
atom only, facets have no facets, and a record whose keys are not written has the keys of a
list.  The identity of a legible atom has closed brackets and none of the separators outside of
them (`Atom.IsLegible.clean`).
-/

namespace TypeProbe

/-- The type at the end of an atom's identity, where no bracket closes it. -/
def Atom.tail? : Atom → Option Ty
  | .callable c => c.result
  | .template _ _ bound => some bound
  | _ => none

/-- Neither the atom nor one at its end has facets. -/
inductive Atom.IsTight : Atom → Prop where
  | intro {a : Atom} : a.facets = [] → (∀ t ∈ a.tail?, ∀ b ∈ t.atoms, b.IsTight) → a.IsTight

/-- The names of the atom are words, its texts and keys have no quote, and a record that does not
write its keys has the keys of a list. -/
def Atom.HasLegibleWords : Atom → Prop
  | .literal (.string s) => '\'' ∉ s.toList
  | .literal (.float x) => x.isNaN = false
  | .literal (.className name) => isName name = true
  | .classString bound => ∀ b ∈ bound, isName b = true
  | .object o => isClassName o.name = true
  | .generic o _ => isClassName o.name = true
  | .record r =>
    r.keys.Nodup ∧ (∀ k ∈ r.keys, k.IsLegible) ∧ (r.isList = true → Record.hasListKeys r.fields = true)
  | .template name scope _ => isName name = true ∧ isName scope = true
  | _ => True

structure Atom.HasLegibleText (a : Atom) : Prop where
  words : a.HasLegibleWords
  facets : ∀ f ∈ a.facets, f.IsTight
  tail : ∀ t ∈ a.tail?, ∃ b, t.atoms = [b]
  types : ∀ t ∈ a.types, t.atoms ≠ []

def Atom.IsLegible (a : Atom) : Prop :=
  ∀ b : Atom, b.PartOf a → b.HasLegibleText

def Ty.IsLegible (t : Ty) : Prop :=
  t.atoms ≠ [] ∧ ∀ a ∈ t.atoms, a.IsLegible

namespace Atom.IsLegible

variable {a : Atom}

theorem of_parts (h : a.HasLegibleText) (hf : ∀ f ∈ a.facets, f.IsLegible)
    (ht : ∀ t ∈ a.types, t.IsLegible) : a.IsLegible :=
  Atom.forall_partOf h hf fun t hmem b ⟨c, hc, hb⟩ => (ht t hmem).2 c hc b hb

theorem self (h : a.IsLegible) : a.HasLegibleText :=
  h a .self

theorem facet (h : a.IsLegible) {f : Atom} (hf : f ∈ a.facets) : f.IsLegible :=
  fun b hb => h b (.facet hf hb)

theorem inside (h : a.IsLegible) {t : Ty} (ht : t ∈ a.types) : t.IsLegible :=
  ⟨h.self.types t ht, fun _ hc b hb => h b (.inside ht hc hb)⟩

end Atom.IsLegible

theorem Ty.IsLegible.isProper {t : Ty} (h : t.IsLegible) : t.IsProper := by
  rintro a ⟨b, hb, hab⟩
  have hwords := (h.2 b hb a hab).words
  cases a with
  | literal x =>
    cases x with
    | float x => exact hwords
    | _ => trivial
  | record r => exact hwords.1
  | _ => trivial

theorem Atom.mem_types_of_tail? {a : Atom} {t : Ty} (h : t ∈ a.tail?) : t ∈ a.types := by
  cases a with
  | callable c => exact Callable.mem_types_of_result h
  | template name scope bound => exact List.mem_singleton.2 (Option.some.inj h).symm
  | _ => cases h

theorem Atom.isLegible_keyword (w : Keyword) : (Atom.keyword w).IsLegible := by
  intro b hb
  obtain rfl := Atom.partOf_keyword_iff.1 hb
  exact ⟨trivial, by simp [Atom.facets], by simp [Atom.tail?], by simp [Atom.types]⟩

/-- A parameter without a type is written as `mixed`, every other one with a type inside. -/
theorem Callable.isLegible_written {c : Callable} (h : (Atom.callable c).IsLegible) {p : Param}
    (hp : p ∈ c.params) : p.written.IsLegible := by
  unfold Param.written
  cases htype : p.type with
  | none =>
    refine ⟨List.cons_ne_nil _ _, fun a ha => ?_⟩
    obtain rfl := List.mem_singleton.1 ha
    exact Atom.isLegible_keyword .mixed
  | some t => exact h.inside (Callable.mem_types_of_param hp htype)

/-! ### The first word -/

private theorem isWord_of_isClassName {s : String} (h : isClassName s = true) : IsWord s.toList :=
  isWord_of_isName (isName_of_isClassName h)

theorem Atom.HasLegibleText.isWord_word {a : Atom} (h : a.HasLegibleText) : IsWord a.word.toList := by
  have word : ∀ s : String, s.toList.all isWordChar = true → IsWord s.toList :=
    fun s hs => List.all_eq_true.1 hs
  have hw := h.words
  cases a with
  | keyword w => cases w <;> exact word _ (by decide)
  | literal x =>
    cases x with
    | string s => exact word "" rfl
    | int i => exact Int.isWord_repr i
    | float x => exact word "float" (by decide)
    | className name => exact isWord_of_isName hw
  | classString bound => exact word "class-string" (by decide)
  | object o => exact isWord_of_isClassName hw
  | generic o params => exact isWord_of_isClassName hw
  | record r =>
    obtain ⟨fields, isSealed, isList⟩ := r
    cases isList
    · exact word "array" (by decide)
    · exact word "list" (by decide)
  | callable c =>
    obtain ⟨params, result, isClosure, isPure⟩ := c
    cases isClosure <;> cases isPure
    · exact word "callable" (by decide)
    · exact word "pure-callable" (by decide)
    · exact word "Closure" (by decide)
    · exact word "pure-Closure" (by decide)
  | template name scope bound => exact isWord_of_isName hw.1
  | array key value nonEmpty =>
    cases nonEmpty
    · exact word "array" (by decide)
    · exact word "non-empty-array" (by decide)
  | list value nonEmpty =>
    cases nonEmpty
    · exact word "list" (by decide)
    · exact word "non-empty-list" (by decide)

/-! ### Separators and brackets -/

/-- The separators that do not stand in the identity of an atom outside of brackets and quotes; the
last one stands in front of facets. -/
def atomStops : List Char := ['|', ',', '.', '=', '&']

/-- The separators that do not stand in the identity of a union. -/
def unionStops : List Char := [',', '.', '=']

private theorem atomStops_subset : ∀ c ∈ atomStops, c ∈ signs := by
  simp [atomStops, signs]

/-- A character that is no separator, bracket or quote is read without effect. -/
private theorem clean_of_not_stop {stops : List Char} (hs : ∀ c ∈ stops, c ∈ atomStops) {x : List Char}
    (hx : ∀ c ∈ x, c ≠ '\'' ∧ c ∉ Scan.opening ∧ c ∉ Scan.closing ∧ c ∉ atomStops) : Clean stops x := by
  refine .of_forall fun c hc => ?_
  obtain ⟨hq, ho, hcl, hst⟩ := hx c hc
  exact Scan.read_of_not_mem hq ho hcl fun h => hst (hs c h)

private theorem clean_text {x : Binary64} (hx : x.isNaN = false) : Clean [] x.text.toList := by
  refine .of_forall fun c hc => ?_
  have hchar := Binary64.mem_text hx hc
  refine Scan.read_of_not_mem ?_ ?_ ?_ (by simp)
  · rintro rfl
    simp at hchar
  · intro h
    simp only [Scan.opening, List.mem_cons, List.not_mem_nil, or_false] at h
    rcases h with rfl | rfl | rfl <;> simp at hchar
  · intro h
    simp only [Scan.closing, List.mem_cons, List.not_mem_nil, or_false] at h
    rcases h with rfl | rfl | rfl <;> simp at hchar

/-- A union is as clean as its atoms, apart from the bars. -/
theorem Ty.clean_identity {stops : List Char} {t : Ty} (hbar : '|' ∉ stops)
    (h : ∀ a ∈ t.atoms, Clean stops a.identity.toList) : Clean stops t.identity.toList := by
  rw [Ty.toList_identity]
  have hsep : Clean stops ['|'] := .of_forall fun c hc => by
    obtain rfl := List.mem_singleton.1 hc
    exact Scan.read_of_not_mem (by decide) (by decide) (by decide) hbar
  refine .intercalate hsep fun x hx => ?_
  obtain ⟨s, hs, rfl⟩ := List.mem_map.1 hx
  obtain ⟨a, ha, rfl⟩ := List.mem_map.1 (mem_sortedDistinct.1 hs)
  exact h a ha

private theorem clean_facetsText {stops : List Char} {facets : List Atom} (hamp : '&' ∉ stops)
    (h : ∀ f ∈ facets, Clean stops f.identity.toList) : Clean stops (Atom.facetsText facets) := by
  induction facets with
  | nil => exact .nil
  | cons f rest ih =>
    have hfirst : Clean stops ['&'] := .of_forall fun c hc => by
      obtain rfl := List.mem_singleton.1 hc
      exact Scan.read_of_not_mem (by decide) (by decide) (by decide) hamp
    have hf := h f List.mem_cons_self
    have hrest := ih fun g hg => h g (List.mem_cons_of_mem f hg)
    exact (hfirst.append hf).append hrest

private theorem clean_fieldText {f : Key × Ty} (hk : f.1.IsLegible)
    (ht : Clean [','] f.2.identity.toList) : Clean [','] (Record.fieldText f) := by
  unfold Record.fieldText
  refine (Key.clean_label (by simp [signs]) hk).append (.append ?_ ht)
  cases f.2.optional <;> rfl

private theorem clean_recordTexts {r : Record} (hk : ∀ k ∈ r.keys, k.IsLegible)
    (ht : ∀ t ∈ r.types, Clean [','] t.identity.toList) : ∀ x ∈ r.texts, Clean [','] x := by
  intro x hx
  rcases List.mem_append.1 hx with hx | hx
  · split at hx
    · obtain ⟨t, hmem, rfl⟩ := List.mem_map.1 hx
      exact ht t hmem
    · obtain ⟨f, hf, rfl⟩ := List.mem_map.1 hx
      exact clean_fieldText (hk _ (List.mem_map_of_mem hf)) (ht _ (List.mem_map_of_mem hf))
  · split at hx
    · cases hx
    · obtain rfl := List.mem_singleton.1 hx
      rfl

private theorem clean_paramText {p : Param} (h : Clean [','] p.written.identity.toList) :
    Clean [','] p.text := by
  unfold Param.text
  refine .append ?_ (h.append (.append ?_ ?_))
  · cases p.byReference <;> rfl
  · cases p.variadic <;> rfl
  · cases p.optional <;> rfl

private theorem clean_written {stops : List Char} {c : Callable} {p : Param} (hp : p ∈ c.params)
    (h : ∀ t ∈ (Atom.callable c).types, Clean stops t.identity.toList)
    (hmixed : Clean stops "mixed".toList) : Clean stops p.written.identity.toList := by
  unfold Param.written
  cases htype : p.type with
  | none =>
    have hident : (Ty.single (.keyword .mixed)).identity = "mixed" := by
      rw [Ty.identity_of_atoms_eq (a := .keyword .mixed) rfl, Atom.identity]
      rfl
    rw [Option.getD_none, hident]
    exact hmixed
  | some t => exact h t (Callable.mem_types_of_param hp htype)

/-- The identity of a legible atom has no separator outside of brackets and quotes, but
the ampersands of its facets. -/
theorem Atom.IsLegible.clean {a : Atom} (h : a.IsLegible) {stops : List Char}
    (hs : ∀ c ∈ stops, c ∈ atomStops) (ht : '&' ∈ stops → a.IsTight) :
    Clean stops a.identity.toList := by
  induction a using Atom.induction generalizing stops with
  | step a facets inside =>
    have comma : ∀ t ∈ a.types, Clean [','] t.identity.toList := by
      intro t htype
      refine Ty.clean_identity (by simp) fun b hb => ?_
      exact inside t htype b hb ((h.inside htype).2 b hb) (by simp [atomStops]) (by simp)
    have union : ∀ t ∈ a.types, Clean [] t.identity.toList := fun t ht => (comma t ht).mono (by simp)
    -- What no bracket closes is one atom, which is tight if `a` is.
    have tail : ∀ t ∈ a.tail?, Clean stops t.identity.toList := by
      intro t htail
      have htype := Atom.mem_types_of_tail? htail
      obtain ⟨b, hb⟩ := h.self.tail t htail
      have hmem : b ∈ t.atoms := hb ▸ List.mem_singleton.2 rfl
      rw [Ty.identity_of_atoms_eq hb]
      refine inside t htype b hmem ((h.inside htype).2 b hmem) hs fun hamp => ?_
      cases ht hamp with
      | intro _ htight => exact htight t htail b hmem
    have objects : Clean stops (Atom.facetsText a.facets) := by
      by_cases hamp : '&' ∈ stops
      · cases ht hamp with
        | intro hnil _ => rw [hnil]; exact .nil
      · exact clean_facetsText hamp fun f hf => facets f hf (h.facet hf) hs fun h => absurd h hamp
    have hwords := h.self.words
    rw [Atom.toList_identity]
    refine (h.self.isWord_word.clean fun c hc => atomStops_subset c (hs c hc)).append ?_
    cases a with
    | keyword w => exact .nil
    | literal x =>
      cases x with
      | string s => exact .quoted hwords
      | int i => exact .nil
      | float x => exact .bracket (by simp [Scan.opening]) (by simp [Scan.closing]) (clean_text hwords)
      | className name =>
        exact clean_of_not_stop hs (by simp [Atom.rest, Scan.opening, Scan.closing, atomStops])
    | classString bound =>
      cases bound with
      | none => exact .nil
      | some b =>
        have hb : Clean [] b.toList := (isWord_of_isName (hwords b rfl)).clean (by simp)
        exact .bracket (by simp [Scan.opening]) (by simp [Scan.closing]) hb
    | object o => exact objects
    | generic o params =>
      have hparams : Clean [] ([',', ' '].intercalate (params.map (·.identity.toList))) :=
        .intercalate rfl fun x hx => by
          obtain ⟨t, hmem, rfl⟩ := List.mem_map.1 hx
          exact union t hmem
      exact .append (.bracket (by simp [Scan.opening]) (by simp [Scan.closing]) hparams) objects
    | record r =>
      have htexts := clean_recordTexts hwords.2.1 fun t hmem => comma t hmem
      exact .bracket (by simp [Scan.opening]) (by simp [Scan.closing])
        (.intercalate rfl fun x hx => (htexts x hx).mono (by simp))
    | callable c =>
      have hparams : Clean [] ([',', ' '].intercalate (c.params.map Param.text)) :=
        .intercalate rfl fun x hx => by
        obtain ⟨p, hp, rfl⟩ := List.mem_map.1 hx
        exact (clean_paramText (clean_written hp comma rfl)).mono (by simp)
      refine .append (.bracket (by simp [Scan.opening]) (by simp [Scan.closing]) hparams) ?_
      cases hresult : c.result with
      | none => exact .nil
      | some t =>
        have hcolon : Clean stops [':'] :=
          clean_of_not_stop hs (by simp [Scan.opening, Scan.closing, atomStops])
        exact hcolon.append (tail t hresult)
    | template name scope bound =>
      have hcolon : Clean stops [':'] :=
        clean_of_not_stop hs (by simp [Scan.opening, Scan.closing, atomStops])
      have hscope : Clean stops scope.toList :=
        (isWord_of_isName hwords.2).clean fun c hc => atomStops_subset c (hs c hc)
      have hmiddle : Clean stops " as ".toList :=
        clean_of_not_stop hs (by simp [Scan.opening, Scan.closing, atomStops])
      exact ((hcolon.append hscope).append hmiddle).append (tail bound rfl)
    | array key value nonEmpty =>
      have hkey := union key (by simp [Atom.types])
      have hvalue := union value (by simp [Atom.types])
      have hsep : Clean [] [',', ' '] := rfl
      exact .bracket (by simp [Scan.opening]) (by simp [Scan.closing])
        ((hkey.append hsep).append hvalue)
    | list value nonEmpty =>
      exact .bracket (by simp [Scan.opening]) (by simp [Scan.closing])
        (union value (by simp [Atom.types]))

theorem Ty.IsLegible.clean {t : Ty} (h : t.IsLegible) : Clean unionStops t.identity.toList := by
  refine Ty.clean_identity (by simp [unionStops]) fun a ha => ?_
  exact (h.2 a ha).clean (by simp [unionStops, atomStops]) (by simp [unionStops])

theorem Record.clean_texts {r : Record} (h : (Atom.record r).IsLegible) :
    ∀ x ∈ r.texts, Clean [','] x :=
  clean_recordTexts h.self.words.2.1 fun _ ht => (h.inside ht).clean.mono (by simp [unionStops])

theorem Callable.clean_text {c : Callable} (h : (Atom.callable c).IsLegible) {p : Param}
    (hp : p ∈ c.params) : Clean [','] p.text :=
  clean_paramText ((Callable.isLegible_written h hp).clean.mono (by simp [unionStops]))

/-! ### The first character -/

private theorem ne_nil_of_isName {s : String} (h : isName s = true) : s.toList ≠ [] :=
  (isName_iff.1 h).1

/-- Only a quoted text does not start with a word. -/
private theorem word_ne_nil {a : Atom} (h : a.HasLegibleText) (hs : ∀ s, a ≠ .literal (.string s)) :
    a.word.toList ≠ [] := by
  have hw := h.words
  cases a with
  | keyword w => cases w <;> decide
  | literal x =>
    cases x with
    | string s => exact absurd rfl (hs s)
    | int i =>
      obtain ⟨c, rest, hi, -⟩ := Int.toList_repr i
      intro hnil
      rw [Atom.word, hi] at hnil
      cases hnil
    | float x => simp [Atom.word]
    | className name => exact ne_nil_of_isName hw
  | classString bound => simp [Atom.word]
  | object o => exact ne_nil_of_isName (isName_of_isClassName hw)
  | generic o params => exact ne_nil_of_isName (isName_of_isClassName hw)
  | record r => unfold Atom.word; dsimp only; split <;> simp
  | callable c => unfold Atom.word; dsimp only; split <;> split <;> simp
  | template name scope bound => exact ne_nil_of_isName hw.1
  | array key value nonEmpty => cases nonEmpty <;> simp [Atom.word]
  | list value nonEmpty => cases nonEmpty <;> simp [Atom.word]

/-- The text of an atom starts with a character of words or with a quote. -/
theorem Atom.HasLegibleText.exists_head {a : Atom} (h : a.HasLegibleText) :
    ∃ c rest, a.identity.toList = c :: rest ∧ (isWordChar c = true ∨ c = '\'') := by
  rw [Atom.toList_identity]
  by_cases hs : ∃ s, a = .literal (.string s)
  · obtain ⟨s, rfl⟩ := hs
    exact ⟨'\'', s.toList ++ ['\''], rfl, .inr rfl⟩
  · obtain ⟨c, rest, hword⟩ := List.exists_cons_of_ne_nil (word_ne_nil h fun s e => hs ⟨s, e⟩)
    refine ⟨c, rest ++ a.rest, by rw [hword]; rfl, .inl ?_⟩
    exact h.isWord_word c (hword ▸ List.mem_cons_self)

theorem Ty.IsLegible.exists_head {t : Ty} (h : t.IsLegible) :
    ∃ c rest, t.identity.toList = c :: rest ∧ (isWordChar c = true ∨ c = '\'') := by
  rw [Ty.toList_identity]
  obtain ⟨a, ha⟩ := List.exists_mem_of_ne_nil _ h.1
  have hmem : a.identity ∈ sortedDistinct (t.atoms.map Atom.identity) :=
    mem_sortedDistinct.2 (List.mem_map_of_mem ha)
  cases hsorted : sortedDistinct (t.atoms.map Atom.identity) with
  | nil => rw [hsorted] at hmem; cases hmem
  | cons s others =>
    have hs : s ∈ sortedDistinct (t.atoms.map Atom.identity) := hsorted ▸ List.mem_cons_self
    obtain ⟨b, hb, rfl⟩ := List.mem_map.1 (mem_sortedDistinct.1 hs)
    obtain ⟨c, rest, hc, hhead⟩ := (h.2 b hb).self.exists_head
    cases others with
    | nil => exact ⟨c, rest, by simpa using hc, hhead⟩
    | cons x others =>
      exact ⟨c, _, by rw [List.map_cons, List.map_cons, List.intercalate_cons_cons, hc]; rfl, hhead⟩

end TypeProbe
