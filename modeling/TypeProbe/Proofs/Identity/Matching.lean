import TypeProbe.Proofs.Identity.Form
import TypeProbe.Proofs.Ty.Alike

/-!
# Legible types of one identity match

Legible atoms of one identity have the same form, the same names and marks, and parts of the same
identities one by one (`Atom.IsLegible.matches`).  Unions of one identity have atoms of the same
identities (`Ty.mem_identities_of_identity_eq`).  So legible types of one identity can be followed
downwards side by side (`Ty.SameText.agrees`).
-/

namespace TypeProbe

/-- Legible types of one identity. -/
structure Ty.SameText (s t : Ty) : Prop where
  left : s.IsLegible
  right : t.IsLegible
  identity : s.identity = t.identity

/-- Legible atoms of one identity. -/
structure Atom.SameText (a b : Atom) : Prop where
  left : a.IsLegible
  right : b.IsLegible
  identity : a.identity = b.identity

private theorem eq_of_map_toList {l m : List String} (h : l.map String.toList = m.map String.toList) :
    l = m := by
  have hinj : Function.Injective String.toList := fun _ _ e => String.toList_injective e
  exact hinj.list_map h

/-! ### Unions -/

private theorem clean_members {t : Ty} (h : t.IsLegible) :
    ∀ x ∈ (sortedDistinct (t.atoms.map Atom.identity)).map String.toList, Clean ['|'] x ∧ x ≠ [] := by
  intro x hx
  obtain ⟨s, hs, rfl⟩ := List.mem_map.1 hx
  obtain ⟨a, ha, rfl⟩ := List.mem_map.1 (mem_sortedDistinct.1 hs)
  refine ⟨(h.2 a ha).clean (by simp [atomStops]) (by simp), ?_⟩
  obtain ⟨c, rest, hc, -⟩ := (h.2 a ha).self.exists_head
  rw [hc]
  exact List.cons_ne_nil c rest

/-- Unions of one identity have the same identities among their atoms. -/
theorem Ty.mem_identities_of_identity_eq {s t : Ty} (hs : s.IsLegible) (ht : t.IsLegible)
    (h : s.identity = t.identity) (x : String) :
    x ∈ s.atoms.map Atom.identity ↔ x ∈ t.atoms.map Atom.identity := by
  have e := congrArg String.toList h
  rw [Ty.toList_identity, Ty.toList_identity] at e
  have hlists := Clean.intercalate_inj (List.cons_ne_nil _ _) (.cons rfl) (clean_members hs)
    (clean_members ht) e
  have hsorted : sortedDistinct (s.atoms.map Atom.identity) =
      sortedDistinct (t.atoms.map Atom.identity) :=
    eq_of_map_toList hlists
  rw [← mem_sortedDistinct, hsorted, mem_sortedDistinct]

/-! ### Lists of types, facets and parameters -/

private theorem sameText_of_intercalate_eq {ts us : List Ty} (ht : ∀ t ∈ ts, t.IsLegible)
    (hu : ∀ u ∈ us, u.IsLegible)
    (h : [',', ' '].intercalate (ts.map (·.identity.toList)) =
      [',', ' '].intercalate (us.map (·.identity.toList))) : List.Forall₂ Ty.SameText ts us := by
  have clean : ∀ l : List Ty, (∀ t ∈ l, t.IsLegible) →
      ∀ x ∈ l.map (·.identity.toList), Clean [','] x ∧ x ≠ [] := by
    intro l hl x hx
    obtain ⟨t, hmem, rfl⟩ := List.mem_map.1 hx
    obtain ⟨c, rest, hc, -⟩ := (hl t hmem).exists_head
    exact ⟨(hl t hmem).clean.mono (by simp [unionStops]), by rw [hc]; exact List.cons_ne_nil c rest⟩
  have htexts := Clean.intercalate_inj (List.cons_ne_nil _ _) (.cons rfl) (clean ts ht) (clean us hu) h
  exact forall₂_of_map_eq
    (fun t hmem u hmem' e => ⟨ht t hmem, hu u hmem', String.toList_injective e⟩) htexts

private theorem ends_facetsText (facets : List Atom) : Ends ['&'] (Atom.facetsText facets) := by
  cases facets with
  | nil => exact .nil
  | cons f rest => exact .cons rfl

/-- Facets are cut off one by one at the ampersands. -/
private theorem sameText_of_facetsText_eq {fs gs : List Atom} (hf : ∀ f ∈ fs, f.IsLegible ∧ f.IsTight)
    (hg : ∀ g ∈ gs, g.IsLegible ∧ g.IsTight) (h : Atom.facetsText fs = Atom.facetsText gs) :
    List.Forall₂ Atom.SameText fs gs := by
  have clean : ∀ f : Atom, f.IsLegible ∧ f.IsTight → Clean ['&'] f.identity.toList :=
    fun f hf => hf.1.clean (by simp [atomStops]) fun _ => hf.2
  have cons : ∀ (f : Atom) (rest : List Atom),
      Atom.facetsText (f :: rest) = '&' :: (f.identity.toList ++ Atom.facetsText rest) := fun _ _ => rfl
  induction fs generalizing gs with
  | nil =>
    cases gs with
    | nil => exact .nil
    | cons g rest => cases h
  | cons f fs ih =>
    cases gs with
    | nil => cases h
    | cons g gs =>
      have hf' := hf f List.mem_cons_self
      have hg' := hg g List.mem_cons_self
      rw [cons, cons] at h
      obtain ⟨hfg, hrest⟩ := Clean.append_inj (clean f hf') (clean g hg') (ends_facetsText fs)
        (ends_facetsText gs)
        (List.cons.inj h).2
      have htail := ih (fun k hk => hf k (List.mem_cons_of_mem f hk))
        (fun k hk => hg k (List.mem_cons_of_mem g hk)) hrest
      exact .cons ⟨hf'.1, hg'.1, String.toList_injective hfg⟩ htail

/-- What stands behind the type of a parameter. -/
private def marks (p : Param) : List Char :=
  (if p.variadic then ['.', '.', '.'] else []) ++ if p.optional then ['='] else []

private theorem ends_marks (p : Param) : Ends unionStops (marks p) := by
  unfold marks
  cases p.variadic <;> cases p.optional <;> first | exact .nil | exact .cons rfl

private theorem matches_of_text_eq {p q : Param} (hp : p.written.IsLegible) (hq : q.written.IsLegible)
    (h : p.text = q.text) : Param.Matches Ty.SameText p q := by
  have head : ∀ t : Ty, t.IsLegible → ∃ c rest, t.identity.toList = c :: rest ∧ c ≠ '&' := by
    intro t ht
    obtain ⟨c, rest, hc, hhead⟩ := ht.exists_head
    refine ⟨c, rest, hc, ?_⟩
    rintro rfl
    rcases hhead with h | h
    · cases h
    · cases h
  obtain ⟨c, rest, hc, hcamp⟩ := head _ hp
  obtain ⟨d, rest', hd, hdamp⟩ := head _ hq
  -- No type starts with an ampersand, so one at the start is the mark of a reference.
  have href : p.byReference = q.byReference ∧
      p.written.identity.toList ++ marks p = q.written.identity.toList ++ marks q := by
    change (if p.byReference then ['&'] else []) ++ (p.written.identity.toList ++ marks p) =
      (if q.byReference then ['&'] else []) ++ (q.written.identity.toList ++ marks q) at h
    rw [hc, hd] at h ⊢
    revert h
    cases p.byReference <;> cases q.byReference <;> intro h
    · exact ⟨rfl, h⟩
    · exact absurd (List.cons.inj h).1 hcamp
    · exact absurd (List.cons.inj h).1.symm hdamp
    · exact ⟨rfl, (List.cons.inj h).2⟩
  obtain ⟨hid, hmarks⟩ := Clean.append_inj hp.clean hq.clean (ends_marks p) (ends_marks q) href.2
  have hflags : p.variadic = q.variadic ∧ p.optional = q.optional := by
    unfold marks at hmarks
    revert hmarks
    cases p.variadic <;> cases q.variadic <;> cases p.optional <;> cases q.optional <;> simp
  exact ⟨⟨hp, hq, String.toList_injective hid⟩, href.1, hflags.1, hflags.2⟩

/-- Parameters are cut at the commas. -/
private theorem params_of_intercalate_eq {c d : Callable} (hc : (Atom.callable c).IsLegible)
    (hd : (Atom.callable d).IsLegible)
    (h : [',', ' '].intercalate (c.params.map Param.text) =
      [',', ' '].intercalate (d.params.map Param.text)) :
    List.Forall₂ (Param.Matches Ty.SameText) c.params d.params := by
  have clean : ∀ c : Callable, (Atom.callable c).IsLegible →
      ∀ x ∈ c.params.map Param.text, Clean [','] x ∧ x ≠ [] := by
    intro c hc x hx
    obtain ⟨p, hp, rfl⟩ := List.mem_map.1 hx
    obtain ⟨d, rest, hd, -⟩ := (Callable.isLegible_written hc hp).exists_head
    refine ⟨Callable.clean_text hc hp, fun hnil => ?_⟩
    simp [Param.text, hd] at hnil
  have htexts := Clean.intercalate_inj (List.cons_ne_nil _ _) (.cons rfl) (clean c hc) (clean d hd) h
  exact forall₂_of_map_eq (fun p hp q hq e =>
    matches_of_text_eq (Callable.isLegible_written hc hp) (Callable.isLegible_written hd hq) e) htexts

/-! ### Records -/

/-- A label ends at the question mark or at the colon. -/
private theorem field_of_text_eq {f g : Key × Ty} (hf : f.1.IsLegible ∧ f.2.IsLegible)
    (hg : g.1.IsLegible ∧ g.2.IsLegible) (h : Record.fieldText f = Record.fieldText g) :
    Record.FieldMatches Ty.SameText f g := by
  have ends : ∀ (b : Bool) (x : List Char),
      Ends ['?', ':'] ((if b then ['?'] else []) ++ [':', ' '] ++ x) := by
    intro b x
    cases b <;> exact .cons rfl
  obtain ⟨hlabel, hrest⟩ := Clean.append_inj (Key.clean_label (by simp [signs]) hf.1)
    (Key.clean_label (by simp [signs]) hg.1) (ends _ _) (ends _ _) h
  have hkey : f.1 = g.1 := Key.label_injective (String.toList_injective hlabel)
  have hmark : f.2.optional = g.2.optional ∧ f.2.identity.toList = g.2.identity.toList := by
    revert hrest
    cases f.2.optional <;> cases g.2.optional <;> simp
  exact ⟨hkey, hmark.1, hf.2, hg.2, String.toList_injective hmark.2⟩

/-- Whether a list ends with an extra member that does not occur in it can be seen. -/
private theorem append_extra_inj {α : Type} {xs ys : List α} {w : α} (hx : w ∉ xs) (hy : w ∉ ys)
    {b c : Bool} (h : xs ++ (if b then [] else [w]) = ys ++ if c then [] else [w]) :
    xs = ys ∧ b = c := by
  cases b <;> cases c
  · exact ⟨List.append_cancel_right h, rfl⟩
  · have hxs : xs ++ [w] = ys := by simpa using h
    exact absurd (hxs ▸ List.mem_append_right xs List.mem_cons_self) hy
  · have hys : xs = ys ++ [w] := by simpa using h
    exact absurd (hys ▸ List.mem_append_right ys List.mem_cons_self) hx
  · exact ⟨by simpa using h, rfl⟩

/-- The pieces of a record other than its open end. -/
private def pieces (r : Record) : List (List Char) :=
  if r.isList then r.types.map (·.identity.toList) else r.fields.map Record.fieldText

private theorem head_of_mem_pieces {r : Record} (h : (Atom.record r).IsLegible) {x : List Char}
    (hx : x ∈ pieces r) : ∃ c rest, x = c :: rest ∧ c ≠ '.' := by
  have hdot : ∀ c : Char, isWordChar c = true ∨ c = '\'' → c ≠ '.' := by
    rintro c hc rfl
    rcases hc with hc | hc
    · cases hc
    · cases hc
  unfold pieces at hx
  split at hx
  · obtain ⟨t, ht, rfl⟩ := List.mem_map.1 hx
    obtain ⟨c, rest, hc, hhead⟩ := (h.inside ht).exists_head
    exact ⟨c, rest, hc, hdot c hhead⟩
  · obtain ⟨f, hf, rfl⟩ := List.mem_map.1 hx
    unfold Record.fieldText
    cases hlabel : f.1.label.toList with
    | nil => cases f.2.optional <;> exact ⟨_, _, rfl, by decide⟩
    | cons c rest =>
      refine ⟨c, _, rfl, hdot c ?_⟩
      rcases f.1.toList_label with hw | ⟨s, -, hq⟩
      · exact .inl (hw c (hlabel ▸ List.mem_cons_self))
      · rw [hlabel] at hq
        exact .inr (List.cons.inj hq).1

private theorem openText_not_mem_pieces {r : Record} (h : (Atom.record r).IsLegible) :
    Record.openText ∉ pieces r := by
  intro hmem
  obtain ⟨c, rest, hc, hdot⟩ := head_of_mem_pieces h hmem
  exact hdot (List.cons.inj hc).1.symm

/-- The keys of a list record need not be written, since they are given by the places of the fields. -/
private theorem fields_of_listKeysFrom {start : Nat} {l m : List (Key × Ty)}
    (hl : Record.listKeysFrom start l = true) (hm : Record.listKeysFrom start m = true)
    (h : List.Forall₂ Ty.SameText (l.map (·.2)) (m.map (·.2))) :
    List.Forall₂ (Record.FieldMatches Ty.SameText) l m := by
  induction l generalizing start m with
  | nil =>
    obtain rfl : m = [] := List.map_eq_nil_iff.1 (List.forall₂_nil_left_iff.1 h)
    exact .nil
  | cons f l ih =>
    cases m with
    | nil => cases h
    | cons g m =>
      obtain ⟨htype, hrest⟩ := List.forall₂_cons.1 h
      simp only [Record.listKeysFrom, Bool.and_eq_true, beq_iff_eq, Bool.not_eq_true'] at hl hm
      obtain ⟨⟨hkey, hmark⟩, hl⟩ := hl
      obtain ⟨⟨hkey', hmark'⟩, hm⟩ := hm
      exact .cons ⟨hkey.trans hkey'.symm, hmark.trans hmark'.symm, htype⟩ (ih hl hm hrest)

private theorem record_of_texts_eq {r q : Record} (hr : (Atom.record r).IsLegible)
    (hq : (Atom.record q).IsLegible) (hlist : r.isList = q.isList)
    (h : [',', ' '].intercalate r.texts = [',', ' '].intercalate q.texts) :
    List.Forall₂ (Record.FieldMatches Ty.SameText) r.fields q.fields ∧ r.isSealed = q.isSealed := by
  have clean : ∀ r : Record, (Atom.record r).IsLegible → ∀ x ∈ r.texts, Clean [','] x ∧ x ≠ [] := by
    intro r hr x hx
    refine ⟨Record.clean_texts hr x hx, ?_⟩
    rcases List.mem_append.1 hx with hx | hx
    · obtain ⟨c, rest, rfl, -⟩ := head_of_mem_pieces hr hx
      exact List.cons_ne_nil c rest
    · split at hx
      · cases hx
      · obtain rfl := List.mem_singleton.1 hx
        exact List.cons_ne_nil _ _
  have htexts : pieces r ++ (if r.isSealed then [] else [Record.openText]) =
      pieces q ++ if q.isSealed then [] else [Record.openText] :=
    Clean.intercalate_inj (List.cons_ne_nil _ _) (.cons rfl) (clean r hr) (clean q hq) h
  -- The open end starts with a point, as no other piece does.
  obtain ⟨hpieces, hsealed⟩ :=
    append_extra_inj (openText_not_mem_pieces hr) (openText_not_mem_pieces hq) htexts
  cases hl : r.isList with
  | true =>
    have hl' : q.isList = true := hlist ▸ hl
    simp only [pieces, hl, hl', ↓reduceIte] at hpieces
    have htypes : List.Forall₂ Ty.SameText r.types q.types :=
      forall₂_of_map_eq
        (fun t ht u hu e => ⟨hr.inside ht, hq.inside hu, String.toList_injective e⟩) hpieces
    exact ⟨fields_of_listKeysFrom (hr.self.words.2.2 hl) (hq.self.words.2.2 hl') htypes, hsealed⟩
  | false =>
    have hl' : q.isList = false := hlist ▸ hl
    simp only [pieces, hl, hl', Bool.false_eq_true, ↓reduceIte] at hpieces
    have hfield : ∀ r : Record, (Atom.record r).IsLegible →
        ∀ f ∈ r.fields, f.1.IsLegible ∧ f.2.IsLegible :=
      fun r hr f hf =>
        ⟨hr.self.words.2.1 _ (List.mem_map_of_mem hf), hr.inside (List.mem_map_of_mem hf)⟩
    exact ⟨forall₂_of_map_eq
      (fun f hf g hg => field_of_text_eq (hfield r hr f hf) (hfield q hq g hg)) hpieces, hsealed⟩

/-! ### Atoms -/

private theorem literal_of_identity_eq {x y : Literal} (hx : (Atom.literal x).HasLegibleText)
    (hy : (Atom.literal y).HasLegibleText) (hword : (Atom.literal x).word = (Atom.literal y).word)
    (hrest : (Atom.literal x).rest = (Atom.literal y).rest)
    (hform : (Atom.literal x).form = (Atom.literal y).form) : x = y := by
  cases x with
  | string s =>
    cases y with
    | string t =>
      have hst : s.toList ++ ['\''] = t.toList ++ ['\''] := (List.cons.inj hrest).2
      exact congrArg Literal.string (String.toList_injective (List.append_cancel_right hst))
    | _ => cases hform
  | int i =>
    cases y with
    | int j => exact congrArg Literal.int (Int.repr_inj.1 hword)
    | _ => cases hform
  | float x =>
    cases y with
    | float y =>
      have hxy : x.text.toList ++ [')'] = y.text.toList ++ [')'] := (List.cons.inj hrest).2
      have htext : x.text = y.text := String.toList_injective (List.append_cancel_right hxy)
      exact congrArg Literal.float (Binary64.text_injective hx.words hy.words htext)
    | _ => cases hform
  | className name =>
    cases y with
    | className other => exact congrArg Literal.className hword
    | _ => cases hform

private theorem classString_of_rest_eq {b c : Option String}
    (h : (Atom.classString b).rest = (Atom.classString c).rest) : b = c := by
  cases b with
  | none =>
    cases c with
    | none => rfl
    | some c => cases h
  | some b =>
    cases c with
    | none => cases h
    | some c =>
      have hbc : b.toList ++ ['>'] = c.toList ++ ['>'] := (List.cons.inj h).2
      exact congrArg some (String.toList_injective (List.append_cancel_right hbc))

/-- A bracketed text ends at the bracket that closes it. -/
private theorem bracket_inj {x y r r' : List Char} {c : Char}
    (hc : Scan.read [] Scan.start c = none) (hx : Clean [] x) (hy : Clean [] y)
    (h : x ++ [c] ++ r = y ++ [c] ++ r') : x = y ∧ r = r' := by
  rw [List.append_assoc, List.append_assoc] at h
  obtain ⟨hxy, hrest⟩ := Clean.append_inj hx hy (.cons hc) (.cons hc) h
  exact ⟨hxy, (List.cons.inj hrest).2⟩

private theorem generic_of_rest_eq {o p : ObjectType} {ts us : List Ty}
    (ha : (Atom.generic o ts).IsLegible) (hb : (Atom.generic p us).IsLegible)
    (h : (Atom.generic o ts).rest = (Atom.generic p us).rest) :
    List.Forall₂ Atom.SameText o.facets p.facets ∧ List.Forall₂ Ty.SameText ts us := by
  have clean : ∀ l : List Ty, (∀ t ∈ l, t.IsLegible) →
      Clean [] ([',', ' '].intercalate (l.map (·.identity.toList))) := by
    intro l hl
    refine .intercalate rfl fun x hx => ?_
    obtain ⟨t, ht, rfl⟩ := List.mem_map.1 hx
    exact (hl t ht).clean.mono (by simp)
  have hts : ∀ t ∈ ts, t.IsLegible := fun t ht => ha.inside ht
  have hus : ∀ u ∈ us, u.IsLegible := fun u hu => hb.inside hu
  obtain ⟨hparams, hfacets⟩ := bracket_inj rfl (clean ts hts) (clean us hus) (List.cons.inj h).2
  refine ⟨?_, sameText_of_intercalate_eq hts hus hparams⟩
  exact sameText_of_facetsText_eq (fun f hf => ⟨ha.facet hf, ha.self.facets f hf⟩)
    (fun g hg => ⟨hb.facet hg, hb.self.facets g hg⟩) hfacets

private theorem callable_of_rest_eq {c d : Callable} (ha : (Atom.callable c).IsLegible)
    (hb : (Atom.callable d).IsLegible) (h : (Atom.callable c).rest = (Atom.callable d).rest) :
    List.Forall₂ (Param.Matches Ty.SameText) c.params d.params ∧
      Option.Rel Ty.SameText c.result d.result := by
  have clean : ∀ c : Callable, (Atom.callable c).IsLegible →
      Clean [] ([',', ' '].intercalate (c.params.map Param.text)) := by
    intro c hc
    refine .intercalate rfl fun x hx => ?_
    obtain ⟨p, hp, rfl⟩ := List.mem_map.1 hx
    exact (Callable.clean_text hc hp).mono (by simp)
  obtain ⟨hparams, hresult⟩ := bracket_inj rfl (clean c ha) (clean d hb) (List.cons.inj h).2
  refine ⟨params_of_intercalate_eq ha hb hparams, ?_⟩
  cases hc : c.result with
  | none =>
    cases hd : d.result with
    | none => exact .none
    | some u => rw [hc, hd] at hresult; cases hresult
  | some t =>
    cases hd : d.result with
    | none => rw [hc, hd] at hresult; cases hresult
    | some u =>
      rw [hc, hd] at hresult
      have ht : t.IsLegible := ha.inside (Callable.mem_types_of_result hc)
      have hu : u.IsLegible := hb.inside (Callable.mem_types_of_result hd)
      exact .some ⟨ht, hu, String.toList_injective (List.cons.inj hresult).2⟩

private theorem template_of_rest_eq {name name' scope scope' : String} {bound bound' : Ty}
    (ha : (Atom.template name scope bound).IsLegible)
    (hb : (Atom.template name' scope' bound').IsLegible)
    (h : (Atom.template name scope bound).rest = (Atom.template name' scope' bound').rest) :
    scope = scope' ∧ bound.SameText bound' := by
  have noWord : ∀ x : List Char, NoWord ([' ', 'a', 's', ' '] ++ x) := fun _ => .cons rfl
  have e : scope.toList ++ ([' ', 'a', 's', ' '] ++ bound.identity.toList) =
      scope'.toList ++ ([' ', 'a', 's', ' '] ++ bound'.identity.toList) := by
    simpa [Atom.rest] using h
  obtain ⟨hscope, hrest⟩ := IsWord.append_inj (isWord_of_isName ha.self.words.2)
    (isWord_of_isName hb.self.words.2) (noWord _) (noWord _) e
  exact ⟨String.toList_injective hscope, ha.inside (by simp [Atom.types]),
    hb.inside (by simp [Atom.types]), String.toList_injective (List.append_cancel_left hrest)⟩

private theorem array_of_rest_eq {key value key' value' : Ty} {nonEmpty nonEmpty' : Bool}
    (ha : (Atom.array key value nonEmpty).IsLegible) (hb : (Atom.array key' value' nonEmpty').IsLegible)
    (h : (Atom.array key value nonEmpty).rest = (Atom.array key' value' nonEmpty').rest) :
    key.SameText key' ∧ value.SameText value' := by
  have e : key.identity.toList ++ [',', ' '] ++ value.identity.toList =
      key'.identity.toList ++ [',', ' '] ++ value'.identity.toList :=
        List.append_cancel_right (List.cons.inj h).2
  rw [List.append_assoc, List.append_assoc] at e
  have ends : ∀ x : List Char, Ends unionStops ([',', ' '] ++ x) := fun _ => .cons rfl
  have hk : key.IsLegible := ha.inside (by simp [Atom.types])
  have hk' : key'.IsLegible := hb.inside (by simp [Atom.types])
  obtain ⟨hkey, hrest⟩ := Clean.append_inj hk.clean hk'.clean (ends _) (ends _) e
  exact ⟨⟨hk, hk', String.toList_injective hkey⟩, ha.inside (by simp [Atom.types]),
    hb.inside (by simp [Atom.types]), String.toList_injective (List.append_cancel_left hrest)⟩

/-- Legible atoms of one identity match. -/
theorem Atom.IsLegible.matches {a b : Atom} (ha : a.IsLegible) (hb : b.IsLegible)
    (h : a.identity = b.identity) : Atom.Matches Ty.SameText Atom.SameText a b := by
  -- Atoms of two forms are told apart by `hform`; each form is then cut into its own pieces.
  obtain ⟨hword, hrest, hform⟩ := Atom.word_rest_form_of_identity_eq ha.self hb.self h
  cases a with
  | keyword v =>
    cases b with
    | keyword w => exact Keyword.text_injective hword
    | literal x => cases x <;> cases hform
    | _ => cases hform
  | literal x =>
    cases b with
    | literal y => exact literal_of_identity_eq ha.self hb.self hword hrest hform
    | _ => cases x <;> cases hform
  | classString bound =>
    cases b with
    | classString other => exact classString_of_rest_eq hrest
    | literal x => cases x <;> cases hform
    | _ => cases hform
  | object o =>
    cases b with
    | object p =>
      refine ⟨hword, sameText_of_facetsText_eq (fun f hf => ⟨ha.facet hf, ha.self.facets f hf⟩)
        (fun g hg => ⟨hb.facet hg, hb.self.facets g hg⟩) hrest⟩
    | literal x => cases x <;> cases hform
    | _ => cases hform
  | generic o ts =>
    cases b with
    | generic p us => exact ⟨hword, generic_of_rest_eq ha hb hrest⟩
    | literal x => cases x <;> cases hform
    | _ => cases hform
  | record r =>
    cases b with
    | record q =>
      have hlist : r.isList = q.isList := by
        simp only [Atom.word] at hword
        revert hword
        cases r.isList <;> cases q.isList <;> simp
      obtain ⟨hfields, hsealed⟩ :=
        record_of_texts_eq ha hb hlist (List.append_cancel_right (List.cons.inj hrest).2)
      exact ⟨hfields, hsealed, hlist⟩
    | literal x => cases x <;> cases hform
    | _ => cases hform
  | callable c =>
    cases b with
    | callable d =>
      have hflags : c.isClosure = d.isClosure ∧ c.isPure = d.isPure := by
        simp only [Atom.word] at hword
        revert hword
        cases c.isClosure <;> cases d.isClosure <;> cases c.isPure <;> cases d.isPure <;> decide
      obtain ⟨hparams, hresult⟩ := callable_of_rest_eq ha hb hrest
      exact ⟨hparams, hresult, hflags⟩
    | literal x => cases x <;> cases hform
    | _ => cases hform
  | template name scope bound =>
    cases b with
    | template name' scope' bound' => exact ⟨hword, template_of_rest_eq ha hb hrest⟩
    | literal x => cases x <;> cases hform
    | _ => cases hform
  | array key value nonEmpty =>
    cases b with
    | array key' value' nonEmpty' =>
      have hflag : nonEmpty = nonEmpty' := by
        simp only [Atom.word] at hword
        revert hword
        cases nonEmpty <;> cases nonEmpty' <;> decide
      obtain ⟨hkey, hvalue⟩ := array_of_rest_eq ha hb hrest
      exact ⟨hkey, hvalue, hflag⟩
    | literal x => cases x <;> cases hform
    | _ => cases hform
  | list value nonEmpty =>
    cases b with
    | list value' nonEmpty' =>
      have hflag : nonEmpty = nonEmpty' := by
        simp only [Atom.word] at hword
        revert hword
        cases nonEmpty <;> cases nonEmpty' <;> decide
      have hvalue : value.identity.toList = value'.identity.toList :=
        List.append_cancel_right (List.cons.inj hrest).2
      have hv : value.IsLegible := ha.inside (by simp [Atom.types])
      have hv' : value'.IsLegible := hb.inside (by simp [Atom.types])
      exact ⟨⟨hv, hv', String.toList_injective hvalue⟩, hflag⟩
    | literal x => cases x <;> cases hform
    | _ => cases hform

private theorem simulation_sameText : Ty.Simulation Ty.SameText Atom.SameText where
  symm h := ⟨h.right, h.left, h.identity.symm⟩
  exists_atom h a ha := by
    have hmem := (Ty.mem_identities_of_identity_eq h.left h.right h.identity a.identity).1
      (List.mem_map_of_mem ha)
    obtain ⟨b, hb, hab⟩ := List.mem_map.1 hmem
    exact ⟨b, hb, h.left.2 a ha, h.right.2 b hb, hab.symm⟩
  atom h := h.left.matches h.right h.identity

/-- Legible types of one identity agree. -/
theorem Ty.SameText.agrees {s t : Ty} (h : s.SameText t) : s.Agrees t :=
  ⟨_, _, simulation_sameText, h⟩

end TypeProbe
