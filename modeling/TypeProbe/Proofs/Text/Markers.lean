import Mathlib.Data.List.Infix
import TypeProbe.Assertion.Collect
import TypeProbe.Proofs.Elementwise

/-!
# The longest marker is replaced

`Marker.Replaced` says without an algorithm what becomes of a text: from left to right the longest
marker at the front is replaced by the value of its first entry, and where there is none, one
character is copied.  `Marker.replaceAll` sorts the entries by the length of their markers and takes
the first one that matches.  That is the longest one, since two markers at the front of one text are
comparable (`Marker.length_le_of_byteSize_le`), and the first entry of its marker, since the sort
keeps the order of equally long ones (`Marker.get?_byLength`).
-/

namespace TypeProbe

namespace Marker

/-- The longest nonempty marker at the front of the text, with the value of its first entry. -/
structure IsLongest (replacements : List (String × String)) (cs : List Char)
    (marker value : String) : Prop where
  first : Keyed.get? marker replacements = some value
  nonempty : marker ≠ ""
  atFront : marker.toList <+: cs
  longest : ∀ r ∈ replacements, r.1.toList <+: cs → r.1.length ≤ marker.length

/-- What becomes of a text when its markers are replaced. -/
inductive Replaced (replacements : List (String × String)) : List Char → List Char → Prop where
  | done : Replaced replacements [] []
  | marker {marker value : String} {rest out : List Char} :
    IsLongest replacements (marker.toList ++ rest) marker value → Replaced replacements rest out →
    Replaced replacements (marker.toList ++ rest) (value.toList ++ out)
  | copy {c : Char} {rest out : List Char} :
    (∀ r ∈ replacements, r.1 ≠ "" → ¬ r.1.toList <+: c :: rest) →
    Replaced replacements rest out → Replaced replacements (c :: rest) (c :: out)

variable {replacements : List (String × String)}

/-! ### Markers at the front of one text -/

private theorem eq_of_prefix_of_byteSize_le {m n : String} (h : m.toList <+: n.toList)
    (hle : n.utf8ByteSize ≤ m.utf8ByteSize) : m = n := by
  obtain ⟨rest, hrest⟩ := h
  have hn : n = m ++ String.ofList rest := String.toList_inj.1 (by simp [hrest])
  rw [hn, String.utf8ByteSize_append] at hle
  have hempty : String.ofList rest = "" := String.utf8ByteSize_eq_zero_iff.1 (by omega)
  rw [hn, hempty, String.append_empty]

/-- Of two markers at the front of a text, the one that is longer in bytes is the longer one. -/
theorem length_le_of_byteSize_le {m n : String} {cs : List Char} (hm : m.toList <+: cs)
    (hn : n.toList <+: cs) (hle : m.utf8ByteSize ≤ n.utf8ByteSize) : m.length ≤ n.length := by
  rcases List.prefix_or_prefix_of_prefix hm hn with h | h
  · rw [← String.length_toList, ← String.length_toList]
    exact h.length_le
  · rw [eq_of_prefix_of_byteSize_le h hle]

/-! ### The entries in the order they are tried -/

private def longer (r s : String × String) : Bool :=
  decide (s.1.utf8ByteSize ≤ r.1.utf8ByteSize)

private theorem longer_trans (r s t : String × String) (hrs : longer r s = true)
    (hst : longer s t = true) : longer r t = true := by
  simp only [longer, decide_eq_true_eq] at hrs hst ⊢
  omega

private theorem longer_total (r s : String × String) : (longer r s || longer s r) = true := by
  simp only [longer, Bool.or_eq_true, decide_eq_true_eq]
  omega

theorem pairwise_byLength (replacements : List (String × String)) :
    (byLength replacements).Pairwise fun r s => s.1.utf8ByteSize ≤ r.1.utf8ByteSize :=
  (List.pairwise_mergeSort longer_trans longer_total replacements).imp of_decide_eq_true

theorem mem_byLength {r : String × String} : r ∈ byLength replacements ↔ r ∈ replacements :=
  List.mem_mergeSort

/-- The entries of one marker keep their order. -/
private theorem filter_byLength (marker : String) (replacements : List (String × String)) :
    (byLength replacements).filter (fun r => r.1 = marker) =
      replacements.filter fun r => r.1 = marker := by
  have hmarker : ∀ r ∈ replacements.filter (fun r => r.1 = marker), r.1 = marker :=
    fun r hr => of_decide_eq_true (List.mem_filter.1 hr).2
  have hsame : (replacements.filter fun r => r.1 = marker).Pairwise fun r s => longer r s = true :=
    List.pairwise_of_forall_mem_list fun r hr s hs => by simp [longer, hmarker r hr, hmarker s hs]
  have hsub := (List.sublist_mergeSort longer_trans longer_total hsame List.filter_sublist).filter
    fun r => decide (r.1 = marker)
  rw [List.filter_eq_self.2 fun r hr => decide_eq_true (hmarker r hr)] at hsub
  have hperm := (List.mergeSort_perm replacements longer).filter fun r => decide (r.1 = marker)
  exact (hsub.eq_of_length hperm.length_eq.symm).symm

private theorem get?_eq_head? (marker : String) (l : List (String × String)) :
    Keyed.get? marker l = ((l.filter fun r => r.1 = marker).head?).map (·.2) := by
  induction l with
  | nil => rfl
  | cons r rest ih =>
    by_cases h : r.1 = marker
    · simp [Keyed.get?, h]
    · simp [Keyed.get?, h, ih]

/-- The first entry of a marker stays the first. -/
theorem get?_byLength (marker : String) (replacements : List (String × String)) :
    Keyed.get? marker (byLength replacements) = Keyed.get? marker replacements := by
  rw [get?_eq_head?, get?_eq_head?, filter_byLength]

/-! ### The entry that is taken -/

private theorem get?_append_cons {marker : String} {value : String}
    {before after : List (String × String)} (h : ∀ r ∈ before, r.1 ≠ marker) :
    Keyed.get? marker (before ++ (marker, value) :: after) = some value := by
  induction before with
  | nil => simp [Keyed.get?]
  | cons r rest ih =>
    obtain ⟨hr, hrest⟩ := List.forall_mem_cons.1 h
    simp [Keyed.get?, hr, ih hrest]

/-- The entry can be used at the front of the text. -/
private def Applies (r : String × String) (cs : List Char) : Prop :=
  r.1 ≠ "" ∧ r.1.toList <+: cs

private theorem applies_iff (r : String × String) {cs : List Char} :
    (!r.1.isEmpty && r.1.toList.isPrefixOf cs) = true ↔ Applies r cs := by
  simp [Applies, List.isPrefixOf_iff_prefix]

private theorem match?_eq_none_iff {ordered : List (String × String)} {cs : List Char} :
    match? ordered cs = none ↔ ∀ r ∈ ordered, ¬ Applies r cs := by
  induction ordered with
  | nil => simp [match?]
  | cons r rest ih =>
    obtain ⟨marker, value⟩ := r
    rw [List.forall_mem_cons, match?, ← applies_iff, ← ih]
    split <;> simp_all

/-- The first entry that can be used is taken, and the text goes on behind its marker. -/
private theorem exists_of_match? {ordered : List (String × String)} {cs rest : List Char}
    {value : String} (h : match? ordered cs = some (value, rest)) :
    ∃ marker before after, ordered = before ++ (marker, value) :: after ∧
      (∀ r ∈ before, ¬ Applies r cs) ∧ marker ≠ "" ∧ cs = marker.toList ++ rest := by
  induction ordered with
  | nil => cases h
  | cons r others ih =>
    obtain ⟨marker, v⟩ := r
    rw [match?] at h
    split at h
    · rename_i happlies
      obtain ⟨hne, tail, rfl⟩ := (applies_iff (marker, v)).1 happlies
      have hdrop : (marker.toList ++ tail).drop marker.length = tail :=
        List.drop_left' marker.length_toList
      rw [hdrop] at h
      cases h
      exact ⟨marker, [], others, rfl, by simp, hne, rfl⟩
    · rename_i hnot
      obtain ⟨m, before, after, rfl, hbefore, hne, hcs⟩ := ih h
      exact ⟨m, (marker, v) :: before, after, rfl,
        List.forall_mem_cons.2 ⟨mt (applies_iff _).2 hnot, hbefore⟩, hne, hcs⟩

/-- The entry that is taken has the longest marker. -/
theorem isLongest_of_match? {cs rest : List Char} {value : String}
    (h : match? (byLength replacements) cs = some (value, rest)) :
    ∃ marker, IsLongest replacements cs marker value ∧ cs = marker.toList ++ rest := by
  obtain ⟨marker, before, after, hordered, hbefore, hne, hcs⟩ := exists_of_match? h
  have hfront : marker.toList <+: cs := hcs ▸ List.prefix_append marker.toList rest
  refine ⟨marker, ⟨?_, hne, hfront, fun r hr hrfront => ?_⟩, hcs⟩
  · rw [← get?_byLength, hordered]
    refine get?_append_cons fun r hr hrm => hbefore r hr ⟨hrm ▸ hne, hrm ▸ hfront⟩
  · by_cases hrne : r.1 = ""
    · simp [hrne]
    · -- An entry that can be used stands at the chosen place or behind
      -- it, where no marker is longer.
      have hle : r.1.utf8ByteSize ≤ marker.utf8ByteSize := by
        have hsorted := pairwise_byLength replacements
        rw [hordered, List.pairwise_append] at hsorted
        rw [← mem_byLength, hordered, List.mem_append] at hr
        rcases hr with hr | hr
        · exact absurd ⟨hrne, hrfront⟩ (hbefore r hr)
        · rcases List.mem_cons.1 hr with rfl | hr
          · exact Nat.le_refl _
          · exact (List.pairwise_cons.1 hsorted.2.1).1 r hr
      exact length_le_of_byteSize_le hrfront hfront hle

theorem match?_byLength_eq_none_iff {cs : List Char} :
    match? (byLength replacements) cs = none ↔ ∀ r ∈ replacements, r.1 ≠ "" → ¬ r.1.toList <+: cs := by
  simp only [match?_eq_none_iff, mem_byLength, Applies, not_and]

/-- There is only one longest marker at the front of a text. -/
theorem IsLongest.unique {cs : List Char} {m n v w : String} (hm : IsLongest replacements cs m v)
    (hn : IsLongest replacements cs n w) : m = n ∧ v = w := by
  have hmn : m.length ≤ n.length := hn.longest _ (Keyed.mem_of_get? hm.first) hm.atFront
  have hnm : n.length ≤ m.length := hm.longest _ (Keyed.mem_of_get? hn.first) hn.atFront
  have hlength : m.toList.length = n.toList.length := by
    rw [String.length_toList, String.length_toList]
    exact Nat.le_antisymm hmn hnm
  have hfront : m.toList <+: n.toList :=
    List.prefix_of_prefix_length_le hm.atFront hn.atFront hlength.le
  obtain rfl : m = n := String.toList_inj.1 (hfront.eq_of_length hlength)
  exact ⟨rfl, Option.some.inj (hm.first.symm.trans hn.first)⟩

theorem IsLongest.match? {rest : List Char} {marker value : String}
    (h : IsLongest replacements (marker.toList ++ rest) marker value) :
    Marker.match? (byLength replacements) (marker.toList ++ rest) = some (value, rest) := by
  cases hmatch : Marker.match? (byLength replacements) (marker.toList ++ rest) with
  | none =>
    exact absurd h.atFront
      (match?_byLength_eq_none_iff.1 hmatch _ (Keyed.mem_of_get? h.first) h.nonempty)
  | some p =>
    obtain ⟨value', rest'⟩ := p
    obtain ⟨marker', hlongest, hcs⟩ := isLongest_of_match? hmatch
    obtain ⟨rfl, rfl⟩ := h.unique hlongest
    rw [List.append_cancel_left hcs]

/-! ### The whole text -/

private theorem replaceChars_of_some {ordered : List (String × String)} {cs rest : List Char}
    {value : String} (h : match? ordered cs = some (value, rest)) :
    replaceChars ordered cs = value.toList ++ replaceChars ordered rest := by
  have hlt := length_of_match? h
  cases cs with
  | nil => cases hlt
  | cons c after =>
    rw [replaceChars]
    split
    · rename_i v r h'
      cases h.symm.trans h'
      rfl
    · rename_i h'
      cases h.symm.trans h'

private theorem replaceChars_of_none {ordered : List (String × String)} {c : Char} {after : List Char}
    (h : match? ordered (c :: after) = none) :
    replaceChars ordered (c :: after) = c :: replaceChars ordered after := by
  rw [replaceChars]
  split
  · rename_i h'
    cases h.symm.trans h'
  · rfl

/-- What the algorithm writes is what becomes of the text, and nothing else is. -/
theorem replaceChars_byLength_eq_iff {cs out : List Char} :
    replaceChars (byLength replacements) cs = out ↔ Replaced replacements cs out := by
  constructor
  · rintro rfl
    fun_induction replaceChars with
    | case1 => exact .done
    | case2 c after value rest h ih =>
      obtain ⟨marker, hlongest, hcs⟩ := isLongest_of_match? h
      rw [hcs] at hlongest ⊢
      exact .marker hlongest ih
    | case3 c after h ih => exact .copy (match?_byLength_eq_none_iff.1 h) ih
  · intro h
    induction h with
    | done => rw [replaceChars]
    | marker hlongest _ ih => rw [replaceChars_of_some hlongest.match?, ih]
    | copy hnone _ ih => rw [replaceChars_of_none (match?_byLength_eq_none_iff.2 hnone), ih]

theorem replaceAll_eq_iff {text result : String} :
    replaceAll text replacements = result ↔ Replaced replacements text.toList result.toList := by
  rw [← replaceChars_byLength_eq_iff, replaceAll, ← String.toList_inj, String.toList_ofList]

/-! ### Order, and texts without markers -/

private theorem get?_of_perm {replacements' : List (String × String)}
    (hn : (replacements.map (·.1)).Nodup) (hp : replacements.Perm replacements')
    {marker value : String} (h : Keyed.get? marker replacements = some value) :
    Keyed.get? marker replacements' = some value :=
  Keyed.get?_of_mem ((hp.map _).nodup_iff.1 hn) (hp.mem_iff.1 (Keyed.mem_of_get? h))

/-- If every marker has one entry only, the order of the entries does not matter. -/
theorem Replaced.of_perm {replacements' : List (String × String)} (hn : (replacements.map (·.1)).Nodup)
    (hp : replacements.Perm replacements') {cs out : List Char} (h : Replaced replacements cs out) :
    Replaced replacements' cs out := by
  induction h with
  | done => exact .done
  | marker hlongest _ ih =>
    refine .marker ⟨get?_of_perm hn hp hlongest.first, hlongest.nonempty, hlongest.atFront,
      fun r hr => ?_⟩ ih
    exact hlongest.longest r (hp.mem_iff.2 hr)
  | copy hnone _ ih => exact .copy (fun r hr => hnone r (hp.mem_iff.2 hr)) ih

/-- A text without markers is copied. -/
theorem Replaced.of_absent {cs : List Char}
    (h : ∀ r ∈ replacements, r.1 ≠ "" → ¬ r.1.toList <:+: cs) : Replaced replacements cs cs := by
  induction cs with
  | nil => exact .done
  | cons c rest ih =>
    refine .copy (fun r hr hne hfront => h r hr hne hfront.isInfix)
      (ih fun r hr hne hinfix => h r hr hne ?_)
    exact hinfix.trans (List.suffix_cons c rest).isInfix

end Marker

/-! ### The message of an expected issue -/

/-- The arguments of the call are a kind, the template of a message and a
record of values for its markers. -/
structure AssertionCall.StatesIssue (w : Workspace) (call : AssertionCall) (kind template : String)
    (values : Record) : Prop where
  name : call.name = .seeIssue
  kind : (w.argumentType? call.args 0).bind Ty.soleString? = some kind
  template : (w.argumentType? call.args 1).bind Ty.soleString? = some template
  values : (w.argumentType? call.args 2).bind Ty.soleRecord? = some values

/-- The bag `next` expects what `bag` expects and one more issue.  The place of the expected issues
is that of the first one, so `location` counts only if there was none. -/
structure Bag.ExpectsAlso (bag next : Bag) (location : Location) (issue : ExpectedIssue) : Prop where
  issues : next.issues =
    some ⟨bag.issues.elim location (·.location), bag.issues.elim [] (·.issues) ++ [issue]⟩
  code : next.code = bag.code
  returnType : next.returnType = bag.returnType

private theorem Bag.expectsAlso_put (bag : Bag) (location : Location) (issue : ExpectedIssue) :
    bag.ExpectsAlso (bag.put (.issues ((bag.issues.getD ⟨location, []⟩).append issue)))
      location issue := by
  obtain ⟨code, returnType, issues⟩ := bag
  cases issues with
  | none => exact ⟨rfl, rfl, rfl⟩
  | some expected => exact ⟨rfl, rfl, rfl⟩

/-- The field is a literal text, and the entry replaces the marker of its key by that text. -/
def Marker.IsEntryOf (f : Key × Ty) (r : String × String) : Prop :=
  r.1 = "#[" ++ f.1.text ++ "]" ∧ f.2.atoms = [.literal (.string r.2)]

namespace AssertionCall.StatesIssue

variable {w : Workspace} {call : AssertionCall} {kind template : String} {values : Record}
  (h : StatesIssue w call kind template values)

include h

private theorem replacements?_eq_some_iff {replacements : List (String × String)} :
    call.replacements? w = some replacements ↔
      List.Forall₂ Marker.IsEntryOf values.fields replacements := by
  have hfield : ∀ (f : Key × Ty) (r : String × String),
      (f.2.soleString?.map fun value => ("#[" ++ f.1.text ++ "]", value)) = some r ↔
        Marker.IsEntryOf f r := by
    rintro ⟨k, t⟩ ⟨marker, value⟩
    simp only [Option.map_eq_some_iff, Ty.soleString?_eq_some_iff, Prod.mk.injEq, Marker.IsEntryOf]
    constructor
    · rintro ⟨v, hv, rfl, rfl⟩
      exact ⟨rfl, hv⟩
    · rintro ⟨rfl, hv⟩
      exact ⟨value, hv, rfl, rfl⟩
  obtain ⟨t, ht, hr⟩ := Option.bind_eq_some_iff.1 h.values
  simp only [replacements?, ht, hr, Option.bind_eq_bind, Option.bind_some, mapM_eq_some_iff, hfield]

private theorem exists_collect?_eq (settings : Settings) (bag : Bag) :
    ∃ next, call.collect? w settings bag = some next ∧
      bag.ExpectsAlso next (w.locationOf call.node) ⟨kind,
      match call.replacements? w with
      | some replacements => Marker.replaceAll template replacements
      | none => template⟩ := by
  obtain ⟨t₀, ht₀, hkind⟩ := Option.bind_eq_some_iff.1 h.kind
  obtain ⟨t₁, ht₁, htemplate⟩ := Option.bind_eq_some_iff.1 h.template
  refine ⟨_, ?_, bag.expectsAlso_put _ _⟩
  simp only [collect?, entry?, h.name, expectedIssue?, ht₀, ht₁, hkind, htemplate, Option.bind_eq_bind,
    Option.bind_some]
  rfl

/-- A value that is no literal text leaves the message as it is. -/
theorem collect?_of_other
    (hother : ∃ f ∈ values.fields, ∀ value, f.2.atoms ≠ [.literal (.string value)])
    (settings : Settings) (bag : Bag) :
    ∃ next, call.collect? w settings bag = some next ∧
      bag.ExpectsAlso next (w.locationOf call.node) ⟨kind, template⟩ := by
  have hnone : call.replacements? w = none := by
    cases hr : call.replacements? w with
    | none => rfl
    | some replacements =>
      obtain ⟨f, hf, hne⟩ := hother
      obtain ⟨r, -, -, hr⟩ := exists_mem_of_forall₂ (h.replacements?_eq_some_iff.1 hr) hf
      exact absurd hr (hne r.2)
  have hcollect := h.exists_collect?_eq settings bag
  rwa [hnone] at hcollect

/-- If all values are literal texts, the markers of their keys are replaced. -/
theorem collect?_of_entries {replacements : List (String × String)}
    (hentries : List.Forall₂ Marker.IsEntryOf values.fields replacements) (settings : Settings)
    (bag : Bag) :
    ∃ next, call.collect? w settings bag = some next ∧
      bag.ExpectsAlso next (w.locationOf call.node)
        ⟨kind, Marker.replaceAll template replacements⟩ := by
  have hcollect := h.exists_collect?_eq settings bag
  rwa [h.replacements?_eq_some_iff.2 hentries] at hcollect

end AssertionCall.StatesIssue

/-- What becomes of a text when its markers are replaced is what the leftmost and longest
markers say.  The order of the entries matters only if a marker has several of them, and a
text without markers stays as it is.  So the message of an expected issue is the template with
the markers of a record of literal texts replaced, and the template itself if some value of
the record is no literal text. -/
theorem Marker.replaceAll_leftmostLongest :
    (∀ (text : String) (replacements : List (String × String)) (result : String),
      replaceAll text replacements = result ↔ Replaced replacements text.toList result.toList) ∧
    (∀ (text : String) (replacements replacements' : List (String × String)),
      (replacements.map (·.1)).Nodup →
      replacements.Perm replacements' → replaceAll text replacements' = replaceAll text replacements) ∧
    (∀ (text : String) (replacements : List (String × String)),
      (∀ r ∈ replacements, r.1 ≠ "" → ¬ r.1.toList <:+: text.toList) →
        replaceAll text replacements = text) ∧
    ∀ (settings : Settings) (w : Workspace) (call : AssertionCall) (bag : Bag) (kind template : String)
      (values : Record), AssertionCall.StatesIssue w call kind template values →
      (∀ replacements, List.Forall₂ IsEntryOf values.fields replacements →
        ∃ next, call.collect? w settings bag = some next ∧
          bag.ExpectsAlso next (w.locationOf call.node) ⟨kind, replaceAll template replacements⟩) ∧
      ((∃ f ∈ values.fields, ∀ value, f.2.atoms ≠ [.literal (.string value)]) →
        ∃ next, call.collect? w settings bag = some next ∧
          bag.ExpectsAlso next (w.locationOf call.node) ⟨kind, template⟩) := by
  refine ⟨?_, ?_, ?_, ?_⟩
  · intro text replacements result
    exact replaceAll_eq_iff
  · intro text replacements replacements' hn hp
    have h : Replaced replacements text.toList (replaceAll text replacements).toList :=
      replaceAll_eq_iff.1 rfl
    exact replaceAll_eq_iff.2 (h.of_perm hn hp)
  · intro text replacements h
    exact replaceAll_eq_iff.2 (.of_absent h)
  · intro settings w call bag kind template values h
    refine ⟨fun replacements hentries => ?_, fun hother => ?_⟩
    · exact h.collect?_of_entries hentries settings bag
    · exact h.collect?_of_other hother settings bag

/-- One marker is the start of the other, since a name may hold a closing bracket. -/
private def overlapping : List (String × String) :=
  [("#[a]", "short"), ("#[a]b]", "long")]

private def values (second : Atom) : Record :=
  .ofFields [(.string "a", .single (.literal (.string "short"))), (.string "a]b", .single second)] true

/-- The arguments of a call that states the issue `K` with two markers. -/
private def stating (values : Record) : Workspace where
  file := "f"
  types := [(1, .single (.literal (.string "K"))), (2, .single (.literal (.string "#[a]b] #[a]"))),
    (3, .single (.record values))]

private def statement : AssertionCall :=
  ⟨⟨"T", "t"⟩, .seeIssue, 0, [⟨1, .other, none⟩, ⟨2, .other, none⟩, ⟨3, .other, none⟩]⟩

private theorem statesIssue (values : Record) :
    AssertionCall.StatesIssue (stating values) statement "K" "#[a]b] #[a]" values :=
  ⟨rfl, rfl, rfl, rfl⟩

theorem Marker.replaceAll_leftmostLongest_overlapping :
    ((overlapping.map (·.1)).Nodup ∧ overlapping.Perm overlapping.reverse ∧
      replaceAll "#[a]b] #[a]" overlapping.reverse = "long short") ∧
    ((∀ r ∈ overlapping, r.1 ≠ "" → ¬ r.1.toList <:+: "#[b] a".toList) ∧
      replaceAll "#[b] a" overlapping = "#[b] a") ∧
    (List.Forall₂ IsEntryOf (values (.literal (.string "long"))).fields overlapping ∧
      ∃ next, statement.collect? (stating (values (.literal (.string "long")))) {} {} = some next ∧
        next.issues = some ⟨.between "f" 0 0, [⟨"K", "long short"⟩]⟩) ∧
    ((∀ value, (Ty.single (.keyword .string)).atoms ≠ [.literal (.string value)]) ∧
      ∃ next, statement.collect? (stating (values (.keyword .string))) {} {} = some next ∧
        next.issues = some ⟨.between "f" 0 0, [⟨"K", "#[a]b] #[a]"⟩]⟩) := by
  obtain ⟨-, horder, hcopied, hmessage⟩ := Marker.replaceAll_leftmostLongest
  have hlonger : ¬ "#[a]b]".utf8ByteSize ≤ "#[a]".utf8ByteSize := by decide
  have hordered : byLength overlapping = [("#[a]b]", "long"), ("#[a]", "short")] := by
    simp [byLength, overlapping, List.mergeSort, hlonger]
  have hlong : replaceAll "#[a]b] #[a]" overlapping = "long short" := by
    rw [replaceAll, hordered]
    decide +kernel
  have hn : (overlapping.map (·.1)).Nodup := by decide
  have hp : overlapping.Perm overlapping.reverse := (List.reverse_perm _).symm
  have habsent : ∀ r ∈ overlapping, r.1 ≠ "" → ¬ r.1.toList <:+: "#[b] a".toList := by decide +kernel
  have hentries : List.Forall₂ IsEntryOf (values (.literal (.string "long"))).fields overlapping :=
    .cons ⟨by decide, rfl⟩ (.cons ⟨by decide, rfl⟩ .nil)
  have hother : ∀ value, (Ty.single (.keyword .string)).atoms ≠ [.literal (.string value)] := by
    simp [Ty.single]
  refine ⟨⟨hn, hp, (horder _ _ _ hn hp).trans hlong⟩, ⟨habsent, hcopied _ _ habsent⟩,
    ⟨hentries, ?_⟩, hother, ?_⟩
  · have hstates := statesIssue (values (.literal (.string "long")))
    obtain ⟨next, hnext, hexpects⟩ := (hmessage {} _ _ {} _ _ _ hstates).1 _ hentries
    rw [hlong] at hexpects
    exact ⟨next, hnext, hexpects.issues⟩
  · have hstates := statesIssue (values (.keyword .string))
    have hfield : ∃ f ∈ (values (.keyword .string)).fields,
      ∀ value, f.2.atoms ≠ [.literal (.string value)] :=
      ⟨(.string "a]b", .single (.keyword .string)), by simp [values, Record.ofFields], hother⟩
    obtain ⟨next, hnext, hexpects⟩ := (hmessage {} _ _ {} _ _ _ hstates).2 hfield
    exact ⟨next, hnext, hexpects.issues⟩

end TypeProbe
