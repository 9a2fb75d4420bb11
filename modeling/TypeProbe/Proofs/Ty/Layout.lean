import TypeProbe.Proofs.Identity.Words
import TypeProbe.Proofs.Number.ReadsBack
import TypeProbe.Proofs.Text.Braces
import TypeProbe.Proofs.Ty.Parts
import TypeProbe.Ty.Layout

/-!
# The lines of a type laid out for reading

A call that lays out a type or an atom writes a row of pieces: texts of its own and the results of
further calls (`Printed.pieces`, `Printed.toList_layout`).  If no name, key or literal has a brace
or a line end, a call of level `depth + 1` that is made with `depth` open braces makes all its calls
in the same way and closes the braces it opens (`Atom.leads`).  So the lines of each layout follow
its braces (`Printed.IsUnbroken.followsBraces`), and the level of each call is one above the number
of braces open where its text stands (`Ty.Calls.exists_place`).
-/

namespace TypeProbe

/-- What one call lays out. -/
inductive Printed where
  | type (t : Ty)
  | atom (a : Atom)

/-- A piece of a layout: a text, or the result of a call with a level. -/
inductive Piece where
  | own (text : String)
  | call (level : Nat) (x : Printed)

def Printed.layout (level : Nat) : Printed → String
  | .type t => t.layout level
  | .atom a => a.layout level

def Piece.chars : Piece → List Char
  | .own text => text.toList
  | .call level x => (x.layout level).toList

def Piece.called : Piece → List Printed
  | .own _ => []
  | .call _ x => [x]

/-- Calls of one level with a text between them. -/
def Piece.separated (sep : String) (level : Nat) (xs : List Printed) : List Piece :=
  [.own sep].intercalate (xs.map fun x => [.call level x])

def Ty.pieces (level : Nat) (t : Ty) : List Piece :=
  Piece.separated " | " level (t.atoms.map .atom)

def Atom.facetPieces (level : Nat) (facets : List Atom) : List Piece :=
  if facets.isEmpty then [] else .own " & " :: Piece.separated ", " level (facets.map .atom)

/-- The line of a field from the line end in front of it to its comma. -/
def Record.fieldPieces (level : Nat) (f : Key × Ty) : List Piece :=
  [.own ("\n" ++ indentation level ++ f.1.text ++ (if f.2.optional then "?" else "") ++ ": "),
    .call (level + 1) (.type f.2), .own ","]

/-- A type that may be left out, and the word for it. -/
def Ty.piece (level : Nat) (word : String) : Option Ty → Piece
  | some t => .call level (.type t)
  | none => .own word

def Param.pieces (level : Nat) (p : Param) : List Piece :=
  [.own (if p.variadic then "..." else ""), Ty.piece level "mixed" p.type,
    .own (" " ++ (if p.byReference then "&" else "") ++ "$" ++ p.name)]

def Atom.pieces (level : Nat) : Atom → List Piece
  | .keyword word => [.own word.text]
  | .literal (.className name) => [.own (shortClassName name ++ "::class")]
  | .literal value => [.own value.text]
  | .classString none => [.own "class-string"]
  | .classString (some bound) => [.own (shortClassName bound ++ "::class")]
  | .object o => .own (shortClassName o.name) :: Atom.facetPieces level o.facets
  | .generic o params =>
    .own (shortClassName o.name ++ "<") :: Piece.separated ", " level (params.map .type) ++
      .own ">" :: Atom.facetPieces level o.facets
  | .record r =>
    .own ("array".push '{') ::
      if r.isList then
        Piece.separated ", " (level + 1) (r.types.map .type) ++ [.own (String.singleton '}')]
      else
        r.fields.flatMap (Record.fieldPieces level) ++
          [.own (("\n" ++ indentation (level - 1)).push '}')]
  | .callable c =>
    .own ((if c.isPure then "pure-" else "") ++ if c.isClosure then "Closure(" else "callable(") ::
      [.own ", "].intercalate (c.params.map (Param.pieces level)) ++
        [.own "): ", Ty.piece level "void" c.result]
  | .template _ scope bound =>
    [.own ("from " ++ shortClassName scope ++ " as "), .call level (.type bound)]
  | .array key value nonEmpty =>
    [.own (if nonEmpty then "non-empty-array<" else "array<"), .call level (.type key), .own ", ",
      .call level (.type value), .own ">"]
  | .list value nonEmpty =>
    [.own (if nonEmpty then "non-empty-list<" else "list<"), .call level (.type value), .own ">"]

def Printed.pieces (level : Nat) : Printed → List Piece
  | .type t => t.pieces level
  | .atom a => a.pieces level

/-- Laying out the type at the margin makes this call, directly or in another call. -/
inductive Ty.Calls (t : Ty) : Nat → Printed → Prop where
  | first : Ty.Calls t 1 (.type t)
  | inner {level m : Nat} {x y : Printed} : Ty.Calls t level x → .call m y ∈ x.pieces level →
    Ty.Calls t m y

/-- The key has no braces and no line ends and does not start with a blank. -/
def Key.HasUnbrokenText : Key → Prop
  | .int _ => True
  | .string s => IsUnbroken s.toList ∧ s.toList.head? ≠ some ' '

/-- The names, keys and literals that an atom writes have no braces and no line ends, and no key
starts with a blank.  The name of a template parameter is not written. -/
def Atom.HasUnbrokenTexts : Atom → Prop
  | .literal (.string s) => IsUnbroken s.toList
  | .literal (.className name) => IsUnbroken name.toList
  | .classString (some bound) => IsUnbroken bound.toList
  | .object o => IsUnbroken o.name.toList
  | .generic o _ => IsUnbroken o.name.toList
  | .record r => ∀ f ∈ r.fields, f.1.HasUnbrokenText
  | .callable c => ∀ p ∈ c.params, IsUnbroken p.name.toList
  | .template _ scope _ => IsUnbroken scope.toList
  | _ => True

/-- The line ends that an atom writes itself: one in front of each field of a record that is no
list, and one behind the last. -/
def Atom.lineEnds : Atom → Nat
  | .record r => if r.isList then 0 else r.fields.length + 1
  | _ => 0

/-- The line ends of a layout. -/
def Printed.lineEnds : Printed → Nat
  | .type t => (t.parts.map Atom.lineEnds).sum
  | .atom a => (a.parts.map Atom.lineEnds).sum

/-! ### The layout as a row of pieces -/

private theorem flatMap_intercalate {α β : Type} (f : α → List β) (sep : α) (rows : List (List α)) :
    ([sep].intercalate rows).flatMap f = (f sep).intercalate (rows.map (·.flatMap f)) := by
  induction rows with
  | nil => rfl
  | cons row rest ih =>
    cases rest with
    | nil => simp
    | cons next rest => simp_all [List.intercalate_cons_cons]

private theorem nil_intercalate {α : Type} (rows : List (List α)) :
    [].intercalate rows = rows.flatten := by
  induction rows with
  | nil => rfl
  | cons row rest ih =>
    cases rest with
    | nil => simp
    | cons next rest => simp_all [List.intercalate_cons_cons]

private theorem chars_separated (sep : String) (level : Nat) (xs : List Printed) :
    (Piece.separated sep level xs).flatMap Piece.chars =
      (sep.intercalate (xs.map (·.layout level))).toList := by
  rw [Piece.separated, flatMap_intercalate, String.toList_intercalate]
  simp [Function.comp_def, Piece.chars]

private theorem chars_types (level : Nat) (types : List Ty) :
    (Piece.separated ", " level (types.map .type)).flatMap Piece.chars =
      (", ".intercalate (Ty.layouts level types)).toList := by
  rw [chars_separated, List.map_map, Ty.layouts_eq_map]
  rfl

private theorem chars_facetPieces (level : Nat) (facets : List Atom) :
    (Atom.facetPieces level facets).flatMap Piece.chars = (Atom.facetsLayout level facets).toList := by
  cases facets with
  | nil => rfl
  | cons f rest =>
    have hrow :
        (Printed.atom f :: rest.map .atom).map (·.layout level) =
          f.layout level :: Atom.layouts level rest := by
      rw [Atom.layouts_eq_map, List.map_cons, List.map_map]
      rfl
    simp [Atom.facetPieces, chars_separated, Atom.facetsLayout, Piece.chars, ← hrow]

/-- The line ends behind the fields are those in front of the fields and the last line. -/
private theorem chars_fieldPieces (level : Nat) (fields : List (Key × Ty)) :
    (fields.flatMap (Record.fieldPieces level)).flatMap Piece.chars ++ ['\n'] =
      '\n' :: (Record.fieldLines level fields).toList := by
  induction fields with
  | nil => rfl
  | cons f rest ih =>
    rw [List.flatMap_cons, List.flatMap_append, List.append_assoc, ih, Record.fieldLines]
    simp [Record.fieldPieces, Piece.chars, Printed.layout]

private theorem chars_paramPieces (level : Nat) (params : List Param) :
    ([Piece.own ", "].intercalate (params.map (Param.pieces level))).flatMap Piece.chars =
      (", ".intercalate (Param.layouts level params)).toList := by
  rw [flatMap_intercalate, String.toList_intercalate, List.map_map]
  congr 1
  induction params with
  | nil => rfl
  | cons p rest ih =>
    obtain ⟨name, type, byReference, variadic, optional⟩ := p
    rw [List.map_cons, ih]
    cases type <;> simp [Param.layouts, Param.pieces, Ty.piece, Piece.chars, Printed.layout]

theorem Ty.toList_layout (level : Nat) (t : Ty) :
    (t.layout level).toList = (t.pieces level).flatMap Piece.chars := by
  obtain ⟨atoms, optional⟩ := t
  rw [Ty.layout, Ty.pieces, chars_separated, Atom.layouts_eq_map, List.map_map]
  rfl

private theorem Record.toList_layout (level : Nat) (r : Record) :
    ((Atom.record r).layout level).toList = ((Atom.record r).pieces level).flatMap Piece.chars := by
  obtain ⟨fields, isSealed, isList⟩ := r
  cases isList with
  | true =>
    have hrow : Record.elementLayouts (level + 1) fields =
        Ty.layouts (level + 1) (fields.map (·.2)) := by
      rw [Record.elementLayouts_eq_map, Ty.layouts_eq_map, List.map_map]
      rfl
    simp [Atom.layout, Atom.pieces, Record.types, chars_types, hrow, Piece.chars, -List.map_map]
  | false =>
    have hlines := congrArg (· ++ ((indentation (level - 1)).toList ++ ['}']))
      (chars_fieldPieces level fields)
    simpa [Atom.layout, Atom.pieces, Piece.chars] using hlines.symm

theorem Atom.toList_layout (level : Nat) (a : Atom) :
    (a.layout level).toList = (a.pieces level).flatMap Piece.chars := by
  cases a with
  | record r => exact Record.toList_layout level r
  | literal value => cases value <;> simp [Atom.layout, Atom.pieces, Piece.chars]
  | classString bound => cases bound <;> simp [Atom.layout, Atom.pieces, Piece.chars]
  | callable c =>
    obtain ⟨params, result, isClosure, isPure⟩ := c
    cases result <;>
      simp [Atom.layout, Atom.pieces, chars_paramPieces, Ty.piece, Piece.chars, Printed.layout]
  | object o =>
    obtain ⟨name, facets⟩ := o
    simp [Atom.layout, Atom.pieces, chars_facetPieces, Piece.chars]
  | generic o params =>
    obtain ⟨name, facets⟩ := o
    simp [Atom.layout, Atom.pieces, chars_types, chars_facetPieces, Piece.chars]
  | _ => simp [Atom.layout, Atom.pieces, Piece.chars, Printed.layout]

/-- A call writes its pieces one after the other. -/
theorem Printed.toList_layout (level : Nat) (x : Printed) :
    (x.layout level).toList = (x.pieces level).flatMap Piece.chars := by
  cases x with
  | type t => exact t.toList_layout level
  | atom a => exact a.toList_layout level

/-! ### The calls of a call -/

private theorem called_separated (sep : String) (level : Nat) (xs : List Printed) :
    (Piece.separated sep level xs).flatMap Piece.called = xs := by
  rw [Piece.separated, flatMap_intercalate, Piece.called, nil_intercalate]
  induction xs with
  | nil => rfl
  | cons x rest ih =>
    rw [List.map_cons, List.map_cons, List.flatten_cons, ih]
    rfl

private theorem called_facetPieces (level : Nat) (facets : List Atom) :
    (Atom.facetPieces level facets).flatMap Piece.called = facets.map .atom := by
  cases facets with
  | nil => rfl
  | cons f rest => exact called_separated ", " level ((f :: rest).map .atom)

private theorem called_fieldPieces (level : Nat) (fields : List (Key × Ty)) :
    (fields.flatMap (Record.fieldPieces level)).flatMap Piece.called =
      fields.map fun f => .type f.2 := by
  induction fields with
  | nil => rfl
  | cons f rest ih =>
    rw [List.flatMap_cons, List.flatMap_append, ih]
    rfl

private theorem called_paramPieces (level : Nat) (params : List Param) :
    ([Piece.own ", "].intercalate (params.map (Param.pieces level))).flatMap Piece.called =
      (params.filterMap (·.type)).map .type := by
  rw [flatMap_intercalate, Piece.called, nil_intercalate]
  induction params with
  | nil => rfl
  | cons p rest ih =>
    rw [List.map_cons, List.map_cons, List.flatten_cons, ih]
    cases h : p.type <;> simp [h, Param.pieces, Ty.piece, Piece.called]

theorem Ty.called_pieces (level : Nat) (t : Ty) :
    (t.pieces level).flatMap Piece.called = t.atoms.map .atom :=
  called_separated " | " level (t.atoms.map .atom)

/-- An atom calls for each of its facets and for each type inside it. -/
theorem Atom.called_pieces (level : Nat) (a : Atom) :
    ((a.pieces level).flatMap Piece.called).Perm (a.facets.map .atom ++ a.types.map .type) := by
  cases a with
  | generic o params =>
    simpa [Atom.pieces, Piece.called, called_separated, called_facetPieces, Atom.facets,
      Atom.types] using
      List.perm_append_comm
  | object o => simp [Atom.pieces, Piece.called, called_facetPieces, Atom.facets, Atom.types]
  | record r =>
    cases h : r.isList
    · simp [h, Atom.pieces, Piece.called, called_fieldPieces, Atom.facets, Atom.types, Record.types,
        Function.comp_def]
    · simp [h, Atom.pieces, Piece.called, called_separated, Atom.facets, Atom.types]
  | callable c =>
    cases h : c.result <;>
      simp [h, Atom.pieces, Piece.called, called_paramPieces, Ty.piece, Atom.facets, Atom.types]
  | literal value => cases value <;> simp [Atom.pieces, Piece.called, Atom.facets, Atom.types]
  | classString bound => cases bound <;> simp [Atom.pieces, Piece.called, Atom.facets, Atom.types]
  | _ => simp [Atom.pieces, Piece.called, Atom.facets, Atom.types]

/-! ### Where the calls are made -/

/-- Read with `depth` open braces, the pieces leave `after` of them open, their own
texts are laid and have so many line ends, and the level of each call is one above the
number of braces open there. -/
inductive Piece.Leads : Nat → Nat → Nat → List Piece → Prop where
  | nil (depth : Nat) : Leads depth 0 depth []
  | own {depth n between m after : Nat} {text : String} {rest : List Piece} :
    Laid depth n between text.toList → Leads between m after rest →
      Leads depth (n + m) after (.own text :: rest)
  | call {depth n after : Nat} {x : Printed} {rest : List Piece} :
    Leads depth n after rest → Leads depth n after (.call (depth + 1) x :: rest)

namespace Piece.Leads

variable {depth n after : Nat} {pieces rest : List Piece}

theorem unbroken {text : String} (h : IsUnbroken text.toList) (hrest : Leads depth n after rest) :
    Leads depth n after (.own text :: rest) := by
  have htext := own (.of_isUnbroken depth h) hrest
  rwa [Nat.zero_add] at htext

theorem append {m last : Nat} (h : Leads depth n after pieces) (h' : Leads after m last rest) :
    Leads depth (n + m) last (pieces ++ rest) := by
  induction h with
  | nil depth => rwa [Nat.zero_add, List.nil_append]
  | own htext _ ih =>
    rw [Nat.add_assoc]
    exact own htext (ih h')
  | call _ ih => exact call (ih h')

theorem intercalate {sep : String} (hsep : IsUnbroken sep.toList) {rows : List (List Piece)}
    (h : ∀ row ∈ rows, Leads depth 0 depth row) :
    Leads depth 0 depth ([.own sep].intercalate rows) := by
  induction rows with
  | nil => exact nil depth
  | cons row others ih =>
    have hrow := h row List.mem_cons_self
    have hothers := ih fun r hr => h r (List.mem_cons_of_mem row hr)
    cases others with
    | nil => rwa [List.intercalate_singleton]
    | cons next others =>
      rw [List.intercalate_cons_cons]
      exact (hrow.append (unbroken hsep (nil depth))).append hothers

theorem separated {sep : String} (hsep : IsUnbroken sep.toList) (xs : List Printed) :
    Leads depth 0 depth (Piece.separated sep (depth + 1) xs) := by
  refine intercalate hsep fun row hrow => ?_
  obtain ⟨x, -, rfl⟩ := List.mem_map.1 hrow
  exact call (nil depth)

end Piece.Leads

private theorem isUnbroken_shortClassName {name : String} (h : IsUnbroken name.toList) :
    IsUnbroken (shortClassName name).toList := by
  intro c hc
  rw [shortClassName, String.toList_ofList, List.mem_reverse] at hc
  exact h c (List.mem_reverse.1 (List.takeWhile_subset _ hc))

private theorem isUnbroken_repr (i : Int) : IsUnbroken i.repr.toList := by
  intro c hc
  have hword := Int.isWord_repr i c hc
  refine ⟨?_, ?_, ?_⟩ <;> rintro rfl <;> cases hword

private theorem isUnbroken_float (x : Binary64) : IsUnbroken x.text.toList := by
  cases hx : x.isNaN with
  | true =>
    rw [Binary64.text, hx, if_pos rfl]
    decide
  | false =>
    intro c hc
    have hmem := Binary64.mem_text hx hc
    refine ⟨?_, ?_, ?_⟩ <;> rintro rfl <;> simp at hmem

private theorem isUnbroken_keyword (w : Keyword) : IsUnbroken w.text.toList := by
  cases w <;> decide

private theorem isUnbroken_literal {value : Literal} (h : (Atom.literal value).HasUnbrokenTexts) :
    IsUnbroken value.text.toList := by
  cases value with
  | string s =>
    have hs : IsUnbroken s.toList := h
    simp [Literal.text, hs]
  | int i => exact isUnbroken_repr i
  | float x => simp [Literal.text, isUnbroken_float]
  | className name =>
    have hname : IsUnbroken name.toList := h
    simp [Literal.text, hname]

private theorem isUnbroken_key {k : Key} (h : k.HasUnbrokenText) :
    IsUnbroken k.text.toList ∧ k.text.toList.head? ≠ some ' ' := by
  cases k with
  | int i =>
    refine ⟨isUnbroken_repr i, fun hhead => ?_⟩
    obtain ⟨c, rest, htext, hc, -⟩ := Int.toList_repr i
    rw [Key.text, htext] at hhead
    obtain rfl : c = ' ' := Option.some.inj hhead
    simp at hc
  | string s => exact h

theorem Ty.leads (depth : Nat) (t : Ty) : Piece.Leads depth 0 depth (t.pieces (depth + 1)) :=
  .separated (by decide) _

private theorem leads_facetPieces (depth : Nat) (facets : List Atom) :
    Piece.Leads depth 0 depth (Atom.facetPieces (depth + 1) facets) := by
  cases facets with
  | nil => exact .nil depth
  | cons f rest => exact .unbroken (by decide) (.separated (by decide) _)

private theorem leads_piece (depth : Nat) {word : String} (hword : IsUnbroken word.toList)
    (t : Option Ty) : Piece.Leads depth 0 depth [Ty.piece (depth + 1) word t] := by
  cases t with
  | none => exact .unbroken hword (.nil depth)
  | some t => exact .call (.nil depth)

private theorem leads_paramPieces (depth : Nat) {p : Param} (h : IsUnbroken p.name.toList) :
    Piece.Leads depth 0 depth (p.pieces (depth + 1)) := by
  have hdots : IsUnbroken (if p.variadic then "..." else "").toList := by split <;> decide
  have hname : IsUnbroken (" " ++ (if p.byReference then "&" else "") ++ "$" ++ p.name).toList := by
    split <;> simp [h]
  exact .unbroken hdots ((leads_piece depth (by decide) p.type).append (.unbroken hname (.nil depth)))

private theorem isUnbroken_blanks (n : Nat) : IsUnbroken (List.replicate n ' ') := by
  intro c hc
  obtain rfl := List.eq_of_mem_replicate hc
  decide

/-- The line of a field, up to its type. -/
private theorem laid_field {depth : Nat} {key : String} (hkey : IsUnbroken key.toList)
    (hhead : key.toList.head? ≠ some ' ') (mark : String) (hmark : mark = "?" ∨ mark = "") :
    Laid depth 1 depth ("\n" ++ indentation depth ++ key ++ mark ++ ": ").toList := by
  have hunbroken : IsUnbroken (key ++ mark ++ ": ").toList := by
    rcases hmark with rfl | rfl <;> simp [hkey]
  obtain ⟨c, rest, htext, hblank⟩ : ∃ c rest, (key ++ mark ++ ": ").toList = c :: rest ∧ c ≠ ' ' := by
    cases hk : key.toList with
    | nil => rcases hmark with rfl | rfl <;> simp [hk]
    | cons c rest => exact ⟨c, rest ++ (mark ++ ": ").toList, by simp [hk], by simpa [hk] using hhead⟩
  obtain ⟨-, hclose, hend⟩ := hunbroken c (htext ▸ List.mem_cons_self)
  have hline : IsIndented depth (List.replicate (4 * depth) ' ' ++ c :: rest) :=
    ⟨depth, c, rest, rfl, hblank, hend, (if_neg hclose).symm⟩
  have hlaid := Laid.newLine
    (.of_isUnbroken depth (isUnbroken_append.2 ⟨isUnbroken_blanks _, htext ▸ hunbroken⟩)) hline
  rw [← htext] at hlaid
  simpa [indentation] using hlaid

/-- The last line of a record. -/
private theorem laid_end (depth : Nat) :
    Laid (depth + 1) 1 depth (("\n" ++ indentation depth).push '}').toList := by
  have hline : IsIndented (depth + 1) (List.replicate (4 * depth) ' ' ++ ['}']) :=
    ⟨depth, '}', [], rfl, by decide, by decide, rfl⟩
  have hlaid := Laid.newLine
    ((Laid.of_isUnbroken _ (isUnbroken_blanks _)).append (.closing depth)) hline
  simpa [indentation] using hlaid

private theorem leads_fields {depth : Nat} {fields : List (Key × Ty)}
    (h : ∀ f ∈ fields, f.1.HasUnbrokenText) :
    Piece.Leads depth fields.length depth (fields.flatMap (Record.fieldPieces depth)) := by
  induction fields with
  | nil => exact .nil depth
  | cons f rest ih =>
    obtain ⟨hkey, hhead⟩ := isUnbroken_key (h f List.mem_cons_self)
    have hfield : Piece.Leads depth 1 depth (Record.fieldPieces depth f) :=
      .own (laid_field hkey hhead _ (by split <;> simp)) (.call (.unbroken (by decide) (.nil depth)))
    rw [List.flatMap_cons, List.length_cons, Nat.add_comm]
    exact hfield.append (ih fun g hg => h g (List.mem_cons_of_mem f hg))

private theorem leads_record (depth : Nat) {r : Record} (h : (Atom.record r).HasUnbrokenTexts) :
    Piece.Leads depth (Atom.record r).lineEnds depth ((Atom.record r).pieces (depth + 1)) := by
  have hword : IsUnbroken "array".toList := by decide
  have hopen : Laid depth 0 (depth + 1) ("array".push '{').toList :=
    (Laid.of_isUnbroken depth hword).append (.opening depth)
  cases hlist : r.isList with
  | true =>
    have hclose : Piece.Leads (depth + 1) 0 depth [.own (String.singleton '}')] :=
      .own (.closing depth) (.nil depth)
    have hcomma : IsUnbroken ", ".toList := by decide
    have hpieces := Piece.Leads.own hopen
      ((Piece.Leads.separated hcomma (r.types.map .type)).append hclose)
    simpa [Atom.pieces, Atom.lineEnds, hlist] using hpieces
  | false =>
    have hclose : Piece.Leads (depth + 1) 1 depth [.own (("\n" ++ indentation depth).push '}')] :=
      .own (laid_end depth) (.nil depth)
    have hpieces := Piece.Leads.own hopen ((leads_fields h).append hclose)
    simpa [Atom.pieces, Atom.lineEnds, hlist] using hpieces

/-- A call of level `depth + 1` that is made with `depth` open braces makes
its own calls in the same way. -/
theorem Atom.leads (depth : Nat) {a : Atom} (h : a.HasUnbrokenTexts) :
    Piece.Leads depth a.lineEnds depth (a.pieces (depth + 1)) := by
  have hnil := Piece.Leads.nil depth
  cases a with
  | keyword w => exact .unbroken (isUnbroken_keyword w) hnil
  | literal value =>
    cases value with
    | className name => exact .unbroken (by simp [isUnbroken_shortClassName h]) hnil
    | _ => exact .unbroken (isUnbroken_literal h) hnil
  | classString bound =>
    cases bound with
    | none => exact .unbroken (by decide) hnil
    | some bound => exact .unbroken (by simp [isUnbroken_shortClassName h]) hnil
  | object o => exact .unbroken (isUnbroken_shortClassName h) (leads_facetPieces depth o.facets)
  | generic o params =>
    have hfacets : Piece.Leads depth 0 depth (.own ">" :: Atom.facetPieces (depth + 1) o.facets) :=
      .unbroken (by decide) (leads_facetPieces depth o.facets)
    exact .unbroken (by simp [isUnbroken_shortClassName h]) (.append (.separated (by decide) _) hfacets)
  | record r => exact leads_record depth h
  | callable c =>
    have hword :
        IsUnbroken ((if c.isPure then "pure-" else "") ++
          if c.isClosure then "Closure(" else "callable(").toList := by
      split <;> split <;> decide
    have hparams : Piece.Leads depth 0 depth
        ([.own ", "].intercalate (c.params.map (Param.pieces (depth + 1)))) := by
      refine .intercalate (by decide) fun row hrow => ?_
      obtain ⟨p, hp, rfl⟩ := List.mem_map.1 hrow
      exact leads_paramPieces depth (h p hp)
    exact .unbroken hword
      (hparams.append (.unbroken (by decide) (leads_piece depth (by decide) c.result)))
  | template name scope bound => exact .unbroken (by simp [isUnbroken_shortClassName h]) (.call hnil)
  | array key value nonEmpty =>
    exact .unbroken (by split <;> decide)
      (.call (.unbroken (by decide) (.call (.unbroken (by decide) hnil))))
  | list value nonEmpty => exact .unbroken (by split <;> decide) (.call (.unbroken (by decide) hnil))

/-! ### Whole layouts -/

private theorem sum_parts {α : Type} (parts : α → List Atom) (l : List α) :
    ((l.flatMap parts).map Atom.lineEnds).sum =
      (l.map fun x => ((parts x).map Atom.lineEnds).sum).sum := by
  rw [List.flatMap_def, List.map_flatten, List.sum_flatten, List.map_map, List.map_map]
  rfl

theorem Printed.lineEnds_type (t : Ty) :
    (Printed.type t).lineEnds = ((t.atoms.map Printed.atom).map Printed.lineEnds).sum := by
  rw [Printed.lineEnds, Ty.parts, sum_parts, List.map_map]
  rfl

theorem Printed.lineEnds_atom (a : Atom) :
    (Printed.atom a).lineEnds =
      a.lineEnds + ((a.facets.map Printed.atom ++ a.types.map Printed.type).map
        Printed.lineEnds).sum := by
  rw [Printed.lineEnds, Atom.parts_eq, List.map_cons, List.sum_cons, List.map_append,
    List.sum_append, sum_parts, sum_parts, List.map_append, List.sum_append, List.map_map,
    List.map_map]
  rfl

/-- Laid out with `depth` open braces and a level one above, the lines follow the braces. -/
def Printed.FollowsBraces (x : Printed) : Prop :=
  ∀ depth, Laid depth x.lineEnds depth (x.layout (depth + 1)).toList

theorem Piece.Leads.laid {depth n after : Nat} {pieces : List Piece}
    (h : Leads depth n after pieces) (hcalls : ∀ x ∈ pieces.flatMap Piece.called, x.FollowsBraces) :
    Laid depth (n + ((pieces.flatMap Piece.called).map Printed.lineEnds).sum) after
      (pieces.flatMap Piece.chars) := by
  induction h with
  | nil depth => exact .nil depth
  | own htext _ ih =>
    rw [Nat.add_assoc]
    exact htext.append (ih hcalls)
  | @call depth n after x rest _ ih =>
    have hx := hcalls x List.mem_cons_self depth
    have hlaid := hx.append (ih fun y hy => hcalls y (List.mem_cons_of_mem x hy))
    rwa [Nat.add_left_comm] at hlaid

theorem Ty.followsBraces_of_atoms {t : Ty} (h : ∀ a ∈ t.atoms, (Printed.atom a).FollowsBraces) :
    (Printed.type t).FollowsBraces := by
  intro depth
  have hcalls : ∀ x ∈ (t.pieces (depth + 1)).flatMap Piece.called, x.FollowsBraces := by
    rw [Ty.called_pieces]
    exact List.forall_mem_map.2 h
  have hlaid := (t.leads depth).laid hcalls
  rwa [Ty.called_pieces, Nat.zero_add, ← Printed.lineEnds_type, ← Ty.toList_layout] at hlaid

theorem Atom.followsBraces {a : Atom} (h : ∀ b : Atom, b.PartOf a → b.HasUnbrokenTexts) :
    (Printed.atom a).FollowsBraces := by
  induction a using Atom.induction with
  | step a hfacets htypes =>
    intro depth
    have hperm := a.called_pieces (depth + 1)
    have hcalls : ∀ x ∈ (a.pieces (depth + 1)).flatMap Piece.called, x.FollowsBraces := by
      intro x hx
      rcases List.mem_append.1 (hperm.mem_iff.1 hx) with hx | hx
      · obtain ⟨f, hf, rfl⟩ := List.mem_map.1 hx
        exact hfacets f hf fun b hb => h b (.facet hf hb)
      · obtain ⟨t, ht, rfl⟩ := List.mem_map.1 hx
        exact Ty.followsBraces_of_atoms fun b hb => htypes t ht b hb fun c hc => h c (.inside ht hb hc)
    -- The calls come in another order than the parts, which a sum does not see.
    have hlaid := (Atom.leads depth (h a .self)).laid hcalls
    rwa [(hperm.map Printed.lineEnds).sum_eq, ← Printed.lineEnds_atom, ← Atom.toList_layout] at hlaid

/-- No text in what is laid out has a brace or a line end, and no key starts with a blank. -/
def Printed.IsUnbroken : Printed → Prop
  | .type t => ∀ a, t.Has a → a.HasUnbrokenTexts
  | .atom a => ∀ b : Atom, b.PartOf a → b.HasUnbrokenTexts

theorem Printed.IsUnbroken.followsBraces {x : Printed} (h : x.IsUnbroken) : x.FollowsBraces := by
  cases x with
  | type t => exact Ty.followsBraces_of_atoms fun a ha => Atom.followsBraces fun b hb => h b ⟨a, ha, hb⟩
  | atom a => exact Atom.followsBraces h

theorem Printed.IsUnbroken.leads {x : Printed} (h : x.IsUnbroken) (depth : Nat) :
    ∃ n, Piece.Leads depth n depth (x.pieces (depth + 1)) := by
  cases x with
  | type t => exact ⟨0, t.leads depth⟩
  | atom a => exact ⟨a.lineEnds, Atom.leads depth (h a .self)⟩

theorem Printed.IsUnbroken.called {x y : Printed} (h : x.IsUnbroken) {level : Nat}
    (hy : y ∈ (x.pieces level).flatMap Piece.called) : y.IsUnbroken := by
  cases x with
  | type t =>
    rw [Printed.pieces, Ty.called_pieces] at hy
    obtain ⟨a, ha, rfl⟩ := List.mem_map.1 hy
    exact fun b hb => h b ⟨a, ha, hb⟩
  | atom a =>
    rcases List.mem_append.1 ((a.called_pieces level).mem_iff.1 hy) with hy | hy
    · obtain ⟨f, hf, rfl⟩ := List.mem_map.1 hy
      exact fun b hb => h b (.facet hf hb)
    · obtain ⟨t, ht, rfl⟩ := List.mem_map.1 hy
      rintro b ⟨c, hc, hb⟩
      exact h b (.inside ht hc hb)

theorem Piece.Leads.split {depth n after : Nat} {front rest : List Piece}
    (h : Leads depth n after (front ++ rest)) :
    ∃ m between k, Leads depth m between front ∧ Leads between k after rest := by
  induction front generalizing depth n with
  | nil => exact ⟨0, depth, n, .nil depth, h⟩
  | cons p front ih =>
    cases h with
    | own htext hrest =>
      obtain ⟨m, between, k, hfront, hback⟩ := ih hrest
      exact ⟨_, between, k, .own htext hfront, hback⟩
    | call hrest =>
      obtain ⟨m, between, k, hfront, hback⟩ := ih hrest
      exact ⟨m, between, k, .call hfront, hback⟩

/-- The text of each call stands where the number of open braces is one below its level. -/
theorem Ty.Calls.exists_place {t : Ty} (h : (Printed.type t).IsUnbroken) {level : Nat} {x : Printed}
    (hx : t.Calls level x) :
    x.IsUnbroken ∧ ∃ depth front rest, level = depth + 1 ∧
      t.inline.toList = front ++ (x.layout level).toList ++ rest ∧ openBraces? 0 front = some depth := by
  induction hx with
  | first => exact ⟨h, 0, [], [], rfl, (List.append_nil _).symm, rfl⟩
  | @inner level m x y _ hmem ih =>
    obtain ⟨hunbroken, depth, front, rest, rfl, htext, hdepth⟩ := ih
    obtain ⟨before, behind, hsplit⟩ := List.append_of_mem hmem
    have hcalled : ∀ z ∈ (x.pieces (depth + 1)).flatMap Piece.called, z.IsUnbroken :=
      fun z hz => hunbroken.called hz
    obtain ⟨n, hleads⟩ := hunbroken.leads depth
    rw [hsplit] at hleads hcalled
    -- The pieces in front of the call leave as many braces open as its level says.
    obtain ⟨k, between, l, hbefore, hcall⟩ := hleads.split
    have hlaid := hbefore.laid fun z hz => (hcalled z (by simp [hz])).followsBraces
    have hy : y.IsUnbroken := hcalled y (by simp [Piece.called])
    cases hcall with
    | call _ =>
      refine ⟨hy, between, front ++ before.flatMap Piece.chars, behind.flatMap Piece.chars ++ rest,
        rfl, ?_, ?_⟩
      · rw [htext, Printed.toList_layout, hsplit]
        simp [Piece.chars]
      · rw [openBraces?_append, hdepth, Option.bind_some, hlaid.braces]

/-- The layout of a type follows its braces, if no name, key or literal has a brace or a line end
and no key starts with a blank.  Each brace is closed, and each line behind the first is indented by
the braces open in front of it.  A call writes its pieces in a row, and its level is one above the
number of braces open where its text stands, so no level is zero.  Each record that is no list has
one line end for each field and one more. -/
theorem Ty.inline_followsBraces {t : Ty} (h : ∀ a, t.Has a → a.HasUnbrokenTexts) :
    openBraces? 0 t.inline.toList = some 0 ∧
    (∀ front line, t.inline.toList = front ++ '\n' :: line →
      ∃ k, openBraces? 0 front = some k ∧ IsIndented k line) ∧
    (∀ level x, t.Calls level x → (x.layout level).toList = (x.pieces level).flatMap Piece.chars ∧
      ∃ depth front rest, level = depth + 1 ∧ t.inline.toList =
        front ++ (x.layout level).toList ++ rest ∧
        openBraces? 0 front = some depth) ∧
    t.inline.toList.count '\n' = (t.parts.map Atom.lineEnds).sum := by
  have hunbroken : (Printed.type t).IsUnbroken := h
  have hlaid := hunbroken.followsBraces 0
  refine ⟨hlaid.braces, hlaid.lines, fun level x hx => ⟨x.toList_layout level, ?_⟩, hlaid.count⟩
  exact (hx.exists_place hunbroken).2

private def emptyRecord : Ty :=
  .single (.record ⟨[], true, false⟩)

private def box : Atom :=
  .generic ⟨"App\\Box", []⟩ [emptyRecord]

/-- A page whose body may be missing. -/
private def pageRecord : Atom :=
  .record ⟨[(.string "body", (Ty.single box).asOptional)], true, false⟩

private def pages : Ty :=
  .single (.record ⟨[(.int 0, .single pageRecord)], true, true⟩)

/-- What is written of it in front of the first line end. -/
private def opened : String :=
  "array".push '{' ++ "array".push '{'

/-- What is written of it behind the first line end: the field, and the ends of both records. -/
private def bodyLine : String :=
  (("        body?: Box<array" ++ inBraces "\n        " ++ ">,\n    ").push '}').push '}'

private theorem calls_emptyRecord : pages.Calls 3 (.type emptyRecord) := by
  have hlist : pages.Calls 1 (.atom (.record ⟨[(.int 0, .single pageRecord)], true, true⟩)) :=
    .inner .first (.head _)
  have helement : pages.Calls 2 (.type (.single pageRecord)) := .inner hlist (.tail _ (.head _))
  have hpage : pages.Calls 2 (.atom pageRecord) := .inner helement (.head _)
  have hbody : pages.Calls 3 (.type (Ty.single box).asOptional) :=
    .inner hpage (.tail _ (.tail _ (.head _)))
  have hbox : pages.Calls 3 (.atom box) := .inner hbody (.head _)
  exact .inner hbox (.tail _ (.head _))

theorem Ty.inline_followsBraces_pages :
    (∀ a, pages.Has a → a.HasUnbrokenTexts) ∧ openBraces? 0 pages.inline.toList = some 0 ∧
      (∃ k, openBraces? 0 opened.toList = some k ∧ IsIndented k bodyLine.toList) ∧
      (∃ depth front rest, 3 = depth + 1 ∧
        pages.inline.toList = front ++ ("array" ++ inBraces "\n        ").toList ++ rest ∧
        openBraces? 0 front = some depth) ∧
      pages.inline.toList.count '\n' = 3 := by
  have hparts : ∀ a ∈ pages.parts, a.HasUnbrokenTexts := by
    simp [pages, pageRecord, box, emptyRecord, Ty.parts, Ty.single, Atom.parts_eq,
      Atom.facets, Atom.types, Record.types, Ty.asOptional, Atom.HasUnbrokenTexts,
      Key.HasUnbrokenText, -Prod.forall]
  have hunbroken : ∀ a, pages.Has a → a.HasUnbrokenTexts := fun a ha => hparts a (Ty.mem_parts_iff.2 ha)
  have hinline : pages.inline = opened ++ "\n" ++ bodyLine := by decide +kernel
  have htext : pages.inline.toList = opened.toList ++ '\n' :: bodyLine.toList := by
    rw [hinline, String.toList_append, String.toList_append, List.append_assoc]
    rfl
  have hempty : (Printed.type emptyRecord).layout 3 = "array" ++ inBraces "\n        " := by
    decide +kernel
  obtain ⟨hbraces, hlines, hcalls, hcount⟩ := Ty.inline_followsBraces hunbroken
  have hplace := (hcalls 3 _ calls_emptyRecord).2
  rw [hempty] at hplace
  refine ⟨hunbroken, hbraces, hlines _ _ htext, hplace, hcount.trans ?_⟩
  simp [pages, pageRecord, box, emptyRecord, Ty.parts, Ty.single, Atom.parts_eq, Atom.facets,
    Atom.types, Record.types, Ty.asOptional, Atom.lineEnds]

end TypeProbe
