import Mathlib.Data.List.Induction
import Mathlib.Logic.Relation
import TypeProbe.Classes

/-!
# The ancestors of a class

`ClassTable.isBelow` is judged by a search with a stack that looks at the parents of no class twice,
so it comes to an end on every graph (`ClassTable.unseenLinks_cons`).  It finds exactly the classes
that a chain of links leads to (`ClassTable.isBelow_iff`), cycles included, and the hierarchy of a
table is reflexive and transitive up to ASCII case (`Hierarchy.IsPreorder`).  Of a list of
declarations the links are those of the last declaration of each name (`ClassTable.DeclaresLink`),
and declaring a new name takes none away (`ClassTable.hierarchy_declare`).
-/

namespace TypeProbe

/-- Names that differ in ASCII case only are related, and the relation can be composed. -/
structure Hierarchy.IsPreorder (h : Hierarchy) : Prop where
  of_same : ∀ {a b : String}, Ascii.same a b = true → h a b = true
  trans : ∀ {a b c : String}, h a b = true → h b c = true → h a c = true

theorem Hierarchy.flat_isPreorder : Hierarchy.flat.IsPreorder where
  of_same h := h
  trans h h' := Ascii.same_iff.2 ((Ascii.same_iff.1 h).trans (Ascii.same_iff.1 h'))

namespace ClassTable

open Relation (ReflTransGen TransGen)

/-- The class `a` names the class `b` as a parent. -/
def Link (table : ClassTable) (a b : String) : Prop :=
  b ∈ table.parentsOf a

/-! ### The search -/

/-- A link of a class that was not seen. -/
private def UnseenLink (table : ClassTable) (seen : List String) (a b : String) : Prop :=
  a ∉ seen ∧ table.Link a b

variable {table : ClassTable}

private theorem unseenLink_cons_iff {name a b : String} {seen : List String} :
    table.UnseenLink (name :: seen) a b ↔ a ≠ name ∧ table.UnseenLink seen a b := by
  unfold UnseenLink
  rw [List.mem_cons, not_or, and_assoc]

/-- A chain passes by `name`, or has a part behind its last link from there. -/
private theorem avoids_or_leaves (name : String) {a target : String} {seen : List String}
    (h : ReflTransGen (table.UnseenLink seen) a target) :
    ReflTransGen (table.UnseenLink (name :: seen)) a target ∨
      ∃ b, table.Link name b ∧ ReflTransGen (table.UnseenLink (name :: seen)) b target := by
  induction h using ReflTransGen.head_induction_on with
  | refl => exact .inl .refl
  | @head a b hab _ ih =>
    rcases ih with havoids | hleaves
    · by_cases ha : a = name
      · exact .inr ⟨b, ha ▸ hab.2, havoids⟩
      · exact .inl (.head (unseenLink_cons_iff.2 ⟨ha, hab⟩) havoids)
    · exact .inr hleaves

/-- A class that was seen has no unseen link, so a chain that starts there ends there. -/
private theorem eq_of_seen {a target : String} {seen : List String} (ha : a ∈ seen)
    (h : ReflTransGen (table.UnseenLink seen) a target) : a = target := by
  rcases h.cases_head with rfl | ⟨b, hab, -⟩
  · rfl
  · exact absurd ha hab.1

/-- Taking the links of `name` off the graph and putting its parents on the stack changes nothing. -/
private theorem exists_chain_expand_iff {name target : String} {seen rest : List String}
    (hname : name ≠ target) (hs : name ∉ seen) :
    (∃ a ∈ table.parentsOf name ++ rest, ReflTransGen (table.UnseenLink (name :: seen)) a target) ↔
      ∃ a ∈ name :: rest, ReflTransGen (table.UnseenLink seen) a target := by
  constructor
  · rintro ⟨a, ha, hchain⟩
    have hchain : ReflTransGen (table.UnseenLink seen) a target :=
      ReflTransGen.mono (fun _ _ hl => (unseenLink_cons_iff.1 hl).2) _ _ hchain
    rcases List.mem_append.1 ha with ha | ha
    · exact ⟨name, List.mem_cons_self, .head ⟨hs, ha⟩ hchain⟩
    · exact ⟨a, List.mem_cons_of_mem _ ha, hchain⟩
  · rintro ⟨a, ha, hchain⟩
    rcases avoids_or_leaves name hchain with havoids | ⟨b, hb, hleaves⟩
    · rcases List.mem_cons.1 ha with rfl | ha
      · exact absurd (eq_of_seen List.mem_cons_self havoids) hname
      · exact ⟨a, List.mem_append_right _ ha, havoids⟩
    · exact ⟨b, List.mem_append_left _ hb, hleaves⟩

/-- The search finds the ends of the chains that start on the stack and
leave no class that was seen. -/
private theorem reaches_iff {target : String} {seen stack : List String} :
    table.reaches target seen stack = true ↔
      ∃ a ∈ stack, ReflTransGen (table.UnseenLink seen) a target := by
  fun_induction reaches with
  | case1 => simp
  | case2 seen rest => exact iff_of_true rfl ⟨target, List.mem_cons_self, .refl⟩
  | case3 seen name rest hne hs ih =>
    have hname : ¬ ReflTransGen (table.UnseenLink seen) name target := fun h => hne (eq_of_seen hs h)
    simp only [ih, List.mem_cons, exists_eq_or_imp, hname, false_or]
  | case4 seen name rest hne hs ih => rw [ih, exists_chain_expand_iff hne hs]

/-! ### The table -/

/-- A class is below another if a chain of one or more links leads there. -/
theorem isBelow_iff {child ancestor : String} :
    table.isBelow child ancestor = true ↔
      TransGen table.Link (Ascii.lower child) (Ascii.lower ancestor) := by
  have hlinks : table.UnseenLink [] = table.Link := by
    funext a b
    exact propext (and_iff_right List.not_mem_nil)
  rw [isBelow, reaches_iff, hlinks, TransGen.head'_iff]
  rfl

theorem hierarchy_iff {child parent : String} :
    table.hierarchy child parent = true ↔
      ReflTransGen table.Link (Ascii.lower child) (Ascii.lower parent) := by
  rw [Relation.reflTransGen_iff_eq_or_transGen, hierarchy, Bool.or_eq_true, Ascii.same_iff,
    isBelow_iff, eq_comm]

theorem hierarchy_isPreorder (table : ClassTable) : table.hierarchy.IsPreorder where
  of_same h := by
    rw [hierarchy_iff, Ascii.same_iff.1 h]
  trans h h' := by
    rw [hierarchy_iff] at h h' ⊢
    exact h.trans h'

/-! ### Declarations -/

/-- The links of a table after one more declaration: those of the declared
name are new, all others stay. -/
theorem link_declare_iff {name : String} {parents : List String} {a b : String} :
    (table.declare name parents).Link a b ↔
      if a = Ascii.lower name then b ∈ parents.map Ascii.lower else table.Link a b := by
  unfold Link parentsOf declare
  split
  · rename_i ha
    rw [ha, Keyed.get?_put_self]
    rfl
  · rename_i ha
    rw [Keyed.get?_put_of_ne ha]

/-- The class `name` was declared. -/
def Declares (table : ClassTable) (name : String) : Prop :=
  Ascii.lower name ∈ table.parents.map (·.1)

/-- A table that declares one more name relates all the classes it related before. -/
theorem hierarchy_declare {name : String} (hnew : ¬ table.Declares name) (parents : List String)
    {child parent : String} (h : table.hierarchy child parent = true) :
    (table.declare name parents).hierarchy child parent = true := by
  rw [hierarchy_iff] at h ⊢
  refine ReflTransGen.mono (fun a b hab => link_declare_iff.2 ?_) _ _ h
  split
  · rename_i ha
    have hnone : table.parentsOf a = [] := by
      rw [parentsOf, ha, Keyed.get?_eq_none_iff.2 hnew]
      rfl
    rw [Link, hnone] at hab
    cases hab
  · exact hab

/-- The last declaration of the class `a` names the class `b` as a parent;
both names are in lower case. -/
def DeclaresLink (classes : List (String × List String)) (a b : String) : Prop :=
  ∃ c ∈ (classes.filter fun c => Ascii.lower c.1 = a).getLast?, b ∈ c.2.map Ascii.lower

private theorem declaresLink_concat_iff {classes : List (String × List String)}
    {c : String × List String} {a b : String} :
    DeclaresLink (classes ++ [c]) a b ↔
      if a = Ascii.lower c.1 then b ∈ c.2.map Ascii.lower else DeclaresLink classes a b := by
  unfold DeclaresLink
  rw [List.filter_append]
  by_cases ha : a = Ascii.lower c.1
  · simp [ha]
  · simp [ha, Ne.symm ha]

private theorem link_ofList_iff {classes : List (String × List String)} {a b : String} :
    (ofList classes).Link a b ↔ DeclaresLink classes a b := by
  induction classes using List.reverseRecOn with
  | nil => exact iff_of_false List.not_mem_nil (by simp [DeclaresLink])
  | append_singleton classes c ih =>
    have hlast : ofList (classes ++ [c]) = (ofList classes).declare c.1 c.2 := by
      rw [ofList, List.foldl_append]
      rfl
    rw [hlast, link_declare_iff, declaresLink_concat_iff, ih]

/-- In a table of declarations a class is below another exactly if one or more links lead there, and
the hierarchy of the table is given by any number of links.  So names that differ in ASCII case only
are related, and the hierarchy is transitive. -/
theorem isBelow_ofList (classes : List (String × List String)) :
    (∀ child ancestor, (ofList classes).isBelow child ancestor = true ↔
      TransGen (DeclaresLink classes) (Ascii.lower child) (Ascii.lower ancestor)) ∧
    (∀ child parent, (ofList classes).hierarchy child parent = true ↔
      ReflTransGen (DeclaresLink classes) (Ascii.lower child) (Ascii.lower parent)) ∧
    (ofList classes).hierarchy.IsPreorder := by
  have hlinks : (ofList classes).Link = DeclaresLink classes := by
    funext a b
    exact propext link_ofList_iff
  refine ⟨?_, ?_, hierarchy_isPreorder _⟩
  · intro child ancestor
    rw [isBelow_iff, hlinks]
  · intro child parent
    rw [hierarchy_iff, hlinks]

/-- Only the letters `A` to `Z` may be written in either case. -/
example :
    (ofList [("Dog", ["ANIMAL"]), ("animal", ["Être"])]).isBelow "dOG" "ÊtRE" = true ∧
      (ofList [("Dog", ["ANIMAL"]), ("animal", ["Être"])]).isBelow "dOG" "être" = false := by
  decide +kernel

end ClassTable

end TypeProbe
