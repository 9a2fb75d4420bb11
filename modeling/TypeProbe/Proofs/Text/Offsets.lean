import Mathlib.Data.List.TakeWhile
import TypeProbe.Text.Template

/-!
# Filling a template by byte offsets

A text may be searched byte by byte and cut at the offsets that were found, but a cut inside a
character has no halves (`Template.cut?`).  `Template.fillByOffsets?` fills a template in that way.
Braces and digits are single bytes which no longer character contains (`Template.takeWhile_bytes`),
so all its cuts lie between characters, and it always gives the filled template
(`Template.fillByOffsets?_eq`).
-/

namespace TypeProbe

namespace Template

/-! ### Bytes and cuts -/

/-- The bytes of a text. -/
def bytes (cs : List Char) : List UInt8 :=
  cs.flatMap String.utf8EncodeChar

/-- The text cut behind so many bytes; there is no cut inside a character or behind the end. -/
def cut? : Nat → List Char → Option (List Char × List Char)
  | 0, cs => some ([], cs)
  | _ + 1, [] => none
  | n + 1, c :: cs =>
    if c.utf8Size ≤ n + 1 then (cut? (n + 1 - c.utf8Size) cs).map fun p => (c :: p.1, p.2) else none

/-- The offset of the first opening brace, or the end of the text. -/
def braceOffset (cs : List Char) : Nat :=
  ((bytes cs).takeWhile (· ≠ 0x7b)).length

/-- The number of bytes at the front that are digits. -/
def digitCount (cs : List Char) : Nat :=
  ((bytes cs).takeWhile fun b => decide (0x30 ≤ b ∧ b ≤ 0x39)).length

/-- What is written up to the first opening brace and for it, and the text behind. -/
def turn? (args : List String) (cs : List Char) : Option (List Char × List Char) := do
  let (front, _) ← cut? (braceOffset cs) cs
  let (_, after) ← cut? (braceOffset cs + 1) cs
  let (digits, tail) ← cut? (digitCount after) after
  match if tail.head? = some '}' then argument? digits args else none with
  | some a =>
    let (_, rest) ← cut? (digitCount after + 1) after
    some (front ++ a.toList, rest)
  | none => some (front ++ ['{'], after)

theorem eq_of_cut? {n : Nat} {cs front back : List Char} (h : cut? n cs = some (front, back)) :
    cs = front ++ back ∧ (bytes front).length = n := by
  induction cs generalizing n front with
  | nil =>
    cases n with
    | zero =>
      cases h
      exact ⟨rfl, rfl⟩
    | succ n => cases h
  | cons c cs ih =>
    cases n with
    | zero =>
      cases h
      exact ⟨rfl, rfl⟩
    | succ n =>
      rw [cut?] at h
      split at h
      · rename_i hle
        obtain ⟨p, hp, heq⟩ := Option.map_eq_some_iff.1 h
        obtain ⟨rfl, rfl⟩ := Prod.mk.inj heq
        obtain ⟨rfl, hlength⟩ := ih hp
        refine ⟨rfl, ?_⟩
        rw [bytes, List.flatMap_cons, List.length_append, String.length_utf8EncodeChar]
        unfold bytes at hlength
        omega
      · cases h

/-- A text may be cut behind any of its characters. -/
theorem cut?_append (front back : List Char) :
    cut? (bytes front).length (front ++ back) = some (front, back) := by
  induction front with
  | nil =>
    rw [bytes, List.flatMap_nil]
    exact cut?.eq_1 _
  | cons c front ih =>
    have hlength : (bytes (c :: front)).length = c.utf8Size + (bytes front).length := by
      simp [bytes, List.flatMap_cons, String.length_utf8EncodeChar]
    have hpos : 0 < c.utf8Size := c.utf8Size_pos
    obtain ⟨n, hn⟩ : ∃ n, (bytes (c :: front)).length = n + 1 :=
      ⟨_, (Nat.succ_pred_eq_of_pos (by omega)).symm⟩
    rw [hn, List.cons_append, cut?, if_pos (by omega)]
    have hrest : n + 1 - c.utf8Size = (bytes front).length := by omega
    rw [hrest, ih]
    rfl

/-- A character is one byte, or all its bytes are above those. -/
private theorem utf8EncodeChar_cases (c : Char) :
    (c.toNat ≤ 127 ∧ String.utf8EncodeChar c = [UInt8.ofNat c.toNat]) ∨
      (127 < c.toNat ∧ ∀ b ∈ String.utf8EncodeChar c, 127 < b.toNat) := by
  have hval : c.val.toNat = c.toNat := rfl
  simp only [String.utf8EncodeChar, hval]
  by_cases hle : c.toNat ≤ 127
  · exact .inl ⟨hle, if_pos hle⟩
  · refine .inr ⟨Nat.lt_of_not_le hle, ?_⟩
    rw [if_neg hle]
    split
    · simp
      omega
    · split <;> simp <;> omega

/-- A search by bytes stops where the search by characters does, if all larger bytes and
characters are alike to it. -/
theorem takeWhile_bytes {p : UInt8 → Bool} {q : Char → Bool} {e : Bool}
    (hone : ∀ c : Char, c.toNat ≤ 127 → p (UInt8.ofNat c.toNat) = q c)
    (hchar : ∀ c : Char, 127 < c.toNat → q c = e) (hbyte : ∀ b : UInt8, 127 < b.toNat → p b = e)
    (cs : List Char) : (bytes cs).takeWhile p = bytes (cs.takeWhile q) := by
  induction cs with
  | nil => rfl
  | cons c cs ih =>
    have hcons : ∀ ds, bytes (c :: ds) = String.utf8EncodeChar c ++ bytes ds := fun _ => rfl
    have hsame : ∀ b ∈ String.utf8EncodeChar c, p b = q c := by
      intro b hb
      rcases utf8EncodeChar_cases c with ⟨hle, hc⟩ | ⟨hlt, hc⟩
      · rw [hc] at hb
        rw [List.mem_singleton.1 hb, hone c hle]
      · rw [hbyte b (hc b hb), hchar c hlt]
    cases hq : q c with
    | true =>
      rw [hcons, List.takeWhile_append_of_pos fun b hb => (hsame b hb).trans hq, ih,
        List.takeWhile_cons_of_pos hq, hcons]
    | false =>
      obtain ⟨b, bs, hbs⟩ : ∃ b bs, String.utf8EncodeChar c = b :: bs :=
        List.exists_cons_of_length_pos (String.length_utf8EncodeChar c ▸ c.utf8Size_pos)
      have hb : p b = false := (hsame b (hbs ▸ List.mem_cons_self)).trans hq
      rw [hcons, hbs, List.cons_append, List.takeWhile_cons_of_neg (by simp [hb]),
        List.takeWhile_cons_of_neg (by simp [hq])]
      rfl

private theorem toNat_ofNat {n : Nat} (h : n ≤ 127) : (UInt8.ofNat n).toNat = n :=
  UInt8.toNat_ofNat_of_lt' (Nat.lt_of_le_of_lt h (by decide))

private theorem takeWhile_ne_brace (cs : List Char) :
    (bytes cs).takeWhile (· ≠ 0x7b) = bytes (cs.takeWhile (· ≠ '{')) := by
  refine takeWhile_bytes (e := true) ?_ ?_ ?_ cs
  · intro c hc
    rw [decide_eq_decide, ne_eq, ne_eq, ← UInt8.toNat_inj, ← Char.toNat_inj, toNat_ofNat hc]
    rfl
  · intro c hc
    rw [decide_eq_true_iff]
    rintro rfl
    exact absurd hc (by decide)
  · intro b hb
    rw [decide_eq_true_iff]
    rintro rfl
    exact absurd hb (by decide)

private theorem takeWhile_isDigit (cs : List Char) :
    ((bytes cs).takeWhile fun b => decide (0x30 ≤ b ∧ b ≤ 0x39)) =
      bytes (cs.takeWhile Char.isDigit) := by
  have hnine : (0x39 : UInt8).toNat = 57 ∧ '9'.toNat = 57 := ⟨rfl, rfl⟩
  refine takeWhile_bytes (e := false) ?_ ?_ ?_ cs
  · intro c hc
    rw [Bool.eq_iff_iff, decide_eq_true_iff, Char.isDigit_iff_toNat, UInt8.le_iff_toNat_le,
      UInt8.le_iff_toNat_le, toNat_ofNat hc]
    rfl
  · intro c hc
    rw [Bool.eq_false_iff, ne_eq, Char.isDigit_iff_toNat]
    omega
  · intro b hb
    rw [decide_eq_false_iff_not, UInt8.le_iff_toNat_le, UInt8.le_iff_toNat_le]
    omega

/-! ### One turn -/

/-- A text is free of braces, or it goes on with one behind a part that is. -/
theorem forall_ne_or_exists_brace (cs : List Char) :
    (∀ c ∈ cs, c ≠ '{') ∨ ∃ front after, cs = front ++ '{' :: after ∧ ∀ c ∈ front, c ≠ '{' := by
  by_cases h : '{' ∈ cs
  · obtain ⟨front, after, rfl, hfront⟩ := List.eq_append_cons_of_mem h
    exact .inr ⟨front, after, rfl, fun c hc hbrace => hfront (hbrace ▸ hc)⟩
  · exact .inl fun c hc hbrace => h (hbrace ▸ hc)

private theorem braceOffset_append {front after : List Char} (hfront : ∀ c ∈ front, c ≠ '{') :
    braceOffset (front ++ '{' :: after) = (bytes front).length := by
  have htake : (front ++ '{' :: after).takeWhile (· ≠ '{') = front := by
    rw [List.takeWhile_append_of_pos (by simpa using hfront)]
    exact List.append_nil front
  rw [braceOffset, takeWhile_ne_brace, htake]

private theorem digitCount_eq (cs : List Char) :
    digitCount cs = (bytes (cs.takeWhile Char.isDigit)).length := by
  rw [digitCount, takeWhile_isDigit]

private theorem cut?_succ (front : List Char) {c : Char} (hc : c.toNat ≤ 127) (back : List Char) :
    cut? ((bytes front).length + 1) (front ++ c :: back) = some (front ++ [c], back) := by
  have hlength : (bytes (front ++ [c])).length = (bytes front).length + 1 := by
    rcases utf8EncodeChar_cases c with ⟨-, henc⟩ | ⟨hlt, -⟩
    · simp [bytes, henc]
    · omega
  have hcut := cut?_append (front ++ [c]) back
  rwa [hlength, List.append_assoc] at hcut

variable {args : List String}

/-- All cuts of a turn lie between characters. -/
private theorem turn?_append {front after : List Char} (hfront : ∀ c ∈ front, c ≠ '{') :
    turn? args (front ++ '{' :: after) = some
      (match place? args after with
      | some (a, rest) => (front ++ a.toList, rest)
      | none => (front ++ ['{'], after)) := by
  have hdigits := List.takeWhile_append_dropWhile (p := Char.isDigit) (l := after)
  have hnumber : cut? (digitCount after) after =
      some (after.takeWhile Char.isDigit, after.dropWhile Char.isDigit) := by
    have hcut := cut?_append (after.takeWhile Char.isDigit) (after.dropWhile Char.isDigit)
    rwa [hdigits, ← digitCount_eq] at hcut
  simp only [turn?, braceOffset_append hfront, cut?_append,
    cut?_succ front (c := '{') (by decide) after, hnumber, Option.bind_eq_bind, Option.bind_some,
    place?]
  cases hdrop : after.dropWhile Char.isDigit with
  | nil => rfl
  | cons c rest =>
    by_cases hc : c = '}'
    · subst hc
      cases argument? (after.takeWhile Char.isDigit) args with
      | none => rfl
      | some a =>
        have hcut := cut?_succ (after.takeWhile Char.isDigit) (c := '}') (by decide) rest
        rw [← hdrop, hdigits, ← digitCount_eq] at hcut
        simp [hcut]
    · simp [hc]

theorem length_of_turn? {cs written rest : List Char} (h : turn? args cs = some (written, rest)) :
    rest.length < cs.length := by
  have hbehind : ∀ {n : Nat} {ds front back : List Char}, cut? (n + 1) ds = some (front, back) →
      back.length < ds.length := by
    intro n ds front back hcut
    obtain ⟨rfl, hlength⟩ := eq_of_cut? hcut
    have hne : front ≠ [] := by
      rintro rfl
      cases hlength
    have := List.length_pos_iff.2 hne
    rw [List.length_append]
    omega
  simp only [turn?, Option.bind_eq_bind, Option.bind_eq_some_iff] at h
  obtain ⟨⟨front, _⟩, -, ⟨before, after⟩, hafter, ⟨digits, tail⟩, -, h⟩ := h
  have hlt := hbehind hafter
  split at h
  · obtain ⟨⟨_, back⟩, hback, h⟩ := Option.bind_eq_some_iff.1 h
    obtain ⟨-, rfl⟩ := Prod.mk.inj (Option.some.inj h)
    exact (hbehind hback).trans hlt
  · obtain ⟨-, rfl⟩ := Prod.mk.inj (Option.some.inj h)
    exact hlt

/-! ### The whole template -/

/-- The template filled by counting bytes; none if it were cut inside a character. -/
def fillByOffsets? (args : List String) (cs : List Char) : Option (List Char) :=
  if braceOffset cs = (bytes cs).length then some cs
  else
    match _h : turn? args cs with
    | some (written, rest) => (fillByOffsets? args rest).map (written ++ ·)
    | none => none
termination_by cs.length
decreasing_by exact length_of_turn? _h

private theorem fillByOffsets?_of_turn? {cs written rest : List Char}
    (hbrace : braceOffset cs ≠ (bytes cs).length) (h : turn? args cs = some (written, rest)) :
    fillByOffsets? args cs = (fillByOffsets? args rest).map (written ++ ·) := by
  rw [fillByOffsets?, if_neg hbrace]
  split
  · rename_i h'
    cases h.symm.trans h'
    rfl
  · rename_i h'
    cases h.symm.trans h'

/-- Counting bytes fills the same places. -/
theorem fillByOffsets?_eq (cs : List Char) : fillByOffsets? args cs = some (fillChars args cs) := by
  induction hn : cs.length using Nat.strong_induction_on generalizing cs with
  | _ n ih =>
    subst hn
    rcases forall_ne_or_exists_brace cs with h | ⟨front, after, rfl, hfront⟩
    · have hoffset : braceOffset cs = (bytes cs).length := by
        rw [braceOffset, takeWhile_ne_brace, List.takeWhile_eq_self_iff.2 (by simpa using h)]
      rw [fillByOffsets?, if_pos hoffset, fillChars_of_forall_ne h]
    · have hoffset : braceOffset (front ++ '{' :: after) ≠ (bytes (front ++ '{' :: after)).length := by
        have hone : (String.utf8EncodeChar '{').length = 1 := rfl
        rw [braceOffset_append hfront]
        simp only [bytes, List.flatMap_append, List.flatMap_cons, List.length_append]
        omega
      cases hp : place? args after with
      | none =>
        have hturn : turn? args (front ++ '{' :: after) = some (front ++ ['{'], after) := by
          rw [turn?_append hfront, hp]
        rw [fillByOffsets?_of_turn? hoffset hturn, ih _ (length_of_turn? hturn) after rfl,
          fillChars_append_brace hfront hp, Option.map_some, List.append_assoc, List.singleton_append]
      | some p =>
        obtain ⟨a, rest⟩ := p
        have hturn : turn? args (front ++ '{' :: after) = some (front ++ a.toList, rest) := by
          rw [turn?_append hfront, hp]
        rw [fillByOffsets?_of_turn? hoffset hturn, ih _ (length_of_turn? hturn) rest rfl,
          fillChars_append_place hfront hp, Option.map_some]

end Template

end TypeProbe
