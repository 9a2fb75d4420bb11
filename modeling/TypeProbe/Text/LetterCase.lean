import TypeProbe.Text.CaseTables

/-!
# Lower-casing of a text

`LetterCase.lower` follows the full default mapping of the Unicode standard.  Each character becomes
its small letter; the dotted capital I becomes two characters, and the capital sigma becomes the
final small sigma at the end of a word.  A sigma ends a word if, characters of the class
Case_Ignorable aside, a cased character comes before it and none comes after it.
-/

namespace TypeProbe.LetterCase

/-- Whether a code point lies in one of the ranges. -/
def inRanges (ranges : List (Nat × Nat)) (n : Nat) : Bool :=
  ranges.any fun r => decide (r.1 ≤ n) && decide (n ≤ r.2)

def isCased (c : Char) : Bool :=
  inRanges casedRanges c.toNat

def isIgnorable (c : Char) : Bool :=
  inRanges ignorableRanges c.toNat

/-- The small letter of a character, or the character itself. -/
def smallLetter (c : Char) : Char :=
  let n := c.toNat
  match smallLetters.find? fun (first, last, step, _) =>
      decide (first ≤ n) && decide (n ≤ last) && (n - first) % step == 0 with
  | some (first, _, _, small) => Char.ofNat (small + (n - first))
  | none => c

private theorem smallLetter_capitals (n : Fin 26) :
    smallLetter (Char.ofNat (65 + n)) = (Char.ofNat (65 + n)).toLower := by
  revert n
  decide

/-- On the capitals of ASCII this is the lower-casing of ASCII. -/
theorem smallLetter_of_isUpper {c : Char} (h : c.isUpper = true) : smallLetter c = c.toLower := by
  have hc : 65 ≤ c.toNat ∧ c.toNat ≤ 90 := by
    delta Char.isUpper at h
    simp only [ge_iff_le, decide_eq_true_eq] at h
    exact ⟨h.1, h.2⟩
  have hn : c = Char.ofNat (65 + (c.toNat - 65)) := by
    rw [Nat.add_sub_cancel' hc.1, Char.ofNat_toNat]
  have := smallLetter_capitals ⟨c.toNat - 65, by omega⟩
  rwa [← hn] at this

/-- Whether the first character that is not ignorable is cased. -/
def meetsCased (cs : List Char) : Bool :=
  match cs.dropWhile isIgnorable with
  | [] => false
  | c :: _ => isCased c

/-- Lower-cases `cs`, which follows the characters `before`, nearest first. -/
def lowerAfter (before : List Char) : List Char → List Char
  | [] => []
  | c :: rest =>
    let small :=
      if c.toNat = 0x3A3 then
        [if meetsCased before && !meetsCased rest then Char.ofNat 0x3C2 else Char.ofNat 0x3C3]
      else if c.toNat = 0x130 then ['i', Char.ofNat 0x307]
      else [smallLetter c]
    small ++ lowerAfter (c :: before) rest

/-- The text in small letters. -/
def lower (s : String) : String :=
  String.ofList (lowerAfter [] s.toList)

end TypeProbe.LetterCase
