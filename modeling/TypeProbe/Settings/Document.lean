/-!
# Flat documents

A flat document is an object or an array of JSON whose values are texts and truth values; nothing
else is read.  `Document.parse?` reads the whole text strictly: no comma behind the last value, no
raw control characters in a text, no half of a surrogate pair, nothing behind the document.
-/

namespace TypeProbe

inductive Value where
  | text (s : String)
  | truth (b : Bool)
deriving DecidableEq

/-- The members of an object, in order and with repetitions, or the items of an array. -/
inductive Document where
  | object (members : List (String × Value))
  | array (items : List Value)
deriving DecidableEq

namespace Document

/-! ### Tokens -/

inductive Token where
  | mark (c : Char)
  | value (v : Value)
deriving DecidableEq

def hexDigit? (c : Char) : Option Nat :=
  if '0' ≤ c ∧ c ≤ '9' then some (c.toNat - '0'.toNat)
  else if 'a' ≤ c ∧ c ≤ 'f' then some (c.toNat - 'a'.toNat + 10)
  else if 'A' ≤ c ∧ c ≤ 'F' then some (c.toNat - 'A'.toNat + 10)
  else none

/-- The number that four hexadecimal digits denote, and what follows them. -/
def codeUnit? : List Char → Option (Nat × List Char)
  | a :: b :: c :: d :: rest => do
    let a ← hexDigit? a
    let b ← hexDigit? b
    let c ← hexDigit? c
    let d ← hexDigit? d
    return (4096 * a + 256 * b + 16 * c + d, rest)
  | _ => none

/-- The character of an escape by number: one code unit, or two that form a surrogate pair. -/
def numbered? (cs : List Char) : Option (Char × List Char) := do
  let (unit, rest) ← codeUnit? cs
  if 0xDC00 ≤ unit ∧ unit ≤ 0xDFFF then none
  else if 0xD800 ≤ unit ∧ unit ≤ 0xDBFF then
    if rest.take 2 = ['\\', 'u'] then
      let (low, rest) ← codeUnit? (rest.drop 2)
      if 0xDC00 ≤ low ∧ low ≤ 0xDFFF then
        return (Char.ofNat (0x10000 + 0x400 * (unit - 0xD800) + (low - 0xDC00)), rest)
      else none
    else none
  else return (Char.ofNat unit, rest)

/-- The character of an escape, read behind the backslash, and what follows it. -/
def escape? : List Char → Option (Char × List Char)
  | [] => none
  | c :: rest =>
    if c = 'u' then numbered? rest
    else if c = '"' ∨ c = '\\' ∨ c = '/' then some (c, rest)
    else if c = 'b' then some ('\x08', rest)
    else if c = 'f' then some ('\x0c', rest)
    else if c = 'n' then some ('\n', rest)
    else if c = 'r' then some ('\r', rest)
    else if c = 't' then some ('\t', rest)
    else none

/-- The characters of a text up to its closing quote, and what follows the quote;
`fuel` bounds their number. -/
def quoted? : (fuel : Nat) → List Char → Option (List Char × List Char)
  | 0, _ => none
  | _, [] => none
  | fuel + 1, c :: rest =>
    if c = '"' then some ([], rest)
    else if c = '\\' then do
      let (d, rest) ← escape? rest
      let (s, rest) ← quoted? fuel rest
      return (d :: s, rest)
    else if c < ' ' then none
    else do
      let (s, rest) ← quoted? fuel rest
      return (c :: s, rest)

/-- The tokens of a text, without the blanks between them; `fuel` bounds the steps. -/
def tokens? : (fuel : Nat) → List Char → Option (List Token)
  | _, [] => some []
  | 0, _ => none
  | fuel + 1, c :: rest =>
    if c = ' ' ∨ c = '\t' ∨ c = '\n' ∨ c = '\r' then tokens? fuel rest
    else if c = '"' then do
      let (s, rest) ← quoted? rest.length rest
      return .value (.text (String.ofList s)) :: (← tokens? fuel rest)
    else if "true".toList.isPrefixOf (c :: rest) then do
      return .value (.truth true) :: (← tokens? fuel (rest.drop 3))
    else if "false".toList.isPrefixOf (c :: rest) then do
      return .value (.truth false) :: (← tokens? fuel (rest.drop 4))
    else do
      return .mark c :: (← tokens? fuel rest)

/-! ### Documents -/

/-- The members of an object up to its closing brace, which must end the document. -/
def members? : List Token → Option (List (String × Value))
  | .value (.text name) :: .mark ':' :: .value v :: .mark c :: rest =>
    if c = ',' then (members? rest).map ((name, v) :: ·)
    else if c = '}' ∧ rest = [] then some [(name, v)]
    else none
  | _ => none

/-- The items of an array up to its closing bracket, which must end the document. -/
def items? : List Token → Option (List Value)
  | .value v :: .mark c :: rest =>
    if c = ',' then (items? rest).map (v :: ·)
    else if c = ']' ∧ rest = [] then some [v]
    else none
  | _ => none

/-- Reads a document. -/
def parse? (s : String) : Option Document := do
  match ← tokens? s.length s.toList with
  | .mark c :: rest =>
    if c = '{' then
      if rest = [.mark '}'] then some (.object []) else (members? rest).map .object
    else if c = '[' then
      if rest = [.mark ']'] then some (.array []) else (items? rest).map .array
    else none
  | _ => none

end Document

end TypeProbe
