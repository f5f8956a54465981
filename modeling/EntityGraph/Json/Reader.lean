import EntityGraph.Json.Inside
import EntityGraph.Json.Literal

/-!
# Reading JSON text

`Json.asWritten` reads one value from a text, after RFC 8259 and nothing more: no comments, no trailing commas, no
byte-order mark, no second value. At most `Json.maxNesting` arrays and objects are open at once. `Json.ofText` gives the
value in its canonical form.

An unreadable text is `truncated` where it ends too early and `invalid` where a character has no place; the first
fault in reading order decides. Every step hands on what is left of the text with the proof that it is shorter
(`Parsed`), and the nesting that is still allowed falls with every array and object (`value`), so reading ends.
-/

namespace EntityGraph

/-- Why a text is no JSON value. -/
inductive ReadError
  /-- The text ends before the value does. -/
  | truncated
  /-- A character, a number or a nesting that is not allowed. -/
  | invalid
deriving DecidableEq, Repr

namespace Reader

/-- What a step read from `s`, and the rest of the text. -/
structure Parsed (α : Type) (s : List Char) where
  result : α
  rest : List Char
  shorter : rest.length < s.length

/-- The outcome of a step on `s`. -/
abbrev Outcome (α : Type) (s : List Char) := Except ReadError (Parsed α s)

/-- The fault of a text in which some other character had to follow. -/
def misplaced {α : Type} : List Char → Except ReadError α
  | [] => .error .truncated
  | _ :: _ => .error .invalid

/-! ## Blanks, words and digits -/

/-- The characters that may stand between tokens. -/
def isBlank (c : Char) : Bool := c = ' ' || c = '\t' || c = '\n' || c = '\r'

/-- The text from the first token on. -/
def skipBlank (s : List Char) : List Char := s.dropWhile isBlank

theorem length_skipBlank_le (s : List Char) : (skipBlank s).length ≤ s.length :=
  (List.dropWhile_suffix isBlank).length_le

/-- The text after a word that has to stand at its front. -/
def word : List Char → (s : List Char) → Except ReadError { rest : List Char // rest.length ≤ s.length }
  | [], s => .ok ⟨s, Nat.le_refl _⟩
  | _ :: _, [] => .error .truncated
  | c :: cs, d :: s =>
    if c = d then do
      let ⟨rest, h⟩ ← word cs s
      return ⟨rest, Nat.le_succ_of_le h⟩
    else .error .invalid

/-- The digits at the front of a text, and the rest. -/
def digits (s : List Char) : List Nat × { rest : List Char // rest.length ≤ s.length } :=
  ((s.takeWhile Char.isDigit).map fun c => c.toNat - '0'.toNat,
    ⟨s.dropWhile Char.isDigit, (List.dropWhile_suffix Char.isDigit).length_le⟩)

/-- At least one digit, and the rest. -/
def digits1 (s : List Char) : Except ReadError (List Nat × { rest : List Char // rest.length ≤ s.length }) :=
  match digits s with
  | ([], ⟨rest, _⟩) => misplaced rest
  | found => .ok found

/-! ## Numbers -/

/-- The digits before the point: a zero stands alone. -/
def wholePart (s : List Char) : Outcome (List Nat) s :=
  match s with
  | '0' :: rest =>
    if rest.head?.any Char.isDigit then .error .invalid else .ok ⟨[0], rest, Nat.lt_succ_self _⟩
  | c :: rest =>
    if c.isDigit then
      let (ds, ⟨rest', h⟩) := digits rest
      .ok ⟨(c.toNat - '0'.toNat) :: ds, rest', Nat.lt_succ_of_le h⟩
    else .error .invalid
  | [] => .error .truncated

/-- The digits after a point, if one follows. -/
def fractionPart (s : List Char) :
    Except ReadError (Option (List Nat) × { rest : List Char // rest.length ≤ s.length }) :=
  match s with
  | '.' :: rest => do
    let (ds, ⟨rest', h⟩) ← digits1 rest
    return (some ds, ⟨rest', Nat.le_succ_of_le h⟩)
  | s => .ok (none, ⟨s, Nat.le_refl _⟩)

/-- The power of ten, if one follows. -/
def powerPart (s : List Char) : Except ReadError (Option Int × { rest : List Char // rest.length ≤ s.length }) :=
  match s with
  | [] => .ok (none, ⟨[], Nat.le_refl _⟩)
  | e :: rest =>
    if e = 'e' || e = 'E' then
      match rest with
      | '-' :: rest => do
        let (ds, ⟨rest', h⟩) ← digits1 rest
        return (some (-(Literal.value ds : Int)), ⟨rest', Nat.le_succ_of_le (Nat.le_succ_of_le h)⟩)
      | '+' :: rest => do
        let (ds, ⟨rest', h⟩) ← digits1 rest
        return (some (Literal.value ds : Int), ⟨rest', Nat.le_succ_of_le (Nat.le_succ_of_le h)⟩)
      | rest => do
        let (ds, ⟨rest', h⟩) ← digits1 rest
        return (some (Literal.value ds : Int), ⟨rest', Nat.le_succ_of_le h⟩)
    else .ok (none, ⟨e :: rest, Nat.le_refl _⟩)

/-- A number whose sign has been read. -/
def unsigned (signed : Bool) (s : List Char) : Outcome Json s := do
  let ⟨whole, afterWhole, h₁⟩ ← wholePart s
  let (fraction, ⟨afterFraction, h₂⟩) ← fractionPart afterWhole
  let (power, ⟨rest, h₃⟩) ← powerPart afterFraction
  match ({ signed, whole, fraction, power } : Literal).number? with
  | some n => return ⟨.num n, rest, Nat.lt_of_le_of_lt (Nat.le_trans h₃ h₂) h₁⟩
  | none => .error .invalid

/-! ## Strings -/

/-- The value of a hexadecimal digit. -/
def hexDigit? (c : Char) : Option Nat :=
  if c.isDigit then some (c.toNat - '0'.toNat)
  else if 'a' ≤ c && c ≤ 'f' then some (c.toNat - 'a'.toNat + 10)
  else if 'A' ≤ c && c ≤ 'F' then some (c.toNat - 'A'.toNat + 10)
  else none

/-- The number of bytes that characters take in UTF-8. -/
def byteLength (s : List Char) : Nat := s.foldr (fun c n => c.utf8Size + n) 0

/-- Four hexadecimal digits. The text ends too early when fewer than four bytes are left. -/
def hex4 (s : List Char) : Outcome Nat s :=
  match s with
  | a :: b :: c :: d :: rest =>
    match hexDigit? a, hexDigit? b, hexDigit? c, hexDigit? d with
    | some a, some b, some c, some d => .ok ⟨((a * 16 + b) * 16 + c) * 16 + d, rest, by simp; omega⟩
    | _, _, _, _ => .error .invalid
  | s => if byteLength s < 4 then .error .truncated else .error .invalid

/-- The character that the first half of a surrogate pair makes with the second half, which has to follow. -/
def secondHalf (high : Nat) (s : List Char) : Outcome Char s :=
  match s with
  | '\\' :: 'u' :: afterU => do
    let ⟨low, rest, h⟩ ← hex4 afterU
    if 0xDC00 ≤ low && low ≤ 0xDFFF then
      return ⟨Char.ofNat (0x10000 + (high - 0xD800) * 0x400 + (low - 0xDC00)), rest, by simp; omega⟩
    else .error .invalid
  | ['\\'] => .error .truncated
  | [] => .error .truncated
  | _ => .error .invalid

/-- The character of an escape, from the letter after the backslash on. -/
def escape (s : List Char) : Outcome Char s :=
  match s with
  | [] => .error .truncated
  | c :: rest =>
    match c with
    | '"' => .ok ⟨'"', rest, Nat.lt_succ_self _⟩
    | '\\' => .ok ⟨'\\', rest, Nat.lt_succ_self _⟩
    | '/' => .ok ⟨'/', rest, Nat.lt_succ_self _⟩
    | 'b' => .ok ⟨'\x08', rest, Nat.lt_succ_self _⟩
    | 'f' => .ok ⟨'\x0c', rest, Nat.lt_succ_self _⟩
    | 'n' => .ok ⟨'\n', rest, Nat.lt_succ_self _⟩
    | 'r' => .ok ⟨'\r', rest, Nat.lt_succ_self _⟩
    | 't' => .ok ⟨'\t', rest, Nat.lt_succ_self _⟩
    | 'u' => do
      let ⟨unit, afterUnit, h⟩ ← hex4 rest
      if 0xDC00 ≤ unit && unit ≤ 0xDFFF then .error .invalid
      else if 0xD800 ≤ unit && unit ≤ 0xDBFF then do
        let ⟨char, rest', h'⟩ ← secondHalf unit afterUnit
        return ⟨char, rest', by simp; omega⟩
      else return ⟨Char.ofNat unit, afterUnit, by simp; omega⟩
    | _ => .error .invalid

/-- The characters of a string up to its closing quote, after the characters read before (last first) in the text
`start`. -/
def stringFrom (start : List Char) (before : List Char) (s : List Char) (h : s.length ≤ start.length) :
    Outcome String start :=
  match s with
  | [] => .error .truncated
  | c :: rest =>
    if c = '"' then .ok ⟨String.ofList before.reverse, rest, h⟩
    else if c = '\\' then do
      let ⟨char, afterEscape, shorter⟩ ← escape rest
      stringFrom start (char :: before) afterEscape (by simp at h; omega)
    else if c.toNat < 0x20 then .error .invalid
    else stringFrom start (c :: before) rest (Nat.le_of_succ_le h)
termination_by s.length
decreasing_by all_goals simp; try omega

/-- A string after its opening quote. -/
def string (s : List Char) : Outcome String s := stringFrom s [] s (Nat.le_refl _)

/-! ## Values -/

/-- The rest of an array after the items read before (last first) in the text `start`, `element` reading an item. -/
def itemsFrom (element : (s : List Char) → Outcome Json s) (start : List Char) (before : List Json) (s : List Char)
    (h : s.length ≤ start.length) : Outcome Json start :=
  have := length_skipBlank_le s
  match hs : skipBlank s with
  | ']' :: rest => .ok ⟨.arr before.reverse, rest, by simp [hs] at this; omega⟩
  | ',' :: rest => do
    let ⟨item, afterItem, shorter⟩ ← element (skipBlank rest)
    have := length_skipBlank_le rest
    have : afterItem.length < s.length := by simp [hs] at *; omega
    itemsFrom element start (item :: before) afterItem (by omega)
  | other => misplaced other
termination_by s.length

/-- An array after its opening bracket. -/
def items (element : (s : List Char) → Outcome Json s) (s : List Char) : Outcome Json s :=
  have := length_skipBlank_le s
  match hs : skipBlank s with
  | ']' :: rest => .ok ⟨.arr [], rest, by simp [hs] at this; omega⟩
  | first => do
    let ⟨item, afterItem, shorter⟩ ← element first
    itemsFrom element s [item] afterItem (by rw [hs] at this; omega)

/-- A key, a colon and a value, `element` reading the value. -/
def field (element : (s : List Char) → Outcome Json s) (s : List Char) : Outcome (String × Json) s :=
  match s with
  | '"' :: afterQuote => do
    let ⟨key, afterKey, h₁⟩ ← string afterQuote
    have := length_skipBlank_le afterKey
    match hs : skipBlank afterKey with
    | ':' :: afterColon => do
      let ⟨value, rest, h₂⟩ ← element (skipBlank afterColon)
      have := length_skipBlank_le afterColon
      return ⟨(key, value), rest, by simp [hs] at *; omega⟩
    | other => misplaced other
  | other => misplaced other

/-- The rest of an object after the fields read before (last first) in the text `start`. -/
def fieldsFrom (element : (s : List Char) → Outcome Json s) (start : List Char) (before : List (String × Json))
    (s : List Char) (h : s.length ≤ start.length) : Outcome Json start :=
  have := length_skipBlank_le s
  match hs : skipBlank s with
  | '\x7d' :: rest => .ok ⟨.obj before.reverse, rest, by simp [hs] at this; omega⟩
  | ',' :: rest => do
    let ⟨entry, afterField, shorter⟩ ← field element (skipBlank rest)
    have := length_skipBlank_le rest
    have : afterField.length < s.length := by simp [hs] at *; omega
    fieldsFrom element start (entry :: before) afterField (by omega)
  | other => misplaced other
termination_by s.length

/-- An object after its opening brace. -/
def fields (element : (s : List Char) → Outcome Json s) (s : List Char) : Outcome Json s :=
  have := length_skipBlank_le s
  match hs : skipBlank s with
  | '\x7d' :: rest => .ok ⟨.obj [], rest, by simp [hs] at this; omega⟩
  | first => do
    let ⟨entry, afterField, shorter⟩ ← field element first
    fieldsFrom element s [entry] afterField (by rw [hs] at this; omega)

/-- A word that stands for a value, from its second letter on. -/
def wordValue (letters : List Char) (value : Json) (s : List Char) (c : Char) : Outcome Json (c :: s) := do
  let ⟨rest, h⟩ ← word letters s
  return ⟨value, rest, Nat.lt_succ_of_le h⟩

/-- A value other than an array or object. -/
def scalar (s : List Char) : Outcome Json s :=
  match s with
  | [] => .error .truncated
  | 'n' :: rest => wordValue ['u', 'l', 'l'] .null rest 'n'
  | 't' :: rest => wordValue ['r', 'u', 'e'] (.bool true) rest 't'
  | 'f' :: rest => wordValue ['a', 'l', 's', 'e'] (.bool false) rest 'f'
  | '"' :: rest => do
    let ⟨text, rest', h⟩ ← string rest
    return ⟨.str text, rest', Nat.lt_succ_of_lt h⟩
  | '-' :: rest => do
    let ⟨number, rest', h⟩ ← unsigned true rest
    return ⟨number, rest', Nat.lt_succ_of_lt h⟩
  | c :: rest => if c.isDigit then unsigned false (c :: rest) else .error .invalid

/-- A value in which at most `room` arrays and objects are open at once. -/
def value : (room : Nat) → (s : List Char) → Outcome Json s
  | 0, s =>
    match s with
    | '[' :: _ => .error .invalid
    | '\x7b' :: _ => .error .invalid
    | s => scalar s
  | room + 1, s =>
    match s with
    | '[' :: rest => do
      let ⟨array, rest', h⟩ ← items (value room) rest
      return ⟨array, rest', Nat.lt_succ_of_lt h⟩
    | '\x7b' :: rest => do
      let ⟨object, rest', h⟩ ← fields (value room) rest
      return ⟨object, rest', Nat.lt_succ_of_lt h⟩
    | s => scalar s

end Reader

/-- The number of arrays and objects that may be open at once in a text. -/
def Json.maxNesting : Nat := 127

/-- Reads the one value that a text consists of. The fields of an object stand as they are written. -/
def Json.asWritten (text : String) : Except ReadError Json := do
  let ⟨result, rest, _⟩ ← Reader.value maxNesting (Reader.skipBlank text.toList)
  match Reader.skipBlank rest with
  | [] => return result
  | _ :: _ => .error .invalid

/-- Reads the one value that a text consists of, in its canonical form. -/
def Json.ofText (text : String) : Except ReadError Json := (Json.asWritten text).map canonical

end EntityGraph
