import EntityGraph.Json.Basic

/-!
# Number literals

A literal without fraction and exponent whose value fits 64 bits is an integer (`Literal.integer?`). Every other
literal is a real number, refused when it is too large for binary floating point of 53 significant bits
(`Literal.tooLarge`): the leading digits that fit 64 bits and the power of ten are rounded one by one, and their
product has to round to less than `2 ^ 1024`.
-/

namespace EntityGraph

/-- A number as it is written, by its digits. -/
structure Literal where
  /-- Whether a minus sign stands in front. -/
  signed : Bool
  whole : List Nat
  /-- The digits after the point, where there is one. -/
  fraction : Option (List Nat)
  /-- The number after `e`, where there is one. -/
  power : Option Int

namespace Literal

/-- The number that decimal digits write. -/
def value (digits : List Nat) : Nat := digits.foldl (fun n d => n * 10 + d) 0

/-- The digits after the point; none without a point. -/
def decimals (l : Literal) : List Nat := l.fraction.getD []

/-- The integer that a literal without fraction and exponent writes, if it fits 64 bits. The zero with a sign is
no integer. -/
def integer? (l : Literal) : Option Number :=
  if l.fraction.isSome || l.power.isSome then none
  else
    let n := value l.whole
    if l.signed then if 0 < n && n ≤ Nat.pow 2 63 then some (.negative n) else none
    else if n < Nat.pow 2 64 then some (.natural n) else none

/-- The longest leading part of the digits whose value fits 64 bits, as that value and the number of digits left. -/
def clip : Nat → List Nat → Nat × Nat
  | n, [] => (n, 0)
  | n, d :: rest => if n * 10 + d < Nat.pow 2 64 then clip (n * 10 + d) rest else (n, rest.length + 1)

/-- The nearest number of at most 53 significant bits; a tie goes to the even neighbour. -/
def nearest (n : Nat) : Nat :=
  if n.log2 < 53 then n
  else
    let unit := Nat.pow 2 (n.log2 - 52)
    let below := n / unit
    let twice := 2 * (n % unit)
    if twice < unit || (twice = unit && below % 2 = 0) then below * unit else (below + 1) * unit

/-- Whether `digits * 10 ^ power`, both factors rounded to 53 bits, rounds to `2 ^ 1024` or more. -/
def overflows (digits : Nat) (power : Int) : Bool :=
  digits ≠ 0 && 0 ≤ power &&
    (308 < power || Nat.pow 2 1024 - Nat.pow 2 970 ≤ nearest digits * nearest (Nat.pow 10 power.toNat))

/-- Whether a real number is beyond the largest binary floating-point number. -/
def tooLarge (l : Literal) : Bool :=
  let (digits, left) := clip 0 (l.whole ++ l.decimals)
  overflows digits (l.power.getD 0 + left - l.decimals.length)

/-- The number that a literal writes; none for a number that is too large. -/
def number? (l : Literal) : Option Number :=
  match l.integer? with
  | some n => some n
  | none =>
    if l.tooLarge then none
    else some (.real l.signed (value (l.whole ++ l.decimals)) (l.power.getD 0 - l.decimals.length))

end Literal

end EntityGraph
