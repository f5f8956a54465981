import EntityGraph.Json.Inside

/-!
# Settings

A setting is what a file (`Setting.ofJson`) or a variable of the environment (`Setting.ofText`) gives to a key.

In a file a value may stand in a wrapping, an object that holds it under `Setting.wrappedKey`. An object may bear a mark
under `Setting.markKey`, an unsigned integer that has no effect; any other mark spoils the file, wherever it stands.
-/

namespace EntityGraph

/-- A value that a layer gives to a key. -/
inductive Setting
  | flag (value : Bool)
  | number (value : Nat)
  /-- Any other value, which suits no option. -/
  | unsuitable
deriving DecidableEq

namespace Setting

/-- The truth value of a setting. -/
def flag? : Setting → Option Bool
  | flag b => some b
  | _ => none

/-- The number of a setting. -/
def number? : Setting → Option Nat
  | number n => some n
  | _ => none

/-! ## The settings in files -/

/-- The key under which a wrapping holds its value. -/
def wrappedKey : String := "___figment_value_value"

/-- The key of a mark. -/
def markKey : String := "___figment_value_id"

/-- Whether every mark in a value, at any depth, is an unsigned integer. -/
def marksFit : Json → Bool
  | .arr items => items.attach.all fun ⟨v, _⟩ => marksFit v
  | .obj fields => fields.attach.all fun ⟨(key, v), _⟩ => if key = markKey then v.natural?.isSome else marksFit v
  | _ => true
termination_by v => sizeOf v
decreasing_by
  · next h => exact Json.sizeOf_lt_of_mem_parts h
  · next h _ => exact Json.sizeOf_lt_of_mem_parts (List.mem_map_of_mem h)

/-- The setting that a value gives. A wrapping gives what its value gives, whatever else it holds. -/
def ofJson : Json → Setting
  | .bool b => flag b
  | .num (.natural n) => number n
  | .obj fields =>
    match _h : fields.reverse.lookup wrappedKey with
    | some v => ofJson v
    | none => unsuitable
  | _ => unsuitable
termination_by v => sizeOf v
decreasing_by
  exact Json.sizeOf_lt_of_mem_parts (List.mem_map_of_mem (List.mem_reverse.mp (mem_of_lookup (by assumption))))

/-! ## The settings in variables -/

/-- The blanks around the value of a variable. -/
def isBlank (c : Char) : Bool := [' ', '\t', '\n', '\x0c', '\r'].contains c

/-- A text without the blanks at its ends. -/
def trim (cs : List Char) : List Char := ((cs.dropWhile isBlank).reverse.dropWhile isBlank).reverse

/-- The number that decimal digits write; none without a digit. -/
def digits? (cs : List Char) : Option Nat :=
  if cs.isEmpty || !cs.all Char.isDigit then none
  else some (cs.foldl (fun n c => n * 10 + (c.toNat - '0'.toNat)) 0)

/-- The number that an integer writes: below `2 ^ 64`, perhaps with a plus sign; with a minus sign only zero. -/
def natural? : List Char → Option Nat
  | '+' :: rest => (digits? rest).filter (· < Nat.pow 2 64)
  | '-' :: rest => (digits? rest).filter (· = 0)
  | cs => (digits? cs).filter (· < Nat.pow 2 64)

/-- The setting that the value of a variable writes. -/
def ofText (s : String) : Setting :=
  if trim s.toList = "true".toList then flag true
  else if trim s.toList = "false".toList then flag false
  else ((natural? (Text.trim s).toList).map number).getD unsuitable

end Setting

end EntityGraph
