import EntityGraph.Json.Basic

/-!
# Writing JSON text

`Json.render` writes a value without blanks, its fields in the order in which they stand. Quotes, backslashes and
control characters are escaped, all other characters stand for themselves.
-/

namespace EntityGraph

/-- The lower-case hexadecimal digit of a number below 16. -/
def hexDigit (n : Nat) : Char := if n < 10 then Char.ofNat ('0'.toNat + n) else Char.ofNat ('a'.toNat + (n - 10))

namespace Json

/-- A character inside a string. -/
def escapeChar (c : Char) : List Char :=
  if c = '"' then ['\\', '"']
  else if c = '\\' then ['\\', '\\']
  else if c.toNat < 0x20 then ['\\', 'u', '0', '0', hexDigit (c.toNat / 16), hexDigit (c.toNat % 16)]
  else [c]

/-- A string between quotes. -/
def quote (s : String) : String := String.ofList ('"' :: s.toList.flatMap escapeChar ++ ['"'])

end Json

/-- The text of a number. -/
def Number.render : Number → String
  | natural n => toString n
  | negative n => "-" ++ toString n
  | real signed digits exponent =>
    (if signed then "-" else "") ++ toString digits ++ "e" ++ toString exponent

namespace Json

mutual

/-- The text of a value, after the text `before`. -/
def renderOnto (before : String) : Json → String
  | null => before ++ "null"
  | bool true => before ++ "true"
  | bool false => before ++ "false"
  | num n => before ++ n.render
  | str s => before ++ quote s
  | arr items => renderItems (before ++ "[") "" items ++ "]"
  | obj fields => renderFields (before ++ "\x7b") "" fields ++ "\x7d"

/-- Items, with `separator` before the first of them and a comma before the others. -/
def renderItems (before separator : String) : List Json → String
  | [] => before
  | item :: rest => renderItems (renderOnto (before ++ separator) item) "," rest

/-- Fields, with `separator` before the first of them and a comma before the others. -/
def renderFields (before separator : String) : List (String × Json) → String
  | [] => before
  | (key, value) :: rest => renderFields (renderOnto (before ++ separator ++ quote key ++ ":") value) "," rest

end

/-- The text of a value. -/
def render (v : Json) : String := renderOnto "" v

end Json

end EntityGraph
