import EntityGraph.Basic

/-!
# JSON values

- `Json` is a document as a tree, with its numbers told apart by how they are written (`Number`);
- `Json.get?`, `Json.string?`, `Json.natural?`, `Json.array?` look at one value and never fail, they answer `none`;
- `Json.ofFields` builds an object in its canonical form, sorted by key and without repetition, in which a key holds
  the value of its last field (`Json.get?_ofFields`).
-/

namespace EntityGraph

/-- A number, by the form in which it is written. -/
inductive Number
  /-- An integer from `0` to `2 ^ 64 - 1`, without sign, fraction or exponent. -/
  | natural (value : Nat)
  /-- The integer `-magnitude`, for a magnitude from `1` to `2 ^ 63`. -/
  | negative (magnitude : Nat)
  /-- Any other number: `digits * 10 ^ exponent`, below zero where `signed` says so. -/
  | real (signed : Bool) (digits : Nat) (exponent : Int)
deriving DecidableEq, Repr, Inhabited

/-- A JSON value. The fields of an object stand in the order in which they are walked. -/
inductive Json
  | null
  | bool (value : Bool)
  | num (value : Number)
  | str (value : String)
  | arr (items : List Json)
  | obj (fields : List (String × Json))
deriving Repr, Inhabited

namespace Json

/-! ## Looking at one value -/

/-- The value of a key, for an object that has it. -/
def get? (key : String) : Json → Option Json
  | obj fields => fields.lookup key
  | _ => none

/-- The text of a string. -/
def string? : Json → Option String
  | str s => some s
  | _ => none

/-- The value of an unsigned integer. -/
def natural? : Json → Option Nat
  | num (.natural n) => some n
  | _ => none

/-- The truth value of `true` and `false`. -/
def bool? : Json → Option Bool
  | bool b => some b
  | _ => none

/-- The items of an array. -/
def array? : Json → Option (List Json)
  | arr items => some items
  | _ => none

/-- Whether a value is an object. -/
def isObject : Json → Bool
  | obj _ => true
  | _ => false

/-- The text that a key holds. -/
def stringAt? (key : String) (v : Json) : Option String := (v.get? key).bind string?

/-- The unsigned integer that a key holds. -/
def naturalAt? (key : String) (v : Json) : Option Nat := (v.get? key).bind natural?

/-- The array that a key holds. -/
def listAt? (key : String) (v : Json) : Option (List Json) := (v.get? key).bind array?

/-- The items of the array that a key holds; none where there is no array. -/
def listAt (key : String) (v : Json) : List Json := (v.listAt? key).getD []

/-- The object that a key holds. -/
def objectAt? (key : String) (v : Json) : Option Json := (v.get? key).filter isObject

/-- Whether an object has a key. -/
def has (key : String) (v : Json) : Bool := (v.get? key).isSome

/-- The values directly inside a value: the items of an array, the values of an object. -/
def parts : Json → List Json
  | arr items => items
  | obj fields => fields.map (·.2)
  | _ => []

/-! ## Building objects -/

/-- Puts a field at its place in a list sorted by key, instead of a field of the same key. -/
def putField (key : String) (value : Json) : List (String × Json) → List (String × Json)
  | [] => [(key, value)]
  | (k, v) :: rest =>
    if key < k then (key, value) :: (k, v) :: rest
    else if key = k then (key, value) :: rest
    else (k, v) :: putField key value rest

/-- The object with these fields, sorted by key; of fields with one key the last stays. -/
def ofFields (fields : List (String × Json)) : Json :=
  obj (fields.foldl (fun sorted field => putField field.1 field.2 sorted) [])

theorem lookup_putField (key k : String) (value : Json) : ∀ fields : List (String × Json),
    (putField k value fields).lookup key = if key = k then some value else fields.lookup key
  | [] => lookup_cons_eq key k value []
  | (k', v) :: rest => by
    unfold putField
    split
    · exact lookup_cons_eq key k value _
    · split
      · next hk =>
        simp only [lookup_cons_eq, ← hk]
        split <;> rfl
      · next hk =>
        simp only [lookup_cons_eq, lookup_putField key k value rest]
        by_cases h : key = k'
        · simp [h, Ne.symm hk]
        · simp [h]

/-- A key of an object holds the value of its last field. -/
theorem get?_ofFields (key : String) (fields : List (String × Json)) :
    (ofFields fields).get? key = fields.reverse.lookup key := by
  have fold : ∀ (fields before : List (String × Json)),
      (fields.foldl (fun sorted field => putField field.1 field.2 sorted) before).lookup key =
        (fields.reverse ++ before).lookup key := by
    intro fields
    induction fields with
    | nil => exact fun _ => rfl
    | cons field rest ih =>
      intro before
      rw [List.foldl_cons, ih, List.reverse_cons, List.append_assoc, List.lookup_append, List.lookup_append,
        lookup_putField, List.singleton_append, lookup_cons_eq]
  have := fold fields []
  rwa [List.append_nil] at this

/-- The number of an unsigned integer. -/
abbrev ofNat (n : Nat) : Json := num (.natural n)

/-- `null` for what is absent. -/
def ofOption {α : Type} (encode : α → Json) : Option α → Json
  | some a => encode a
  | none => null

/-- An array of encoded elements. -/
def ofList {α : Type} (encode : α → Json) (xs : List α) : Json := arr (xs.map encode)

/-- A field that is left out when its value is absent. -/
def optionalField {α : Type} (key : String) (encode : α → Json) : Option α → List (String × Json)
  | some a => [(key, encode a)]
  | none => []

end Json

end EntityGraph
