/-!
# Lists of keys and values, and blanks in texts

A list of pairs answers for a key with the value of the first pair that has it: `lookup_cons_eq` says so step by step,
`mem_of_lookup` finds the pair. In a list that has each key once the order does not matter
(`lookup_eq_some_iff_of_nodup`).

`Text.isBlank` is the Unicode property `White_Space`; `Text.trim` and `Text.trimEnd` take the characters that have it
from both ends or from the end of a text.
-/

namespace EntityGraph

/-! ## Lists of keys and values -/

section

variable {α β : Type} [DecidableEq α]

theorem lookup_cons_eq (key k : α) (v : β) (rest : List (α × β)) :
    ((k, v) :: rest).lookup key = if key = k then some v else rest.lookup key := by
  rw [List.lookup_cons]
  by_cases h : key = k
  · simp [h]
  · rw [beq_false_of_ne h, if_neg h]

theorem mem_of_lookup {key : α} {v : β} :
    ∀ {pairs : List (α × β)}, pairs.lookup key = some v → (key, v) ∈ pairs
  | (k, w) :: rest, h => by
    rw [lookup_cons_eq] at h
    split at h
    · next hk => exact hk ▸ Option.some.inj h ▸ List.mem_cons_self
    · exact List.mem_cons_of_mem _ (mem_of_lookup h)

theorem lookup_eq_some_iff_of_nodup {key : α} {v : β} :
    ∀ {pairs : List (α × β)}, (pairs.map (·.1)).Nodup → (pairs.lookup key = some v ↔ (key, v) ∈ pairs)
  | [], _ => by simp
  | (k, w) :: rest, h => by
    obtain ⟨hk, hrest⟩ := List.nodup_cons.mp h
    refine ⟨mem_of_lookup, fun hm => ?_⟩
    rw [lookup_cons_eq]
    rcases List.mem_cons.mp hm with heq | hmem
    · cases heq
      rw [if_pos rfl]
    · rw [if_neg]
      · exact (lookup_eq_some_iff_of_nodup hrest).mpr hmem
      · rintro rfl
        exact hk (List.mem_map.mpr ⟨_, hmem, rfl⟩)

end

/-! ## Blanks -/

namespace Text

/-- The characters with the Unicode property `White_Space`. -/
def blanks : List Char :=
  ['\x09', '\x0a', '\x0b', '\x0c', '\x0d', ' ', '\u0085', '\u00a0', '\u1680', '\u2000', '\u2001', '\u2002', '\u2003',
    '\u2004', '\u2005', '\u2006', '\u2007', '\u2008', '\u2009', '\u200a', '\u2028', '\u2029', '\u202f', '\u205f',
    '\u3000']

/-- Whether a character has the Unicode property `White_Space`. -/
def isBlank (c : Char) : Bool := blanks.contains c

/-- The characters without the blanks at their end. -/
def dropEnd (cs : List Char) : List Char := (cs.reverse.dropWhile isBlank).reverse

/-- A text without the blanks at its end. -/
def trimEnd (s : String) : String := String.ofList (dropEnd s.toList)

/-- A text without the blanks at its ends. -/
def trim (s : String) : String := String.ofList (dropEnd (s.toList.dropWhile isBlank))

end Text

end EntityGraph
