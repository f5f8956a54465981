import EntityGraph.Arena
import EntityGraph.Decl.Kind

/-!
# Resolutions

A declaration is resolved once. The first request for its id reserves a slot (`Resolutions.reserve`) or pins it to a
fallback (`Resolutions.pin`); every later one finds what the first has settled (`Resolutions.lookup?`). So a reference
to a declaration whose entity is not finished finds its place, and declarations that refer to each other resolve.
-/

namespace EntityGraph

/-- The entity of a declaration and the kind by which it was built; no kind for an unrecognized declaration, which
stands for the fallback. -/
structure Resolution where
  entity : EntityId
  kind : Option DeclKind
deriving DecidableEq, Inhabited

/-- The answer to a request for a slot. -/
inductive Reservation
  /-- The slot is new and has to be filled by whoever asked. -/
  | fresh (slot : EntityId)
  /-- The declaration is settled. -/
  | existing (resolution : Resolution)
deriving DecidableEq

/-- The settled declarations, the last first; each id stands once. -/
structure Resolutions where
  entries : List (DeclId × Resolution) := []
deriving Inhabited

namespace Resolutions

/-- What is settled for an id. -/
def lookup? (decl : DeclId) (t : Resolutions) : Option Resolution := t.entries.lookup decl

/-- Settles an id. -/
def insert (decl : DeclId) (r : Resolution) (t : Resolutions) : Resolutions := ⟨(decl, r) :: t.entries⟩

/-- Reserves a slot for an id unless it is settled. -/
def reserve (decl : DeclId) (kind : DeclKind) (t : Resolutions) (a : Arena) : Reservation × Resolutions × Arena :=
  match t.lookup? decl with
  | some found => (.existing found, t, a)
  | none =>
    let (slot, a) := a.reserve
    (.fresh slot, t.insert decl ⟨slot, some kind⟩, a)

/-- Pins an id to a fallback unless it is settled. -/
def pin (decl : DeclId) (fallback : EntityId) (t : Resolutions) : Resolution × Resolutions :=
  match t.lookup? decl with
  | some found => (found, t)
  | none => (⟨fallback, none⟩, t.insert decl ⟨fallback, none⟩)

/-- The entity of each id, the first settled first. -/
def entities (t : Resolutions) : List (DeclId × EntityId) :=
  (t.entries.map fun (decl, found) => (decl, found.entity)).reverse

/-! ## What the operations settle -/

theorem lookup?_insert (decl d : DeclId) (r : Resolution) (t : Resolutions) :
    (t.insert d r).lookup? decl = if decl = d then some r else t.lookup? decl :=
  lookup_cons_eq decl d r t.entries

theorem lookup?_insert_self (decl : DeclId) (r : Resolution) (t : Resolutions) :
    (t.insert decl r).lookup? decl = some r := by
  rw [lookup?_insert, if_pos rfl]

/-- Settling an id that is open leaves what is settled. -/
theorem lookup?_insert_of_settled {decl d : DeclId} {r r' : Resolution} {t : Resolutions} (h : t.lookup? decl = none)
    (hr : t.lookup? d = some r') : (t.insert decl r).lookup? d = some r' := by
  have hne : d ≠ decl := by
    rintro rfl
    simp [h] at hr
  simp [lookup?_insert, hne, hr]

theorem not_mem_keys {decl : DeclId} {t : Resolutions} (h : t.lookup? decl = none) :
    decl ∉ t.entries.map (·.1) := by
  intro hd
  obtain ⟨entry, he, rfl⟩ := List.mem_map.mp hd
  simpa using List.lookup_eq_none_iff.mp h entry he

theorem reserve_of_settled {decl : DeclId} {r : Resolution} {t : Resolutions} (h : t.lookup? decl = some r)
    (kind : DeclKind) (a : Arena) : t.reserve decl kind a = (.existing r, t, a) := by
  simp [reserve, h]

theorem reserve_of_open {decl : DeclId} {t : Resolutions} (h : t.lookup? decl = none) (kind : DeclKind) (a : Arena) :
    t.reserve decl kind a = (.fresh a.nextId, t.insert decl ⟨a.nextId, some kind⟩, a.reserve.2) := by
  simp [reserve, h, Arena.reserve]

theorem pin_of_settled {decl : DeclId} {r : Resolution} {t : Resolutions} (h : t.lookup? decl = some r)
    (fallback : EntityId) : t.pin decl fallback = (r, t) := by
  simp [pin, h]

theorem pin_of_open {decl : DeclId} {t : Resolutions} (h : t.lookup? decl = none) (fallback : EntityId) :
    t.pin decl fallback = (⟨fallback, none⟩, t.insert decl ⟨fallback, none⟩) := by
  simp [pin, h]

/-- The entities answer for an id with what is settled for it. -/
theorem lookup_entities {t : Resolutions} (h : (t.entries.map (·.1)).Nodup) (decl : DeclId) :
    t.entities.lookup decl = (t.lookup? decl).map (·.entity) := by
  have hkeys : t.entities.map (·.1) = (t.entries.map (·.1)).reverse := by
    rw [entities, List.map_reverse, List.map_map]
    rfl
  have hentities : (t.entities.map (·.1)).Nodup := hkeys ▸ (List.reverse_perm _).nodup_iff.mpr h
  ext m
  rw [lookup_eq_some_iff_of_nodup hentities, entities, List.mem_reverse, List.mem_map, Option.map_eq_some_iff]
  constructor
  · rintro ⟨⟨d, r⟩, hr, heq⟩
    cases heq
    exact ⟨r, (lookup_eq_some_iff_of_nodup h).mpr hr, rfl⟩
  · rintro ⟨r, hr, rfl⟩
    exact ⟨(decl, r), mem_of_lookup hr, rfl⟩

end Resolutions

end EntityGraph
