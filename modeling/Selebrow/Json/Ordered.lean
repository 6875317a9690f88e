import Mathlib.Data.List.Sort
import Selebrow.Json.Accepted
import Selebrow.Json.Double

/-!
# Maps that are written

A Go map is written with its keys in order, at every depth, so that the same value has one
text.  The order is of no account to what is read.
-/

namespace Selebrow.Json

def sortMembers (ms : List (GoString × Json)) : List (GoString × Json) :=
  ms.insertionSort fun e e' => e.1 ≤ e'.1

mutual

/-- What `json.Marshal` writes for an `interface{}`. -/
def ordered : Json → Json
  | .null => .null
  | .bool b => .bool b
  | .number literal => .number literal
  | .string s => .string s
  | .array vs => .array (orderedElements vs)
  | .object ms => .object (sortMembers (orderedMembers ms))

def orderedElements : List Json → List Json
  | [] => []
  | v :: vs => ordered v :: orderedElements vs

def orderedMembers : List (GoString × Json) → List (GoString × Json)
  | [] => []
  | (k, v) :: ms => (k, ordered v) :: orderedMembers ms

end

section

variable {v u : Json} {vs : List Json} {ms ms' : List (GoString × Json)} {e : GoString × Json}

theorem sortMembers_perm (ms : List (GoString × Json)) : (sortMembers ms).Perm ms :=
  List.perm_insertionSort _ ms

theorem orderedElements_eq (vs : List Json) : orderedElements vs = vs.map ordered := by
  induction vs with
  | nil => rfl
  | cons v vs ih => rw [orderedElements, ih, List.map_cons]

theorem orderedMembers_eq (ms : List (GoString × Json)) :
    orderedMembers ms = ms.map fun e => (e.1, ordered e.2) := by
  induction ms with
  | nil => rfl
  | cons e ms ih =>
    obtain ⟨k, v⟩ := e
    rw [orderedMembers, ih, List.map_cons]

theorem decodedElements_eq (vs : List Json) : decodedElements vs = vs.map decoded := by
  induction vs with
  | nil => rfl
  | cons v vs ih => rw [decodedElements, ih, List.map_cons]

theorem ordered_rebuilds : Rebuilds ordered where
  null := rfl
  bool _ := rfl
  string _ := rfl
  number literal h := ⟨literal, rfl, h⟩
  array vs := by
    refine ⟨_, rfl, ?_⟩
    intro u hu
    rw [orderedElements_eq] at hu
    obtain ⟨v, hv, rfl⟩ := List.mem_map.mp hu
    exact ⟨v, hv, rfl⟩
  object ms := by
    refine ⟨_, rfl, ?_⟩
    intro u hu
    rw [(sortMembers_perm _).mem_iff, orderedMembers_eq] at hu
    obtain ⟨e, he, rfl⟩ := List.mem_map.mp hu
    exact ⟨e, he, rfl⟩

theorem mem_decodedMembers (h : e ∈ decodedMembers ms) : ∃ m ∈ ms, e = (m.1, decoded m.2) := by
  induction ms with
  | nil => contradiction
  | cons m ms ih =>
    obtain ⟨k, v⟩ := m
    have hrest : e ∈ decodedMembers ms → ∃ m ∈ (k, v) :: ms, e = (m.1, decoded m.2) := by
      intro he
      obtain ⟨w, hw, heq⟩ := ih he
      exact ⟨w, List.mem_cons_of_mem _ hw, heq⟩
    rw [decodedMembers] at h
    split at h
    · exact hrest h
    · rcases List.mem_cons.mp h with rfl | h
      · exact ⟨(k, v), List.mem_cons_self, rfl⟩
      · exact hrest h

theorem decoded_rebuilds : Rebuilds decoded where
  null := rfl
  bool _ := rfl
  string _ := rfl
  number literal h := ⟨literal, rfl, h⟩
  array vs := by
    refine ⟨_, rfl, ?_⟩
    intro u hu
    rw [decodedElements_eq] at hu
    obtain ⟨v, hv, rfl⟩ := List.mem_map.mp hu
    exact ⟨v, hv, rfl⟩
  object _ := ⟨_, rfl, fun _ hu => mem_decodedMembers hu⟩

/-! ## The same tree -/

theorem lookup_perm (h : ms.Perm ms') (hms : (ms.map Prod.fst).Nodup) (k : GoString) :
    ms.lookup k = ms'.lookup k := by
  have hms' : (ms'.map Prod.fst).Nodup := (h.map Prod.fst).nodup_iff.mp hms
  have hmem : ∀ v, ms.lookup k = some v ↔ ms'.lookup k = some v := by
    intro v
    rw [GoMap.lookup_entries ⟨ms, hms⟩, GoMap.lookup_entries ⟨ms', hms'⟩, ← GoMap.mem_iff_lookup,
      ← GoMap.mem_iff_lookup]
    exact h.mem_iff
  exact Option.ext hmem

theorem keys_orderedMembers (ms : List (GoString × Json)) :
    (orderedMembers ms).map Prod.fst = ms.map Prod.fst := by
  rw [orderedMembers_eq, List.map_map]
  rfl

theorem lookup_orderedMembers (ms : List (GoString × Json)) (k : GoString) :
    (orderedMembers ms).lookup k = (ms.lookup k).map ordered := by
  induction ms with
  | nil => rfl
  | cons e ms ih =>
    obtain ⟨k', v⟩ := e
    rw [orderedMembers, List.lookup_cons, List.lookup_cons]
    split
    · rfl
    · exact ih

theorem lookup_sortMembers (h : (ms.map Prod.fst).Nodup) (k : GoString) :
    (sortMembers ms).lookup k = ms.lookup k :=
  (lookup_perm (sortMembers_perm ms).symm h k).symm

theorem shape_ordered (v : Json) : (ordered v).shape = v.shape := by
  cases v with
  | array vs =>
    have hlength : (orderedElements vs).length = vs.length := by
      rw [orderedElements_eq, List.length_map]
    exact congrArg Kind.array hlength
  | null | bool | number | string | object => rfl

theorem WellFormed.child (h : v.WellFormed) {s : Step} (hu : v.child s = some u) : u.WellFormed := by
  cases h with
  | array vs hvs =>
    cases s with
    | key k => contradiction
    | index i => exact hvs u (List.mem_of_getElem? hu)
  | object ms _ hms =>
    cases s with
    | key k =>
      obtain ⟨l, l', heq, _⟩ := List.lookup_eq_some_iff.mp hu
      apply hms (k, u)
      rw [heq]
      exact List.mem_append_right l List.mem_cons_self
    | index i => contradiction
  | null | bool | number | string => cases s <;> contradiction

theorem child_ordered (h : v.WellFormed) (s : Step) :
    (ordered v).child s = (v.child s).map ordered := by
  cases h with
  | array vs _ =>
    cases s with
    | key k => rfl
    | index i =>
      show (orderedElements vs)[i]? = _
      rw [orderedElements_eq, List.getElem?_map]
      rfl
  | object ms hn _ =>
    cases s with
    | key k =>
      show (sortMembers (orderedMembers ms)).lookup k = _
      rw [lookup_sortMembers (by rw [keys_orderedMembers]; exact hn), lookup_orderedMembers]
      rfl
    | index i => rfl
  | null | bool | number | string => rfl

theorem get_ordered (h : v.WellFormed) (p : List Step) :
    (ordered v).get p = (v.get p).map ordered := by
  induction p generalizing v with
  | nil => rfl
  | cons s p ih =>
    rw [get_cons, get_cons, child_ordered h]
    cases hc : v.child s with
    | none => rfl
    | some c => exact ih (h.child hc)

theorem sameTree_ordered (h : v.WellFormed) : (ordered v).SameTree v := by
  intro p
  rw [get_ordered h, Option.map_map]
  have hshape : shape ∘ ordered = shape := funext shape_ordered
  rw [hshape]

end

end Selebrow.Json
