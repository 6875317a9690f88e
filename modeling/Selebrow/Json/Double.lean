import Selebrow.Json.RoundTrip
import Selebrow.Json.Same

/-!
# Values with the same doubles, and the text they come from

Two JSON values are decoded alike when each path leads to the same kind of thing in both,
numbers compared as the doubles they are decoded into.  A value whose numbers are encoded
anew is decoded like the one before.

A text may name a member twice; of such members an `interface{}` keeps the last.
-/

namespace Selebrow.Json

/-- What a value is decoded into, without what it contains. -/
def doubleKind (v : Json) : Kind (Option Float64) := v.shape.map floatOf

def SameDouble (a b : Json) : Prop := ∀ p, (a.get p).map doubleKind = (b.get p).map doubleKind

section

variable {a b v w : Json} {ms ms' : List (GoString × Json)} {vs : List Json} {s : GoString}

theorem SameDouble.refl (v : Json) : v.SameDouble v := fun _ => rfl

theorem SameDouble.symm (h : a.SameDouble b) : b.SameDouble a := fun p => (h p).symm

theorem SameDouble.trans (h : a.SameDouble b) (h' : b.SameDouble v) : a.SameDouble v :=
  fun p => (h p).trans (h' p)

theorem SameTree.sameDouble (h : a.SameTree b) : a.SameDouble b := by
  intro p
  have hp := congrArg (Option.map (Kind.map floatOf)) (h p)
  rw [Option.map_map, Option.map_map] at hp
  exact hp

theorem sameDouble_mapNumbers (v : Json) : (mapNumbers reencode v).SameDouble v := by
  intro p
  rw [get_mapNumbers, Option.map_map]
  cases v.get p with
  | none => rfl
  | some c =>
    show some ((mapNumbers reencode c).shape.map floatOf) = some (c.shape.map floatOf)
    rw [shape_mapNumbers]
    cases c with
    | number literal => exact congrArg (fun x => some (Kind.number x)) (floatOf_reencode literal)
    | null | bool | string | array | object => rfl

/-- What two values have in the same place. -/
theorem SameDouble.child (h : a.SameDouble b) (s : Step) :
    Option.Rel SameDouble (a.child s) (b.child s) := by
  have hs : ∀ p, ((a.child s).bind fun c => c.get p).map doubleKind =
      ((b.child s).bind fun c => c.get p).map doubleKind := fun p => h (s :: p)
  cases ha : a.child s with
  | none =>
    cases hb : b.child s with
    | none => exact .none
    | some d =>
      have hnil := hs []
      rw [ha, hb] at hnil
      contradiction
  | some c =>
    cases hb : b.child s with
    | none =>
      have hnil := hs []
      rw [ha, hb] at hnil
      contradiction
    | some d =>
      rw [ha, hb] at hs
      exact .some hs

theorem SameDouble.kind (h : a.SameDouble b) : doubleKind a = doubleKind b :=
  Option.some.inj (h [])

theorem SameDouble.eq_string (h : a.SameDouble (.string s)) : a = .string s := by
  have hk := h.kind
  cases a with
  | string s' =>
    cases hk
    rfl
  | null | bool | number | array | object => contradiction

theorem SameDouble.array (h : a.SameDouble (.array vs)) :
    ∃ us, a = .array us ∧ List.Forall₂ SameDouble us vs := by
  have hk := h.kind
  cases a with
  | array us =>
    refine ⟨us, rfl, ?_⟩
    rw [List.forall₂_iff_get]
    have hlen : us.length = vs.length := Kind.array.inj hk
    refine ⟨hlen, ?_⟩
    intro i hi hi'
    have hchild : Option.Rel SameDouble us[i]? vs[i]? := h.child (.index i)
    rw [List.getElem?_eq_getElem hi, List.getElem?_eq_getElem hi'] at hchild
    cases hchild with
    | some hc => exact hc
  | null | bool | number | string | object => contradiction

end

/-! ## Members of one name -/

mutual

/-- What a text is decoded into. -/
def decoded : Json → Json
  | .null => .null
  | .bool b => .bool b
  | .number literal => .number literal
  | .string s => .string s
  | .array elements => .array (decodedElements elements)
  | .object members => .object (decodedMembers members)

def decodedElements : List Json → List Json
  | [] => []
  | v :: rest => decoded v :: decodedElements rest

def decodedMembers : List (GoString × Json) → List (GoString × Json)
  | [] => []
  | (k, v) :: rest =>
    if k ∈ rest.map Prod.fst then decodedMembers rest else (k, decoded v) :: decodedMembers rest

end

theorem decodedMembers_subset (ms : List (GoString × Json)) :
    (decodedMembers ms).map Prod.fst ⊆ ms.map Prod.fst := by
  induction ms with
  | nil => exact List.Subset.refl _
  | cons e rest ih =>
    obtain ⟨k, v⟩ := e
    rw [decodedMembers]
    split
    · exact List.Subset.trans ih (List.subset_cons_self _ _)
    · exact List.cons_subset_cons k ih

theorem nodup_decodedMembers (ms : List (GoString × Json)) :
    ((decodedMembers ms).map Prod.fst).Nodup := by
  induction ms with
  | nil => exact List.nodup_nil
  | cons e rest ih =>
    obtain ⟨k, v⟩ := e
    rw [decodedMembers]
    split
    · exact ih
    · rename_i hk
      rw [List.map_cons, List.nodup_cons]
      exact ⟨fun hmem => hk (decodedMembers_subset rest hmem), ih⟩

mutual

theorem decoded_wellFormed : ∀ v : Json, (decoded v).WellFormed
  | .null => .null
  | .bool b => .bool b
  | .number literal => .number literal
  | .string s => .string s
  | .array elements => .array _ (decodedElements_wellFormed elements)
  | .object members =>
    .object _ (nodup_decodedMembers members) (decodedMembers_wellFormed members)

theorem decodedElements_wellFormed : ∀ (vs : List Json), ∀ v ∈ decodedElements vs, v.WellFormed
  | [], _, h => absurd h List.not_mem_nil
  | u :: rest, v, h => by
    rcases List.mem_cons.mp h with rfl | h
    · exact decoded_wellFormed u
    · exact decodedElements_wellFormed rest v h

theorem decodedMembers_wellFormed :
    ∀ (ms : List (GoString × Json)), ∀ e ∈ decodedMembers ms, e.2.WellFormed
  | [], _, h => absurd h List.not_mem_nil
  | (k, u) :: rest, e, h => by
    rw [decodedMembers] at h
    split at h
    · exact decodedMembers_wellFormed rest e h
    · rcases List.mem_cons.mp h with rfl | h
      · exact decoded_wellFormed u
      · exact decodedMembers_wellFormed rest e h

end

/-- Where no member is named twice nothing is dropped. -/
theorem decoded_eq {v : Json} (h : v.WellFormed) : decoded v = v := by
  induction h with
  | null | bool | number | string => rfl
  | array elements h ih =>
    clear h
    have hall : decodedElements elements = elements := by
      induction elements with
      | nil => rfl
      | cons u rest ihrest =>
        rw [List.forall_mem_cons] at ih
        rw [decodedElements, ih.1, ihrest ih.2]
    rw [decoded, hall]
  | object members hn h ih =>
    clear h
    have hall : decodedMembers members = members := by
      induction members with
      | nil => rfl
      | cons e rest ihrest =>
        obtain ⟨k, u⟩ := e
        rw [List.map_cons, List.nodup_cons] at hn
        rw [List.forall_mem_cons] at ih
        rw [decodedMembers, if_neg hn.1, ih.1, ihrest hn.2 ih.2]
    rw [decoded, hall]

end Selebrow.Json
