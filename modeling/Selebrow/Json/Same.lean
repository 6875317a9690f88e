import Mathlib.Data.List.Nodup
import Mathlib.Data.Option.Basic
import Selebrow.GoMap
import Selebrow.Json
import Selebrow.Json.Number

/-!
# Paths into JSON values, and values that mean the same

Two JSON values mean the same when each path leads to the same kind of thing in both:
the order of the members of an object and the way a number is written do not matter.
-/

namespace Selebrow.Json

inductive Step
  | key (k : GoString)
  | index (i : Nat)
deriving DecidableEq

def child : Json → Step → Option Json
  | .object members, .key k => members.lookup k
  | .array elements, .index i => elements[i]?
  | _, _ => none

def get : Json → List Step → Option Json
  | v, [] => some v
  | v, s :: p => (v.child s).bind fun c => c.get p

@[simp] theorem get_nil (v : Json) : v.get [] = some v := rfl

@[simp] theorem get_cons (v : Json) (s : Step) (p : List Step) :
    v.get (s :: p) = (v.child s).bind fun c => c.get p := rfl

/-- What a value is, without what it contains. -/
inductive Kind (ν : Type)
  | null
  | bool (b : Bool)
  | number (n : ν)
  | string (s : GoString)
  | array (length : Nat)
  | object
deriving DecidableEq

def Kind.map {ν ν' : Type} (f : ν → ν') : Kind ν → Kind ν'
  | .null => .null
  | .bool b => .bool b
  | .number n => .number (f n)
  | .string s => .string s
  | .array length => .array length
  | .object => .object

def shape : Json → Kind GoString
  | .null => .null
  | .bool b => .bool b
  | .number literal => .number literal
  | .string s => .string s
  | .array elements => .array elements.length
  | .object _ => .object

def kind (v : Json) : Kind ℚ := v.shape.map numberValue

def SameValue (a b : Json) : Prop := ∀ p, (a.get p).map kind = (b.get p).map kind

/-- The same up to the order of members. -/
def SameTree (a b : Json) : Prop := ∀ p, (a.get p).map shape = (b.get p).map shape

theorem get_append (v : Json) (p p' : List Step) :
    v.get (p ++ p') = (v.get p).bind fun c => c.get p' := by
  induction p generalizing v with
  | nil => rfl
  | cons s p ih =>
    rw [List.cons_append, get_cons, get_cons]
    cases v.child s with
    | none => rfl
    | some c => exact ih c

/-! ## Rules for the same value -/

variable {a b v w : Json} {ms ms' : List (GoString × Json)} {vs vs' : List Json}

@[simp] theorem SameValue.refl (v : Json) : v.SameValue v := fun _ => rfl

theorem SameValue.symm (h : a.SameValue b) : b.SameValue a := fun p => (h p).symm

theorem SameValue.trans (h : a.SameValue b) (h' : b.SameValue v) : a.SameValue v :=
  fun p => (h p).trans (h' p)

/-- Both are missing, or both are there and mean the same. -/
def SameAt (x y : Option Json) : Prop :=
  ∀ p, (x.bind fun c => c.get p).map kind = (y.bind fun c => c.get p).map kind

@[simp] theorem sameAt_some : SameAt (some a) (some b) ↔ a.SameValue b := Iff.rfl

@[simp] theorem sameAt_none : SameAt none none := fun _ => rfl

@[simp] theorem not_sameAt_none_some : ¬ SameAt none (some v) := fun h => nomatch h []

@[simp] theorem not_sameAt_some_none : ¬ SameAt (some v) none := fun h => nomatch h []

theorem SameAt.isSome_eq {x y : Option Json} (h : SameAt x y) : x.isSome = y.isSome := by
  cases x with
  | none =>
    cases y with
    | none => rfl
    | some v => exact absurd h not_sameAt_none_some
  | some u =>
    cases y with
    | none => exact absurd h not_sameAt_some_none
    | some v => rfl

theorem sameValue_iff_child :
    a.SameValue b ↔ a.kind = b.kind ∧ ∀ s, SameAt (a.child s) (b.child s) := by
  constructor
  · intro h
    exact ⟨Option.some.inj (h []), fun s p => h (s :: p)⟩
  · rintro ⟨hk, hc⟩ p
    cases p with
    | nil =>
      rw [get_nil, get_nil, Option.map_some, Option.map_some, hk]
    | cons s p => exact hc s p

theorem sameValue_object :
    (Json.object ms).SameValue (.object ms') ↔ ∀ k, SameAt (ms.lookup k) (ms'.lookup k) := by
  rw [sameValue_iff_child]
  constructor
  · rintro ⟨_, h⟩ k
    exact h (.key k)
  · intro h
    refine ⟨rfl, fun s => ?_⟩
    cases s with
    | key k => exact h k
    | index i => exact sameAt_none

theorem child_object (ms : List (GoString × Json)) (k : GoString) :
    (Json.object ms).child (.key k) = ms.lookup k := rfl

/-- Objects with the same members. -/
theorem sameTree_of_lookup (h : ∀ k, ms.lookup k = ms'.lookup k) :
    (Json.object ms).SameTree (.object ms') := by
  intro p
  cases p with
  | nil => rfl
  | cons s p =>
    cases s with
    | key k => rw [get_cons, get_cons, child_object, child_object, h k]
    | index i => rfl

theorem SameTree.sameValue (h : a.SameTree b) : a.SameValue b := by
  intro p
  have hp := congrArg (Option.map (Kind.map numberValue)) (h p)
  rw [Option.map_map, Option.map_map] at hp
  exact hp

theorem sameValue_array :
    (Json.array vs).SameValue (.array vs') ↔ ∀ i : Nat, SameAt vs[i]? vs'[i]? := by
  rw [sameValue_iff_child]
  constructor
  · rintro ⟨_, h⟩ i
    exact h (.index i)
  · intro h
    constructor
    · have hlen : vs.length = vs'.length := by
        rcases Nat.lt_trichotomy vs.length vs'.length with hlt | heq | hgt
        · have := (h vs.length).isSome_eq
          simp [hlt] at this
        · exact heq
        · have := (h vs'.length).isSome_eq
          simp [hgt] at this
      show (Kind.array vs.length : Kind ℚ) = Kind.array vs'.length
      rw [hlen]
    · intro s
      cases s with
      | key k => exact sameAt_none
      | index i => exact h i

/-! ## Writing numbers anew -/

mutual

def mapNumbers (f : GoString → GoString) : Json → Json
  | .null => .null
  | .bool b => .bool b
  | .number literal => .number (f literal)
  | .string s => .string s
  | .array elements => .array (mapElements f elements)
  | .object members => .object (mapMembers f members)

def mapElements (f : GoString → GoString) : List Json → List Json
  | [] => []
  | v :: rest => mapNumbers f v :: mapElements f rest

def mapMembers (f : GoString → GoString) : List (GoString × Json) → List (GoString × Json)
  | [] => []
  | (k, v) :: rest => (k, mapNumbers f v) :: mapMembers f rest

end

section mapNumbers

variable (f : GoString → GoString)

@[simp] theorem mapNumbers_object (ms : List (GoString × Json)) :
    mapNumbers f (.object ms) = .object (mapMembers f ms) := rfl

theorem getElem?_mapElements (vs : List Json) (i : Nat) :
    (mapElements f vs)[i]? = vs[i]?.map (mapNumbers f) := by
  induction vs generalizing i with
  | nil => rfl
  | cons v rest ih =>
    cases i with
    | zero => rfl
    | succ i => exact ih i

theorem length_mapElements (vs : List Json) : (mapElements f vs).length = vs.length := by
  induction vs with
  | nil => rfl
  | cons v rest ih => exact congrArg (· + 1) ih

theorem lookup_mapMembers (ms : List (GoString × Json)) (k : GoString) :
    (mapMembers f ms).lookup k = (ms.lookup k).map (mapNumbers f) := by
  induction ms with
  | nil => rfl
  | cons e rest ih =>
    obtain ⟨k', v⟩ := e
    rw [mapMembers, List.lookup_cons, List.lookup_cons]
    split
    · rfl
    · exact ih

theorem child_mapNumbers (v : Json) (s : Step) :
    (mapNumbers f v).child s = (v.child s).map (mapNumbers f) := by
  cases v with
  | null => rfl
  | bool b => rfl
  | number literal => rfl
  | string s' => rfl
  | array vs =>
    cases s with
    | key k => rfl
    | index i => exact getElem?_mapElements f vs i
  | object ms =>
    cases s with
    | key k => exact lookup_mapMembers f ms k
    | index i => rfl

theorem get_mapNumbers (v : Json) (p : List Step) :
    (mapNumbers f v).get p = (v.get p).map (mapNumbers f) := by
  induction p generalizing v with
  | nil => rfl
  | cons s p ih =>
    rw [get_cons, get_cons, child_mapNumbers]
    cases v.child s with
    | none => rfl
    | some c => exact ih c

theorem shape_mapNumbers (v : Json) : (mapNumbers f v).shape = v.shape.map f := by
  cases v with
  | array vs => exact congrArg Kind.array (length_mapElements f vs)
  | null | bool | number | string | object => rfl

theorem map_kind_mapNumbers (v : Json) (p : List Step) :
    ((mapNumbers f v).get p).map kind =
      ((v.get p).map shape).map fun s => (s.map f).map numberValue := by
  rw [get_mapNumbers]
  cases v.get p with
  | none => rfl
  | some c =>
    show some ((mapNumbers f c).shape.map numberValue) = _
    rw [shape_mapNumbers]
    rfl

theorem SameTree.mapNumbers (h : a.SameTree b) :
    (mapNumbers f a).SameValue v ↔ (mapNumbers f b).SameValue v := by
  have hp : ∀ p, ((Json.mapNumbers f a).get p).map kind = ((Json.mapNumbers f b).get p).map kind := by
    intro p
    rw [map_kind_mapNumbers, map_kind_mapNumbers, h p]
  constructor
  · intro hs p
    rw [← hp p]
    exact hs p
  · intro hs p
    rw [hp p]
    exact hs p

/-- A value whose numbers are written anew is the same exactly when each number is. -/
theorem sameValue_mapNumbers {v : Json} :
    (mapNumbers f v).SameValue v ↔
      ∀ p literal, v.get p = some (.number literal) →
        numberValue (f literal) = numberValue literal := by
  constructor
  · intro h p literal hp
    have hk := h p
    rw [get_mapNumbers, hp] at hk
    exact Kind.number.inj (Option.some.inj hk)
  · intro h p
    rw [map_kind_mapNumbers]
    cases hp : v.get p with
    | none => rfl
    | some c =>
      cases c with
      | number literal => exact congrArg (fun q => some (Kind.number q)) (h p literal hp)
      | null | bool | string | array | object => rfl

end mapNumbers

/-! ## Setting a member -/

def setMember (k : GoString) (v : Json) : Json → Json
  | .object members => .object (insertKey members k v)
  | _ => .object [(k, v)]

/-- The value with the member that the names lead to set; what is missing on the way is
made. -/
def setAt : List GoString → Json → Json → Json
  | [], v, _ => v
  | k :: p, v, b => setMember k (setAt p v ((b.child (.key k)).getD .null)) b

theorem lookup_insertKey (ms : List (GoString × Json)) (k : GoString) (v : Json) (k' : GoString) :
    (insertKey ms k v).lookup k' = if k' = k then some v else ms.lookup k' := by
  have hbeq : (instBEqOfDecidableEq : BEq GoString) = List.instBEq := lawful_beq_subsingleton _ _
  rw [insertKey, List.lookup_cons]
  by_cases hk : k' = k
  · rw [if_pos hk, beq_iff_eq.mpr hk]
  · rw [if_neg hk, beq_eq_false_iff_ne.mpr hk]
    have hdel := GoMap.lookup_deleteKey_ne (l := ms) hk
    rw [hbeq] at hdel
    exact hdel

theorem child_setMember (k : GoString) (v b : Json) (k' : GoString) :
    (setMember k v b).child (.key k') = if k' = k then some v else b.child (.key k') := by
  cases b with
  | object ms => exact lookup_insertKey ms k v k'
  | null | bool | number | string | array =>
    show [(k, v)].lookup k' = _
    rw [List.lookup_cons]
    by_cases hk : k' = k
    · rw [if_pos hk, beq_iff_eq.mpr hk]
    · rw [if_neg hk, beq_eq_false_iff_ne.mpr hk]
      rfl

theorem setMember_object (k : GoString) (v b : Json) : ∃ ms, setMember k v b = .object ms := by
  cases b <;> exact ⟨_, rfl⟩

/-- An object against a value with a member set. -/
theorem sameValue_setMember {k : GoString} :
    (Json.object ms).SameValue (setMember k v b) ↔
      SameAt (ms.lookup k) (some v) ∧ ∀ k', k' ≠ k → SameAt (ms.lookup k') (b.child (.key k')) := by
  obtain ⟨ms', hms'⟩ := setMember_object k v b
  have hlookup : ∀ k', ms'.lookup k' = if k' = k then some v else b.child (.key k') := by
    intro k'
    rw [← child_setMember, hms']
    rfl
  rw [hms', sameValue_object]
  constructor
  · intro h
    constructor
    · have hk := h k
      rw [hlookup, if_pos rfl] at hk
      exact hk
    · intro k' hne
      have hk := h k'
      rw [hlookup, if_neg hne] at hk
      exact hk
  · rintro ⟨hset, hrest⟩ k'
    rw [hlookup]
    by_cases hk : k' = k
    · rw [if_pos hk, hk]
      exact hset
    · rw [if_neg hk]
      exact hrest k' hk

/-- The object has one member, the one that is set. -/
theorem sameValue_setMember_one {k : GoString} :
    (Json.object [(k, a)]).SameValue (setMember k v b) ↔
      a.SameValue v ∧ ∀ k', (b.child (.key k')).isSome = true → k' = k := by
  rw [sameValue_setMember, List.lookup_cons, beq_self_eq_true, sameAt_some]
  apply and_congr_right
  intro _
  constructor
  · intro h k' hsome
    by_contra hk
    have hmember := (h k' hk).isSome_eq
    rw [List.lookup_cons, beq_eq_false_iff_ne.mpr hk, hsome] at hmember
    contradiction
  · intro h k' hk
    have hnone : b.child (.key k') = none := by
      rw [← Option.not_isSome_iff_eq_none]
      exact fun hsome => hk (h k' hsome)
    rw [List.lookup_cons, beq_eq_false_iff_ne.mpr hk, hnone]
    exact sameAt_none

/-- The object has at most two members, one of them the member that is set. -/
theorem sameValue_setMember_two {k k₂ : GoString} (hne : k₂ ≠ k)
    (honly : ∀ k', (ms.lookup k').isSome = true → k' = k ∨ k' = k₂) :
    (Json.object ms).SameValue (setMember k v b) ↔
      SameAt (ms.lookup k) (some v) ∧ SameAt (ms.lookup k₂) (b.child (.key k₂)) ∧
        ∀ k', (b.child (.key k')).isSome = true → k' = k ∨ k' = k₂ := by
  rw [sameValue_setMember]
  constructor
  · rintro ⟨hset, hrest⟩
    refine ⟨hset, hrest k₂ hne, fun k' hk' => ?_⟩
    by_cases hk : k' = k
    · exact .inl hk
    · apply honly
      rw [(hrest k' hk).isSome_eq]
      exact hk'
  · rintro ⟨hset, hsecond, hnames⟩
    refine ⟨hset, fun k' hk => ?_⟩
    by_cases hk₂ : k' = k₂
    · rw [hk₂]
      exact hsecond
    · have hms : ms.lookup k' = none := by
        rw [← Option.not_isSome_iff_eq_none]
        exact fun hsome => (honly k' hsome).elim hk hk₂
      have hb : b.child (.key k') = none := by
        rw [← Option.not_isSome_iff_eq_none]
        exact fun hsome => (hnames k' hsome).elim hk hk₂
      rw [hms, hb]
      exact sameAt_none

/-! ## Nesting -/

mutual

def depth : Json → Nat
  | .array elements => depthElements elements + 1
  | .object members => depthMembers members + 1
  | .null | .bool _ | .number _ | .string _ => 0

def depthElements : List Json → Nat
  | [] => 0
  | v :: rest => max (depth v) (depthElements rest)

def depthMembers : List (GoString × Json) → Nat
  | [] => 0
  | (_, v) :: rest => max (depth v) (depthMembers rest)

end

theorem depth_le_elements (h : v ∈ vs) : v.depth ≤ depthElements vs := by
  induction vs with
  | nil => contradiction
  | cons u rest ih =>
    rw [depthElements]
    rcases List.mem_cons.mp h with rfl | h
    · exact Nat.le_max_left _ _
    · exact Nat.le_trans (ih h) (Nat.le_max_right _ _)

theorem depth_le_members {k : GoString} (h : ms.lookup k = some v) :
    v.depth ≤ depthMembers ms := by
  induction ms with
  | nil => contradiction
  | cons e rest ih =>
    obtain ⟨k', u⟩ := e
    rw [depthMembers]
    rw [List.lookup_cons] at h
    split at h
    · cases h
      exact Nat.le_max_left _ _
    · exact Nat.le_trans (ih h) (Nat.le_max_right _ _)

/-- The names in an object differ, as at every depth. -/
inductive WellFormed : Json → Prop
  | null : WellFormed .null
  | bool (b : Bool) : WellFormed (.bool b)
  | number (literal : GoString) : WellFormed (.number literal)
  | string (s : GoString) : WellFormed (.string s)
  | array (elements : List Json) (h : ∀ v ∈ elements, WellFormed v) : WellFormed (.array elements)
  | object (members : List (GoString × Json)) (hn : (members.map Prod.fst).Nodup)
      (h : ∀ e ∈ members, WellFormed e.2) : WellFormed (.object members)

end Selebrow.Json
