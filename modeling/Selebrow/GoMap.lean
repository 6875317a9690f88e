import Mathlib.Logic.Basic
import Selebrow.Go

/-!
# Go maps

A map is its entries, in no particular order, with one entry for a key.  The rules say
what `lookup` finds after an insertion and after `maps.Copy`.
-/

namespace Selebrow

structure GoMap (κ ν : Type) where
  entries : List (κ × ν)
  nodup : (entries.map Prod.fst).Nodup

namespace GoMap

variable {κ ν ν' ε : Type}

def empty : GoMap κ ν := ⟨[], List.nodup_nil⟩

def keys (m : GoMap κ ν) : List κ := m.entries.map Prod.fst

theorem mapM_cons_ok {f : ν → Except ε ν'} {e : κ × ν} {l : List (κ × ν)} {l' : List (κ × ν')}
    (h : ((e :: l).mapM fun e => (f e.2).map fun v => (e.1, v)) = .ok l') :
    ∃ v rest, f e.2 = .ok v ∧ (l.mapM fun e => (f e.2).map fun v => (e.1, v)) = .ok rest ∧
      l' = (e.1, v) :: rest := by
  rw [List.mapM_cons] at h
  cases hv : f e.2 with
  | error err =>
    rw [hv] at h
    contradiction
  | ok v =>
    cases hl : l.mapM fun e => (f e.2).map fun v => (e.1, v) with
    | error err =>
      rw [hv, hl] at h
      contradiction
    | ok rest =>
      rw [hv, hl] at h
      cases h
      exact ⟨v, rest, rfl, rfl, rfl⟩

theorem keys_mapM {f : ν → Except ε ν'} {l : List (κ × ν)} {l' : List (κ × ν')}
    (h : (l.mapM fun e => (f e.2).map fun v => (e.1, v)) = .ok l') :
    l'.map Prod.fst = l.map Prod.fst := by
  induction l generalizing l' with
  | nil =>
    rw [List.mapM_nil] at h
    cases h
    rfl
  | cons e l ih =>
    obtain ⟨v, rest, _, hl, rfl⟩ := mapM_cons_ok h
    rw [List.map_cons, List.map_cons, ih hl]

/-- A loop over the values that replaces each of them, and fails at the first that it
cannot replace. -/
def traverse (f : ν → Except ε ν') (m : GoMap κ ν) : Except ε (GoMap κ ν') :=
  match h : m.entries.mapM fun e => (f e.2).map fun v => (e.1, v) with
  | .ok l => .ok ⟨l, by rw [keys_mapM h]; exact m.nodup⟩
  | .error err => .error err

/-- A loop that fills another map with a value for each one. -/
def map (f : ν → ν') (m : GoMap κ ν) : GoMap κ ν' :=
  ⟨m.entries.map fun e => (e.1, f e.2), by rw [List.map_map]; exact m.nodup⟩

variable [DecidableEq κ]

/-- `v, ok := m[k]` -/
def lookup (m : GoMap κ ν) (k : κ) : Option ν := m.entries.lookup k

/-- `m[k] = v` -/
def insert (m : GoMap κ ν) (k : κ) (v : ν) : GoMap κ ν :=
  ⟨insertKey m.entries k v, nodup_insertKey k v m.nodup⟩

/-- `delete(m, k)` -/
def delete (m : GoMap κ ν) (k : κ) : GoMap κ ν :=
  ⟨deleteKey m.entries k, nodup_deleteKey k m.nodup⟩

/-- `maps.Copy(m, src)` -/
def copy (m src : GoMap κ ν) : GoMap κ ν :=
  src.entries.foldl (fun m e => m.insert e.1 e.2) m

/-- The map with these entries; a later entry of a key wins. -/
def ofList (l : List (κ × ν)) : GoMap κ ν := l.foldl (fun m e => m.insert e.1 e.2) empty

theorem lookup_eq_none {l : List (κ × ν)} {k : κ} (h : k ∉ l.map Prod.fst) : l.lookup k = none := by
  rw [List.lookup_eq_none_iff]
  intro e he
  rw [bne_iff_ne]
  rintro rfl
  exact h (List.mem_map_of_mem he)

theorem lookup_deleteKey_ne {l : List (κ × ν)} {k k' : κ} (h : k' ≠ k) :
    (deleteKey l k).lookup k' = l.lookup k' := by
  induction l with
  | nil => rfl
  | cons e l ih =>
    rw [deleteKey_cons, List.lookup_cons]
    by_cases hk : e.1 = k
    · have hne : (k' == e.1) = false := by rw [beq_eq_false_iff_ne, hk]; exact h
      rw [if_pos hk, ih, hne]
    · rw [if_neg hk, List.lookup_cons, ih]

/-- A key that is found, and the rest. -/
theorem perm_of_lookup {l : List (κ × ν)} (hl : (l.map Prod.fst).Nodup) {k : κ} {v : ν}
    (h : l.lookup k = some v) : l.Perm ((k, v) :: deleteKey l k) := by
  induction l with
  | nil => contradiction
  | cons e l ih =>
    rw [List.map_cons, List.nodup_cons] at hl
    rw [List.lookup_cons] at h
    rw [deleteKey_cons]
    by_cases hk : k = e.1
    · rw [beq_iff_eq.mpr hk] at h
      have hrest : deleteKey l k = l := by
        apply deleteKey_eq_self
        intro w hw
        exact hl.1 (hk ▸ List.mem_map_of_mem hw)
      rw [if_pos hk.symm, hrest, hk, ← Option.some.inj h]
    · rw [beq_eq_false_iff_ne.mpr hk] at h
      rw [if_neg (Ne.symm hk)]
      exact ((ih hl.2 h).cons e).trans (List.Perm.swap _ _ _)

theorem lookup_insert (m : GoMap κ ν) (k : κ) (v : ν) (k' : κ) :
    (m.insert k v).lookup k' = if k' = k then some v else m.lookup k' := by
  show ((k, v) :: deleteKey m.entries k).lookup k' = _
  rw [List.lookup_cons]
  by_cases h : k' = k
  · rw [if_pos h, beq_iff_eq.mpr h]
  · rw [if_neg h, beq_eq_false_iff_ne.mpr h]
    exact lookup_deleteKey_ne h

theorem lookup_delete (m : GoMap κ ν) (k k' : κ) :
    (m.delete k).lookup k' = if k' = k then none else m.lookup k' := by
  show (deleteKey m.entries k).lookup k' = _
  by_cases h : k' = k
  · rw [if_pos h]
    apply lookup_eq_none
    intro hmem
    obtain ⟨e, he, hk⟩ := List.mem_map.mp hmem
    exact (mem_deleteKey.mp he).2 (hk.trans h)
  · rw [if_neg h]
    exact lookup_deleteKey_ne h

theorem mem_iff_lookup (m : GoMap κ ν) {k : κ} {v : ν} :
    (k, v) ∈ m.entries ↔ m.lookup k = some v := by
  obtain ⟨l, hl⟩ := m
  show (k, v) ∈ l ↔ l.lookup k = some v
  induction l with
  | nil => simp
  | cons e l ih =>
    rw [List.map_cons, List.nodup_cons] at hl
    rw [List.mem_cons, List.lookup_cons, ih hl.2]
    by_cases hk : k = e.1
    · have hnot : l.lookup k = none := lookup_eq_none (hk ▸ hl.1)
      rw [hnot, beq_iff_eq.mpr hk, hk]
      simp [Prod.ext_iff, eq_comm]
    · rw [beq_eq_false_iff_ne.mpr hk]
      have hne : (k, v) ≠ e := fun h => hk (congrArg Prod.fst h)
      simp [hne]

theorem lookup_foldl_insert {l : List (κ × ν)} (hl : (l.map Prod.fst).Nodup) (m : GoMap κ ν) (k : κ) :
    (l.foldl (fun m e => m.insert e.1 e.2) m).lookup k = (l.lookup k).or (m.lookup k) := by
  induction l generalizing m with
  | nil => rfl
  | cons e l ih =>
    rw [List.map_cons, List.nodup_cons] at hl
    rw [List.foldl_cons, ih hl.2, lookup_insert, List.lookup_cons]
    by_cases hk : k = e.1
    · have hnot : l.lookup k = none := lookup_eq_none (hk ▸ hl.1)
      rw [hnot, if_pos hk, beq_iff_eq.mpr hk]
      rfl
    · rw [if_neg hk, beq_eq_false_iff_ne.mpr hk]

/-- After a copy the source's entries are there, and the others of the target. -/
theorem lookup_copy (m src : GoMap κ ν) (k : κ) :
    (m.copy src).lookup k = (src.lookup k).or (m.lookup k) :=
  lookup_foldl_insert src.nodup m k

theorem mem_keys_iff (m : GoMap κ ν) {k : κ} : k ∈ m.keys ↔ (m.lookup k).isSome = true := by
  rw [Option.isSome_iff_exists, keys, List.mem_map]
  constructor
  · rintro ⟨⟨_, v⟩, he, rfl⟩
    exact ⟨v, (mem_iff_lookup m).mp he⟩
  · rintro ⟨v, hv⟩
    exact ⟨(k, v), (mem_iff_lookup m).mpr hv, rfl⟩

/-- Maps that have a value at the same keys. -/
theorem keys_perm {m : GoMap κ ν} {m' : GoMap κ ν'}
    (h : ∀ k, (m.lookup k).isSome = (m'.lookup k).isSome) : m.keys.Perm m'.keys := by
  apply (List.perm_ext_iff_of_nodup m.nodup m'.nodup).mpr
  intro k
  show k ∈ m.keys ↔ k ∈ m'.keys
  rw [mem_keys_iff, mem_keys_iff, h]

theorem lookup_mapM {f : ν → Except ε ν'} {l : List (κ × ν)} {l' : List (κ × ν')}
    (h : (l.mapM fun e => (f e.2).map fun v => (e.1, v)) = .ok l') (k : κ) :
    Option.Rel (fun v v' => f v = .ok v') (l.lookup k) (l'.lookup k) := by
  induction l generalizing l' with
  | nil =>
    rw [List.mapM_nil] at h
    cases h
    exact .none
  | cons e l ih =>
    obtain ⟨v, rest, hv, hl, rfl⟩ := mapM_cons_ok h
    rw [List.lookup_cons, List.lookup_cons]
    by_cases hk : k = e.1
    · rw [beq_iff_eq.mpr hk]
      exact .some hv
    · rw [beq_eq_false_iff_ne.mpr hk]
      exact ih hl

theorem lookup_map (f : ν → ν') (m : GoMap κ ν) (k : κ) :
    (m.map f).lookup k = (m.lookup k).map f := by
  show (m.entries.map fun e => (e.1, f e.2)).lookup k = (m.entries.lookup k).map f
  induction m.entries with
  | nil => rfl
  | cons e l ih =>
    rw [List.map_cons, List.lookup_cons, List.lookup_cons, ih]
    cases k == e.1 <;> rfl

/-- A list without two entries for a key, read with any equality test. -/
theorem lookup_ofList_eq [b : BEq κ] [LawfulBEq κ] {l : List (κ × ν)} (hl : (l.map Prod.fst).Nodup)
    (k : κ) : (ofList l).lookup k = l.lookup k := by
  have hbeq : (instBEqOfDecidableEq : BEq κ) = b := lawful_beq_subsingleton _ _
  rw [ofList, lookup_foldl_insert hl, hbeq]
  show (l.lookup k).or none = l.lookup k
  rw [Option.or_none]

theorem lookup_entries [b : BEq κ] [LawfulBEq κ] (m : GoMap κ ν) (k : κ) :
    m.entries.lookup k = m.lookup k := by
  have hbeq : (instBEqOfDecidableEq : BEq κ) = b := lawful_beq_subsingleton _ _
  rw [lookup, hbeq]

theorem lookup_ofList (m : GoMap κ ν) (k : κ) : (ofList m.entries).lookup k = m.lookup k := by
  rw [ofList, lookup_foldl_insert m.nodup]
  show (m.lookup k).or none = m.lookup k
  rw [Option.or_none]

/-- A loop that ends has replaced the value of every key. -/
theorem lookup_traverse {f : ν → Except ε ν'} {m : GoMap κ ν} {m' : GoMap κ ν'}
    (h : m.traverse f = .ok m') (k : κ) :
    Option.Rel (fun v v' => f v = .ok v') (m.lookup k) (m'.lookup k) := by
  rw [traverse] at h
  split at h
  · rename_i l hl
    cases h
    exact lookup_mapM hl k
  · contradiction

omit [DecidableEq κ] in
/-- Two lookups that are related step by step. -/
theorem rel_bind {α α' β β' : Type} {r : α → α' → Prop} {s : β → β' → Prop} {x : Option α}
    {y : Option α'} {f : α → Option β} {g : α' → Option β'} (h : Option.Rel r x y)
    (hfg : ∀ a b, r a b → Option.Rel s (f a) (g b)) : Option.Rel s (x.bind f) (y.bind g) := by
  cases h with
  | none => exact .none
  | some hab => exact hfg _ _ hab

end GoMap

end Selebrow
