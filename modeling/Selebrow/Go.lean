/-!
# Values of the Go runtime

A Go string is a sequence of bytes, compared and sorted as such; nothing makes it
valid UTF-8.  A context that is done has one of two errors.  A Go map whose entries
are visited is a list of entries, in no particular order, with one entry for a key.
-/

namespace Selebrow

abbrev GoString := List UInt8

instance lawfulBEq_goString : LawfulBEq GoString := inferInstance

/-- The bytes of a string literal. -/
def bytes (s : String) : GoString := s.toList.flatMap String.utf8EncodeChar

/-- `strings.SplitN(s, sep, 2)`: what is before the separator, and behind it if there is one. -/
def splitAt (sep : UInt8) (s : GoString) : GoString × Option GoString :=
  match s.dropWhile (· != sep) with
  | [] => (s, none)
  | _ :: rest => (s.takeWhile (· != sep), some rest)

/-- The first part has no separator in it, whether or not there is a second one. -/
theorem notMem_splitAt (sep : UInt8) (s : GoString) : sep ∉ (splitAt sep s).1 := by
  have htake : sep ∉ s.takeWhile (· != sep) := by
    intro h
    have hne := List.all_eq_true.mp List.all_takeWhile sep h
    rw [bne_self_eq_false] at hne
    contradiction
  rw [splitAt]
  split
  · rename_i hnil
    have hs := List.takeWhile_append_dropWhile (p := (· != sep)) (l := s)
    rw [hnil, List.append_nil] at hs
    rw [hs] at htake
    exact htake
  · exact htake

theorem splitAt_fst (sep : UInt8) (s : GoString) : (splitAt sep s).1 = s.takeWhile (· != sep) := by
  rw [splitAt]
  split
  · rename_i hnil
    have hs := List.takeWhile_append_dropWhile (p := (· != sep)) (l := s)
    rw [hnil, List.append_nil] at hs
    exact hs.symm
  · rfl

/-- What is split can be put together. -/
theorem append_of_splitAt {sep : UInt8} {s v : GoString} (h : (splitAt sep s).2 = some v) :
    s = (splitAt sep s).1 ++ sep :: v := by
  have hs := List.takeWhile_append_dropWhile (p := (· != sep)) (l := s)
  rw [splitAt_fst]
  rw [splitAt] at h
  split at h
  · contradiction
  · rename_i b rest hdrop
    have hb : b = sep := by
      have hhead := List.head?_dropWhile_not (· != sep) s
      rw [hdrop] at hhead
      simpa using hhead
    rw [Option.some.injEq] at h
    rw [hdrop, hb, h] at hs
    exact hs.symm

theorem isSome_splitAt {sep : UInt8} {s : GoString} (h : sep ∈ s) :
    (splitAt sep s).2.isSome = true := by
  rw [splitAt]
  split
  · rename_i hnil
    have hs := List.takeWhile_append_dropWhile (p := (· != sep)) (l := s)
    rw [hnil, List.append_nil, ← splitAt_fst] at hs
    rw [← hs] at h
    exact absurd h (notMem_splitAt sep s)
  · rfl

/-- The parts between the separators have none in them. -/
theorem notMem_splitOn {sep : UInt8} {s p : GoString} (h : p ∈ s.splitOn sep) : sep ∉ p := by
  induction s generalizing p with
  | nil =>
    rw [List.splitOn_nil, List.mem_singleton] at h
    rw [h]
    exact List.not_mem_nil
  | cons b s ih =>
    rw [List.splitOn_cons_eq_if_modifyHead] at h
    split at h
    · rcases List.mem_cons.mp h with rfl | h
      · exact List.not_mem_nil
      · exact ih h
    · rename_i hb
      cases hs : s.splitOn sep with
      | nil => exact absurd hs (List.splitOn_ne_nil sep s)
      | cons q rest =>
        rw [hs] at h ih
        rcases List.mem_cons.mp h with rfl | h
        · intro hmem
          rcases List.mem_cons.mp hmem with rfl | hmem
          · exact hb (beq_self_eq_true sep)
          · exact ih List.mem_cons_self hmem
        · exact ih (List.mem_cons_of_mem q h)

/-- Before the first separator, text without one can be put. -/
theorem splitAt_append_left {sep : UInt8} {pre : GoString} (h : sep ∉ pre) (s : GoString) :
    splitAt sep (pre ++ s) = (pre ++ (splitAt sep s).1, (splitAt sep s).2) := by
  have hne : ∀ b ∈ pre, (b != sep) = true := by
    intro b hb
    rw [bne_iff_ne]
    intro hsep
    exact h (hsep ▸ hb)
  rw [splitAt, splitAt, List.dropWhile_append_of_pos hne, List.takeWhile_append_of_pos hne]
  cases s.dropWhile (· != sep) <;> rfl

theorem splitAt_append {sep : UInt8} {k : GoString} (h : sep ∉ k) (v : GoString) :
    splitAt sep (k ++ sep :: v) = (k, some v) := by
  rw [splitAt_append_left h]
  simp [splitAt]

/-- `ctx.Err()` of a context that is done. -/
inductive CtxErr
  | deadlineExceeded
  | canceled
deriving DecidableEq, Repr

def CtxErr.text : CtxErr → String
  | .deadlineExceeded => "context deadline exceeded"
  | .canceled => "context canceled"

/-- A block that succeeds has come past its first line. -/
theorem ok_of_bind {ε α β : Type} {r : Except ε α} {f : α → Except ε β} {b : β}
    (h : r >>= f = .ok b) : ∃ a, r = .ok a ∧ f a = .ok b := by
  cases r with
  | error err => contradiction
  | ok a => exact ⟨a, rfl, h⟩

theorem ok_of_map {ε α β : Type} {r : Except ε α} {f : α → β} {b : β} (h : r.map f = .ok b) :
    ∃ a, r = .ok a ∧ f a = b := by
  cases r with
  | error err => contradiction
  | ok a => exact ⟨a, rfl, Except.ok.inj h⟩

/-- What a goroutine panics with. -/
inductive Panic
  | nilPointer
  | message (text : GoString)
deriving DecidableEq, Repr

/-- Code that may panic comes to its end. -/
def Returns {α : Type} (r : Except Panic α) : Prop := ∃ a, r = .ok a

section Returns

variable {α β : Type}

theorem returns_pure (a : α) : Returns (pure a : Except Panic α) := ⟨a, rfl⟩

theorem returns_bind {r : Except Panic α} {f : α → Except Panic β} :
    Returns (r >>= f) ↔ ∃ a, r = .ok a ∧ Returns (f a) := by
  cases r with
  | error p =>
    constructor
    · rintro ⟨b, hb⟩
      contradiction
    · rintro ⟨a, ha, _⟩
      contradiction
  | ok a =>
    constructor
    · intro h
      exact ⟨a, rfl, h⟩
    · rintro ⟨a', ha, h⟩
      cases ha
      exact h

theorem returns_map {r : Except Panic α} {f : α → β} : Returns (r.map f) ↔ Returns r := by
  cases r with
  | error p =>
    constructor
    · rintro ⟨b, hb⟩
      contradiction
    · rintro ⟨a, ha⟩
      contradiction
  | ok a => exact ⟨fun _ => ⟨a, rfl⟩, fun _ => ⟨f a, rfl⟩⟩

/-- A loop over a list returns when its body does for every element. -/
theorem returns_mapM {f : α → Except Panic β} {l : List α} :
    Returns (l.mapM f) ↔ ∀ a ∈ l, Returns (f a) := by
  induction l with
  | nil => simp [returns_pure]
  | cons a l ih =>
    simp only [List.mapM_cons, returns_bind, returns_pure, and_true, List.forall_mem_cons]
    rw [← ih]
    constructor
    · rintro ⟨b, hb, rest, hrest⟩
      exact ⟨⟨b, hb⟩, ⟨rest, hrest⟩⟩
    · rintro ⟨⟨b, hb⟩, ⟨rest, hrest⟩⟩
      exact ⟨b, hb, rest, hrest⟩

end Returns

section Map

variable {κ ν : Type} [DecidableEq κ]

/-- `delete(m, k)` -/
def deleteKey (m : List (κ × ν)) (k : κ) : List (κ × ν) := m.filter fun e => e.1 != k

/-- `m[k] = v` -/
def insertKey (m : List (κ × ν)) (k : κ) (v : ν) : List (κ × ν) := (k, v) :: deleteKey m k

/-- `_, ok := m[k]` -/
def hasKey (m : List (κ × ν)) (k : κ) : Bool := m.any fun e => e.1 == k

theorem mem_deleteKey {m : List (κ × ν)} {k : κ} {e : κ × ν} :
    e ∈ deleteKey m k ↔ e ∈ m ∧ e.1 ≠ k := by
  rw [deleteKey, List.mem_filter, bne_iff_ne]

theorem hasKey_iff {m : List (κ × ν)} {k : κ} : hasKey m k = true ↔ ∃ v, (k, v) ∈ m := by
  rw [hasKey, List.any_eq_true]
  constructor
  · rintro ⟨e, he, hk⟩
    rw [beq_iff_eq] at hk
    exact ⟨e.2, hk ▸ he⟩
  · rintro ⟨v, hv⟩
    exact ⟨(k, v), hv, beq_self_eq_true k⟩

theorem deleteKey_cons (e : κ × ν) (m : List (κ × ν)) (k : κ) :
    deleteKey (e :: m) k = if e.1 = k then deleteKey m k else e :: deleteKey m k := by
  rw [deleteKey, List.filter_cons, deleteKey]
  by_cases he : e.1 = k <;> simp [he]

theorem deleteKey_eq_self {m : List (κ × ν)} {k : κ} (h : ∀ v, (k, v) ∉ m) :
    deleteKey m k = m := by
  rw [deleteKey, List.filter_eq_self]
  intro e he
  rw [bne_iff_ne]
  intro hk
  exact h e.2 (hk ▸ he)

theorem nodup_deleteKey {m : List (κ × ν)} (k : κ) (h : (m.map Prod.fst).Nodup) :
    ((deleteKey m k).map Prod.fst).Nodup :=
  h.sublist (List.filter_sublist.map Prod.fst)

theorem nodup_insertKey {m : List (κ × ν)} (k : κ) (v : ν) (h : (m.map Prod.fst).Nodup) :
    ((insertKey m k v).map Prod.fst).Nodup := by
  rw [insertKey, List.map_cons, List.nodup_cons]
  refine ⟨fun hmem => ?_, nodup_deleteKey k h⟩
  obtain ⟨e, he, hk⟩ := List.mem_map.mp hmem
  exact (mem_deleteKey.mp he).2 hk

theorem length_deleteKey_le (m : List (κ × ν)) (k : κ) : (deleteKey m k).length ≤ m.length :=
  List.length_filter_le _ m

theorem length_insertKey_le (m : List (κ × ν)) (k : κ) (v : ν) :
    (insertKey m k v).length ≤ m.length + 1 :=
  Nat.succ_le_succ (length_deleteKey_le m k)

omit [DecidableEq κ] in
/-- A key has one value. -/
theorem value_unique {m : List (κ × ν)} (h : (m.map Prod.fst).Nodup) {k : κ} {v w : ν}
    (hv : (k, v) ∈ m) (hw : (k, w) ∈ m) : v = w := by
  induction m with
  | nil => simp at hv
  | cons e m ih =>
    rw [List.map_cons, List.nodup_cons] at h
    have hnot : ∀ u, (k, u) ∈ m → e.1 ≠ k := fun u hu he =>
      h.1 (he ▸ List.mem_map_of_mem (f := Prod.fst) hu)
    rcases List.mem_cons.mp hv with hv | hv <;> rcases List.mem_cons.mp hw with hw | hw
    · exact (Prod.mk.inj (hv.trans hw.symm)).2
    · exact absurd (congrArg Prod.fst hv).symm (hnot w hw)
    · exact absurd (congrArg Prod.fst hw).symm (hnot v hv)
    · exact ih h.2 hv hw

end Map

end Selebrow
