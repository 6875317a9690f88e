import Mathlib.Data.List.Induction
import Mathlib.Logic.Function.Basic
import Selebrow.GoMap
import Selebrow.Json.Same

/-!
# Merging maps that are shared

`deepMergeMaps` puts the values of one map into another.  A Go map is a reference: a
nested map that is put into the result stays the map of the document it comes from, and
what is merged into it later shows there too.

The heap has one map for each object of the decoded documents, named by the number of
its document and the keys that lead to it, the last key first, and the map `merged` that
`Merge` makes.
-/

namespace Selebrow.Models

abbrev Values := GoMap GoString Json

inductive Ref
  | merged
  | source (i : Nat) (q : List GoString)
deriving DecidableEq

/-- A value of a `map[string]interface{}`. -/
inductive Val
  | leaf (v : Json)
  | map (a : Ref)

abbrev Cell := GoMap GoString Val

abbrev Heap := Ref → Cell

def Heap.assign (H : Heap) (a : Ref) (k : GoString) (v : Val) : Heap :=
  Function.update H a ((H a).insert k v)

/-- The orders in which `range` visits the entries, one for each map that it is run over,
as `Merge` runs it over none of them twice. -/
structure MapOrder where
  visit : Ref → Cell → List (GoString × Val)
  perm : ∀ a m, (visit a m).Perm m.entries

def mergeEntry (rec : Heap → Ref → Ref → Heap) (dst : Ref) (H : Heap) (e : GoString × Val) : Heap :=
  match e.2, (H dst).lookup e.1 with
  | .map vSrc, some (.map vDst) => (rec H vDst vSrc).assign dst e.1 (.map vDst)
  | _, some _ => H
  | v, none => H.assign dst e.1 v

/-- The calls nest at most as deep as the maps of `src` do, which is the first argument. -/
def deepMergeMaps (order : MapOrder) : Nat → Heap → Ref → Ref → Heap
  | 0, H, _, _ => H
  | n + 1, H, dst, src => (order.visit src (H src)).foldl (mergeEntry (deepMergeMaps order n) dst) H

/-! ## Documents -/

/-- What the keys lead to, the last key first. -/
def atKeys (v : Json) : List GoString → Option Json
  | [] => some v
  | k :: q => (atKeys v q).bind fun c => c.child (.key k)

def isObject : Option Json → Bool
  | some (.object _) => true
  | _ => false

def toVal (i : Nat) (q : List GoString) : Json → Val
  | .object _ => .map (.source i q)
  | v => .leaf v

section

variable (doc : Nat → Json)

def node (i : Nat) (q : List GoString) : Option Json := atKeys (doc i) q

/-- The maps as `json.Unmarshal` makes them. -/
def load : Heap
  | .merged => .empty
  | .source i q =>
    match node doc i q with
    | some (.object members) => .ofList (members.map fun e => (e.1, toVal i (e.1 :: q) e.2))
    | _ => .empty

/-- `Merge` of the documents with the given numbers. -/
def merge (order : MapOrder) (fuel : Nat) (docs : List Nat) : Heap :=
  docs.foldl (fun H i => deepMergeMaps order fuel H .merged (.source i [])) (load doc)

/-! ## Who writes where

The first document with a value at some keys decides what the merged map has there.  If
that is an object, the objects of the other documents are merged into it, and its map,
which belongs to the first document, is the one they are written to. -/

/-- The documents whose objects at these keys are merged. -/
def mergedAt (docs : List Nat) : List GoString → List Nat
  | [] => docs
  | k :: q =>
    match (mergedAt docs q).findSome? fun i => node doc i (k :: q) with
    | some (.object _) => (mergedAt docs q).filter fun i => isObject (node doc i (k :: q))
    | _ => []

/-- The merged value. -/
def valueAt (docs : List Nat) (q : List GoString) (k : GoString) : Option Val :=
  (mergedAt doc docs q).findSome? fun i => (node doc i (k :: q)).map (toVal i (k :: q))

/-- The map that the merged object is. -/
def owner (docs : List Nat) : List GoString → Option Ref
  | [] => some .merged
  | k :: q => (mergedAt doc docs (k :: q)).head?.map fun i => .source i (k :: q)

/-- Document `j`, merged last, has a part in the merged object. -/
def joins (docs : List Nat) (j : Nat) : List GoString → Bool
  | [] => true
  | k :: q =>
    joins docs j q && isObject (node doc j (k :: q)) &&
      (match (mergedAt doc docs q).findSome? fun i => node doc i (k :: q) with
        | some v => isObject (some v)
        | none => true)

end

section

variable {doc : Nat → Json} {docs : List Nat} {i j : Nat} {k : GoString} {q r : List GoString}
  {H H' : Heap} {v : Json}

theorem isObject_iff {x : Option Json} : isObject x = true ↔ ∃ members, x = some (.object members) := by
  constructor
  · intro h
    unfold isObject at h
    split at h
    · exact ⟨_, rfl⟩
    · contradiction
  · rintro ⟨members, rfl⟩
    rfl

theorem isObject_none : isObject none = false := rfl

theorem toVal_of_not_object (h : isObject (some v) = false) : toVal i q v = .leaf v := by
  cases v with
  | object members => contradiction
  | null | bool | number | string | array => rfl

theorem mergedAt_cons_eq (docs : List Nat) (k : GoString) (q : List GoString) :
    mergedAt doc docs (k :: q) =
      if isObject ((mergedAt doc docs q).findSome? fun i => node doc i (k :: q)) then
        (mergedAt doc docs q).filter fun i => isObject (node doc i (k :: q))
      else [] := by
  rw [mergedAt]
  generalize (mergedAt doc docs q).findSome? (fun i => node doc i (k :: q)) = x
  cases x with
  | none => rfl
  | some v => cases v <;> rfl

theorem mergedAt_append (docs : List Nat) (j : Nat) (q : List GoString) :
    mergedAt doc (docs ++ [j]) q =
      mergedAt doc docs q ++ if joins doc docs j q then [j] else [] := by
  induction q with
  | nil => rfl
  | cons k q ih =>
    rw [mergedAt_cons_eq, mergedAt_cons_eq, ih, List.findSome?_append, List.filter_append, joins]
    cases hf : (mergedAt doc docs q).findSome? fun i => node doc i (k :: q) with
    | some v =>
      cases hv : isObject (some v) with
      | true =>
        simp only [Option.some_or, hv, if_true, Bool.and_true]
        cases joins doc docs j q with
        | false => rfl
        | true => cases hj : isObject (node doc j (k :: q)) <;> simp [hj]
      | false => simp [hv]
    | none =>
      have hnone : (mergedAt doc docs q).filter (fun i => isObject (node doc i (k :: q))) = [] := by
        rw [List.filter_eq_nil_iff]
        intro i hi
        rw [List.findSome?_eq_none_iff] at hf
        rw [hf i hi]
        exact Bool.false_ne_true
      simp only [Option.none_or, hnone, List.nil_append, Bool.and_true, isObject_none,
        Bool.false_eq_true, if_false]
      cases joins doc docs j q with
      | false => rfl
      | true =>
        have hone : [j].findSome? (fun i => node doc i (k :: q)) = node doc j (k :: q) := by
          cases hj : node doc j (k :: q) <;> simp [hj]
        simp only [if_true, hone, Bool.true_and]
        cases hj : isObject (node doc j (k :: q)) <;> simp [hj]

theorem valueAt_append (docs : List Nat) {j : Nat} {q : List GoString} (hj : joins doc docs j q = true)
    (k : GoString) :
    valueAt doc (docs ++ [j]) q k =
      (valueAt doc docs q k).or ((node doc j (k :: q)).map (toVal j (k :: q))) := by
  rw [valueAt, mergedAt_append, if_pos hj, List.findSome?_append]
  congr 1
  cases hn : node doc j (k :: q) <;> simp [hn]

/-- No document has a value at the key, or the first one that has decides. -/
theorem first_cases (doc : Nat → Json) (docs : List Nat) (q : List GoString) (k : GoString) :
    (valueAt doc docs q k = none ∧
      (mergedAt doc docs q).findSome? (fun i => node doc i (k :: q)) = none) ∨
    ∃ i v, valueAt doc docs q k = some (toVal i (k :: q) v) ∧ node doc i (k :: q) = some v ∧
      (mergedAt doc docs q).findSome? (fun i => node doc i (k :: q)) = some v ∧
      (isObject (some v) = true → (mergedAt doc docs (k :: q)).head? = some i) := by
  cases hf : (mergedAt doc docs q).findSome? fun i => node doc i (k :: q) with
  | none =>
    left
    refine ⟨?_, rfl⟩
    rw [valueAt, List.findSome?_eq_none_iff]
    rw [List.findSome?_eq_none_iff] at hf
    intro i hi
    rw [hf i hi]
    rfl
  | some v =>
    right
    have hcons : mergedAt doc docs (k :: q) = _ := mergedAt_cons_eq docs k q
    rw [hf] at hcons
    obtain ⟨l₁, i, l₂, hl, hi, hbefore⟩ := List.findSome?_eq_some_iff.mp hf
    refine ⟨i, v, ?_, hi, rfl, ?_⟩
    · rw [valueAt, List.findSome?_eq_some_iff]
      refine ⟨l₁, i, l₂, hl, ?_, ?_⟩
      · rw [hi]
        rfl
      · intro x hx
        rw [hbefore x hx]
        rfl
    · intro hv
      rw [hcons, if_pos hv, hl, List.filter_append]
      have hnil : l₁.filter (fun i => isObject (node doc i (k :: q))) = [] := by
        rw [List.filter_eq_nil_iff]
        intro x hx
        rw [hbefore x hx]
        exact Bool.false_ne_true
      rw [hnil, List.nil_append, List.filter_cons_of_pos (by rw [hi]; exact hv)]
      rfl

theorem mem_of_mem_mergedAt (h : i ∈ mergedAt doc docs q) : i ∈ docs := by
  induction q with
  | nil => exact h
  | cons k q ih =>
    rw [mergedAt_cons_eq] at h
    split at h
    · exact ih (List.mem_filter.mp h).1
    · contradiction

theorem owner_mem (h : owner doc docs q = some (.source i r)) : i ∈ docs ∧ r = q := by
  cases q with
  | nil => simp [owner] at h
  | cons k q =>
    rw [owner, Option.map_eq_some_iff] at h
    obtain ⟨i', hi, heq⟩ := h
    cases heq
    exact ⟨mem_of_mem_mergedAt (List.mem_of_head? hi), rfl⟩

theorem owner_ne_merged (hq : q ≠ []) : owner doc docs q ≠ some .merged := by
  intro h
  cases q with
  | nil => exact hq rfl
  | cons k q =>
    rw [owner, Option.map_eq_some_iff] at h
    obtain ⟨i, _, heq⟩ := h
    contradiction

theorem ne_nil_of_suffix (hr : k :: q <:+ r) : r ≠ [] := by
  rintro rfl
  exact absurd (List.suffix_nil.mp hr) (List.cons_ne_nil k q)

/-- The owner lies above everything that its keys lead to. -/
theorem owner_ne_source {a : Ref} (ha : owner doc docs q = some a) (hr : k :: q <:+ r) :
    Ref.source i r ≠ a := by
  rintro rfl
  obtain ⟨_, rfl⟩ := owner_mem ha
  have hlen := hr.length_le
  rw [List.length_cons] at hlen
  omega

theorem eq_of_suffix {k' : GoString} (hr : k :: q <:+ r) (hr' : k' :: q <:+ r) : k = k' := by
  have heq : k :: q = k' :: q :=
    (List.suffix_of_suffix_length_le hr hr' (Nat.le_refl _)).eq_of_length rfl
  exact (List.cons.inj heq).1

theorem joins_of_suffix (h : joins doc docs j q = false) (hr : q <:+ r) :
    joins doc docs j r = false := by
  obtain ⟨l, rfl⟩ := hr
  induction l with
  | nil => exact h
  | cons k l ih => rw [List.cons_append, joins, ih, Bool.false_and, Bool.false_and]

/-- A document that has no part in an object leaves it as it is. -/
theorem mergedAt_append_of_not_joins (h : joins doc docs j q = false) :
    mergedAt doc (docs ++ [j]) q = mergedAt doc docs q := by
  rw [mergedAt_append, h]
  exact List.append_nil _

theorem mergedAt_suffix_nil (h : mergedAt doc docs q = []) (hr : q <:+ r) :
    mergedAt doc docs r = [] := by
  obtain ⟨l, rfl⟩ := hr
  induction l with
  | nil => exact h
  | cons k l ih =>
    rw [List.cons_append, mergedAt_cons_eq, ih]
    rfl

/-! ## The heap between two documents -/

/-- The maps that the keys lead to are as they are to be when these documents are
merged: the owner has the merged values, and the others are untouched. -/
structure Good (doc : Nat → Json) (docs : List Nat) (H : Heap) (q : List GoString) : Prop where
  owned : ∀ a, owner doc docs q = some a → ∀ k, (H a).lookup k = valueAt doc docs q k
  own : ∀ i, owner doc docs q ≠ some (.source i q) → H (.source i q) = load doc (.source i q)

theorem Good.congr (h : Good doc docs H r) (hr : r ≠ [])
    (hH : ∀ i, H' (.source i r) = H (.source i r)) : Good doc docs H' r := by
  constructor
  · intro a ha k'
    cases a with
    | merged => exact absurd ha (owner_ne_merged hr)
    | source i r' =>
      obtain ⟨_, rfl⟩ := owner_mem ha
      rw [hH]
      exact h.owned _ ha k'
  · intro i hi
    rw [hH]
    exact h.own i hi

theorem owner_append_of_not_joins (hj : joins doc docs j r = false) :
    owner doc (docs ++ [j]) r = owner doc docs r := by
  cases r with
  | nil => rfl
  | cons k r => rw [owner, owner, mergedAt_append_of_not_joins hj]

theorem Good.of_not_joins (h : Good doc docs H r) (hj : joins doc docs j r = false) :
    Good doc (docs ++ [j]) H r := by
  constructor
  · intro a ha k'
    rw [owner_append_of_not_joins hj] at ha
    rw [valueAt, mergedAt_append_of_not_joins hj]
    exact h.owned a ha k'
  · intro i hi
    rw [owner_append_of_not_joins hj] at hi
    exact h.own i hi

theorem good_nil (q : List GoString) : Good doc [] (load doc) q := by
  have hnil : mergedAt doc [] q = [] := mergedAt_suffix_nil (q := []) rfl (List.nil_suffix)
  constructor
  · intro a ha k
    rw [valueAt, hnil]
    cases q with
    | nil =>
      cases ha
      rfl
    | cons k' q =>
      rw [owner, hnil] at ha
      contradiction
  · intro i _
    rfl

theorem atKeys_wellFormed (hv : v.WellFormed) (q : List GoString) {w : Json}
    (h : atKeys v q = some w) : w.WellFormed := by
  induction q generalizing w with
  | nil =>
    cases h
    exact hv
  | cons k q ih =>
    rw [atKeys, Option.bind_eq_some_iff] at h
    obtain ⟨c, hc, hw⟩ := h
    cases ih hc with
    | object members hn hm =>
      obtain ⟨l₁, l₂, hl, _⟩ := List.lookup_eq_some_iff.mp (show members.lookup k = some w from hw)
      exact hm (k, w) (by simp [hl])
    | null | bool | number | string | array => contradiction

theorem lookup_map_entry {ν ν' : Type} (f : GoString × ν → ν') (l : List (GoString × ν))
    (k : GoString) :
    (l.map fun e => (e.1, f e)).lookup k = (l.lookup k).map fun v => f (k, v) := by
  induction l with
  | nil => rfl
  | cons e l ih =>
    rw [List.map_cons, List.lookup_cons, List.lookup_cons, ih]
    cases hk : k == e.1 with
    | true =>
      rw [beq_iff_eq] at hk
      subst hk
      rfl
    | false => rfl

/-- What a document's own map has. -/
theorem lookup_load (hdoc : ∀ i, (doc i).WellFormed) (i : Nat) (q : List GoString) (k : GoString) :
    (load doc (.source i q)).lookup k = (node doc i (k :: q)).map (toVal i (k :: q)) := by
  have hnode : node doc i (k :: q) = (node doc i q).bind fun c => c.child (.key k) := rfl
  rw [hnode, load]
  cases hn : node doc i q with
  | none => rfl
  | some v =>
    cases v with
    | object members =>
      have hnodup : (members.map Prod.fst).Nodup := by
        cases atKeys_wellFormed (hdoc i) q hn with
        | object _ hn _ => exact hn
      show (GoMap.ofList (members.map fun e => (e.1, toVal i (e.1 :: q) e.2))).lookup k = _
      rw [GoMap.lookup_ofList_eq (by rw [List.map_map]; exact hnodup),
        lookup_map_entry fun e => toVal i (e.1 :: q) e.2]
      rfl
    | null | bool | number | string | array => rfl

theorem assign_self (H : Heap) (a : Ref) (k : GoString) (w : Val) (k' : GoString) :
    ((H.assign a k w) a).lookup k' = if k' = k then some w else (H a).lookup k' := by
  rw [Heap.assign, Function.update_self, GoMap.lookup_insert]

theorem assign_ne (H : Heap) {a b : Ref} (k : GoString) (w : Val) (h : b ≠ a) :
    (H.assign a k w) b = H b := by
  rw [Heap.assign, Function.update_of_ne h]

/-- The entries of document `j` at the keys `q` are being merged into the map `a`, and
those with the keys `done` have been. -/
structure Between (doc : Nat → Json) (docs : List Nat) (j : Nat) (q : List GoString) (a : Ref)
    (H₀ : Heap) (done : List GoString) (H : Heap) : Prop where
  cell : ∀ k, (H a).lookup k =
    if k ∈ done then valueAt doc (docs ++ [j]) q k else valueAt doc docs q k
  behind : ∀ k ∈ done, ∀ r, k :: q <:+ r → Good doc (docs ++ [j]) H r
  ahead : ∀ k, k ∉ done → ∀ r, k :: q <:+ r → Good doc docs H r
  frame : ∀ b, b ≠ a → (∀ i k r, b = .source i r → ¬ k :: q <:+ r) → H b = H₀ b

section

variable {a : Ref} {H₀ : Heap} {done : List GoString}

/-- A key that is decided against the document. -/
theorem Between.skip (h : Between doc docs j q a H₀ done H) (hjq : joins doc docs j q = true)
    (hk : k ∉ done) {w : Val} (hw : valueAt doc docs q k = some w)
    (hj : joins doc docs j (k :: q) = false) : Between doc docs j q a H₀ (k :: done) H := by
  constructor
  · intro k'
    rw [h.cell k']
    by_cases hk' : k' = k
    · subst hk'
      rw [if_neg hk, if_pos List.mem_cons_self, valueAt_append docs hjq, hw]
      rfl
    · simp only [List.mem_cons, hk', false_or]
  · intro k' hk' r hr
    rcases List.mem_cons.mp hk' with rfl | hk'
    · exact (h.ahead k' hk r hr).of_not_joins (joins_of_suffix hj hr)
    · exact h.behind k' hk' r hr
  · intro k' hk' r hr
    exact h.ahead k' (fun hmem => hk' (List.mem_cons_of_mem k hmem)) r hr
  · exact h.frame

/-- A key that no document before had. -/
theorem Between.put (hdoc : ∀ i, (doc i).WellFormed) (h : Between doc docs j q a H₀ done H)
    (hjq : joins doc docs j q = true) (ha : owner doc docs q = some a) (hk : k ∉ done) {c : Json}
    (hc : node doc j (k :: q) = some c) (hnone : valueAt doc docs q k = none)
    (hmerged : mergedAt doc docs (k :: q) = []) :
    Between doc docs j q a H₀ (k :: done) (H.assign a k (toVal j (k :: q) c)) := by
  have hsame : ∀ k' r i, k' :: q <:+ r →
      (H.assign a k (toVal j (k :: q) c)) (.source i r) = H (.source i r) :=
    fun k' r i hr => assign_ne H k _ (owner_ne_source ha hr)
  constructor
  · intro k'
    rw [assign_self, h.cell k']
    by_cases hk' : k' = k
    · subst hk'
      rw [if_pos rfl, if_pos List.mem_cons_self, valueAt_append docs hjq, hnone, hc]
      rfl
    · simp only [List.mem_cons, hk', false_or, if_false]
  · intro k' hk' r hr
    rcases List.mem_cons.mp hk' with rfl | hk'
    · have hnil := mergedAt_suffix_nil hmerged hr
      have hload : ∀ i, (H.assign a k' (toVal j (k' :: q) c)) (.source i r) =
          load doc (.source i r) := by
        intro i
        rw [hsame k' r i hr]
        apply (h.ahead k' hk r hr).own
        intro ho
        cases r with
        | nil => exact ne_nil_of_suffix hr rfl
        | cons k'' r =>
          rw [owner, hnil] at ho
          contradiction
      constructor
      · intro b hb k''
        cases b with
        | merged => exact absurd hb (owner_ne_merged (ne_nil_of_suffix hr))
        | source i r' =>
          obtain ⟨_, rfl⟩ := owner_mem hb
          have hjoin : mergedAt doc (docs ++ [j]) r' = _ := mergedAt_append docs j r'
          rw [hnil, List.nil_append] at hjoin
          cases hjr : joins doc docs j r' with
          | false =>
            rw [owner_append_of_not_joins hjr] at hb
            cases r' with
            | nil => exact absurd rfl (ne_nil_of_suffix hr)
            | cons k₃ r' =>
              rw [owner, hnil] at hb
              contradiction
          | true =>
            have hij : i = j := by
              rw [hjr, if_pos rfl] at hjoin
              cases r' with
              | nil => exact absurd rfl (ne_nil_of_suffix hr)
              | cons k₃ r' =>
                rw [owner, hjoin] at hb
                cases hb
                rfl
            subst hij
            rw [hload, lookup_load hdoc, valueAt_append docs hjr, valueAt, hnil]
            rfl
      · intro i _
        exact hload i
    · exact (h.behind k' hk' r hr).congr (ne_nil_of_suffix hr) fun i => hsame k' r i hr
  · intro k' hk' r hr
    exact (h.ahead k' (fun hmem => hk' (List.mem_cons_of_mem k hmem)) r hr).congr
      (ne_nil_of_suffix hr) fun i => hsame k' r i hr
  · intro b hb hbelow
    rw [assign_ne H k _ hb]
    exact h.frame b hb hbelow

/-- What one call of `deepMergeMaps` does, given as the rule for the calls below it. -/
def Merges (doc : Nat → Json) (docs : List Nat) (j : Nat) (q : List GoString)
    (rec : Heap → Ref → Ref → Heap) : Prop :=
  ∀ (H : Heap) (b : Ref), owner doc docs q = some b → (∀ r, q <:+ r → Good doc docs H r) →
    (∀ r, q <:+ r → Good doc (docs ++ [j]) (rec H b (.source j q)) r) ∧
      ∀ c, c ≠ b → (∀ i r, c = .source i r → ¬ q <:+ r) → rec H b (.source j q) c = H c

/-- A key at which both are maps. -/
theorem Between.recurse (h : Between doc docs j q a H₀ done H) (hjq : joins doc docs j q = true)
    (ha : owner doc docs q = some a) (hk : k ∉ done) {b : Ref}
    (hw : valueAt doc docs q k = some (.map b)) (hb : owner doc docs (k :: q) = some b)
    {rec : Heap → Ref → Ref → Heap} (hrec : Merges doc docs j (k :: q) rec) :
    Between doc docs j q a H₀ (k :: done)
      ((rec H b (.source j (k :: q))).assign a k (.map b)) := by
  obtain ⟨hgood, hframe⟩ := hrec H b hb (h.ahead k hk)
  have hab : a ≠ b := by
    cases b with
    | merged => exact absurd hb (owner_ne_merged (List.cons_ne_nil k q))
    | source i r =>
      obtain ⟨_, rfl⟩ := owner_mem hb
      exact (owner_ne_source ha (List.suffix_refl (k :: q))).symm
  have hnotBelow : ∀ i r, a = .source i r → ¬ k :: q <:+ r := by
    intro i r har hr
    exact owner_ne_source ha hr har.symm
  have hsame : ∀ k' r i, k' :: q <:+ r → k' ≠ k →
      ((rec H b (.source j (k :: q))).assign a k (.map b)) (.source i r) = H (.source i r) := by
    intro k' r i hr hne
    rw [assign_ne _ k _ (owner_ne_source ha hr)]
    apply hframe
    · cases b with
      | merged => exact nofun
      | source i' r' =>
        obtain ⟨_, rfl⟩ := owner_mem hb
        rintro heq
        cases heq
        exact hne (eq_of_suffix hr (List.suffix_refl (k :: q)))
    · intro i' r' heq hr'
      cases heq
      exact hne (eq_of_suffix hr hr')
  constructor
  · intro k'
    rw [assign_self, hframe a hab hnotBelow, h.cell k']
    by_cases hk' : k' = k
    · subst hk'
      rw [if_pos rfl, if_pos List.mem_cons_self, valueAt_append docs hjq, hw]
      rfl
    · simp only [List.mem_cons, hk', false_or, if_false]
  · intro k' hk' r hr
    by_cases hkk : k' = k
    · subst hkk
      exact (hgood r hr).congr (ne_nil_of_suffix hr) fun i =>
        assign_ne _ k' _ (owner_ne_source ha hr)
    · rcases List.mem_cons.mp hk' with heq | hk'
      · exact absurd heq hkk
      · exact (h.behind k' hk' r hr).congr (ne_nil_of_suffix hr) fun i => hsame k' r i hr hkk
  · intro k' hk' r hr
    rw [List.mem_cons, not_or] at hk'
    exact (h.ahead k' hk'.2 r hr).congr (ne_nil_of_suffix hr) fun i => hsame k' r i hr hk'.1
  · intro c hc hbelow
    rw [assign_ne _ k _ hc]
    have hcb : c ≠ b := by
      rintro rfl
      cases c with
      | merged => exact absurd hb (owner_ne_merged (List.cons_ne_nil k q))
      | source i r =>
        obtain ⟨_, rfl⟩ := owner_mem hb
        exact hbelow i k (k :: q) rfl (List.suffix_refl _)
    rw [hframe c hcb fun i r heq => hbelow i k r heq]
    exact h.frame c hc hbelow

theorem Between.entry (hdoc : ∀ i, (doc i).WellFormed) (h : Between doc docs j q a H₀ done H)
    (hjq : joins doc docs j q = true) (ha : owner doc docs q = some a) (hk : k ∉ done) {c : Json}
    (hc : node doc j (k :: q) = some c) {rec : Heap → Ref → Ref → Heap}
    (hrec : joins doc docs j (k :: q) = true → Merges doc docs j (k :: q) rec) :
    Between doc docs j q a H₀ (k :: done) (mergeEntry rec a H (k, toVal j (k :: q) c)) := by
  have hlookup : (H a).lookup k = valueAt doc docs q k := by
    rw [h.cell k, if_neg hk]
  rcases first_cases doc docs q k with ⟨hnone, hfirst⟩ | ⟨i, v, hval, hnode, hfirst, hhead⟩
  · have hentry : mergeEntry rec a H (k, toVal j (k :: q) c) =
        H.assign a k (toVal j (k :: q) c) := by
      unfold mergeEntry
      rw [hlookup, hnone]
      cases c <;> rfl
    have hmerged : mergedAt doc docs (k :: q) = [] := by
      rw [mergedAt_cons_eq, hfirst]
      rfl
    rw [hentry]
    exact h.put hdoc hjq ha hk hc hnone hmerged
  · have hjoin : joins doc docs j (k :: q) = (isObject (some c) && isObject (some v)) := by
      rw [joins, hjq, hc, hfirst, Bool.true_and]
    cases hv : isObject (some v) with
    | false =>
      rw [hv, Bool.and_false] at hjoin
      have hentry : mergeEntry rec a H (k, toVal j (k :: q) c) = H := by
        unfold mergeEntry
        rw [hlookup, hval, toVal_of_not_object hv]
        cases c <;> rfl
      rw [hentry]
      exact h.skip hjq hk hval hjoin
    | true =>
      cases hobj : isObject (some c) with
      | false =>
        rw [hobj, Bool.false_and] at hjoin
        have hentry : mergeEntry rec a H (k, toVal j (k :: q) c) = H := by
          unfold mergeEntry
          rw [hlookup, hval, toVal_of_not_object hobj]
        rw [hentry]
        exact h.skip hjq hk hval hjoin
      | true =>
        obtain ⟨members, hmembers⟩ := isObject_iff.mp hv
        obtain ⟨members', hmembers'⟩ := isObject_iff.mp hobj
        cases hmembers
        cases hmembers'
        have howner : owner doc docs (k :: q) = some (.source i (k :: q)) := by
          rw [owner, hhead rfl]
          rfl
        have hentry : mergeEntry rec a H (k, toVal j (k :: q) (.object members')) =
            (rec H (.source i (k :: q)) (.source j (k :: q))).assign a k
              (.map (.source i (k :: q))) := by
          unfold mergeEntry
          rw [hlookup, hval]
          rfl
        rw [hentry]
        exact h.recurse hjq ha hk hval howner (hrec hjoin)

/-- The loop over the entries of a document's map. -/
theorem Between.entries (hdoc : ∀ i, (doc i).WellFormed) (hjq : joins doc docs j q = true)
    (ha : owner doc docs q = some a) {rec : Heap → Ref → Ref → Heap}
    (hrec : ∀ k, joins doc docs j (k :: q) = true → Merges doc docs j (k :: q) rec)
    (es : List (GoString × Val)) (hnodup : (es.map Prod.fst).Nodup)
    (hnew : ∀ e ∈ es, e.1 ∉ done)
    (hes : ∀ e ∈ es, ∃ c, node doc j (e.1 :: q) = some c ∧ e.2 = toVal j (e.1 :: q) c)
    (h : Between doc docs j q a H₀ done H) :
    ∃ done', (∀ k, k ∈ done' ↔ k ∈ es.map Prod.fst ∨ k ∈ done) ∧
      Between doc docs j q a H₀ done' (es.foldl (mergeEntry rec a) H) := by
  induction es generalizing done H with
  | nil => exact ⟨done, fun k => by simp, h⟩
  | cons e es ih =>
    obtain ⟨c, hc, hval⟩ := hes e List.mem_cons_self
    have hstep := h.entry hdoc hjq ha (hnew e List.mem_cons_self) hc
      (hrec e.1)
    rw [← hval] at hstep
    rw [List.map_cons, List.nodup_cons] at hnodup
    have hnew' : ∀ e' ∈ es, e'.1 ∉ e.1 :: done := by
      intro e' he' hmem
      rcases List.mem_cons.mp hmem with heq | hmem
      · exact hnodup.1 (heq ▸ List.mem_map_of_mem he')
      · exact hnew e' (List.mem_cons_of_mem e he') hmem
    obtain ⟨done', hdone', hlast⟩ := ih hnodup.2 hnew'
      (fun e' he' => hes e' (List.mem_cons_of_mem e he')) hstep
    refine ⟨done', ?_, hlast⟩
    intro k
    rw [hdone' k, List.map_cons, List.mem_cons, List.mem_cons]
    tauto

theorem suffix_cases (hr : q <:+ r) : r = q ∨ ∃ k, k :: q <:+ r := by
  obtain ⟨l, rfl⟩ := hr
  rcases List.eq_nil_or_concat l with rfl | ⟨l', k, rfl⟩
  · exact .inl rfl
  · exact .inr ⟨k, l', by simp⟩

theorem between_start (hgood : ∀ r, q <:+ r → Good doc docs H r) (ha : owner doc docs q = some a) :
    Between doc docs j q a H [] H := by
  constructor
  · intro k
    rw [if_neg List.not_mem_nil]
    exact (hgood q (List.suffix_refl q)).owned a ha k
  · intro k hk
    contradiction
  · intro k _ r hr
    exact hgood r ((List.suffix_cons k q).trans hr)
  · intro b _ _
    rfl

/-- Once all keys of the document are behind, it is merged. -/
theorem Between.finish (h : Between doc docs j q a H₀ done H) (hjq : joins doc docs j q = true)
    (ha : owner doc docs q = some a) (hgood : Good doc docs H₀ q)
    (hrest : ∀ k, k ∉ done → node doc j (k :: q) = none) (hr : q <:+ r) :
    Good doc (docs ++ [j]) H r := by
  rcases suffix_cases hr with rfl | ⟨k, hk⟩
  · have howner : owner doc (docs ++ [j]) r = some a := by
      cases r with
      | nil => exact ha
      | cons k r =>
        rw [owner, Option.map_eq_some_iff] at ha ⊢
        obtain ⟨i, hi, hai⟩ := ha
        refine ⟨i, ?_, hai⟩
        rw [mergedAt_append, List.head?_append, hi]
        rfl
    constructor
    · intro b hb k
      rw [howner, Option.some.injEq] at hb
      subst hb
      rw [h.cell k]
      split
      · rfl
      · rename_i hk
        rw [valueAt_append docs hjq, hrest k hk]
        exact (Option.or_none).symm
    · intro i hi
      rw [howner] at hi
      have hne : Ref.source i r ≠ a := fun heq => hi (congrArg some heq.symm)
      rw [h.frame _ hne, hgood.own i]
      · rw [ha]
        exact hi
      · intro i' k r' heq hr'
        cases heq
        have hlen := hr'.length_le
        rw [List.length_cons] at hlen
        omega
  · by_cases hdone : k ∈ done
    · exact h.behind k hdone r hk
    · refine (h.ahead k hdone r hk).of_not_joins (joins_of_suffix ?_ hk)
      rw [joins, hrest k hdone, isObject_none, Bool.and_false, Bool.false_and]

end

/-- One call of `deepMergeMaps`: the maps below the two arguments become those of the longer list of
documents, and no other map changes. -/
theorem merges_deepMergeMaps (hdoc : ∀ i, (doc i).WellFormed) (order : MapOrder) (hj : j ∉ docs)
    (n : Nat) (q : List GoString) (hjq : joins doc docs j q = true)
    (hfuel : ∀ r, isObject (node doc j r) = true → r.length < n + q.length) :
    Merges doc docs j q (deepMergeMaps order n) := by
  induction n generalizing q with
  | zero =>
    intro H a ha hgood
    have hleaf : isObject (node doc j q) = false := by
      cases hobj : isObject (node doc j q) with
      | false => rfl
      | true =>
        have := hfuel q hobj
        omega
    have hnone : ∀ k, node doc j (k :: q) = none := by
      intro k
      show (node doc j q).bind (fun c => c.child (.key k)) = none
      cases hn : node doc j q with
      | none => rfl
      | some c =>
        rw [hn] at hleaf
        cases c with
        | object members => contradiction
        | null | bool | number | string | array => rfl
    refine ⟨fun r hr => ?_, fun _ _ _ => rfl⟩
    exact (between_start hgood ha).finish hjq ha (hgood q (List.suffix_refl q))
      (fun k _ => hnone k) hr
  | succ n ih =>
    intro H a ha hgood
    have hnotOwner : owner doc docs q ≠ some (.source j q) := by
      intro ho
      exact hj (owner_mem ho).1
    have hsrc : H (.source j q) = load doc (.source j q) :=
      (hgood q (List.suffix_refl q)).own j hnotOwner
    have hperm := order.perm (.source j q) (H (.source j q))
    have hmem : ∀ e, e ∈ order.visit (.source j q) (H (.source j q)) ↔
        (node doc j (e.1 :: q)).map (toVal j (e.1 :: q)) = some e.2 := by
      intro e
      rw [hperm.mem_iff, ← lookup_load hdoc, ← hsrc]
      exact GoMap.mem_iff_lookup _
    have hnodup : ((order.visit (.source j q) (H (.source j q))).map Prod.fst).Nodup :=
      (hperm.map Prod.fst).nodup_iff.mpr (H (.source j q)).nodup
    have hrec : ∀ k, joins doc docs j (k :: q) = true →
        Merges doc docs j (k :: q) (deepMergeMaps order n) := by
      intro k hk
      apply ih (k :: q) hk
      intro r hr
      have := hfuel r hr
      rw [List.length_cons]
      omega
    obtain ⟨done, hdone, hlast⟩ := (between_start (j := j) hgood ha).entries hdoc hjq ha hrec
      (order.visit (.source j q) (H (.source j q))) hnodup (fun _ _ => List.not_mem_nil) (by
        intro e he
        obtain ⟨c, hc, hval⟩ := Option.map_eq_some_iff.mp ((hmem e).mp he)
        exact ⟨c, hc, hval.symm⟩)
    constructor
    · intro r hr
      refine hlast.finish hjq ha (hgood q (List.suffix_refl q)) ?_ hr
      intro k hk
      cases hn : node doc j (k :: q) with
      | none => rfl
      | some c =>
        exfalso
        apply hk
        rw [hdone k]
        left
        rw [List.mem_map]
        exact ⟨(k, toVal j (k :: q) c), (hmem _).mpr (by rw [hn]; rfl), rfl⟩
    · intro c hc hbelow
      apply hlast.frame c hc
      intro i k r heq hr
      exact hbelow i r heq ((List.suffix_cons k q).trans hr)

/-- `Merge` leaves every map as it is to be. -/
theorem merge_good (hdoc : ∀ i, (doc i).WellFormed) (order : MapOrder) (fuel : Nat)
    (docs : List Nat) (hnodup : docs.Nodup)
    (hfuel : ∀ i ∈ docs, ∀ r, isObject (node doc i r) = true → r.length < fuel)
    (q : List GoString) : Good doc docs (merge doc order fuel docs) q := by
  induction docs using List.reverseRecOn generalizing q with
  | nil => exact good_nil q
  | append_singleton docs j ih =>
    rw [List.nodup_append] at hnodup
    have hj : j ∉ docs := fun hmem => hnodup.2.2 j hmem j (List.mem_singleton_self j) rfl
    have hbefore := ih hnodup.1 fun i hi => hfuel i (List.mem_append_left _ hi)
    have hcall := merges_deepMergeMaps hdoc order hj fuel [] rfl
      (hfuel j (List.mem_append_right _ (List.mem_singleton_self j)))
    rw [merge, List.foldl_append]
    exact (hcall (merge doc order fuel docs) .merged rfl fun r _ => hbefore r).1 q List.nil_suffix

end

end Selebrow.Models
