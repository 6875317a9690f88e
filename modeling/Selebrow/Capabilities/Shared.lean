import Selebrow.Capabilities.Merge

/-!
# The documents after the merge

What `json.Marshal` writes for a document whose maps were merged.  A document keeps all
its members.  One of its maps has gained some exactly when it is the map of a merged
object and another document's object there has a member that it lacks.
-/

namespace Selebrow.Models

/-- `json.Marshal` of a value; the first argument bounds how deep its maps nest. -/
def marshal : Nat → Heap → Val → Json
  | _, _, .leaf v => v
  | 0, _, .map _ => .null
  | n + 1, H, .map a => .object ((H a).entries.map fun e => (e.1, marshal n H e.2))

/-- The map of document `i` at these keys is the one that the others' objects are merged
into, and one of them has a member that it lacks. -/
def Gains (doc : Nat → Json) (docs : List Nat) (i : Nat) (q : List GoString) : Prop :=
  q ≠ [] ∧ (mergedAt doc docs q).head? = some i ∧
    ∃ j ∈ mergedAt doc docs q, ∃ k,
      (node doc j (k :: q)).isSome = true ∧ node doc i (k :: q) = none

section

variable {doc : Nat → Json} {docs : List Nat} {i j n D : Nat} {k : GoString}
  {q r : List GoString} {H : Heap} {v w : Json}

theorem owner_eq_source : owner doc docs q = some (.source i q) ↔
    q ≠ [] ∧ (mergedAt doc docs q).head? = some i := by
  cases q with
  | nil => simp [owner]
  | cons k q => simp [owner]

theorem first_value (hi : (mergedAt doc docs q).head? = some i) {c : Json}
    (hc : node doc i (k :: q) = some c) : valueAt doc docs q k = some (toVal i (k :: q) c) := by
  rw [valueAt]
  cases hm : mergedAt doc docs q with
  | nil =>
    rw [hm] at hi
    contradiction
  | cons i' rest =>
    rw [hm] at hi
    cases hi
    rw [List.findSome?_cons, hc]
    rfl

/-- A document keeps its members. -/
theorem Good.kept (hdoc : ∀ i, (doc i).WellFormed) (h : Good doc docs H q) {c : Json}
    (hc : node doc i (k :: q) = some c) :
    (H (.source i q)).lookup k = some (toVal i (k :: q) c) := by
  by_cases ho : owner doc docs q = some (.source i q)
  · rw [h.owned _ ho, first_value (owner_eq_source.mp ho).2 hc]
  · rw [h.own i ho, lookup_load hdoc, hc]
    rfl

theorem Good.not_gained (hdoc : ∀ i, (doc i).WellFormed) (h : Good doc docs H q)
    (hg : ¬ Gains doc docs i q) (hnone : node doc i (k :: q) = none) :
    (H (.source i q)).lookup k = none := by
  by_cases ho : owner doc docs q = some (.source i q)
  · obtain ⟨hq, hi⟩ := owner_eq_source.mp ho
    rw [h.owned _ ho, valueAt, List.findSome?_eq_none_iff]
    intro j hj
    cases hn : node doc j (k :: q) with
    | none => rfl
    | some c => exact absurd ⟨hq, hi, j, hj, k, by rw [hn]; rfl, hnone⟩ hg
  · rw [h.own i ho, lookup_load hdoc, hnone]
    rfl

theorem Good.gained (h : Good doc docs H q) (hg : Gains doc docs i q) :
    ∃ k, ((H (.source i q)).lookup k).isSome = true ∧ node doc i (k :: q) = none := by
  obtain ⟨hq, hi, j, hj, k, hk, hnone⟩ := hg
  refine ⟨k, ?_, hnone⟩
  rw [h.owned _ (owner_eq_source.mpr ⟨hq, hi⟩)]
  rcases first_cases doc docs q k with ⟨_, hfirst⟩ | ⟨i', v, hval, _⟩
  · rw [List.findSome?_eq_none_iff] at hfirst
    rw [hfirst j hj] at hk
    contradiction
  · rw [hval]
    rfl

theorem isObject_of_gains (hg : Gains doc docs i q) : isObject (node doc i q) = true := by
  obtain ⟨hq, hi, _⟩ := hg
  cases q with
  | nil => exact absurd rfl hq
  | cons k q =>
    have hmem := List.mem_of_head? hi
    rw [mergedAt_cons_eq] at hmem
    split at hmem
    · exact (List.mem_filter.mp hmem).2
    · contradiction

/-! ## Reading a document back -/

theorem child_marshal_map (a : Ref) (k : GoString) :
    (marshal (n + 1) H (.map a)).child (.key k) = ((H a).lookup k).map (marshal n H) := by
  show ((H a).entries.map fun e => (e.1, marshal n H e.2)).lookup k = _
  rw [lookup_map_entry fun e => marshal n H e.2, GoMap.lookup_entries]

/-- The maps of document `i` from `q` on have its members. -/
def Keeps (doc : Nat → Json) (i : Nat) (q : List GoString) (H : Heap) : Prop :=
  ∀ r k c, q <:+ r → node doc i (k :: r) = some c →
    (H (.source i r)).lookup k = some (toVal i (k :: r) c)

theorem node_key (hv : node doc i q = some v) : node doc i (k :: q) = v.child (.key k) := by
  show (node doc i q).bind (fun c => c.child (.key k)) = _
  rw [hv]
  rfl

theorem marshal_leaf (hobj : isObject (some v) = false) : marshal n H (toVal i q v) = v := by
  rw [toVal_of_not_object hobj]
  cases n <;> rfl

/-- A document whose maps have gained nothing is as it was. -/
theorem sameTree_marshal (hkeeps : Keeps doc i q H)
    (hgains : ∀ r k, q <:+ r → node doc i (k :: r) = none → (H (.source i r)).lookup k = none)
    (hdepth : ∀ r, isObject (node doc i r) = true → r.length < D)
    (hn : D ≤ n + q.length) (hv : node doc i q = some v) :
    (marshal n H (toVal i q v)).SameTree v := by
  intro p
  induction p generalizing q n v with
  | nil =>
    cases hobj : isObject (some v) with
    | false => rw [marshal_leaf hobj]
    | true =>
      have hlen := hdepth q (by rw [hv]; exact hobj)
      obtain ⟨n', rfl⟩ : ∃ n', n = n' + 1 := ⟨n - 1, by omega⟩
      obtain ⟨members, hm⟩ := isObject_iff.mp hobj
      cases hm
      rfl
  | cons s p ih =>
    cases hobj : isObject (some v) with
    | false => rw [marshal_leaf hobj]
    | true =>
      have hlen := hdepth q (by rw [hv]; exact hobj)
      obtain ⟨n', rfl⟩ : ∃ n', n = n' + 1 := ⟨n - 1, by omega⟩
      obtain ⟨members, hm⟩ := isObject_iff.mp hobj
      cases hm
      rw [Json.get_cons, Json.get_cons]
      cases s with
      | index x => rfl
      | key k =>
        rw [← node_key hv]
        show (((marshal (n' + 1) H (.map (.source i q))).child (.key k)).bind _).map _ = _
        rw [child_marshal_map]
        cases hc : node doc i (k :: q) with
        | none =>
          rw [hgains q k (List.suffix_refl q) hc]
          rfl
        | some c =>
          rw [hkeeps q k c (List.suffix_refl q) hc]
          have hup : ∀ r, k :: q <:+ r → q <:+ r := fun r hr => (List.suffix_cons k q).trans hr
          exact ih (fun r k' c' hr => hkeeps r k' c' (hup r hr))
            (fun r k' hr => hgains r k' (hup r hr)) (by rw [List.length_cons]; omega) hc

def keyPath (l : List GoString) : List Json.Step := l.reverse.map .key

theorem keyPath_cons (k : GoString) (l : List GoString) :
    keyPath (k :: l) = keyPath l ++ [.key k] := by
  rw [keyPath, List.reverse_cons, List.map_append]
  rfl

theorem get_keyPath (hv : node doc i q = some v) (l : List GoString) :
    v.get (keyPath l) = node doc i (l ++ q) := by
  induction l with
  | nil => exact hv.symm
  | cons k l ih =>
    rw [keyPath_cons, Json.get_append, ih, List.cons_append]
    show _ = (node doc i (l ++ q)).bind fun c => c.child (.key k)
    cases node doc i (l ++ q) with
    | none => rfl
    | some c =>
      show (c.child (.key k)).bind (fun d => d.get []) = c.child (.key k)
      cases c.child (.key k) <;> rfl

/-- Keys lead to the same place as before. -/
theorem get_marshal (hkeeps : Keeps doc i q H)
    (hdepth : ∀ r, isObject (node doc i r) = true → r.length < D)
    (hn : D ≤ n + q.length) (hv : node doc i q = some v) (l : List GoString)
    (hw : node doc i (l ++ q) = some w) :
    (marshal n H (toVal i q v)).get (keyPath l) =
      some (marshal (n - l.length) H (toVal i (l ++ q) w)) := by
  induction l generalizing w with
  | nil =>
    rw [List.nil_append] at hw
    rw [hv] at hw
    cases hw
    rfl
  | cons k l ih =>
    cases hu : node doc i (l ++ q) with
    | none =>
      have hnone : node doc i (k :: (l ++ q)) = none := by
        show (node doc i (l ++ q)).bind _ = none
        rw [hu]
        rfl
      rw [List.cons_append, hnone] at hw
      contradiction
    | some u =>
      have hchild : u.child (.key k) = some w := by
        rw [← node_key hu]
        exact hw
      have hobj : isObject (some u) = true := by
        cases u with
        | object members => rfl
        | null | bool | number | string | array => contradiction
      have hlen := hdepth (l ++ q) (by rw [hu]; exact hobj)
      rw [List.length_append] at hlen
      obtain ⟨n', hn'⟩ : ∃ n', n - l.length = n' + 1 := ⟨n - l.length - 1, by omega⟩
      obtain ⟨members, hm⟩ := isObject_iff.mp hobj
      cases hm
      rw [keyPath_cons, Json.get_append, ih hu, hn']
      show ((marshal (n' + 1) H (.map (.source i (l ++ q)))).child (.key k)).bind _ = _
      rw [child_marshal_map, hkeeps (l ++ q) k w (List.suffix_append l q) hw]
      have hsub : n - (k :: l).length = n' := by
        rw [List.length_cons]
        omega
      rw [hsub]
      rfl

/-- A map that has gained a member shows it. -/
theorem get_of_gains (hkeeps : Keeps doc i q H)
    (hdepth : ∀ r, isObject (node doc i r) = true → r.length < D)
    (hn : D ≤ n + q.length) (hv : node doc i q = some v) {l : List GoString}
    (hobj : isObject (node doc i (l ++ q)) = true)
    (hk : ((H (.source i (l ++ q))).lookup k).isSome = true)
    (hnone : node doc i (k :: (l ++ q)) = none) :
    ((marshal n H (toVal i q v)).get (keyPath (k :: l))).isSome = true ∧
      v.get (keyPath (k :: l)) = none := by
  constructor
  · have hlen := hdepth (l ++ q) hobj
    rw [List.length_append] at hlen
    obtain ⟨members, hm⟩ := isObject_iff.mp hobj
    obtain ⟨n', hn'⟩ : ∃ n', n - l.length = n' + 1 := ⟨n - l.length - 1, by omega⟩
    rw [keyPath_cons, Json.get_append, get_marshal hkeeps hdepth hn hv l hm, hn']
    show (((marshal (n' + 1) H (.map (.source i (l ++ q)))).child (.key k)).bind _).isSome = true
    rw [child_marshal_map]
    cases hl : (H (.source i (l ++ q))).lookup k with
    | none =>
      rw [hl] at hk
      contradiction
    | some x => rfl
  · rw [get_keyPath hv (k :: l)]
    exact hnone

/-- What is written for a document from the keys `q` on means what the document says
exactly when its numbers keep their values and its maps have gained nothing. -/
theorem sameValue_marshal_iff (f : GoString → GoString) (hdoc : ∀ i, (doc i).WellFormed)
    (hgood : ∀ r, q <:+ r → ∃ H', Good doc docs H' r ∧ H (.source i r) = H' (.source i r))
    (hdepth : ∀ r, isObject (node doc i r) = true → r.length < D)
    (hn : D ≤ n + q.length) (hv : node doc i q = some v) :
    (Json.mapNumbers f (marshal n H (toVal i q v))).SameValue v ↔
      (∀ p literal, v.get p = some (.number literal) →
        Json.numberValue (f literal) = Json.numberValue literal) ∧
      ∀ r, q <:+ r → ¬ Gains doc docs i r := by
  have hkeeps : Keeps doc i q H := by
    intro r k c hr hc
    obtain ⟨H', hH', heq⟩ := hgood r hr
    rw [heq]
    exact hH'.kept hdoc hc
  have hsame : (∀ r, q <:+ r → ¬ Gains doc docs i r) →
      (marshal n H (toVal i q v)).SameTree v := by
    intro hno
    apply sameTree_marshal hkeeps _ hdepth hn hv
    intro r k hr hnone
    obtain ⟨H', hH', heq⟩ := hgood r hr
    rw [heq]
    exact hH'.not_gained hdoc (hno r hr) hnone
  constructor
  · intro h
    have hno : ∀ r, q <:+ r → ¬ Gains doc docs i r := by
      rintro r ⟨l, rfl⟩ hg
      obtain ⟨H', hH', heq⟩ := hgood (l ++ q) (List.suffix_append l q)
      obtain ⟨k, hk, hnone⟩ := hH'.gained hg
      obtain ⟨hthere, hmissing⟩ := get_of_gains hkeeps hdepth hn hv (isObject_of_gains hg)
        (by rw [heq]; exact hk) hnone
      have hp := h (keyPath (k :: l))
      rw [Json.get_mapNumbers, hmissing] at hp
      rw [Option.isSome_iff_exists] at hthere
      obtain ⟨x, hx⟩ := hthere
      rw [hx] at hp
      contradiction
    exact ⟨(Json.sameValue_mapNumbers f).mp (((hsame hno).mapNumbers f).mp h), hno⟩
  · rintro ⟨hnumbers, hno⟩
    exact ((hsame hno).mapNumbers f).mpr ((Json.sameValue_mapNumbers f).mpr hnumbers)

end

end Selebrow.Models
