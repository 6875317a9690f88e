import Selebrow.Capabilities.Precedence
import Selebrow.Json.Double

/-!
# The documents merged again

After the merge and with the default proxy put in, a document shows at some keys what it
had there before, or, where it had nothing, possibly the merged value.  So the documents
that are written out merge to what was merged before, except for the proxy.
-/

namespace Selebrow.Models

/-- Both are missing, both are objects, or both are the same value. -/
inductive Alike : Option Json → Option Json → Prop
  | missing : Alike none none
  | object (ms ms' : List (GoString × Json)) : Alike (some (.object ms)) (some (.object ms'))
  | value (v w : Json) (hv : isObject (some v) = false) (hw : isObject (some w) = false)
      (h : v.SameDouble w) : Alike (some v) (some w)

section

variable {x y z : Option Json} {v w : Json} {q : List GoString} {k : GoString}

theorem alike_some (h : isObject (some v) = isObject (some w))
    (hvalue : isObject (some w) = false → v.SameDouble w) : Alike (some v) (some w) := by
  cases hw : isObject (some w) with
  | false =>
    rw [hw] at h
    exact .value v w h hw (hvalue hw)
  | true =>
    rw [hw] at h
    obtain ⟨ms, hv⟩ := isObject_iff.mp h
    obtain ⟨ms', hw⟩ := isObject_iff.mp hw
    cases hv
    cases hw
    exact .object ms ms'

theorem Alike.refl (x : Option Json) : Alike x x := by
  cases x with
  | none => exact .missing
  | some v => exact alike_some rfl fun _ => Json.SameDouble.refl v

theorem Alike.symm (h : Alike x y) : Alike y x := by
  cases h with
  | missing => exact .missing
  | object ms ms' => exact .object ms' ms
  | value v w hv hw h => exact .value w v hw hv h.symm

theorem Alike.trans (h : Alike x y) (h' : Alike y z) : Alike x z := by
  cases h with
  | missing => exact h'
  | object ms ms' =>
    cases h' with
    | object _ ms₂ => exact .object ms ms₂
    | value _ w hv => contradiction
  | value v w hv hw h =>
    cases h' with
    | object => contradiction
    | value _ u _ hu h' => exact .value v u hv hu (h.trans h')

theorem Alike.isObject_eq (h : Alike x y) : isObject x = isObject y := by
  cases h with
  | missing => rfl
  | object => rfl
  | value v w hv hw => rw [hv, hw]

theorem Alike.eq_none (h : Alike x none) : x = none := by
  cases h
  rfl

/-! ## Reading with keys -/

theorem sameDouble_atKeys (h : v.SameDouble w) (q : List GoString) :
    Option.Rel Json.SameDouble (atKeys v q) (atKeys w q) := by
  induction q with
  | nil => exact .some h
  | cons k q ih =>
    rw [atKeys_cons, atKeys_cons]
    exact GoMap.rel_bind ih fun a b hab => hab.child (.key k)

theorem isObject_of_sameDouble (h : v.SameDouble w) : isObject (some v) = isObject (some w) := by
  have hk := h.kind
  cases v <;> cases w <;> first | rfl | contradiction

theorem alike_atKeys (h : v.SameDouble w) (q : List GoString) :
    Alike (atKeys v q) (atKeys w q) := by
  have hq := sameDouble_atKeys h q
  generalize atKeys v q = x at hq ⊢
  generalize atKeys w q = y at hq ⊢
  cases hq with
  | none => exact .missing
  | some hab => exact alike_some (isObject_of_sameDouble hab) fun _ => hab

theorem atKeys_append (v : Json) (l q : List GoString) :
    atKeys v (l ++ q) = (atKeys v q).bind fun c => atKeys c l := by
  induction l with
  | nil => exact (Option.bind_fun_some (atKeys v q)).symm
  | cons k l ih =>
    rw [List.cons_append, atKeys_cons, ih, Option.bind_assoc]
    rfl

/-- Alike at the root, they are both missing or both there. -/
theorem rel_of_alike {r : Json → Json → Prop}
    (hr : ∀ v w, (∀ q, Alike (atKeys v q) (atKeys w q)) → r v w)
    (h : ∀ q, Alike (x.bind fun v => atKeys v q) (y.bind fun w => atKeys w q)) :
    Option.Rel r x y := by
  have hnil := h []
  cases x with
  | none =>
    cases y with
    | none => exact .none
    | some w => cases hnil
  | some v =>
    cases y with
    | none => cases hnil
    | some w => exact .some (hr v w h)

/-- Values that are alike at all keys have the same contents. -/
theorem sameDouble_of_alike (h : ∀ q, Alike (atKeys v q) (atKeys w q)) : v.SameDouble w := by
  intro p
  induction p generalizing v w with
  | nil =>
    have hroot := h []
    cases hroot with
    | object => rfl
    | value _ _ _ _ hvw => exact hvw []
  | cons s p ih =>
    have hroot := h []
    cases hroot with
    | value _ _ _ _ hvw => exact hvw (s :: p)
    | object ms ms' =>
      cases s with
      | index i => rfl
      | key k =>
        rw [Json.get_cons, Json.get_cons]
        have hchild : ∀ q, Alike (((Json.object ms).child (.key k)).bind fun c => atKeys c q)
            (((Json.object ms').child (.key k)).bind fun c => atKeys c q) := by
          intro q
          have hq := h (q ++ [k])
          rw [atKeys_append, atKeys_append] at hq
          exact hq
        have hrel := rel_of_alike (fun v w => ih) hchild
        generalize (Json.object ms).child (.key k) = x at hrel ⊢
        generalize (Json.object ms').child (.key k) = y at hrel ⊢
        cases hrel with
        | none => rfl
        | some hget => exact hget

end

/-! ## The first value -/

section

variable {docs : List Nat} {f g : Nat → Option Json} {x : Option Json}

theorem first_alike (hf : docs.findSome? f = x)
    (h : ∀ i ∈ docs, (∀ v, f i = some v → Alike (g i) (some v)) ∧
      (f i = none → g i = none ∨ Alike (g i) x)) : Alike (docs.findSome? g) x := by
  induction docs with
  | nil =>
    rw [List.findSome?_nil] at hf ⊢
    rw [← hf]
    exact .missing
  | cons i docs ih =>
    rw [List.forall_mem_cons] at h
    rw [List.findSome?_cons] at hf ⊢
    cases hi : f i with
    | some v =>
      rw [hi] at hf
      have hg := h.1.1 v hi
      rw [← hf]
      cases hg' : g i with
      | none =>
        rw [hg'] at hg
        cases hg
      | some w =>
        rw [hg'] at hg
        exact hg
    | none =>
      rw [hi] at hf
      rcases h.1.2 hi with hg | hg
      · rw [hg]
        exact ih hf h.2
      · cases hg' : g i with
        | none => exact ih hf h.2
        | some w =>
          rw [hg'] at hg
          exact hg

end

/-! ## What a document shows -/

/-- What is found under a key: the document's own value, the merged one, or none. -/
inductive Shows (doc : Nat → Json) (docs : List Nat) (i : Nat) (k : GoString) (q : List GoString) :
    Option Val → Prop
  | own (w : Json) (h : node doc i (k :: q) = some w) :
      Shows doc docs i k q (some (toVal i (k :: q) w))
  | gained (j : Nat) (w : Json) (hi : node doc i (k :: q) = none)
      (hj : node doc j (k :: q) = some w)
      (hval : valueAt doc docs q k = some (toVal j (k :: q) w)) :
      Shows doc docs i k q (some (toVal j (k :: q) w))
  | missing (hi : node doc i (k :: q) = none) : Shows doc docs i k q none

def Val.step (H : Heap) (k : GoString) : Val → Option Val
  | .leaf v => (v.child (.key k)).map .leaf
  | .map a => (H a).lookup k

/-- What the keys lead to in the heap, the last key first. -/
def follow (H : Heap) (x : Val) : List GoString → Option Val
  | [] => some x
  | k :: q => (follow H x q).bind fun y => y.step H k

section

variable {doc : Nat → Json} {docs : List Nat} {i j n D : Nat} {k k' : GoString}
  {q : List GoString} {H : Heap} {v w : Json} {x : Option Val}

theorem marshal_leafVal (n : Nat) (H : Heap) (v : Json) : marshal n H (.leaf v) = v := by
  cases n <;> rfl

theorem atKeys_marshal {x : Val} (q : List GoString)
    (hdepth : ∀ r a, r <:+ q → follow H x r = some (.map a) → r.length < D) :
    atKeys (marshal D H x) q = (follow H x q).map (marshal (D - q.length) H) := by
  induction q with
  | nil => rfl
  | cons k q ih =>
    have hq := ih fun r a hr => hdepth r a (hr.trans (List.suffix_cons k q))
    rw [atKeys_cons, hq, follow]
    cases hy : follow H x q with
    | none => rfl
    | some y =>
      rw [Option.map_some, Option.bind_some, Option.bind_some]
      cases y with
      | leaf v =>
        rw [marshal_leafVal, Val.step, Option.map_map]
        show v.child (.key k) = (v.child (.key k)).map fun w => marshal _ H (.leaf w)
        simp only [marshal_leafVal, Option.map_id']
      | map a =>
        have hlen := hdepth q a (List.suffix_cons k q) hy
        obtain ⟨n, hn⟩ : ∃ n, D - q.length = n + 1 := ⟨D - q.length - 1, by omega⟩
        have hsub : D - (k :: q).length = n := by
          rw [List.length_cons]
          omega
        rw [hn, hsub, child_marshal_map]
        rfl

theorem shows_valueAt (hi : node doc i (k :: q) = none) :
    Shows doc docs i k q (valueAt doc docs q k) := by
  rcases first_cases doc docs q k with ⟨hnone, _⟩ | ⟨j, w, hval, hj, _⟩
  · rw [hnone]
    exact .missing hi
  · rw [hval]
    exact .gained j w hi hj hval

/-- Under a key of its own map. -/
theorem shows_own (hdoc : ∀ i, (doc i).WellFormed) (h : Good doc docs H q) (i : Nat)
    (k : GoString) : Shows doc docs i k q ((H (.source i q)).lookup k) := by
  cases hw : node doc i (k :: q) with
  | some w =>
    rw [h.kept hdoc hw]
    exact .own w hw
  | none =>
    by_cases ho : owner doc docs q = some (.source i q)
    · rw [h.owned _ ho]
      exact shows_valueAt hw
    · rw [h.own i ho, lookup_load hdoc, hw]
      exact .missing hw

theorem toVal_object_inj {ms : List (GoString × Json)}
    (h : toVal j q w = toVal i q (.object ms)) : j = i ∧ isObject (some w) = true := by
  cases w with
  | object members =>
    cases h
    exact ⟨rfl, rfl⟩
  | null | bool | number | string | array => contradiction

theorem owner_of_valueAt {ms : List (GoString × Json)}
    (hval : valueAt doc docs q k = some (toVal j (k :: q) (.object ms))) :
    owner doc docs (k :: q) = some (.source j (k :: q)) := by
  rcases first_cases doc docs q k with ⟨hnone, _⟩ | ⟨i, v, hv, _, _, hhead⟩
  · rw [hnone] at hval
    contradiction
  · rw [hv] at hval
    obtain ⟨rfl, hobj⟩ := toVal_object_inj (Option.some.inj hval)
    rw [owner, hhead hobj]
    rfl

theorem Shows.step (hdoc : ∀ i, (doc i).WellFormed) (h : Shows doc docs i k q x)
    (hgood : Good doc docs H (k :: q)) (k' : GoString) :
    Shows doc docs i k' (k :: q) (x.bind fun y => y.step H k') := by
  have hbelow : node doc i (k :: q) = none → node doc i (k' :: k :: q) = none := by
    intro hnone
    show (node doc i (k :: q)).bind _ = none
    rw [hnone]
    rfl
  cases h with
  | missing hi => exact .missing (hbelow hi)
  | own w hw =>
    rw [Option.bind_some]
    cases w with
    | object ms => exact shows_own hdoc hgood i k'
    | null | bool | number | string | array =>
      apply Shows.missing
      rw [node_key hw]
      rfl
  | gained j w hi hj hval =>
    rw [Option.bind_some]
    cases w with
    | object ms =>
      show Shows doc docs i k' (k :: q) ((H (.source j (k :: q))).lookup k')
      rw [hgood.owned _ (owner_of_valueAt hval)]
      exact shows_valueAt (hbelow hi)
    | null | bool | number | string | array => exact .missing (hbelow hi)

/-- A map is found under keys that are those of an object. -/
theorem Shows.object (h : Shows doc docs i k q x) {a : Ref} (hx : x = some (.map a)) :
    ∃ j, isObject (node doc j (k :: q)) = true := by
  have hobj : ∀ j w, node doc j (k :: q) = some w → some (toVal j (k :: q) w) = some (.map a) →
      isObject (node doc j (k :: q)) = true := by
    intro j w hw heq
    rw [hw]
    cases w with
    | object ms => rfl
    | null | bool | number | string | array => cases heq
  cases h with
  | own w hw => exact ⟨i, hobj i w hw hx⟩
  | gained j w _ hj _ => exact ⟨j, hobj j w hj hx⟩
  | missing => contradiction

theorem alike_marshal (hn : isObject (some w) = true → 0 < n) :
    Alike (some (marshal n H (toVal i q w))) (some w) := by
  cases hobj : isObject (some w) with
  | false =>
    rw [marshal_leaf hobj]
    exact Alike.refl _
  | true =>
    obtain ⟨m, rfl⟩ : ∃ m, n = m + 1 := ⟨n - 1, by have := hn hobj; omega⟩
    obtain ⟨ms, hw⟩ := isObject_iff.mp hobj
    cases hw
    exact .object _ _

/-- What is written for it: the document's value, or the first one of all documents. -/
theorem Shows.alike (h : Shows doc docs i k q x) (ho : (owner doc docs q).isSome = true)
    (hn : ∀ j, isObject (node doc j (k :: q)) = true → 0 < n) :
    (∀ v, node doc i (k :: q) = some v → Alike (x.map (marshal n H)) (some v)) ∧
      (node doc i (k :: q) = none → x.map (marshal n H) = none ∨
        Alike (x.map (marshal n H)) (docs.findSome? fun j => node doc j (k :: q))) := by
  have hwritten : ∀ j w, node doc j (k :: q) = some w →
      Alike (some (marshal n H (toVal j (k :: q) w))) (some w) := by
    intro j w hj
    apply alike_marshal
    intro hobj
    apply hn j
    rw [hj]
    exact hobj
  cases h with
  | missing hi =>
    constructor
    · intro v hv
      rw [hi] at hv
      contradiction
    · intro _
      exact .inl rfl
  | own w hw =>
    constructor
    · intro v hv
      rw [hw] at hv
      cases hv
      exact hwritten i w hw
    · intro hnone
      rw [hw] at hnone
      contradiction
  | gained j w hi hj hval =>
    constructor
    · intro v hv
      rw [hi] at hv
      contradiction
    · intro _
      right
      rw [← findSome?_mergedAt ho]
      rcases first_cases doc docs q k with ⟨hnone, _⟩ | ⟨i', v, hv, hi', hfirst, _⟩
      · rw [hnone] at hval
        contradiction
      · rw [hfirst]
        rw [hv] at hval
        rw [← hval]
        exact hwritten i' v hi'

end

/-! ## The documents that are written -/

/-- Document `i` before its numbers are encoded. -/
def writtenDoc (c : W3CCapabilities) (H : Heap) (p : Json) : Nat → Json
  | 0 => marshalAlwaysMatch c H p
  | i + 1 => marshalAlternative c H i

section

variable {c c' : W3CCapabilities} {order order' : MapOrder} {p : Json} {H : Heap} {i : Nat}
  {k k₀ : GoString} {q r : List GoString} {v : Json}

theorem getLast?_of_suffix (h : k :: r <:+ q) : (k :: r).getLast? = q.getLast? := by
  obtain ⟨l, rfl⟩ := h
  rw [List.getLast?_append, List.getLast?_cons]
  rfl

theorem follow_shows (hdoc : ∀ i, (c.doc i).WellFormed) (order : MapOrder) (p : Json)
    (hkey : i = 0 → (k :: q).getLast? ≠ some proxy) :
    Shows c.doc c.docs i k q
      (follow (updateProxy (c.merge order) p) (toVal i [] (c.doc i)) (k :: q)) := by
  have hgood := W3CCapabilities.merge_good hdoc order
  induction q generalizing k with
  | nil =>
    have hcell : ((updateProxy (c.merge order) p) (.source i [])).lookup k =
        (c.merge order (.source i [])).lookup k := by
      by_cases hi : i = 0
      · have hk : k ≠ proxy := fun heq => hkey hi (congrArg some heq)
        rw [hi, updateProxy, assign_self, if_neg hk]
      · rw [updateProxy_ne]
        intro heq
        cases heq
        exact hi rfl
    show Shows c.doc c.docs i k [] ((toVal i [] (c.doc i)).step (updateProxy (c.merge order) p) k)
    have hown := shows_own hdoc (hgood []) i k
    have hnode : node c.doc i [k] = (c.doc i).child (.key k) := rfl
    generalize c.doc i = v at hnode
    cases v with
    | object ms =>
      rw [← hcell] at hown
      exact hown
    | null | bool | number | string | array => exact .missing hnode
  | cons k' q ih =>
    have habove := ih (k := k') fun hi => by
      rw [getLast?_of_suffix (List.suffix_cons k (k' :: q))]
      exact hkey hi
    apply habove.step hdoc
    apply (hgood (k' :: q)).congr (List.cons_ne_nil k' q)
    intro j
    apply updateProxy_ne
    intro heq
    cases heq

theorem writtenDoc_eq (H : Heap) (p : Json) (h : i = 0 → c.alwaysMatch.isSome = true) :
    writtenDoc c H p i = marshal c.depth H (toVal i [] (c.doc i)) := by
  cases i with
  | zero =>
    obtain ⟨m, hm⟩ := Option.isSome_iff_exists.mp (h rfl)
    rw [writtenDoc, marshalAlwaysMatch, W3CCapabilities.doc, hm]
    rfl
  | succ i =>
    rw [writtenDoc, marshalAlternative, W3CCapabilities.doc]
    cases (c.alternatives[i]?).join with
    | none => exact (marshal_leafVal c.depth H .null).symm
    | some m => rfl

theorem atKeys_eq_none (hk : (k :: q).getLast? = some k₀) (h : v.child (.key k₀) = none) :
    atKeys v (k :: q) = none := by
  obtain ⟨l, hl⟩ := List.getLast?_eq_some_iff.mp hk
  rw [hl, atKeys_append]
  show (v.child (.key k₀)).bind _ = none
  rw [h]
  rfl

/-- Without a part for all there is nothing under any keys of it. -/
theorem node_missing (hnone : c.alwaysMatch = none) (k : GoString) (q : List GoString) :
    node c.doc 0 (k :: q) = none := by
  have hdoc₀ : c.doc 0 = .null := by
    rw [W3CCapabilities.doc, hnone]
    rfl
  rw [node, hdoc₀]
  exact atKeys_eq_none (List.getLast?_eq_some_getLast (List.cons_ne_nil k q)) rfl

/-- The one that is made for it has the proxy alone. -/
theorem atKeys_made (hnone : c.alwaysMatch = none) (H : Heap) (p : Json)
    (hkey : (k :: q).getLast? ≠ some proxy) : atKeys (writtenDoc c H p 0) (k :: q) = none := by
  have hlast : (k :: q).getLast? = some ((k :: q).getLast (List.cons_ne_nil k q)) :=
    List.getLast?_eq_some_getLast (List.cons_ne_nil k q)
  rw [writtenDoc, marshalAlwaysMatch, hnone]
  apply atKeys_eq_none hlast
  rw [Json.child_object, List.lookup_cons, beq_eq_false_iff_ne.mpr]
  · rfl
  · intro heq
    apply hkey
    rw [hlast, heq]

/-- The depth is enough for all maps that the keys lead through. -/
theorem atKeys_writtenDoc (hdoc : ∀ i, (c.doc i).WellFormed) (order : MapOrder) (p : Json)
    (hsome : i = 0 → c.alwaysMatch.isSome = true) (hkey : (k :: q).getLast? ≠ some proxy) :
    atKeys (writtenDoc c (updateProxy (c.merge order) p) p i) (k :: q) =
      (follow (updateProxy (c.merge order) p) (toVal i [] (c.doc i)) (k :: q)).map
        (marshal (c.depth - (k :: q).length) (updateProxy (c.merge order) p)) := by
  rw [writtenDoc_eq _ p hsome]
  apply atKeys_marshal
  intro r a hr ha
  cases r with
  | nil =>
    apply length_lt_depth (i := i)
    have hroot : toVal i [] (c.doc i) = .map a := Option.some.inj ha
    show isObject (some (c.doc i)) = true
    generalize c.doc i = v at hroot
    cases v with
    | object ms => rfl
    | null | bool | number | string | array => contradiction
  | cons k' r =>
    have hshows := follow_shows hdoc order p (i := i) (k := k') (q := r) fun _ => by
      rw [getLast?_of_suffix hr]
      exact hkey
    obtain ⟨j, hj⟩ := hshows.object ha
    exact length_lt_depth hj

/-- What a written document has at some keys, apart from the proxy. -/
theorem writtenDoc_alike (hdoc : ∀ i, (c.doc i).WellFormed) (order : MapOrder) (p : Json)
    (hkey : (k :: q).getLast? ≠ some proxy) (ho : (owner c.doc c.docs q).isSome = true) (i : Nat) :
    (∀ v, node c.doc i (k :: q) = some v →
      Alike (atKeys (writtenDoc c (updateProxy (c.merge order) p) p i) (k :: q)) (some v)) ∧
    (node c.doc i (k :: q) = none →
      atKeys (writtenDoc c (updateProxy (c.merge order) p) p i) (k :: q) = none ∨
        Alike (atKeys (writtenDoc c (updateProxy (c.merge order) p) p i) (k :: q))
          (c.docs.findSome? fun j => node c.doc j (k :: q))) := by
  by_cases hmade : i = 0 ∧ c.alwaysMatch = none
  · obtain ⟨rfl, hnone⟩ := hmade
    constructor
    · intro v hv
      rw [node_missing hnone] at hv
      contradiction
    · intro _
      exact .inl (atKeys_made hnone _ p hkey)
  · have hsome : i = 0 → c.alwaysMatch.isSome = true := by
      intro hi
      rw [Option.isSome_iff_ne_none]
      exact fun hnone => hmade ⟨hi, hnone⟩
    rw [atKeys_writtenDoc hdoc order p hsome hkey]
    apply (follow_shows hdoc order p fun _ => hkey).alike ho
    intro j hj
    have hlen := length_lt_depth hj
    omega

/-! ## The result of the second merge -/

theorem result_alike_first (hdoc : ∀ i, (c.doc i).WellFormed) (order : MapOrder)
    (ho : (owner c.doc c.docs q).isSome = true) (k : GoString) :
    Alike (atKeys (c.result order) (k :: q)) (c.docs.findSome? fun i => node c.doc i (k :: q)) := by
  rcases atKeys_result_cons order hdoc ho k with ⟨hnone, hresult⟩ | hvalue
  · rw [hnone, hresult]
    exact .missing
  · obtain ⟨v, w, hfirst, hresult, hobj, heq, _⟩ := hvalue
    rw [hfirst, hresult]
    apply alike_some hobj
    intro hv
    rw [heq hv]
    exact Json.SameDouble.refl v

/-- Two results whose first values are alike below the objects that they share. -/
theorem result_alike (hdoc : ∀ i, (c.doc i).WellFormed) (hdoc' : ∀ i, (c'.doc i).WellFormed)
    (order order' : MapOrder) (q : List GoString)
    (hq : ∀ k r, k :: r <:+ q → (owner c.doc c.docs r).isSome = true →
      Alike (c'.docs.findSome? fun i => node c'.doc i (k :: r))
        (c.docs.findSome? fun i => node c.doc i (k :: r))) :
    Alike (atKeys (c'.result order') q) (atKeys (c.result order) q) := by
  induction q with
  | nil => exact .object _ _
  | cons k q ih =>
    have habove := ih fun k' r hr => hq k' r (hr.trans (List.suffix_cons k q))
    cases hobj : isObject (atKeys (c.result order) q) with
    | false =>
      have hnone : ∀ v, isObject (atKeys v q) = false → atKeys v (k :: q) = none := by
        intro v hv
        rw [← Option.not_isSome_iff_eq_none]
        intro hsome
        rw [isObject_atKeys hsome] at hv
        contradiction
      rw [hnone _ hobj, hnone _ (habove.isObject_eq.trans hobj)]
      exact .missing
    | true =>
      have ho := (isObject_result_iff hdoc q).mp hobj
      have ho' := (isObject_result_iff hdoc' q).mp (habove.isObject_eq.trans hobj)
      exact (result_alike_first hdoc' order' ho' k).trans
        ((hq k q (List.suffix_refl _) ho).trans (result_alike_first hdoc order ho k).symm)

/-- The order in which the maps are visited does not matter. -/
theorem result_order (hdoc : ∀ i, (c.doc i).WellFormed) (order order' : MapOrder) :
    (c.result order').SameDouble (c.result order) :=
  sameDouble_of_alike fun q => result_alike hdoc hdoc order order' q fun _ _ _ _ => Alike.refl _

theorem first_docs (q : List GoString) (k : GoString) :
    c.docs.findSome? (fun i => node c.doc i (k :: q)) =
      (0 :: (List.range c.alternatives.length).map (· + 1)).findSome? fun i =>
        node c.doc i (k :: q) := by
  rw [W3CCapabilities.docs]
  cases h : c.alwaysMatch with
  | some m => rfl
  | none =>
    rw [List.findSome?_cons, node_missing h]
    rfl

/-- The documents that are written merge to what was merged before, apart from the proxy. -/
theorem result_again (hdoc : ∀ i, (c.doc i).WellFormed) (hdoc' : ∀ i, (c'.doc i).WellFormed)
    (order order' : MapOrder) (p : Json) (hlen : c'.alternatives.length = c.alternatives.length)
    (hwritten : ∀ i ∈ 0 :: (List.range c.alternatives.length).map (· + 1),
      (c'.doc i).SameDouble (writtenDoc c (updateProxy (c.merge order) p) p i))
    (hq : q.getLast? ≠ some proxy) :
    Alike (atKeys (c'.result order') q) (atKeys (c.result order) q) := by
  apply result_alike hdoc hdoc' order order' q
  intro k r hr ho
  have hkey : (k :: r).getLast? ≠ some proxy := by
    rw [getLast?_of_suffix hr]
    exact hq
  rw [first_docs, first_docs, hlen]
  apply first_alike rfl
  intro i hi
  have hsame := alike_atKeys (hwritten i hi) (k :: r)
  have hshown := writtenDoc_alike hdoc order p hkey ho i
  rw [first_docs] at hshown
  constructor
  · intro v hv
    exact hsame.trans (hshown.1 v hv)
  · intro hnone
    rcases hshown.2 hnone with h | h
    · left
      rw [h] at hsame
      exact hsame.eq_none
    · exact .inr (hsame.trans h)

end

end Selebrow.Models
