import Selebrow.Capabilities.Raw

/-!
# What the merged capabilities have

The result of `Merge`, read key by key.  At some keys it is an object exactly when the
first of the documents that take part there has one, and those that take part are all that
have an object there.
-/

namespace Selebrow.Models

/-- The value at these keys, if there is one and it is not an object. -/
def scalarAt (v : Json) (q : List GoString) : Option Json :=
  (atKeys v q).filter fun w => !isObject (some w)

namespace W3CCapabilities

variable (c : W3CCapabilities) (order : MapOrder)

/-- The result of `Merge`. -/
def result : Json := .object (c.merged order).entries

end W3CCapabilities

/-- Every value of the result that is not an object is that of the first document with such
a value there, `AlwaysMatch` keeps its values, and a value that is missing has one of an
earlier document in its way. -/
structure KeepsPrecedence (c : W3CCapabilities) (result : Json) : Prop where
  first : ∀ q v, atKeys result q = some v → isObject (some v) = false →
    c.docs.findSome? (fun i => scalarAt (c.doc i) q) = some v
  always : ∀ m, c.alwaysMatch = some m → ∀ q v, atKeys (.object m.entries) q = some v →
    isObject (some v) = false → atKeys result q = some v
  covered : ∀ i ∈ c.docs, ∀ q, (atKeys (c.doc i) q).isSome = true →
    (atKeys result q).isSome = true ∨
      ∃ r, r <:+ q ∧ r ≠ q ∧ ∃ v, atKeys result r = some v ∧ isObject (some v) = false ∧
        ∃ j ∈ c.docs, j < i ∧ atKeys (c.doc j) r = some v

section

variable {doc : Nat → Json} {docs : List Nat} {i j : Nat} {k : GoString} {q r : List GoString}
  {v w : Json}

/-! ## The documents that take part -/

theorem atKeys_cons (v : Json) (k : GoString) (q : List GoString) :
    atKeys v (k :: q) = (atKeys v q).bind fun c => c.child (.key k) := rfl

theorem child_key_object (h : (v.child (.key k)).isSome = true) : isObject (some v) = true := by
  cases v with
  | object members => rfl
  | null | bool | number | string | array => contradiction

/-- Above a value there are objects. -/
theorem isObject_atKeys (h : (atKeys v (k :: q)).isSome = true) : isObject (atKeys v q) = true := by
  rw [atKeys_cons] at h
  cases hq : atKeys v q with
  | none =>
    rw [hq] at h
    contradiction
  | some w =>
    rw [hq] at h
    exact child_key_object h

theorem isSome_of_isObject {x : Option Json} (h : isObject x = true) : x.isSome = true := by
  obtain ⟨members, rfl⟩ := isObject_iff.mp h
  rfl

theorem owner_cons_isSome :
    (owner doc docs (k :: q)).isSome = true ↔ mergedAt doc docs (k :: q) ≠ [] := by
  rw [owner, Option.isSome_map, List.isSome_head?]

/-- A merged object lies in merged objects. -/
theorem owner_isSome_tail (h : (owner doc docs (k :: q)).isSome = true) :
    (owner doc docs q).isSome = true := by
  cases q with
  | nil => rfl
  | cons k' q =>
    rw [owner_cons_isSome] at h ⊢
    intro hnil
    exact h (mergedAt_suffix_nil hnil (List.suffix_cons k (k' :: q)))

/-- All documents with an object at the keys take part in the merged one. -/
theorem mergedAt_eq_filter (h : (owner doc docs (k :: q)).isSome = true) :
    mergedAt doc docs (k :: q) = docs.filter fun i => isObject (node doc i (k :: q)) := by
  induction q generalizing k with
  | nil =>
    have hne := owner_cons_isSome.mp h
    rw [mergedAt_cons_eq] at hne ⊢
    split at hne
    · rename_i hobj
      rw [if_pos hobj]
      rfl
    · exact absurd rfl hne
  | cons k' q ih =>
    have hne := owner_cons_isSome.mp h
    rw [mergedAt_cons_eq] at hne ⊢
    split at hne
    · rename_i hobj
      rw [if_pos hobj, ih (owner_isSome_tail h), List.filter_filter]
      apply List.filter_congr
      intro i _
      cases hk : isObject (node doc i (k :: k' :: q)) with
      | false => rfl
      | true =>
        rw [Bool.true_and]
        exact isObject_atKeys (isSome_of_isObject hk)
    · exact absurd rfl hne

theorem findSome?_filter_of_imp {α β : Type} {p : α → Bool} {f : α → Option β}
    (h : ∀ a, (f a).isSome = true → p a = true) (l : List α) :
    (l.filter p).findSome? f = l.findSome? f := by
  induction l with
  | nil => rfl
  | cons a l ih =>
    cases hp : p a with
    | true => rw [List.filter_cons_of_pos hp, List.findSome?_cons, List.findSome?_cons, ih]
    | false =>
      have hf : f a = none := by
        cases hf : f a with
        | none => rfl
        | some b =>
          have := h a (by rw [hf]; rfl)
          rw [hp] at this
          contradiction
      rw [List.filter_cons_of_neg (by rw [hp]; exact Bool.false_ne_true), List.findSome?_cons, hf, ih]

/-- The first of the documents that take part is the first of all documents. -/
theorem findSome?_mergedAt (h : (owner doc docs q).isSome = true) (k : GoString) :
    (mergedAt doc docs q).findSome? (fun i => node doc i (k :: q)) =
      docs.findSome? fun i => node doc i (k :: q) := by
  cases q with
  | nil => rfl
  | cons k' q =>
    rw [mergedAt_eq_filter h]
    exact findSome?_filter_of_imp (fun i hi => isObject_atKeys hi) docs

end

/-! ## The result -/

section

variable {c : W3CCapabilities} {order : MapOrder} {i j : Nat} {k : GoString} {q r : List GoString}
  {v w : Json} {a : Ref}

theorem length_of_owner (h : (owner c.doc c.docs (k :: q)).isSome = true) :
    (k :: q).length < c.depth := by
  have hne := owner_cons_isSome.mp h
  rw [mergedAt_eq_filter h] at hne
  obtain ⟨i, hi⟩ := List.exists_mem_of_ne_nil _ hne
  exact length_lt_depth (List.mem_filter.mp hi).2

/-- What the maps of the merged objects are in the result. -/
theorem atKeys_result_child (hdoc : ∀ i, (c.doc i).WellFormed) {n : Nat}
    (ha : owner c.doc c.docs q = some a)
    (hq : atKeys (c.result order) q = some (marshal (n + 1) (c.merge order) (.map a))) :
    atKeys (c.result order) (k :: q) =
      (valueAt c.doc c.docs q k).map (marshal n (c.merge order)) := by
  rw [atKeys_cons, hq]
  show (marshal (n + 1) (c.merge order) (.map a)).child (.key k) = _
  rw [child_marshal_map, (W3CCapabilities.merge_good hdoc order q).owned a ha k]

theorem atKeys_result (order : MapOrder) (hdoc : ∀ i, (c.doc i).WellFormed) (ha : owner c.doc c.docs q = some a) :
    ∃ n, n + q.length = c.depth ∧
      atKeys (c.result order) q = some (marshal (n + 1) (c.merge order) (.map a)) := by
  induction q generalizing a with
  | nil =>
    cases ha
    exact ⟨c.depth, rfl, rfl⟩
  | cons k q ih =>
    have hsome : (owner c.doc c.docs (k :: q)).isSome = true := by
      rw [ha]
      rfl
    have hlen := length_of_owner hsome
    obtain ⟨a', ha'⟩ := Option.isSome_iff_exists.mp (owner_isSome_tail hsome)
    obtain ⟨n, hn, hq⟩ := ih ha'
    rw [List.length_cons] at hlen
    obtain ⟨n', rfl⟩ : ∃ n', n = n' + 1 := ⟨n - 1, by omega⟩
    refine ⟨n', ?_, ?_⟩
    · rw [List.length_cons]
      omega
    · rw [atKeys_result_child hdoc ha' hq]
      rcases first_cases c.doc c.docs q k with ⟨_, hfirst⟩ | ⟨i, v, hval, _, hfirst, hhead⟩
      · have hne := owner_cons_isSome.mp hsome
        rw [mergedAt_cons_eq, hfirst] at hne
        exact absurd rfl hne
      · have hne := owner_cons_isSome.mp hsome
        rw [mergedAt_cons_eq, hfirst] at hne
        cases hv : isObject (some v) with
        | false =>
          rw [hv] at hne
          exact absurd rfl hne
        | true =>
          obtain ⟨members, hm⟩ := isObject_iff.mp hv
          cases hm
          rw [owner, hhead hv] at ha
          cases ha
          rw [hval]
          rfl

/-- Below a merged object the first value of the documents decides. -/
theorem atKeys_result_cons (order : MapOrder) (hdoc : ∀ i, (c.doc i).WellFormed)
    (h : (owner c.doc c.docs q).isSome = true) (k : GoString) :
    (c.docs.findSome? (fun i => node c.doc i (k :: q)) = none ∧
      atKeys (c.result order) (k :: q) = none) ∨
    ∃ v w, c.docs.findSome? (fun i => node c.doc i (k :: q)) = some v ∧
      atKeys (c.result order) (k :: q) = some w ∧
      isObject (some w) = isObject (some v) ∧
      (isObject (some v) = false → w = v) ∧
      ((owner c.doc c.docs (k :: q)).isSome = isObject (some v)) := by
  obtain ⟨a, ha⟩ := Option.isSome_iff_exists.mp h
  obtain ⟨n, hn, hq⟩ := atKeys_result order hdoc ha
  rw [atKeys_result_child hdoc ha hq, ← findSome?_mergedAt h]
  rcases first_cases c.doc c.docs q k with ⟨hval, hfirst⟩ | ⟨i, v, hval, _, hfirst, hhead⟩
  · left
    rw [hval]
    exact ⟨hfirst, rfl⟩
  · right
    rw [hval, hfirst]
    have howner : (owner c.doc c.docs (k :: q)).isSome = isObject (some v) := by
      cases hv : isObject (some v) with
      | true =>
        rw [owner, hhead hv]
        rfl
      | false =>
        rw [owner, mergedAt_cons_eq, hfirst, hv]
        rfl
    cases hv : isObject (some v) with
    | false =>
      refine ⟨v, v, rfl, ?_, rfl, fun _ => rfl, howner⟩
      show some (marshal n (c.merge order) (toVal i (k :: q) v)) = some v
      rw [marshal_leaf hv]
    | true =>
      rw [hv] at howner
      have hlen := length_of_owner howner
      rw [List.length_cons] at hlen
      obtain ⟨n', rfl⟩ : ∃ n', n = n' + 1 := ⟨n - 1, by omega⟩
      obtain ⟨members, hm⟩ := isObject_iff.mp hv
      cases hm
      refine ⟨_, _, rfl, rfl, rfl, ?_, howner⟩
      intro hleaf
      rw [hv] at hleaf
      contradiction

/-- The result has an object exactly where documents are merged into one. -/
theorem isObject_result_iff (hdoc : ∀ i, (c.doc i).WellFormed) (q : List GoString) :
    isObject (atKeys (c.result order) q) = true ↔ (owner c.doc c.docs q).isSome = true := by
  induction q with
  | nil => exact ⟨fun _ => rfl, fun _ => rfl⟩
  | cons k q ih =>
    cases ho : (owner c.doc c.docs q).isSome with
    | true =>
      rcases atKeys_result_cons order hdoc ho k with ⟨hnone, hresult⟩ | h
      · rw [hresult]
        constructor
        · intro h
          contradiction
        · intro h
          have hne := owner_cons_isSome.mp h
          rw [mergedAt_cons_eq, findSome?_mergedAt ho, hnone] at hne
          exact absurd rfl hne
      · obtain ⟨v, w, _, hresult, hobj, _, howner⟩ := h
        rw [hresult, howner, hobj]
    | false =>
      constructor
      · intro h
        have habove := ih.mp (isObject_atKeys (isSome_of_isObject h))
        rw [ho] at habove
        contradiction
      · intro h
        have habove := owner_isSome_tail h
        rw [ho] at habove
        contradiction

theorem owner_of_atKeys_result (hdoc : ∀ i, (c.doc i).WellFormed)
    (h : (atKeys (c.result order) (k :: q)).isSome = true) :
    (owner c.doc c.docs q).isSome = true :=
  (isObject_result_iff hdoc q).mp (isObject_atKeys h)

theorem scalarAt_eq_some : scalarAt v q = some w ↔ atKeys v q = some w ∧ isObject (some w) = false := by
  rw [scalarAt, Option.filter_eq_some_iff, Bool.not_eq_true']

theorem result_first (hdoc : ∀ i, (c.doc i).WellFormed) (h : atKeys (c.result order) q = some v)
    (hv : isObject (some v) = false) :
    c.docs.findSome? (fun i => scalarAt (c.doc i) q) = some v := by
  cases q with
  | nil =>
    cases h
    contradiction
  | cons k q =>
    have howner := owner_of_atKeys_result hdoc (by rw [h]; rfl)
    rcases atKeys_result_cons order hdoc howner k with ⟨_, hresult⟩ | hvalue
    · rw [h] at hresult
      contradiction
    · obtain ⟨v', w, hfirst, hresult, hobj, heq, _⟩ := hvalue
      rw [h] at hresult
      cases hresult
      rw [hv] at hobj
      cases heq hobj.symm
      obtain ⟨l₁, i, l₂, hl, hi, hbefore⟩ := List.findSome?_eq_some_iff.mp hfirst
      rw [List.findSome?_eq_some_iff]
      refine ⟨l₁, i, l₂, hl, scalarAt_eq_some.mpr ⟨hi, hv⟩, ?_⟩
      intro x hx
      rw [scalarAt]
      have hnone : atKeys (c.doc x) (k :: q) = none := hbefore x hx
      rw [hnone]
      rfl

/-! ## `AlwaysMatch` comes first -/

theorem docs_of_alwaysMatch {m : Values} (h : c.alwaysMatch = some m) :
    c.docs = 0 :: (List.range c.alternatives.length).map (· + 1) := by
  rw [W3CCapabilities.docs, h]
  rfl

theorem owner_of_alwaysMatch (order : MapOrder) (hdoc : ∀ i, (c.doc i).WellFormed) {m : Values}
    (h : c.alwaysMatch = some m) (hobj : isObject (node c.doc 0 q) = true) :
    (owner c.doc c.docs q).isSome = true := by
  induction q with
  | nil => rfl
  | cons k q ih =>
    have habove := ih (isObject_atKeys (isSome_of_isObject hobj))
    rcases atKeys_result_cons order hdoc habove k with ⟨hnone, _⟩ | hvalue
    · rw [List.findSome?_eq_none_iff] at hnone
      rw [hnone 0 (by rw [docs_of_alwaysMatch h]; exact List.mem_cons_self)] at hobj
      contradiction
    · obtain ⟨v, w, hfirst, _, _, _, howner⟩ := hvalue
      obtain ⟨members, hm⟩ := isObject_iff.mp hobj
      rw [docs_of_alwaysMatch h, List.findSome?_cons, hm] at hfirst
      cases hfirst
      exact howner

theorem result_always (hdoc : ∀ i, (c.doc i).WellFormed) {m : Values} (h : c.alwaysMatch = some m)
    (hq : atKeys (.object m.entries) q = some v) (hv : isObject (some v) = false) :
    atKeys (c.result order) q = some v := by
  have hzero : c.doc 0 = .object m.entries := by
    rw [W3CCapabilities.doc, h]
    rfl
  cases q with
  | nil =>
    cases hq
    contradiction
  | cons k q =>
    have hnode : node c.doc 0 (k :: q) = some v := by
      rw [node, hzero]
      exact hq
    have hfirst : c.docs.findSome? (fun i => node c.doc i (k :: q)) = some v := by
      rw [docs_of_alwaysMatch h, List.findSome?_cons, hnode]
    have habove := owner_of_alwaysMatch order hdoc h (isObject_atKeys (by
      show (node c.doc 0 (k :: q)).isSome = true
      rw [hnode]
      rfl))
    rcases atKeys_result_cons order hdoc habove k with ⟨hnone, _⟩ | hvalue
    · rw [hnone] at hfirst
      contradiction
    · obtain ⟨v', w, hfirst', hresult, _, heq, _⟩ := hvalue
      rw [hfirst] at hfirst'
      cases hfirst'
      rw [hresult, heq hv]

/-! ## What is missing -/

theorem docs_sorted (c : W3CCapabilities) : c.docs.Pairwise (· < ·) := by
  have hrange : ((List.range c.alternatives.length).map (· + 1)).Pairwise (· < ·) := by
    rw [List.pairwise_map]
    exact List.pairwise_lt_range.imp fun h => Nat.succ_lt_succ h
  rw [W3CCapabilities.docs]
  split
  · rw [List.singleton_append, List.pairwise_cons]
    refine ⟨?_, hrange⟩
    intro i hi
    obtain ⟨i', _, rfl⟩ := List.mem_map.mp hi
    exact Nat.succ_pos i'
  · exact hrange

/-- The first document with a value has it before a document with an object. -/
theorem first_lt (hi : i ∈ c.docs) (hobj : isObject (node c.doc i q) = true)
    (hfirst : c.docs.findSome? (fun i => node c.doc i q) = some v)
    (hv : isObject (some v) = false) : ∃ j ∈ c.docs, j < i ∧ atKeys (c.doc j) q = some v := by
  obtain ⟨l₁, j, l₂, hl, hj, hbefore⟩ := List.findSome?_eq_some_iff.mp hfirst
  have hsorted := docs_sorted c
  rw [hl] at hi hsorted
  refine ⟨j, by rw [hl]; simp, ?_, hj⟩
  rcases List.mem_append.mp hi with hi | hi
  · rw [hbefore i hi] at hobj
    contradiction
  · rcases List.mem_cons.mp hi with rfl | hi
    · rw [hj, hv] at hobj
      contradiction
    · exact (List.pairwise_cons.mp (List.pairwise_append.mp hsorted).2.1).1 i hi

theorem result_covered (hdoc : ∀ i, (c.doc i).WellFormed) (hi : i ∈ c.docs)
    (hq : (atKeys (c.doc i) q).isSome = true) :
    (atKeys (c.result order) q).isSome = true ∨
      ∃ r, r <:+ q ∧ r ≠ q ∧ ∃ v, atKeys (c.result order) r = some v ∧
        isObject (some v) = false ∧ ∃ j ∈ c.docs, j < i ∧ atKeys (c.doc j) r = some v := by
  induction q with
  | nil => exact .inl rfl
  | cons k q ih =>
    have hobj := isObject_atKeys hq
    have hproper : ∀ r, r <:+ q → r <:+ k :: q ∧ r ≠ k :: q := by
      intro r hr
      refine ⟨hr.trans (List.suffix_cons k q), ?_⟩
      rintro rfl
      have hlen := hr.length_le
      rw [List.length_cons] at hlen
      omega
    rcases ih (isSome_of_isObject hobj) with hpresent | ⟨r, hr, _, hblocked⟩
    · cases ho : (owner c.doc c.docs q).isSome with
      | true =>
        rcases atKeys_result_cons order hdoc ho k with ⟨hnone, _⟩ | hvalue
        · rw [List.findSome?_eq_none_iff] at hnone
          have hnode : node c.doc i (k :: q) = none := hnone i hi
          rw [show atKeys (c.doc i) (k :: q) = node c.doc i (k :: q) from rfl, hnode] at hq
          contradiction
        · obtain ⟨_, w, _, hresult, _⟩ := hvalue
          left
          rw [hresult]
          rfl
      | false =>
        -- The result has a value at `q` that is not an object.
        obtain ⟨v, hv⟩ := Option.isSome_iff_exists.mp hpresent
        have hleaf : isObject (some v) = false := by
          rw [← hv, ← Bool.not_eq_true, isObject_result_iff hdoc, ho]
          exact Bool.false_ne_true
        right
        refine ⟨q, (hproper q (List.suffix_refl q)).1, (hproper q (List.suffix_refl q)).2, v, hv,
          hleaf, ?_⟩
        cases q with
        | nil => contradiction
        | cons k' q =>
          have habove := owner_of_atKeys_result hdoc hpresent
          rcases atKeys_result_cons order hdoc habove k' with ⟨_, hnone⟩ | hvalue
          · rw [hnone] at hv
            contradiction
          · obtain ⟨v', w, hfirst, hresult, hwv, heq, _⟩ := hvalue
            rw [hresult] at hv
            cases hv
            rw [hleaf] at hwv
            cases heq hwv.symm
            exact first_lt hi hobj hfirst hleaf
    · exact .inr ⟨r, (hproper r hr).1, (hproper r hr).2, hblocked⟩

/-- The merge keeps the precedence of the documents at every depth. -/
theorem merge_keepsPrecedence (c : W3CCapabilities) (hdoc : ∀ i, (c.doc i).WellFormed)
    (order : MapOrder) : KeepsPrecedence c (c.result order) where
  first _ _ h hv := result_first hdoc h hv
  always _ h _ _ hq hv := result_always hdoc h hq hv
  covered _ hi _ hq := result_covered hdoc hi hq

end

/-! ## Two sources -/

/-- The alternative adds a timeout and has another value for one that is there. -/
def timeoutCapabilities : W3CCapabilities where
  alwaysMatch := some (GoMap.ofList
    [(bytes "timeouts", .object [(bytes "script", .number (bytes "1"))])])
  firstMatch := some
    { backing := [some (GoMap.ofList
        [(bytes "timeouts", .object [(bytes "script", .number (bytes "3")),
          (bytes "pageLoad", .number (bytes "2"))])])],
      length := 1 }

theorem timeoutCapabilities_wellFormed (i : Nat) : (timeoutCapabilities.doc i).WellFormed := by
  match i with
  | 0 => exact wellFormed_singleton (wellFormed_singleton (.number _))
  | 1 =>
    apply wellFormed_singleton
    apply Json.WellFormed.object _ (by decide)
    rw [List.forall_mem_cons, List.forall_mem_singleton]
    exact ⟨.number _, .number _⟩
  | i + 2 => exact .null

theorem merge_keepsPrecedence_timeouts :
    KeepsPrecedence timeoutCapabilities (timeoutCapabilities.result visitEntries) :=
  merge_keepsPrecedence timeoutCapabilities timeoutCapabilities_wellFormed visitEntries

end Selebrow.Models
