import Selebrow.Capabilities.Request

/-!
# What the raw capabilities still say

With the default proxy put in, the raw capabilities mean what the request meant, its proxy
set, under conditions on the request alone: it has no members that `CapsWrapper` lacks and
no empty ones that `omitempty` drops, its numbers keep their values as `float64`, and no
merged map of a document gains a member from another one.
-/

namespace Selebrow.Models

/-! ## What is written for the parts of a W3C request -/

section

variable {c : W3CCapabilities} {v p p' : Json} {order : MapOrder} {i : Nat} {k : GoString}
  {q r : List GoString} {u : Json}

theorem numbersKept_sameTree {a b : Json} (h : a.SameTree b) : NumbersKept a ↔ NumbersKept b := by
  have hnumber : ∀ w p literal, Json.get w p = some (.number literal) ↔
      (w.get p).map Json.shape = some (.number literal) := by
    intro w p literal
    cases w.get p with
    | none => simp
    | some x => cases x <;> simp [Json.shape]
  unfold NumbersKept
  simp only [hnumber, h _]

theorem updateProxy_ne (H : Heap) (h : Ref.source i r ≠ .source 0 []) :
    updateProxy H p (.source i r) = H (.source i r) :=
  assign_ne H proxy (.leaf p) h

theorem no_gains_of_not_object {doc : Nat → Json} {docs : List Nat}
    (h : isObject (some (doc i)) = false) : ¬ Gains doc docs i q := by
  intro hg
  rw [isObject_root (isObject_of_gains hg)] at h
  contradiction

theorem DecodedW3C.gains_iff (h : DecodedW3C c v) :
    Gains c.doc c.docs i q ↔ Gains (requestDoc v) (requestDocs v) i q := by
  rw [gains_congr h.node_eq, h.docs_eq]

/-- A member of `alwaysMatch` other than the proxy. -/
theorem same_member (h : DecodedW3C c v) (hv : v.WellFormed) (hp : k ≠ proxy) {n : Nat}
    (hn : c.depth = n + 1) :
    Json.SameAt (((updateProxy (c.merge order) p (.source 0 [])).lookup k).map fun w =>
        Json.mapNumbers Json.reencode (marshal n (updateProxy (c.merge order) p) w))
      ((requestDoc v 0).child (.key k)) ↔
    ∀ u, (requestDoc v 0).child (.key k) = some u →
      NumbersKept u ∧ ∀ r, [k] <:+ r → ¬ Gains (requestDoc v) (requestDocs v) 0 r := by
  have hdoc := h.doc_wellFormed hv
  have hgood := W3CCapabilities.merge_good hdoc order
  have hlookup : (updateProxy (c.merge order) p (.source 0 [])).lookup k =
      (c.merge order (.source 0 [])).lookup k := by
    rw [updateProxy, assign_self, if_neg hp]
  have hnode : node c.doc 0 [k] = (requestDoc v 0).child (.key k) := h.node_eq 0 k []
  rw [hlookup, ← hnode]
  cases hu : node c.doc 0 [k] with
  | none =>
    rw [(hgood []).not_gained hdoc (fun hg => hg.1 rfl) hu]
    exact ⟨fun _ u hu => absurd hu nofun, fun _ => Json.sameAt_none⟩
  | some u =>
    rw [(hgood []).kept hdoc hu]
    have hiff := sameValue_marshal_iff (H := updateProxy (c.merge order) p) Json.reencode hdoc
      (fun r hr => ⟨c.merge order, hgood r, updateProxy_ne _ (by
        intro heq
        cases heq
        exact absurd (List.suffix_nil.mp hr) (List.cons_ne_nil k []))⟩)
      (fun r hr => length_lt_depth hr) (n := n) (by rw [hn]; exact Nat.le_refl _) hu
    show (Json.mapNumbers Json.reencode
      (marshal n (updateProxy (c.merge order) p) (toVal 0 [k] u))).SameValue u ↔ _
    rw [hiff]
    constructor
    · rintro ⟨hnumbers, hno⟩ u' hu'
      cases hu'
      exact ⟨hnumbers, fun r hr hg => hno r hr (h.gains_iff.mpr hg)⟩
    · intro hall
      obtain ⟨hnumbers, hno⟩ := hall u rfl
      exact ⟨hnumbers, fun r hr hg => hno r hr (h.gains_iff.mp hg)⟩

theorem lookup_written (H : Heap) (n : Nat) (a : Ref) (k : GoString) :
    (Json.mapMembers Json.reencode
        ((H a).entries.map fun e => (e.1, marshal n H e.2))).lookup k =
      ((H a).lookup k).map fun w => Json.mapNumbers Json.reencode (marshal n H w) := by
  rw [Json.lookup_mapMembers, lookup_map_entry fun e => marshal n H e.2, GoMap.lookup_entries,
    Option.map_map]
  rfl

theorem same_proxy (H : Heap) (n : Nat) (hp : Json.mapNumbers Json.reencode p = p) :
    Json.SameAt (((updateProxy H p (.source 0 [])).lookup proxy).map fun w =>
      Json.mapNumbers Json.reencode (marshal n (updateProxy H p) w)) (some p') ↔
    p.SameValue p' := by
  rw [updateProxy, assign_self, if_pos rfl]
  show (Json.mapNumbers Json.reencode (marshal n _ (.leaf p))).SameValue p' ↔ _
  have hleaf : marshal n (Heap.assign H (.source 0 []) proxy (.leaf p)) (.leaf p) = p := by
    cases n <;> rfl
  rw [hleaf, hp]

theorem same_alwaysMatch (h : DecodedW3C c v) (hv : v.WellFormed)
    (hp : Json.mapNumbers Json.reencode p = p) :
    (Json.mapNumbers Json.reencode
      (marshalAlwaysMatch c (updateProxy (c.merge order) p) p)).SameValue
        (Json.setMember proxy p' (requestDoc v 0)) ↔
    p.SameValue p' ∧ ∀ k u, k ≠ proxy → (requestDoc v 0).child (.key k) = some u →
      NumbersKept u ∧ ∀ r, [k] <:+ r → ¬ Gains (requestDoc v) (requestDocs v) 0 r := by
  cases ha : c.alwaysMatch with
  | none =>
    have hleaf : ∀ k, (requestDoc v 0).child (.key k) = none := by
      intro k
      rw [← h.doc_child 0 k]
      show (W3CCapabilities.ofValues c.alwaysMatch).child (.key k) = none
      rw [ha]
      rfl
    have hone : Json.mapNumbers Json.reencode
        (marshalAlwaysMatch c (updateProxy (c.merge order) p) p) = .object [(proxy, p)] := by
      rw [marshalAlwaysMatch, ha]
      show Json.object [(proxy, Json.mapNumbers Json.reencode p)] = _
      rw [hp]
    rw [hone, Json.sameValue_setMember, List.lookup_cons, beq_self_eq_true, Json.sameAt_some]
    constructor
    · rintro ⟨hsame, _⟩
      refine ⟨hsame, fun k u _ hu => ?_⟩
      rw [hleaf k] at hu
      contradiction
    · rintro ⟨hsame, _⟩
      refine ⟨hsame, ?_⟩
      · intro k hk
        rw [hleaf k, List.lookup_cons, beq_eq_false_iff_ne.mpr hk]
        exact Json.sameAt_none
  | some m =>
    have hroot : isObject (node c.doc 0 []) = true := by
      show isObject (some (W3CCapabilities.ofValues c.alwaysMatch)) = true
      rw [ha]
      rfl
    have hpos := length_lt_depth hroot
    obtain ⟨n, hn⟩ : ∃ n, c.depth = n + 1 := ⟨c.depth - 1, (Nat.succ_pred_eq_of_pos hpos).symm⟩
    have hout : marshalAlwaysMatch c (updateProxy (c.merge order) p) p =
        .object ((updateProxy (c.merge order) p (.source 0 [])).entries.map fun e =>
          (e.1, marshal n (updateProxy (c.merge order) p) e.2)) := by
      rw [marshalAlwaysMatch, ha]
      show marshal c.depth _ _ = _
      rw [hn]
      rfl
    rw [hout, Json.mapNumbers_object, Json.sameValue_setMember, lookup_written, same_proxy _ n hp]
    constructor
    · rintro ⟨hsame, hrest⟩
      refine ⟨hsame, fun k u hk hu => ?_⟩
      have hmember := hrest k hk
      rw [lookup_written] at hmember
      exact (same_member h hv hk hn).mp hmember u hu
    · rintro ⟨hsame, hall⟩
      refine ⟨hsame, fun k hk => ?_⟩
      rw [lookup_written]
      exact (same_member h hv hk hn).mpr fun u hu => hall k u hk hu

/-- An alternative of `firstMatch`. -/
theorem same_alternative (h : DecodedW3C c v) (hv : v.WellFormed)
    (hu : (requestAlternatives v)[i]? = some u) :
    (Json.mapNumbers Json.reencode
      (marshalAlternative c (updateProxy (c.merge order) p) i)).SameValue u ↔
    NumbersKept u ∧ ∀ r, ¬ Gains (requestDoc v) (requestDocs v) (i + 1) r := by
  have hdoc := h.doc_wellFormed hv
  have hgood := W3CCapabilities.merge_good hdoc order
  have hrequest : requestDoc v (i + 1) = u := by
    rw [requestDoc, hu]
    rfl
  have htree : (c.doc (i + 1)).SameTree u := by
    rw [← hrequest]
    exact h.doc_sameTree (i + 1)
  have hd := h.alternative i
  rw [hu] at hd
  cases hm : (c.alternatives[i]?).join with
  | none =>
    rw [hm] at hd
    cases hd
    have hout : marshalAlternative c (updateProxy (c.merge order) p) i = .null := by
      rw [marshalAlternative, hm]
    rw [hout]
    constructor
    · intro _
      constructor
      · intro path literal hpath
        cases path with
        | nil => cases hpath
        | cons s path => cases s <;> contradiction
      · intro r
        apply no_gains_of_not_object
        rw [hrequest]
        rfl
    · intro _
      exact Json.SameValue.refl .null
  | some m =>
    have hval : toVal (i + 1) [] (c.doc (i + 1)) = .map (.source (i + 1) []) := by
      rw [W3CCapabilities.doc, hm]
      rfl
    have hout : marshalAlternative c (updateProxy (c.merge order) p) i =
        marshal c.depth (updateProxy (c.merge order) p) (toVal (i + 1) [] (c.doc (i + 1))) := by
      rw [marshalAlternative, hm, hval]
    have hiff := sameValue_marshal_iff
      (H := updateProxy (c.merge order) p) (i := i + 1) (q := []) (n := c.depth) Json.reencode hdoc
      (fun r _ => ⟨c.merge order, hgood r, updateProxy_ne _ (by
        intro heq
        cases heq)⟩)
      (fun r hr => length_lt_depth hr) (Nat.le_refl _) rfl
    rw [hout]
    have hsame : (Json.mapNumbers Json.reencode
        (marshal c.depth (updateProxy (c.merge order) p)
          (toVal (i + 1) [] (c.doc (i + 1))))).SameValue u ↔
        (Json.mapNumbers Json.reencode
        (marshal c.depth (updateProxy (c.merge order) p)
          (toVal (i + 1) [] (c.doc (i + 1))))).SameValue (c.doc (i + 1)) :=
      ⟨fun hs => hs.trans htree.sameValue.symm, fun hs => hs.trans htree.sameValue⟩
    rw [hsame, hiff]
    have hnumbers := numbersKept_sameTree htree
    constructor
    · rintro ⟨hkept, hno⟩
      exact ⟨hnumbers.mp hkept, fun r hg => hno r List.nil_suffix (h.gains_iff.mpr hg)⟩
    · rintro ⟨hkept, hno⟩
      exact ⟨hnumbers.mpr hkept, fun r _ hg => hno r (h.gains_iff.mp hg)⟩

end

section

variable {c : W3CCapabilities} {v p : Json} {order : MapOrder} {k : GoString} {m : Option Values}
  {x : Option Json}

theorem decoded_nil_iff {m : Values} {members : List (GoString × Json)}
    (h : ∀ k, m.lookup k = members.lookup k) : m.entries = [] ↔ members = [] := by
  have hnil : ∀ l : List (GoString × Json), (∀ k, l.lookup k = none) → l = [] := by
    intro l hl
    cases l with
    | nil => rfl
    | cons e rest =>
      have hmember := hl e.1
      rw [List.lookup_cons, beq_self_eq_true] at hmember
      contradiction
  constructor
  · intro he
    apply hnil
    intro k
    rw [← h k, ← GoMap.lookup_entries, he]
    rfl
  · intro he
    apply hnil
    intro k
    rw [GoMap.lookup_entries, h k, he]
    rfl

/-- A value that `omitempty` leaves out is not the same. -/
theorem sameAt_omitted {a b d : Json} {P : Prop} (h : a = b ∨ a = d) :
    Json.SameAt none (some a) ↔ (some a ≠ some b ∧ some a ≠ some d) ∧ P := by
  constructor
  · intro hs
    exact absurd hs Json.not_sameAt_none_some
  · rintro ⟨⟨hb, hd⟩, _⟩
    rcases h with rfl | rfl
    · exact absurd rfl hb
    · exact absurd rfl hd

/-- The field of the desired capabilities. -/
theorem same_mapField (h : DecodedMap m x) (name : GoString) :
    Json.SameAt (((mapField name m).lookup name).map (Json.mapNumbers Json.reencode)) x ↔
      (x ≠ some .null ∧ x ≠ some (.object [])) ∧ ∀ d, x = some d → NumbersKept d := by
  cases h with
  | missing =>
    constructor
    · intro _
      exact ⟨⟨nofun, nofun⟩, nofun⟩
    · intro _
      exact Json.sameAt_none
  | null => exact sameAt_omitted (.inl rfl)
  | object m members h =>
    have htree : (Json.object m.entries).SameTree (.object members) :=
      (DecodedMap.object m members h).sameTree
    by_cases he : m.entries = []
    · rw [mapField, if_pos he, (decoded_nil_iff h).mp he]
      exact sameAt_omitted (.inr rfl)
    · have hne : members ≠ [] := fun hnil => he ((decoded_nil_iff h).mpr hnil)
      rw [mapField, if_neg he, List.lookup_cons, beq_self_eq_true]
      show (Json.mapNumbers Json.reencode (.object m.entries)).SameValue (.object members) ↔ _
      have hiff : (Json.mapNumbers Json.reencode (.object m.entries)).SameValue (.object members) ↔
          NumbersKept (.object members) := by
        rw [htree.mapNumbers]
        exact sameValue_numbers
      rw [hiff]
      constructor
      · intro hkept
        refine ⟨⟨nofun, fun heq => ?_⟩, ?_⟩
        · cases heq
          exact hne rfl
        · intro d hd
          cases hd
          exact hkept
      · rintro ⟨_, hall⟩
        exact hall _ rfl

theorem getElem?_written (f : Nat → Json) {n : Nat} {l : List Json} (hn : n = l.length) (i : Nat) :
    (Json.mapElements Json.reencode ((List.range n).map f))[i]? =
      l[i]?.map fun _ => Json.mapNumbers Json.reencode (f i) := by
  rw [Json.getElem?_mapElements, List.getElem?_map]
  by_cases hi : i < n
  · rw [List.getElem?_range hi, List.getElem?_eq_getElem (hn ▸ hi)]
    rfl
  · have hle : n ≤ i := Nat.le_of_not_lt hi
    rw [List.getElem?_eq_none (List.length_range.trans_le hle),
      List.getElem?_eq_none (hn.symm.trans_le hle)]
    rfl

theorem same_firstMatch (h : DecodedW3C c v) (hv : v.WellFormed) :
    Json.SameAt (((firstMatchField c (updateProxy (c.merge order) p)).lookup firstMatch).map
        (Json.mapNumbers Json.reencode)) (v.child (.key firstMatch)) ↔
      (v.child (.key firstMatch) ≠ some .null ∧ v.child (.key firstMatch) ≠ some (.array [])) ∧
      ∀ (i : Nat) u, (requestAlternatives v)[i]? = some u →
        NumbersKept u ∧ ∀ r, ¬ Gains (requestDoc v) (requestDocs v) (i + 1) r := by
  have hlen := h.length_eq
  have hf := h.first
  generalize hl : c.alternatives = l at hf
  generalize hy : v.child (.key firstMatch) = y at hf
  cases hf with
  | missing =>
    have hnil : requestAlternatives v = [] := by
      rw [requestAlternatives, hy]
    rw [firstMatchField, if_pos hl]
    constructor
    · intro _
      refine ⟨⟨nofun, nofun⟩, fun i u hu => ?_⟩
      rw [hnil] at hu
      contradiction
    · intro _
      exact Json.sameAt_none
  | null =>
    rw [firstMatchField, if_pos hl]
    exact sameAt_omitted (.inl rfl)
  | array l elements hall =>
    have hrequest : requestAlternatives v = elements := by
      rw [requestAlternatives, hy]
    by_cases hnil : l = []
    · have helements : elements = [] := by
        subst hnil
        cases hall
        rfl
      rw [firstMatchField, if_pos (hl.trans hnil), helements]
      exact sameAt_omitted (.inr rfl)
    · have hne : elements ≠ [] := by
        rintro rfl
        cases hall
        exact hnil rfl
      have hat := fun i : Nat => getElem?_written (marshalAlternative c
        (updateProxy (c.merge order) p)) (hlen.trans (congrArg List.length hrequest)) i
      rw [firstMatchField, if_neg (by rw [hl]; exact hnil), List.lookup_cons, beq_self_eq_true]
      show (Json.array (Json.mapElements Json.reencode _)).SameValue (.array elements) ↔ _
      rw [Json.sameValue_array]
      constructor
      · intro hs
        refine ⟨⟨nofun, fun heq => ?_⟩, ?_⟩
        · cases heq
          exact hne rfl
        · intro i u hu
          rw [hrequest] at hu
          have hi := hs i
          rw [hat i, hu] at hi
          exact (same_alternative h hv (hrequest ▸ hu)).mp hi
      · rintro ⟨_, hrest⟩ i
        rw [hat i]
        cases hu : elements[i]? with
        | none => exact Json.sameAt_none
        | some u =>
          have hu' : (requestAlternatives v)[i]? = some u := by
            rw [hrequest]
            exact hu
          exact (same_alternative h hv hu').mpr (hrest i u hu')

end

/-! ## The numbers of a request -/

section

variable {body v : Json} {m : Option Values} {l : List (Option Values)} {x : Option Json}

theorem numbersKept_null : NumbersKept .null :=
  (numbersKept_child (v := .null) nofun).mpr fun s _ hc => by cases s <;> contradiction

theorem numbersKeptOutside_key {ms : List (GoString × Json)} {k : GoString}
    {path : List Json.Step} :
    NumbersKeptOutside (.key k :: path) (.object ms) ↔
      (∀ c, ms.lookup k = some c → NumbersKeptOutside path c) ∧
        ∀ k' c, k' ≠ k → ms.lookup k' = some c → NumbersKept c := by
  rw [numbersKeptOutside_cons (v := .object ms) nofun]
  constructor
  · rintro ⟨hin, hout⟩
    exact ⟨hin, fun k' c hk => hout (.key k') c fun heq => hk (Json.Step.key.inj heq)⟩
  · rintro ⟨hin, hout⟩
    refine ⟨hin, fun s c hs hc => ?_⟩
    cases s with
    | key k' => exact hout k' c (fun heq => hs (by rw [heq])) hc
    | index i => contradiction

theorem numbers_map (h : DecodedMap m x) (k : GoString) :
    (∀ a, x = some a → NumbersKeptOutside [.key k] a) ↔
      ∀ k' u, k' ≠ k → (x.getD .null).child (.key k') = some u → NumbersKept u := by
  cases h with
  | missing =>
    constructor
    · intro _ k' u _ hu
      contradiction
    · intro _ a ha
      contradiction
  | null =>
    constructor
    · intro _ k' u _ hu
      contradiction
    · intro _ a ha p literal _ hp
      cases ha
      exact numbersKept_null p literal hp
  | object m members _ =>
    constructor
    · intro hall
      exact (numbersKeptOutside_key.mp (hall _ rfl)).2
    · intro hall a ha
      cases ha
      exact numbersKeptOutside_key.mpr ⟨fun _ _ => numbersKeptOutside_nil, hall⟩

theorem numbers_firstMatch (h : DecodedSlice l (v.child (.key firstMatch))) :
    (∀ f, v.child (.key firstMatch) = some f → NumbersKept f) ↔
      ∀ (i : Nat) u, (requestAlternatives v)[i]? = some u → NumbersKept u := by
  unfold requestAlternatives
  generalize v.child (.key firstMatch) = y at h ⊢
  cases h with
  | missing =>
    constructor
    · intro _ i u hu
      contradiction
    · intro _ f hf
      contradiction
  | null =>
    constructor
    · intro _ i u hu
      contradiction
    · intro _ f hf
      cases hf
      exact numbersKept_null
  | array l elements _ =>
    constructor
    · intro hall
      exact numbersKept_array.mp (hall _ rfl)
    · intro hall f hf
      cases hf
      exact numbersKept_array.mpr hall

/-- The numbers of a W3C request outside its proxy. -/
theorem numbers_w3c (hobj : isObject (body.child (.key capabilities)) = true)
    (hnames : ∀ k, (body.child (.key k)).isSome = true →
      k = desiredCapabilities ∨ k = capabilities)
    (hparts : ∀ k, ((capsOf body).child (.key k)).isSome = true →
      k = alwaysMatch ∨ k = firstMatch)
    (hfirst : DecodedSlice l ((capsOf body).child (.key firstMatch)))
    (halways : DecodedMap m ((capsOf body).child (.key alwaysMatch))) :
    NumbersKeptOutside [.key capabilities, .key alwaysMatch, .key proxy] body ↔
      (∀ d, body.child (.key desiredCapabilities) = some d → NumbersKept d) ∧
      (∀ k u, k ≠ proxy → (requestDoc (capsOf body) 0).child (.key k) = some u →
        NumbersKept u) ∧
      ∀ (i : Nat) u, (requestAlternatives (capsOf body))[i]? = some u → NumbersKept u := by
  rw [← numbers_firstMatch hfirst, requestDoc, ← numbers_map halways proxy]
  obtain ⟨parts, hcaps⟩ := isObject_iff.mp hobj
  have hof : capsOf body = .object parts := by
    rw [capsOf, hcaps]
    rfl
  rw [hof] at hparts ⊢
  cases body with
  | object members =>
    have hlookup : members.lookup capabilities = some (.object parts) := hcaps
    rw [numbersKeptOutside_key]
    constructor
    · rintro ⟨hin, hout⟩
      obtain ⟨hal, hfm⟩ := numbersKeptOutside_key.mp (hin _ hlookup)
      exact ⟨fun d hd => hout _ d (by decide) hd, hal, fun f hf => hfm _ f (by decide) hf⟩
    · rintro ⟨hdesired, hal, hfm⟩
      constructor
      · intro c hc
        rw [hlookup] at hc
        cases hc
        refine numbersKeptOutside_key.mpr ⟨hal, fun k u hk hu => ?_⟩
        have hsome : (parts.lookup k).isSome = true := by
          rw [hu]
          rfl
        rcases hparts k hsome with rfl | rfl
        · exact absurd rfl hk
        · exact hfm u hu
      · intro k u hk hu
        have hsome : (members.lookup k).isSome = true := by
          rw [hu]
          rfl
        rcases hnames k hsome with rfl | rfl
        · exact hdesired u hu
        · exact absurd rfl hk
  | null | bool | number | string | array => contradiction

theorem numbers_jsonWire (h : DecodedMap m (body.child (.key desiredCapabilities)))
    (hobj : isObject (body.child (.key desiredCapabilities)) = true)
    (hnames : ∀ k, (body.child (.key k)).isSome = true → k = desiredCapabilities) :
    NumbersKeptOutside [.key desiredCapabilities, .key proxy] body ↔
      ∀ k u, k ≠ proxy →
        ((body.child (.key desiredCapabilities)).getD .null).child (.key k) = some u →
          NumbersKept u := by
  rw [← numbers_map h proxy]
  cases body with
  | object members =>
    rw [numbersKeptOutside_key]
    constructor
    · exact And.left
    · intro hin
      refine ⟨hin, fun k u hk hu => ?_⟩
      have hsome : (members.lookup k).isSome = true := by
        rw [hu]
        rfl
      exact absurd (hnames k hsome) hk
  | null | bool | number | string | array => contradiction

end

/-! ## Gained members, document by document -/

section

variable {doc : Nat → Json} {docs : List Nat} {v : Json} {i : Nat} {q r : List GoString}

theorem node_isSome_of_suffix (l : List GoString)
    (h : (node doc i (l ++ r)).isSome = true) : (node doc i r).isSome = true := by
  induction l with
  | nil => exact h
  | cons k l ih =>
    apply ih
    have hbind : ((node doc i (l ++ r)).bind fun c => c.child (.key k)).isSome = true := h
    cases hn : node doc i (l ++ r) with
    | none =>
      rw [hn] at hbind
      contradiction
    | some u => rfl

/-- What no map gains, apart from the maps of the proxy. -/
theorem unshared_iff :
    (∀ i q, ¬ (i = 0 ∧ q.getLast? = some proxy) → ¬ Gains (requestDoc v) (requestDocs v) i q) ↔
      (∀ k u, k ≠ proxy → (requestDoc v 0).child (.key k) = some u →
        ∀ r, [k] <:+ r → ¬ Gains (requestDoc v) (requestDocs v) 0 r) ∧
      ∀ (i : Nat) u, (requestAlternatives v)[i]? = some u →
        ∀ r, ¬ Gains (requestDoc v) (requestDocs v) (i + 1) r := by
  constructor
  · intro h
    constructor
    · rintro k u hk _ r ⟨l, rfl⟩
      apply h
      rintro ⟨_, hlast⟩
      rw [List.getLast?_append, List.getLast?_singleton] at hlast
      exact hk (Option.some.inj hlast)
    · intro i u _ r
      apply h
      rintro ⟨hi, _⟩
      contradiction
  · rintro ⟨halways, hfirst⟩ i q hq hg
    have hobj := isObject_of_gains hg
    cases i with
    | zero =>
      obtain ⟨l, k, rfl⟩ := (List.eq_nil_or_concat q).resolve_left hg.1
      rw [List.concat_eq_append] at hq hg hobj
      have hk : k ≠ proxy := by
        rintro rfl
        apply hq
        rw [List.getLast?_append, List.getLast?_singleton]
        exact ⟨rfl, rfl⟩
      have hsome : (node (requestDoc v) 0 [k]).isSome = true := by
        apply node_isSome_of_suffix l
        obtain ⟨members, hm⟩ := isObject_iff.mp hobj
        rw [hm]
        rfl
      obtain ⟨u, hu⟩ := Option.isSome_iff_exists.mp hsome
      exact halways k u hk hu _ (List.suffix_append l [k]) hg
    | succ i =>
      have hroot := isObject_root hobj
      rw [requestDoc] at hroot
      cases hu : (requestAlternatives v)[i]? with
      | none =>
        rw [hu] at hroot
        contradiction
      | some u => exact hfirst i u hu q hg

end

/-! ## The whole body -/

section

variable {body v p p' : Json} {c : W3CCapabilities} {d : Option Values} {m : Values} {H : Heap}
  {order : MapOrder} {k : GoString}

theorem lookup_mapField_ne {name : GoString} (hk : k ≠ name) :
    (mapField name d).lookup k = none := by
  cases d with
  | none => rfl
  | some m =>
    rw [mapField]
    split
    · rfl
    · rw [List.lookup_cons, beq_eq_false_iff_ne.mpr hk]
      rfl

theorem lookup_firstMatchField_ne (hk : k ≠ firstMatch) :
    (firstMatchField c H).lookup k = none := by
  rw [firstMatchField]
  split
  · rfl
  · rw [List.lookup_cons, beq_eq_false_iff_ne.mpr hk]
    rfl

theorem same_capabilities (a : Json) :
    (Json.mapNumbers Json.reencode (.object ((alwaysMatch, a) :: firstMatchField c H))).SameValue
        (Json.setAt [alwaysMatch, proxy] p v) ↔
      (Json.mapNumbers Json.reencode a).SameValue (Json.setMember proxy p (requestDoc v 0)) ∧
      Json.SameAt (((firstMatchField c H).lookup firstMatch).map (Json.mapNumbers Json.reencode))
        (v.child (.key firstMatch)) ∧
      ∀ k, (v.child (.key k)).isSome = true → k = alwaysMatch ∨ k = firstMatch := by
  have hself : (Json.mapMembers Json.reencode
      ((alwaysMatch, a) :: firstMatchField c H)).lookup alwaysMatch =
      some (Json.mapNumbers Json.reencode a) := by
    rw [Json.lookup_mapMembers, List.lookup_cons, beq_self_eq_true]
    rfl
  have hother : ∀ k, k ≠ alwaysMatch → (Json.mapMembers Json.reencode
      ((alwaysMatch, a) :: firstMatchField c H)).lookup k =
      ((firstMatchField c H).lookup k).map (Json.mapNumbers Json.reencode) := by
    intro k hk
    rw [Json.lookup_mapMembers, List.lookup_cons, beq_eq_false_iff_ne.mpr hk]
  have honly : ∀ k, ((Json.mapMembers Json.reencode
      ((alwaysMatch, a) :: firstMatchField c H)).lookup k).isSome = true →
      k = alwaysMatch ∨ k = firstMatch := by
    intro k hsome
    by_contra hne
    rw [not_or] at hne
    rw [hother k hne.1, lookup_firstMatchField_ne hne.2] at hsome
    contradiction
  rw [Json.mapNumbers_object]
  show (Json.object _).SameValue
    (Json.setMember alwaysMatch (Json.setMember proxy p (requestDoc v 0)) v) ↔ _
  rw [Json.sameValue_setMember_two (by decide) honly, hself, hother firstMatch (by decide)]
  exact Iff.rfl

theorem same_body (a : Json) :
    (Json.mapNumbers Json.reencode
        (.object (mapField desiredCapabilities d ++ [(capabilities, a)]))).SameValue
        (Json.setAt [capabilities, alwaysMatch, proxy] p body) ↔
      (Json.mapNumbers Json.reencode a).SameValue
        (Json.setAt [alwaysMatch, proxy] p (capsOf body)) ∧
      Json.SameAt (((mapField desiredCapabilities d).lookup desiredCapabilities).map
        (Json.mapNumbers Json.reencode)) (body.child (.key desiredCapabilities)) ∧
      ∀ k, (body.child (.key k)).isSome = true → k = capabilities ∨ k = desiredCapabilities := by
  have hself : (Json.mapMembers Json.reencode
      (mapField desiredCapabilities d ++ [(capabilities, a)])).lookup capabilities =
      some (Json.mapNumbers Json.reencode a) := by
    rw [Json.lookup_mapMembers, List.lookup_append, lookup_mapField_ne (by decide)]
    rfl
  have hother : ∀ k, k ≠ capabilities → (Json.mapMembers Json.reencode
      (mapField desiredCapabilities d ++ [(capabilities, a)])).lookup k =
      ((mapField desiredCapabilities d).lookup k).map (Json.mapNumbers Json.reencode) := by
    intro k hk
    rw [Json.lookup_mapMembers, List.lookup_append, List.lookup_cons,
      beq_eq_false_iff_ne.mpr hk, List.lookup_nil, Option.or_none]
  have honly : ∀ k, ((Json.mapMembers Json.reencode
      (mapField desiredCapabilities d ++ [(capabilities, a)])).lookup k).isSome = true →
      k = capabilities ∨ k = desiredCapabilities := by
    intro k hsome
    by_contra hne
    rw [not_or] at hne
    rw [hother k hne.1, lookup_mapField_ne hne.2] at hsome
    contradiction
  rw [Json.mapNumbers_object]
  show (Json.object _).SameValue (Json.setMember capabilities _ body) ↔ _
  rw [Json.sameValue_setMember_two (by decide) honly, hself, hother desiredCapabilities (by decide)]
  exact Iff.rfl

/-- The raw capabilities of a W3C request. -/
theorem same_marshalW3C (hbody : body.WellFormed)
    (hobj : isObject (body.child (.key capabilities)) = true)
    (hcaps : unmarshalW3C none (capsOf body) = some (some c))
    (hdesired : DecodedMap d (body.child (.key desiredCapabilities)))
    (hp : Json.mapNumbers Json.reencode p = p) :
    (Json.mapNumbers Json.reencode (marshalW3C d c (c.merge order) p)).SameValue
      (Json.setAt (proxyPath .w3c) p' body) ↔ p.SameValue p' ∧ ForwardsW3C body := by
  have hwf : (capsOf body).WellFormed := by
    obtain ⟨members, hm⟩ := isObject_iff.mp hobj
    rw [capsOf, hm]
    exact child_wellFormed hbody hm
  have hparts : (∀ k, ((capsOf body).child (.key k)).isSome = true →
      k = alwaysMatch ∨ k = firstMatch) → DecodedW3C c (capsOf body) := fun h =>
    unmarshalW3C_decoded hwf h hcaps
  rw [marshalW3C]
  show (Json.mapNumbers Json.reencode _).SameValue
    (Json.setAt [capabilities, alwaysMatch, proxy] p' body) ↔ _
  rw [same_body, same_capabilities, same_mapField hdesired]
  constructor
  · rintro ⟨⟨halways, hfirst, hp₁⟩, ⟨hdropped, hdn⟩, hnames⟩
    have hdec := hparts hp₁
    rw [same_alwaysMatch hdec hwf hp] at halways
    rw [same_firstMatch hdec hwf] at hfirst
    have hnames' := fun k hk => (hnames k hk).symm
    obtain ⟨hsame, halways⟩ := halways
    exact ⟨hsame, {
      names := hnames'
      parts := hp₁
      desired := hdropped
      first := hfirst.1
      numbers := (numbers_w3c hobj hnames' hp₁ hdec.first hdec.always).mpr
        ⟨hdn, fun k u hk hu => (halways k u hk hu).1, fun i u hu => (hfirst.2 i u hu).1⟩
      unshared := unshared_iff.mpr
        ⟨fun k u hk hu => (halways k u hk hu).2, fun i u hu => (hfirst.2 i u hu).2⟩ }⟩
  · rintro ⟨hsame, h⟩
    have hdec := hparts h.parts
    obtain ⟨hdn, hal, hfm⟩ :=
      (numbers_w3c hobj h.names h.parts hdec.first hdec.always).mp h.numbers
    obtain ⟨hual, hufm⟩ := unshared_iff.mp h.unshared
    rw [same_alwaysMatch hdec hwf hp, same_firstMatch hdec hwf]
    exact ⟨⟨⟨hsame, fun k u hk hu => ⟨hal k u hk hu, hual k u hk hu⟩⟩,
      ⟨h.first, fun i u hu => ⟨hfm i u hu, hufm i u hu⟩⟩, h.parts⟩,
      ⟨h.desired, hdn⟩, fun k hk => (h.names k hk).symm⟩

/-- The desired capabilities with the proxy among them. -/
theorem same_desired {x : Option Json} (h : DecodedMap (some m) x)
    (hp : Json.mapNumbers Json.reencode p = p) :
    (Json.object (Json.mapMembers Json.reencode (m.insert proxy p).entries)).SameValue
        (Json.setMember proxy p' (x.getD .null)) ↔
      p.SameValue p' ∧ ∀ k u, k ≠ proxy → (x.getD .null).child (.key k) = some u → NumbersKept u := by
  have hlookup : ∀ k, (Json.mapMembers Json.reencode (m.insert proxy p).entries).lookup k =
      if k = proxy then some p
      else ((x.getD .null).child (.key k)).map (Json.mapNumbers Json.reencode) := by
    intro k
    have hmember : m.entries.lookup k = (x.getD .null).child (.key k) := h.child k
    rw [Json.lookup_mapMembers, GoMap.lookup_entries, GoMap.lookup_insert, ← hmember,
      GoMap.lookup_entries]
    split
    · rw [Option.map_some, hp]
    · rfl
  rw [Json.sameValue_setMember, hlookup, if_pos rfl, Json.sameAt_some]
  constructor
  · rintro ⟨hsame, hrest⟩
    refine ⟨hsame, fun k u hk hu => ?_⟩
    have hmeans := hrest k hk
    rw [hlookup, if_neg hk, hu] at hmeans
    exact sameValue_numbers.mp hmeans
  · rintro ⟨hsame, hall⟩
    refine ⟨hsame, fun k hk => ?_⟩
    rw [hlookup, if_neg hk]
    cases hu : (x.getD .null).child (.key k) with
    | none => exact Json.sameAt_none
    | some u => exact sameValue_numbers.mpr (hall k u hk hu)

/-- The raw capabilities of a JsonWire request. -/
theorem same_marshalJsonWire
    (hdesired : DecodedMap (some m) (body.child (.key desiredCapabilities)))
    (hp : Json.mapNumbers Json.reencode p = p) :
    (Json.mapNumbers Json.reencode (marshalJsonWire m p)).SameValue
      (Json.setAt (proxyPath .jsonWire) p' body) ↔ p.SameValue p' ∧ ForwardsJsonWire body := by
  have hobj : isObject (body.child (.key desiredCapabilities)) = true :=
    hdesired.isSome_eq.symm
  rw [marshalJsonWire]
  show (Json.object [(desiredCapabilities,
      Json.object (Json.mapMembers Json.reencode (m.insert proxy p).entries))]).SameValue
    (Json.setMember desiredCapabilities
      (Json.setMember proxy p' ((body.child (.key desiredCapabilities)).getD .null)) body) ↔ _
  rw [Json.sameValue_setMember_one, same_desired hdesired hp]
  constructor
  · rintro ⟨⟨hsame, hnumbers⟩, hnames⟩
    exact ⟨hsame,
      { names := hnames, numbers := (numbers_jsonWire hdesired hobj hnames).mpr hnumbers }⟩
  · rintro ⟨hsame, h⟩
    exact ⟨⟨hsame, (numbers_jsonWire hdesired hobj h.names).mp h.numbers⟩, h.names⟩

/-- Members that belong to no field are not written, so that a body that is forwarded has
none of them. -/
theorem names_of_same {ms : List (GoString × Json)} {o : ProxyOptions}
    (honly : ∀ k, (ms.lookup k).isSome = true → k = desiredCapabilities ∨ k = capabilities)
    (h : (Json.mapNumbers Json.reencode (.object ms)).SameValue (withProxy body o)) :
    ∀ k, (body.child (.key k)).isSome = true → k = desiredCapabilities ∨ k = capabilities := by
  intro k hsome
  obtain ⟨k₀, w, hk₀, hset⟩ : ∃ k₀ w, (k₀ = desiredCapabilities ∨ k₀ = capabilities) ∧
      withProxy body o = Json.setMember k₀ w body := by
    unfold withProxy
    cases dialect body with
    | jsonWire => exact ⟨_, _, .inl rfl, rfl⟩
    | w3c => exact ⟨_, _, .inr rfl, rfl⟩
  rw [hset, Json.mapNumbers_object, Json.sameValue_setMember] at h
  by_cases hk : k = k₀
  · rw [hk]
    exact hk₀
  · have hmeans := (h.2 k hk).isSome_eq
    rw [hsome, Json.lookup_mapMembers, Option.isSome_map] at hmeans
    exact honly k hmeans

end

/-! ## `NewCapabilities` -/

section

variable {decode : Dialect → Values → Except GoString Decoded} {order : MapOrder} {body : Json}
  {o : ProxyOptions} {r : RawCapabilities}

theorem finish_injected {caps : Decoded} {encode : ProxyOptions → Json}
    (h : finish caps body (some o) encode = .ok r) (hi : r.injected = true) :
    r.raw = Json.mapNumbers Json.reencode (encode o) := by
  unfold finish at h
  dsimp only at h
  by_cases hres : isResolution caps.resolution = true
  · rw [if_pos hres] at h
    cases h
    by_cases hmanual : caps.proxyType = some proxyTypeManual
    · rw [if_pos hmanual] at hi
      contradiction
    · rw [if_neg hmanual]
  · rw [if_neg hres] at h
    contradiction

/-- What is encoded when the proxy is put in. -/
theorem newCapabilities_injected (h : newCapabilities decode order body (some o) = .ok r)
    (hi : r.injected = true) :
    (∃ m, unmarshal body = some { desiredCapabilities := some m, capabilities := none } ∧
      r.raw = Json.mapNumbers Json.reencode (marshalJsonWire m (encodedProxy .jsonWire o))) ∨
    ∃ d c, unmarshal body = some { desiredCapabilities := d, capabilities := some c } ∧
      r.raw = Json.mapNumbers Json.reencode
        (marshalW3C d c (c.merge order) (encodedProxy .w3c o)) := by
  unfold newCapabilities at h
  split at h
  · contradiction
  · contradiction
  · rename_i m hm
    split at h
    · contradiction
    · exact .inl ⟨m, hm, finish_injected h hi⟩
  · rename_i d c hm
    split at h
    · contradiction
    · exact .inr ⟨d, c, hm, finish_injected h hi⟩

theorem names_of_forwards (h : Forwards body) :
    ∀ k, (body.child (.key k)).isSome = true → k = desiredCapabilities ∨ k = capabilities := by
  unfold Forwards at h
  cases hd : dialect body with
  | jsonWire =>
    rw [hd] at h
    exact fun k hk => .inl (ForwardsJsonWire.names h k hk)
  | w3c =>
    rw [hd] at h
    exact ForwardsW3C.names h

theorem names_of_injected (h : newCapabilities decode order body (some o) = .ok r)
    (hi : r.injected = true) (hs : r.raw.SameValue (withProxy body o)) :
    ∀ k, (body.child (.key k)).isSome = true → k = desiredCapabilities ∨ k = capabilities := by
  rcases newCapabilities_injected h hi with ⟨m, _, hraw⟩ | ⟨d, c, _, hraw⟩
  · rw [hraw] at hs
    refine names_of_same (fun k hk => ?_) hs
    by_contra hne
    rw [not_or] at hne
    rw [List.lookup_cons, beq_eq_false_iff_ne.mpr hne.1] at hk
    contradiction
  · rw [hraw] at hs
    refine names_of_same (fun k hk => ?_) hs
    by_contra hne
    rw [not_or] at hne
    rw [List.lookup_append, lookup_mapField_ne hne.1, List.lookup_cons,
      beq_eq_false_iff_ne.mpr hne.2] at hk
    contradiction

/-- Nothing but the proxy changes, and the proxy is the default one, exactly when the strings
of the default proxy are valid and the request can be forwarded. -/
theorem changes_only_proxy_iff (decode : Dialect → Values → Except GoString Decoded)
    (order : MapOrder) (body : Json) (hbody : body.WellFormed) (o : ProxyOptions)
    (r : RawCapabilities) (h : newCapabilities decode order body (some o) = .ok r)
    (hi : r.injected = true) :
    r.raw.SameValue (withProxy body o) ↔ o.Valid ∧ Forwards body := by
  by_cases hnames : ∀ k, (body.child (.key k)).isSome = true →
      k = desiredCapabilities ∨ k = capabilities
  · rcases newCapabilities_injected h hi with ⟨m, hm, hraw⟩ | ⟨d, c, hm, hraw⟩
    · obtain ⟨hdesired, hcaps⟩ := unmarshal_decoded hbody hnames hm
      have hdialect : dialect body = .jsonWire := by
        rw [dialect]
        generalize body.child (.key capabilities) = x at hcaps
        cases hcaps <;> rfl
      rw [hraw, withProxy, Forwards, hdialect]
      rw [← encodedProxy_sameValue_iff .jsonWire o]
      exact same_marshalJsonWire hdesired (mapNumbers_encodedProxy _ o _)
    · obtain ⟨hdesired, hcaps⟩ := unmarshal_decoded hbody hnames hm
      obtain ⟨v, hv, hobj, hdec⟩ : ∃ v, body.child (.key capabilities) = some v ∧
          isObject (some v) = true ∧ unmarshalW3C none v = some (some c) := by
        generalize body.child (.key capabilities) = x at hcaps
        cases hcaps with
        | object c v hobj hdec => exact ⟨v, rfl, hobj, hdec⟩
      have hdialect : dialect body = .w3c := by
        rw [dialect, hv, if_pos hobj]
      rw [hraw, withProxy, Forwards, hdialect]
      rw [← encodedProxy_sameValue_iff .w3c o]
      apply same_marshalW3C hbody _ _ hdesired (mapNumbers_encodedProxy _ o _)
      · rw [hv]
        exact hobj
      · rw [capsOf, hv]
        exact hdec
  · constructor
    · intro hs
      exact absurd (names_of_injected h hi hs) hnames
    · rintro ⟨_, hf⟩
      exact absurd (names_of_forwards hf) hnames

end

/-! ## Two requests -/

def visitEntries : MapOrder where
  visit _ := GoMap.entries
  perm _ _ := .refl _

/-- Neither request has a proxy or a resolution. -/
def decodeNothing : Dialect → Values → Except GoString Decoded :=
  fun _ _ => .ok { proxyType := none, resolution := [] }

def squid : ProxyOptions :=
  { proxyType := proxyTypeManual, httpProxy := bytes "squid:3128",
    sslProxy := bytes "squid:3128", noProxy := some [bytes "localhost"] }

def selenoidOptions : GoString := bytes "selenoid:options"

/-- Options for any session, and two alternatives of platforms. -/
def platformsBody : Json :=
  .object [(capabilities, .object [
    (alwaysMatch, .object [(selenoidOptions, .object [(bytes "enableVNC", .bool true)])]),
    (firstMatch, .array [.object [(bytes "platformName", .string (bytes "linux"))], .object []])])]

def platformsRaw : Json :=
  .object [(capabilities, .object [
    (alwaysMatch, .object [(proxy, proxyJson .w3c squid),
      (selenoidOptions, .object [(bytes "enableVNC", .bool true)])]),
    (firstMatch, .array [.object [(bytes "platformName", .string (bytes "linux"))], .object []])])]

theorem wellFormed_singleton {k : GoString} {v : Json} (hv : v.WellFormed) :
    (Json.object [(k, v)]).WellFormed := by
  apply Json.WellFormed.object [(k, v)] (List.nodup_singleton k)
  intro e he
  rw [List.mem_singleton] at he
  rw [he]
  exact hv

theorem platformsBody_wellFormed : platformsBody.WellFormed := by
  apply wellFormed_singleton
  apply Json.WellFormed.object _ (by decide)
  rw [List.forall_mem_cons, List.forall_mem_singleton]
  constructor
  · exact wellFormed_singleton (wellFormed_singleton (.bool true))
  · apply Json.WellFormed.array
    rw [List.forall_mem_cons, List.forall_mem_singleton]
    constructor
    · exact wellFormed_singleton (.string _)
    · exact .object [] .nil nofun

theorem changes_only_proxy_platforms :
    newCapabilities decodeNothing visitEntries platformsBody (some squid) =
        .ok { raw := platformsRaw, injected := true } ∧
      (platformsRaw.SameValue (withProxy platformsBody squid) ↔
        squid.Valid ∧ Forwards platformsBody) :=
  ⟨rfl, changes_only_proxy_iff decodeNothing visitEntries platformsBody platformsBody_wellFormed
    squid { raw := platformsRaw, injected := true } rfl rfl⟩

/-- An alternative has options of its own. -/
def namedBody : Json :=
  .object [(capabilities, .object [
    (alwaysMatch, .object [(selenoidOptions, .object [(bytes "enableVNC", .bool true)])]),
    (firstMatch, .array [
      .object [(selenoidOptions, .object [(bytes "name", .string (bytes "smoke"))])],
      .object []])])]

/-- The options that must always match have gained those of the alternative. -/
def namedRaw : Json :=
  .object [(capabilities, .object [
    (alwaysMatch, .object [(proxy, proxyJson .w3c squid),
      (selenoidOptions, .object [(bytes "name", .string (bytes "smoke")),
        (bytes "enableVNC", .bool true)])]),
    (firstMatch, .array [
      .object [(selenoidOptions, .object [(bytes "name", .string (bytes "smoke"))])],
      .object []])])]

theorem options_leak :
    newCapabilities decodeNothing visitEntries namedBody (some squid) =
        .ok { raw := namedRaw, injected := true } ∧
      ¬ namedRaw.SameValue (withProxy namedBody squid) := by
  refine ⟨rfl, fun h => ?_⟩
  have hname := h [.key capabilities, .key alwaysMatch, .key selenoidOptions,
    .key (bytes "name")]
  exact absurd hname (by decide)

end Selebrow.Models
