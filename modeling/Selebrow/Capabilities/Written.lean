import Selebrow.Capabilities.Sound

/-!
# What is written is read again

The raw capabilities with the default proxy in them are a text that `NewCapabilities`
accepts: it is decoded into the documents that were written.
-/

namespace Selebrow.Models

/-! ## Soundness of what is written -/

def SoundHeap (H : Heap) : Prop := ∀ a k v, (H a).lookup k = some (.leaf v) → Sound v

section

variable {c : W3CCapabilities} {order : MapOrder} {H : Heap} {a : Ref} {i n : Nat} {k : GoString}
  {q : List GoString} {p v w : Json} {ms : List (GoString × Json)} {vs : List Json}

theorem sound_marshal (hH : SoundHeap H) (n : Nat) (x : Val) (hx : ∀ v, x = .leaf v → Sound v) :
    Sound (marshal n H x) := by
  induction n generalizing x with
  | zero =>
    cases x with
    | leaf v => exact hx v rfl
    | map a => exact sound_null
  | succ n ih =>
    cases x with
    | leaf v => exact hx v rfl
    | map a =>
      apply sound_object
      · rw [List.map_map]
        exact (H a).nodup
      · intro e he
        obtain ⟨e', he', rfl⟩ := List.mem_map.mp he
        apply ih
        intro v hv
        apply hH a e'.1 v
        rw [← hv]
        exact (GoMap.mem_iff_lookup (H a)).mp he'

theorem toVal_leaf (h : toVal i q w = .leaf v) : w = v := by
  cases w with
  | object ms => contradiction
  | null | bool | number | string | array =>
    cases h
    rfl

theorem soundHeap_merge (hdoc : ∀ i, Sound (c.doc i)) (order : MapOrder) :
    SoundHeap (c.merge order) := by
  have hwf : ∀ i, (c.doc i).WellFormed := fun i => (hdoc i).wellFormed
  have hnode : ∀ i q w, node c.doc i q = some w → Sound w := fun i q w h => (hdoc i).atKeys q h
  have hvalue : ∀ q k v, valueAt c.doc c.docs q k = some (.leaf v) → Sound v := by
    intro q k v h
    rcases first_cases c.doc c.docs q k with ⟨hnone, _⟩ | ⟨i, w, hval, hi, _⟩
    · rw [hnone] at h
      contradiction
    · rw [hval] at h
      rw [← toVal_leaf (Option.some.inj h)]
      exact hnode i (k :: q) w hi
  intro a k v h
  cases a with
  | merged =>
    rw [(W3CCapabilities.merge_good hwf order []).owned .merged rfl] at h
    exact hvalue [] k v h
  | source i q =>
    have hgood := W3CCapabilities.merge_good hwf order q
    by_cases ho : owner c.doc c.docs q = some (.source i q)
    · rw [hgood.owned _ ho] at h
      exact hvalue q k v h
    · rw [hgood.own i ho, lookup_load hwf, Option.map_eq_some_iff] at h
      obtain ⟨w, hw, hleaf⟩ := h
      rw [← toVal_leaf hleaf]
      exact hnode i (k :: q) w hw

theorem soundHeap_updateProxy (hH : SoundHeap H) (hp : Sound p) : SoundHeap (updateProxy H p) := by
  intro a k v h
  by_cases ha : a = .source 0 []
  · rw [ha, updateProxy, assign_self] at h
    split at h
    · cases h
      exact hp
    · exact hH _ k v h
  · rw [updateProxy, assign_ne _ _ _ ha] at h
    exact hH a k v h

theorem sound_single (k : GoString) (hv : Sound v) : Sound (.object [(k, v)]) := by
  have hn : ([(k, v)].map Prod.fst).Nodup := List.nodup_singleton k
  apply sound_object hn
  intro e he
  rw [List.mem_singleton.mp he]
  exact hv

theorem sound_writtenDoc (hdoc : ∀ i, Sound (c.doc i)) (order : MapOrder) (hp : Sound p) (i : Nat) :
    Sound (writtenDoc c (updateProxy (c.merge order) p) p i) := by
  have hH := soundHeap_updateProxy (soundHeap_merge hdoc order) hp
  by_cases hnil : i = 0 ∧ c.alwaysMatch = none
  · rw [hnil.1, writtenDoc, marshalAlwaysMatch, hnil.2]
    exact sound_single proxy hp
  · rw [writtenDoc_eq]
    · apply sound_marshal hH
      intro v hv
      rw [← toVal_leaf hv]
      exact hdoc i
    · intro hi
      rw [Option.isSome_iff_ne_none]
      exact fun hnone => hnil ⟨hi, hnone⟩

/-- A document is a map or null. -/
theorem writtenDoc_map (c : W3CCapabilities) (H : Heap) (p : Json) (i : Nat) :
    writtenDoc c H p i = .null ∨ isObject (some (writtenDoc c H p i)) = true := by
  have hmap : ∀ n a, marshal n H (.map a) = .null ∨ isObject (some (marshal n H (.map a))) = true := by
    intro n a
    cases n with
    | zero => exact .inl rfl
    | succ n => exact .inr rfl
  cases i with
  | zero =>
    rw [writtenDoc, marshalAlwaysMatch]
    cases c.alwaysMatch with
    | none => exact .inr rfl
    | some m => exact hmap _ _
  | succ i =>
    rw [writtenDoc, marshalAlternative]
    cases (c.alternatives[i]?).join with
    | none => exact .inl rfl
    | some m => exact hmap _ _

/-- `AlwaysMatch` has the proxy. -/
theorem writtenDoc_proxy (c : W3CCapabilities) (H : Heap) (p : Json) :
    (writtenDoc c (updateProxy H p) p 0).child (.key proxy) = some p := by
  rw [writtenDoc, marshalAlwaysMatch]
  cases hm : c.alwaysMatch with
  | none =>
    show [(proxy, p)].lookup proxy = some p
    rw [List.lookup_cons, beq_self_eq_true]
  | some m =>
    have hroot : isObject (node c.doc 0 []) = true := by
      show isObject (some (W3CCapabilities.ofValues c.alwaysMatch)) = true
      rw [hm]
      rfl
    have hpos := length_lt_depth hroot
    obtain ⟨n, hn⟩ : ∃ n, c.depth = n + 1 := ⟨c.depth - 1, (Nat.succ_pred_eq_of_pos hpos).symm⟩
    show (marshal c.depth (updateProxy H p) (.map (.source 0 []))).child (.key proxy) = some p
    rw [hn, child_marshal_map, updateProxy, assign_self, if_pos rfl, Option.map_some,
      marshal_leafVal]

/-! ## Numbers written anew -/

theorem mapElements_eq (f : GoString → GoString) (vs : List Json) :
    Json.mapElements f vs = vs.map (Json.mapNumbers f) := by
  induction vs with
  | nil => rfl
  | cons v vs ih => rw [Json.mapElements, ih, List.map_cons]

theorem mapMembers_eq (f : GoString → GoString) (ms : List (GoString × Json)) :
    Json.mapMembers f ms = ms.map fun e => (e.1, Json.mapNumbers f e.2) := by
  induction ms with
  | nil => rfl
  | cons e ms ih =>
    obtain ⟨k, v⟩ := e
    rw [Json.mapMembers, ih, List.map_cons]

def encoded (v : Json) : Json := Json.mapNumbers Json.reencode v

theorem sound_encoded (h : Sound v) : Sound (encoded v) := by
  obtain ⟨hw, hr⟩ := h
  induction hw with
  | null => exact sound_null
  | bool b => exact ⟨.bool b, rfl⟩
  | string s => exact sound_string s
  | number literal =>
    refine ⟨.number _, ?_⟩
    rw [inRange, Json.parseFloat_isSome] at hr
    show (Json.parseFloat (Json.reencode literal)).isSome = true
    rw [Json.parseFloat_isSome, Json.floatOf_reencode]
    exact hr
  | array elements _ ih =>
    show Sound (.array (Json.mapElements Json.reencode elements))
    rw [mapElements_eq]
    apply sound_array
    intro v hv
    obtain ⟨u, hu, rfl⟩ := List.mem_map.mp hv
    apply ih u hu
    rw [inRange] at hr
    exact inRange_of_element hr hu
  | object members hn _ ih =>
    show Sound (.object (Json.mapMembers Json.reencode members))
    rw [mapMembers_eq]
    apply sound_object
    · rw [List.map_map]
      exact hn
    · intro e he
      obtain ⟨e', he', rfl⟩ := List.mem_map.mp he
      exact ih e' he' (inRange_object_of_mem hr he')

theorem isObject_encoded (v : Json) : isObject (some (encoded v)) = isObject (some v) := by
  cases v <;> rfl

/-! ## A text of sound values -/

theorem mapMembers_self {f : GoString × Json → Json} (h : ∀ e ∈ ms, f e = e.2) :
    (ms.map fun e => (e.1, f e)) = ms := by
  have hid : (ms.map fun e => (e.1, f e)) = ms.map id := by
    apply List.map_congr_left
    intro e he
    rw [h e he]
    rfl
  rw [hid, List.map_id]

theorem mapFields_self {name₁ name₂ : GoString} {f₁ f₂ : Json → Json}
    (h₁ : ∀ v : Json, v.WellFormed → f₁ v = v) (h₂ : ∀ v : Json, v.WellFormed → f₂ v = v)
    (hv : v.WellFormed) : mapFields name₁ name₂ f₁ f₂ v = v := by
  cases hv with
  | object ms _ hm =>
    rw [mapFields, mapMembers_self]
    intro e he
    split
    · exact h₁ e.2 (hm e he)
    · split
      · exact h₂ e.2 (hm e he)
      · rfl
  | null | bool | number | string | array => rfl

theorem decodedMap_self (hv : v.WellFormed) : decodedMap v = v := by
  cases hv with
  | object ms _ hm =>
    rw [decodedMap, mapValues_object, mapMembers_self fun e he => Json.decoded_eq (hm e he)]
  | null | bool | number | string | array => rfl

theorem decodedSlice_self (hv : v.WellFormed) : mapArray decodedMap v = v := by
  cases hv with
  | array vs h =>
    have hid : vs.map decodedMap = vs.map id :=
      List.map_congr_left fun v hv => decodedMap_self (h v hv)
    rw [mapArray, hid, List.map_id]
  | null | bool | number | string | object => rfl

theorem decodedBody_self (hv : v.WellFormed) : decodedBody v = v :=
  mapFields_self (fun _ => decodedMap_self)
    (fun _ h => mapFields_self (fun _ => decodedMap_self) (fun _ => decodedSlice_self) h) hv

/-- A text that names no member twice is the body itself. -/
theorem unmarshalText_eq (hv : v.WellFormed) : unmarshalText v = unmarshal v := by
  rw [unmarshalText, decodedBody_self hv]
  split
  · rfl
  · rename_i hnone
    exact (Option.not_isSome_iff_eq_none.mp hnone).symm

/-! ## Decoding what is written -/

def mapOf : Json → Option Values
  | .object ms => some (GoMap.ofList ms)
  | _ => none

theorem unmarshalMap_mapOf (hv : Sound v) (hmap : v = .null ∨ isObject (some v) = true) :
    unmarshalMap none v = some (mapOf v) := by
  rcases hmap with rfl | hobj
  · rfl
  · obtain ⟨ms, h⟩ := isObject_iff.mp hobj
    cases h
    have hr := hv.inRange
    rw [inRange] at hr
    rw [unmarshalMap, if_pos hr]
    rfl

theorem sameTree_ofList (hn : (ms.map Prod.fst).Nodup) :
    (Json.object (GoMap.ofList ms).entries).SameTree (.object ms) := by
  apply Json.sameTree_of_lookup
  intro k
  rw [GoMap.lookup_entries]
  exact GoMap.lookup_ofList_eq hn k

theorem sameTree_mapOf (hv : v.WellFormed) (hmap : v = .null ∨ isObject (some v) = true) :
    (W3CCapabilities.ofValues (mapOf v)).SameTree v := by
  rcases hmap with rfl | hobj
  · exact fun _ => rfl
  · cases hv with
    | object ms hn _ => exact sameTree_ofList hn
    | null | bool | number | string | array => contradiction

theorem unmarshalElements_mapOf (h : ∀ v ∈ vs, unmarshalMap none v = some (mapOf v)) :
    unmarshalElements [] vs = some (vs.map mapOf) := by
  induction vs with
  | nil => rfl
  | cons v vs ih =>
    rw [List.forall_mem_cons] at h
    rw [unmarshalElements]
    show (unmarshalMap none v).bind _ = _
    rw [h.1, Option.bind_some]
    show (unmarshalElements [] vs).bind _ = _
    rw [ih h.2]
    rfl

theorem unmarshalFields_first {α β : Type} {name₁ name₂ : GoString} {f₁ : α → Json → Option α}
    {f₂ : β → Json → Option β} {s : α × β} {b : α} (h : f₁ s.1 v = some b)
    (ms : List (GoString × Json)) :
    unmarshalFields name₁ name₂ f₁ f₂ s ((name₁, v) :: ms) =
      unmarshalFields name₁ name₂ f₁ f₂ (b, s.2) ms := by
  rw [unmarshalFields, List.foldlM_cons, if_pos rfl, h]
  rfl

theorem unmarshalFields_second {α β : Type} {name₁ name₂ : GoString} {f₁ : α → Json → Option α}
    {f₂ : β → Json → Option β} {s : α × β} {b : β} (hne : foldName name₂ ≠ foldName name₁)
    (h : f₂ s.2 v = some b) (ms : List (GoString × Json)) :
    unmarshalFields name₁ name₂ f₁ f₂ s ((name₂, v) :: ms) =
      unmarshalFields name₁ name₂ f₁ f₂ (s.1, b) ms := by
  rw [unmarshalFields, List.foldlM_cons, if_neg hne, if_pos rfl, h]
  rfl

/-- The members of the capabilities, and what they are decoded into. -/
theorem unmarshalW3C_written (u : Json) (us : List Json) (hu : unmarshalMap none u = some (mapOf u))
    (hus : ∀ v ∈ us, unmarshalMap none v = some (mapOf v)) :
    ∃ c', unmarshalW3C none (.object ((alwaysMatch, u) ::
        if us = [] then [] else [(firstMatch, .array us)])) = some (some c') ∧
      c'.alwaysMatch = mapOf u ∧ c'.alternatives = us.map mapOf := by
  by_cases hnil : us = []
  · rw [if_pos hnil, unmarshalW3C]
    refine ⟨{ alwaysMatch := mapOf u, firstMatch := none }, ?_, rfl, ?_⟩
    · show (unmarshalFields alwaysMatch firstMatch unmarshalMap unmarshalSlice (none, none) _).map
        _ = _
      rw [unmarshalFields_first hu]
      rfl
    · rw [hnil]
      rfl
  · rw [if_neg hnil, unmarshalW3C]
    have hslice : unmarshalSlice none (.array us) =
        some (some { backing := us.map mapOf, length := us.length }) := by
      rw [unmarshalSlice]
      · show (unmarshalElements [] us).map _ = _
        rw [unmarshalElements_mapOf hus]
        rfl
      · intro heq
        exact hnil heq
    refine ⟨⟨mapOf u, some { backing := us.map mapOf, length := us.length }⟩, ?_, rfl, ?_⟩
    · show (unmarshalFields alwaysMatch firstMatch unmarshalMap unmarshalSlice (none, none) _).map
        _ = _
      rw [unmarshalFields_first hu, unmarshalFields_second (by decide) hslice]
      rfl
    · show (us.map mapOf).take us.length = us.map mapOf
      rw [List.take_of_length_le]
      exact Nat.le_of_eq (List.length_map mapOf)

/-! ## The raw capabilities -/

variable {d : Option Values} {m : Values}

/-- The documents of the alternatives, as they are written. -/
def writtenAlternatives (c : W3CCapabilities) (H : Heap) (p : Json) : List Json :=
  (List.range c.alternatives.length).map fun i => encoded (writtenDoc c H p (i + 1))

def writtenCapabilities (c : W3CCapabilities) (H : Heap) (p : Json) : Json :=
  .object ((alwaysMatch, encoded (writtenDoc c H p 0)) ::
    if writtenAlternatives c H p = [] then []
    else [(firstMatch, .array (writtenAlternatives c H p))])

theorem encoded_marshalW3C (d : Option Values) (c : W3CCapabilities) (H : Heap) (p : Json) :
    encoded (marshalW3C d c H p) =
      .object (Json.mapMembers Json.reencode (mapField desiredCapabilities d) ++
        [(capabilities, writtenCapabilities c (updateProxy H p) p)]) := by
  have happend : ∀ l l', Json.mapMembers Json.reencode (l ++ l') =
      Json.mapMembers Json.reencode l ++ Json.mapMembers Json.reencode l' := by
    intro l l'
    rw [mapMembers_eq, mapMembers_eq, mapMembers_eq, List.map_append]
  have hnil : writtenAlternatives c (updateProxy H p) p = [] ↔ c.alternatives = [] := by
    rw [writtenAlternatives, List.map_eq_nil_iff, List.range_eq_nil, List.length_eq_zero_iff]
  have hfirst : Json.mapMembers Json.reencode (firstMatchField c (updateProxy H p)) =
      if writtenAlternatives c (updateProxy H p) p = [] then []
      else [(firstMatch, .array (writtenAlternatives c (updateProxy H p) p))] := by
    rw [firstMatchField]
    by_cases h : c.alternatives = []
    · rw [if_pos h, if_pos (hnil.mpr h)]
      rfl
    · rw [if_neg h, if_neg fun h' => h (hnil.mp h')]
      show [(firstMatch, Json.array (Json.mapElements Json.reencode _))] = _
      rw [mapElements_eq, List.map_map]
      rfl
  show Json.object (Json.mapMembers Json.reencode (_ ++ _)) = _
  rw [happend]
  show Json.object (_ ++ [(capabilities, Json.object
    ((alwaysMatch, encoded (marshalAlwaysMatch c (updateProxy H p) p)) ::
      Json.mapMembers Json.reencode (firstMatchField c (updateProxy H p))))]) = _
  rw [hfirst]
  rfl

/-- The desired capabilities that go with the others. -/
theorem mapField_cases (hd : SoundMap d) :
    Json.mapMembers Json.reencode (mapField desiredCapabilities d) = [] ∨
      ∃ x, Json.mapMembers Json.reencode (mapField desiredCapabilities d) =
        [(desiredCapabilities, x)] ∧ Sound x ∧ isObject (some x) = true := by
  cases d with
  | none => exact .inl rfl
  | some m =>
    rw [mapField]
    split
    · exact .inl rfl
    · exact .inr ⟨encoded (.object m.entries), rfl, sound_encoded (sound_object m.nodup (hd m rfl)),
        rfl⟩

theorem sound_writtenCapabilities (hdoc : ∀ i, Sound (c.doc i)) (order : MapOrder) (hp : Sound p) :
    Sound (writtenCapabilities c (updateProxy (c.merge order) p) p) := by
  have hwritten := fun i => sound_encoded (sound_writtenDoc hdoc order hp i)
  have hall : Sound (.array (writtenAlternatives c (updateProxy (c.merge order) p) p)) := by
    apply sound_array
    intro v hv
    obtain ⟨i, _, rfl⟩ := List.mem_map.mp hv
    exact hwritten (i + 1)
  rw [writtenCapabilities]
  split
  · exact sound_single alwaysMatch (hwritten 0)
  · apply sound_object
    · show [alwaysMatch, firstMatch].Nodup
      decide
    · intro e he
      rcases List.mem_cons.mp he with rfl | he
      · exact hwritten 0
      · rw [List.mem_singleton.mp he]
        exact hall

theorem sound_body {D : List (GoString × Json)} {caps : Json} (hcaps : Sound caps)
    (hD : D = [] ∨ ∃ x, D = [(desiredCapabilities, x)] ∧ Sound x ∧ isObject (some x) = true) :
    Sound (.object (D ++ [(capabilities, caps)])) := by
  rcases hD with rfl | ⟨x, rfl, hx, _⟩
  · exact sound_single capabilities hcaps
  · apply sound_object
    · show [desiredCapabilities, capabilities].Nodup
      decide
    · intro e he
      rcases List.mem_cons.mp he with rfl | he
      · exact hx
      · rw [List.mem_singleton.mp he]
        exact hcaps

theorem unmarshal_body {D : List (GoString × Json)} {caps : Json} {c' : W3CCapabilities}
    (hcaps : unmarshalW3C none caps = some (some c'))
    (hD : D = [] ∨ ∃ x, D = [(desiredCapabilities, x)] ∧ Sound x ∧ isObject (some x) = true) :
    ∃ d', unmarshal (.object (D ++ [(capabilities, caps)])) =
      some { desiredCapabilities := d', capabilities := some c' } := by
  rcases hD with rfl | ⟨x, rfl, hx, hobj⟩
  · refine ⟨none, ?_⟩
    show (unmarshalFields desiredCapabilities capabilities unmarshalMap unmarshalW3C (none, none)
      [(capabilities, caps)]).map _ = _
    rw [unmarshalFields_second (by decide) hcaps]
    rfl
  · refine ⟨mapOf x, ?_⟩
    show (unmarshalFields desiredCapabilities capabilities unmarshalMap unmarshalW3C (none, none)
      [(desiredCapabilities, x), (capabilities, caps)]).map _ = _
    rw [unmarshalFields_first (unmarshalMap_mapOf hx (.inr hobj)),
      unmarshalFields_second (by decide) hcaps]
    rfl

/-- A document as it is written and read. -/
theorem sameDouble_written (hv : Sound v) (hmap : v = .null ∨ isObject (some v) = true) :
    (W3CCapabilities.ofValues (mapOf (encoded v))).SameDouble v := by
  have hmap' : encoded v = .null ∨ isObject (some (encoded v)) = true := by
    rcases hmap with rfl | hobj
    · exact .inl rfl
    · right
      rw [isObject_encoded]
      exact hobj
  exact (sameTree_mapOf (sound_encoded hv).wellFormed hmap').sameDouble.trans
    (Json.sameDouble_mapNumbers v)

/-- The second decoding has the documents that the first one wrote. -/
theorem unmarshalText_w3c (hd : SoundMap d) (hdoc : ∀ i, Sound (c.doc i)) (order : MapOrder)
    (hp : Sound p) :
    ∃ d' c', unmarshalText (encoded (marshalW3C d c (c.merge order) p)) =
        some { desiredCapabilities := d', capabilities := some c' } ∧
      c'.alternatives.length = c.alternatives.length ∧
      ∀ i ∈ 0 :: (List.range c.alternatives.length).map (· + 1),
        (c'.doc i).SameDouble (writtenDoc c (updateProxy (c.merge order) p) p i) := by
  have hwritten := sound_writtenDoc hdoc order hp
  have hmap := writtenDoc_map c (updateProxy (c.merge order) p) p
  have hread : ∀ i, unmarshalMap none (encoded (writtenDoc c (updateProxy (c.merge order) p) p i)) =
      some (mapOf (encoded (writtenDoc c (updateProxy (c.merge order) p) p i))) := by
    intro i
    apply unmarshalMap_mapOf (sound_encoded (hwritten i))
    rw [isObject_encoded]
    exact (hmap i).imp_left fun hnull => by
      rw [hnull]
      rfl
  obtain ⟨c', hcaps, halways, halternatives⟩ := unmarshalW3C_written _
    (writtenAlternatives c (updateProxy (c.merge order) p) p) (hread 0) (by
      intro v hv
      obtain ⟨i, _, rfl⟩ := List.mem_map.mp hv
      exact hread (i + 1))
  have hcaps' : unmarshalW3C none (writtenCapabilities c (updateProxy (c.merge order) p) p) =
      some (some c') := hcaps
  obtain ⟨d', hbody⟩ := unmarshal_body hcaps' (mapField_cases hd)
  refine ⟨d', c', ?_, ?_, ?_⟩
  · rw [encoded_marshalW3C, unmarshalText_eq (sound_body
      (sound_writtenCapabilities hdoc order hp) (mapField_cases hd)).wellFormed, hbody]
  · rw [halternatives, List.length_map, writtenAlternatives, List.length_map, List.length_range]
  · intro i hi
    rcases List.mem_cons.mp hi with rfl | hi
    · rw [W3CCapabilities.doc, halways]
      exact sameDouble_written (hwritten 0) (hmap 0)
    · obtain ⟨j, hj, rfl⟩ := List.mem_map.mp hi
      have hget : c'.alternatives[j]? =
          some (mapOf (encoded (writtenDoc c (updateProxy (c.merge order) p) p (j + 1)))) := by
        rw [halternatives, writtenAlternatives, List.map_map, List.getElem?_map,
          List.getElem?_range (List.mem_range.mp hj)]
        rfl
      rw [W3CCapabilities.doc, hget]
      exact sameDouble_written (hwritten (j + 1)) (hmap (j + 1))

/-- The desired capabilities with the proxy among them. -/
theorem unmarshalText_jsonWire (hm : SoundMembers m.entries) (hp : Sound p) :
    ∃ m' : Values, unmarshalText (encoded (marshalJsonWire m p)) =
        some { desiredCapabilities := some m', capabilities := none } ∧
      (Json.object (m.insert proxy p).entries).SameDouble (.object m'.entries) := by
  have hsound : Sound (.object (m.insert proxy p).entries) := by
    apply sound_object (m.insert proxy p).nodup
    intro e he
    rcases List.mem_cons.mp he with rfl | he
    · exact hp
    · exact hm e (mem_deleteKey.mp he).1
  refine ⟨GoMap.ofList (Json.mapMembers Json.reencode (m.insert proxy p).entries), ?_, ?_⟩
  · have hread := unmarshalMap_mapOf (sound_encoded hsound) (.inr rfl)
    show unmarshalText (.object [(desiredCapabilities, encoded (.object (m.insert proxy p).entries))])
      = _
    rw [unmarshalText_eq (sound_single desiredCapabilities (sound_encoded hsound)).wellFormed]
    show (unmarshalFields desiredCapabilities capabilities unmarshalMap unmarshalW3C (none, none)
      [(desiredCapabilities, _)]).map _ = _
    rw [unmarshalFields_first hread]
    rfl
  · exact (sameDouble_written hsound (.inr rfl)).symm

end

end Selebrow.Models
