import Selebrow.Capabilities.Reported
import Selebrow.Capabilities.Rewritten

/-!
# Values that can be decoded again

The decoded values have distinct names in each object and a `float64` for each number, and
so has what is written of them; a text of such values is decoded as it stands.
-/

namespace Selebrow.Models

structure Sound (v : Json) : Prop where
  wellFormed : v.WellFormed
  inRange : inRange v = true

def SoundMembers (ms : List (GoString × Json)) : Prop := ∀ e ∈ ms, Sound e.2

def SoundMap (m : Option Values) : Prop := ∀ m', m = some m' → SoundMembers m'.entries

structure SoundW3C (c : W3CCapabilities) : Prop where
  alwaysMatch : SoundMap c.alwaysMatch
  firstMatch : ∀ s, c.firstMatch = some s → ∀ m ∈ s.backing, SoundMap m

section

variable {v w : Json} {ms ms' : List (GoString × Json)} {vs : List Json} {m m' : Option Values}
  {q : List GoString} {k : GoString}

/-! ## Numbers in range -/

theorem inRange_of_mem (h : membersInRange ms = true) {e : GoString × Json} (he : e ∈ ms) :
    inRange e.2 = true := by
  induction ms with
  | nil => contradiction
  | cons e' rest ih =>
    rw [membersInRange, Bool.and_eq_true] at h
    rcases List.mem_cons.mp he with rfl | he
    · exact h.1
    · exact ih h.2 he

theorem inRange_of_element (h : elementsInRange vs = true) (hv : v ∈ vs) : inRange v = true := by
  induction vs with
  | nil => contradiction
  | cons u rest ih =>
    rw [elementsInRange, Bool.and_eq_true] at h
    rcases List.mem_cons.mp hv with rfl | hv
    · exact h.1
    · exact ih h.2 hv

theorem membersInRange_of (h : ∀ e ∈ ms, inRange e.2 = true) : membersInRange ms = true := by
  induction ms with
  | nil => rfl
  | cons e rest ih =>
    rw [List.forall_mem_cons] at h
    rw [membersInRange, h.1, ih h.2]
    rfl

theorem elementsInRange_of (h : ∀ v ∈ vs, inRange v = true) : elementsInRange vs = true := by
  induction vs with
  | nil => rfl
  | cons v rest ih =>
    rw [List.forall_mem_cons] at h
    rw [elementsInRange, h.1, ih h.2]
    rfl

theorem inRange_object_of_mem (h : inRange (.object ms) = true) {e : GoString × Json} (he : e ∈ ms) :
    inRange e.2 = true := by
  rw [inRange] at h
  exact inRange_of_mem h he

theorem Sound.member (h : Sound (.object ms)) {e : GoString × Json} (he : e ∈ ms) : Sound e.2 := by
  cases h.wellFormed with
  | object _ _ hm => exact ⟨hm e he, inRange_object_of_mem h.inRange he⟩

theorem sound_object (hn : (ms.map Prod.fst).Nodup) (h : SoundMembers ms) : Sound (.object ms) := by
  constructor
  · exact .object ms hn fun e he => (h e he).wellFormed
  · rw [inRange]
    exact membersInRange_of fun e he => (h e he).inRange

theorem sound_array (h : ∀ v ∈ vs, Sound v) : Sound (.array vs) := by
  constructor
  · exact .array vs fun v hv => (h v hv).wellFormed
  · rw [inRange]
    exact elementsInRange_of fun v hv => (h v hv).inRange

theorem sound_null : Sound .null := ⟨.null, rfl⟩

theorem sound_string (s : GoString) : Sound (.string s) := ⟨.string s, rfl⟩

theorem mem_of_lookup (h : ms.lookup k = some v) : (k, v) ∈ ms := by
  obtain ⟨l₁, l₂, hl, _⟩ := List.lookup_eq_some_iff.mp h
  rw [hl]
  exact List.mem_append_right _ List.mem_cons_self

theorem Sound.atKeys (h : Sound v) (q : List GoString) (hw : atKeys v q = some w) : Sound w := by
  induction q generalizing w with
  | nil =>
    cases hw
    exact h
  | cons k q ih =>
    rw [atKeys_cons, Option.bind_eq_some_iff] at hw
    obtain ⟨u, hu, hw⟩ := hw
    have hsound := ih hu
    cases u with
    | object members => exact hsound.member (mem_of_lookup hw)
    | null | bool | number | string | array => contradiction

/-! ## Decoded values -/

theorem mem_foldl_insert {l : List (GoString × Json)} {m : Values} {e : GoString × Json}
    (h : e ∈ (l.foldl (fun m e => m.insert e.1 e.2) m).entries) : e ∈ l ∨ e ∈ m.entries := by
  induction l generalizing m with
  | nil => exact .inr h
  | cons e' l ih =>
    rcases ih h with h | h
    · exact .inl (List.mem_cons_of_mem e' h)
    · rcases List.mem_cons.mp h with rfl | h
      · exact .inl List.mem_cons_self
      · exact .inr (mem_deleteKey.mp h).1

theorem mapValues_object (f : Json → Json) (ms : List (GoString × Json)) :
    mapValues f (.object ms) = .object (ms.map fun e => (e.1, f e.2)) := rfl

theorem unmarshalMap_sound (hm : SoundMap m) (h : unmarshalMap m (decodedMap v) = some m') :
    SoundMap m' := by
  cases v with
  | object ms =>
    rw [decodedMap, mapValues_object, unmarshalMap] at h
    split at h
    · rename_i hrange
      cases h
      intro m' hm'
      cases hm'
      intro e he
      rcases mem_foldl_insert he with he | he
      · refine ⟨?_, inRange_of_mem hrange he⟩
        obtain ⟨e', _, rfl⟩ := List.mem_map.mp he
        exact Json.decoded_wellFormed e'.2
      · cases m with
        | none => contradiction
        | some m => exact hm m rfl e he
    · contradiction
  | null =>
    cases h
    intro m' hm'
    contradiction
  | bool | number | string | array => contradiction

theorem unmarshalElements_sound {old l : List (Option Values)} (hold : ∀ m ∈ old, SoundMap m)
    (h : unmarshalElements old (vs.map decodedMap) = some l) : ∀ m ∈ l, SoundMap m := by
  induction vs generalizing old l with
  | nil =>
    rw [List.map_nil, unmarshalElements] at h
    cases h
    exact hold
  | cons v vs ih =>
    rw [List.map_cons, unmarshalElements] at h
    obtain ⟨m, hm, hrest⟩ := Option.bind_eq_some_iff.mp h
    obtain ⟨l', hl', hcons⟩ := Option.bind_eq_some_iff.mp hrest
    cases hcons
    have hhead : SoundMap old.head?.join := by
      intro m' hm'
      cases old with
      | nil => contradiction
      | cons m₀ old => exact hold m₀ List.mem_cons_self m' hm'
    have htail := ih (fun m hm => hold m (List.mem_of_mem_tail hm)) hl'
    intro m' hm'
    rcases List.mem_cons.mp hm' with rfl | hm'
    · exact unmarshalMap_sound hhead hm
    · exact htail m' hm'

def SoundSlice (s : Option Slice) : Prop := ∀ s', s = some s' → ∀ m ∈ s'.backing, SoundMap m

theorem unmarshalSlice_sound {s s' : Option Slice} (hs : SoundSlice s)
    (h : unmarshalSlice s (mapArray decodedMap v) = some s') : SoundSlice s' := by
  cases v with
  | array vs =>
    rw [mapArray] at h
    cases vs with
    | nil =>
      cases h
      intro s'' hs'' m hm
      cases hs''
      contradiction
    | cons v vs =>
      rw [List.map_cons, unmarshalSlice, Option.map_eq_some_iff] at h
      · obtain ⟨l, hl, rfl⟩ := h
        have hold : ∀ m ∈ (s.map Slice.backing).getD [], SoundMap m := by
          intro m hm
          cases s with
          | none => contradiction
          | some s => exact hs s rfl m hm
        intro s'' hs'' m hm
        cases hs''
        have hl' : unmarshalElements _ ((v :: vs).map decodedMap) = some l := hl
        exact unmarshalElements_sound hold hl' m hm
      · intro heq
        contradiction
  | null =>
    cases h
    intro s'' hs''
    contradiction
  | bool | number | string | object => contradiction

/-- What holds of the fields at first holds of them when the struct is decoded. -/
theorem unmarshalFields_invariant {α β : Type} {P : α → Prop} {Q : β → Prop} {name₁ name₂ : GoString}
    {field₁ : α → Json → Option α} {field₂ : β → Json → Option β} (f₁ f₂ : Json → Json)
    (h₁ : ∀ a v a', P a → field₁ a (f₁ v) = some a' → P a')
    (h₂ : ∀ b v b', Q b → field₂ b (f₂ v) = some b' → Q b') {s s' : α × β} (hs : P s.1 ∧ Q s.2)
    (ms : List (GoString × Json))
    (h : unmarshalFields name₁ name₂ field₁ field₂ s (ms.map fun e =>
      (e.1, if foldName e.1 = foldName name₁ then f₁ e.2
        else if foldName e.1 = foldName name₂ then f₂ e.2 else e.2)) = some s') :
    P s'.1 ∧ Q s'.2 := by
  induction ms generalizing s with
  | nil =>
    cases h
    exact hs
  | cons e ms ih =>
    rw [unmarshalFields, List.map_cons, List.foldlM_cons] at h
    obtain ⟨s₁, hs₁, hrest⟩ := Option.bind_eq_some_iff.mp h
    refine ih ?_ hrest
    by_cases hn₁ : foldName e.1 = foldName name₁
    · rw [if_pos hn₁, if_pos hn₁, Option.map_eq_some_iff] at hs₁
      obtain ⟨a, ha, rfl⟩ := hs₁
      exact ⟨h₁ s.1 e.2 a hs.1 ha, hs.2⟩
    · rw [if_neg hn₁, if_neg hn₁] at hs₁
      by_cases hn₂ : foldName e.1 = foldName name₂
      · rw [if_pos hn₂, if_pos hn₂, Option.map_eq_some_iff] at hs₁
        obtain ⟨b, hb, rfl⟩ := hs₁
        exact ⟨hs.1, h₂ s.2 e.2 b hs.2 hb⟩
      · rw [if_neg hn₂] at hs₁
        cases hs₁
        exact hs

def SoundCapabilities (c : Option W3CCapabilities) : Prop := ∀ c', c = some c' → SoundW3C c'

theorem unmarshalW3C_sound {c c' : Option W3CCapabilities} (hc : SoundCapabilities c)
    (h : unmarshalW3C c (decodedW3C v) = some c') : SoundCapabilities c' := by
  cases v with
  | object ms =>
    rw [decodedW3C, mapFields, unmarshalW3C, Option.map_eq_some_iff] at h
    obtain ⟨s, hs, rfl⟩ := h
    have hstart : SoundMap (c.bind W3CCapabilities.alwaysMatch) ∧
        SoundSlice (c.bind W3CCapabilities.firstMatch) := by
      cases c with
      | none =>
        constructor
        · intro m hm
          contradiction
        · intro s hs
          contradiction
      | some c => exact ⟨(hc c rfl).alwaysMatch, (hc c rfl).firstMatch⟩
    obtain ⟨halways, hfirst⟩ := unmarshalFields_invariant (P := SoundMap) (Q := SoundSlice)
      decodedMap (mapArray decodedMap) (fun a v a' ha hv => unmarshalMap_sound ha hv)
      (fun b v b' hb hv => unmarshalSlice_sound hb hv) hstart ms hs
    intro c' hc'
    cases hc'
    exact ⟨halways, hfirst⟩
  | null =>
    cases h
    intro c' hc'
    contradiction
  | bool | number | string | array => contradiction

/-- What a text is decoded into. -/
theorem unmarshalText_sound {w : CapsWrapper} (h : unmarshalText v = some w) :
    SoundMap w.desiredCapabilities ∧ SoundCapabilities w.capabilities := by
  rw [unmarshalText] at h
  split at h
  · cases v with
    | object ms =>
      rw [decodedBody, mapFields, unmarshal, Option.map_eq_some_iff] at h
      obtain ⟨s, hs, rfl⟩ := h
      apply unmarshalFields_invariant (P := SoundMap) (Q := SoundCapabilities) decodedMap decodedW3C
        (fun a v a' ha hv => unmarshalMap_sound ha hv)
        (fun b v b' hb hv => unmarshalW3C_sound hb hv) _ ms hs
      constructor
      · intro m hm
        contradiction
      · intro c hc
        contradiction
    | null =>
      cases h
      constructor
      · intro m hm
        contradiction
      · intro c hc
        contradiction
    | bool | number | string | array => contradiction
  · contradiction

theorem sound_ofValues (h : SoundMap m) : Sound (W3CCapabilities.ofValues m) := by
  cases m with
  | none => exact sound_null
  | some m => exact sound_object m.nodup (h m rfl)

theorem SoundW3C.doc {c : W3CCapabilities} (h : SoundW3C c) (i : Nat) : Sound (c.doc i) := by
  cases i with
  | zero => exact sound_ofValues h.alwaysMatch
  | succ i =>
    apply sound_ofValues
    intro m hm
    rw [Option.join_eq_some_iff] at hm
    have hmem := List.mem_of_getElem? hm
    rw [W3CCapabilities.alternatives] at hmem
    cases hs : c.firstMatch with
    | none =>
      rw [hs] at hmem
      contradiction
    | some s =>
      rw [hs] at hmem
      exact h.firstMatch s hs (some m) (List.mem_of_mem_take hmem) m rfl

end

end Selebrow.Models
