import Selebrow.Capabilities.Wrapper

/-!
# The request and its decoded form

What a request says, as a JSON value, the conditions under which nothing of it but the
proxy changes on its way, and what `json.Unmarshal` makes of it.
-/

namespace Selebrow.Models

/-! ## The request -/

/-- A body of well-formed objects is a W3C request when it has capabilities. -/
def dialect (body : Json) : Dialect :=
  if isObject (body.child (.key capabilities)) then .w3c else .jsonWire

/-- Where the default proxy belongs. -/
def proxyPath : Dialect → List GoString
  | .jsonWire => [desiredCapabilities, proxy]
  | .w3c => [capabilities, alwaysMatch, proxy]

def withProxy (body : Json) (p : ProxyOptions) : Json :=
  Json.setAt (proxyPath (dialect body)) (proxyJson (dialect body) p) body

def capsOf (body : Json) : Json := (body.child (.key capabilities)).getD .null

def requestAlternatives (caps : Json) : List Json :=
  match caps.child (.key firstMatch) with
  | some (.array alternatives) => alternatives
  | _ => []

/-- The documents that `Merge` merges, as the capabilities of the request have them. -/
def requestDoc (caps : Json) : Nat → Json
  | 0 => (caps.child (.key alwaysMatch)).getD .null
  | i + 1 => ((requestAlternatives caps)[i]?).getD .null

def requestDocs (caps : Json) : List Nat :=
  (if isObject (caps.child (.key alwaysMatch)) then [0] else []) ++
    (List.range (requestAlternatives caps).length).map (· + 1)

def NumbersKept (v : Json) : Prop :=
  ∀ p literal, v.get p = some (.number literal) →
    Json.numberValue (Json.reencode literal) = Json.numberValue literal

def NumbersKeptOutside (path : List Json.Step) (v : Json) : Prop :=
  ∀ p literal, ¬ path <+: p → v.get p = some (.number literal) →
    Json.numberValue (Json.reencode literal) = Json.numberValue literal

/-- The conditions on a W3C request. -/
structure ForwardsW3C (body : Json) : Prop where
  names : ∀ k, (body.child (.key k)).isSome = true → k = desiredCapabilities ∨ k = capabilities
  parts : ∀ k, ((capsOf body).child (.key k)).isSome = true → k = alwaysMatch ∨ k = firstMatch
  desired : body.child (.key desiredCapabilities) ≠ some .null ∧
    body.child (.key desiredCapabilities) ≠ some (.object [])
  first : (capsOf body).child (.key firstMatch) ≠ some .null ∧
    (capsOf body).child (.key firstMatch) ≠ some (.array [])
  numbers : NumbersKeptOutside [.key capabilities, .key alwaysMatch, .key proxy] body
  /-- The maps of the proxy that is replaced do not count. -/
  unshared : ∀ i q, ¬ (i = 0 ∧ q.getLast? = some proxy) →
    ¬ Gains (requestDoc (capsOf body)) (requestDocs (capsOf body)) i q

/-- The conditions on a JsonWire request. -/
structure ForwardsJsonWire (body : Json) : Prop where
  names : ∀ k, (body.child (.key k)).isSome = true → k = desiredCapabilities
  numbers : NumbersKeptOutside [.key desiredCapabilities, .key proxy] body

def Forwards (body : Json) : Prop :=
  match dialect body with
  | .w3c => ForwardsW3C body
  | .jsonWire => ForwardsJsonWire body

/-! ## Numbers -/

variable {body v : Json} {ms : List (GoString × Json)} {vs : List Json}

theorem sameValue_numbers : (Json.mapNumbers Json.reencode v).SameValue v ↔ NumbersKept v :=
  Json.sameValue_mapNumbers Json.reencode

theorem numbersKept_child (hv : ∀ literal, v ≠ .number literal) :
    NumbersKept v ↔ ∀ s c, v.child s = some c → NumbersKept c := by
  constructor
  · intro h s c hc p literal hp
    apply h (s :: p) literal
    rw [Json.get_cons, hc]
    exact hp
  · intro h p literal hp
    cases p with
    | nil =>
      cases hp
      exact absurd rfl (hv literal)
    | cons s p =>
      rw [Json.get_cons, Option.bind_eq_some_iff] at hp
      obtain ⟨c, hc, hp⟩ := hp
      exact h s c hc p literal hp

theorem numbersKept_array :
    NumbersKept (.array vs) ↔ ∀ (i : Nat) c, vs[i]? = some c → NumbersKept c := by
  rw [numbersKept_child (v := .array vs) nofun]
  constructor
  · intro h i c hc
    exact h (.index i) c hc
  · intro h s c hc
    cases s with
    | key k => contradiction
    | index i => exact h i c hc

theorem numbersKeptOutside_cons {s : Json.Step} {path : List Json.Step}
    (hv : ∀ literal, v ≠ .number literal) :
    NumbersKeptOutside (s :: path) v ↔
      (∀ c, v.child s = some c → NumbersKeptOutside path c) ∧
        ∀ s' c, s' ≠ s → v.child s' = some c → NumbersKept c := by
  constructor
  · intro h
    constructor
    · intro c hc p literal hpath hp
      apply h (s :: p) literal
      · intro hpre
        exact hpath (List.cons_prefix_cons.mp hpre).2
      · rw [Json.get_cons, hc]
        exact hp
    · intro s' c hne hc p literal hp
      apply h (s' :: p) literal
      · intro hpre
        exact hne (List.cons_prefix_cons.mp hpre).1.symm
      · rw [Json.get_cons, hc]
        exact hp
  · rintro ⟨hin, hout⟩ p literal hpath hp
    cases p with
    | nil =>
      cases hp
      exact absurd rfl (hv literal)
    | cons s' p =>
      rw [Json.get_cons, Option.bind_eq_some_iff] at hp
      obtain ⟨c, hc, hp⟩ := hp
      by_cases hs : s' = s
      · subst hs
        exact hin c hc p literal (fun hpre => hpath (List.cons_prefix_cons.mpr ⟨rfl, hpre⟩)) hp
      · exact hout s' c hs hc p literal hp

theorem numbersKeptOutside_nil : NumbersKeptOutside [] v :=
  fun _ _ hpath _ => absurd (List.nil_prefix) hpath

/-- The encoded proxy has no numbers. -/
theorem mapNumbers_proxyJson (d : Dialect) (p : ProxyOptions) (f : GoString → GoString) :
    Json.mapNumbers f (proxyJson d p) = proxyJson d p := by
  have happend : ∀ l l', Json.mapMembers f (l ++ l') = Json.mapMembers f l ++ Json.mapMembers f l' := by
    intro l l'
    induction l with
    | nil => rfl
    | cons e l ih =>
      obtain ⟨k, v⟩ := e
      simp only [List.cons_append, Json.mapMembers, ih]
  have hfield : ∀ name s, Json.mapMembers f (stringField name s) = stringField name s := by
    intro name s
    unfold stringField
    split <;> rfl
  have hstrings : ∀ hosts : List GoString, Json.mapElements f (hosts.map Json.string) = hosts.map Json.string := by
    intro hosts
    induction hosts with
    | nil => rfl
    | cons h hosts ih =>
      simp only [List.map_cons, Json.mapElements, Json.mapNumbers, ih]
  cases d with
  | jsonWire =>
    simp only [proxyJson, marshalProxy, Json.mapNumbers, happend, hfield]
    cases p.noProxy <;> rfl
  | w3c =>
    simp only [proxyJson, marshalProxy, Json.mapNumbers, happend, hfield]
    cases p.noProxy with
    | none => rfl
    | some hosts => simp only [Json.mapMembers, Json.mapNumbers, hstrings]

/-- The strings of the default proxy are valid UTF-8. -/
structure ProxyOptions.Valid (p : ProxyOptions) : Prop where
  proxyType : Text.ValidUTF8 p.proxyType
  httpProxy : Text.ValidUTF8 p.httpProxy
  sslProxy : Text.ValidUTF8 p.sslProxy
  noProxy : ∀ hosts ∈ p.noProxy, ∀ host ∈ hosts, Text.ValidUTF8 host

/-- The default proxy with the strings that `json.Marshal` makes of its own. -/
def ProxyOptions.coerced (p : ProxyOptions) : ProxyOptions where
  proxyType := Text.toValidUTF8 p.proxyType
  httpProxy := Text.toValidUTF8 p.httpProxy
  sslProxy := Text.toValidUTF8 p.sslProxy
  noProxy := p.noProxy.map fun hosts => hosts.map Text.toValidUTF8

theorem ProxyOptions.Valid.coerced {p : ProxyOptions} (h : p.Valid) : p.coerced = p := by
  obtain ⟨proxyType, httpProxy, sslProxy, noProxy⟩ := p
  have htype : Text.toValidUTF8 proxyType = proxyType := h.proxyType
  have hhttp : Text.toValidUTF8 httpProxy = httpProxy := h.httpProxy
  have hssl : Text.toValidUTF8 sslProxy = sslProxy := h.sslProxy
  have hno : (noProxy.map fun hosts => hosts.map Text.toValidUTF8) = noProxy := by
    cases noProxy with
    | none => rfl
    | some hosts =>
      have hmap : hosts.map Text.toValidUTF8 = hosts.map id :=
        List.map_congr_left (h.noProxy hosts rfl)
      rw [Option.map_some, hmap, List.map_id]
  rw [ProxyOptions.coerced, htype, hhttp, hssl, hno]

theorem validMembers_append (l l' : List (GoString × Json)) :
    validMembers (l ++ l') = validMembers l ++ validMembers l' := by
  induction l with
  | nil => rfl
  | cons e l ih =>
    obtain ⟨k, v⟩ := e
    rw [List.cons_append, validMembers, validMembers, ih, List.cons_append]

theorem validMembers_stringField (name : String) (s : GoString) :
    validMembers (stringField name s) = stringField name (Text.toValidUTF8 s) := by
  rw [stringField, stringField]
  by_cases h : s = []
  · subst h
    rfl
  · rw [if_neg h, if_neg (fun hnil => h (Text.eq_nil_of_toValidUTF8 hnil))]
    rfl

theorem validElements_strings (hosts : List GoString) :
    validElements (hosts.map .string) = (hosts.map Text.toValidUTF8).map .string := by
  induction hosts with
  | nil => rfl
  | cons host hosts ih =>
    rw [List.map_cons, validElements, ih]
    rfl

theorem encodedProxy_eq_coerced (d : Dialect) (p : ProxyOptions) :
    encodedProxy d p = proxyJson d p.coerced := by
  obtain ⟨proxyType, httpProxy, sslProxy, noProxy⟩ := p
  cases d with
  | jsonWire =>
    simp only [encodedProxy, proxyJson, marshalProxy, validStrings, validMembers_append,
      validMembers_stringField]
    cases noProxy with
    | none => rfl
    | some hosts =>
      have hcomma : bytes "," = [44] := rfl
      simp only [validMembers, validStrings, hcomma, Text.toValidUTF8_intercalate (a := 44) (by decide)]
      rfl
  | w3c =>
    simp only [encodedProxy, proxyJson, marshalProxy, validStrings, validMembers_append,
      validMembers_stringField]
    cases noProxy with
    | none => rfl
    | some hosts =>
      simp only [validMembers, validStrings, validElements_strings]
      rfl

/-- Strings that are valid are written as they are. -/
theorem ProxyOptions.Valid.encodedProxy {p : ProxyOptions} (h : p.Valid) (d : Dialect) :
    encodedProxy d p = proxyJson d p := by
  rw [encodedProxy_eq_coerced, h.coerced]

theorem mapNumbers_encodedProxy (d : Dialect) (p : ProxyOptions) (f : GoString → GoString) :
    Json.mapNumbers f (encodedProxy d p) = encodedProxy d p := by
  rw [encodedProxy_eq_coerced, mapNumbers_proxyJson]

theorem lookup_stringField (name : String) (s : GoString) (k : GoString) :
    (stringField name s).lookup k = if k = bytes name ∧ s ≠ [] then some (.string s) else none := by
  rw [stringField]
  by_cases h : s = []
  · rw [if_pos h, if_neg (fun hand => hand.2 h)]
    rfl
  · rw [if_neg h, List.lookup_cons]
    by_cases hk : k = bytes name
    · rw [if_pos ⟨hk, h⟩, hk, beq_self_eq_true]
    · rw [if_neg (fun hand => hk hand.1), beq_eq_false_iff_ne.mpr hk]
      rfl

theorem sameValue_string {s s' : GoString} (h : (Json.string s).SameValue (.string s')) : s = s' := by
  have hkind := h []
  cases hkind
  rfl

theorem validUTF8_of_sameAt {s : GoString}
    (h : Json.SameAt
      (if Text.toValidUTF8 s ≠ [] then some (.string (Text.toValidUTF8 s)) else none)
      (if s ≠ [] then some (.string s) else none)) : Text.ValidUTF8 s := by
  by_cases hs : s = []
  · subst hs
    exact Text.validUTF8_nil
  · rw [if_pos fun hnil => hs (Text.eq_nil_of_toValidUTF8 hnil), if_pos hs] at h
    exact sameValue_string h

theorem validUTF8_of_strings {hosts : List GoString}
    (h : (Json.array ((hosts.map Text.toValidUTF8).map .string)).SameValue
      (.array (hosts.map .string))) : ∀ host ∈ hosts, Text.ValidUTF8 host := by
  intro host hmem
  obtain ⟨i, hi⟩ := List.mem_iff_getElem?.mp hmem
  have hat := Json.sameValue_array.mp h i
  rw [List.map_map, List.getElem?_map, List.getElem?_map, hi] at hat
  exact sameValue_string hat

/-- The members of a proxy that is written. -/
theorem child_marshalProxy (noProxy : List GoString → Json) (p : ProxyOptions) (k : GoString) :
    (marshalProxy noProxy p).child (.key k) =
      ((((stringField "proxyType" p.proxyType).lookup k).or
        ((stringField "httpProxy" p.httpProxy).lookup k)).or
          ((stringField "sslProxy" p.sslProxy).lookup k)).or
            (if k = bytes "noProxy" then p.noProxy.map noProxy else none) := by
  rw [marshalProxy, Json.child_object, List.lookup_append, List.lookup_append, List.lookup_append]
  congr 1
  cases p.noProxy with
  | none =>
    rw [Option.map_none, ite_self]
    rfl
  | some hosts =>
    rw [Option.map_some]
    by_cases hk : k = bytes "noProxy"
    · rw [if_pos hk, hk, List.lookup_cons, beq_self_eq_true]
    · rw [if_neg hk, List.lookup_cons, beq_eq_false_iff_ne.mpr hk]
      rfl

/-- What is written of the default proxy is what it says exactly if its strings are valid. -/
theorem encodedProxy_sameValue_iff (d : Dialect) (p : ProxyOptions) :
    (encodedProxy d p).SameValue (proxyJson d p) ↔ p.Valid := by
  constructor
  · intro h
    rw [encodedProxy_eq_coerced] at h
    obtain ⟨noProxy, hd, hno⟩ : ∃ noProxy, proxyJson d = marshalProxy noProxy ∧
        ∀ hosts, (noProxy (hosts.map Text.toValidUTF8)).SameValue (noProxy hosts) →
          ∀ host ∈ hosts, Text.ValidUTF8 host := by
      cases d with
      | jsonWire =>
        refine ⟨_, rfl, fun hosts hsame => ?_⟩
        have hcomma : bytes "," = [44] := rfl
        rw [hcomma] at hsame
        have heq := sameValue_string hsame
        rw [← Text.toValidUTF8_intercalate (by decide)] at heq
        exact (Text.validUTF8_intercalate (by decide) hosts).mp heq
      | w3c => exact ⟨_, rfl, fun hosts hsame => validUTF8_of_strings hsame⟩
    rw [hd] at h
    have hchild : ∀ k, Json.SameAt ((marshalProxy noProxy p.coerced).child (.key k))
        ((marshalProxy noProxy p).child (.key k)) :=
      fun k => (Json.sameValue_iff_child.mp h).2 (.key k)
    simp only [child_marshalProxy, lookup_stringField] at hchild
    have hnames : bytes "proxyType" ≠ bytes "httpProxy" ∧ bytes "proxyType" ≠ bytes "sslProxy" ∧
        bytes "proxyType" ≠ bytes "noProxy" ∧ bytes "httpProxy" ≠ bytes "sslProxy" ∧
        bytes "httpProxy" ≠ bytes "noProxy" ∧ bytes "sslProxy" ≠ bytes "noProxy" := by decide
    obtain ⟨h₁, h₂, h₃, h₄, h₅, h₆⟩ := hnames
    constructor
    · have htype := hchild (bytes "proxyType")
      simp only [h₁, h₂, h₃, true_and, false_and, if_false, Option.or_none] at htype
      exact validUTF8_of_sameAt htype
    · have hhttp := hchild (bytes "httpProxy")
      simp only [h₁.symm, h₄, h₅, true_and, false_and, if_false, Option.or_none, Option.none_or] at hhttp
      exact validUTF8_of_sameAt hhttp
    · have hssl := hchild (bytes "sslProxy")
      simp only [h₂.symm, h₄.symm, h₆, true_and, false_and, if_false, Option.or_none, Option.none_or] at hssl
      exact validUTF8_of_sameAt hssl
    · intro hosts hmem
      have hhosts := hchild (bytes "noProxy")
      simp only [h₃.symm, h₅.symm, h₆.symm, false_and, if_false, if_true, Option.none_or] at hhosts
      have hsome : p.noProxy = some hosts := hmem
      rw [ProxyOptions.coerced, hsome] at hhosts
      exact hno hosts hhosts
  · intro h
    rw [h.encodedProxy]
    exact Json.SameValue.refl _

/-! ## What the decoder makes of the request -/

/-- A decoded map, or the nil map of a member that is null or missing. -/
inductive DecodedMap : Option Values → Option Json → Prop
  | missing : DecodedMap none none
  | null : DecodedMap none (some .null)
  | object (m : Values) (members : List (GoString × Json))
      (h : ∀ k, m.lookup k = members.lookup k) : DecodedMap (some m) (some (.object members))

theorem lookup_decoded (hn : (ms.map Prod.fst).Nodup) (k : GoString) :
    (ms.foldl (fun m e => m.insert e.1 e.2) (GoMap.empty : Values)).lookup k = ms.lookup k :=
  GoMap.lookup_ofList_eq hn k

theorem unmarshalMap_decoded (hv : v.WellFormed) {m : Option Values}
    (h : unmarshalMap none v = some m) : DecodedMap m (some v) := by
  cases hv with
  | null =>
    cases h
    exact .null
  | object members hn _ =>
    rw [unmarshalMap] at h
    split at h
    · cases h
      exact .object _ _ (lookup_decoded hn)
    · contradiction
  | bool | number | string | array => contradiction

/-- The fields of a struct when the names of the members are those of the fields. -/
theorem unmarshalFields_spec {α β : Type} {name₁ name₂ : GoString}
    {field₁ : α → Json → Option α} {field₂ : β → Json → Option β} {a a' : α} {b b' : β}
    (hne : foldName name₁ ≠ foldName name₂) (hn : (ms.map Prod.fst).Nodup)
    (hnames : ∀ e ∈ ms, e.1 = name₁ ∨ e.1 = name₂)
    (h : unmarshalFields name₁ name₂ field₁ field₂ (a, b) ms = some (a', b')) :
    (ms.lookup name₁ = none ∧ a' = a ∨ ∃ v, ms.lookup name₁ = some v ∧ field₁ a v = some a') ∧
    (ms.lookup name₂ = none ∧ b' = b ∨ ∃ v, ms.lookup name₂ = some v ∧ field₂ b v = some b') := by
  induction ms generalizing a b with
  | nil =>
    cases h
    exact ⟨.inl ⟨rfl, rfl⟩, .inl ⟨rfl, rfl⟩⟩
  | cons e ms ih =>
    obtain ⟨k, v⟩ := e
    rw [List.map_cons, List.nodup_cons] at hn
    have hnames' : ∀ e ∈ ms, e.1 = name₁ ∨ e.1 = name₂ := fun e he =>
      hnames e (List.mem_cons_of_mem _ he)
    have hmiss : ms.lookup k = none := by
      rw [List.lookup_eq_none_iff]
      intro e he
      rw [bne_iff_ne]
      rintro rfl
      exact hn.1 (List.mem_map.mpr ⟨e, he, rfl⟩)
    rw [unmarshalFields, List.foldlM_cons] at h
    rcases hnames (k, v) List.mem_cons_self with hk | hk
    · have hk' : k = name₁ := hk
      subst hk'
      simp only [if_pos] at h
      cases hf : field₁ a v with
      | none =>
        rw [hf] at h
        contradiction
      | some a₁ =>
        rw [hf] at h
        obtain ⟨⟨_, rfl⟩ | ⟨w, hw, _⟩, hsecond⟩ := ih hn.2 hnames' h
        · have hne' : (name₂ == k) = false := beq_eq_false_iff_ne.mpr fun heq => hne (by rw [heq])
          rw [List.lookup_cons, List.lookup_cons, beq_self_eq_true, hne']
          exact ⟨.inr ⟨v, rfl, hf⟩, hsecond⟩
        · rw [hmiss] at hw
          contradiction
    · have hk' : k = name₂ := hk
      subst hk'
      have hne' : (name₁ == k) = false := beq_eq_false_iff_ne.mpr fun heq => hne (by rw [heq])
      simp only [if_neg (Ne.symm hne), if_pos] at h
      cases hf : field₂ b v with
      | none =>
        rw [hf] at h
        contradiction
      | some b₁ =>
        rw [hf] at h
        obtain ⟨hfirst, ⟨_, rfl⟩ | ⟨w, hw, _⟩⟩ := ih hn.2 hnames' h
        · rw [List.lookup_cons, List.lookup_cons, beq_self_eq_true, hne']
          exact ⟨hfirst, .inr ⟨v, rfl, hf⟩⟩
        · rw [hmiss] at hw
          contradiction

theorem unmarshalElements_decoded (hv : ∀ v ∈ vs, v.WellFormed) {l : List (Option Values)}
    (h : unmarshalElements [] vs = some l) : List.Forall₂ (fun m v => DecodedMap m (some v)) l vs := by
  induction vs generalizing l with
  | nil =>
    cases h
    exact .nil
  | cons v vs ih =>
    rw [unmarshalElements] at h
    cases hm : unmarshalMap none v with
    | none =>
      simp [hm] at h
    | some m =>
      cases hl : unmarshalElements [] vs with
      | none => simp [hm, hl] at h
      | some l' =>
        simp only [List.head?_nil, Option.join_none, List.tail_nil, hm, hl] at h
        cases h
        exact .cons (unmarshalMap_decoded (hv v List.mem_cons_self) hm)
          (ih (fun u hu => hv u (List.mem_cons_of_mem v hu)) hl)

/-- The alternatives of a decoded request are those of the request. -/
inductive DecodedSlice : List (Option Values) → Option Json → Prop
  | missing : DecodedSlice [] none
  | null : DecodedSlice [] (some .null)
  | array (l : List (Option Values)) (elements : List Json)
      (h : List.Forall₂ (fun m v => DecodedMap m (some v)) l elements) :
      DecodedSlice l (some (.array elements))

theorem unmarshalSlice_decoded (hv : v.WellFormed) {s : Option Slice}
    (h : unmarshalSlice none v = some s) :
    DecodedSlice ((s.map Slice.elements).getD []) (some v) := by
  cases hv with
  | null =>
    cases h
    exact .null
  | array elements he =>
    cases elements with
    | nil =>
      cases h
      exact .array _ _ .nil
    | cons u rest =>
      rw [unmarshalSlice, Option.map_eq_some_iff] at h
      · obtain ⟨backing, hb, rfl⟩ := h
        have hall := unmarshalElements_decoded he hb
        have hlen : backing.length = (u :: rest).length := hall.length_eq
        apply DecodedSlice.array
        show List.Forall₂ _ (backing.take (u :: rest).length) _
        rw [← hlen, List.take_length]
        exact hall
      · exact nofun
  | bool | number | string | object => contradiction

/-- The decoded W3C capabilities of a request. -/
structure DecodedW3C (c : W3CCapabilities) (v : Json) : Prop where
  always : DecodedMap c.alwaysMatch (v.child (.key alwaysMatch))
  first : DecodedSlice c.alternatives (v.child (.key firstMatch))

theorem child_wellFormed (hv : v.WellFormed) {s : Json.Step} {w : Json} (h : v.child s = some w) :
    w.WellFormed := by
  cases hv with
  | object members hn hm =>
    cases s with
    | key k =>
      obtain ⟨l₁, l₂, hl, _⟩ := List.lookup_eq_some_iff.mp (show members.lookup k = some w from h)
      exact hm (k, w) (by simp [hl])
    | index i => contradiction
  | array elements he =>
    cases s with
    | key k => contradiction
    | index i => exact he w (List.mem_of_getElem? h)
  | null | bool | number | string => cases s <;> contradiction

/-- The names of the members as the fields of a struct want them. -/
theorem name_of_mem {name₁ name₂ : GoString}
    (hnames : ∀ k, ((Json.object ms).child (.key k)).isSome = true → k = name₁ ∨ k = name₂) :
    ∀ e ∈ ms, e.1 = name₁ ∨ e.1 = name₂ := by
  intro e he
  apply hnames
  show (ms.lookup e.1).isSome = true
  rw [List.lookup_isSome_iff]
  exact ⟨e, he, beq_self_eq_true _⟩

theorem unmarshalW3C_decoded (hv : v.WellFormed)
    (hnames : ∀ k, (v.child (.key k)).isSome = true → k = alwaysMatch ∨ k = firstMatch)
    {c : W3CCapabilities} (h : unmarshalW3C none v = some (some c)) : DecodedW3C c v := by
  cases v with
  | object members =>
    cases hv with
    | object _ hn hm =>
      rw [unmarshalW3C, Option.map_eq_some_iff] at h
      obtain ⟨⟨am, fm⟩, hs, hc⟩ := h
      cases hc
      obtain ⟨hfirst, hsecond⟩ := unmarshalFields_spec (by decide) hn (name_of_mem hnames) hs
      have hwf : ∀ k u, members.lookup k = some u → u.WellFormed := fun k u hu =>
        child_wellFormed (.object members hn hm) (s := .key k) hu
      constructor
      · show DecodedMap am (members.lookup alwaysMatch)
        rcases hfirst with ⟨hu, rfl⟩ | ⟨u, hu, hfield⟩
        · rw [hu]
          exact .missing
        · rw [hu]
          exact unmarshalMap_decoded (hwf _ u hu) hfield
      · show DecodedSlice ((fm.map Slice.elements).getD []) (members.lookup firstMatch)
        rcases hsecond with ⟨hu, rfl⟩ | ⟨u, hu, hfield⟩
        · rw [hu]
          exact .missing
        · rw [hu]
          exact unmarshalSlice_decoded (hwf _ u hu) hfield
  | null => cases h
  | bool | number | string | array => contradiction

/-- The W3C capabilities of a body, if it has any. -/
inductive DecodedCaps : Option W3CCapabilities → Option Json → Prop
  | missing : DecodedCaps none none
  | null : DecodedCaps none (some .null)
  | object (c : W3CCapabilities) (v : Json) (hobj : isObject (some v) = true)
      (h : unmarshalW3C none v = some (some c)) : DecodedCaps (some c) (some v)

theorem unmarshalW3C_cases {c : Option W3CCapabilities} (h : unmarshalW3C none v = some c) :
    DecodedCaps c (some v) := by
  cases v with
  | null =>
    cases h
    exact .null
  | object members =>
    have hc := h
    rw [unmarshalW3C, Option.map_eq_some_iff] at hc
    obtain ⟨_, _, rfl⟩ := hc
    exact .object _ _ rfl h
  | bool | number | string | array => contradiction

theorem unmarshal_decoded (hbody : body.WellFormed)
    (hnames : ∀ k, (body.child (.key k)).isSome = true →
      k = desiredCapabilities ∨ k = capabilities)
    {w : CapsWrapper} (h : unmarshal body = some w) :
    DecodedMap w.desiredCapabilities (body.child (.key desiredCapabilities)) ∧
      DecodedCaps w.capabilities (body.child (.key capabilities)) := by
  cases body with
  | null =>
    cases h
    exact ⟨.missing, .missing⟩
  | object members =>
    cases hbody with
    | object _ hn hm =>
      rw [unmarshal, Option.map_eq_some_iff] at h
      obtain ⟨⟨d, c⟩, hs, rfl⟩ := h
      obtain ⟨hfirst, hsecond⟩ := unmarshalFields_spec (by decide) hn (name_of_mem hnames) hs
      constructor
      · show DecodedMap d (members.lookup desiredCapabilities)
        rcases hfirst with ⟨hu, rfl⟩ | ⟨u, hu, hfield⟩
        · rw [hu]
          exact .missing
        · rw [hu]
          exact unmarshalMap_decoded
            (child_wellFormed (.object members hn hm) (s := .key desiredCapabilities) hu) hfield
      · show DecodedCaps c (members.lookup capabilities)
        rcases hsecond with ⟨hu, rfl⟩ | ⟨u, hu, hfield⟩
        · rw [hu]
          exact .missing
        · rw [hu]
          exact unmarshalW3C_cases hfield
  | bool | number | string | array => contradiction

/-! ## The decoded documents and those of the request -/

section

variable {m : Option Values} {x : Option Json} {c : W3CCapabilities} {doc doc' : Nat → Json}
  {docs : List Nat} {i : Nat} {k : GoString} {q : List GoString}

theorem DecodedMap.sameTree (h : DecodedMap m x) :
    (W3CCapabilities.ofValues m).SameTree (x.getD .null) := by
  cases h with
  | missing => exact fun _ => rfl
  | null => exact fun _ => rfl
  | object m members h =>
    apply Json.sameTree_of_lookup
    intro k
    rw [GoMap.lookup_entries]
    exact h k

theorem DecodedMap.child (h : DecodedMap m x) (k : GoString) :
    (W3CCapabilities.ofValues m).child (.key k) = (x.getD .null).child (.key k) := by
  cases h with
  | missing => rfl
  | null => rfl
  | object m members h =>
    show m.entries.lookup k = members.lookup k
    rw [GoMap.lookup_entries]
    exact h k

theorem DecodedMap.isSome_eq (h : DecodedMap m x) : m.isSome = isObject x := by
  cases h <;> rfl

theorem DecodedMap.wellFormed (h : DecodedMap m x) (hx : ∀ w, x = some w → w.WellFormed) :
    (W3CCapabilities.ofValues m).WellFormed := by
  cases h with
  | missing => exact .null
  | null => exact .null
  | object m members h =>
    refine .object _ m.nodup fun e he => ?_
    have hl : members.lookup e.1 = some e.2 := by
      rw [← h e.1]
      exact m.mem_iff_lookup.mp he
    exact child_wellFormed (hx _ rfl) (s := .key e.1) hl

theorem DecodedW3C.alternative (h : DecodedW3C c v) (i : Nat) :
    DecodedMap (c.alternatives[i]?).join ((requestAlternatives v)[i]?) := by
  unfold requestAlternatives
  have hf := h.first
  generalize c.alternatives = l at hf ⊢
  generalize v.child (.key firstMatch) = y at hf ⊢
  cases hf with
  | missing => exact .missing
  | null => exact .missing
  | array l elements hall =>
    show DecodedMap (l[i]?).join elements[i]?
    induction hall generalizing i with
    | nil => exact .missing
    | cons hm _ ih =>
      cases i with
      | zero => exact hm
      | succ i => exact ih i

theorem DecodedW3C.length_eq (h : DecodedW3C c v) :
    c.alternatives.length = (requestAlternatives v).length := by
  unfold requestAlternatives
  have hf := h.first
  generalize c.alternatives = l at hf ⊢
  generalize v.child (.key firstMatch) = y at hf ⊢
  cases hf with
  | missing => rfl
  | null => rfl
  | array l elements hall => exact hall.length_eq

theorem DecodedW3C.doc_sameTree (h : DecodedW3C c v) (i : Nat) :
    (c.doc i).SameTree (requestDoc v i) := by
  cases i with
  | zero => exact h.always.sameTree
  | succ i => exact (h.alternative i).sameTree

theorem DecodedW3C.doc_child (h : DecodedW3C c v) (i : Nat) (k : GoString) :
    (c.doc i).child (.key k) = (requestDoc v i).child (.key k) := by
  cases i with
  | zero => exact h.always.child k
  | succ i => exact (h.alternative i).child k

theorem DecodedW3C.docs_eq (h : DecodedW3C c v) : c.docs = requestDocs v := by
  rw [W3CCapabilities.docs, requestDocs, h.always.isSome_eq, h.length_eq]

theorem requestAlternative_wellFormed (hv : v.WellFormed) {w : Json}
    (h : (requestAlternatives v)[i]? = some w) : w.WellFormed := by
  unfold requestAlternatives at h
  split at h
  · rename_i alternatives ha
    exact child_wellFormed (child_wellFormed hv ha) (s := .index i) h
  · contradiction

theorem DecodedW3C.doc_wellFormed (h : DecodedW3C c v) (hv : v.WellFormed) (i : Nat) :
    (c.doc i).WellFormed := by
  cases i with
  | zero => exact h.always.wellFormed fun w hw => child_wellFormed hv hw
  | succ i => exact (h.alternative i).wellFormed fun w hw => requestAlternative_wellFormed hv hw

/-! Only the members count below the documents themselves. -/

theorem atKeys_congr {a b : Json} (h : ∀ k, a.child (.key k) = b.child (.key k)) (k : GoString)
    (q : List GoString) : atKeys a (k :: q) = atKeys b (k :: q) := by
  induction q generalizing k with
  | nil => exact h k
  | cons k' q ih =>
    show (atKeys a (k' :: q)).bind _ = (atKeys b (k' :: q)).bind _
    rw [ih k']

theorem mergedAt_congr (h : ∀ i k q, node doc i (k :: q) = node doc' i (k :: q))
    (q : List GoString) : mergedAt doc docs q = mergedAt doc' docs q := by
  induction q with
  | nil => rfl
  | cons k q ih =>
    rw [mergedAt_cons_eq, mergedAt_cons_eq, ih]
    simp only [h]

theorem gains_congr (h : ∀ i k q, node doc i (k :: q) = node doc' i (k :: q)) :
    Gains doc docs i q ↔ Gains doc' docs i q := by
  unfold Gains
  rw [mergedAt_congr h]
  simp only [h]

theorem DecodedW3C.node_eq (h : DecodedW3C c v) (i : Nat) (k : GoString) (q : List GoString) :
    node c.doc i (k :: q) = node (requestDoc v) i (k :: q) :=
  atKeys_congr (h.doc_child i) k q

/-! ## The fuel is enough -/

theorem atKeys_depth {w : Json} (h : atKeys v q = some w) : q.length + w.depth ≤ v.depth := by
  induction q generalizing w with
  | nil =>
    cases h
    exact Nat.le_of_eq (Nat.zero_add _)
  | cons k q ih =>
    rw [atKeys, Option.bind_eq_some_iff] at h
    obtain ⟨u, hu, hw⟩ := h
    have hle := ih hu
    cases u with
    | object members =>
      have hlt : w.depth ≤ Json.depthMembers members := Json.depth_le_members hw
      rw [Json.depth] at hle
      rw [List.length_cons]
      omega
    | null | bool | number | string | array => contradiction

theorem isObject_root (h : isObject (node doc i q) = true) : isObject (some (doc i)) = true := by
  induction q with
  | nil => exact h
  | cons k q ih =>
    apply ih
    obtain ⟨members, hm⟩ := isObject_iff.mp h
    have hbind : (node doc i q).bind (fun c => c.child (.key k)) = some (.object members) := hm
    rw [Option.bind_eq_some_iff] at hbind
    obtain ⟨u, hu, hc⟩ := hbind
    rw [hu]
    cases u with
    | object members => rfl
    | null | bool | number | string | array => contradiction

theorem mem_docs (h : isObject (some (c.doc i)) = true) : i ∈ c.docs := by
  rw [W3CCapabilities.docs, List.mem_append]
  cases i with
  | zero =>
    left
    rw [W3CCapabilities.doc] at h
    cases ha : c.alwaysMatch with
    | none =>
      rw [ha] at h
      contradiction
    | some m => exact List.mem_singleton_self 0
  | succ i =>
    right
    rw [List.mem_map]
    refine ⟨i, ?_, rfl⟩
    rw [List.mem_range]
    by_contra hlt
    rw [W3CCapabilities.doc, List.getElem?_eq_none (Nat.le_of_not_lt hlt)] at h
    contradiction

theorem length_lt_depth (h : isObject (node c.doc i q) = true) : q.length < c.depth := by
  have hmem := mem_docs (isObject_root h)
  have hle : (c.doc i).depth ≤ c.depth := Json.depth_le_elements (List.mem_map_of_mem hmem)
  obtain ⟨members, hm⟩ := isObject_iff.mp h
  have hq := atKeys_depth hm
  rw [Json.depth] at hq
  omega

theorem docs_nodup (c : W3CCapabilities) : c.docs.Nodup := by
  rw [W3CCapabilities.docs, List.nodup_append]
  refine ⟨?_, ?_, ?_⟩
  · split
    · exact List.nodup_singleton 0
    · exact List.nodup_nil
  · exact List.nodup_range.map fun _ _ h => Nat.succ.inj h
  · intro i hi j hj heq
    subst heq
    split at hi
    · rw [List.mem_singleton] at hi
      subst hi
      obtain ⟨_, _, h⟩ := List.mem_map.mp hj
      contradiction
    · contradiction

/-- `Merge` leaves every map as it is to be. -/
theorem W3CCapabilities.merge_good (hdoc : ∀ i, (c.doc i).WellFormed) (order : MapOrder)
    (q : List GoString) : Good c.doc c.docs (c.merge order) q :=
  Models.merge_good hdoc order c.depth c.docs (docs_nodup c) (fun _ _ _ h => length_lt_depth h) q

end

end Selebrow.Models
