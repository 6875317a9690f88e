import Selebrow.Capabilities.Written

/-!
# The default proxy put in twice

The raw capabilities with the default proxy in them, given to `NewCapabilities` with the
same default proxy, are accepted and returned as they are, and the same is reported of
them.  The strings of the default proxy have to be valid UTF-8, as `json.Marshal` writes
others down as different ones, and the map that is decoded must not have names that differ
in case only, as `mapstructure` may take any of them.
-/

namespace Selebrow.Models

/-- What the second call makes of the raw capabilities of the first. -/
def Repeats (decode : Dialect → Values → Except GoString Capabilities) (order order' : MapOrder)
    (text : Json) (p : ProxyOptions) : Prop :=
  ∀ c, Capabilities.newCapabilities decode order text (some p) = .ok c →
    ∃ c', Capabilities.newCapabilities decode order' c.getRawCapabilities (some p) = .ok c' ∧
      c'.SameReport c

/-! ## The same reports -/

section

variable {α β γ : Type} {r : α → β → Prop} {x : Option α} {y : Option β} {z : Option γ}

theorem rel_symm {s : β → α → Prop} (h : Option.Rel r x y) (hr : ∀ a b, r a b → s b a) :
    Option.Rel s y x := by
  cases h with
  | none => exact .none
  | some hab => exact .some (hr _ _ hab)

theorem rel_trans {s : β → γ → Prop} {t : α → γ → Prop} (h : Option.Rel r x y)
    (h' : Option.Rel s y z) (hr : ∀ a b c, r a b → s b c → t a c) : Option.Rel t x z := by
  cases h with
  | none =>
    cases h'
    exact .none
  | some hab =>
    cases h' with
    | some hbc => exact .some (hr _ _ _ hab hbc)

end

section

variable {a b c : Capabilities} {p p' p'' : DecodedProxy} {o o' o'' : SelenoidOptions}

theorem SameProxy.symm (h : SameProxy p p') : SameProxy p' p :=
  ⟨h.proxyType.symm, h.httpProxy.symm, h.sslProxy.symm, h.noProxy.symm⟩

theorem SameProxy.trans (h : SameProxy p p') (h' : SameProxy p' p'') : SameProxy p p'' :=
  ⟨h.proxyType.trans h'.proxyType, h.httpProxy.trans h'.httpProxy, h.sslProxy.trans h'.sslProxy,
    h.noProxy.trans h'.noProxy⟩

theorem SameOptions.symm (h : SameOptions o o') : SameOptions o' o :=
  ⟨h.testName.symm, h.sessionTimeout.symm, h.screenResolution.symm, h.enableVNC.symm, h.env.symm,
    h.flavor.symm, h.links.symm, h.hosts.symm, h.networks.symm, fun k => (h.labels k).symm⟩

theorem SameOptions.trans (h : SameOptions o o') (h' : SameOptions o' o'') : SameOptions o o'' :=
  ⟨h.testName.trans h'.testName, h.sessionTimeout.trans h'.sessionTimeout,
    h.screenResolution.trans h'.screenResolution, h.enableVNC.trans h'.enableVNC,
    h.env.trans h'.env, h.flavor.trans h'.flavor, h.links.trans h'.links, h.hosts.trans h'.hosts,
    h.networks.trans h'.networks, fun k => (h.labels k).trans (h'.labels k)⟩

namespace Capabilities

theorem Same.symm (h : a.Same b) : b.Same a :=
  ⟨h.name.symm, h.deviceName.symm, h.version.symm, h.platform.symm,
    rel_symm h.proxy fun _ _ => SameProxy.symm,
    rel_symm h.selenoidOptions fun _ _ => SameOptions.symm⟩

theorem Same.trans (h : a.Same b) (h' : b.Same c) : a.Same c :=
  ⟨h.name.trans h'.name, h.deviceName.trans h'.deviceName, h.version.trans h'.version,
    h.platform.trans h'.platform, rel_trans h.proxy h'.proxy fun _ _ _ => SameProxy.trans,
    rel_trans h.selenoidOptions h'.selenoidOptions fun _ _ _ => SameOptions.trans⟩

theorem Same.option {α : Type} {field : SelenoidOptions → α} (h : a.Same b)
    (hf : ∀ o o', SameOptions o o' → field o = field o') (default : α) :
    a.option field default = b.option field default := by
  have ho := h.selenoidOptions
  rw [Capabilities.option, Capabilities.option]
  generalize a.selenoidOptions = x at ho ⊢
  generalize b.selenoidOptions = y at ho ⊢
  cases ho with
  | none => rfl
  | some hab => exact hf _ _ hab

theorem Same.getResolution (h : a.Same b) : a.getResolution = b.getResolution :=
  h.option (fun _ _ => SameOptions.screenResolution) []

theorem Same.proxyType (h : a.Same b) :
    a.proxy.map DecodedProxy.proxyType = b.proxy.map DecodedProxy.proxyType := by
  have hp := h.proxy
  generalize a.proxy = x at hp ⊢
  generalize b.proxy = y at hp ⊢
  cases hp with
  | none => rfl
  | some hab => exact congrArg some hab.proxyType

theorem Same.report (h : a.Same b) (hraw : a.rawCapabilities = b.rawCapabilities) :
    a.SameReport b where
  raw := hraw
  name := by
    rw [getName, getName, h.deviceName, h.name]
  version := h.version
  platform := h.platform
  resolution := h.getResolution
  vnc := h.option (fun _ _ => SameOptions.enableVNC) false
  testName := h.option (fun _ _ => SameOptions.testName) []
  envs := h.option (fun _ _ => SameOptions.env) []
  timeout := h.option (fun _ _ => SameOptions.sessionTimeout) 0
  flavor := h.option (fun _ _ => SameOptions.flavor) []
  links := h.option (fun _ _ => SameOptions.links) []
  hosts := h.option (fun _ _ => SameOptions.hosts) []
  networks := h.option (fun _ _ => SameOptions.networks) []
  labels := by
    intro k
    have ho := h.selenoidOptions
    rw [getLabels, getLabels, Capabilities.option, Capabilities.option]
    generalize a.selenoidOptions = x at ho ⊢
    generalize b.selenoidOptions = y at ho ⊢
    cases ho with
    | none => rfl
    | some hab => exact hab.labels k
  proxy := h.proxy

/-! ## Running `NewCapabilities` -/

variable {decode : Dialect → Values → Except GoString Capabilities} {order : MapOrder}
  {text raw : Json} {o : ProxyOptions} {encode : ProxyOptions → Json} {m : Values}
  {d : Option Values} {w : W3CCapabilities}

theorem finish_ok (h : a.finish raw (some o) encode = .ok c) :
    isResolution a.getResolution = true ∧
      (a.proxy.map DecodedProxy.proxyType = some proxyTypeManual ∧ c = a.withRaw raw ∨
        c = (a.withProxy o.reported).withRaw (encoded (encode o))) := by
  rw [finish] at h
  by_cases hm : a.proxy.map DecodedProxy.proxyType = some proxyTypeManual
  · rw [if_pos hm] at h
    split at h
    · rename_i hres
      cases h
      exact ⟨hres, .inl ⟨hm, rfl⟩⟩
    · contradiction
  · rw [if_neg hm] at h
    split at h
    · rename_i hres
      cases h
      exact ⟨hres, .inr rfl⟩
    · contradiction

theorem finish_manual (hres : isResolution a.getResolution = true)
    (hm : a.proxy.map DecodedProxy.proxyType = some proxyTypeManual) (raw : Json)
    (encode : ProxyOptions → Json) : a.finish raw (some o) encode = .ok (a.withRaw raw) := by
  rw [finish, if_pos hm, if_pos]
  exact hres

theorem newCapabilities_ok (h : newCapabilities decode order text (some o) = .ok c) :
    (∃ m a, unmarshalText text = some { desiredCapabilities := some m, capabilities := none } ∧
      decode .jsonWire m = .ok a ∧
      a.finish text (some o) (fun p => marshalJsonWire m (encodedProxy .jsonWire p)) = .ok c) ∨
    ∃ d w a, unmarshalText text = some { desiredCapabilities := d, capabilities := some w } ∧
      decode .w3c (w.merged order) = .ok a ∧
      a.finish text (some o)
        (fun p => marshalW3C d w (w.merge order) (encodedProxy .w3c p)) = .ok c := by
  unfold newCapabilities at h
  split at h
  · contradiction
  · contradiction
  · rename_i m hm
    split at h
    · contradiction
    · rename_i a ha
      exact .inl ⟨m, a, hm, ha, h⟩
  · rename_i d w hm
    split at h
    · contradiction
    · rename_i a ha
      exact .inr ⟨d, w, a, hm, ha, h⟩

theorem Same.withRaw (h : a.Same b) (raw raw' : Json) : (a.withRaw raw).Same (b.withRaw raw') :=
  ⟨h.name, h.deviceName, h.version, h.platform, h.proxy, h.selenoidOptions⟩

/-- Capabilities that bring a manual proxy are returned as they are. -/
theorem report_jsonWire (order : MapOrder)
    (hu : unmarshalText text = some { desiredCapabilities := some m, capabilities := none })
    (hb : decode .jsonWire m = .ok b) (hab : b.Same a) (hres : isResolution a.getResolution = true)
    (hm : a.proxy.map DecodedProxy.proxyType = some proxyTypeManual) :
    ∃ c, newCapabilities decode order text (some o) = .ok c ∧ c.SameReport (a.withRaw text) := by
  rw [← hab.getResolution] at hres
  rw [← hab.proxyType] at hm
  refine ⟨b.withRaw text, ?_, (hab.withRaw text text).report rfl⟩
  rw [newCapabilities, hu]
  dsimp only
  rw [hb]
  exact finish_manual hres hm _ _

theorem report_w3c
    (hu : unmarshalText text = some { desiredCapabilities := d, capabilities := some w })
    (hb : decode .w3c (w.merged order) = .ok b) (hab : b.Same a)
    (hres : isResolution a.getResolution = true)
    (hm : a.proxy.map DecodedProxy.proxyType = some proxyTypeManual) :
    ∃ c, newCapabilities decode order text (some o) = .ok c ∧ c.SameReport (a.withRaw text) := by
  rw [← hab.getResolution] at hres
  rw [← hab.proxyType] at hm
  refine ⟨b.withRaw text, ?_, (hab.withRaw text text).report rfl⟩
  rw [newCapabilities, hu]
  cases d with
  | none =>
    dsimp only
    rw [hb]
    exact finish_manual hres hm _ _
  | some d =>
    dsimp only
    rw [hb]
    exact finish_manual hres hm _ _

end Capabilities

end

/-! ## The proxy that is written -/

/-- The hosts without a proxy, as the dialect has them. -/
def noProxyJson : Dialect → List GoString → Json
  | .jsonWire, hosts => .string (List.intercalate (bytes ",") hosts)
  | .w3c, hosts => .array (hosts.map .string)

section

variable {hosts : List GoString} {proxyHost noProxyStr : GoString} {v : Json}

theorem proxyJson_newHTTPProxy (d : Dialect) (hhost : proxyHost ≠ []) :
    proxyJson d (newHTTPProxy proxyHost noProxyStr) =
      .object [(bytes "proxyType", .string proxyTypeManual), (bytes "httpProxy", .string proxyHost),
        (bytes "sslProxy", .string proxyHost),
        (bytes "noProxy", noProxyJson d (noProxyHosts noProxyStr))] := by
  have hfield : ∀ name, stringField name proxyHost = [(bytes name, .string proxyHost)] :=
    fun name => if_neg hhost
  cases d with
  | jsonWire =>
    rw [proxyJson, marshalProxy, newHTTPProxy, hfield, hfield]
    rfl
  | w3c =>
    rw [proxyJson, marshalProxy, newHTTPProxy, hfield, hfield]
    rfl

theorem newHTTPProxy_valid (hvalid : Text.ValidUTF8 proxyHost)
    (hhosts : ∀ host ∈ noProxyHosts noProxyStr, Text.ValidUTF8 host) :
    (newHTTPProxy proxyHost noProxyStr).Valid where
  proxyType := (by decide : Text.ValidUTF8 proxyTypeManual)
  httpProxy := hvalid
  sslProxy := hvalid
  noProxy := by
    intro hosts hmem
    cases hmem
    exact hhosts

theorem encodedProxy_eq (d : Dialect) (hhost : proxyHost ≠ []) (hvalid : Text.ValidUTF8 proxyHost)
    (hhosts : ∀ host ∈ noProxyHosts noProxyStr, Text.ValidUTF8 host) :
    encodedProxy d (newHTTPProxy proxyHost noProxyStr) =
      .object [(bytes "proxyType", .string proxyTypeManual), (bytes "httpProxy", .string proxyHost),
        (bytes "sslProxy", .string proxyHost),
        (bytes "noProxy", noProxyJson d (noProxyHosts noProxyStr))] := by
  rw [(newHTTPProxy_valid hvalid hhosts).encodedProxy, proxyJson_newHTTPProxy d hhost]

theorem notMem_noProxyHosts (noProxyStr : GoString) : ∀ host ∈ noProxyHosts noProxyStr, 44 ∉ host := by
  intro host hmem hcomma
  obtain ⟨part, hpart, rfl⟩ := List.mem_map.mp hmem
  exact notMem_splitOn hpart (Text.trimSpace_subset part hcomma)

theorem noProxyHosts_ne_nil (noProxyStr : GoString) : noProxyHosts noProxyStr ≠ [] := by
  rw [noProxyHosts, ne_eq, List.map_eq_nil_iff]
  exact List.splitOn_ne_nil 44 noProxyStr

theorem filterMap_stringValue (hosts : List GoString) :
    (hosts.map Json.string).filterMap stringValue = hosts := by
  induction hosts with
  | nil => rfl
  | cons host hosts ih =>
    rw [List.map_cons, List.filterMap_cons]
    exact congrArg (host :: ·) ih

/-- Either dialect has the hosts of the default proxy. -/
theorem hosts_noProxyJson (d : Dialect) (noProxyStr : GoString) :
    (NoProxy.value (noProxyJson d (noProxyHosts noProxyStr))).hosts = noProxyHosts noProxyStr := by
  cases d with
  | jsonWire =>
    exact List.splitOn_intercalate 44 (notMem_noProxyHosts noProxyStr)
      (noProxyHosts_ne_nil noProxyStr)
  | w3c => exact filterMap_stringValue _

theorem sound_noProxyJson (d : Dialect) (hosts : List GoString) : Sound (noProxyJson d hosts) := by
  cases d with
  | jsonWire => exact sound_string _
  | w3c =>
    apply sound_array
    intro v hv
    obtain ⟨host, _, rfl⟩ := List.mem_map.mp hv
    exact sound_string host

/-- The members of an object are those of the default proxy. -/
structure HasProxy (d : Dialect) (proxyHost noProxyStr : GoString) (v : Json) : Prop where
  proxyType : v.child (.key (bytes "proxyType")) = some (.string proxyTypeManual)
  httpProxy : v.child (.key (bytes "httpProxy")) = some (.string proxyHost)
  sslProxy : v.child (.key (bytes "sslProxy")) = some (.string proxyHost)
  noProxy : v.child (.key (bytes "noProxy")) =
    some (noProxyJson d (noProxyHosts noProxyStr))

theorem hasProxy_encoded (d : Dialect) (hhost : proxyHost ≠ []) (hvalid : Text.ValidUTF8 proxyHost)
    (hhosts : ∀ host ∈ noProxyHosts noProxyStr, Text.ValidUTF8 host) :
    HasProxy d proxyHost noProxyStr (encodedProxy d (newHTTPProxy proxyHost noProxyStr)) := by
  rw [encodedProxy_eq d hhost hvalid hhosts]
  exact ⟨rfl, rfl, rfl, rfl⟩

theorem sound_encodedProxy (d : Dialect) (hhost : proxyHost ≠ []) (hvalid : Text.ValidUTF8 proxyHost)
    (hhosts : ∀ host ∈ noProxyHosts noProxyStr, Text.ValidUTF8 host) :
    Sound (encodedProxy d (newHTTPProxy proxyHost noProxyStr)) := by
  rw [encodedProxy_eq d hhost hvalid hhosts]
  apply sound_object
  · show [bytes "proxyType", bytes "httpProxy", bytes "sslProxy", bytes "noProxy"].Nodup
    decide
  · rw [SoundMembers, List.forall_mem_cons, List.forall_mem_cons, List.forall_mem_cons,
      List.forall_mem_singleton]
    exact ⟨sound_string _, sound_string _, sound_string _, sound_noProxyJson d _⟩

/-- With the default proxy in the map the decoder reports it, and the rest as before. -/
theorem decode_proxy {decode : Dialect → Values → Except GoString Capabilities}
    (hdecode : Decodes decode) {d : Dialect} {m m' : Values} {a : Capabilities}
    (hcase : oneCase (.object m.entries) = true)
    (hrest : ∀ k, k ≠ proxy → Option.Rel Json.SameDouble (m.lookup k) (m'.lookup k))
    (ha : decode d m = .ok a) (hm' : m'.lookup proxy = some v)
    (hv : HasProxy d proxyHost noProxyStr v) :
    ∃ b, decode d m' = .ok b ∧
      b.Same (a.withProxy (newHTTPProxy proxyHost noProxyStr).reported) := by
  have hnull : noProxyJson d (noProxyHosts noProxyStr) ≠ .null := by
    cases d with
    | jsonWire => exact fun h => Json.noConfusion h
    | w3c => exact fun h => Json.noConfusion h
  obtain ⟨b, hb, hsame⟩ := hdecode.proxy d m m' a v _ _ _ _ hcase hrest ha hm' hv.proxyType
    hv.httpProxy hv.sslProxy hv.noProxy hnull
  have hreported : SameProxy
      { proxyType := proxyTypeManual, httpProxy := proxyHost, sslProxy := proxyHost,
        noProxy := .value (noProxyJson d (noProxyHosts noProxyStr)) }
      (newHTTPProxy proxyHost noProxyStr).reported :=
    ⟨rfl, rfl, rfl, hosts_noProxyJson d noProxyStr⟩
  exact ⟨b, hb, hsame.name, hsame.deviceName, hsame.version, hsame.platform,
    rel_trans hsame.proxy (.some hreported) fun _ _ _ => SameProxy.trans, hsame.selenoidOptions⟩

end

/-! ## The merged view of the second call -/

section

variable {c c' : W3CCapabilities} {order order' : MapOrder} {p u v : Json} {k : GoString}
  {hosts : List GoString} {x y : Option Json} {m m' : Values} {proxyHost noProxyStr : GoString}

theorem strings_of_forall₂ {us : List Json}
    (h : List.Forall₂ Json.SameDouble us (hosts.map .string)) : us = hosts.map .string := by
  induction hosts generalizing us with
  | nil =>
    cases h
    rfl
  | cons host hosts ih =>
    cases h with
    | cons hu hus => rw [hu.eq_string, ih hus, List.map_cons]

theorem eq_noProxyJson {d : Dialect} (h : u.SameDouble (noProxyJson d hosts)) :
    u = noProxyJson d hosts := by
  cases d with
  | jsonWire => exact h.eq_string
  | w3c =>
    obtain ⟨us, rfl, hall⟩ := h.array
    rw [strings_of_forall₂ hall]
    rfl

theorem isObject_noProxyJson (d : Dialect) (hosts : List GoString) :
    isObject (some (noProxyJson d hosts)) = false := by
  cases d <;> rfl

/-- A document that was written with the default proxy has it. -/
theorem hasProxy_of_sameDouble {d : Dialect} (h : u.SameDouble v)
    (hv : HasProxy d proxyHost noProxyStr v) : HasProxy d proxyHost noProxyStr u := by
  have hchild : ∀ name w, v.child (.key name) = some w → (∀ u', u'.SameDouble w → u' = w) →
      u.child (.key name) = some w := by
    intro name w hw heq
    have hrel := h.child (.key name)
    rw [hw] at hrel
    generalize u.child (.key name) = x at hrel ⊢
    cases hrel with
    | some hab => rw [heq _ hab]
  exact ⟨hchild _ _ hv.proxyType fun _ => Json.SameDouble.eq_string,
    hchild _ _ hv.httpProxy fun _ => Json.SameDouble.eq_string,
    hchild _ _ hv.sslProxy fun _ => Json.SameDouble.eq_string,
    hchild _ _ hv.noProxy fun _ => eq_noProxyJson⟩

/-- `AlwaysMatch` comes first, and so does the proxy that it has. -/
theorem result_proxy (hdoc : ∀ i, (c.doc i).WellFormed) (order : MapOrder)
    (hu : (c.doc 0).child (.key proxy) = some u) (hp : HasProxy .w3c proxyHost noProxyStr u) :
    ∃ v, atKeys (c.result order) [proxy] = some v ∧ HasProxy .w3c proxyHost noProxyStr v := by
  obtain ⟨m, hm⟩ : ∃ m, c.alwaysMatch = some m := by
    cases hm : c.alwaysMatch with
    | some m => exact ⟨m, rfl⟩
    | none =>
      rw [W3CCapabilities.doc, hm] at hu
      contradiction
  have hzero : c.doc 0 = .object m.entries := by
    rw [W3CCapabilities.doc, hm]
    rfl
  rw [hzero] at hu
  have hmember : ∀ name w, u.child (.key name) = some w → isObject (some w) = false →
      atKeys (c.result order) [name, proxy] = some w := by
    intro name w hw hleaf
    apply result_always hdoc hm _ hleaf
    show ((Json.object m.entries).child (.key proxy)).bind (fun v => v.child (.key name)) = some w
    rw [hu]
    exact hw
  have htype := hmember _ _ hp.proxyType rfl
  rw [atKeys_cons, Option.bind_eq_some_iff] at htype
  obtain ⟨v, hv, htype⟩ := htype
  have hchild : ∀ name w, u.child (.key name) = some w → isObject (some w) = false →
      v.child (.key name) = some w := by
    intro name w hw hleaf
    have hname := hmember name w hw hleaf
    rw [atKeys_cons, hv] at hname
    exact hname
  exact ⟨v, hv, htype, hchild _ _ hp.httpProxy rfl, hchild _ _ hp.sslProxy rfl,
    hchild _ _ hp.noProxy (isObject_noProxyJson _ _)⟩

/-- The second call sees the map of the first one with the proxy set. -/
theorem merged_again (hdoc : ∀ i, (c.doc i).WellFormed) (hdoc' : ∀ i, (c'.doc i).WellFormed)
    (order order' : MapOrder) (p : Json) (hlen : c'.alternatives.length = c.alternatives.length)
    (hwritten : ∀ i ∈ 0 :: (List.range c.alternatives.length).map (· + 1),
      (c'.doc i).SameDouble (writtenDoc c (updateProxy (c.merge order) p) p i))
    (hp : HasProxy .w3c proxyHost noProxyStr p) :
    (∀ k, k ≠ proxy → Option.Rel Json.SameDouble ((c.merged order).lookup k)
      ((c'.merged order').lookup k)) ∧
    ∃ v, (c'.merged order').lookup proxy = some v ∧ HasProxy .w3c proxyHost noProxyStr v := by
  have hlookup : ∀ (m : Values) k, m.lookup k = atKeys (.object m.entries) [k] := by
    intro m k
    rw [← GoMap.lookup_entries]
    rfl
  obtain ⟨u, hu, hup⟩ : ∃ u, (c'.doc 0).child (.key proxy) = some u ∧
      HasProxy .w3c proxyHost noProxyStr u := by
    have hrel := (hwritten 0 List.mem_cons_self).child (.key proxy)
    rw [writtenDoc_proxy] at hrel
    generalize (c'.doc 0).child (.key proxy) = x at hrel ⊢
    cases hrel with
    | some hab => exact ⟨_, rfl, hasProxy_of_sameDouble hab hp⟩
  constructor
  · intro k hk
    rw [hlookup, hlookup]
    apply rel_of_alike fun v w => sameDouble_of_alike
    intro q
    rw [← atKeys_append, ← atKeys_append]
    apply Alike.symm
    apply result_again hdoc hdoc' order order' p hlen hwritten
    rw [List.getLast?_append]
    exact fun heq => hk (Option.some.inj heq)
  · obtain ⟨v, hv, hvp⟩ := result_proxy hdoc' order' hu hup
    exact ⟨v, (hlookup _ _).trans hv, hvp⟩

end

/-! ## The second call -/

section

variable {decode : Dialect → Values → Except GoString Capabilities} {order order' : MapOrder}
  {text : Json} {proxyHost noProxyStr : GoString} {a b c : Capabilities}

theorem repeats_jsonWire {m : Values} (hdecode : Decodes decode) (order' : MapOrder)
    (hhost : proxyHost ≠ []) (hvalid : Text.ValidUTF8 proxyHost)
    (hhosts : ∀ host ∈ noProxyHosts noProxyStr, Text.ValidUTF8 host)
    (hm : unmarshalText text = some { desiredCapabilities := some m, capabilities := none })
    (hcase : oneCase (.object m.entries) = true) (ha : decode .jsonWire m = .ok a)
    (h : a.finish text (some (newHTTPProxy proxyHost noProxyStr))
      (fun p => marshalJsonWire m (encodedProxy .jsonWire p)) = .ok c) :
    ∃ c', Capabilities.newCapabilities decode order' c.getRawCapabilities
        (some (newHTTPProxy proxyHost noProxyStr)) = .ok c' ∧ c'.SameReport c := by
  obtain ⟨hres, ⟨hmanual, rfl⟩ | rfl⟩ := Capabilities.finish_ok h
  · obtain ⟨b, hb, hab⟩ := hdecode.same _ m m a hcase (Json.SameDouble.refl _) ha
    exact Capabilities.report_jsonWire order' hm hb hab.symm hres hmanual
  · have hsound := (unmarshalText_sound hm).1 m rfl
    obtain ⟨m', hm', hsame⟩ := unmarshalText_jsonWire hsound
      (sound_encodedProxy .jsonWire hhost hvalid hhosts)
    have hlookup : ∀ k, Option.Rel Json.SameDouble
        ((m.insert proxy (encodedProxy .jsonWire (newHTTPProxy proxyHost noProxyStr))).lookup k)
        (m'.lookup k) := by
      intro k
      rw [← GoMap.lookup_entries, ← GoMap.lookup_entries]
      exact hsame.child (.key k)
    have hrest : ∀ k, k ≠ proxy → Option.Rel Json.SameDouble (m.lookup k) (m'.lookup k) := by
      intro k hk
      have hrel := hlookup k
      rw [GoMap.lookup_insert, if_neg hk] at hrel
      exact hrel
    obtain ⟨v, hv, hvp⟩ : ∃ v, m'.lookup proxy = some v ∧
        HasProxy .jsonWire proxyHost noProxyStr v := by
      have hrel := hlookup proxy
      rw [GoMap.lookup_insert, if_pos rfl] at hrel
      generalize m'.lookup proxy = x at hrel ⊢
      cases hrel with
      | some hab =>
        exact ⟨_, rfl, hasProxy_of_sameDouble hab.symm (hasProxy_encoded .jsonWire hhost hvalid hhosts)⟩
    obtain ⟨b, hb, hab⟩ := decode_proxy hdecode hcase hrest ha hv hvp
    exact Capabilities.report_jsonWire order' hm' hb hab hres rfl

theorem repeats_w3c {d : Option Values} {w : W3CCapabilities} (hdecode : Decodes decode)
    (order' : MapOrder) (hhost : proxyHost ≠ []) (hvalid : Text.ValidUTF8 proxyHost)
    (hhosts : ∀ host ∈ noProxyHosts noProxyStr, Text.ValidUTF8 host)
    (hm : unmarshalText text = some { desiredCapabilities := d, capabilities := some w })
    (hcase : oneCase (.object (w.merged order).entries) = true)
    (ha : decode .w3c (w.merged order) = .ok a)
    (h : a.finish text (some (newHTTPProxy proxyHost noProxyStr))
      (fun p => marshalW3C d w (w.merge order) (encodedProxy .w3c p)) = .ok c) :
    ∃ c', Capabilities.newCapabilities decode order' c.getRawCapabilities
        (some (newHTTPProxy proxyHost noProxyStr)) = .ok c' ∧ c'.SameReport c := by
  have hdoc : ∀ i, Sound (w.doc i) := ((unmarshalText_sound hm).2 w rfl).doc
  have hwf : ∀ i, (w.doc i).WellFormed := fun i => (hdoc i).wellFormed
  obtain ⟨hres, ⟨hmanual, rfl⟩ | rfl⟩ := Capabilities.finish_ok h
  · obtain ⟨b, hb, hab⟩ :=
      hdecode.same _ _ (w.merged order') a hcase (result_order hwf order' order) ha
    exact Capabilities.report_w3c hm hb hab.symm hres hmanual
  · have hp := sound_encodedProxy .w3c hhost hvalid hhosts
    obtain ⟨d', w', hm', hlen, hwritten⟩ := unmarshalText_w3c (unmarshalText_sound hm).1 hdoc order hp
    have hwf' : ∀ i, (w'.doc i).WellFormed := fun i =>
      (((unmarshalText_sound hm').2 w' rfl).doc i).wellFormed
    obtain ⟨hrest, v, hv, hvp⟩ := merged_again hwf hwf' order order' _ hlen hwritten
      (hasProxy_encoded .w3c hhost hvalid hhosts)
    obtain ⟨b, hb, hab⟩ := decode_proxy hdecode hcase hrest ha hv hvp
    exact Capabilities.report_w3c hm' hb hab hres rfl

/-- The map that `NewCapabilities` decodes: the desired capabilities, or the documents of a
W3C request merged. -/
def mapToDecode (order : MapOrder) (text : Json) : Option Values :=
  match unmarshalText text with
  | none => none
  | some { desiredCapabilities := desired, capabilities := none } => desired
  | some { desiredCapabilities := _, capabilities := some w } => some (w.merged order)

/-- Putting the default proxy in twice is the same as putting it in once. -/
theorem newCapabilities_repeats (decode : Dialect → Values → Except GoString Capabilities)
    (hdecode : Decodes decode) (order order' : MapOrder) (text : Json)
    (hcase : ∀ m, mapToDecode order text = some m → oneCase (.object m.entries) = true)
    (proxyHost noProxyStr : GoString) (hhost : proxyHost ≠ []) (hvalid : Text.ValidUTF8 proxyHost)
    (hhosts : ∀ host ∈ noProxyHosts noProxyStr, Text.ValidUTF8 host) :
    Repeats decode order order' text (newHTTPProxy proxyHost noProxyStr) := by
  intro c h
  rcases Capabilities.newCapabilities_ok h with ⟨m, a, hm, ha, hfinish⟩ | ⟨d, w, a, hm, ha, hfinish⟩
  · have hmap : mapToDecode order text = some m := by
      rw [mapToDecode, hm]
    exact repeats_jsonWire hdecode order' hhost hvalid hhosts hm (hcase m hmap) ha hfinish
  · have hmap : mapToDecode order text = some (w.merged order) := by
      rw [mapToDecode, hm]
    exact repeats_w3c hdecode order' hhost hvalid hhosts hm (hcase _ hmap) ha hfinish

end

/-! ## The raw capabilities alone -/

/-- What decides on the raw capabilities. -/
def Capabilities.decoded (c : Capabilities) : Decoded where
  proxyType := c.proxy.map DecodedProxy.proxyType
  resolution := c.getResolution

section

variable {text raw : Json} {encode : ProxyOptions → Json} {p : ProxyOptions}

theorem finish_raw (c : Capabilities) :
    (c.finish raw (some p) encode).map Capabilities.getRawCapabilities =
      (finish c.decoded raw (some p) encode).map RawCapabilities.raw := by
  rw [Capabilities.finish, finish]
  by_cases hm : c.proxy.map DecodedProxy.proxyType = some proxyTypeManual
  · rw [if_pos hm]
    rw [if_pos (show c.decoded.proxyType = _ from hm)]
    show Except.map _ (if isResolution c.getResolution = true then _ else _) =
      Except.map _ (if isResolution c.getResolution = true then _ else _)
    split
    · rfl
    · rfl
  · rw [if_neg hm]
    rw [if_neg (show ¬ c.decoded.proxyType = _ from hm)]
    show Except.map _ (if isResolution c.getResolution = true then _ else _) =
      Except.map _ (if isResolution c.getResolution = true then _ else _)
    split
    · rfl
    · rfl

/-- The raw capabilities are those of the model that has nothing but them, on the texts
that it is about. -/
theorem newCapabilities_raw (decode : Dialect → Values → Except GoString Capabilities)
    (order : MapOrder) (htext : text.WellFormed) (p : ProxyOptions) :
    (Capabilities.newCapabilities decode order text (some p)).map
        Capabilities.getRawCapabilities =
      (newCapabilities (fun d m => (decode d m).map Capabilities.decoded) order text
        (some p)).map RawCapabilities.raw := by
  unfold Capabilities.newCapabilities newCapabilities
  rw [unmarshalText_eq htext]
  cases unmarshal text with
  | none => rfl
  | some w =>
    obtain ⟨desired, w3c⟩ := w
    cases w3c with
    | none =>
      cases desired with
      | none => rfl
      | some m =>
        dsimp only
        cases decode .jsonWire m with
        | error err => rfl
        | ok c => exact finish_raw c
    | some w =>
      cases desired with
      | none =>
        dsimp only
        cases decode .w3c (w.merged order) with
        | error err => rfl
        | ok c => exact finish_raw c
      | some m =>
        dsimp only
        cases decode .w3c (w.merged order) with
        | error err => rfl
        | ok c => exact finish_raw c

end

/-! ## Two requests -/

def decodeString : Option Json → Except GoString GoString
  | none => .ok []
  | some v =>
    match v.doubleKind with
    | .null => .ok []
    | .string s => .ok s
    | _ => .error (bytes "expected type 'string'")

def decodeNoProxy : Option Json → NoProxy
  | none => .missing
  | some v => if v.doubleKind = .null then .missing else .value v

def decodeProxy : Option Json → Except GoString (Option DecodedProxy)
  | none => .ok none
  | some v =>
    match v.doubleKind with
    | .null => .ok none
    | .object =>
      (decodeString (v.child (.key (bytes "proxyType")))).bind fun proxyType =>
        (decodeString (v.child (.key (bytes "httpProxy")))).bind fun httpProxy =>
          (decodeString (v.child (.key (bytes "sslProxy")))).map fun sslProxy =>
            some (DecodedProxy.mk proxyType httpProxy sslProxy
              (decodeNoProxy (v.child (.key (bytes "noProxy")))))
    | _ => .error (bytes "expected a map")

/-- What a field is decoded from: the member of its name, or else the first that a range
over the map has under a name that differs in case. -/
def fieldValue (visit : Values → List (GoString × Json)) (m : Values) (k : GoString) :
    Option Json :=
  match m.lookup k with
  | some v => some v
  | none => ((visit m).find? fun e => decide (foldName e.1 = foldName k)).map Prod.snd

/-- A decoder for requests that have a browser and a proxy and nothing else. -/
def decodeBrowser (visit : Values → List (GoString × Json)) (_ : Dialect) (m : Values) :
    Except GoString Capabilities :=
  (decodeString (fieldValue visit m (bytes "browserName"))).bind fun name =>
    (decodeProxy (fieldValue visit m proxy)).map fun proxy =>
      { name := name, deviceName := [], version := [], platform := [], proxy := proxy,
        selenoidOptions := none, rawCapabilities := .null }

section

variable {x y : Option Json} {u v : Json} {p : Option DecodedProxy}

theorem SameProxy.refl (p : DecodedProxy) : SameProxy p p := ⟨rfl, rfl, rfl, rfl⟩

theorem rel_refl (p : Option DecodedProxy) : Option.Rel SameProxy p p := by
  cases p with
  | none => exact .none
  | some p => exact .some (.refl p)

theorem decodeString_same (h : Option.Rel Json.SameDouble x y) :
    decodeString x = decodeString y := by
  cases h with
  | none => rfl
  | some hab => rw [decodeString, decodeString, hab.kind]

theorem stringValue_same (h : u.SameDouble v) : stringValue u = stringValue v := by
  cases v with
  | string s => rw [h.eq_string]
  | null | bool | number | array | object =>
    cases u with
    | string s =>
      have heq := h.symm.eq_string
      contradiction
    | null | bool | number | array | object => rfl

theorem filterMap_same {us vs : List Json} (h : List.Forall₂ Json.SameDouble us vs) :
    us.filterMap stringValue = vs.filterMap stringValue := by
  induction h with
  | nil => rfl
  | cons huv _ ih => rw [List.filterMap_cons, List.filterMap_cons, stringValue_same huv, ih]

theorem hosts_same (h : u.SameDouble v) : (NoProxy.value u).hosts = (NoProxy.value v).hosts := by
  cases v with
  | string s => rw [h.eq_string]
  | array vs =>
    obtain ⟨us, rfl, hall⟩ := h.array
    exact filterMap_same hall
  | null | bool | number | object =>
    cases u with
    | string s =>
      have heq := h.symm.eq_string
      contradiction
    | array us =>
      obtain ⟨vs, heq, _⟩ := h.symm.array
      contradiction
    | null | bool | number | object => rfl

theorem decodeNoProxy_same (h : Option.Rel Json.SameDouble x y) :
    (decodeNoProxy x).hosts = (decodeNoProxy y).hosts := by
  cases h with
  | none => rfl
  | some hab =>
    rw [decodeNoProxy, decodeNoProxy, hab.kind]
    split
    · rfl
    · exact hosts_same hab

/-- The fields of a proxy that is decoded. -/
theorem decodeProxy_object (hk : v.doubleKind = .object) :
    decodeProxy (some v) = .ok p ↔ ∃ proxyType httpProxy sslProxy,
      decodeString (v.child (.key (bytes "proxyType"))) = .ok proxyType ∧
        decodeString (v.child (.key (bytes "httpProxy"))) = .ok httpProxy ∧
        decodeString (v.child (.key (bytes "sslProxy"))) = .ok sslProxy ∧
        p = some { proxyType := proxyType, httpProxy := httpProxy, sslProxy := sslProxy,
                   noProxy := decodeNoProxy (v.child (.key (bytes "noProxy"))) } := by
  rw [decodeProxy, hk]
  dsimp only
  constructor
  · intro h
    cases htype : decodeString (v.child (.key (bytes "proxyType"))) with
    | error err =>
      rw [htype] at h
      contradiction
    | ok proxyType =>
      cases hhttp : decodeString (v.child (.key (bytes "httpProxy"))) with
      | error err =>
        rw [htype, hhttp] at h
        contradiction
      | ok httpProxy =>
        cases hssl : decodeString (v.child (.key (bytes "sslProxy"))) with
        | error err =>
          rw [htype, hhttp, hssl] at h
          contradiction
        | ok sslProxy =>
          rw [htype, hhttp, hssl] at h
          cases h
          exact ⟨proxyType, httpProxy, sslProxy, rfl, rfl, rfl, rfl⟩
  · rintro ⟨proxyType, httpProxy, sslProxy, htype, hhttp, hssl, rfl⟩
    rw [htype, hhttp, hssl]
    rfl

theorem decodeProxy_same (h : Option.Rel Json.SameDouble x y) (hx : decodeProxy x = .ok p) :
    ∃ p', decodeProxy y = .ok p' ∧ Option.Rel SameProxy p p' := by
  cases h with
  | none => exact ⟨p, hx, rel_refl p⟩
  | some hab =>
    rename_i a b
    have hstring : ∀ k, decodeString (a.child (.key k)) = decodeString (b.child (.key k)) :=
      fun k => decodeString_same (hab.child (.key k))
    cases hk : b.doubleKind with
    | null =>
      rw [decodeProxy, hab.kind, hk] at hx
      rw [decodeProxy, hk]
      exact ⟨p, hx, rel_refl p⟩
    | object =>
      obtain ⟨proxyType, httpProxy, sslProxy, htype, hhttp, hssl, rfl⟩ :=
        (decodeProxy_object (hab.kind.trans hk)).mp hx
      rw [hstring] at htype hhttp hssl
      exact ⟨_, (decodeProxy_object hk).mpr ⟨_, _, _, htype, hhttp, hssl, rfl⟩,
        .some ⟨rfl, rfl, rfl, decodeNoProxy_same (hab.child (.key (bytes "noProxy")))⟩⟩
    | bool | number | string | array =>
      rw [decodeProxy, hab.kind, hk] at hx
      contradiction

variable {visit : Values → List (GoString × Json)} {m m' : Values} {k : GoString}

theorem fieldValue_some (hvisit : ∀ m, (visit m).Perm m.entries)
    (h : fieldValue visit m k = some v) : ∃ j, foldName j = foldName k ∧ m.lookup j = some v := by
  rw [fieldValue] at h
  cases hm : m.lookup k with
  | some u =>
    rw [hm] at h
    exact ⟨k, rfl, hm.trans h⟩
  | none =>
    rw [hm] at h
    obtain ⟨e, he, rfl⟩ := Option.map_eq_some_iff.mp h
    have hmem := (hvisit m).mem_iff.mp (List.mem_of_find?_eq_some he)
    have hname := List.find?_some he
    exact ⟨e.1, of_decide_eq_true hname, m.mem_iff_lookup.mp hmem⟩

theorem fieldValue_none (hvisit : ∀ m, (visit m).Perm m.entries) (h : fieldValue visit m k = none)
    {j : GoString} (hj : foldName j = foldName k) : m.lookup j = none := by
  rw [fieldValue] at h
  cases hm : m.lookup k with
  | some u =>
    rw [hm] at h
    contradiction
  | none =>
    rw [hm] at h
    have hfind := List.find?_eq_none.mp (Option.map_eq_none_iff.mp h)
    cases hl : m.lookup j with
    | none => rfl
    | some u =>
      have hmem := (hvisit m).mem_iff.mpr (m.mem_iff_lookup.mpr hl)
      exact absurd (decide_eq_true hj) (hfind (j, u) hmem)

/-- Of names that differ in case only there is one. -/
theorem eq_of_oneCase (hone : oneCase (.object m.entries) = true) {i j : GoString}
    (h : foldName i = foldName j) (hi : m.lookup i = some u) (hj : m.lookup j = some v) : i = j := by
  rw [oneCase, Bool.and_eq_true, decide_eq_true_eq] at hone
  have heq := List.inj_on_of_nodup_map hone.1 (m.mem_iff_lookup.mpr hi) (m.mem_iff_lookup.mpr hj) h
  exact congrArg Prod.fst heq

/-- With one member for a field the order in which the map is visited does not matter. -/
theorem fieldValue_same (hvisit : ∀ m, (visit m).Perm m.entries)
    (hone : oneCase (.object m.entries) = true)
    (hsame : ∀ j, foldName j = foldName k → Option.Rel Json.SameDouble (m.lookup j) (m'.lookup j)) :
    Option.Rel Json.SameDouble (fieldValue visit m k) (fieldValue visit m' k) := by
  cases hx : fieldValue visit m k with
  | none =>
    cases hy : fieldValue visit m' k with
    | none => exact .none
    | some v' =>
      obtain ⟨j, hj, hl⟩ := fieldValue_some hvisit hy
      have hrel := hsame j hj
      rw [fieldValue_none hvisit hx hj, hl] at hrel
      contradiction
  | some v =>
    obtain ⟨i, hi, hil⟩ := fieldValue_some hvisit hx
    have hrel := hsame i hi
    cases hy : fieldValue visit m' k with
    | none =>
      rw [hil, fieldValue_none hvisit hy hi] at hrel
      contradiction
    | some v' =>
      obtain ⟨j, hj, hjl⟩ := fieldValue_some hvisit hy
      have hrel' := hsame j hj
      rw [hjl] at hrel'
      cases hu : m.lookup j with
      | none =>
        rw [hu] at hrel'
        contradiction
      | some u =>
        have hij : i = j := eq_of_oneCase hone (hi.trans hj.symm) hil hu
        subst hij
        rw [hil, hjl] at hrel
        exact hrel

theorem decodeBrowser_ok {d : Dialect} {c : Capabilities} :
    decodeBrowser visit d m = .ok c ↔ ∃ name p,
      decodeString (fieldValue visit m (bytes "browserName")) = .ok name ∧
      decodeProxy (fieldValue visit m proxy) = .ok p ∧
        c = { name := name, deviceName := [], version := [], platform := [], proxy := p,
              selenoidOptions := none, rawCapabilities := .null } := by
  rw [decodeBrowser]
  constructor
  · intro h
    cases hname : decodeString (fieldValue visit m (bytes "browserName")) with
    | error err =>
      rw [hname] at h
      contradiction
    | ok name =>
      cases hp : decodeProxy (fieldValue visit m proxy) with
      | error err =>
        rw [hname, hp] at h
        contradiction
      | ok p =>
        rw [hname, hp] at h
        cases h
        exact ⟨name, p, rfl, rfl, rfl⟩
  · rintro ⟨name, p, hname, hp, rfl⟩
    rw [hname, hp]
    rfl

theorem decodes_decodeBrowser (hvisit : ∀ m, (visit m).Perm m.entries) :
    Decodes (decodeBrowser visit) where
  same := by
    intro d m m' c hone hsame hc
    have hlookup : ∀ k, Option.Rel Json.SameDouble (m.lookup k) (m'.lookup k) := by
      intro k
      rw [← GoMap.lookup_entries, ← GoMap.lookup_entries]
      exact hsame.child (.key k)
    obtain ⟨name, p, hname, hp, rfl⟩ := decodeBrowser_ok.mp hc
    rw [decodeString_same (fieldValue_same hvisit hone fun j _ => hlookup j)] at hname
    obtain ⟨p', hp', hrel⟩ := decodeProxy_same (fieldValue_same hvisit hone fun j _ => hlookup j) hp
    exact ⟨_, decodeBrowser_ok.mpr ⟨name, p', hname, hp', rfl⟩, rfl, rfl, rfl, rfl, hrel, .none⟩
  proxy := by
    intro d m m' c v proxyType httpProxy sslProxy noProxy hone hrest hc hm' htype hhttp hssl hno hnull
    obtain ⟨name, p, hname, _, rfl⟩ := decodeBrowser_ok.mp hc
    have hsame := fieldValue_same (k := bytes "browserName") hvisit hone fun j hj => by
      apply hrest j
      rintro rfl
      exact absurd hj (by decide)
    have hname' : decodeString (fieldValue visit m' (bytes "browserName")) = .ok name := by
      rw [← decodeString_same hsame]
      exact hname
    have hfield : fieldValue visit m' proxy = some v := by
      rw [fieldValue, hm']
    have hobj : v.doubleKind = .object := by
      cases v with
      | object ms => rfl
      | null | bool | number | string | array => contradiction
    have hvalue : decodeNoProxy (some noProxy) = .value noProxy := by
      apply if_neg
      intro hk
      apply hnull
      cases noProxy with
      | null => rfl
      | bool | number | string | array | object => contradiction
    have hp : decodeProxy (fieldValue visit m' proxy) = .ok (some
        { proxyType := proxyType, httpProxy := httpProxy, sslProxy := sslProxy,
          noProxy := .value noProxy }) := by
      rw [hfield, decodeProxy_object hobj, htype, hhttp, hssl, hno, hvalue]
      exact ⟨proxyType, httpProxy, sslProxy, rfl, rfl, rfl, rfl⟩
    exact ⟨_, decodeBrowser_ok.mpr ⟨name, _, hname', hp, rfl⟩, rfl, rfl, rfl, rfl,
      .some (.refl _), .none⟩

end

/-- The browser in the part for all, and two proxies that are not manual. -/
def directText : Json :=
  .object [(capabilities, .object [
    (alwaysMatch, .object [(bytes "browserName", .string (bytes "chrome"))]),
    (firstMatch, .array [
      .object [(proxy, .object [(bytes "proxyType", .string (bytes "direct"))])],
      .object [(proxy, .object [(bytes "proxyAutoconfigUrl", .string (bytes "http://pac"))])]])])]

theorem newCapabilities_repeats_direct :
    (∃ c, Capabilities.newCapabilities (decodeBrowser GoMap.entries) visitEntries directText
      (some (newHTTPProxy (bytes "squid:3128") (bytes "localhost, 10.0.0.1"))) = .ok c) ∧
    Repeats (decodeBrowser GoMap.entries) visitEntries visitEntries directText
      (newHTTPProxy (bytes "squid:3128") (bytes "localhost, 10.0.0.1")) := by
  have hcase : ∀ m, mapToDecode visitEntries directText = some m →
      oneCase (.object m.entries) = true := by
    intro m hm
    cases hm
    decide
  have hdecode : Decodes (decodeBrowser GoMap.entries) :=
    decodes_decodeBrowser fun m => .refl m.entries
  exact ⟨⟨_, rfl⟩, newCapabilities_repeats (decodeBrowser GoMap.entries) hdecode visitEntries
    visitEntries directText hcase (bytes "squid:3128") (bytes "localhost, 10.0.0.1") (by decide)
    (by decide) (by decide)⟩

/-- Two browsers, under names that differ in case only. -/
def twoNames : Json :=
  .object [(desiredCapabilities, .object [(bytes "browserNAME", .string (bytes "chrome")),
    (bytes "BROWSERname", .string (bytes "firefox"))])]

/-- A host that is not valid UTF-8 is another one in the raw capabilities; and of two members
that differ in case only each call may take another. -/
theorem report_changes :
    Decodes (decodeBrowser GoMap.entries) ∧ [0xFF] ≠ ([] : GoString) ∧
      ¬ Repeats (decodeBrowser GoMap.entries) visitEntries visitEntries
        (.object [(desiredCapabilities, .object [])]) (newHTTPProxy [0xFF] []) ∧
      ¬ Repeats (decodeBrowser GoMap.entries) visitEntries visitEntries twoNames
        (newHTTPProxy (bytes "squid:3128") []) := by
  refine ⟨decodes_decodeBrowser fun m => .refl m.entries, by decide, ?_, ?_⟩
  · intro h
    obtain ⟨c', hc', hreport⟩ := h _ rfl
    cases hc'
    have hproxy := hreport.proxy
    cases hproxy with
    | some hab => exact absurd hab.httpProxy (by decide)
  · intro h
    obtain ⟨c', hc', hreport⟩ := h _ rfl
    cases hc'
    exact absurd hreport.name (by decide)

end Selebrow.Models
