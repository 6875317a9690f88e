import Selebrow.Kubernetes.Reading

/-!
# The document of a manifest

The whole document that is read of a manifest, in terms of the options that go into it, and what
the decoder makes of it.
-/

namespace Selebrow.Kubernetes.Converter

open Catalog Text Yaml

/-- What is read of the chart and the catalog. -/
structure Shared where
  annotations : List (GoString × Json)
  scheduler : List (GoString × Json)
  before : List (GoString × Json)
  behind : List (GoString × Json)
  dns : List (GoString × Json)
  tail : List (GoString × Json)

structure Shared.KeysOf (s : Shared) : Prop where
  annotations : Keys s.annotations ["annotations"]
  scheduler : Keys s.scheduler ["schedulerName"]
  before : Keys s.before ["name", "image", "command", "imagePullPolicy"]
  behind : Keys s.behind ["ports", "resources", "volumeMounts"]
  dns : Keys s.dns ["options", "searches"]
  tail : Keys s.tail ["volumes", "imagePullSecrets", "priorityClassName", "nodeSelector", "affinity",
    "tolerations", "automountServiceAccountToken", "terminationGracePeriodSeconds"]

section

variable (f : Funcs) (r : Reader) (browser : BrowserContext) (d : Nat)

structure Fixed.ReadsAs (p : Fixed) (s : Shared) : Prop where
  annotations : ReadsMap r (value r (d + 8)) 2 p.annotations s.annotations
  scheduler : ReadsMap r (value r (d + 8)) 2 p.scheduler s.scheduler
  before : ReadsMap r (value r (d + 6)) 4 ((⟨4, bytes "name: browser"⟩, []) :: beforeEnv p browser)
    s.before
  behind : ReadsMap r (value r (d + 6)) 4 (behindEnv f p browser) s.behind
  dns : ReadsMap r (value r (d + 7)) 4 (dnsOptions :: p.searches) s.dns
  tail : ReadsMap r (value r (d + 8)) 2 (behindHosts p) s.tail
  keys : s.KeysOf

end

variable {f : Funcs} {r : Reader} {isPrint : Char → Bool} {strval : Json → GoString} {d n : Nat}
  {browser : BrowserContext} {vals : Values} {p : Fixed} {s : Shared}

/-- A group of the template that holds nothing else. -/
theorem reads_literal {rec : GoString → List Line → Option Json} {g : Group} {m : GoString × Json}
    (h : entry r rec n g = some m) (hlines : g.1.Written ∧ ∀ l ∈ g.2, mapHead n l = false ∧ l.Written) :
    ReadsMap r rec n [g] [m] := Reads.single h hlines.1 hlines.2

theorem keys_append {ms ms' : List (GoString × Json)} {keys keys' : List String} (h : Keys ms keys)
    (h' : Keys ms' keys') : Keys (ms ++ ms') (keys ++ keys') := by
  rw [Keys, List.map_append, List.map_append]
  exact List.Sublist.append h h'

theorem reads_ports (hf : Documented f isPrint strval) {ports : Values}
    (hports : ∀ e ∈ ports.entries, (scalar r.special (f.print e.2)).isSome = true ∧ IsUtf8 e.1) :
    ∃ v, ReadsMap r (value r (d + 3)) 4 [portsGroup f ports] [(bytes "ports", v)] := by
  have hall : ∀ es : List (GoString × Json), (∀ e ∈ es, e ∈ ports.entries) →
      ∃ vs, ReadsSeq (value r (d + 2)) 4 (es.map (portItem f)) vs := by
    intro es
    induction es with
    | nil => exact fun _ => ⟨[], Reads.nil⟩
    | cons e es ih =>
      intro hes
      obtain ⟨hport, hname⟩ := hports e (hes e List.mem_cons_self)
      obtain ⟨v, hv⟩ := reads_portItem (r := r) (d := d) hf hport hname
      obtain ⟨vs, hvs⟩ := ih fun e' he => hes e' (List.mem_cons_of_mem e he)
      exact ⟨v :: vs, hv.cons hvs⟩
  obtain ⟨vs, hvs⟩ := hall (inKeyOrder ports) fun e he => mem_inKeyOrder.mp he
  have hkey := isKey_template "ports" (by simp [templateKeys])
  exact ⟨elements vs, readsMap_below (n := 4) (by decide) hkey (value_elements hvs)
    (inside_seq hvs (Nat.le_refl 4))⟩

theorem exists_before (hf : Documented f isPrint strval) (hp : p.Renders f browser vals)
    (horder : InOrder f r browser vals) (hd : maxDepth ≤ d + 50) :
    ∃ ms, ReadsMap r (value r (d + 1)) 4 ((⟨4, bytes "name: browser"⟩, []) :: beforeEnv p browser) ms ∧
      Keys ms ["name", "image", "command", "imagePullPolicy"] := by
  obtain ⟨image, himage⟩ := value_printed (d := d) horder.image
  obtain ⟨_, hscalar⟩ := Option.isSome_iff_exists.mp horder.image
  have hname : ReadsMap r (value r (d + 1)) 4 [(⟨4, bytes "name" ++ 58 :: 32 :: bytes "browser"⟩, [])]
      [(bytes "name", .string (bytes "browser"))] :=
    readsMap_field (by decide) (isKey_template _ (by simp [templateKeys])) rfl (by decide)
  have himage : ReadsMap r (value r (d + 1)) 4 [(⟨4, bytes "image" ++ 58 :: 32 :: browser.image⟩, [])]
      [(bytes "image", image)] :=
    readsMap_field (by decide) (isKey_template _ (by simp [templateKeys])) himage (notMem_of_scalar hscalar)
  obtain ⟨command, hcommand, hkeys⟩ :=
    reads_command hp.command (d := d + 1) (Nat.le_trans hd (by omega)) hf horder
  obtain ⟨policy, hpolicy, hkeys'⟩ := reads_print (d := d) hp.pullPolicy (by decide)
    "imagePullPolicy" (isKey_template _ (by simp [templateKeys])) rfl horder (by decide)
  have hfirst : Keys [(bytes "name", .string (bytes "browser")), (bytes "image", image)]
      ["name", "image"] := List.Sublist.refl _
  have hsecond : Keys (command ++ policy) (["command"] ++ ["imagePullPolicy"]) :=
    keys_append hkeys hkeys'
  exact ⟨_, (hname.cons himage).append (hcommand.append hpolicy), keys_append hfirst hsecond⟩

theorem exists_behind (hf : Documented f isPrint strval) (hp : p.Renders f browser vals)
    (horder : InOrder f r browser vals) (hd : maxDepth ≤ d + 40)
    (hports : ∀ e ∈ browser.ports.entries, (scalar r.special (f.print e.2)).isSome = true ∧ IsUtf8 e.1) :
    ∃ ms, ReadsMap r (value r (d + 6)) 4 (behindEnv f p browser) ms ∧
      Keys ms ["ports", "resources", "volumeMounts"] := by
  obtain ⟨ports, hports⟩ := reads_ports (r := r) (d := d + 3) hf hports
  obtain ⟨limits, hlimits, hkeys⟩ :=
    reads_limits hp.limits (d := d + 5) (Nat.le_trans hd (by omega)) horder
  have hmounts : ∃ m, entry r (value r (d + 6)) 4 volumeMounts = some (bytes "volumeMounts", m) :=
    ⟨_, rfl⟩
  obtain ⟨mounts, hmounts⟩ := hmounts
  have hmounts := reads_literal hmounts (by decide)
  have hfirst : Keys [(bytes "ports", ports)] ["ports"] := List.Sublist.refl _
  have hsecond : Keys (limits ++ [(bytes "volumeMounts", mounts)]) (["resources"] ++ ["volumeMounts"]) :=
    keys_append hkeys (List.Sublist.refl _)
  exact ⟨_, hports.cons (hlimits.append hmounts), keys_append hfirst hsecond⟩

theorem exists_dns (hf : Documented f isPrint strval) (hp : p.Renders f browser vals)
    (horder : InOrder f r browser vals) (hd : maxDepth ≤ d + 40) :
    ∃ ms, ReadsMap r (value r (d + 7)) 4 (dnsOptions :: p.searches) ms ∧
      Keys ms ["options", "searches"] := by
  have hoptions : ∃ m, entry r (value r (d + 7)) 4 dnsOptions = some (bytes "options", m) := ⟨_, rfl⟩
  obtain ⟨options, hoptions⟩ := hoptions
  have hoptions := reads_literal hoptions (by decide)
  obtain ⟨searches, hsearches, hkeys⟩ := reads_list (d := d + 7) hp.searches (by decide)
    (isKey_template _ (by simp [templateKeys])) (Nat.le_trans hd (by omega)) hf horder (by decide)
  have hfirst : Keys [(bytes "options", options)] ["options"] := List.Sublist.refl _
  exact ⟨_, hoptions.cons hsearches, keys_append hfirst hkeys⟩

theorem exists_tail (hf : Documented f isPrint strval) (hp : p.Renders f browser vals)
    (horder : InOrder f r browser vals) (hd : maxDepth ≤ d + 40) :
    ∃ ms, ReadsMap r (value r (d + 8)) 2 (behindHosts p) ms ∧
      Keys ms ["volumes", "imagePullSecrets", "priorityClassName", "nodeSelector", "affinity",
        "tolerations", "automountServiceAccountToken", "terminationGracePeriodSeconds"] := by
  have hd8 : maxDepth ≤ d + 8 + 50 := Nat.le_trans hd (by omega)
  have hvolumes : ∃ m, entry r (value r (d + 8)) 2 volumes = some (bytes "volumes", m) := ⟨_, rfl⟩
  obtain ⟨vols, hvolumes⟩ := hvolumes
  have hvolumes := reads_literal hvolumes (by decide)
  obtain ⟨secrets, hsecrets, hkeys1⟩ := reads_list (d := d + 8) hp.pullSecrets (by decide)
    (isKey_template _ (by simp [templateKeys])) hd8 hf horder (by decide)
  obtain ⟨priority, hpriority, hkeys2⟩ := reads_print (d := d + 7) hp.priorityClass (by decide)
    "priorityClassName" (isKey_template _ (by simp [templateKeys])) rfl horder (by decide)
  obtain ⟨selector, hselector, hkeys3⟩ := reads_yaml (d := d + 8) hp.nodeSelector (by decide)
    (isKey_template _ (by simp [templateKeys])) hd8 horder fun v y _ _ _ => indented_deeper (by decide) y
  obtain ⟨aff, haff, hkeys4⟩ := reads_yaml (d := d + 8) hp.affinity (by decide)
    (isKey_template _ (by simp [templateKeys])) hd8 horder fun v y _ _ _ => indented_deeper (by decide) y
  obtain ⟨tol, htol, hkeys5⟩ := reads_yaml (d := d + 8) hp.tolerations (by decide)
    (isKey_template _ (by simp [templateKeys])) hd8 horder fun v y _ _ _ => indented_deeper (by decide) y
  have hlast : ReadsMap r (value r (d + 8)) 2 lastGroups
      [(bytes "automountServiceAccountToken", .bool false),
        (bytes "terminationGracePeriodSeconds", r.special (bytes "0"))] := by
    apply Reads.cons
    · exact reads_literal rfl (by decide)
    · exact reads_literal rfl (by decide)
  have hfirst : Keys [(bytes "volumes", vols)] ["volumes"] := List.Sublist.refl _
  have hend : Keys [(bytes "automountServiceAccountToken", .bool false),
      (bytes "terminationGracePeriodSeconds", r.special (bytes "0"))]
      ["automountServiceAccountToken", "terminationGracePeriodSeconds"] := List.Sublist.refl _
  refine ⟨_, hvolumes.cons (((((hsecrets.append hpriority).append hselector).append haff).append
    htol).append hlast), ?_⟩
  exact keys_append hfirst (keys_append (keys_append (keys_append (keys_append
    (keys_append hkeys1 hkeys2) hkeys3) hkeys4) hkeys5) hend)

theorem exists_shared (hf : Documented f isPrint strval) (hp : p.Renders f browser vals)
    (horder : InOrder f r browser vals) (hd : maxDepth ≤ d + 40)
    (hports : ∀ e ∈ browser.ports.entries, (scalar r.special (f.print e.2)).isSome = true ∧ IsUtf8 e.1) :
    ∃ s, p.ReadsAs f r browser d s := by
  have hd8 : maxDepth ≤ d + 8 + 50 := Nat.le_trans hd (by omega)
  obtain ⟨annotations, hannotations, hkeys1⟩ := reads_yaml (d := d + 8) hp.annotations (by decide)
    (isKey_template _ (by simp [templateKeys])) hd8 horder fun v y _ _ _ => indented_deeper (by decide) y
  obtain ⟨scheduler, hscheduler, hkeys2⟩ := reads_print (d := d + 7) hp.scheduler (by decide)
    "schedulerName" (isKey_template _ (by simp [templateKeys])) rfl horder (by decide)
  obtain ⟨before, hbefore, hkeys3⟩ := exists_before (d := d + 5) hf hp horder (Nat.le_trans hd (by omega))
  obtain ⟨behind, hbehind, hkeys4⟩ := exists_behind hf hp horder hd hports
  obtain ⟨dns, hdns, hkeys5⟩ := exists_dns hf hp horder hd
  obtain ⟨tail, htail, hkeys6⟩ := exists_tail hf hp horder hd
  exact ⟨⟨annotations, scheduler, before, behind, dns, tail⟩, hannotations, hscheduler, hbefore,
    hbehind, hdns, htail, hkeys1, hkeys2, hkeys3, hkeys4, hkeys5, hkeys6⟩

/-! ## The document -/

/-- The document with these labels, this environment and these aliases. -/
def document (s : Shared) (lm : List (GoString × Json)) (env : Json) (hm : List (GoString × Json)) :
    Json :=
  .object [(bytes "apiVersion", .string (bytes "v1")), (bytes "kind", .string (bytes "Pod")),
    (bytes "metadata", .object ((bytes "generateName", .string (bytes "browser-")) ::
      (lm ++ s.annotations))),
    (bytes "spec", .object (s.scheduler ++
      (bytes "containers", .array [.object (s.before ++ (bytes "env", env) :: s.behind)]) ::
      (bytes "dnsConfig", .object s.dns) :: (hm ++ s.tail)))]

section

variable {lm hm : List (GoString × Json)} {env labels hosts : Values} {envJ : Json}

theorem nodup_keys {ms : List (GoString × Json)} {keys : List String} (h : Keys ms keys)
    (hkeys : keys.Nodup) : (ms.map Prod.fst).Nodup := (nodup_bytes hkeys).sublist h

theorem reads_metadata (hs : p.ReadsAs f r browser d s)
    (hlabels : ReadsMap r (value r (d + 8)) 2 (labelsGroups f labels) lm) (hlm : Keys lm ["labels"]) :
    ReadsMap r (value r (d + 8)) 2 (metadataGroups f p labels)
      ((bytes "generateName", .string (bytes "browser-")) :: (lm ++ s.annotations)) ∧
    (((bytes "generateName", Json.string (bytes "browser-")) :: (lm ++ s.annotations)).map
      Prod.fst).Nodup := by
  have hname : ReadsMap r (value r (d + 8)) 2
      [(⟨2, bytes "generateName" ++ 58 :: 32 :: bytes "browser-"⟩, [])]
      [(bytes "generateName", .string (bytes "browser-"))] :=
    readsMap_field (by decide) (isKey_template _ (by simp [templateKeys])) rfl (by decide)
  have hfirst : Keys [(bytes "generateName", .string (bytes "browser-"))] ["generateName"] :=
    List.Sublist.refl _
  exact ⟨hname.cons (hlabels.append hs.annotations),
    nodup_keys (keys_append hfirst (keys_append hlm hs.keys.annotations)) (by simp)⟩

theorem reads_containers (hs : p.ReadsAs f r browser d s)
    (henv : ReadsMap r (value r (d + 6)) 4 [envGroup f env] [(bytes "env", envJ)]) :
    ReadsMap r (value r (d + 8)) 2 [containersGroup f p browser env]
      [(bytes "containers", .array [.object (s.before ++ (bytes "env", envJ) :: s.behind)])] := by
  have hall := hs.before.append (henv.cons hs.behind)
  have hfirst : Keys [(bytes "env", envJ)] ["env"] := List.Sublist.refl _
  have hnodup := nodup_keys (keys_append hs.keys.before (keys_append hfirst hs.keys.behind))
    (by simp)
  have hkey : splitKey (bytes "name: browser") = some (bytes "name", bytes "browser") := by
    decide
  have hitem : ReadsSeq (value r (d + 7)) 2
      [(⟨2, 45 :: 32 :: bytes "name: browser"⟩, flatten (containerGroups f p browser env))]
      [.object (s.before ++ (bytes "env", envJ) :: s.behind)] := by
    have hlines : flatten (((⟨4, bytes "name: browser"⟩, []) :: beforeEnv p browser) ++
        envGroup f env :: behindEnv f p browser) =
        ⟨4, bytes "name: browser"⟩ :: flatten (containerGroups f p browser env) := rfl
    apply readsSeq_map hkey
    · rw [← hlines]
      exact value_map hall (List.cons_ne_nil _ _) hnodup
    · decide
    · intro l hl
      apply inside_item hall (by decide) l
      rw [hlines]
      exact List.mem_cons_of_mem _ hl
  have hcontainers := isKey_template "containers" (by simp [templateKeys])
  exact readsMap_below (n := 2) (by decide) hcontainers (value_seq hitem (List.cons_ne_nil _ _))
    (inside_seq hitem (Nat.le_refl 2))

theorem reads_spec (hs : p.ReadsAs f r browser d s)
    (henv : ReadsMap r (value r (d + 6)) 4 [envGroup f env] [(bytes "env", envJ)])
    (hhosts : ReadsMap r (value r (d + 8)) 2 (hostsGroups f hosts) hm) (hhm : Keys hm ["hostAliases"]) :
    ∃ ms, ms = s.scheduler ++
      (bytes "containers", .array [.object (s.before ++ (bytes "env", envJ) :: s.behind)]) ::
      (bytes "dnsConfig", .object s.dns) :: (hm ++ s.tail) ∧
      ReadsMap r (value r (d + 8)) 2 (specGroups f p browser env hosts) ms ∧
      (ms.map Prod.fst).Nodup := by
  have hdnsKey := isKey_template "dnsConfig" (by simp [templateKeys])
  have hdnsValue : value r (d + 8) [] (flatten (dnsOptions :: p.searches)) = some (.object s.dns) :=
    value_map hs.dns (List.cons_ne_nil _ _) (nodup_keys hs.keys.dns (by simp))
  have hdns : ReadsMap r (value r (d + 8)) 2 [dnsGroup p] [(bytes "dnsConfig", .object s.dns)] :=
    readsMap_below (n := 2) (by decide) hdnsKey hdnsValue (inside_map hs.dns (by decide))
  have hfirst : Keys [(bytes "containers",
      .array [.object (s.before ++ (bytes "env", envJ) :: s.behind)])] ["containers"] :=
    List.Sublist.refl _
  have hsecond : Keys [(bytes "dnsConfig", .object s.dns)] ["dnsConfig"] := List.Sublist.refl _
  refine ⟨_, rfl, hs.scheduler.append ((reads_containers hs henv).cons
    (hdns.cons (hhosts.append hs.tail))), ?_⟩
  exact nodup_keys (keys_append hs.keys.scheduler (keys_append hfirst (keys_append hsecond
    (keys_append hhm hs.keys.tail)))) (by simp)

/-- The lines of a manifest are read as its document. -/
theorem reads_top (hs : p.ReadsAs f r browser d s)
    (hlabels : ReadsMap r (value r (d + 8)) 2 (labelsGroups f labels) lm) (hlm : Keys lm ["labels"])
    (henv : ReadsMap r (value r (d + 6)) 4 [envGroup f env] [(bytes "env", envJ)])
    (hhosts : ReadsMap r (value r (d + 8)) 2 (hostsGroups f hosts) hm) (hhm : Keys hm ["hostAliases"]) :
    (∀ l ∈ flatten (topGroups f p browser env labels hosts), l.Written) ∧
    value r (d + 10) [] (flatten (topGroups f p browser env labels hosts)) =
      some (document s lm envJ hm) := by
  obtain ⟨hmetadata, hnodup⟩ := reads_metadata hs hlabels hlm
  obtain ⟨ms, hms, hspec, hnodup'⟩ := reads_spec hs henv hhosts hhm
  have hversion : ReadsMap r (value r (d + 9)) 0 [(⟨0, bytes "apiVersion: v1"⟩, [])]
      [(bytes "apiVersion", .string (bytes "v1"))] := reads_literal rfl (by decide)
  have hkind : ReadsMap r (value r (d + 9)) 0 [(⟨0, bytes "kind: Pod"⟩, [])]
      [(bytes "kind", .string (bytes "Pod"))] := reads_literal rfl (by decide)
  have hblock : ∀ {key : GoString} {gs : List Group} {ms : List (GoString × Json)},
      isMarker ⟨0, key ++ [58]⟩ = false → IsKey key →
      ReadsMap r (value r (d + 8)) 2 gs ms → gs ≠ [] → (ms.map Prod.fst).Nodup →
      ReadsMap r (value r (d + 9)) 0 [(⟨0, key ++ [58]⟩, flatten gs)] [(key, .object ms)] := by
    intro key gs ms hmarker hkey hread hne hnodup
    apply Reads.single
    · exact entry_of_splitKey hmarker hkey.1 (resolveKey_ordinary hkey.2) (value_map hread hne hnodup)
    · exact ⟨fun hmem => (List.mem_append.mp hmem).elim (notMem_of_splitKey hkey.1) (by decide),
        head?_of_splitKey hkey.1⟩
    · exact inside_map hread (by decide)
  have hmetadataKey := isKey_template "metadata" (by simp [templateKeys])
  have hspecKey := isKey_template "spec" (by simp [templateKeys])
  have hne : specGroups f p browser env hosts ≠ [] := List.append_ne_nil_of_right_ne_nil _ (List.cons_ne_nil _ _)
  have hall := hversion.cons (hkind.cons
    ((hblock (by decide) hmetadataKey hmetadata (List.cons_ne_nil _ _) hnodup).cons
      (hblock (by decide) hspecKey hspec hne hnodup')))
  rw [document, ← hms]
  constructor
  · exact hall.written
  · exact value_map hall (List.cons_ne_nil _ _) (by
      show (["apiVersion", "kind", "metadata", "spec"].map bytes).Nodup
      exact nodup_bytes (by simp))

end

/-! ## Decoding the document -/

section

variable {Others : Type} {q : PodDecoder Others} {lm hm ms rest : List (GoString × Json)}
  {keys : List String} {env labels hosts : Values} {envJ : Json}

theorem member_append {key : GoString} (h : key ∉ ms.map Prod.fst) :
    member (ms ++ rest) key = member rest key := by
  rw [member, List.find?_append, List.find?_eq_none.mpr]
  · rfl
  · intro m hm hkey
    exact h (List.mem_map.mpr ⟨m, hm, beq_iff_eq.mp hkey⟩)

theorem notMem_keys {key : String} (h : Keys ms keys) (hkey : key ∉ keys) :
    bytes key ∉ ms.map Prod.fst := fun hmem => hkey (mem_bytes (h.subset hmem))

theorem get_append {key : String} (h : Keys ms keys) (hkey : key ∉ keys) :
    get (ms ++ rest) key = get rest key := by
  rw [get, get, member_append (notMem_keys h hkey)]

theorem get_keys {key : String} (h : Keys ms keys) (hkey : key ∉ keys) :
    get ms key = .null := by
  rw [← List.append_nil ms, get_append h hkey]
  rfl

theorem mapM_map {α β γ : Type} {f : β → Option γ} {g : α → β} {h : α → γ} {l : List α}
    (hall : ∀ a ∈ l, f (g a) = some (h a)) : (l.map g).mapM f = some (l.map h) := by
  induction l with
  | nil => rfl
  | cons a l ih =>
    rw [List.map_cons, List.mapM_cons, hall a List.mem_cons_self,
      ih fun a' ha => hall a' (List.mem_cons_of_mem a ha)]
    rfl

theorem asElements_elements (vs : List Json) : asElements (elements vs) = some vs := by
  cases vs <;> rfl

theorem envVar_envJson {printNumber : GoString → GoString} {e : GoString × Json}
    (hname : ReadsName r printNumber e.1) :
    envVar printNumber (envJson r strval e) = some ⟨e.1, shown strval e.2, none⟩ := by
  have hget : get [(bytes "name", nameJson r e.1), (bytes "value", shownJson strval e.2)] "name" =
      nameJson r e.1 := rfl
  have hget' : get [(bytes "name", nameJson r e.1), (bytes "value", shownJson strval e.2)] "value" =
      shownJson strval e.2 := rfl
  rw [envVar, envJson, asMembers, Option.bind_eq_bind, Option.bind_some, hget, hget',
    (value_name (d := 0) hname).2.1, asText_shownJson]
  rfl

theorem hostAlias_aliasJson {printNumber : GoString → GoString} {e : GoString × Json}
    {names : List GoString} (he : e.2 = .array (names.map .string)) :
    hostAlias printNumber (aliasJson e) = some ⟨e.1, names⟩ := by
  have hget : get [(bytes "ip", .string e.1), (bytes "hostnames", elements (hostNames e.2))] "ip" =
      .string e.1 := rfl
  have hget' : get [(bytes "ip", .string e.1), (bytes "hostnames", elements (hostNames e.2))]
      "hostnames" = elements (hostNames e.2) := rfl
  have hnames : (names.map Json.string).mapM (asText printNumber) = some (names.map id) :=
    mapM_map fun _ _ => rfl
  rw [hostAlias, aliasJson, asMembers, Option.bind_eq_bind, Option.bind_some, hget, hget',
    asElements_elements, he, hostNames]
  show (names.map Json.string).mapM (asText printNumber) >>= _ = _
  rw [hnames, List.map_id]
  rfl

/-! ### Labels -/

def shownEntries (strval : Json → GoString) (m : Values) : List (GoString × GoString) :=
  (inKeyOrder m).map fun e => (e.1, shown strval e.2)

/-- The labels of a document, as they are decoded. -/
theorem stringMap_labels {printNumber : GoString → GoString} (labels : Values) :
    ∃ m, stringMap printNumber (members (labelMembers strval labels)) = some m ∧
      ∀ k, (m.getD .empty).lookup k = (labels.lookup k).map (shown strval) := by
  have hread : (labelMembers strval labels).mapM
      (fun m => (asText printNumber m.2).map fun s => (m.1, s)) =
      some (shownEntries strval labels) := by
    apply mapM_map
    intro e _
    rw [asText_shownJson]
    rfl
  have hkeys : (shownEntries strval labels).map Prod.fst =
      (inKeyOrder labels).map Prod.fst := List.map_map
  have hnodup : ((shownEntries strval labels).map Prod.fst).Nodup := by
    rw [hkeys]
    exact nodup_inKeyOrder labels
  have hlookup : ∀ k, (GoMap.ofList (shownEntries strval labels)).lookup k =
      (labels.lookup k).map (shown strval) := by
    intro k
    have hof : (GoMap.ofList (shownEntries strval labels)).lookup k =
        (GoMap.mk _ hnodup).lookup k := GoMap.lookup_ofList ⟨_, hnodup⟩ k
    rw [hof]
    apply Option.ext
    intro v
    rw [← GoMap.mem_iff_lookup]
    constructor
    · intro hmem
      obtain ⟨e, he, heq⟩ := List.mem_map.mp hmem
      rw [Prod.mk.injEq] at heq
      rw [← heq.1, (labels.mem_iff_lookup).mp (mem_inKeyOrder.mp he), ← heq.2]
      rfl
    · intro hv
      obtain ⟨j, hj, rfl⟩ := Option.map_eq_some_iff.mp hv
      exact List.mem_map.mpr ⟨(k, j), mem_inKeyOrder.mpr ((labels.mem_iff_lookup).mpr hj), rfl⟩
  cases hms : labelMembers strval labels with
  | nil =>
    refine ⟨none, rfl, ?_⟩
    intro k
    have hnil : inKeyOrder labels = [] := List.map_eq_nil_iff.mp hms
    rw [← hlookup k, shownEntries, hnil]
    rfl
  | cons m ms =>
    rw [hms] at hread
    refine ⟨some (GoMap.ofList (shownEntries strval labels)), ?_, hlookup⟩
    rw [members, stringMap, hread]
    rfl

/-! ### The pod -/

/-- The document without the options of the request. -/
def plainDocument (s : Shared) : Json :=
  .object [(bytes "apiVersion", .string (bytes "v1")), (bytes "kind", .string (bytes "Pod")),
    (bytes "metadata", .object ((bytes "generateName", .string (bytes "browser-")) :: s.annotations)),
    (bytes "spec", .object (s.scheduler ++
      (bytes "containers", .array [.object (s.before ++ s.behind)]) ::
      (bytes "dnsConfig", .object s.dns) :: s.tail))]

theorem filter_keys {key : String} (h : Keys ms keys) (hkey : key ∉ keys) :
    ms.filter (fun m => m.1 != bytes key) = ms := by
  rw [List.filter_eq_self]
  intro m hm
  rw [bne_iff_ne]
  intro heq
  exact notMem_keys h hkey (heq ▸ List.mem_map_of_mem hm)

theorem filter_own {key : String} (h : Keys ms [key]) : ms.filter (fun m => m.1 != bytes key) = [] := by
  rw [List.filter_eq_nil_iff]
  intro m hm
  have hmem : m.1 ∈ [bytes key] := h.subset (List.mem_map_of_mem hm)
  rw [List.mem_singleton.mp hmem]
  simp

theorem filter_other {key other : String} (h : other ≠ key) (v : Json)
    (ms : List (GoString × Json)) : ((bytes other, v) :: ms).filter (fun m => m.1 != bytes key) =
      (bytes other, v) :: ms.filter fun m => m.1 != bytes key :=
  List.filter_cons_of_pos (bne_iff_ne.mpr fun heq => h (bytes_injective heq))

theorem map_keys {key : String} {g : GoString × Json → GoString × Json} (h : Keys ms keys)
    (hkey : key ∉ keys) :
    ms.map (fun m => if m.1 = bytes key then g m else m) = ms := by
  have hmap : ms.map (fun m => if m.1 = bytes key then g m else m) = ms.map id := by
    apply List.map_congr_left
    intro m hm
    have hne : m.1 ≠ bytes key := fun heq => notMem_keys h hkey (heq ▸ List.mem_map_of_mem hm)
    rw [if_neg hne]
    rfl
  rw [hmap, List.map_id]

theorem withoutOptions_document (hs : s.KeysOf) (hlm : Keys lm ["labels"])
    (hhm : Keys hm ["hostAliases"]) : withoutOptions (document s lm envJ hm) = plainDocument s := by
  have hmetadata : erase "labels" (.object ((bytes "generateName", .string (bytes "browser-")) ::
      (lm ++ s.annotations))) =
      .object ((bytes "generateName", .string (bytes "browser-")) :: s.annotations) := by
    rw [erase, filter_other (by simp), List.filter_append, filter_own hlm,
      filter_keys hs.annotations (by simp), List.nil_append]
  have hcontainer : erase "env" (.object (s.before ++ (bytes "env", envJ) :: s.behind)) =
      .object (s.before ++ s.behind) := by
    rw [erase, List.filter_append, filter_keys hs.before (by simp),
      List.filter_cons_of_neg (by simp), filter_keys hs.behind (by simp)]
  have hspec : erase "hostAliases" (update "containers" (updateHead (erase "env")) (.object (s.scheduler ++
      (bytes "containers", .array [.object (s.before ++ (bytes "env", envJ) :: s.behind)]) ::
      (bytes "dnsConfig", .object s.dns) :: (hm ++ s.tail)))) =
      .object (s.scheduler ++ (bytes "containers", .array [.object (s.before ++ s.behind)]) ::
        (bytes "dnsConfig", .object s.dns) :: s.tail) := by
    have hdns : bytes "dnsConfig" ≠ bytes "containers" := fun h => absurd (bytes_injective h) (by simp)
    rw [update, List.map_append, map_keys hs.scheduler (by simp), List.map_cons, if_pos rfl,
      updateHead, hcontainer, List.map_cons, if_neg hdns, List.map_append,
      map_keys hhm (by simp), map_keys hs.tail (by simp), erase,
      List.filter_append, filter_keys hs.scheduler (by simp),
      filter_other (by simp), filter_other (by simp), List.filter_append, filter_own hhm, filter_keys hs.tail (by simp), List.nil_append]
  rw [plainDocument, ← hmetadata, ← hspec]
  rfl

theorem get_labels {printNumber : GoString → GoString} (hs : s.KeysOf) (labels : Values) :
    ∃ m, stringMap printNumber (get (labelsMembers strval labels ++ s.annotations) "labels") = some m ∧
      ∀ k, (m.getD .empty).lookup k = (labels.lookup k).map (shown strval) := by
  rw [labelsMembers]
  split
  · rename_i hnil
    refine ⟨none, ?_, ?_⟩
    · rw [List.nil_append, get_keys hs.annotations (by simp)]
      rfl
    · intro k
      have hnone : labels.lookup k = none := by
        rw [GoMap.lookup, hnil]
        rfl
      rw [hnone]
      rfl
  · exact stringMap_labels labels

theorem get_hosts (hs : s.KeysOf) (hosts : Values) :
    asElements (get (hostsMembers hosts ++ s.tail) "hostAliases") =
      some ((inKeyOrder hosts).map aliasJson) := by
  rw [hostsMembers]
  split
  · rename_i hnil
    have hkeys : hosts.keys = [] := by rw [GoMap.keys, hnil, List.map_nil]
    rw [List.nil_append, get_keys hs.tail (by simp), inKeyOrder, hkeys]
    rfl
  · exact asElements_elements _

/-- What the decoder makes of a document. -/
theorem pod_document (hf : Documented f isPrint strval) (hs : s.KeysOf) (labels : Values)
    (hname : ∀ e ∈ env.entries, ReadsName q.reader q.printNumber e.1) (hhosts : IsHosts hosts) :
    ∃ m, (∀ k, (m.getD .empty).lookup k = (labels.lookup k).map (shown strval)) ∧
      q.pod (document s (labelsMembers strval labels)
        (elements ((inKeyOrder env).map (envJson q.reader strval))) (hostsMembers hosts)) =
        (q.others (plainDocument s)).map fun o =>
          ⟨m, (inKeyOrder env).map fun e => ⟨e.1, shown strval e.2, none⟩,
            (inKeyOrder hosts).map fun e => ⟨e.1, (hostNames e.2).map (shown strval)⟩, o⟩ := by
  obtain ⟨m, hm, hlookup⟩ : ∃ m, stringMap q.printNumber
      (get (labelsMembers strval labels ++ s.annotations) "labels") = some m ∧
      ∀ k, (m.getD .empty).lookup k = (labels.lookup k).map (shown strval) := get_labels hs labels
  refine ⟨m, hlookup, ?_⟩
  have henv : ((inKeyOrder env).map (envJson q.reader strval)).mapM (envVar q.printNumber) =
      some ((inKeyOrder env).map fun e => ⟨e.1, shown strval e.2, none⟩) :=
    mapM_map fun e he => envVar_envJson (hname e (mem_inKeyOrder.mp he))
  have haliases : ((inKeyOrder hosts).map aliasJson).mapM (hostAlias q.printNumber) =
      some ((inKeyOrder hosts).map fun e => ⟨e.1, (hostNames e.2).map (shown strval)⟩) := by
    apply mapM_map
    intro e he
    obtain ⟨_, names, hnames, _⟩ := hhosts e (mem_inKeyOrder.mp he)
    have hshown : (names.map Json.string).map (shown strval) = names.map id := by
      rw [List.map_map]
      exact List.map_congr_left fun s _ => hf.strval_string s
    rw [hostAlias_aliasJson hnames, hnames, hostNames, hshown, List.map_id]
  have hlabelsKeys : Keys (labelsMembers strval labels) ["labels"] := by
    rw [labelsMembers]
    split
    · exact List.nil_sublist _
    · exact List.Sublist.refl _
  have hhostsKeys : Keys (hostsMembers hosts) ["hostAliases"] := by
    rw [hostsMembers]
    split
    · exact List.nil_sublist _
    · exact List.Sublist.refl _
  have hstrip : withoutOptions (document s (labelsMembers strval labels)
      (elements ((inKeyOrder env).map (envJson q.reader strval))) (hostsMembers hosts)) =
      plainDocument s := withoutOptions_document hs hlabelsKeys hhostsKeys
  have hspec : ∃ sm, sm = s.scheduler ++ (bytes "containers", .array [.object (s.before ++
      (bytes "env", elements ((inKeyOrder env).map (envJson q.reader strval))) :: s.behind)]) ::
      (bytes "dnsConfig", .object s.dns) :: (hostsMembers hosts ++ s.tail) := ⟨_, rfl⟩
  obtain ⟨sm, hsm⟩ := hspec
  have hcontainers : get sm "containers" = .array [.object (s.before ++
      (bytes "env", elements ((inKeyOrder env).map (envJson q.reader strval))) :: s.behind)] := by
    rw [hsm, get_append hs.scheduler (by simp)]
    rfl
  have hcontainer : get (s.before ++
      (bytes "env", elements ((inKeyOrder env).map (envJson q.reader strval))) :: s.behind) "env" =
      elements ((inKeyOrder env).map (envJson q.reader strval)) := by
    rw [get_append hs.before (by simp)]
    rfl
  have hhostAliases : asElements (get sm "hostAliases") = some ((inKeyOrder hosts).map aliasJson) := by
    rw [hsm, get_append hs.scheduler (by simp)]
    exact get_hosts hs hosts
  rw [PodDecoder.pod, hstrip, document, ← hsm]
  -- the fields in the order in which they are decoded
  show (stringMap q.printNumber (get (labelsMembers strval labels ++ s.annotations) "labels")).bind _ = _
  rw [hm]
  show (asElements (get sm "containers")).bind _ = _
  rw [hcontainers]
  show (asElements (get (s.before ++
    (bytes "env", elements ((inKeyOrder env).map (envJson q.reader strval))) :: s.behind) "env")).bind _ = _
  rw [hcontainer, asElements_elements]
  show (((inKeyOrder env).map (envJson q.reader strval)).mapM (envVar q.printNumber)).bind _ = _
  rw [henv]
  show (asElements (get sm "hostAliases")).bind _ = _
  rw [hhostAliases]
  show (((inKeyOrder hosts).map aliasJson).mapM (hostAlias q.printNumber)).bind _ = _
  rw [haliases]
  cases q.others (plainDocument s) <;> rfl

end

end Selebrow.Kubernetes.Converter
