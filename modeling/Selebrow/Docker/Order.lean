import Selebrow.Docker.Container

/-!
# The order of the lists

The pool key forgets the order of the lists of the capabilities, and a container does
not: `getEnv` lets the last entry of a variable win.  Two capabilities that differ in
the order alone get the same container when, for each variable, the same value is last
in both lists.
-/

namespace Selebrow.Docker

open Catalog Capabilities

/-- The value of the last entry of the variable. -/
def lastValue (envs : List GoString) (k : GoString) : Option GoString :=
  ((envs.map parseEnv).reverse).lookup k

/-- For every variable that is not overridden anyway, the same value is last. -/
def SameLastValues (l m : List GoString) : Prop :=
  ∀ k, k ≠ enableVNC → k ≠ screenResolution → lastValue l k = lastValue m k

variable {Port Quantity : Type} [DecidableEq Port] {lib : Parsers Port Quantity}

/-- The two containers are the same to the browser in them: the extra hosts and the
links are compared as sets, the labels as maps. -/
structure Equivalent (r r' : Request Port) : Prop where
  image : r.config.image = r'.config.image
  labels : ∀ k, r.config.labels.lookup k = r'.config.labels.lookup k
  exposedPorts : r.config.exposedPorts = r'.config.exposedPorts
  portBindings : r.hostConfig.portBindings = r'.hostConfig.portBindings
  memory : r.hostConfig.memory = r'.hostConfig.memory
  nanoCPUs : r.hostConfig.nanoCPUs = r'.hostConfig.nanoCPUs
  env : r.config.env = r'.config.env
  extraHosts : ∀ h, h ∈ r.hostConfig.extraHosts ↔ h ∈ r'.hostConfig.extraHosts
  links : ∀ l, l ∈ r.hostConfig.links ↔ l ∈ r'.hostConfig.links
  cmd : r.config.cmd = r'.config.cmd
  binds : r.hostConfig.binds = r'.hostConfig.binds
  networkMode : r.hostConfig.networkMode = r'.hostConfig.networkMode
  privileged : r.hostConfig.privileged = r'.hostConfig.privileged
  tmpfs : r.hostConfig.tmpfs = r'.hostConfig.tmpfs
  shmSize : r.hostConfig.shmSize = r'.hostConfig.shmSize

/-- Both request equivalent containers, or both fail in the same way. -/
def SameOutcome : Except Panic (Except AllocateError (Request Port)) →
    Except Panic (Except AllocateError (Request Port)) → Prop
  | .ok (.ok r), .ok (.ok r') => Equivalent r r'
  | .ok (.error e), .ok (.error e') => e = e'
  | .error p, .error p' => p = p'
  | _, _ => False

/-! ## The environment -/

theorem lookup_foldl_env (envs : List GoString) (m : GoMap GoString GoString) (k : GoString) :
    (envs.foldl (fun m e => m.insert (parseEnv e).1 (parseEnv e).2) m).lookup k =
      (lastValue envs k).or (m.lookup k) := by
  induction envs generalizing m with
  | nil => rfl
  | cons e envs ih =>
    rw [List.foldl_cons, ih, GoMap.lookup_insert, lastValue, lastValue, List.map_cons,
      List.reverse_cons, List.lookup_append, Option.or_assoc, List.lookup_cons, List.lookup_nil]
    congr 1
    by_cases hk : k = (parseEnv e).1
    · rw [if_pos hk, beq_iff_eq.mpr hk]
      rfl
    · rw [if_neg hk, beq_eq_false_iff_ne.mpr hk]
      rfl

/-- The map that `getEnv` formats. -/
def combined (opts : Opts) (configEnv : GoMap GoString GoString) (caps : Capabilities) :
    GoMap GoString GoString :=
  (GoMap.empty.copy configEnv).copy (envOverrides opts caps)

theorem lookup_combined (opts : Opts) (configEnv : GoMap GoString GoString) (caps : Capabilities)
    (k : GoString) :
    (combined opts configEnv caps).lookup k =
      if k = screenResolution then some caps.resolution
      else if k = enableVNC then some (formatBool caps.vncEnabled)
      else (lastValue caps.envs k).or ((opts.env.lookup k).or (configEnv.lookup k)) := by
  have hempty : (GoMap.empty : GoMap GoString GoString).lookup k = none := rfl
  rw [combined, GoMap.lookup_copy, GoMap.lookup_copy, envOverrides, GoMap.lookup_insert,
    GoMap.lookup_insert, lookup_foldl_env, GoMap.lookup_copy, hempty]
  simp only [Option.or_none]
  by_cases h1 : k = screenResolution
  · rw [if_pos h1, if_pos h1, Option.some_or]
  · rw [if_neg h1, if_neg h1]
    by_cases h2 : k = enableVNC
    · rw [if_pos h2, if_pos h2, Option.some_or]
    · rw [if_neg h2, if_neg h2, Option.or_assoc]

theorem lastValue_isSome_iff {envs : List GoString} {k : GoString} :
    (lastValue envs k).isSome = true ↔ k ∈ envs.map fun e => (parseEnv e).1 := by
  rw [lastValue, ← Bool.not_eq_false, Option.isSome_eq_false_iff, Option.isNone_iff_eq_none,
    List.lookup_eq_none_iff]
  simp only [List.mem_reverse, List.mem_map, not_forall]
  constructor
  · rintro ⟨_, ⟨e, he, rfl⟩, hk⟩
    exact ⟨e, he, (by simpa using hk : k = (parseEnv e).1).symm⟩
  · rintro ⟨e, he, rfl⟩
    exact ⟨parseEnv e, ⟨e, he, rfl⟩, by simp⟩

theorem lastValue_isSome_perm {l m : List GoString} (h : l.Perm m) (k : GoString) :
    (lastValue l k).isSome = (lastValue m k).isSome := by
  rw [Bool.eq_iff_iff, lastValue_isSome_iff, lastValue_isSome_iff]
  exact (h.map _).mem_iff

/-- Lists that differ in their order set the same variables. -/
theorem sort_keys_combined {opts : Opts} {configEnv : GoMap GoString GoString}
    {a b : Capabilities} (h : a.envs.Perm b.envs) :
    sort (combined opts configEnv a).keys = sort (combined opts configEnv b).keys := by
  rw [sort_eq_iff]
  apply GoMap.keys_perm
  intro k
  rw [lookup_combined, lookup_combined]
  by_cases h1 : k = screenResolution
  · rw [if_pos h1, if_pos h1]
    rfl
  · rw [if_neg h1, if_neg h1]
    by_cases h2 : k = enableVNC
    · rw [if_pos h2, if_pos h2]
      rfl
    · rw [if_neg h2, if_neg h2, Option.isSome_or, lastValue_isSome_perm h,
        ← Option.isSome_or]

/-- With the same keys, the formatted lists are equal only if the maps are. -/
theorem formatEnv_eq_iff {m m' : GoMap GoString GoString} (h : sort m.keys = sort m'.keys) :
    formatEnv m = formatEnv m' ↔ ∀ k, m.lookup k = m'.lookup k := by
  have hmem : ∀ k, k ∈ m.keys ↔ k ∈ m'.keys := fun k => (sort_eq_iff.mp h).mem_iff
  rw [formatEnv, formatEnv, ← h, List.map_inj_left]
  constructor
  · intro heq k
    by_cases hk : k ∈ m.keys
    · have hval := heq k ((sort_perm m.keys).mem_iff.mpr hk)
      obtain ⟨v, hv⟩ := Option.isSome_iff_exists.mp ((GoMap.mem_keys_iff m).mp hk)
      obtain ⟨v', hv'⟩ := Option.isSome_iff_exists.mp ((GoMap.mem_keys_iff m').mp ((hmem k).mp hk))
      rw [hv, hv'] at hval
      have hvv : v = v' := List.append_cancel_left hval
      rw [hv, hv', hvv]
    · have hnone : m.lookup k = none := by
        rw [← Option.not_isSome_iff_eq_none, ← GoMap.mem_keys_iff]
        exact hk
      have hnone' : m'.lookup k = none := by
        rw [← Option.not_isSome_iff_eq_none, ← GoMap.mem_keys_iff, ← hmem]
        exact hk
      rw [hnone, hnone']
  · intro heq k _
    rw [heq k]

/-- The order of the entries shows in the environment when it changes a last value. -/
theorem getEnv_eq_iff (opts : Opts) (configEnv : GoMap GoString GoString) {a b : Capabilities}
    (hres : a.resolution = b.resolution) (hvnc : a.vncEnabled = b.vncEnabled)
    (henvs : a.envs.Perm b.envs) :
    getEnv opts configEnv a = getEnv opts configEnv b ↔ SameLastValues a.envs b.envs := by
  show formatEnv (combined opts configEnv a) = formatEnv (combined opts configEnv b) ↔ _
  rw [formatEnv_eq_iff (sort_keys_combined henvs)]
  have hsome := lastValue_isSome_perm henvs
  constructor
  · intro h k h2 h1
    have hk := h k
    rw [lookup_combined, lookup_combined, if_neg h1, if_neg h1, if_neg h2, if_neg h2] at hk
    cases ha : lastValue a.envs k with
    | none =>
      cases hb : lastValue b.envs k with
      | none => rfl
      | some v =>
        have hkk := hsome k
        rw [ha, hb] at hkk
        contradiction
    | some v =>
      cases hb : lastValue b.envs k with
      | none =>
        have hkk := hsome k
        rw [ha, hb] at hkk
        contradiction
      | some w =>
        rw [ha, hb, Option.some_or, Option.some_or] at hk
        exact hk
  · intro h k
    rw [lookup_combined, lookup_combined]
    by_cases h1 : k = screenResolution
    · rw [if_pos h1, if_pos h1, hres]
    · rw [if_neg h1, if_neg h1]
      by_cases h2 : k = enableVNC
      · rw [if_pos h2, if_pos h2, hvnc]
      · rw [if_neg h2, if_neg h2, h k h2 h1]

/-! ## The container -/

theorem lookup_getLabels {cfgLabels : GoMap GoString GoString} {l m : StringMap}
    (h : ∀ k, l.lookup k = m.lookup k) (k : GoString) :
    (getLabels cfgLabels l).lookup k = (getLabels cfgLabels m).lookup k := by
  rw [getLabels, getLabels, GoMap.lookup_copy _ l.toGoMap, GoMap.lookup_copy _ m.toGoMap,
    StringMap.lookup_toGoMap, StringMap.lookup_toGoMap, h k]

variable {opts : Opts} {cfg : BrowserImageConfig} {a b : Capabilities}

omit [DecidableEq Port] in
/-- What is parsed from the catalog entry, and all fields but the environment, are the
same for both. -/
theorem equivalent_request_iff (h : SameConfiguration a b) (parsed : Parsed Port)
    (tag : GoString) :
    Equivalent (parsed.request opts cfg a tag) (parsed.request opts cfg b tag) ↔
      SameLastValues a.envs b.envs := by
  rw [← getEnv_eq_iff opts cfg.env h.resolution h.vncEnabled h.envs]
  have hhosts : ∀ x, x ∈ getHosts opts a.hosts ↔ x ∈ getHosts opts b.hosts := by
    intro x
    rw [getHosts, getHosts, List.mem_append, List.mem_append, h.hosts.mem_iff]
  constructor
  · intro he
    exact he.env
  · intro he
    exact {
      image := rfl
      labels := lookup_getLabels h.labels
      exposedPorts := rfl
      portBindings := rfl
      memory := rfl
      nanoCPUs := rfl
      env := he
      extraHosts := hhosts
      links := fun _ => h.links.mem_iff
      cmd := rfl
      binds := rfl
      networkMode := rfl
      privileged := rfl
      tmpfs := rfl
      shmSize := rfl }

/-- The order of the lists is harmless exactly when no container is requested anyway, or
the same value is last for every variable. -/
theorem sameOutcome_iff (h : SameConfiguration a b) :
    SameOutcome (containerRequest lib opts cfg a) (containerRequest lib opts cfg b) ↔
      (cfg.getTag a.version = none ∨ ¬ Parses lib cfg (cfg.getPorts a.vncEnabled)) ∨
        SameLastValues a.envs b.envs := by
  rw [← returns_parse opts, containerRequest, containerRequest, ← h.version,
    ← h.vncEnabled]
  cases htag : cfg.getTag a.version with
  | none => simp [SameOutcome]
  | some tag =>
    cases hparse : parse lib opts cfg (cfg.getPorts a.vncEnabled) with
    | error p => simp [SameOutcome, Returns, Except.map]
    | ok parsed =>
      simp only [Except.map, SameOutcome, Returns, reduceCtorEq, false_or, Except.ok.injEq,
        exists_eq', not_true_eq_false]
      exact equivalent_request_iff h parsed tag

/-! ## Two orders of an environment -/

def plainOpts : Opts := ⟨bytes "selebrow", false, false, .empty, false, true⟩

def chromeCaps (envs : List GoString) : Capabilities :=
  ⟨[], bytes "chrome", [], bytes "120.0", bytes "1920x1080", envs, false, ⟨[], List.nodup_nil⟩,
    [], [], []⟩

/-- The parsers are not called for this entry. -/
def noParsers : Parsers GoString Int := ⟨fun _ => none, fun _ => none, 0, id, id⟩

theorem sameConfiguration_chromeCaps {l m : List GoString} (h : l.Perm m) :
    SameConfiguration (chromeCaps l) (chromeCaps m) where
  platform := rfl
  name := rfl
  flavor := rfl
  version := rfl
  resolution := rfl
  vncEnabled := rfl
  envs := h
  labels := fun _ => rfl
  links := .refl _
  hosts := .refl _
  networks := .refl _

theorem sameOutcome_distinctVariables :
    SameOutcome
      (containerRequest noParsers plainOpts chromeEntry
        (chromeCaps [bytes "TZ=UTC", bytes "LANG=C"]))
      (containerRequest noParsers plainOpts chromeEntry
        (chromeCaps [bytes "LANG=C", bytes "TZ=UTC"])) := by
  apply (sameOutcome_iff (sameConfiguration_chromeCaps (List.Perm.swap _ _ _))).mpr
  right
  intro k _ _
  have hparse : parseEnv (bytes "TZ=UTC") = (bytes "TZ", bytes "UTC") ∧
      parseEnv (bytes "LANG=C") = (bytes "LANG", bytes "C") := by decide
  have hne : bytes "TZ" ≠ bytes "LANG" := by decide
  show ([parseEnv (bytes "LANG=C"), parseEnv (bytes "TZ=UTC")] : List _).lookup k =
    ([parseEnv (bytes "TZ=UTC"), parseEnv (bytes "LANG=C")] : List _).lookup k
  rw [hparse.1, hparse.2]
  simp only [List.lookup_cons, List.lookup_nil]
  by_cases h1 : k = bytes "TZ"
  · have h2 : k ≠ bytes "LANG" := h1 ▸ hne
    rw [beq_iff_eq.mpr h1, beq_eq_false_iff_ne.mpr h2]
  · rw [beq_eq_false_iff_ne.mpr h1]

/-- One hash and two containers: the variable has the value that comes last. -/
theorem order_changes_environment :
    SameConfiguration (chromeCaps [bytes "TZ=UTC", bytes "TZ=CET"])
        (chromeCaps [bytes "TZ=CET", bytes "TZ=UTC"]) ∧
      ¬ SameOutcome
        (containerRequest noParsers plainOpts chromeEntry
          (chromeCaps [bytes "TZ=UTC", bytes "TZ=CET"]))
        (containerRequest noParsers plainOpts chromeEntry
          (chromeCaps [bytes "TZ=CET", bytes "TZ=UTC"])) := by
  have hsame := sameConfiguration_chromeCaps
    (List.Perm.swap (bytes "TZ=CET") (bytes "TZ=UTC") [])
  constructor
  · exact hsame
  · intro h
    have hlast := (equivalent_request_iff hsame _ _).mp h
    have htz := hlast (bytes "TZ") (by decide) (by decide)
    exact absurd htz (by decide)

end Selebrow.Docker
