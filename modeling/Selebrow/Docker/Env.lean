import Selebrow.Docker.Order
import Selebrow.Kubernetes.Converter

/-!
# The environment of a browser

`getEnv` puts four sources into two maps and prints the result.  What is printed is
described here without maps: the sources in their order, and for each name the value of
the first source that has one.  The converter for Kubernetes computes the same
overrides on its own.
-/

namespace Selebrow.Docker

open Catalog Capabilities

/-- The name of the variable that an entry of the list sets. -/
def varName (e : GoString) : GoString := (splitAt 61 e).1

/-- `ENABLE_VNC` and `SCREEN_RESOLUTION` -/
def computed (caps : Capabilities) (k : GoString) : Option GoString :=
  if k = enableVNC then some (formatBool caps.vncEnabled)
  else if k = screenResolution then some caps.resolution
  else none

/-- The sources of the environment, the highest first. -/
def sources (opts : Opts) (configEnv : GoMap GoString GoString) (caps : Capabilities) :
    List (GoString → Option GoString) :=
  [computed caps, lastValue caps.envs, opts.env.lookup, configEnv.lookup]

/-- The value of the highest source that defines the name. -/
def highest (sources : List (GoString → Option GoString)) (k : GoString) : Option GoString :=
  sources.findSome? fun source => source k

/-- The list prints the sources: each name that is defined has one entry, with the value
of the highest source, and the names are in order. -/
structure PrintsHighest (l : List GoString) (sources : List (GoString → Option GoString)) :
    Prop where
  sorted : (l.map varName).Pairwise (· ≤ ·)
  single : (l.map varName).Nodup
  value : ∀ e ∈ l, highest sources (varName e) = (splitAt 61 e).2
  separated : ∀ e ∈ l, (splitAt 61 e).2.isSome = true
  defined : ∀ k, (highest sources k).isSome = true → k ∈ l.map varName

/-- No name of the map has a `=` in it. -/
def PlainNames (m : GoMap GoString GoString) : Prop := ∀ k ∈ m.keys, (61 : UInt8) ∉ k

instance (m : GoMap GoString GoString) : Decidable (PlainNames m) :=
  inferInstanceAs (Decidable (∀ k ∈ m.keys, (61 : UInt8) ∉ k))

/-- The two backends have the same map of strings. -/
def SameMap (m : GoMap GoString GoString) (vals : Kubernetes.Converter.Values) : Prop :=
  ∀ k, vals.lookup k = (m.lookup k).map Json.string

/-! ## Names -/

theorem separator_notMem_varName (e : GoString) : (61 : UInt8) ∉ varName e := by
  rw [varName]
  exact notMem_splitAt 61 e

theorem splitAt_printed {k : GoString} (h : (61 : UInt8) ∉ k) (v : GoString) :
    splitAt 61 (k ++ bytes "=" ++ v) = (k, some v) := by
  rw [List.append_assoc]
  exact splitAt_append h v

theorem separator_notMem_of_lastValue {envs : List GoString} {k : GoString}
    (h : (lastValue envs k).isSome = true) : (61 : UInt8) ∉ k := by
  obtain ⟨e, _, rfl⟩ := List.mem_map.mp (lastValue_isSome_iff.mp h)
  exact separator_notMem_varName e

/-- A name that is printed can be read back. -/
theorem separator_notMem_combined {opts : Opts} {configEnv : GoMap GoString GoString}
    {caps : Capabilities} (hopts : PlainNames opts.env) (hconfig : PlainNames configEnv)
    {k : GoString} (h : ((combined opts configEnv caps).lookup k).isSome = true) :
    (61 : UInt8) ∉ k := by
  rw [lookup_combined] at h
  by_cases hres : k = screenResolution
  · rw [hres]
    decide
  · by_cases hvnc : k = enableVNC
    · rw [hvnc]
      decide
    · rw [if_neg hres, if_neg hvnc, Option.isSome_or, Option.isSome_or, Bool.or_eq_true,
        Bool.or_eq_true] at h
      rcases h with hlast | hmanager | hcatalog
      · exact separator_notMem_of_lastValue hlast
      · exact hopts k ((GoMap.mem_keys_iff _).mpr hmanager)
      · exact hconfig k ((GoMap.mem_keys_iff _).mpr hcatalog)

/-! ## The list -/

/-- The map that is printed has for each name the value of the highest source. -/
theorem lookup_combined_eq_highest (opts : Opts) (configEnv : GoMap GoString GoString)
    (caps : Capabilities) (k : GoString) :
    (combined opts configEnv caps).lookup k = highest (sources opts configEnv caps) k := by
  have hne : enableVNC ≠ screenResolution := by decide
  have hsteps : highest (sources opts configEnv caps) k =
      (computed caps k).or ((lastValue caps.envs k).or
        ((opts.env.lookup k).or (configEnv.lookup k))) := by
    simp only [highest, sources, List.findSome?_cons, List.findSome?_nil]
    cases computed caps k <;> cases lastValue caps.envs k <;> cases opts.env.lookup k <;>
      cases configEnv.lookup k <;> rfl
  rw [hsteps, lookup_combined, computed]
  by_cases hvnc : k = enableVNC
  · rw [if_neg (hvnc ▸ hne), if_pos hvnc, if_pos hvnc, Option.some_or]
  · by_cases hres : k = screenResolution
    · rw [if_pos hres, if_neg hvnc, if_pos hres, Option.some_or]
    · rw [if_neg hres, if_neg hvnc, if_neg hvnc, if_neg hres, Option.none_or]

/-- What is true of the entry that is printed for a name. -/
theorem splitAt_formatEnv {m : GoMap GoString GoString}
    (hplain : ∀ k, (m.lookup k).isSome = true → (61 : UInt8) ∉ k) {e : GoString}
    (he : e ∈ formatEnv m) : ∃ k v, m.lookup k = some v ∧ splitAt 61 e = (k, some v) := by
  rw [formatEnv] at he
  obtain ⟨k, hk, rfl⟩ := List.mem_map.mp he
  have hsome := (GoMap.mem_keys_iff m).mp ((sort_perm m.keys).mem_iff.mp hk)
  obtain ⟨v, hv⟩ := Option.isSome_iff_exists.mp hsome
  refine ⟨k, v, hv, ?_⟩
  rw [hv]
  exact splitAt_printed (hplain k hsome) v

theorem map_varName_formatEnv {m : GoMap GoString GoString}
    (hplain : ∀ k, (m.lookup k).isSome = true → (61 : UInt8) ∉ k) :
    (formatEnv m).map varName = sort m.keys := by
  have hname : ∀ k ∈ sort m.keys,
      (varName ∘ fun k => k ++ bytes "=" ++ (m.lookup k).getD []) k = k := by
    intro k hk
    have hsome := (GoMap.mem_keys_iff m).mp ((sort_perm m.keys).mem_iff.mp hk)
    show (splitAt 61 _).1 = k
    rw [splitAt_printed (hplain k hsome)]
  rw [formatEnv, List.map_map, List.map_congr_left hname]
  exact List.map_id' _

theorem printsHighest_formatEnv {m : GoMap GoString GoString}
    {sources : List (GoString → Option GoString)}
    (hlookup : ∀ k, m.lookup k = highest sources k)
    (hplain : ∀ k, (m.lookup k).isSome = true → (61 : UInt8) ∉ k) :
    PrintsHighest (formatEnv m) sources := by
  have hnames := map_varName_formatEnv hplain
  constructor
  · rw [hnames]
    exact sort_pairwise m.keys
  · rw [hnames]
    exact (sort_perm m.keys).nodup_iff.mpr m.nodup
  · intro e he
    obtain ⟨k, v, hv, hsplit⟩ := splitAt_formatEnv hplain he
    rw [varName, hsplit, ← hlookup, hv]
  · intro e he
    obtain ⟨k, v, _, hsplit⟩ := splitAt_formatEnv hplain he
    rw [hsplit]
    rfl
  · intro k hk
    rw [hnames, (sort_perm m.keys).mem_iff, GoMap.mem_keys_iff, hlookup]
    exact hk

/-! ## The overrides of the two backends -/

theorem lookup_parseEnv (envs : List GoString) (k : GoString) :
    (Kubernetes.Converter.parseEnv envs).lookup k = (lastValue envs k).map Json.string := by
  have hloop : ∀ m : Kubernetes.Converter.Values,
      (envs.foldl (fun m e => m.insert (splitAt 61 e).1 (.string ((splitAt 61 e).2.getD []))) m).lookup
        k = ((lastValue envs k).map Json.string).or (m.lookup k) := by
    induction envs with
    | nil =>
      intro m
      rfl
    | cons e envs ih =>
      intro m
      rw [List.foldl_cons, ih, GoMap.lookup_insert, lastValue, lastValue, List.map_cons,
        List.reverse_cons, List.lookup_append, List.lookup_cons, List.lookup_nil,
        Option.map_or, Option.or_assoc]
      congr 1
      by_cases hk : k = (splitAt 61 e).1
      · have hb : (k == (parseEnv e).1) = true := beq_iff_eq.mpr hk
        rw [if_pos hk, hb]
        rfl
      · have hb : (k == (parseEnv e).1) = false := beq_eq_false_iff_ne.mpr hk
        rw [if_neg hk, hb]
        rfl
  rw [Kubernetes.Converter.parseEnv, hloop]
  exact Option.or_none

theorem sameMap_envOverrides {opts : Opts} (h : ∀ k, opts.env.lookup k = none)
    (caps : Capabilities) :
    SameMap (envOverrides opts caps) (Kubernetes.Converter.buildOptionsContext caps).env := by
  intro k
  have hempty : (GoMap.empty : GoMap GoString GoString).lookup k = none := rfl
  rw [Kubernetes.Converter.buildOptionsContext, envOverrides, GoMap.lookup_insert,
    GoMap.lookup_insert, GoMap.lookup_insert, GoMap.lookup_insert, lookup_parseEnv,
    lookup_foldl_env, GoMap.lookup_copy, h, hempty, Option.or_none, Option.or_none]
  show (if k = screenResolution then _ else if k = enableVNC then _ else _) = _
  by_cases hres : k = screenResolution
  · rw [if_pos hres, if_pos hres]
    rfl
  · rw [if_neg hres, if_neg hres]
    by_cases hvnc : k = enableVNC
    · rw [if_pos hvnc, if_pos hvnc]
      rfl
    · rw [if_neg hvnc, if_neg hvnc]

/-- The container has the sources in their order, and without an environment of the
manager the overrides are those of the other backend. -/
theorem getEnv_printsHighest (opts : Opts) (configEnv : GoMap GoString GoString)
    (caps : Capabilities) (hopts : PlainNames opts.env) (hconfig : PlainNames configEnv) :
    PrintsHighest (getEnv opts configEnv caps) (sources opts configEnv caps) ∧
      ((∀ k, opts.env.lookup k = none) →
        SameMap (envOverrides opts caps) (Kubernetes.Converter.buildOptionsContext caps).env) := by
  constructor
  · exact printsHighest_formatEnv (lookup_combined_eq_highest opts configEnv caps)
      (fun _ h => separator_notMem_combined hopts hconfig h)
  · intro h
    exact sameMap_envOverrides h caps

/-! ## Four sources -/

def layeredOpts : Opts :=
  { plainOpts with env := GoMap.ofList [(bytes "TZ", bytes "UTC"), (bytes "LANG", bytes "C")] }

def layeredCatalog : GoMap GoString GoString :=
  GoMap.ofList [(bytes "TZ", bytes "GMT"), (bytes "HOME", bytes "/root")]

def layeredCaps : Capabilities :=
  chromeCaps [bytes "TZ=CET", bytes "HOME", bytes "ENABLE_VNC=yes", bytes "TZ=EET", bytes "=x=y"]

example : getEnv layeredOpts layeredCatalog layeredCaps =
    [bytes "=x=y", bytes "ENABLE_VNC=false", bytes "HOME=", bytes "LANG=C",
      bytes "SCREEN_RESOLUTION=1920x1080", bytes "TZ=EET"] := by decide

theorem getEnv_printsHighest_layered :
    PrintsHighest (getEnv layeredOpts layeredCatalog layeredCaps)
        (sources layeredOpts layeredCatalog layeredCaps) ∧
      SameMap (envOverrides plainOpts layeredCaps)
        (Kubernetes.Converter.buildOptionsContext layeredCaps).env := by
  constructor
  · exact (getEnv_printsHighest layeredOpts layeredCatalog layeredCaps (by decide) (by decide)).1
  · exact (getEnv_printsHighest plainOpts .empty layeredCaps (by decide) (by decide)).2
      (fun _ => rfl)

end Selebrow.Docker
