import Selebrow.Controllers.Playwright
import Selebrow.Docker.Env

/-!
# The environment of a Playwright session

The `env` parameters of the query are checked; the names in the environment of the launch
options are not, and `range` visits that environment in any order.  So the environment is
valid and the same in every order only if the launch options name the variables well and
do not set one of them twice.
-/

namespace Selebrow.Controllers

open Docker

def PWController.withRange (p : PWController) (range : RangeOrder GoString) : PWController :=
  { p with rangeEnv := range }

/-- The environment of the launch options. -/
def launchEnv (p : PWController) (r : PWRequest) : GoMap GoString GoString :=
  match r.queryParam "launch-options" with
  | [] => .empty
  | text => (((p.parse text).bind unmarshalLaunchOptions).bind PWLaunchOptions.env).getD .empty

/-- What the environment of an accepted request should be. -/
structure WellDefined (opts : Opts) (configEnv : GoMap GoString GoString) (p : PWController)
    (r : PWRequest) : Prop where
  named : ∀ range o, parsePWOptions (p.withRange range) r = .ok o → ∀ e ∈ o.env,
    (splitAt 61 e).2.isSome = true ∧ pwEnvRegex (splitAt 61 e).1 = true
  same : ∀ range range' o o', parsePWOptions (p.withRange range) r = .ok o →
    parsePWOptions (p.withRange range') r = .ok o' →
      getEnv opts configEnv o.capabilities = getEnv opts configEnv o'.capabilities
  overrides : ∀ range o, parsePWOptions (p.withRange range) r = .ok o → ∀ k v,
    lastValue (r.queryParams "env") k = some v → k ≠ enableVNC → k ≠ screenResolution →
      k ++ bytes "=" ++ v ∈ getEnv opts configEnv o.capabilities

/-- The variable is set by a query parameter or by the manager. -/
def Overridden (r : PWRequest) (k : GoString) : Prop :=
  k = enableVNC ∨ k = screenResolution ∨ (lastValue (r.queryParams "env") k).isSome = true

/-- The keys name variables up to their first `=`, and two of them that name the same one
make the same entry. -/
structure Harmless (p : PWController) (r : PWRequest) : Prop where
  named : ∀ e ∈ (launchEnv p r).entries, pwEnvRegex (varName e.1) = true
  single : ∀ e ∈ (launchEnv p r).entries, ∀ e' ∈ (launchEnv p r).entries,
    varName e.1 = varName e'.1 → Overridden r (varName e.1) ∨ envEntry e = envEntry e'

/-! ## Parsing -/

section

variable {p : PWController} {r : PWRequest} {o : PWOptions}

theorem parseLaunchOptions_withRange (p : PWController) (r : PWRequest)
    (range : RangeOrder GoString) :
    parseLaunchOptions (p.withRange range) r =
      (parseLaunchOptions p r).map fun s => (s.1, (range.visit (launchEnv p r)).map envEntry) := by
  rw [parseLaunchOptions, parseLaunchOptions, launchEnv]
  cases htext : r.queryParam "launch-options" with
  | nil =>
    have hnil : range.visit .empty = [] := List.perm_nil.mp (range.perm .empty)
    simp only [Except.map, hnil, List.map_nil]
  | cons b text =>
    simp only [PWController.withRange]
    cases hopts : (p.parse (b :: text)).bind unmarshalLaunchOptions with
    | none => rfl
    | some opts =>
      simp only [Option.bind_some]
      cases validateLaunchOpts p.rangePrefs opts <;> rfl

/-- Another order makes the same options but for the environment, and the parameters of the
environment were valid. -/
theorem parsePWOptions_withRange (h : parsePWOptions p r = .ok o) :
    validatePlaywrightEnv (r.queryParams "env") = .ok () ∧ ∀ range,
      parsePWOptions (p.withRange range) r =
        .ok { o with
              env := (range.visit (launchEnv p r)).map envEntry ++ r.queryParams "env" } := by
  rw [parsePWOptions] at h
  obtain ⟨⟨launch, env⟩, hlaunch, h⟩ := ok_of_bind h
  obtain ⟨contextOpts, hcontext, h⟩ := ok_of_bind h
  obtain ⟨⟨vnc, launch'⟩, hvnc, h⟩ := ok_of_bind h
  obtain ⟨launch'', hheadless, h⟩ := ok_of_bind h
  obtain ⟨resolution, hresolution, h⟩ := ok_of_bind h
  obtain ⟨_, henv, h⟩ := ok_of_bind h
  obtain ⟨labels, hlabels, h⟩ := ok_of_bind h
  obtain ⟨prefs, hprefs, h⟩ := ok_of_bind h
  cases h
  refine ⟨henv, ?_⟩
  intro range
  have hcontext' : parseContextOptions (p.withRange range) r = .ok contextOpts := hcontext
  rw [parsePWOptions, parseLaunchOptions_withRange, hlaunch, hcontext']
  show (parseVnc r (addArguments r launch) >>= _) = _
  rw [hvnc]
  show (parseHeadless r launch' >>= _) = _
  rw [hheadless, hresolution, henv, hlabels, hprefs]
  rfl

theorem mem_env (range : RangeOrder GoString) {e : GoString} :
    e ∈ (range.visit (launchEnv p r)).map envEntry ++ r.queryParams "env" ↔
      (∃ x ∈ (launchEnv p r).entries, envEntry x = e) ∨ e ∈ r.queryParams "env" := by
  rw [List.mem_append, List.mem_map]
  simp only [(range.perm _).mem_iff]

theorem named_of_validate {env : List GoString} (h : validatePlaywrightEnv env = .ok ()) :
    ∀ e ∈ env, (splitAt 61 e).2.isSome = true ∧ pwEnvRegex (splitAt 61 e).1 = true := by
  induction env with
  | nil =>
    intro e he
    exact absurd he List.not_mem_nil
  | cons x env ih =>
    obtain ⟨_, hx, hrest⟩ := ok_of_bind h
    intro e he
    rcases List.mem_cons.mp he with rfl | he
    · dsimp only at hx
      split at hx
      · contradiction
      · rename_i name v hsplit
        split at hx
        · rename_i hname
          rw [hsplit]
          exact ⟨rfl, hname⟩
        · contradiction
    · exact ih hrest e he

/-! ## Entries -/

/-- An entry names what its key names. -/
theorem varName_envEntry (x : GoString × GoString) : varName (envEntry x) = varName x.1 := by
  have hsep : (bytes "=" ++ x.2).takeWhile (· != 61) = [] := rfl
  rw [varName, varName, splitAt_fst, splitAt_fst, envEntry, List.append_assoc,
    List.takeWhile_append, hsep, List.append_nil]
  split
  · rename_i hlength
    exact (List.Sublist.eq_of_length (List.takeWhile_sublist _) hlength).symm
  · rfl

theorem isSome_envEntry (x : GoString × GoString) :
    (splitAt 61 (envEntry x)).2.isSome = true := by
  apply isSome_splitAt
  rw [envEntry]
  exact List.mem_append_left _ (List.mem_append_right _ List.mem_cons_self)

/-- Two entries that set one variable to the same value are the same. -/
theorem envEntry_eq_iff {x y : GoString × GoString} (hname : varName x.1 = varName y.1) :
    envEntry x = envEntry y ↔ (parseEnv (envEntry x)).2 = (parseEnv (envEntry y)).2 := by
  constructor
  · intro h
    rw [h]
  · intro h
    obtain ⟨v, hv⟩ := Option.isSome_iff_exists.mp (isSome_envEntry x)
    obtain ⟨w, hw⟩ := Option.isSome_iff_exists.mp (isSome_envEntry y)
    rw [← varName_envEntry, ← varName_envEntry, varName, varName] at hname
    rw [parseEnv, parseEnv, hv, hw] at h
    have hvw : v = w := h
    rw [append_of_splitAt hv, append_of_splitAt hw, hname, hvw]

/-! ## The last value -/

theorem lastValue_append (l m : List GoString) (k : GoString) :
    lastValue (l ++ m) k = (lastValue m k).or (lastValue l k) := by
  rw [lastValue, List.map_append, List.reverse_append, List.lookup_append]
  rfl

theorem mem_of_lastValue {l : List GoString} {k v : GoString} (h : lastValue l k = some v) :
    ∃ e ∈ l, parseEnv e = (k, v) := by
  rw [lastValue, List.lookup_eq_some_iff] at h
  obtain ⟨l₁, l₂, heq, _⟩ := h
  apply List.mem_map.mp
  rw [← List.mem_reverse, heq]
  exact List.mem_append_right _ List.mem_cons_self

theorem lastValue_perm {l m : List GoString} {k : GoString} (hperm : l.Perm m)
    (h : ∀ e ∈ l, ∀ e' ∈ l, varName e = k → varName e' = k → e = e') :
    lastValue l k = lastValue m k := by
  have hsome := lastValue_isSome_perm hperm k
  cases hl : lastValue l k with
  | none =>
    rw [hl] at hsome
    exact (Option.not_isSome_iff_eq_none.mp (by rw [← hsome]; simp)).symm
  | some v =>
    rw [hl] at hsome
    obtain ⟨w, hw⟩ := Option.isSome_iff_exists.mp hsome.symm
    obtain ⟨e, he, hev⟩ := mem_of_lastValue hl
    obtain ⟨e', he', hew⟩ := mem_of_lastValue hw
    have heq := h e he e' (hperm.mem_iff.mpr he') (congrArg Prod.fst hev) (congrArg Prod.fst hew)
    rw [← heq, hev, Prod.mk.injEq] at hew
    rw [hw, hew.2]

theorem lastValue_singleton (e : GoString) : lastValue [e] (varName e) = some (parseEnv e).2 := by
  show List.lookup (varName e) [(varName e, (parseEnv e).2)] = _
  rw [List.lookup_cons_self]

/-- An order that visits an entry last. -/
def rangeLast (x : GoString × GoString) : RangeOrder GoString where
  visit m := if x ∈ m.entries then m.entries.erase x ++ [x] else m.entries
  perm m := by
    split
    · rename_i hx
      exact (List.perm_append_singleton x _).trans (List.perm_cons_erase hx).symm
    · exact .refl _

theorem lastValue_rangeLast {m : GoMap GoString GoString} {x : GoString × GoString}
    (hx : x ∈ m.entries) {q : List GoString} (hq : lastValue q (varName x.1) = none) :
    lastValue (((rangeLast x).visit m).map envEntry ++ q) (varName x.1) =
      some (parseEnv (envEntry x)).2 := by
  have hvisit : (rangeLast x).visit m = m.entries.erase x ++ [x] := if_pos hx
  rw [hvisit, lastValue_append, hq, Option.none_or, List.map_append, lastValue_append,
    ← varName_envEntry]
  show (lastValue [envEntry x] (varName (envEntry x))).or _ = _
  rw [lastValue_singleton, Option.some_or]

theorem mem_getEnv {opts : Opts} {configEnv : GoMap GoString GoString}
    {caps : Capabilities} {k v : GoString}
    (h : (combined opts configEnv caps).lookup k = some v) :
    k ++ bytes "=" ++ v ∈ getEnv opts configEnv caps := by
  show _ ∈ formatEnv (combined opts configEnv caps)
  rw [formatEnv, List.mem_map]
  refine ⟨k, ?_, ?_⟩
  · rw [(Capabilities.sort_perm _).mem_iff, GoMap.mem_keys_iff, h]
    rfl
  · rw [h]
    rfl

/-! ## Well defined -/

theorem getEnv_env_iff (opts : Opts) (configEnv : GoMap GoString GoString) (o : PWOptions)
    {l m : List GoString} (hperm : l.Perm m) :
    getEnv opts configEnv { o with env := l }.capabilities =
        getEnv opts configEnv { o with env := m }.capabilities ↔ SameLastValues l m := by
  have hres : ({ o with env := l } : PWOptions).capabilities.resolution =
      ({ o with env := m } : PWOptions).capabilities.resolution := rfl
  have hvnc : ({ o with env := l } : PWOptions).capabilities.vncEnabled =
      ({ o with env := m } : PWOptions).capabilities.vncEnabled := rfl
  have henvs : ({ o with env := l } : PWOptions).capabilities.envs.Perm
      ({ o with env := m } : PWOptions).capabilities.envs := hperm
  exact getEnv_eq_iff opts configEnv hres hvnc henvs

theorem visit_perm (range range' : RangeOrder GoString) (m : GoMap GoString GoString)
    (q : List GoString) :
    ((range.visit m).map envEntry ++ q).Perm ((range'.visit m).map envEntry ++ q) :=
  (((range.perm m).trans (range'.perm m).symm).map envEntry).append_right q

/-- The launch options decide between the orders only by variables that are set twice. -/
theorem Harmless.sameLastValues (h : Harmless p r) (range range' : RangeOrder GoString) :
    SameLastValues ((range.visit (launchEnv p r)).map envEntry ++ r.queryParams "env")
      ((range'.visit (launchEnv p r)).map envEntry ++ r.queryParams "env") := by
  intro k hvnc hres
  rw [lastValue_append, lastValue_append]
  cases hq : lastValue (r.queryParams "env") k with
  | some v => rfl
  | none =>
    rw [Option.none_or, Option.none_or]
    apply lastValue_perm (((range.perm _).trans (range'.perm _).symm).map envEntry)
    intro e he e' he' hk hk'
    obtain ⟨x, hx, rfl⟩ := List.mem_map.mp he
    obtain ⟨y, hy, rfl⟩ := List.mem_map.mp he'
    rw [varName_envEntry] at hk hk'
    have hx := (range.perm _).mem_iff.mp hx
    have hy := (range.perm _).mem_iff.mp hy
    rcases h.single x hx y hy (hk.trans hk'.symm) with hover | heq
    · rw [hk] at hover
      rcases hover with hover | hover | hover
      · exact absurd hover hvnc
      · exact absurd hover hres
      · rw [hq] at hover
        contradiction
    · exact heq

theorem Harmless.wellDefined (h : Harmless p r) (opts : Opts)
    (configEnv : GoMap GoString GoString) (hp : parsePWOptions p r = .ok o) :
    WellDefined opts configEnv p r := by
  obtain ⟨hvalid, hrange⟩ := parsePWOptions_withRange hp
  constructor
  · intro range o' ho' e he
    rw [hrange, Except.ok.injEq] at ho'
    subst ho'
    rcases (mem_env _).mp he with ⟨x, hx, rfl⟩ | he
    · refine ⟨isSome_envEntry x, ?_⟩
      have hname := varName_envEntry x
      rw [varName] at hname
      rw [hname]
      exact h.named x hx
    · exact named_of_validate hvalid e he
  · intro range range' o₁ o₂ h₁ h₂
    rw [hrange, Except.ok.injEq] at h₁ h₂
    subst h₁ h₂
    rw [getEnv_env_iff opts configEnv o (visit_perm range range' _ _)]
    exact h.sameLastValues range range'
  · intro range o' ho' k v hk hvnc hres
    rw [hrange, Except.ok.injEq] at ho'
    subst ho'
    apply mem_getEnv
    rw [lookup_combined, if_neg hres, if_neg hvnc]
    show (lastValue (_ ++ _) k).or _ = _
    rw [lastValue_append, hk, Option.some_or, Option.some_or]

/-- A variable that is set twice has one or the other value. -/
theorem WellDefined.harmless {opts : Opts} {configEnv : GoMap GoString GoString}
    (h : WellDefined opts configEnv p r) (hp : parsePWOptions p r = .ok o) : Harmless p r := by
  obtain ⟨_, hrange⟩ := parsePWOptions_withRange hp
  constructor
  · intro x hx
    have hmem := (mem_env p.rangeEnv (r := r)).mpr (.inl ⟨x, hx, rfl⟩)
    have hname := (h.named p.rangeEnv _ (hrange p.rangeEnv) _ hmem).2
    have heq := varName_envEntry x
    rw [varName] at heq
    rw [heq] at hname
    exact hname
  · intro x hx y hy hname
    by_cases hover : Overridden r (varName x.1)
    · exact .inl hover
    right
    rw [Overridden, not_or, not_or, Bool.not_eq_true, Option.isSome_eq_false_iff,
      Option.isNone_iff_eq_none] at hover
    obtain ⟨hvnc, hres, hq⟩ := hover
    have hsame := h.same (rangeLast x) (rangeLast y) _ _ (hrange _) (hrange _)
    rw [getEnv_env_iff opts configEnv o (visit_perm (rangeLast x) (rangeLast y) _ _)] at hsame
    have hlast := hsame (varName x.1) hvnc hres
    have hy' := lastValue_rangeLast hy (hname ▸ hq)
    rw [lastValue_rangeLast hx hq, hname, hy', Option.some.injEq] at hlast
    exact (envEntry_eq_iff hname).mpr hlast

end

/-- The environment of an accepted request is valid, the same in every order and led by the
query exactly when the launch options name their variables well and set none of them twice. -/
theorem wellDefined_iff (opts : Opts) (configEnv : GoMap GoString GoString) (p : PWController)
    (r : PWRequest) :
    WellDefined opts configEnv p r ↔ ∀ o, parsePWOptions p r = .ok o → Harmless p r := by
  constructor
  · intro h o hp
    exact h.harmless hp
  · intro h
    cases hp : parsePWOptions p r with
    | ok o => exact (h o hp).wellDefined opts configEnv hp
    | error err =>
      have hnone : ∀ range o, parsePWOptions (p.withRange range) r ≠ .ok o := by
        intro range o ho
        have hback := (parsePWOptions_withRange ho).2 p.rangeEnv
        rw [show (p.withRange range).withRange p.rangeEnv = p from rfl, hp] at hback
        contradiction
      constructor
      · intro range o ho
        exact absurd ho (hnone range o)
      · intro range _ o _ ho
        exact absurd ho (hnone range o)
      · intro range o ho
        exact absurd ho (hnone range o)

/-! ## Launch options with an environment -/

def spacedOptions : GoString := bytes "\x7b\"env\":\x7b\"a b\":\"1\"\x7d\x7d"

def doubledOptions : GoString := bytes "\x7b\"env\":\x7b\"A\":\"1\",\"A=B\":\"2\"\x7d\x7d"

def parseSample (text : GoString) : Option Json :=
  if text = spacedOptions then
    some (.object [(bytes "env", .object [(bytes "a b", .string (bytes "1"))])])
  else if text = doubledOptions then
    some (.object [(bytes "env",
      .object [(bytes "A", .string (bytes "1")), (bytes "A=B", .string (bytes "2"))])])
  else none

def inOrder (ν : Type) : RangeOrder ν where
  visit m := m.entries
  perm _ := .refl _

def sampleController : PWController :=
  { parse := parseSample, proxyOpts := none, rangeEnv := inOrder _, rangePrefs := inOrder _ }

def launchRequest (options : GoString) : PWRequest :=
  { name := bytes "chrome", version := bytes "120.0",
    query := fun key => if key = bytes "launch-options" then [options] else [] }

/-- A name with a space is accepted, and a name with a `=` sets a variable a second time. -/
theorem environment_ill_defined :
    (∃ o, parsePWOptions sampleController (launchRequest spacedOptions) = .ok o ∧
      o.env = [bytes "a b=1"] ∧ pwEnvRegex (bytes "a b") = false) ∧
    (∃ range range' o o',
      parsePWOptions (sampleController.withRange range) (launchRequest doubledOptions) = .ok o ∧
      parsePWOptions (sampleController.withRange range') (launchRequest doubledOptions) = .ok o' ∧
      getEnv plainOpts .empty o.capabilities =
        [bytes "A=1", bytes "ENABLE_VNC=false", bytes "SCREEN_RESOLUTION="] ∧
      getEnv plainOpts .empty o'.capabilities =
        [bytes "A=B=2", bytes "ENABLE_VNC=false", bytes "SCREEN_RESOLUTION="]) ∧
    ¬ WellDefined plainOpts .empty sampleController (launchRequest spacedOptions) ∧
    ¬ WellDefined plainOpts .empty sampleController (launchRequest doubledOptions) := by
  have hspaced : ∃ o, parsePWOptions sampleController (launchRequest spacedOptions) = .ok o ∧
      o.env = [bytes "a b=1"] := ⟨_, rfl, rfl⟩
  have hdoubled : ∃ range range' o o',
      parsePWOptions (sampleController.withRange range) (launchRequest doubledOptions) = .ok o ∧
      parsePWOptions (sampleController.withRange range') (launchRequest doubledOptions) = .ok o' ∧
      getEnv plainOpts .empty o.capabilities =
        [bytes "A=1", bytes "ENABLE_VNC=false", bytes "SCREEN_RESOLUTION="] ∧
      getEnv plainOpts .empty o'.capabilities =
        [bytes "A=B=2", bytes "ENABLE_VNC=false", bytes "SCREEN_RESOLUTION="] :=
    ⟨rangeLast (bytes "A", bytes "1"), rangeLast (bytes "A=B", bytes "2"), _, _, rfl, rfl,
      by decide, by decide⟩
  refine ⟨?_, hdoubled, ?_, ?_⟩
  · obtain ⟨o, ho, henv⟩ := hspaced
    exact ⟨o, ho, henv, by decide⟩
  · intro h
    obtain ⟨o, ho, henv⟩ := hspaced
    have hmem : bytes "a b=1" ∈ o.env := by rw [henv]; exact List.mem_cons_self
    exact absurd (h.named sampleController.rangeEnv o ho _ hmem).2 (by decide)
  · intro h
    obtain ⟨range, range', o, o', ho, ho', hA, hB⟩ := hdoubled
    have := h.same range range' o o' ho ho'
    rw [hA, hB] at this
    exact absurd this (by decide)

end Selebrow.Controllers
