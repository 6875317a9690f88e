import Selebrow.Capabilities.Sound
import Selebrow.Controllers.Playwright
import Selebrow.Json.Ordered
import Selebrow.Json.Reencoded
import Selebrow.Net.Query

/-!
# The request to a Playwright server

What `parsePWOptions` reads from a raw query, and the query that the `Director` of
`CreateSession` makes of it for the server in the container.
-/

namespace Selebrow.Controllers

open Models Net

/-! ## The request of the client -/

/-- A number is decoded into a double, which is written here as the text it is encoded to. -/
def parseJson (text : GoString) : Option Json := (Json.parse text).map (Json.mapNumbers Json.reencode)

def pwController (proxyOpts : Option PWProxyOptions) (rangeEnv : RangeOrder GoString)
    (rangePrefs : RangeOrder Json) : PWController :=
  { parse := parseJson, proxyOpts := proxyOpts, rangeEnv := rangeEnv, rangePrefs := rangePrefs }

def pwRequest (name version rawQuery : GoString) : PWRequest :=
  { name := name, version := version, query := Query.valuesOf (Query.parseQuery rawQuery) }

/-! ## `json.Marshal` -/

def stringsField (name : String) (l : List GoString) : List (GoString × Json) :=
  if l = [] then [] else [(bytes name, .array (l.map .string))]

def boolField (name : String) : Option Bool → List (GoString × Json)
  | none => []
  | some b => [(bytes name, .bool b)]

def marshalValues (m : Values) : Json := Json.ordered (Json.decoded (.object m.entries))

def valuesField (name : String) (m : Option Values) : List (GoString × Json) :=
  if (m.getD .empty).entries = [] then [] else [(bytes name, marshalValues (m.getD .empty))]

def marshalStringMap (m : GoMap GoString GoString) : Json :=
  .object (Json.sortMembers (m.entries.map fun e => (e.1, .string e.2)))

def stringMapField (name : String) (m : Option (GoMap GoString GoString)) : List (GoString × Json) :=
  if (m.getD .empty).entries = [] then [] else [(bytes name, marshalStringMap (m.getD .empty))]

def marshalPWProxy (p : PWProxyOptions) : Json :=
  .object (stringField "server" p.server ++ stringField "bypass" p.bypass)

def proxyField (name : String) : Option PWProxyOptions → List (GoString × Json)
  | none => []
  | some p => [(bytes name, marshalPWProxy p)]

/-- The fields are written in the order of the struct, each with `omitempty`. -/
def marshalLaunchOptions (o : PWLaunchOptions) : Json :=
  .object (stringsField "args" o.args.elements ++ (boolField "headless" o.headless ++
    (stringField "channel" o.channel ++ (valuesField "firefoxUserPrefs" o.firefoxUserPrefs ++
      (proxyField "proxy" o.proxy ++ (stringsField "ignoreDefaultArgs" o.ignoreDefaultArgs.elements ++
        stringMapField "env" o.env))))))

/-! ## The request to the server -/

def setArgs (args : List GoString) (q : Query.Values) : Query.Values :=
  if args = [] then q else q.insert (bytes "arg") args

def setHeadless (headless : Option Bool) (q : Query.Values) : Query.Values :=
  match headless with
  | none => q
  | some b => q.insert (bytes "headless") [Capabilities.formatBool b]

def setContextOptions (m : Option Values) (q : Query.Values) : Query.Values :=
  if (m.getD .empty).entries = [] then q
  else q.insert (bytes "context-options") [Json.render (marshalValues (m.getD .empty))]

/-- The parameters that the `Director` sets. -/
def directorValues (o : PWOptions) : Query.Values :=
  setContextOptions o.contextOpts
    ((setHeadless o.launchOpts.headless (setArgs o.launchOpts.args.elements .empty)).insert
      (bytes "launch-options") [Json.render (marshalLaunchOptions o.launchOpts)])

/-- `r.URL.RawQuery` -/
def director (o : PWOptions) : GoString := (directorValues o).encode

/-! ## Options that can be sent -/

/-- A preference is a string, a boolean or a number in the range of a double. -/
structure SendablePref (v : Json) : Prop where
  primitive : isPrimitive v = true
  numeric : Json.Numeric v
  inRange : inRange v = true

structure Sendable (o : PWOptions) : Prop where
  prefs : ∀ e ∈ (o.launchOpts.firefoxUserPrefs.getD .empty).entries, SendablePref e.2
  context : ∀ e ∈ (o.contextOpts.getD .empty).entries, Json.AcceptedMember 9999 e
  env : o.launchOpts.env = none

/-! ## What is read can be sent -/

section

variable {κ ν : Type} [DecidableEq κ] {Q : κ × ν → Prop} {m : GoMap κ ν}

theorem forall_insert (hm : ∀ e ∈ m.entries, Q e) {k : κ} {v : ν} (h : Q (k, v)) :
    ∀ e ∈ (m.insert k v).entries, Q e := by
  intro e he
  have he : e ∈ (k, v) :: deleteKey m.entries k := he
  rcases List.mem_cons.mp he with rfl | he
  · exact h
  · exact hm e (mem_deleteKey.mp he).1

theorem forall_foldl_insert {l : List (κ × ν)} (hm : ∀ e ∈ m.entries, Q e) (hl : ∀ e ∈ l, Q e) :
    ∀ e ∈ (l.foldl (fun m e => m.insert e.1 e.2) m).entries, Q e := by
  induction l generalizing m with
  | nil => exact hm
  | cons x l ih =>
    rw [List.forall_mem_cons] at hl
    exact ih (forall_insert hm hl.1) hl.2

end

section

variable {p : PWController} {r : PWRequest} {Q : GoString × Json → Prop} {m m' : Option Values}
  {v : Json} {o o' : PWLaunchOptions} {e : GoString × Json} {ms : List (GoString × Json)}

/-- The members of a value, if it is an object in the range of a double. -/
def MembersSatisfy (Q : GoString × Json → Prop) (v : Json) : Prop :=
  ∀ ms, v = .object ms → membersInRange ms = true → ∀ e ∈ ms, Q e

theorem forall_unmarshalMap (hm : ∀ e ∈ (m.getD .empty).entries, Q e) (hv : MembersSatisfy Q v)
    (h : unmarshalMap m v = some m') : ∀ e ∈ (m'.getD .empty).entries, Q e := by
  cases v with
  | null =>
    cases h
    intro e he
    exact absurd he List.not_mem_nil
  | object ms =>
    rw [unmarshalMap] at h
    split at h
    · rename_i hrange
      cases h
      exact forall_foldl_insert hm (hv ms rfl hrange)
    · contradiction
  | bool b | number literal | string s | array vs => contradiction

/-- Only the member of that name goes into the preferences. -/
theorem prefs_of_field (h : unmarshalLaunchField o e = some o') :
    o'.firefoxUserPrefs = o.firefoxUserPrefs ∨
      unmarshalMap o.firefoxUserPrefs e.2 = some o'.firefoxUserPrefs := by
  rw [unmarshalLaunchField] at h
  split at h
  · obtain ⟨x, _, rfl⟩ := Option.map_eq_some_iff.mp h
    exact .inl rfl
  split at h
  · obtain ⟨x, _, rfl⟩ := Option.map_eq_some_iff.mp h
    exact .inl rfl
  split at h
  · obtain ⟨x, _, rfl⟩ := Option.map_eq_some_iff.mp h
    exact .inl rfl
  split at h
  · obtain ⟨x, hx, rfl⟩ := Option.map_eq_some_iff.mp h
    exact .inr hx
  split at h
  · obtain ⟨x, _, rfl⟩ := Option.map_eq_some_iff.mp h
    exact .inl rfl
  split at h
  · obtain ⟨x, _, rfl⟩ := Option.map_eq_some_iff.mp h
    exact .inl rfl
  split at h
  · obtain ⟨x, _, rfl⟩ := Option.map_eq_some_iff.mp h
    exact .inl rfl
  · cases h
    exact .inl rfl

theorem prefs_of_members (ho : ∀ e ∈ (o.firefoxUserPrefs.getD .empty).entries, Q e)
    (hms : ∀ e ∈ ms, MembersSatisfy Q e.2) (h : ms.foldlM unmarshalLaunchField o = some o') :
    ∀ e ∈ (o'.firefoxUserPrefs.getD .empty).entries, Q e := by
  induction ms generalizing o with
  | nil =>
    cases h
    exact ho
  | cons e ms ih =>
    rw [List.forall_mem_cons] at hms
    rw [List.foldlM_cons] at h
    obtain ⟨o₁, hfield, h⟩ := Option.bind_eq_some_iff.mp h
    apply ih _ hms.2 h
    rcases prefs_of_field hfield with heq | hmap
    · rw [heq]
      exact ho
    · exact forall_unmarshalMap ho hms.1 hmap

theorem prefs_of_unmarshal (hv : ∀ ms, v = .object ms → ∀ e ∈ ms, MembersSatisfy Q e.2)
    (h : unmarshalLaunchOptions v = some o) :
    ∀ e ∈ (o.firefoxUserPrefs.getD .empty).entries, Q e := by
  cases v with
  | null =>
    cases h
    intro e he
    exact absurd he List.not_mem_nil
  | object ms =>
    have hzero : ∀ e ∈ (PWLaunchOptions.zero.firefoxUserPrefs.getD .empty).entries, Q e := by
      intro e he
      exact absurd he List.not_mem_nil
    exact prefs_of_members hzero (hv ms rfl) h
  | bool b | number literal | string s | array vs => contradiction

theorem accepted_parseJson {text : GoString} (h : parseJson text = some v) :
    Json.Accepted Json.maxNestingDepth v := by
  obtain ⟨u, hu, rfl⟩ := Option.map_eq_some_iff.mp h
  exact Json.reencode_rebuilds.accepted (Json.accepted_of_parse hu)

/-- A preference of the text, before it is known to be primitive. -/
theorem prefs_of_text {text : GoString} (h : (parseJson text).bind unmarshalLaunchOptions = some o) :
    ∀ e ∈ (o.firefoxUserPrefs.getD .empty).entries, Json.Numeric e.2 ∧ inRange e.2 = true := by
  obtain ⟨v, hv, ho⟩ := Option.bind_eq_some_iff.mp h
  have haccepted := accepted_parseJson hv
  apply prefs_of_unmarshal (Q := fun e => Json.Numeric e.2 ∧ inRange e.2 = true) _ ho
  rintro ms rfl e he ms' heq hrange x hx
  obtain ⟨n, _, hms⟩ := haccepted.of_object
  have hobject := (hms e he).2
  rw [heq] at hobject
  obtain ⟨n', _, hms'⟩ := hobject.of_object
  exact ⟨(hms' x hx).2.numeric, inRange_of_mem hrange hx⟩

theorem primitive_of_validate {range : RangeOrder Json} (h : validateLaunchOpts range o = .ok ()) :
    ∀ e ∈ (o.firefoxUserPrefs.getD .empty).entries, isPrimitive e.2 = true := by
  rw [validateLaunchOpts] at h
  split at h
  · contradiction
  · rename_i hnone
    intro e he
    have hnot := List.find?_eq_none.mp hnone e ((range.perm _).mem_iff.mpr he)
    rw [Bool.not_eq_true, Bool.not_eq_false'] at hnot
    exact hnot

/-! ## Preferences of the query -/

theorem atoi_range {s : GoString} {i : Int} (h : Docker.atoi s = some i) : -2 ^ 63 ≤ i ∧ i < 2 ^ 63 := by
  rw [Docker.atoi] at h
  generalize (if s.head? = some 45 then (-Docker.digitsValue (Docker.unsigned s) : Int)
    else Docker.digitsValue (Docker.unsigned s)) = n at h
  split at h
  · contradiction
  · split at h
    · contradiction
    · rename_i hrange
      rw [← Option.some.inj h]
      omega

theorem sendable_guessPref (s : GoString) : SendablePref (guessPref s) := by
  rw [guessPref]
  split
  · rename_i i hi
    obtain ⟨hlow, hhigh⟩ := atoi_range hi
    exact ⟨rfl, .number _ (Json.isNumber_int i), Json.parseFloat_int hlow hhigh⟩
  · split
    · exact ⟨rfl, .bool true, rfl⟩
    · split
      · exact ⟨rfl, .bool false, rfl⟩
      · exact ⟨rfl, .string s, rfl⟩

theorem sendable_prefs {prefs : List GoString} {res : Values} (h : parseFirefoxUserPrefs prefs = .ok res) :
    ∀ e ∈ res.entries, SendablePref e.2 := by
  rw [parseFirefoxUserPrefs] at h
  have hempty : ∀ e ∈ (GoMap.empty : Values).entries, SendablePref e.2 := by
    intro e he
    exact absurd he List.not_mem_nil
  revert h hempty
  generalize (GoMap.empty : Values) = acc
  intro h hacc
  induction prefs generalizing acc with
  | nil =>
    cases h
    exact hacc
  | cons q prefs ih =>
    rw [List.foldlM_cons] at h
    obtain ⟨acc', hstep, h⟩ := ok_of_bind h
    apply ih acc' h
    split at hstep
    · contradiction
    · cases hstep
      exact forall_insert hacc (sendable_guessPref _)

/-! ## The options of a request -/

theorem parseVnc_keeps {launch : PWLaunchOptions} {b : Bool} (h : parseVnc r launch = .ok (b, o)) :
    o.firefoxUserPrefs = launch.firefoxUserPrefs ∧ o.env = launch.env := by
  rw [parseVnc] at h
  split at h
  · cases h
    exact ⟨rfl, rfl⟩
  · split at h
    · contradiction
    · cases h
      exact ⟨rfl, rfl⟩

theorem parseHeadless_keeps {launch : PWLaunchOptions} (h : parseHeadless r launch = .ok o) :
    o.firefoxUserPrefs = launch.firefoxUserPrefs ∧ o.env = launch.env := by
  rw [parseHeadless] at h
  split at h
  · cases h
    exact ⟨rfl, rfl⟩
  · split at h
    · contradiction
    · cases h
      exact ⟨rfl, rfl⟩

theorem addProxy_keeps (p : PWController) (launch : PWLaunchOptions) :
    (addProxy p launch).firefoxUserPrefs = launch.firefoxUserPrefs ∧
      (addProxy p launch).env = launch.env := by
  rw [addProxy]
  split
  · exact ⟨rfl, rfl⟩
  · exact ⟨rfl, rfl⟩

theorem sendable_addPrefs {prefs : Values} (hprefs : ∀ e ∈ prefs.entries, SendablePref e.2)
    (ho : ∀ e ∈ (o.firefoxUserPrefs.getD .empty).entries, SendablePref e.2) :
    (∀ e ∈ ((addPrefs prefs r o).firefoxUserPrefs.getD .empty).entries, SendablePref e.2) ∧
      (addPrefs prefs r o).env = o.env := by
  rw [addPrefs]
  split
  · exact ⟨ho, rfl⟩
  · exact ⟨forall_foldl_insert ho hprefs, rfl⟩

section

variable {proxyOpts : Option PWProxyOptions} {rangeEnv : RangeOrder GoString}
  {rangePrefs : RangeOrder Json} {env : List GoString}

theorem sendable_parseLaunch
    (h : parseLaunchOptions (pwController proxyOpts rangeEnv rangePrefs) r = .ok (o, env)) :
    (∀ e ∈ (o.firefoxUserPrefs.getD .empty).entries, SendablePref e.2) ∧ o.env = none := by
  rw [parseLaunchOptions] at h
  split at h
  · cases h
    refine ⟨?_, rfl⟩
    intro e he
    exact absurd he List.not_mem_nil
  · split at h
    · contradiction
    · rename_i opts hopts
      obtain ⟨_, hvalid, h⟩ := ok_of_bind h
      cases h
      refine ⟨?_, rfl⟩
      intro e he
      obtain ⟨hnumeric, hrange⟩ := prefs_of_text hopts e he
      exact ⟨primitive_of_validate hvalid e he, hnumeric, hrange⟩

theorem sendable_context
    (h : parseContextOptions (pwController proxyOpts rangeEnv rangePrefs) r = .ok m) :
    ∀ e ∈ (m.getD .empty).entries, Json.AcceptedMember 9999 e := by
  have hempty : ∀ e ∈ ((none : Option Values).getD .empty).entries, Json.AcceptedMember 9999 e := by
    intro e he
    exact absurd he List.not_mem_nil
  rw [parseContextOptions] at h
  split at h
  · cases h
    exact hempty
  · split at h
    · contradiction
    · rename_i opts hopts
      cases h
      obtain ⟨v, hv, hopts⟩ := Option.bind_eq_some_iff.mp hopts
      apply forall_unmarshalMap hempty _ hopts
      rintro ms rfl _
      obtain ⟨n, hn, hms⟩ := (accepted_parseJson hv).of_object
      have hmax : Json.maxNestingDepth = 10000 := rfl
      have hn : n = 9999 := by omega
      rw [hn] at hms
      exact hms

theorem sendable_of_parse {opts : PWOptions}
    (h : parsePWOptions (pwController proxyOpts rangeEnv rangePrefs) r = .ok opts) : Sendable opts := by
  rw [parsePWOptions] at h
  obtain ⟨⟨launch, env⟩, hlaunch, h⟩ := ok_of_bind h
  obtain ⟨contextOpts, hcontext, h⟩ := ok_of_bind h
  obtain ⟨⟨vnc, launch'⟩, hvnc, h⟩ := ok_of_bind h
  obtain ⟨launch'', hheadless, h⟩ := ok_of_bind h
  obtain ⟨resolution, _, h⟩ := ok_of_bind h
  obtain ⟨_, _, h⟩ := ok_of_bind h
  obtain ⟨labels, _, h⟩ := ok_of_bind h
  obtain ⟨prefs, hprefs, h⟩ := ok_of_bind h
  cases h
  obtain ⟨hsendable, henv⟩ := sendable_parseLaunch hlaunch
  obtain ⟨hvncPrefs, hvncEnv⟩ := parseVnc_keeps hvnc
  obtain ⟨hheadlessPrefs, hheadlessEnv⟩ := parseHeadless_keeps hheadless
  have hlast : ∀ e ∈ (launch''.firefoxUserPrefs.getD .empty).entries, SendablePref e.2 := by
    rw [hheadlessPrefs, hvncPrefs]
    exact hsendable
  obtain ⟨hadd, haddEnv⟩ := sendable_addPrefs (r := r) (sendable_prefs hprefs) hlast
  obtain ⟨hproxyPrefs, hproxyEnv⟩ :=
    addProxy_keeps (pwController proxyOpts rangeEnv rangePrefs) (addPrefs prefs r launch'')
  constructor
  · show ∀ e ∈ ((addProxy _ _).firefoxUserPrefs.getD .empty).entries, _
    rw [hproxyPrefs]
    exact hadd
  · exact sendable_context hcontext
  · show (addProxy _ _).env = none
    rw [hproxyEnv, haddEnv, hheadlessEnv, hvncEnv]
    exact henv

end

end

end Selebrow.Controllers
