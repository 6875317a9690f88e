import Selebrow.Capabilities.Hash
import Selebrow.Capabilities.Wrapper
import Selebrow.Docker.Allocate

/-!
# The options of a Playwright session

`parsePWOptions` reads the path and the query of a request.  Two of the parameters are JSON
texts; the environment comes from one of them, in the order in which `range` visits the map
`env`, and behind that from the `env` parameters.  `parse` is the syntax of `encoding/json`,
and decoding a text that it rejects, or a value of another type, fails the request.
-/

namespace Selebrow.Controllers

open Models

/-! ## Decoding -/

/-- `null` leaves a string as it is. -/
def unmarshalString (old : GoString) : Json → Option GoString
  | .null => some old
  | .string s => some s
  | _ => none

/-- A `[]string`: what was ever decoded into its array, and how much of that it shows. -/
structure StringSlice where
  backing : List GoString
  length : Nat
deriving DecidableEq

def StringSlice.nil : StringSlice := { backing := [], length := 0 }

def StringSlice.elements (s : StringSlice) : List GoString := s.backing.take s.length

def StringSlice.append (s : StringSlice) (l : List GoString) : StringSlice :=
  { backing := s.elements ++ l, length := (s.elements ++ l).length }

def unmarshalStrings : List GoString → List Json → Option (List GoString)
  | old, [] => some old
  | old, v :: rest => do
    let s ← unmarshalString (old.headD []) v
    let ss ← unmarshalStrings old.tail rest
    return s :: ss

def unmarshalStringSlice (s : StringSlice) : Json → Option StringSlice
  | .null => some .nil
  | .array [] => some .nil
  | .array elements =>
    (unmarshalStrings s.backing elements).map fun backing =>
      { backing := backing, length := elements.length }
  | _ => none

/-- A `*bool` -/
def unmarshalBool : Json → Option (Option Bool)
  | .null => some none
  | .bool b => some (some b)
  | _ => none

/-- A `map[string]string`; a `null` in it becomes the empty string. -/
def unmarshalStringMap (m : Option (GoMap GoString GoString)) :
    Json → Option (Option (GoMap GoString GoString))
  | .null => some none
  | .object members =>
    (members.foldlM (fun m e => (unmarshalString [] e.2).map fun v => m.insert e.1 v)
      (m.getD .empty)).map some
  | _ => none

structure PWProxyOptions where
  server : GoString
  bypass : GoString
deriving DecidableEq

def unmarshalPWProxy (p : Option PWProxyOptions) : Json → Option (Option PWProxyOptions)
  | .null => some none
  | .object members =>
    (unmarshalFields (bytes "server") (bytes "bypass") unmarshalString unmarshalString
      ((p.map PWProxyOptions.server).getD [], (p.map PWProxyOptions.bypass).getD []) members).map
      fun s => some { server := s.1, bypass := s.2 }
  | _ => none

structure PWLaunchOptions where
  args : StringSlice
  headless : Option Bool
  channel : GoString
  firefoxUserPrefs : Option Values
  proxy : Option PWProxyOptions
  ignoreDefaultArgs : StringSlice
  env : Option (GoMap GoString GoString)

def PWLaunchOptions.zero : PWLaunchOptions :=
  { args := .nil, headless := none, channel := [], firefoxUserPrefs := none, proxy := none,
    ignoreDefaultArgs := .nil, env := none }

/-- A member of the object goes into the field of its name, if there is one. -/
def unmarshalLaunchField (o : PWLaunchOptions) (e : GoString × Json) : Option PWLaunchOptions :=
  if foldName e.1 = foldName (bytes "args") then
    (unmarshalStringSlice o.args e.2).map fun v => { o with args := v }
  else if foldName e.1 = foldName (bytes "headless") then
    (unmarshalBool e.2).map fun v => { o with headless := v }
  else if foldName e.1 = foldName (bytes "channel") then
    (unmarshalString o.channel e.2).map fun v => { o with channel := v }
  else if foldName e.1 = foldName (bytes "firefoxUserPrefs") then
    (unmarshalMap o.firefoxUserPrefs e.2).map fun v => { o with firefoxUserPrefs := v }
  else if foldName e.1 = foldName (bytes "proxy") then
    (unmarshalPWProxy o.proxy e.2).map fun v => { o with proxy := v }
  else if foldName e.1 = foldName (bytes "ignoreDefaultArgs") then
    (unmarshalStringSlice o.ignoreDefaultArgs e.2).map fun v => { o with ignoreDefaultArgs := v }
  else if foldName e.1 = foldName (bytes "env") then
    (unmarshalStringMap o.env e.2).map fun v => { o with env := v }
  else some o

def unmarshalLaunchOptions : Json → Option PWLaunchOptions
  | .null => some .zero
  | .object members => members.foldlM unmarshalLaunchField .zero
  | _ => none

/-! ## The request -/

structure PWRequest where
  name : GoString
  version : GoString
  query : GoString → List GoString

/-- `c.QueryParams()[key]` -/
def PWRequest.queryParams (r : PWRequest) (key : String) : List GoString := r.query (bytes key)

/-- `c.QueryParam(key)` -/
def PWRequest.queryParam (r : PWRequest) (key : String) : GoString := (r.queryParams key).headD []

structure PWOptions where
  flavor : GoString
  name : GoString
  version : GoString
  launchOpts : PWLaunchOptions
  contextOpts : Option Values
  vncEnabled : Bool
  resolution : GoString
  env : List GoString
  links : List GoString
  hosts : List GoString
  networks : List GoString
  labels : StringMap

inductive PWError
  | launchOptions
  | firefoxUserPref (key : GoString)
  | contextOptions
  | vnc
  | headless
  | resolution
  | malformedEnv (e : GoString)
  | envName (name : GoString)
  | label (l : GoString)
  | firefoxUserPrefParam (p : GoString)
deriving DecidableEq

/-- The message, without what `encoding/json` and `strconv` add behind it. -/
def PWError.text : PWError → GoString
  | launchOptions => bytes "malformed launch-options parameter"
  | firefoxUserPref key =>
    bytes "bad launch options: invalid firefoxUserPref " ++ key ++
      bytes " value, only primitive non null types allowed"
  | contextOptions => bytes "malformed context-options parameter"
  | vnc => bytes "bad vnc parameter"
  | headless => bytes "bad headless parameter"
  | resolution => bytes "incorrect resolution parameter format (expected WIDTHxHEIGHTxBPP)"
  | malformedEnv e => bytes "bad environment: malformed env param (key=value expected): " ++ e
  | envName name => bytes "bad environment: invalid env name (only PW_XXXX allowed): " ++ name
  | label l => bytes "bad label: malformed label format '" ++ l ++ bytes "' (expected key=value)"
  | firefoxUserPrefParam p =>
    bytes "bad firefoxUserPrefs: malformed firefoxUserPref param (key=value expected): " ++ p

/-- The order in which `range` visits the entries of a map. -/
structure RangeOrder (ν : Type) where
  visit : GoMap GoString ν → List (GoString × ν)
  perm : ∀ m, (visit m).Perm m.entries

structure PWController where
  parse : GoString → Option Json
  proxyOpts : Option PWProxyOptions
  rangeEnv : RangeOrder GoString
  rangePrefs : RangeOrder Json

/-! ## The parameters -/

/-- `strconv.ParseBool` -/
def parseBool (s : GoString) : Option Bool :=
  if s ∈ ["1", "t", "T", "TRUE", "true", "True"].map bytes then some true
  else if s ∈ ["0", "f", "F", "FALSE", "false", "False"].map bytes then some false
  else none

def isPrimitive : Json → Bool
  | .object _ | .array _ | .null => false
  | _ => true

def validateLaunchOpts (range : RangeOrder Json) (opts : PWLaunchOptions) : Except PWError Unit :=
  match (range.visit (opts.firefoxUserPrefs.getD .empty)).find? fun e => !isPrimitive e.2 with
  | some e => .error (.firefoxUserPref e.1)
  | none => .ok ()

/-- `(?i)^[0-9A-Z_\-.]*$`: of the letters beyond ASCII the long s and the Kelvin sign are
matched without regard to case too. -/
def pwEnvRegex : GoString → Bool
  | [] => true
  | 0xC5 :: 0xBF :: s => pwEnvRegex s
  | 0xE2 :: 0x84 :: 0xAA :: s => pwEnvRegex s
  | b :: s =>
    ((48 ≤ b && b ≤ 57) || (65 ≤ b && b ≤ 90) || (97 ≤ b && b ≤ 122) || b == 95 || b == 45 ||
      b == 46) && pwEnvRegex s

def validatePlaywrightEnv (env : List GoString) : Except PWError Unit :=
  env.forM fun e =>
    match splitAt 61 e with
    | (_, none) => .error (.malformedEnv e)
    | (name, some _) => if pwEnvRegex name then .ok () else .error (.envName name)

def parsePlaywrightLabels (labels : List GoString) : Except PWError (GoMap GoString GoString) :=
  labels.foldlM (fun res l =>
    match splitAt 61 l with
    | (_, none) => .error (.label l)
    | (k, some v) => .ok (res.insert k v)) .empty

/-- A value that is not a number or a boolean stays a string. -/
def guessPref (v : GoString) : Json :=
  match Docker.atoi v with
  | some i => .number (bytes (toString i))
  | none =>
    if v = bytes "true" then .bool true
    else if v = bytes "false" then .bool false
    else .string v

def parseFirefoxUserPrefs (prefs : List GoString) : Except PWError Values :=
  prefs.foldlM (fun res p =>
    match splitAt 61 p with
    | (_, none) => .error (.firefoxUserPrefParam p)
    | (k, some v) => .ok (res.insert k (guessPref v))) .empty

/-! ## `parsePWOptions` -/

/-- `fmt.Sprintf("%s=%s", k, v)` -/
def envEntry (e : GoString × GoString) : GoString := e.1 ++ bytes "=" ++ e.2

/-- The launch options without their environment, and that environment. -/
def parseLaunchOptions (p : PWController) (r : PWRequest) :
    Except PWError (PWLaunchOptions × List GoString) :=
  match r.queryParam "launch-options" with
  | [] => .ok (.zero, [])
  | text =>
    match (p.parse text).bind unmarshalLaunchOptions with
    | none => .error .launchOptions
    | some opts => do
      validateLaunchOpts p.rangePrefs opts
      return ({ opts with env := none }, (p.rangeEnv.visit (opts.env.getD .empty)).map envEntry)

def parseContextOptions (p : PWController) (r : PWRequest) : Except PWError (Option Values) :=
  match r.queryParam "context-options" with
  | [] => .ok none
  | text =>
    match (p.parse text).bind (unmarshalMap none) with
    | none => .error .contextOptions
    | some opts => .ok opts

def parseVnc (r : PWRequest) (launch : PWLaunchOptions) :
    Except PWError (Bool × PWLaunchOptions) :=
  match r.queryParam "vnc" with
  | [] => .ok (false, launch)
  | text =>
    match parseBool text with
    | none => .error .vnc
    | some v => .ok (v, { launch with headless := some !v })

def parseHeadless (r : PWRequest) (launch : PWLaunchOptions) : Except PWError PWLaunchOptions :=
  match r.queryParam "headless" with
  | [] => .ok launch
  | text =>
    match parseBool text with
    | none => .error .headless
    | some h => .ok { launch with headless := some h }

def parseResolution (r : PWRequest) : Except PWError GoString :=
  if isResolution (r.queryParam "resolution") then .ok (r.queryParam "resolution")
  else .error .resolution

/-- The arguments and the channel of the query. -/
def addArguments (r : PWRequest) (launch : PWLaunchOptions) : PWLaunchOptions :=
  { launch with
    args := launch.args.append (r.queryParams "arg"),
    ignoreDefaultArgs := launch.ignoreDefaultArgs.append (r.queryParams "ignoreDefaultArg"),
    channel := if r.queryParam "channel" = [] then launch.channel else r.queryParam "channel" }

def addPrefs (prefs : Values) (r : PWRequest) (launch : PWLaunchOptions) : PWLaunchOptions :=
  if r.queryParams "firefoxUserPref" = [] then launch
  else { launch with firefoxUserPrefs := some ((launch.firefoxUserPrefs.getD .empty).copy prefs) }

def addProxy (p : PWController) (launch : PWLaunchOptions) : PWLaunchOptions :=
  if p.proxyOpts.isSome ∧ (launch.proxy.map PWProxyOptions.server).getD [] = [] then
    { launch with proxy := p.proxyOpts }
  else launch

def parsePWOptions (p : PWController) (r : PWRequest) : Except PWError PWOptions := do
  let (launch, launchEnv) ← parseLaunchOptions p r
  let contextOpts ← parseContextOptions p r
  let (vnc, launch) ← parseVnc r (addArguments r launch)
  let launch ← parseHeadless r launch
  let resolution ← parseResolution r
  validatePlaywrightEnv (r.queryParams "env")
  let labels ← parsePlaywrightLabels (r.queryParams "label")
  let prefs ← parseFirefoxUserPrefs (r.queryParams "firefoxUserPref")
  return {
    flavor := r.queryParam "flavor"
    name := r.name
    version := r.version
    launchOpts := addProxy p (addPrefs prefs r launch)
    contextOpts := contextOpts
    vncEnabled := vnc || launch.headless == some false
    resolution := resolution
    env := launchEnv ++ r.queryParams "env"
    links := r.queryParams "link"
    hosts := r.queryParams "host"
    networks := r.queryParams "network"
    labels := ⟨labels.entries, labels.nodup⟩ }

/-- The `PWCapabilities` of a session. -/
def PWOptions.capabilities (o : PWOptions) : Capabilities :=
  { platform := [], name := o.name, flavor := o.flavor, version := o.version,
    resolution := o.resolution, envs := o.env, vncEnabled := o.vncEnabled, labels := o.labels,
    links := o.links, hosts := o.hosts, networks := o.networks }

end Selebrow.Controllers
