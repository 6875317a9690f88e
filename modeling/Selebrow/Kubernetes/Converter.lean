import Selebrow.Catalog.Browsers
import Selebrow.Json

/-!
# Rendering pods

`TemplatedBrowserConverter.ToPod` for the template of the repository.  The values of the
chart are decoded once, and every call gets a copy of the top-level map only.  What the
template does to a map below is done to the map of the converter, so a call gives the
values back as it leaves them.

The functions the template calls are parameters, as are the YAML decoders.
-/

namespace Selebrow.Kubernetes.Converter

open Catalog

/-- A `map[string]interface{}`. -/
abbrev Values := GoMap GoString Json

/-- The functions of the template, with `quote` and `toYaml`, the printing of a value,
and `mergeOverwrite`: the entries that its first argument has when it returns. -/
structure Funcs where
  quote : Json → GoString
  toYaml : Json → Except GoString GoString
  nindent : Nat → GoString → GoString
  print : Json → GoString
  mergeOverwrite : Values → Values → Values

structure BrowserContext where
  image : GoString
  cmd : List GoString
  ports : Values
  path : GoString
  env : Values
  limits : Values

structure OptionsContext where
  env : Values
  vncEnabled : Bool
  resolution : GoString
  labels : Values
  hosts : Values

structure CIContext where
  jobID : GoString
  projectNamespace : GoString
  projectName : GoString

structure TemplateContext where
  browser : BrowserContext
  options : OptionsContext
  values : Values
  ciEnvironment : CIContext

/-- A decoded pod: its labels, and the rest. -/
structure Pod (Rest : Type) where
  labels : Option (GoMap GoString GoString)
  rest : Rest

inductive RenderError
  | missingKey (key : GoString)
  | wrongType (field : GoString)
  | toYaml (err : GoString)
deriving DecidableEq, Repr

inductive ToPodError
  | tagMissing (version : GoString)
  | render (err : RenderError)
  | deserialize (err : GoString)
deriving DecidableEq, Repr

structure TemplatedBrowserConverter (Rest : Type) where
  funcs : Funcs
  /-- `yamlutil.NewYAMLOrJSONDecoder(..).Decode` into a pod -/
  decode : GoString → Except GoString (Pod Rest)
  ciEnvironment : CIContext
  lineage : GoString

/-! ## The context -/

def strings (m : GoMap GoString GoString) : Values := m.map .string

def number (n : Int) : Json := .number (bytes (toString n))

def parseEnv (env : List GoString) : Values :=
  env.foldl (fun res e => res.insert (splitAt 61 e).1 (.string ((splitAt 61 e).2.getD []))) .empty

def getLabels (labels : StringMap) : Values := strings labels.toGoMap

/-- The names by address; an entry without an address is skipped. -/
def getHosts (hosts : List GoString) : Values :=
  let ipMap : GoMap GoString (List GoString) := hosts.foldl (fun m h =>
    match (splitAt 58 h).2 with
    | none => m
    | some ip => m.insert ip ((m.lookup ip).getD [] ++ [(splitAt 58 h).1])) .empty
  ipMap.map fun names => .array (names.map .string)

def buildOptionsContext (caps : Capabilities) : OptionsContext where
  env := ((parseEnv caps.envs).insert (bytes "ENABLE_VNC")
    (.string (Capabilities.formatBool caps.vncEnabled))).insert (bytes "SCREEN_RESOLUTION")
      (.string caps.resolution)
  vncEnabled := caps.vncEnabled
  resolution := caps.resolution
  labels := getLabels caps.labels
  hosts := getHosts caps.hosts

def buildBrowserContext (cfg : BrowserImageConfig) (version : GoString) (vncEnabled : Bool) :
    Except ToPodError BrowserContext :=
  match cfg.getTag version with
  | none => .error (.tagMissing version)
  | some tag => .ok
    { image := cfg.image ++ bytes ":" ++ tag,
      cmd := cfg.cmd,
      ports := GoMap.ofList ((cfg.getPorts vncEnabled).map fun e => (e.1, number e.2)),
      path := cfg.path,
      env := strings cfg.env,
      limits := strings cfg.limits }

/-- `vals` are the values of the converter; the context has them under another top-level
map. -/
def buildTemplateContext {Rest : Type} (t : TemplatedBrowserConverter Rest) (vals : Values)
    (cfg : BrowserImageConfig) (caps : Capabilities) : Except ToPodError TemplateContext :=
  (buildBrowserContext cfg caps.version caps.vncEnabled).map fun browser =>
    { browser := browser,
      options := buildOptionsContext caps,
      values := vals,
      ciEnvironment := t.ciEnvironment }

/-! ## The template -/

section Template

variable (f : Funcs)

/-- A number is zero when it has no digit but zeros; infinities and not-a-numbers have
letters. -/
def isZero (literal : GoString) : Bool := literal.all fun b => b = 48 || b = 46 || b = 45

/-- `template.IsTrue` -/
def isTrue : Json → Bool
  | .null => false
  | .bool b => b
  | .number literal => !isZero literal
  | .string s => s != []
  | .array l => !l.isEmpty
  | .object l => !l.isEmpty

/-- The entries of a map in the order in which `range` visits them. -/
def inKeyOrder {ν : Type} (m : GoMap GoString ν) : List (GoString × ν) :=
  (Capabilities.sort m.keys).filterMap fun k => (m.lookup k).map fun v => (k, v)

/-- `.key` of a map, with `missingkey=error` -/
def field (m : Values) (key : GoString) : Except RenderError Json :=
  match m.lookup key with
  | none => .error (.missingKey key)
  | some v => .ok v

/-- A value where a map is needed. -/
def asMap (name : GoString) : Json → Except RenderError Values
  | .object l => .ok (GoMap.ofList l)
  | _ => .error (.wrongType name)

def yaml (indent : Nat) (v : Json) : Except RenderError GoString :=
  match f.toYaml v with
  | .error err => .error (.toYaml err)
  | .ok text => .ok (f.nindent indent text)

/-- `with` -/
def ifTrue (v : Json) (body : Except RenderError GoString) : Except RenderError GoString :=
  if isTrue v then body else .ok []

/-- A block for one of the values that writes a heading and the value as YAML. -/
def yamlBlock (vals : Values) (key : String) (heading : String) (indent : Nat) :
    Except RenderError GoString := do
  let v ← field vals (bytes key)
  ifTrue v ((yaml f indent v).map (bytes heading ++ ·))

/-- The same with the value printed. -/
def printBlock (vals : Values) (key : String) (heading : String) : Except RenderError GoString := do
  let v ← field vals (bytes key)
  ifTrue v (.ok (bytes heading ++ f.print v))

def labelsBlock (labels : Values) : GoString :=
  if labels.entries = [] then []
  else bytes "\n  labels:" ++ (inKeyOrder labels).flatMap fun e =>
    bytes "\n    " ++ e.1 ++ bytes ": " ++ f.quote e.2

def commandBlock (browser : BrowserContext) : Except RenderError GoString :=
  if (browser.ports.lookup browserPort).isSome ∧ browser.cmd ≠ [] then
    (yaml f 4 (.array (browser.cmd.map .string))).map (bytes "\n    command: " ++ ·)
  else .ok []

def envBlock (env : Values) : GoString :=
  bytes "\n    env:" ++ (inKeyOrder env).flatMap fun e =>
    bytes "\n    - name: " ++ e.1 ++ bytes "\n      value: " ++ f.quote e.2

def portsBlock (ports : Values) : GoString :=
  bytes "\n    ports:" ++ (inKeyOrder ports).flatMap fun e =>
    bytes "\n    - containerPort: " ++ f.print e.2 ++ bytes "\n      name: " ++
      f.quote (.string e.1) ++ bytes "\n      protocol: TCP"

def limitsBlock (limits : Values) : Except RenderError GoString :=
  if limits.entries = [] then .ok []
  else do
    let limitsYaml ← yaml f 8 (.object limits.entries)
    return bytes "\n    resources:\n      limits: " ++ limitsYaml ++
      bytes "\n      requests: " ++ limitsYaml

def hostsBlock (hosts : Values) : GoString :=
  if hosts.entries = [] then []
  else bytes "\n  hostAliases:" ++ (inKeyOrder hosts).flatMap fun e =>
    bytes "\n  - ip: " ++ f.quote (.string e.1) ++ bytes "\n    hostnames:" ++
      match e.2 with
      | .array l => l.flatMap fun host => bytes "\n    - " ++ f.quote host
      | _ => []

/-- `.Values.browser.env` -/
def valuesEnv (vals : Values) : Except RenderError Values := do
  let browser ← asMap (bytes "browser") (← field vals (bytes "browser"))
  asMap (bytes "env") (← field browser (bytes "env"))

/-- The template up to the labels. -/
def head : GoString := bytes "apiVersion: v1\nkind: Pod\nmetadata:\n  generateName: browser-"

/-- The template from behind the labels on. -/
def body (ctx : TemplateContext) : Except RenderError GoString := do
  let annotations ← yamlBlock f ctx.values "annotations" "\n  annotations: " 4
  let scheduler ← printBlock f ctx.values "scheduler" "\n  schedulerName: "
  let command ← commandBlock f ctx.browser
  let pullPolicy ← printBlock f ctx.values "imagePullPolicy" "\n    imagePullPolicy: "
  let env := f.mergeOverwrite (f.mergeOverwrite ctx.browser.env ctx.options.env)
    (← valuesEnv ctx.values)
  let limits ← limitsBlock f ctx.browser.limits
  let searches ← yamlBlock f ctx.values "searches" "\n    searches: " 4
  let pullSecrets ← yamlBlock f ctx.values "imagePullSecrets" "\n  imagePullSecrets: " 2
  let priorityClass ← printBlock f ctx.values "priorityClassName" "\n  priorityClassName: "
  let nodeSelector ← yamlBlock f ctx.values "nodeSelector" "\n  nodeSelector: " 4
  let affinity ← yamlBlock f ctx.values "affinity" "\n  affinity: " 4
  let tolerations ← yamlBlock f ctx.values "tolerations" "\n  tolerations: " 4
  return annotations ++ bytes "\nspec:" ++ scheduler ++
    bytes "\n  containers:\n  - name: browser\n    image: " ++ ctx.browser.image ++ command ++
    pullPolicy ++ envBlock f env ++ portsBlock f ctx.browser.ports ++ limits ++
    bytes "\n    volumeMounts:\n    - mountPath: /tmp\n      name: tmp\n  dnsConfig:\n    options:" ++
    bytes "\n    - name: ndots\n      value: \"2\"" ++ hostsBlock f ctx.options.hosts ++ searches ++
    bytes "\n  volumes:\n  - emptyDir: \x7b\x7d\n    name: tmp" ++ pullSecrets ++ priorityClass ++
    nodeSelector ++ affinity ++ tolerations ++
    bytes "\n  automountServiceAccountToken: false\n  terminationGracePeriodSeconds: 0\n"

/-- The labels that the template ranges over, and that the values have from then on. -/
def mergeLabels (ctx : TemplateContext) : Except RenderError Values := do
  let labels ← asMap (bytes "labels") (← field ctx.values (bytes "labels"))
  return f.mergeOverwrite labels ctx.options.labels

/-- `t.tmpl.Execute`: the manifest, and the values afterwards.  The labels are merged
before anything else can fail. -/
def execute (ctx : TemplateContext) : Except RenderError GoString × Values :=
  match mergeLabels f ctx with
  | .error err => (.error err, ctx.values)
  | .ok labels =>
    let values := ctx.values.insert (bytes "labels") (.object labels.entries)
    ((body f { ctx with values := values }).map (head ++ labelsBlock f labels ++ ·), values)

end Template

/-! ## The conversion -/

def lineageLabel : GoString := bytes "lineage"

variable {Rest : Type}

def finishPod (t : TemplatedBrowserConverter Rest) (manifest : Except RenderError GoString) :
    Except ToPodError (Pod Rest) :=
  match manifest with
  | .error err => .error (.render err)
  | .ok text =>
    match t.decode text with
    | .error err => .error (.deserialize err)
    | .ok pod => .ok
      { pod with labels := some ((pod.labels.getD .empty).insert lineageLabel t.lineage) }

/-- The pod, and the values of the converter afterwards. -/
def toPod (t : TemplatedBrowserConverter Rest) (vals : Values) (cfg : BrowserImageConfig)
    (caps : Capabilities) : Except ToPodError (Pod Rest) × Values :=
  match buildTemplateContext t vals cfg caps with
  | .error err => (.error err, vals)
  | .ok ctx => (finishPod t (execute t.funcs ctx).1, (execute t.funcs ctx).2)

end Selebrow.Kubernetes.Converter
