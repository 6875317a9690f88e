import Selebrow.Catalog.Browsers

/-!
# The container that is requested

What `DockerBrowserManager.createContainer` asks the Docker client for, from the catalog
entry, the options of the manager and the capabilities.  The parsers of ports and of
resource quantities are parameters; the `Must` versions that the source calls panic
where these reject.
-/

namespace Selebrow.Docker

open Catalog

/-- `network.ParsePort`, and `resource.ParseQuantity` with two methods of a quantity. -/
structure Parsers (Port Quantity : Type) where
  parsePort : GoString → Option Port
  parseQuantity : GoString → Option Quantity
  newQuantity : Quantity
  value : Quantity → Int
  nanoValue : Quantity → Int

structure Opts where
  network : GoString
  mapPorts : Bool
  privileged : Bool
  env : GoMap GoString GoString
  /-- `inDocker()` and `runtime.GOOS == "linux"` -/
  inDocker : Bool
  linux : Bool

structure PortBinding where
  hostIP : GoString
  hostPort : GoString
deriving DecidableEq, Repr

structure Config (Port : Type) where
  exposedPorts : GoMap Port Unit
  env : List GoString
  cmd : List GoString
  image : GoString
  labels : GoMap GoString GoString

structure HostConfig (Port : Type) where
  binds : List GoString
  networkMode : GoString
  portBindings : Option (GoMap Port (List PortBinding))
  restartPolicy : GoString
  extraHosts : List GoString
  links : List GoString
  privileged : Bool
  tmpfs : GoMap GoString GoString
  shmSize : Int
  memory : Int
  nanoCPUs : Int

structure Request (Port : Type) where
  config : Config Port
  hostConfig : HostConfig Port

section Env

/-- The variable that an entry of `caps.GetEnvs()` sets; without `=` it is empty. -/
def parseEnv (e : GoString) : GoString × GoString :=
  ((splitAt 61 e).1, (splitAt 61 e).2.getD [])

def enableVNC : GoString := bytes "ENABLE_VNC"
def screenResolution : GoString := bytes "SCREEN_RESOLUTION"

def envOverrides (opts : Opts) (caps : Capabilities) : GoMap GoString GoString :=
  let overrides := caps.envs.foldl (fun m e => m.insert (parseEnv e).1 (parseEnv e).2)
    (GoMap.empty.copy opts.env)
  (overrides.insert enableVNC (Capabilities.formatBool caps.vncEnabled)).insert screenResolution
    caps.resolution

/-- The keys of the map in order, with their values. -/
def formatEnv (combined : GoMap GoString GoString) : List GoString :=
  (Capabilities.sort combined.keys).map fun k => k ++ bytes "=" ++ (combined.lookup k).getD []

def getEnv (opts : Opts) (configEnv : GoMap GoString GoString) (caps : Capabilities) :
    List GoString :=
  formatEnv ((GoMap.empty.copy configEnv).copy (envOverrides opts caps))

end Env

def dockerHost : GoString := bytes "host.docker.internal"

def getHosts (opts : Opts) (hosts : List GoString) : List GoString :=
  (if !opts.inDocker && opts.linux then [dockerHost ++ bytes ":host-gateway"] else []) ++ hosts

def getLabels (cfgLabels : GoMap GoString GoString) (capsLabels : StringMap) :
    GoMap GoString GoString :=
  (GoMap.empty.copy cfgLabels).copy capsLabels.toGoMap

def getTmpfs (tmpfs : List GoString) : GoMap GoString GoString :=
  tmpfs.foldl (fun res t => res.insert (splitAt 58 t).1 ((splitAt 58 t).2.getD [])) .empty

variable {Port Quantity : Type} [DecidableEq Port] (lib : Parsers Port Quantity)

/-- The `Must` version of a parser. -/
def must {α : Type} (parse : GoString → Option α) (s : GoString) : Except Panic α :=
  match parse s with
  | some a => .ok a
  | none => .error (.message s)

def tcpPort (p : Int) : Except Panic Port :=
  must lib.parsePort (bytes (toString p) ++ bytes "/tcp")

def getExposedPorts (ports : List (ContainerPort × Int)) : Except Panic (GoMap Port Unit) :=
  ports.foldlM (fun res e => (tcpPort lib e.2).map fun port => res.insert port ()) .empty

def getPortBindings (ports : List (ContainerPort × Int)) :
    Except Panic (GoMap Port (List PortBinding)) :=
  ports.foldlM (fun res e => (tcpPort lib e.2).map fun port =>
    res.insert port [⟨bytes "0.0.0.0", []⟩]) .empty

def getLimit (limits : GoMap GoString GoString) (name : GoString) : Except Panic Quantity :=
  match limits.lookup name with
  | none => .ok lib.newQuantity
  | some lim => must lib.parseQuantity lim

inductive AllocateError
  | unsupported (browser flavor : GoString)
  | tagMissing (version : GoString)
  | createFailed (err : GoString)
  | pullCancelled (err : CtxErr)
  | pullFailed (image err : GoString)
  | startFailed (err : GoString)
  | inspectFailed (err : GoString)
  | ctx (err : CtxErr)
  | notRunning (status : GoString)
  | networkNotConnected
  | ipUnknown
  | portNotMapped (name : ContainerPort) (p : Int)
  | url (err : GoString)
deriving DecidableEq, Repr

/-- The parts of the request that are parsed from the catalog entry. -/
structure Parsed (Port : Type) where
  exposedPorts : GoMap Port Unit
  portMap : Option (GoMap Port (List PortBinding))
  memory : Int
  nanoCPUs : Int

def getPortMap (opts : Opts) (ports : List (ContainerPort × Int)) :
    Except Panic (Option (GoMap Port (List PortBinding))) :=
  if opts.mapPorts then (getPortBindings lib ports).map some else .ok none

def parse (opts : Opts) (cfg : BrowserImageConfig) (ports : List (ContainerPort × Int)) :
    Except Panic (Parsed Port) := do
  let exposedPorts ← getExposedPorts lib ports
  let portMap ← getPortMap lib opts ports
  let memory ← getLimit lib cfg.limits (bytes "memory")
  let cpu ← getLimit lib cfg.limits (bytes "cpu")
  return ⟨exposedPorts, portMap, lib.value memory, lib.nanoValue cpu⟩

def Parsed.request (parsed : Parsed Port) (opts : Opts) (cfg : BrowserImageConfig)
    (caps : Capabilities) (tag : GoString) : Request Port :=
  { config :=
      { exposedPorts := parsed.exposedPorts,
        env := getEnv opts cfg.env caps,
        cmd := cfg.cmd,
        image := cfg.image ++ bytes ":" ++ tag,
        labels := getLabels cfg.labels caps.labels },
    hostConfig :=
      { binds := cfg.volumes,
        networkMode := opts.network,
        portBindings := parsed.portMap,
        restartPolicy := bytes "no",
        extraHosts := getHosts opts caps.hosts,
        links := caps.links,
        privileged := opts.privileged,
        tmpfs := getTmpfs cfg.tmpfs,
        shmSize := cfg.shmSize,
        memory := parsed.memory,
        nanoCPUs := parsed.nanoCPUs } }

/-- `createContainer` up to its call of `doCreateContainer`. -/
def containerRequest (opts : Opts) (cfg : BrowserImageConfig) (caps : Capabilities) :
    Except Panic (Except AllocateError (Request Port)) :=
  match cfg.getTag caps.version with
  | none => .ok (.error (.tagMissing caps.version))
  | some tag =>
    (parse lib opts cfg (cfg.getPorts caps.vncEnabled)).map fun parsed =>
      .ok (parsed.request opts cfg caps tag)

/-! ## When it returns -/

/-- The parser of ports accepts the port. -/
def PortParses (p : Int) : Prop := (lib.parsePort (bytes (toString p) ++ bytes "/tcp")).isSome = true

/-- The parser of quantities accepts the limit, if there is one. -/
def LimitParses (limits : GoMap GoString GoString) (name : GoString) : Prop :=
  ∀ lim, limits.lookup name = some lim → (lib.parseQuantity lim).isSome = true

/-- A container can be requested for the image, with these ports. -/
structure Parses (cfg : BrowserImageConfig) (ports : List (ContainerPort × Int)) : Prop where
  ports : ∀ e ∈ ports, PortParses lib e.2
  memory : LimitParses lib cfg.limits (bytes "memory")
  cpu : LimitParses lib cfg.limits (bytes "cpu")

variable {lib}

theorem returns_must {α : Type} {parse : GoString → Option α} {s : GoString} :
    Returns (must parse s) ↔ (parse s).isSome = true := by
  rw [Returns, must]
  cases parse s <;> simp

omit [DecidableEq Port] in
theorem returns_getLimit {limits : GoMap GoString GoString} {name : GoString} :
    Returns (getLimit lib limits name) ↔ LimitParses lib limits name := by
  rw [getLimit, LimitParses]
  cases limits.lookup name with
  | none => simp [Returns]
  | some lim => simp [returns_must]

omit [DecidableEq Port] in
/-- A loop over the ports returns when each of them parses. -/
theorem returns_foldlM {β : Type} {f : GoMap Port β → Port → GoMap Port β}
    {ports : List (ContainerPort × Int)} {res : GoMap Port β} :
    Returns (ports.foldlM (fun res e => (tcpPort lib e.2).map fun port => f res port) res) ↔
      ∀ e ∈ ports, PortParses lib e.2 := by
  induction ports generalizing res with
  | nil => simp [Returns, pure, Except.pure]
  | cons e rest ih =>
    rw [List.foldlM_cons, List.forall_mem_cons, PortParses, ← returns_must]
    show Returns (((tcpPort lib e.2).map fun port => f res port).bind _) ↔
      Returns (tcpPort lib e.2) ∧ _
    cases h : tcpPort lib e.2 with
    | error p => simp [Returns, Except.map, Except.bind]
    | ok port =>
      rw [← @ih (f res port)]
      simp [Returns, Except.map, Except.bind]

theorem returns_parse (opts : Opts) {cfg : BrowserImageConfig}
    {ports : List (ContainerPort × Int)} :
    Returns (parse lib opts cfg ports) ↔ Parses lib cfg ports := by
  have hmap : Returns (getPortMap lib opts ports) ↔
      (opts.mapPorts = true → Returns (getPortBindings lib ports)) := by
    rw [getPortMap]
    split
    · rename_i h
      rw [returns_map]
      exact ⟨fun hr _ => hr, fun hr => hr h⟩
    · rename_i h
      exact ⟨fun _ ht => absurd ht h, fun _ => ⟨none, rfl⟩⟩
  have hports : Returns (getExposedPorts lib ports) ↔ ∀ e ∈ ports, PortParses lib e.2 :=
    returns_foldlM
  have hbind : Returns (getPortBindings lib ports) ↔ ∀ e ∈ ports, PortParses lib e.2 :=
    returns_foldlM
  rw [parse]
  simp only [returns_bind, returns_pure, and_true]
  constructor
  · rintro ⟨_, h1, _, _, m, h3, c, h4⟩
    exact ⟨hports.mp ⟨_, h1⟩, returns_getLimit.mp ⟨m, h3⟩, returns_getLimit.mp ⟨c, h4⟩⟩
  · intro h
    obtain ⟨exposedPorts, h1⟩ := hports.mpr h.ports
    obtain ⟨portMap, h2⟩ := hmap.mpr fun _ => hbind.mpr h.ports
    obtain ⟨memory, h3⟩ := returns_getLimit.mpr h.memory
    obtain ⟨cpu, h4⟩ := returns_getLimit.mpr h.cpu
    exact ⟨exposedPorts, h1, portMap, h2, memory, h3, cpu, h4⟩

theorem returns_containerRequest {opts : Opts} {cfg : BrowserImageConfig} {caps : Capabilities} :
    Returns (containerRequest lib opts cfg caps) ↔
      (cfg.getTag caps.version = none ∨ Parses lib cfg (cfg.getPorts caps.vncEnabled)) := by
  rw [containerRequest]
  cases htag : cfg.getTag caps.version with
  | none => exact ⟨fun _ => .inl rfl, fun _ => ⟨_, rfl⟩⟩
  | some tag =>
    simp only [returns_map, returns_parse, reduceCtorEq, false_or]

end Selebrow.Docker
