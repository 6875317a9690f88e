import Selebrow.Docker.Valid
import Selebrow.Transition.Machine

/-!
# Allocating a container

`DockerBrowserManager.Allocate` as a machine.  The actions are the answers of the Docker
client, the firing of the backoff timer and the end of the request's context.  The state
records which containers the client has created and for which ones a removal was
requested.

A pull outlives the request: when the context ends first, nothing waits for the pull any
more, and its result is of no consequence.
-/

namespace Selebrow.Docker

open Catalog

structure EndpointSettings where
  /-- `netip.Addr`, `none` when it is not valid -/
  ipAddress : Option GoString

structure NetworkSettings (Port : Type) where
  networks : GoMap GoString (Option EndpointSettings)
  ports : GoMap Port (List PortBinding)

structure ContainerState where
  running : Bool
  status : GoString

structure InspectResponse (Port : Type) where
  id : GoString
  state : Option ContainerState
  networkSettings : Option (NetworkSettings Port)

structure DockerBrowser (URL : Type) where
  forwardedHost : GoString
  u : URL
  host : GoString
  ports : GoMap ContainerPort Int
  /-- the container that `close` removes -/
  container : GoString

structure DockerBrowserManager (Port Quantity URL : Type) where
  cat : BrowserCatalog
  opts : Opts
  host : GoString
  lib : Parsers Port Quantity
  /-- `url.Parse` -/
  parseURL : GoString → Except GoString URL

/-! ## The messages -/

def ctxText (err : CtxErr) : GoString := bytes err.text

/-- `errors.Wrap` -/
def wrap (cause : GoString) (message : String) : GoString := bytes message ++ bytes ": " ++ cause

def AllocateError.text : AllocateError → GoString
  | .unsupported browser flavor =>
    bytes "browser " ++ browser ++ bytes " image flavor " ++ flavor ++ bytes " is not supported"
  | .tagMissing version => bytes "image tag is missing for version " ++ version
  | .createFailed err => wrap err "failed to create container"
  | .pullCancelled err =>
    wrap (wrap (ctxText err) "cancelled while image pull is still in progress")
      "failed to create container"
  | .pullFailed image err =>
    wrap (bytes "failed to pull image " ++ image ++ bytes ": " ++ err) "failed to create container"
  | .startFailed err => wrap err "failed to start container"
  | .inspectFailed err => wrap err "failed to inspect started container"
  | .ctx err => ctxText err
  | .notRunning status => bytes "container state is " ++ status
  | .networkNotConnected => bytes "container is not connected to configured network"
  | .ipUnknown => bytes "couldn't detect container ip address within configured network"
  | .portNotMapped name p =>
    bytes "failed to get container mapped port for " ++ name ++ bytes " port (" ++
      bytes (toString p) ++ bytes ")"
  | .url err => wrap err "failed to construct webdriver URL"

/-! ## The browser of a running container -/

section Browser

variable {Port Quantity URL : Type} [DecidableEq Port]

def isDigit (b : UInt8) : Bool := 48 ≤ b && b ≤ 57

/-- The digits after the sign, if there is one. -/
def unsigned (s : GoString) : GoString :=
  match s with
  | [] => []
  | b :: rest => if b = 43 ∨ b = 45 then rest else b :: rest

def digitsValue (digits : GoString) : Nat := digits.foldl (fun n b => 10 * n + (b.toNat - 48)) 0

/-- `strconv.Atoi`, `none` on an error. -/
def atoi (s : GoString) : Option Int :=
  let v : Int := if s.head? = some 45 then -digitsValue (unsigned s) else digitsValue (unsigned s)
  if unsigned s = [] ∨ (unsigned s).all isDigit = false then none
  else if v < -2 ^ 63 ∨ 2 ^ 63 ≤ v then none
  else some v

def allPortsMapped (ports : GoMap Port (List PortBinding)) : Bool :=
  !ports.entries.isEmpty && ports.entries.all fun e =>
    match e.2 with
    | [] => false
    | b :: _ => b.hostPort != []

def getMappedPort (lib : Parsers Port Quantity) (ports : GoMap Port (List PortBinding)) (p : Int) :
    Except Panic (Option Int) :=
  (tcpPort lib p).map fun port =>
    match ports.lookup port with
    | none | some [] => none
    | some (b :: _) => atoi (splitAt 47 b.hostPort).1

def getNetwork (opts : Opts) (networks : GoMap GoString (Option EndpointSettings)) :
    Option EndpointSettings :=
  let name := if opts.network = [] then (Capabilities.sort networks.keys).headD [] else opts.network
  (networks.lookup name).join

/-- The loop over the ports in mapping mode: the mapped ports by name. -/
def mapPorts (lib : Parsers Port Quantity) (mapped : GoMap Port (List PortBinding)) :
    List (ContainerPort × Int) → GoMap ContainerPort Int →
      Except Panic (Except AllocateError (GoMap ContainerPort Int))
  | [], ports => .ok (.ok ports)
  | (name, p) :: rest, ports => do
    match ← getMappedPort lib mapped p with
    | none | some 0 => return .error (.portNotMapped name p)
    | some mappedPort => mapPorts lib mapped rest (ports.insert name mappedPort)

def cloneOf (ports : List (ContainerPort × Int)) : GoMap ContainerPort Int :=
  ports.foldl (fun m e => m.insert e.1 e.2) .empty

def hostPort (host : GoString) (p : Int) : GoString := host ++ bytes ":" ++ bytes (toString p)

/-- The rest of `createBrowser`, once the host and the ports of the browser are known. -/
def browserAt (m : DockerBrowserManager Port Quantity URL) (cfg : BrowserImageConfig)
    (id host forwardedHost : GoString) (ports : GoMap ContainerPort Int) :
    Except AllocateError (DockerBrowser URL) :=
  match m.parseURL
      (bytes "http://" ++ hostPort forwardedHost ((ports.lookup browserPort).getD 0) ++ cfg.path) with
  | .error err => .error (.url err)
  | .ok u => .ok ⟨forwardedHost, u, host, ports.delete browserPort, id⟩

def createBrowser (m : DockerBrowserManager Port Quantity URL) (cfg : BrowserImageConfig)
    (vncEnabled : Bool) (info : InspectResponse Port) :
    Except Panic (Except AllocateError (DockerBrowser URL)) :=
  match info.networkSettings with
  | none => .ok (.error .networkNotConnected)
  | some settings =>
    if settings.networks.entries = [] then .ok (.error .networkNotConnected)
    else
      match getNetwork m.opts settings.networks with
      | none => .ok (.error .networkNotConnected)
      | some nw =>
        match nw.ipAddress with
        | none | some [] => .ok (.error .ipUnknown)
        | some containerIP =>
          let host := hostPort containerIP ((cfg.ports.lookup browserPort).getD 0)
          if m.opts.mapPorts then
            (mapPorts m.lib settings.ports (cfg.getPorts vncEnabled) .empty).map fun
              | .error err => .error err
              | .ok ports => browserAt m cfg info.id host m.host ports
          else
            .ok (browserAt m cfg info.id host containerIP (cloneOf (cfg.getPorts vncEnabled)))

end Browser

/-! ## The machine -/

inductive CreateError
  | notFound (text : GoString)
  | other (text : GoString)

def CreateError.text : CreateError → GoString
  | .notFound text => text
  | .other text => text

inductive Phase (Port URL : Type)
  | called
  | creating (cfg : BrowserImageConfig) (req : Request Port)
  | pulling (cfg : BrowserImageConfig) (req : Request Port)
  | recreating (cfg : BrowserImageConfig) (req : Request Port)
  | starting (cfg : BrowserImageConfig) (id : GoString)
  | inspecting (cfg : BrowserImageConfig) (id : GoString)
  | waitPorts (cfg : BrowserImageConfig) (id : GoString)
  | returned (result : Except AllocateError (DockerBrowser URL))
  | panicked (p : Panic)

structure Allocation (Port URL : Type) where
  phase : Phase Port URL
  /-- The containers that `ContainerCreate` has created. -/
  created : List GoString
  /-- The containers that `ContainerRemove` was called for. -/
  removed : List GoString

inductive Event (Port : Type)
  | lookup
  | create (r : Except CreateError GoString)
  | pull (r : Except GoString Unit)
  | ctxDone (err : CtxErr)
  | start (r : Except GoString Unit)
  | inspect (r : Except GoString (InspectResponse Port))
  | backoff

section Machine

variable {Port Quantity URL : Type} [DecidableEq Port]

namespace Allocation

variable (s : Allocation Port URL)

def goTo (phase : Phase Port URL) : Allocation Port URL := { s with phase := phase }

def fail (err : AllocateError) : Allocation Port URL := s.goTo (.returned (.error err))

def removeContainer (id : GoString) : Allocation Port URL := { s with removed := s.removed ++ [id] }

/-- The error exits of `Allocate` behind `createContainer`. -/
def abandon (id : GoString) (err : AllocateError) : Allocation Port URL :=
  (s.removeContainer id).fail err

/-- `createContainer` has returned the id. -/
def createdAs (cfg : BrowserImageConfig) (id : GoString) : Allocation Port URL :=
  { s with phase := .starting cfg id, created := s.created ++ [id] }

end Allocation

/-- `Close` of the browser that was returned. -/
def DockerBrowser.close (b : DockerBrowser URL) (s : Allocation Port URL) : Allocation Port URL :=
  s.removeContainer b.container

/-- `Allocate` up to the first call of the client. -/
def lookup (m : DockerBrowserManager Port Quantity URL) (protocol : GoString) (caps : Capabilities)
    (s : Allocation Port URL) : Allocation Port URL :=
  match m.cat.lookupBrowserImage protocol caps.name caps.flavor with
  | .error p => s.goTo (.panicked p)
  | .ok none => s.fail (.unsupported caps.name caps.flavor)
  | .ok (some cfg) =>
    match containerRequest m.lib m.opts cfg caps with
    | .error p => s.goTo (.panicked p)
    | .ok (.error err) => s.fail err
    | .ok (.ok req) => s.goTo (.creating cfg req)

/-- `Allocate` from the end of the loop in `startContainer`. -/
def finish (m : DockerBrowserManager Port Quantity URL) (caps : Capabilities)
    (cfg : BrowserImageConfig) (id : GoString) (info : InspectResponse Port)
    (s : Allocation Port URL) : Allocation Port URL :=
  match createBrowser m cfg caps.vncEnabled info with
  | .error p => s.goTo (.panicked p)
  | .ok (.error err) => s.abandon id err
  | .ok (.ok b) => s.goTo (.returned (.ok b))

/-- The body of the loop in `startContainer` for one answer of the client. -/
def inspected (m : DockerBrowserManager Port Quantity URL) (caps : Capabilities)
    (cfg : BrowserImageConfig) (id : GoString) (info : InspectResponse Port)
    (s : Allocation Port URL) : Allocation Port URL :=
  let checkState : Allocation Port URL :=
    match info.state with
    | none => s.goTo (.panicked .nilPointer)
    | some state =>
      if state.running then finish m caps cfg id info s else s.abandon id (.notRunning state.status)
  if m.opts.mapPorts then
    match info.networkSettings with
    | none => s.goTo (.panicked .nilPointer)
    | some settings =>
      if allPortsMapped settings.ports then checkState else s.goTo (.waitPorts cfg id)
  else checkState

def step (m : DockerBrowserManager Port Quantity URL) (protocol : GoString) (caps : Capabilities)
    (s : Allocation Port URL) (e : Event Port) : Option (Allocation Port URL) :=
  match s.phase, e with
  | .called, .lookup => some (lookup m protocol caps s)
  | .creating cfg _, .create (.ok id) => some (s.createdAs cfg id)
  | .creating cfg req, .create (.error (.notFound _)) => some (s.goTo (.pulling cfg req))
  | .creating _ _, .create (.error (.other err)) => some (s.fail (.createFailed err))
  | .pulling cfg req, .pull (.ok _) => some (s.goTo (.recreating cfg req))
  | .pulling _ req, .pull (.error err) => some (s.fail (.pullFailed req.config.image err))
  | .pulling _ _, .ctxDone err => some (s.fail (.pullCancelled err))
  | .recreating cfg _, .create (.ok id) => some (s.createdAs cfg id)
  | .recreating _ _, .create (.error err) => some (s.fail (.createFailed err.text))
  | .starting cfg id, .start (.ok _) => some (s.goTo (.inspecting cfg id))
  | .starting _ id, .start (.error err) => some (s.abandon id (.startFailed err))
  | .inspecting cfg id, .inspect (.ok info) => some (inspected m caps cfg id info s)
  | .inspecting _ id, .inspect (.error err) => some (s.abandon id (.inspectFailed err))
  | .waitPorts cfg id, .backoff => some (s.goTo (.inspecting cfg id))
  | .waitPorts _ id, .ctxDone err => some (s.abandon id (.ctx err))
  | _, _ => none

def allocate (m : DockerBrowserManager Port Quantity URL) (protocol : GoString)
    (caps : Capabilities) : Transition.Machine (Allocation Port URL) (Event Port) where
  init := ⟨.called, [], []⟩
  step := step m protocol caps

end Machine

/-! ## What is left behind -/

section Invariant

variable {Port Quantity URL : Type} [DecidableEq Port]
  {m : DockerBrowserManager Port Quantity URL} {protocol : GoString} {caps : Capabilities}
  {s s' : Allocation Port URL} {cfg : BrowserImageConfig} {id : GoString}

/-- The answer to an inspection is about the container that was inspected, with its state
and its network settings. -/
def Carries (s : Allocation Port URL) : Event Port → Prop
  | .inspect (.ok info) =>
    (∀ cfg id, s.phase = .inspecting cfg id → info.id = id) ∧ info.state ≠ none ∧
      info.networkSettings ≠ none
  | _ => True

def PortsParse (m : DockerBrowserManager Port Quantity URL) (caps : Capabilities)
    (cfg : BrowserImageConfig) : Prop :=
  ∀ e ∈ cfg.getPorts caps.vncEnabled, PortParses m.lib e.2

/-- Up to the creation there is nothing to remove.  From then on there is one container,
and its ports are known to parse. -/
def Inv (m : DockerBrowserManager Port Quantity URL) (caps : Capabilities)
    (s : Allocation Port URL) : Prop :=
  match s.phase with
  | .called | .panicked _ => s.created = [] ∧ s.removed = []
  | .creating cfg _ | .pulling cfg _ | .recreating cfg _ =>
    (s.created = [] ∧ s.removed = []) ∧ PortsParse m caps cfg
  | .starting cfg id | .inspecting cfg id | .waitPorts cfg id =>
    (s.created = [id] ∧ s.removed = []) ∧ PortsParse m caps cfg
  | .returned (.error _) => s.removed = s.created ∧ s.created.length ≤ 1
  | .returned (.ok b) => s.created = [b.container] ∧ s.removed = []

theorem getMappedPort_returns {lib : Parsers Port Quantity}
    (ports : GoMap Port (List PortBinding)) {p : Int} (h : PortParses lib p) :
    Returns (getMappedPort lib ports p) := by
  rw [getMappedPort, returns_map, tcpPort, returns_must]
  exact h

/-- The ports are those that were exposed, so their second parsing does not fail. -/
theorem mapPorts_returns {lib : Parsers Port Quantity} {mapped : GoMap Port (List PortBinding)}
    {ports : List (ContainerPort × Int)} {acc : GoMap ContainerPort Int}
    (h : ∀ e ∈ ports, PortParses lib e.2) : Returns (mapPorts lib mapped ports acc) := by
  induction ports generalizing acc with
  | nil => exact ⟨_, rfl⟩
  | cons e rest ih =>
    rw [List.forall_mem_cons] at h
    obtain ⟨r, hr⟩ := getMappedPort_returns mapped h.1
    rw [mapPorts, returns_bind]
    apply Exists.intro r
    constructor
    · exact hr
    · split
      · exact ⟨_, rfl⟩
      · exact ⟨_, rfl⟩
      · exact ih h.2

omit [DecidableEq Port] in
theorem container_browserAt {host forwardedHost : GoString} {ports : GoMap ContainerPort Int}
    {b : DockerBrowser URL} (h : browserAt m cfg id host forwardedHost ports = .ok b) :
    b.container = id := by
  rw [browserAt] at h
  split at h
  · contradiction
  · cases h
    rfl

theorem createBrowser_returns (info : InspectResponse Port) (h : PortsParse m caps cfg) :
    Returns (createBrowser m cfg caps.vncEnabled info) := by
  rw [createBrowser]
  split
  · exact ⟨_, rfl⟩
  · split
    · exact ⟨_, rfl⟩
    · split
      · exact ⟨_, rfl⟩
      · split
        · exact ⟨_, rfl⟩
        · exact ⟨_, rfl⟩
        · split
          · exact returns_map.mpr (mapPorts_returns h)
          · exact ⟨_, rfl⟩

/-- Close removes the container that was inspected. -/
theorem container_createBrowser {info : InspectResponse Port} {b : DockerBrowser URL}
    (h : createBrowser m cfg caps.vncEnabled info = .ok (.ok b)) : b.container = info.id := by
  rw [createBrowser] at h
  split at h
  · cases h
  · rename_i settings _
    split at h
    · cases h
    · split at h
      · cases h
      · split at h
        · cases h
        · cases h
        · split at h
          · cases hp : mapPorts m.lib settings.ports (cfg.getPorts caps.vncEnabled) .empty with
            | error p =>
              rw [hp] at h
              contradiction
            | ok r =>
              rw [hp] at h
              cases r with
              | error err => cases h
              | ok ports => exact container_browserAt (Except.ok.inj h)
          · exact container_browserAt (Except.ok.inj h)

theorem portsParse_of_containerRequest {req : Request Port}
    (h : containerRequest m.lib m.opts cfg caps = .ok (.ok req)) : PortsParse m caps cfg := by
  have hreturns : Returns (containerRequest m.lib m.opts cfg caps) := ⟨_, h⟩
  rcases returns_containerRequest.mp hreturns with htag | hparses
  · rw [containerRequest, htag] at h
    cases h
  · exact hparses.ports

theorem inv_lookup (hs : s.created = [] ∧ s.removed = []) : Inv m caps (lookup m protocol caps s) := by
  rw [lookup]
  split
  · exact hs
  · show s.removed = s.created ∧ s.created.length ≤ 1
    rw [hs.1, hs.2]
    simp
  · split
    · exact hs
    · show s.removed = s.created ∧ s.created.length ≤ 1
      rw [hs.1, hs.2]
      simp
    · rename_i req hreq
      exact ⟨hs, portsParse_of_containerRequest hreq⟩

omit [DecidableEq Port] in
theorem inv_fail {err : AllocateError} (hs : s.created = [] ∧ s.removed = []) :
    Inv m caps (s.fail err) := by
  show s.removed = s.created ∧ s.created.length ≤ 1
  rw [hs.1, hs.2]
  simp

omit [DecidableEq Port] in
theorem inv_abandon {err : AllocateError} (hs : s.created = [id] ∧ s.removed = []) :
    Inv m caps (s.abandon id err) := by
  show s.removed ++ [id] = s.created ∧ s.created.length ≤ 1
  rw [hs.1, hs.2]
  simp

omit [DecidableEq Port] in
theorem inv_createdAs (hs : s.created = [] ∧ s.removed = []) (hports : PortsParse m caps cfg) :
    Inv m caps (s.createdAs cfg id) := by
  show (s.created ++ [id] = [id] ∧ s.removed = []) ∧ PortsParse m caps cfg
  rw [hs.1, hs.2]
  exact ⟨⟨rfl, rfl⟩, hports⟩

theorem inv_finish {info : InspectResponse Port} (hs : s.created = [id] ∧ s.removed = [])
    (hports : PortsParse m caps cfg) (hid : info.id = id) :
    Inv m caps (finish m caps cfg id info s) := by
  rw [finish]
  split
  · rename_i p hp
    obtain ⟨r, hr⟩ := createBrowser_returns info hports
    rw [hr] at hp
    contradiction
  · exact inv_abandon hs
  · rename_i b hb
    show s.created = [b.container] ∧ s.removed = []
    rw [container_createBrowser hb, hid]
    exact hs

theorem inv_inspected {info : InspectResponse Port} (hs : s.created = [id] ∧ s.removed = [])
    (hports : PortsParse m caps cfg) (hid : info.id = id) (hstate : info.state ≠ none)
    (hsettings : info.networkSettings ≠ none) : Inv m caps (inspected m caps cfg id info s) := by
  obtain ⟨state, hstate⟩ := Option.ne_none_iff_exists'.mp hstate
  obtain ⟨settings, hsettings⟩ := Option.ne_none_iff_exists'.mp hsettings
  have hcheck : Inv m caps (if state.running then finish m caps cfg id info s
      else s.abandon id (.notRunning state.status)) := by
    split
    · exact inv_finish hs hports hid
    · exact inv_abandon hs
  simp only [inspected, hstate, hsettings]
  split
  · split
    · exact hcheck
    · exact ⟨hs, hports⟩
  · exact hcheck

theorem inv_step {e : Event Port} (h : Inv m caps s) (hc : Carries s e)
    (hstep : step m protocol caps s e = some s') : Inv m caps s' := by
  unfold step at hstep
  unfold Inv at h
  split at hstep
  case h_16 => contradiction
  all_goals
    rename_i hp
    rw [hp] at h
    cases hstep
  · exact inv_lookup h
  · exact inv_createdAs h.1 h.2
  · exact h
  · exact inv_fail h.1
  · exact h
  · exact inv_fail h.1
  · exact inv_fail h.1
  · exact inv_createdAs h.1 h.2
  · exact inv_fail h.1
  · exact h
  · exact inv_abandon h.1
  · exact inv_inspected h.1 h.2 (hc.1 _ _ hp) hc.2.1 hc.2.2
  · exact inv_abandon h.1
  · exact h
  · exact inv_abandon h.1

/-- Removals are requested for exactly what was created when an error is returned, and for
nothing when a browser is, whose `Close` then removes its container.  A panic leaves no
container behind. -/
structure AllOrNothing (s : Allocation Port URL) : Prop where
  removed_iff : ∀ r, s.phase = .returned r → (s.removed = s.created ↔ ∃ err, r = .error err)
  removed_once : ∀ err, s.phase = .returned (.error err) →
    ∀ id ∈ s.created, s.removed.count id = 1
  close : ∀ b, s.phase = .returned (.ok b) →
    ∃ id, s.created = [id] ∧ s.removed = [] ∧ (b.close s).removed = [id]
  panicked : ∀ p, s.phase = .panicked p → s.created = [] ∧ s.removed = []

omit [DecidableEq Port] in
theorem Inv.allOrNothing (h : Inv m caps s) : AllOrNothing s := by
  unfold Inv at h
  constructor
  · intro r hr
    rw [hr] at h
    cases r with
    | error err => exact ⟨fun _ => ⟨err, rfl⟩, fun _ => h.1⟩
    | ok b =>
      constructor
      · intro heq
        rw [h.1, h.2] at heq
        contradiction
      · rintro ⟨err, herr⟩
        contradiction
  · intro err hr id hid
    rw [hr] at h
    rw [h.1]
    have hpos : 0 < s.created.count id := List.count_pos_iff.mpr hid
    have hle : s.created.count id ≤ s.created.length := List.count_le_length
    have hlen : s.created.length ≤ 1 := h.2
    omega
  · intro b hb
    rw [hb] at h
    apply Exists.intro b.container
    constructor
    · exact h.1
    · constructor
      · exact h.2
      · show s.removed ++ [b.container] = [b.container]
        rw [h.2]
        rfl
  · intro p hp
    rw [hp] at h
    exact h

theorem all_or_nothing (h : (allocate m protocol caps).Reach Carries s) : AllOrNothing s := by
  have hinv : Inv m caps s := by
    apply h.invariant
    · exact ⟨rfl, rfl⟩
    · intro t e t' ht hc hstep
      exact inv_step ht hc hstep
  exact hinv.allOrNothing

end Invariant

/-! ## An allocation that is cancelled -/

/-- A manager in mapping mode, whose catalog has one entry. -/
def sampleManager : DockerBrowserManager GoString Int GoString where
  cat := documentOf (some (imageWithMemory (bytes "1Gi")))
  opts := ⟨bytes "selebrow", true, false, .empty, false, true⟩
  host := bytes "127.0.0.1"
  lib := sampleParsers
  parseURL := .ok

/-- A running container whose ports are not mapped yet. -/
def unmapped : InspectResponse GoString where
  id := bytes "c1"
  state := some ⟨true, bytes "running"⟩
  networkSettings := some
    ⟨GoMap.empty.insert (bytes "selebrow") (some ⟨some (bytes "172.18.0.2")⟩), .empty⟩

/-- The image is pulled first; the request ends while the ports are waited for. -/
def cancelledRun : List (Event GoString) :=
  [.lookup, .create (.error (.notFound (bytes "No such image"))), .pull (.ok ()),
    .create (.ok (bytes "c1")), .start (.ok ()), .inspect (.ok unmapped), .backoff,
    .inspect (.ok unmapped), .ctxDone .canceled]

theorem all_or_nothing_cancelled :
    AllOrNothing (⟨.returned (.error (.ctx .canceled)), [bytes "c1"], [bytes "c1"]⟩ :
      Allocation GoString GoString) := by
  have hreach : (allocate sampleManager (bytes "webdriver")
      (capsFor (bytes "chrome") [] [])).Reach Carries
        ⟨.returned (.error (.ctx .canceled)), [bytes "c1"], [bytes "c1"]⟩ := by
    refine Transition.Machine.leads_of_run cancelledRun ?_ rfl
    have hcarries : ∀ created removed, Carries
        (⟨.inspecting (imageWithMemory (bytes "1Gi")) (bytes "c1"), created, removed⟩ :
          Allocation GoString GoString) (.inspect (.ok unmapped)) := by
      intro created removed
      constructor
      · intro cfg id h
        cases h
        rfl
      · constructor <;> nofun
    iterate 5 refine ⟨trivial, ?_⟩
    exact ⟨hcarries _ _, trivial, hcarries _ _, trivial, trivial⟩
  exact all_or_nothing hreach

end Selebrow.Docker
