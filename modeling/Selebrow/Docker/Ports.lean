import Selebrow.Docker.Allocate

/-!
# Waiting for the ports

The loop in `startContainer` judges all the ports of a response, and `createBrowser` looks
up those of the catalog entry.  `verdict` is the body of the loop for one response.
-/

namespace Selebrow.Docker

open Catalog

/-- What the loop makes of a response. -/
inductive Verdict
  | waits
  | notRunning (status : GoString)
  | returned
  | panicked (p : Panic)
deriving DecidableEq, Repr

/-- How far the loop gets with a sequence of responses. -/
inductive LoopResult (Port : Type)
  | waiting
  | failed (status : GoString)
  | returned (info : InspectResponse Port)
  | panicked (p : Panic)

section Loop

variable {Port Quantity URL : Type} [DecidableEq Port]

def checkState (info : InspectResponse Port) : Verdict :=
  match info.state with
  | none => .panicked .nilPointer
  | some state => if state.running then .returned else .notRunning state.status

def verdict (m : DockerBrowserManager Port Quantity URL) (info : InspectResponse Port) : Verdict :=
  if m.opts.mapPorts then
    match info.networkSettings with
    | none => .panicked .nilPointer
    | some settings => if allPortsMapped settings.ports then checkState info else .waits
  else checkState info

def startLoop (m : DockerBrowserManager Port Quantity URL) :
    List (InspectResponse Port) → LoopResult Port
  | [] => .waiting
  | info :: rest =>
    match verdict m info with
    | .waits => startLoop m rest
    | .notRunning status => .failed status
    | .returned => .returned info
    | .panicked p => .panicked p

/-- The responses that the loop looks at. -/
def looked (m : DockerBrowserManager Port Quantity URL) :
    List (InspectResponse Port) → List (InspectResponse Port)
  | [] => []
  | info :: rest => info :: if verdict m info = .waits then looked m rest else []

/-- The machine of `Allocate` goes by the verdict. -/
theorem inspected_eq (m : DockerBrowserManager Port Quantity URL) (caps : Capabilities)
    (cfg : BrowserImageConfig) (id : GoString) (info : InspectResponse Port)
    (s : Allocation Port URL) :
    inspected m caps cfg id info s =
      match verdict m info with
      | .waits => s.goTo (.waitPorts cfg id)
      | .notRunning status => s.abandon id (.notRunning status)
      | .returned => finish m caps cfg id info s
      | .panicked p => s.goTo (.panicked p) := by
  simp only [inspected, verdict, checkState]
  cases info.state with
  | none =>
    cases m.opts.mapPorts with
    | false => rfl
    | true =>
      cases info.networkSettings with
      | none => rfl
      | some settings => cases hall : allPortsMapped settings.ports <;> simp [hall]
  | some state =>
    cases hrun : state.running with
    | false =>
      cases m.opts.mapPorts with
      | false => simp only [hrun, Bool.false_eq_true, if_false]
      | true =>
        cases info.networkSettings with
        | none => rfl
        | some settings => cases hall : allPortsMapped settings.ports <;> simp [hrun, hall]
    | true =>
      cases m.opts.mapPorts with
      | false => simp only [hrun, Bool.false_eq_true, if_false, if_true]
      | true =>
        cases info.networkSettings with
        | none => rfl
        | some settings => cases hall : allPortsMapped settings.ports <;> simp [hrun, hall]

/-! ## The ports of the entry -/

/-- The ports of the entry, as the response names them. -/
def entryPorts (lib : Parsers Port Quantity) (ports : List (ContainerPort × Int)) : List Port :=
  ports.filterMap fun e => (tcpPort lib e.2).toOption

/-- The port has a host port that is a number and not zero. -/
def Usable (lib : Parsers Port Quantity) (mapped : GoMap Port (List PortBinding)) (p : Int) : Prop :=
  ∃ n, getMappedPort lib mapped p = .ok (some n) ∧ n ≠ 0

def onlyPorts (keys : List Port) (mapped : GoMap Port (List PortBinding)) :
    GoMap Port (List PortBinding) where
  entries := mapped.entries.filter fun e => e.1 ∈ keys
  nodup := mapped.nodup.sublist (List.filter_sublist.map Prod.fst)

/-- The response without the ports that are not on the list. -/
def InspectResponse.only (keys : List Port) (info : InspectResponse Port) : InspectResponse Port :=
  { info with
    networkSettings := info.networkSettings.map fun settings =>
      { settings with ports := onlyPorts keys settings.ports } }

def Running (info : InspectResponse Port) : Prop :=
  ∃ state, info.state = some state ∧ state.running = true

variable (m : DockerBrowserManager Port Quantity URL) (cfg : BrowserImageConfig) (vncEnabled : Bool)

/-- The loop waits only for a running container with a port of the entry that is not
usable, the lookup of every port succeeds for the response that it returns, and ports that
the entry does not list make no difference. -/
structure LoopAgrees (infos : List (InspectResponse Port)) : Prop where
  waits : ∀ info ∈ looked m infos, verdict m info = .waits →
    Running info ∧ ∃ settings, info.networkSettings = some settings ∧
      ∃ e ∈ cfg.getPorts vncEnabled, ¬Usable m.lib settings.ports e.2
  returned : ∀ info, startLoop m infos = .returned info →
    ∃ settings, info.networkSettings = some settings ∧
      ∃ ports, mapPorts m.lib settings.ports (cfg.getPorts vncEnabled) .empty = .ok (.ok ports)
  unlisted : ∀ info ∈ looked m infos,
    verdict m (info.only (entryPorts m.lib (cfg.getPorts vncEnabled))) = verdict m info

/-- The ports of a response, as far as the loop and the lookup judge them alike. -/
structure Fits (info : InspectResponse Port) (settings : NetworkSettings Port) : Prop where
  some_port : cfg.getPorts vncEnabled ≠ []
  /-- Ports beside those of the entry have a host port too, once those of the entry have. -/
  exposed : allPortsMapped (onlyPorts (entryPorts m.lib (cfg.getPorts vncEnabled)) settings.ports) =
    true → allPortsMapped settings.ports = true
  /-- Ports that all have a host port are not all beside those of the entry. -/
  listed : allPortsMapped settings.ports = true →
    ∃ e ∈ settings.ports.entries, e.1 ∈ entryPorts m.lib (cfg.getPorts vncEnabled)
  usable : Running info → allPortsMapped settings.ports = true →
    ∀ e ∈ cfg.getPorts vncEnabled, Usable m.lib settings.ports e.2
  exited : ¬Running info → allPortsMapped settings.ports = true

variable {m cfg vncEnabled} {lib : Parsers Port Quantity} {mapped : GoMap Port (List PortBinding)}
  {info : InspectResponse Port} {infos : List (InspectResponse Port)}
  {settings : NetworkSettings Port}

/-! ## The two tests -/

omit [DecidableEq Port] in
theorem mem_entryPorts {ports : List (ContainerPort × Int)} {port : Port} :
    port ∈ entryPorts lib ports ↔ ∃ e ∈ ports, tcpPort lib e.2 = .ok port := by
  rw [entryPorts, List.mem_filterMap]
  constructor
  · rintro ⟨e, he, hport⟩
    refine ⟨e, he, ?_⟩
    cases hp : tcpPort lib e.2 with
    | error p =>
      rw [hp] at hport
      contradiction
    | ok port' =>
      rw [hp] at hport
      cases hport
      rfl
  · rintro ⟨e, he, hport⟩
    refine ⟨e, he, ?_⟩
    rw [hport]
    rfl

/-- The first binding of a port has a host port. -/
def Bound (bindings : List PortBinding) : Prop :=
  ∃ b rest, bindings = b :: rest ∧ b.hostPort ≠ []

omit [DecidableEq Port] in
theorem allPortsMapped_iff :
    allPortsMapped mapped = true ↔ mapped.entries ≠ [] ∧ ∀ e ∈ mapped.entries, Bound e.2 := by
  rw [allPortsMapped, Bool.and_eq_true, Bool.not_eq_true', List.isEmpty_eq_false_iff, List.all_eq_true]
  apply and_congr Iff.rfl
  apply forall₂_congr
  intro e _
  obtain ⟨port, bindings⟩ := e
  cases bindings with
  | nil =>
    constructor
    · intro h
      contradiction
    · rintro ⟨b, rest, heq, _⟩
      contradiction
  | cons b rest =>
    constructor
    · intro h
      exact ⟨b, rest, rfl, bne_iff_ne.mp h⟩
    · rintro ⟨b', rest', heq, hne⟩
      cases heq
      exact bne_iff_ne.mpr hne

/-- A usable port is listed, with a host port. -/
theorem Usable.bound {p : Int} (h : Usable lib mapped p) :
    ∃ port bindings, tcpPort lib p = .ok port ∧ mapped.lookup port = some bindings ∧
      Bound bindings := by
  obtain ⟨n, hn, _⟩ := h
  rw [getMappedPort] at hn
  cases hport : tcpPort lib p with
  | error err =>
    rw [hport] at hn
    contradiction
  | ok port =>
    rw [hport] at hn
    have hlookup := Except.ok.inj hn
    dsimp only at hlookup
    cases hl : mapped.lookup port with
    | none =>
      rw [hl] at hlookup
      contradiction
    | some bindings =>
      cases bindings with
      | nil =>
        rw [hl] at hlookup
        contradiction
      | cons b rest =>
        rw [hl] at hlookup
        dsimp only at hlookup
        refine ⟨port, b :: rest, rfl, hl, b, rest, rfl, ?_⟩
        intro hnil
        rw [hnil] at hlookup
        contradiction

theorem mem_onlyPorts {keys : List Port} {e : Port × List PortBinding} :
    e ∈ (onlyPorts keys mapped).entries ↔ e ∈ mapped.entries ∧ e.1 ∈ keys := by
  show e ∈ mapped.entries.filter (fun e => e.1 ∈ keys) ↔ _
  rw [List.mem_filter, decide_eq_true_eq]

/-- When the ports of the entry are usable, they all have a host port. -/
theorem allPortsMapped_of_usable {ports : List (ContainerPort × Int)} (hne : ports ≠ [])
    (h : ∀ e ∈ ports, Usable lib mapped e.2) :
    allPortsMapped (onlyPorts (entryPorts lib ports) mapped) = true := by
  rw [allPortsMapped_iff]
  constructor
  · obtain ⟨e, he⟩ := List.exists_mem_of_ne_nil ports hne
    obtain ⟨port, bindings, hport, hlookup, _⟩ := (h e he).bound
    have hmem : (port, bindings) ∈ (onlyPorts (entryPorts lib ports) mapped).entries :=
      mem_onlyPorts.mpr ⟨(mapped.mem_iff_lookup).mpr hlookup, mem_entryPorts.mpr ⟨e, he, hport⟩⟩
    exact List.ne_nil_of_mem hmem
  · intro e' he'
    obtain ⟨hmem, hkey⟩ := mem_onlyPorts.mp he'
    obtain ⟨e, he, hport⟩ := mem_entryPorts.mp hkey
    obtain ⟨port, bindings, hport', hlookup, hbound⟩ := (h e he).bound
    rw [hport] at hport'
    cases hport'
    have hlookup' := (mapped.mem_iff_lookup).mp hmem
    rw [hlookup] at hlookup'
    cases hlookup'
    exact hbound

/-- The lookups in `createBrowser` succeed together. -/
theorem mapPorts_ok_iff {ports : List (ContainerPort × Int)} {acc : GoMap ContainerPort Int} :
    (∃ r, mapPorts lib mapped ports acc = .ok (.ok r)) ↔ ∀ e ∈ ports, Usable lib mapped e.2 := by
  induction ports generalizing acc with
  | nil =>
    constructor
    · intro _ e he
      contradiction
    · intro _
      exact ⟨acc, rfl⟩
  | cons e rest ih =>
    rw [List.forall_mem_cons]
    obtain ⟨name, p⟩ := e
    cases hget : getMappedPort lib mapped p with
    | error err =>
      have hnot : ¬Usable lib mapped p := by
        rintro ⟨n, hn, _⟩
        rw [hget] at hn
        contradiction
      simp only [mapPorts, hget, bind, Except.bind]
      constructor
      · rintro ⟨r, hr⟩
        cases hr
      · intro h
        exact absurd h.1 hnot
    | ok mappedPort =>
      have husable : Usable lib mapped p ↔ ∃ n, mappedPort = some n ∧ n ≠ 0 := by
        simp only [Usable, hget, Except.ok.injEq]
      simp only [mapPorts, hget, bind, Except.bind, pure, Except.pure]
      rw [husable]
      split
      · constructor
        · rintro ⟨r, hr⟩
          cases Except.ok.inj hr
        · rintro ⟨⟨n, hn, _⟩, _⟩
          contradiction
      · constructor
        · rintro ⟨r, hr⟩
          cases Except.ok.inj hr
        · rintro ⟨⟨n, hn, hne⟩, _⟩
          exact absurd (Option.some.inj hn).symm hne
      · rename_i n hzero
        rw [ih]
        constructor
        · intro h
          exact ⟨⟨n, rfl, hzero⟩, h⟩
        · intro h
          exact h.2

/-! ## The loop -/

omit [DecidableEq Port] in
theorem startLoop_returned_iff :
    startLoop m infos = .returned info ↔ info ∈ looked m infos ∧ verdict m info = .returned := by
  induction infos with
  | nil =>
    constructor
    · intro h
      contradiction
    · intro h
      exact absurd h.1 List.not_mem_nil
  | cons first rest ih =>
    rw [startLoop, looked]
    cases hv : verdict m first with
    | waits =>
      rw [if_pos rfl, List.mem_cons]
      show startLoop m rest = .returned info ↔ _
      rw [ih]
      constructor
      · intro h
        exact ⟨.inr h.1, h.2⟩
      · rintro ⟨rfl | h, hret⟩
        · rw [hv] at hret
          contradiction
        · exact ⟨h, hret⟩
    | notRunning status =>
      rw [if_neg nofun, List.mem_singleton]
      constructor
      · intro h
        contradiction
      · rintro ⟨rfl, hret⟩
        rw [hv] at hret
        contradiction
    | returned =>
      rw [if_neg nofun, List.mem_singleton]
      constructor
      · intro h
        cases h
        exact ⟨rfl, hv⟩
      · rintro ⟨rfl, _⟩
        rfl
    | panicked p =>
      rw [if_neg nofun, List.mem_singleton]
      constructor
      · intro h
        contradiction
      · rintro ⟨rfl, hret⟩
        rw [hv] at hret
        contradiction

omit [DecidableEq Port] in
theorem checkState_ne_waits (info : InspectResponse Port) : checkState info ≠ .waits := by
  unfold checkState
  split
  · nofun
  · split <;> nofun

omit [DecidableEq Port] in
theorem checkState_returned_iff : checkState info = .returned ↔ Running info := by
  unfold checkState Running
  cases hs : info.state with
  | none =>
    constructor
    · intro h
      contradiction
    · rintro ⟨state, heq, _⟩
      contradiction
  | some state =>
    cases hrun : state.running with
    | false =>
      constructor
      · intro h
        simp only [hrun, Bool.false_eq_true, if_false] at h
        contradiction
      · rintro ⟨state', heq, hrun'⟩
        cases heq
        rw [hrun] at hrun'
        contradiction
    | true =>
      constructor
      · intro _
        exact ⟨state, rfl, hrun⟩
      · intro _
        simp only [hrun, if_true]

section Mapping

variable (hmap : m.opts.mapPorts = true)

include hmap

omit [DecidableEq Port] in
theorem verdict_of_settings (h : info.networkSettings = some settings) :
    verdict m info = if allPortsMapped settings.ports then checkState info else .waits := by
  rw [verdict, if_pos hmap, h]

theorem verdict_only (h : info.networkSettings = some settings) (keys : List Port) :
    verdict m (info.only keys) =
      if allPortsMapped (onlyPorts keys settings.ports) then checkState info else .waits := by
  have honly : (info.only keys).networkSettings =
      some { settings with ports := onlyPorts keys settings.ports } := by
    rw [InspectResponse.only, h]
    rfl
  rw [verdict_of_settings hmap honly]
  rfl

theorem verdict_eq_iff (h : info.networkSettings = some settings) (keys : List Port) :
    verdict m (info.only keys) = verdict m info ↔
      (allPortsMapped (onlyPorts keys settings.ports) = true ↔ allPortsMapped settings.ports = true) := by
  rw [verdict_only hmap h, verdict_of_settings hmap h]
  have hne := checkState_ne_waits info
  cases allPortsMapped (onlyPorts keys settings.ports) <;>
    cases allPortsMapped settings.ports <;> simp [hne, hne.symm]

/-- A response on which the loop and the lookup agree. -/
theorem fits_of_agrees (h : info.networkSettings = some settings)
    (hwaits : verdict m info = .waits → Running info ∧ ∃ settings,
      info.networkSettings = some settings ∧
        ∃ e ∈ cfg.getPorts vncEnabled, ¬Usable m.lib settings.ports e.2)
    (hreturned : verdict m info = .returned → ∃ settings, info.networkSettings = some settings ∧
      ∃ ports, mapPorts m.lib settings.ports (cfg.getPorts vncEnabled) .empty = .ok (.ok ports))
    (hunlisted : verdict m (info.only (entryPorts m.lib (cfg.getPorts vncEnabled))) =
      verdict m info) : Fits m cfg vncEnabled info settings := by
  have hverdict := verdict_of_settings hmap h
  rw [verdict_eq_iff hmap h] at hunlisted
  have hlisted : allPortsMapped settings.ports = true →
      ∃ e ∈ settings.ports.entries, e.1 ∈ entryPorts m.lib (cfg.getPorts vncEnabled) := by
    intro hall
    obtain ⟨e, he⟩ := List.exists_mem_of_ne_nil _ (allPortsMapped_iff.mp (hunlisted.mpr hall)).1
    exact ⟨e, (mem_onlyPorts.mp he).1, (mem_onlyPorts.mp he).2⟩
  constructor
  · cases hall : allPortsMapped settings.ports with
    | true =>
      obtain ⟨_, _, hkey⟩ := hlisted hall
      obtain ⟨e, he, _⟩ := mem_entryPorts.mp hkey
      exact List.ne_nil_of_mem he
    | false =>
      rw [hall] at hverdict
      obtain ⟨_, _, _, e, he, _⟩ := hwaits hverdict
      exact List.ne_nil_of_mem he
  · exact hunlisted.mp
  · exact hlisted
  · intro hrun hall
    rw [hall, if_pos rfl, checkState_returned_iff.mpr hrun] at hverdict
    obtain ⟨settings', hsettings', hok⟩ := hreturned hverdict
    rw [h] at hsettings'
    cases hsettings'
    exact mapPorts_ok_iff.mp hok
  · intro hrun
    cases hall : allPortsMapped settings.ports with
    | true => rfl
    | false =>
      rw [hall] at hverdict
      exact absurd (hwaits hverdict).1 hrun

theorem agrees_of_fits (h : info.networkSettings = some settings)
    (hfits : Fits m cfg vncEnabled info settings) :
    (verdict m info = .waits → Running info ∧
      ∃ e ∈ cfg.getPorts vncEnabled, ¬Usable m.lib settings.ports e.2) ∧
    (verdict m info = .returned →
      ∃ ports, mapPorts m.lib settings.ports (cfg.getPorts vncEnabled) .empty = .ok (.ok ports)) ∧
    verdict m (info.only (entryPorts m.lib (cfg.getPorts vncEnabled))) = verdict m info := by
  have hverdict := verdict_of_settings hmap h
  have hrestrict : allPortsMapped settings.ports = true →
      allPortsMapped (onlyPorts (entryPorts m.lib (cfg.getPorts vncEnabled)) settings.ports) =
        true := by
    intro hall
    rw [allPortsMapped_iff] at hall ⊢
    obtain ⟨e, he, hkey⟩ := hfits.listed (allPortsMapped_iff.mpr hall)
    constructor
    · exact List.ne_nil_of_mem (mem_onlyPorts.mpr ⟨he, hkey⟩)
    · exact fun e' he' => hall.2 e' (mem_onlyPorts.mp he').1
  cases hall : allPortsMapped settings.ports with
  | false =>
    rw [hall] at hverdict
    refine ⟨fun _ => ?_, fun hret => ?_, ?_⟩
    · have hrun : Running info := by
        by_contra hrun
        rw [hfits.exited hrun] at hall
        contradiction
      refine ⟨hrun, ?_⟩
      by_contra hnone
      have husable : ∀ e ∈ cfg.getPorts vncEnabled, Usable m.lib settings.ports e.2 := by
        intro e he
        by_contra hnot
        exact hnone ⟨e, he, hnot⟩
      rw [hfits.exposed (allPortsMapped_of_usable hfits.some_port husable)] at hall
      contradiction
    · rw [hverdict] at hret
      contradiction
    · exact (verdict_eq_iff hmap h _).mpr ⟨hfits.exposed, hrestrict⟩
  | true =>
    rw [hall, if_pos rfl] at hverdict
    refine ⟨fun hwait => ?_, fun hret => ?_, ?_⟩
    · rw [hverdict] at hwait
      exact absurd hwait (checkState_ne_waits info)
    · rw [hverdict, checkState_returned_iff] at hret
      exact mapPorts_ok_iff.mpr (hfits.usable hret hall)
    · exact (verdict_eq_iff hmap h _).mpr ⟨hfits.exposed, hrestrict⟩

theorem verdict_of_no_settings (h : info.networkSettings = none) (keys : List Port) :
    verdict m info = .panicked .nilPointer ∧ verdict m (info.only keys) = .panicked .nilPointer := by
  rw [verdict, if_pos hmap, verdict, if_pos hmap, InspectResponse.only, h]
  exact ⟨rfl, rfl⟩

theorem fits_of_loopAgrees (hagrees : LoopAgrees m cfg vncEnabled infos) :
    ∀ info ∈ looked m infos, ∀ settings, info.networkSettings = some settings →
      Fits m cfg vncEnabled info settings := by
  intro info hinfo settings hsettings
  refine fits_of_agrees hmap hsettings (hagrees.waits info hinfo) ?_ (hagrees.unlisted info hinfo)
  intro hret
  exact hagrees.returned info (startLoop_returned_iff.mpr ⟨hinfo, hret⟩)

/-- The loop and the lookup agree on a sequence of responses exactly when every response
that the loop looks at fits the entry. -/
theorem loopAgrees_iff : LoopAgrees m cfg vncEnabled infos ↔
    ∀ info ∈ looked m infos, ∀ settings, info.networkSettings = some settings →
      Fits m cfg vncEnabled info settings := by
  constructor
  · exact fits_of_loopAgrees hmap
  · intro hfits
    constructor
    · intro info hinfo hwait
      cases hs : info.networkSettings with
      | none =>
        rw [(verdict_of_no_settings hmap hs []).1] at hwait
        contradiction
      | some settings =>
        obtain ⟨hrun, hport⟩ := (agrees_of_fits hmap hs (hfits info hinfo settings hs)).1 hwait
        exact ⟨hrun, settings, rfl, hport⟩
    · intro info hreturned
      obtain ⟨hinfo, hret⟩ := startLoop_returned_iff.mp hreturned
      cases hs : info.networkSettings with
      | none =>
        rw [(verdict_of_no_settings hmap hs []).1] at hret
        contradiction
      | some settings =>
        exact ⟨settings, rfl, (agrees_of_fits hmap hs (hfits info hinfo settings hs)).2.1 hret⟩
    · intro info hinfo
      cases hs : info.networkSettings with
      | none =>
        obtain ⟨h, honly⟩ := verdict_of_no_settings hmap hs
          (entryPorts m.lib (cfg.getPorts vncEnabled))
        rw [h, honly]
      | some settings => exact (agrees_of_fits hmap hs (hfits info hinfo settings hs)).2.2

end Mapping

end Loop

/-! ## Responses for one port -/

def tcp4444 : GoString := bytes "4444/tcp"

def boundTo (hostPort : String) : List PortBinding := [⟨bytes "0.0.0.0", bytes hostPort⟩]

def inspectResponse (running : Bool) (ports : GoMap GoString (List PortBinding)) :
    InspectResponse GoString where
  id := bytes "c1"
  state := some ⟨running, bytes "running"⟩
  networkSettings := some ⟨.empty, ports⟩

def sampleEntry : BrowserImageConfig := imageWithMemory (bytes "1Gi")

/-- The port is not there yet, then it has no binding yet, then it has one. -/
def portResponses : List (InspectResponse GoString) :=
  [inspectResponse true .empty, inspectResponse true (GoMap.empty.insert tcp4444 []),
    inspectResponse true (GoMap.empty.insert tcp4444 (boundTo "49153"))]

theorem running_inspectResponse (ports : GoMap GoString (List PortBinding)) :
    Running (inspectResponse true ports) := ⟨_, rfl, rfl⟩

theorem loopAgrees_portMapped : LoopAgrees sampleManager sampleEntry false portResponses := by
  refine (loopAgrees_iff rfl).mpr ?_
  have hlooked : looked sampleManager portResponses = portResponses := rfl
  rw [hlooked]
  intro info hinfo settings hsettings
  rcases List.mem_cons.mp hinfo with rfl | hinfo
  · cases hsettings
    exact ⟨by decide, by decide, by decide, fun _ h => absurd h (by decide),
      fun h => absurd (running_inspectResponse _) h⟩
  · rcases List.mem_cons.mp hinfo with rfl | hinfo
    · cases hsettings
      exact ⟨by decide, by decide, by decide, fun _ h => absurd h (by decide),
        fun h => absurd (running_inspectResponse _) h⟩
    · rw [List.mem_singleton] at hinfo
      subst hinfo
      cases hsettings
      refine ⟨by decide, by decide, by decide, fun _ _ => ?_,
        fun h => absurd (running_inspectResponse _) h⟩
      intro e he
      rw [show sampleEntry.getPorts false = [(browserPort, 4444)] from rfl, List.mem_singleton] at he
      subst he
      exact ⟨49153, by decide, by decide⟩

/-- A container that has exited, a port beside that of the entry without a binding, and the
host port 0. -/
theorem loop_disagrees :
    ¬LoopAgrees sampleManager sampleEntry false [inspectResponse false .empty] ∧
      ¬LoopAgrees sampleManager sampleEntry false
        [inspectResponse true ((GoMap.empty.insert tcp4444 (boundTo "49153")).insert
          (bytes "9222/tcp") [])] ∧
      ¬LoopAgrees sampleManager sampleEntry false
        [inspectResponse true (GoMap.empty.insert tcp4444 (boundTo "0"))] := by
  refine ⟨fun h => ?_, fun h => ?_, fun h => ?_⟩
  · have hfits := fits_of_loopAgrees rfl h _ List.mem_cons_self _ rfl
    refine absurd (hfits.exited ?_) (by decide)
    rintro ⟨state, hstate, hrun⟩
    cases hstate
    contradiction
  · have hfits := fits_of_loopAgrees rfl h _ List.mem_cons_self _ rfl
    exact absurd (hfits.exposed (by decide)) (by decide)
  · have hfits := fits_of_loopAgrees rfl h _ List.mem_cons_self _ rfl
    obtain ⟨n, hn, hne⟩ := hfits.usable (running_inspectResponse _) (by decide) (browserPort, 4444)
      List.mem_cons_self
    have hzero : getMappedPort sampleManager.lib (GoMap.empty.insert tcp4444 (boundTo "0")) 4444 =
        .ok (some 0) := by decide
    rw [hzero] at hn
    cases hn
    exact hne rfl

end Selebrow.Docker
