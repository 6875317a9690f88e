import Selebrow.Kubernetes.Converter
import Selebrow.Yaml.Block

/-!
# Manifests

What the API machinery decodes a manifest into: the labels, the environment of the first
container and the host aliases, and the rest of the pod.  Numbers and booleans are put in where
text is wanted, as the library does; how it prints a number, and how it decodes what is left of the
document without these three, are parameters.

The template writes the manifest line by line; below, each of its blocks is given as the lines it
writes, grouped as they belong together.
-/

namespace Selebrow.Kubernetes.Converter

open Catalog Yaml

/-! ## Decoding -/

structure EnvVar where
  name : GoString
  value : GoString
  valueFrom : Option Json

structure HostAlias where
  ip : GoString
  hostnames : List GoString

structure PodFields (Others : Type) where
  env : List EnvVar
  hostAliases : List HostAlias
  others : Others

structure PodDecoder (Others : Type) where
  reader : Reader
  printNumber : GoString → GoString
  /-- The fields of a document without the labels, the environment and the host aliases. -/
  others : Json → Option Others
  error : GoString → GoString

/-- A value for a field of type `string`. -/
def asText (printNumber : GoString → GoString) : Json → Option GoString
  | .null => some []
  | .bool b => some (Capabilities.formatBool b)
  | .number literal => some (printNumber literal)
  | .string s => some s
  | .array _ => none
  | .object _ => none

def asMembers : Json → Option (List (GoString × Json))
  | .null => some []
  | .object ms => some ms
  | _ => none

def asElements : Json → Option (List Json)
  | .null => some []
  | .array vs => some vs
  | _ => none

/-- A field that is missing is left as it is, and so is one that is null. -/
def get (ms : List (GoString × Json)) (key : String) : Json := (member ms (bytes key)).getD .null

section

variable (printNumber : GoString → GoString)

def envVar (v : Json) : Option EnvVar := do
  let ms ← asMembers v
  let name ← asText printNumber (get ms "name")
  let value ← asText printNumber (get ms "value")
  return ⟨name, value, member ms (bytes "valueFrom")⟩

def hostAlias (v : Json) : Option HostAlias := do
  let ms ← asMembers v
  let ip ← asText printNumber (get ms "ip")
  let hostnames ← (← asElements (get ms "hostnames")).mapM (asText printNumber)
  return ⟨ip, hostnames⟩

/-- A value for a field of type `map[string]string`. -/
def stringMap : Json → Option (Option (GoMap GoString GoString))
  | .null => some none
  | .object ms =>
    (ms.mapM fun m => (asText printNumber m.2).map fun s => (m.1, s)).map fun l =>
      some (GoMap.ofList l)
  | _ => none

end

def erase (key : String) : Json → Json
  | .object ms => .object (ms.filter fun m => m.1 != bytes key)
  | v => v

def update (key : String) (f : Json → Json) : Json → Json
  | .object ms => .object (ms.map fun m => if m.1 = bytes key then (m.1, f m.2) else m)
  | v => v

def updateHead (f : Json → Json) : Json → Json
  | .array (v :: vs) => .array (f v :: vs)
  | v => v

/-- The document without the labels, the environment of the first container and the host
aliases. -/
def withoutOptions (doc : Json) : Json :=
  update "metadata" (erase "labels") (update "spec"
    (fun spec => erase "hostAliases" (update "containers" (updateHead (erase "env")) spec)) doc)

variable {Others : Type}

namespace PodDecoder

variable (p : PodDecoder Others)

def pod (doc : Json) : Option (Pod (PodFields Others)) := do
  let ms ← asMembers doc
  let metadata ← asMembers (get ms "metadata")
  let labels ← stringMap p.printNumber (get metadata "labels")
  let spec ← asMembers (get ms "spec")
  let containers ← asElements (get spec "containers")
  let container ← asMembers (containers.headD .null)
  let env ← (← asElements (get container "env")).mapM (envVar p.printNumber)
  let hostAliases ← (← asElements (get spec "hostAliases")).mapM (hostAlias p.printNumber)
  let others ← p.others (withoutOptions doc)
  return ⟨labels, ⟨env, hostAliases, others⟩⟩

def decode (text : GoString) : Except GoString (Pod (PodFields Others)) :=
  match (Yaml.read p.reader text).bind p.pod with
  | none => .error (p.error text)
  | some pod => .ok pod

end PodDecoder

/-! ## Blocks -/

/-- The lines of a text behind `nindent`. -/
def indented (k : Nat) (text : GoString) : List Line :=
  (text.splitOn 10).map fun s => lineOf (List.replicate k 32 ++ s)

section

variable (f : Funcs)

def labelGroup (e : GoString × Json) : Group := (⟨4, e.1 ++ 58 :: 32 :: f.quote e.2⟩, [])

def labelsGroups (labels : Values) : List Group :=
  if labels.entries = [] then []
  else [(⟨2, bytes "labels:"⟩, flatten ((inKeyOrder labels).map (labelGroup f)))]

def envItem (e : GoString × Json) : Group :=
  (⟨4, bytes "- name: " ++ e.1⟩, [⟨6, bytes "value: " ++ f.quote e.2⟩])

def envGroup (env : Values) : Group :=
  (⟨4, bytes "env:"⟩, flatten ((inKeyOrder env).map (envItem f)))

def portItem (e : GoString × Json) : Group :=
  (⟨4, bytes "- containerPort: " ++ f.print e.2⟩,
    [⟨6, bytes "name: " ++ f.quote (.string e.1)⟩, ⟨6, bytes "protocol: TCP"⟩])

def portsGroup (ports : Values) : Group :=
  (⟨4, bytes "ports:"⟩, flatten ((inKeyOrder ports).map (portItem f)))

def hostItem (host : Json) : Group := (⟨4, bytes "- " ++ f.quote host⟩, [])

/-- The names of an address. -/
def hostNames : Json → List Json
  | .array l => l
  | _ => []

def aliasItem (e : GoString × Json) : Group :=
  (⟨2, bytes "- ip: " ++ f.quote (.string e.1)⟩,
    flatten [(⟨4, bytes "hostnames:"⟩, flatten ((hostNames e.2).map (hostItem f)))])

def hostsGroups (hosts : Values) : List Group :=
  if hosts.entries = [] then []
  else [(⟨2, bytes "hostAliases:"⟩, flatten ((inKeyOrder hosts).map (aliasItem f)))]

/-! ### The text of a block -/

theorem labelsBlock_eq (labels : Values) : labelsBlock f labels = write (labelsGroups f labels) := by
  rw [labelsBlock, labelsGroups]
  split
  · rfl
  · rw [write_single, writeLines_cons, ← write, write_map]
    congr 1
    apply List.flatMap_congr
    intro e _
    rw [labelGroup, Group.lines, writeLines_cons, writeLines_nil, List.append_assoc, List.append_assoc,
      List.append_nil]
    rfl

theorem envBlock_eq (env : Values) : envBlock f env = write [envGroup f env] := by
  rw [envBlock, envGroup, write_single, writeLines_cons, ← write, write_map]
  congr 1
  apply List.flatMap_congr
  intro e _
  simp only [envItem, Group.lines, writeLines_cons, writeLines_nil, List.append_nil, List.cons_append,
    List.append_assoc]
  rfl

theorem portsBlock_eq (ports : Values) : portsBlock f ports = write [portsGroup f ports] := by
  rw [portsBlock, portsGroup, write_single, writeLines_cons, ← write, write_map]
  congr 1
  apply List.flatMap_congr
  intro e _
  simp only [portItem, Group.lines, writeLines_cons, writeLines_nil, List.append_nil, List.cons_append,
    List.append_assoc]
  rfl

theorem hostNames_eq (v : Json) :
    (match v with
      | .array l => l.flatMap fun host => bytes "\n    - " ++ f.quote host
      | _ => []) = write ((hostNames v).map (hostItem f)) := by
  rw [write_map]
  cases v with
  | array l =>
    apply List.flatMap_congr
    intro host _
    simp only [hostItem, Group.lines, writeLines_cons, writeLines_nil, List.append_nil]
    rfl
  | _ => rfl

theorem hostsBlock_eq (hosts : Values) : hostsBlock f hosts = write (hostsGroups f hosts) := by
  rw [hostsBlock, hostsGroups]
  split
  · rfl
  · rw [write_single, writeLines_cons, ← write, write_map]
    congr 1
    apply List.flatMap_congr
    intro e _
    have hlines : writeLines (aliasItem f e).lines = bytes "\n  - ip: " ++ f.quote (.string e.1) ++
        bytes "\n    hostnames:" ++ write ((hostNames e.2).map (hostItem f)) := by
      rw [aliasItem, Group.lines, writeLines_cons, ← write, write_single, writeLines_cons, ← write]
      simp only [List.append_assoc, List.cons_append]
      rfl
    rw [hlines]
    exact congrArg (_ ++ ·) (hostNames_eq f e.2)

end

/-! ### The chart and the catalog

What the template writes of them does not depend on the options of a request. -/

section

variable (f : Funcs)

/-- A value below its key, or nothing. -/
structure YamlBlock (vals : Values) (key heading : String) (n k : Nat) (gs : List Group) : Prop where
  renders : yamlBlock f vals key heading k = .ok (write gs)
  shape : gs = [] ∨ ∃ v y, vals.lookup (bytes key) = some v ∧ isTrue v = true ∧
    f.toYaml v = .ok y ∧ gs = [(⟨n, bytes key ++ bytes ": "⟩, indented k y)]

/-- A printed value behind its key, or nothing. -/
structure PrintBlock (vals : Values) (key heading : String) (n : Nat) (name : GoString)
    (gs : List Group) : Prop where
  renders : printBlock f vals key heading = .ok (write gs)
  shape : gs = [] ∨ ∃ v, vals.lookup (bytes key) = some v ∧ isTrue v = true ∧
    gs = [(⟨n, name ++ f.print v⟩, [])]

structure CommandBlock (browser : BrowserContext) (gs : List Group) : Prop where
  renders : commandBlock f browser = .ok (write gs)
  shape : gs = [] ∨ ∃ y, browser.cmd ≠ [] ∧ f.toYaml (.array (browser.cmd.map .string)) = .ok y ∧
    gs = [(⟨4, bytes "command: "⟩, indented 4 y)]

structure LimitsBlock (limits : Values) (gs : List Group) : Prop where
  renders : limitsBlock f limits = .ok (write gs)
  shape : gs = [] ∨ ∃ y, f.toYaml (.object limits.entries) = .ok y ∧
    gs = [(⟨4, bytes "resources:"⟩,
      flatten [(⟨6, bytes "limits: "⟩, indented 8 y), (⟨6, bytes "requests: "⟩, indented 8 y)])]

structure Fixed where
  annotations : List Group
  scheduler : List Group
  command : List Group
  pullPolicy : List Group
  limits : List Group
  searches : List Group
  pullSecrets : List Group
  priorityClass : List Group
  nodeSelector : List Group
  affinity : List Group
  tolerations : List Group

structure Fixed.Renders (browser : BrowserContext) (vals : Values) (p : Fixed) : Prop where
  annotations : YamlBlock f vals "annotations" "\n  annotations: " 2 4 p.annotations
  scheduler : PrintBlock f vals "scheduler" "\n  schedulerName: " 2 (bytes "schedulerName: ") p.scheduler
  command : CommandBlock f browser p.command
  pullPolicy : PrintBlock f vals "imagePullPolicy" "\n    imagePullPolicy: " 4
    (bytes "imagePullPolicy: ") p.pullPolicy
  limits : LimitsBlock f browser.limits p.limits
  searches : YamlBlock f vals "searches" "\n    searches: " 4 4 p.searches
  pullSecrets : YamlBlock f vals "imagePullSecrets" "\n  imagePullSecrets: " 2 2 p.pullSecrets
  priorityClass : PrintBlock f vals "priorityClassName" "\n  priorityClassName: " 2
    (bytes "priorityClassName: ") p.priorityClass
  nodeSelector : YamlBlock f vals "nodeSelector" "\n  nodeSelector: " 2 4 p.nodeSelector
  affinity : YamlBlock f vals "affinity" "\n  affinity: " 2 4 p.affinity
  tolerations : YamlBlock f vals "tolerations" "\n  tolerations: " 2 4 p.tolerations

variable {f} {vals : Values} {browser : BrowserContext} {text : GoString}

/-- `nindent`, as sprig has it -/
def Indents (f : Funcs) : Prop := ∀ k s, f.nindent k s = writeLines (indented k s)

theorem exists_yamlBlock (hf : Indents f) {key heading : String} {n k : Nat}
    (hheading : bytes heading = 10 :: (List.replicate n 32 ++ (bytes key ++ bytes ": ")))
    (h : yamlBlock f vals key heading k = .ok text) :
    ∃ gs, text = write gs ∧ YamlBlock f vals key heading n k gs := by
  have hrender := h
  rw [yamlBlock] at h
  obtain ⟨v, hv, h⟩ := ok_of_bind h
  rw [field] at hv
  split at hv
  · contradiction
  · rename_i v' hlookup
    cases hv
    rw [ifTrue] at h
    split at h
    · rename_i htrue
      obtain ⟨t, ht, rfl⟩ := ok_of_map h
      rw [yaml] at ht
      split at ht
      · contradiction
      · rename_i y hy
        cases ht
        have htext : bytes heading ++ f.nindent k y =
            write [(⟨n, bytes key ++ bytes ": "⟩, indented k y)] := by
          rw [hf, hheading, write_single, writeLines_cons]
        rw [htext] at hrender ⊢
        exact ⟨_, rfl, hrender, .inr ⟨v, y, hlookup, htrue, hy, rfl⟩⟩
    · cases h
      exact ⟨[], rfl, hrender, .inl rfl⟩

theorem exists_printBlock {key heading : String} {n : Nat} {name : GoString}
    (hheading : bytes heading = 10 :: (List.replicate n 32 ++ name))
    (h : printBlock f vals key heading = .ok text) :
    ∃ gs, text = write gs ∧ PrintBlock f vals key heading n name gs := by
  have hrender := h
  rw [printBlock] at h
  obtain ⟨v, hv, h⟩ := ok_of_bind h
  rw [field] at hv
  split at hv
  · contradiction
  · rename_i v' hlookup
    cases hv
    rw [ifTrue] at h
    split at h
    · rename_i htrue
      cases h
      have htext : bytes heading ++ f.print v = write [(⟨n, name ++ f.print v⟩, [])] := by
        rw [hheading, write_single, writeLines_cons, writeLines_nil, List.append_nil,
          List.cons_append, List.append_assoc]
      rw [htext] at hrender ⊢
      exact ⟨_, rfl, hrender, .inr ⟨v, hlookup, htrue, rfl⟩⟩
    · cases h
      exact ⟨[], rfl, hrender, .inl rfl⟩

theorem exists_commandBlock (hf : Indents f) (h : commandBlock f browser = .ok text) :
    ∃ gs, text = write gs ∧ CommandBlock f browser gs := by
  have hrender := h
  rw [commandBlock] at h
  split at h
  · rename_i hcmd
    obtain ⟨t, ht, rfl⟩ := ok_of_map h
    rw [yaml] at ht
    split at ht
    · contradiction
    · rename_i y hy
      cases ht
      have htext : bytes "\n    command: " ++ f.nindent 4 y =
          write [(⟨4, bytes "command: "⟩, indented 4 y)] := by
        rw [hf, write_single, writeLines_cons]
        rfl
      rw [htext] at hrender ⊢
      exact ⟨_, rfl, hrender, .inr ⟨y, hcmd.2, hy, rfl⟩⟩
  · cases h
    exact ⟨[], rfl, hrender, .inl rfl⟩

theorem exists_limitsBlock (hf : Indents f) {limits : Values}
    (h : limitsBlock f limits = .ok text) : ∃ gs, text = write gs ∧ LimitsBlock f limits gs := by
  have hrender := h
  rw [limitsBlock] at h
  split at h
  · cases h
    exact ⟨[], rfl, hrender, .inl rfl⟩
  · obtain ⟨t, ht, h⟩ := ok_of_bind h
    rw [yaml] at ht
    split at ht
    · contradiction
    · rename_i y hy
      cases ht
      cases h
      have htext : bytes "\n    resources:\n      limits: " ++ f.nindent 8 y ++
          bytes "\n      requests: " ++ f.nindent 8 y =
          write [(⟨4, bytes "resources:"⟩, flatten [(⟨6, bytes "limits: "⟩, indented 8 y),
            (⟨6, bytes "requests: "⟩, indented 8 y)])] := by
        rw [hf, write_single, writeLines_cons, ← write, write_cons, write_single, writeLines_cons,
          writeLines_cons]
        simp only [List.append_assoc, List.cons_append]
        rfl
      rw [htext] at hrender ⊢
      exact ⟨_, rfl, hrender, .inr ⟨y, hy, rfl⟩⟩

end

end Selebrow.Kubernetes.Converter
