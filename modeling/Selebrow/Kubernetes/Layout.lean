import Selebrow.Kubernetes.History
import Selebrow.Kubernetes.Manifest

/-!
# The lines of a manifest

The whole of what the template writes, as entries and the lines that belong to them.  The name
servers to search stand behind the host aliases in the template, so a manifest that has both has
them in the last alias; a manifest with one of them at most is laid out as `topGroups`.
-/

namespace Selebrow.Kubernetes.Converter

open Catalog Text Yaml

variable (f : Funcs) (p : Fixed) (browser : BrowserContext) (env labels hosts : Values)

def volumeMounts : Group :=
  (⟨4, bytes "volumeMounts:"⟩, flatten [(⟨4, bytes "- mountPath: /tmp"⟩, [⟨6, bytes "name: tmp"⟩])])

/-- The entries of the container before its environment, without its name. -/
def beforeEnv : List Group :=
  (⟨4, bytes "image: " ++ browser.image⟩, []) :: (p.command ++ p.pullPolicy)

def behindEnv : List Group := portsGroup f browser.ports :: (p.limits ++ [volumeMounts])

def containerGroups : List Group :=
  beforeEnv p browser ++ envGroup f env :: behindEnv f p browser

def containersGroup : Group :=
  (⟨2, bytes "containers:"⟩,
    flatten [(⟨2, bytes "- name: browser"⟩, flatten (containerGroups f p browser env))])

def dnsOptions : Group :=
  (⟨4, bytes "options:"⟩, flatten [(⟨4, bytes "- name: ndots"⟩, [⟨6, bytes "value: \"2\""⟩])])

def dnsGroup : Group := (⟨2, bytes "dnsConfig:"⟩, flatten (dnsOptions :: p.searches))

def volumes : Group :=
  (⟨2, bytes "volumes:"⟩, flatten [(⟨2, bytes "- emptyDir: \x7b\x7d"⟩, [⟨4, bytes "name: tmp"⟩])])

def lastGroups : List Group :=
  [(⟨2, bytes "automountServiceAccountToken: false"⟩, []),
    (⟨2, bytes "terminationGracePeriodSeconds: 0"⟩, [⟨0, []⟩])]

def behindHosts : List Group :=
  volumes :: (p.pullSecrets ++ p.priorityClass ++ p.nodeSelector ++ p.affinity ++ p.tolerations ++
    lastGroups)

def specGroups : List Group :=
  p.scheduler ++ containersGroup f p browser env :: dnsGroup p :: (hostsGroups f hosts ++ behindHosts p)

def metadataGroups : List Group :=
  (⟨2, bytes "generateName: browser-"⟩, []) :: (labelsGroups f labels ++ p.annotations)

def topGroups : List Group :=
  [(⟨0, bytes "apiVersion: v1"⟩, []), (⟨0, bytes "kind: Pod"⟩, []),
    (⟨0, bytes "metadata:"⟩, flatten (metadataGroups f p labels)),
    (⟨0, bytes "spec:"⟩, flatten (specGroups f p browser env hosts))]

/-- The template from behind the labels on. -/
def bodyText : GoString :=
  write p.annotations ++ bytes "\nspec:" ++ write p.scheduler ++
    bytes "\n  containers:\n  - name: browser\n    image: " ++ browser.image ++ write p.command ++
    write p.pullPolicy ++ envBlock f env ++ portsBlock f browser.ports ++ write p.limits ++
    bytes "\n    volumeMounts:\n    - mountPath: /tmp\n      name: tmp\n  dnsConfig:\n    options:" ++
    bytes "\n    - name: ndots\n      value: \"2\"" ++ hostsBlock f hosts ++ write p.searches ++
    bytes "\n  volumes:\n  - emptyDir: \x7b\x7d\n    name: tmp" ++ write p.pullSecrets ++
    write p.priorityClass ++ write p.nodeSelector ++ write p.affinity ++ write p.tolerations ++
    bytes "\n  automountServiceAccountToken: false\n  terminationGracePeriodSeconds: 0\n"

/-- The environment that the template ranges over. -/
def mergedEnv (ctx : TemplateContext) (chartEnv : Values) : Values :=
  f.mergeOverwrite (f.mergeOverwrite ctx.browser.env ctx.options.env) chartEnv

variable {f p browser env labels hosts} {ctx : TemplateContext} {text : GoString}

theorem body_of_renders {p : Fixed} {chartEnv : Values} (hp : p.Renders f ctx.browser ctx.values)
    (henv : valuesEnv ctx.values = .ok chartEnv) :
    body f ctx = .ok (bodyText f p ctx.browser (mergedEnv f ctx chartEnv) ctx.options.hosts) := by
  rw [body, hp.annotations.renders, hp.scheduler.renders, hp.command.renders, hp.pullPolicy.renders,
    henv, hp.limits.renders, hp.searches.renders, hp.pullSecrets.renders, hp.priorityClass.renders,
    hp.nodeSelector.renders, hp.affinity.renders, hp.tolerations.renders]
  rfl

theorem renders_of_body (hf : Indents f) (h : body f ctx = .ok text) :
    ∃ (p : Fixed) (chartEnv : Values), p.Renders f ctx.browser ctx.values ∧ valuesEnv ctx.values = .ok chartEnv := by
  rw [body] at h
  obtain ⟨annotations, hannotations, h⟩ := ok_of_bind h
  obtain ⟨scheduler, hscheduler, h⟩ := ok_of_bind h
  obtain ⟨command, hcommand, h⟩ := ok_of_bind h
  obtain ⟨pullPolicy, hpullPolicy, h⟩ := ok_of_bind h
  obtain ⟨chartEnv, hchartEnv, h⟩ := ok_of_bind h
  obtain ⟨limits, hlimits, h⟩ := ok_of_bind h
  obtain ⟨searches, hsearches, h⟩ := ok_of_bind h
  obtain ⟨pullSecrets, hpullSecrets, h⟩ := ok_of_bind h
  obtain ⟨priorityClass, hpriorityClass, h⟩ := ok_of_bind h
  obtain ⟨nodeSelector, hnodeSelector, h⟩ := ok_of_bind h
  obtain ⟨affinity, haffinity, h⟩ := ok_of_bind h
  obtain ⟨tolerations, htolerations, h⟩ := ok_of_bind h
  obtain ⟨gs1, _, h1⟩ := exists_yamlBlock (n := 2) hf rfl hannotations
  obtain ⟨gs2, _, h2⟩ := exists_printBlock (n := 2) rfl hscheduler
  obtain ⟨gs3, _, h3⟩ := exists_commandBlock hf hcommand
  obtain ⟨gs4, _, h4⟩ := exists_printBlock (n := 4) rfl hpullPolicy
  obtain ⟨gs5, _, h5⟩ := exists_limitsBlock hf hlimits
  obtain ⟨gs6, _, h6⟩ := exists_yamlBlock (n := 4) hf rfl hsearches
  obtain ⟨gs7, _, h7⟩ := exists_yamlBlock (n := 2) hf rfl hpullSecrets
  obtain ⟨gs8, _, h8⟩ := exists_printBlock (n := 2) rfl hpriorityClass
  obtain ⟨gs9, _, h9⟩ := exists_yamlBlock (n := 2) hf rfl hnodeSelector
  obtain ⟨gs10, _, h10⟩ := exists_yamlBlock (n := 2) hf rfl haffinity
  obtain ⟨gs11, _, h11⟩ := exists_yamlBlock (n := 2) hf rfl htolerations
  exact ⟨⟨gs1, gs2, gs3, gs4, gs5, gs6, gs7, gs8, gs9, gs10, gs11⟩, chartEnv,
    ⟨h1, h2, h3, h4, h5, h6, h7, h8, h9, h10, h11⟩, hchartEnv⟩

/-- A line as it stands in the template. -/
def line (n : Nat) (s : String) : GoString := 10 :: (List.replicate n 32 ++ bytes s)

theorem line_eq (n : Nat) (s : String) :
    line n s = bytes (String.ofList ('\n' :: List.replicate n ' ') ++ s) := by
  have hblanks : utf8 (List.replicate n ' ') = List.replicate n 32 := by
    induction n with
    | zero => rfl
    | succ n ih =>
      rw [List.replicate_succ, List.replicate_succ, utf8_cons, ih]
      rfl
  rw [line, bytes_append, bytes_eq_utf8 (String.ofList _), String.toList_ofList, utf8_cons, hblanks]
  rfl

/-! The texts of the template that hold more than one line -/

theorem head_eq : 10 :: head = line 0 "apiVersion: v1" ++ line 0 "kind: Pod" ++ line 0 "metadata:" ++
    line 2 "generateName: browser-" := by
  rw [line_eq, line_eq, line_eq, line_eq, ← bytes_append, ← bytes_append, ← bytes_append]
  rfl

theorem containers_eq : bytes "\n  containers:\n  - name: browser\n    image: " =
    line 2 "containers:" ++ line 2 "- name: browser" ++ line 4 "image: " := by
  rw [line_eq, line_eq, line_eq, ← bytes_append, ← bytes_append]
  rfl

theorem volumeMounts_eq :
    bytes "\n    volumeMounts:\n    - mountPath: /tmp\n      name: tmp\n  dnsConfig:\n    options:" =
      line 4 "volumeMounts:" ++ line 4 "- mountPath: /tmp" ++ line 6 "name: tmp" ++
        line 2 "dnsConfig:" ++ line 4 "options:" := by
  rw [line_eq, line_eq, line_eq, line_eq, line_eq, ← bytes_append, ← bytes_append, ← bytes_append,
    ← bytes_append]
  rfl

theorem ndots_eq : bytes "\n    - name: ndots\n      value: \"2\"" =
    line 4 "- name: ndots" ++ line 6 "value: \"2\"" := by
  rw [line_eq, line_eq, ← bytes_append]
  rfl

theorem volumes_eq : bytes "\n  volumes:\n  - emptyDir: \x7b\x7d\n    name: tmp" =
    line 2 "volumes:" ++ line 2 "- emptyDir: \x7b\x7d" ++ line 4 "name: tmp" := by
  rw [line_eq, line_eq, line_eq, ← bytes_append, ← bytes_append]
  rfl

theorem last_eq :
    bytes "\n  automountServiceAccountToken: false\n  terminationGracePeriodSeconds: 0\n" =
      line 2 "automountServiceAccountToken: false" ++ line 2 "terminationGracePeriodSeconds: 0" ++
        [10] := by
  have hbreak : [10] = bytes "\n" := rfl
  rw [line_eq, line_eq, hbreak, ← bytes_append, ← bytes_append]
  rfl

/-- A manifest without host aliases or without name servers to search. -/
theorem manifest_eq (h : hosts.entries = [] ∨ p.searches = []) :
    10 :: (head ++ labelsBlock f labels ++ bodyText f p browser env hosts) =
      write (topGroups f p browser env labels hosts) := by
  have hdns : ∀ t, write (hostsGroups f hosts) ++ (write p.searches ++ t) =
      write p.searches ++ (write (hostsGroups f hosts) ++ t) := by
    intro t
    rcases h with h | h
    · rw [hostsGroups, if_pos h, write_nil, List.nil_append, List.nil_append]
    · rw [h, write_nil, List.nil_append, List.nil_append]
  have hflatten : ∀ gs, writeLines (flatten gs) = write gs := fun _ => rfl
  have hspec : bytes "\nspec:" = line 0 "spec:" := rfl
  have hhead : ∀ t, 10 :: (head ++ t) = (10 :: head) ++ t := fun _ => (List.cons_append).symm
  have henv : ∀ gs, write (envGroup f env :: gs) = writeLines (envGroup f env).lines ++ write gs :=
    write_cons _ _
  have hports : ∀ gs, write (portsGroup f browser.ports :: gs) =
      writeLines (portsGroup f browser.ports).lines ++ write gs := write_cons _ _
  unfold bodyText
  rw [List.append_assoc head, hhead, head_eq, hspec, containers_eq, volumeMounts_eq, ndots_eq,
    volumes_eq, last_eq, hostsBlock_eq, labelsBlock_eq, envBlock_eq, portsBlock_eq]
  simp only [topGroups, metadataGroups, specGroups, containersGroup, containerGroups, beforeEnv,
    behindEnv, dnsGroup, dnsOptions, behindHosts, volumes, volumeMounts, lastGroups, henv, hports,
    write_cons, write_append, writeLines_cons, hflatten, writeLines_nil, write_nil,
    List.append_assoc, List.cons_append, List.append_nil, hdns, line]
  rfl

end Selebrow.Kubernetes.Converter
