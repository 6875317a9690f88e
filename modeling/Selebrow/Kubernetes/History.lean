import Selebrow.Kubernetes.Converter

/-!
# What a pod has of earlier requests

The labels of the values are the only thing that a call changes, and it leaves its own
labels there.  A later pod gets each of them that the later request does not set itself.
-/

namespace Selebrow.Kubernetes.Converter

open Catalog

structure Call where
  cfg : BrowserImageConfig
  caps : Capabilities

variable {Rest : Type} (t : TemplatedBrowserConverter Rest)

/-- The values of the converter after some calls. -/
def after (vals : Values) (calls : List Call) : Values :=
  calls.foldl (fun vals c => (toPod t vals c.cfg c.caps).2) vals

/-- The labels of the values, if they are a map. -/
def labelsOf (vals : Values) : Option Values :=
  match vals.lookup (bytes "labels") with
  | some (.object l) => some (GoMap.ofList l)
  | _ => none

/-- The labels that the template writes. -/
def podLabels (vals : Values) (caps : Capabilities) : Option Values :=
  (labelsOf vals).map fun labels => t.funcs.mergeOverwrite labels (getLabels caps.labels)

/-- A call with a tag for its version renders the template. -/
def Call.renders (c : Call) : Bool := (c.cfg.getTag c.caps.version).isSome

/-- The value that the last of the calls that renders and sets the label gives it. -/
def lastLabel (calls : List Call) (k : GoString) : Option GoString :=
  calls.foldl (fun acc c => if c.renders then (c.caps.labels.lookup k).or acc else acc) none

/-- The value of the label after the calls. -/
def labelAfter (labels : Values) (calls : List Call) (k : GoString) : Option Json :=
  ((lastLabel calls k).map .string).or (labels.lookup k)

/-- Both histories leave every label that the request does not set with one value. -/
def Agree (vals : Values) (calls calls' : List Call) (caps : Capabilities) : Prop :=
  ∀ labels, labelsOf vals = some labels → ∀ k, caps.labels.lookup k = none →
    labelAfter labels calls k = labelAfter labels calls' k

/-- Merging strings over a map leaves the other entries of the map as they are. -/
def MergesStrings (f : Funcs) : Prop :=
  ∀ dst src : Values, (∀ e ∈ src.entries, ∃ s, e.2 = .string s) →
    ∀ k, (f.mergeOverwrite dst src).lookup k = (src.lookup k).or (dst.lookup k)

variable {t} {vals vals' labels : Values} {calls calls' : List Call} {cfg : BrowserImageConfig}
  {caps : Capabilities}

/-! ## One call -/

theorem strings_entries (m : GoMap GoString GoString) :
    ∀ e ∈ (strings m).entries, ∃ s, e.2 = .string s := by
  intro e he
  obtain ⟨e', _, rfl⟩ := List.mem_map.mp he
  exact ⟨e'.2, rfl⟩

theorem lookup_merged (hm : MergesStrings t.funcs) (labels : Values) (caps : Capabilities)
    (k : GoString) :
    (t.funcs.mergeOverwrite labels (getLabels caps.labels)).lookup k =
      ((caps.labels.lookup k).map .string).or (labels.lookup k) := by
  rw [getLabels, hm _ _ (strings_entries _), strings, GoMap.lookup_map, StringMap.lookup_toGoMap]

theorem mergeLabels_eq (f : Funcs) (ctx : TemplateContext) :
    (∃ labels, labelsOf ctx.values = some labels ∧
      mergeLabels f ctx = .ok (f.mergeOverwrite labels ctx.options.labels)) ∨
    (labelsOf ctx.values = none ∧ ∃ err, mergeLabels f ctx = .error err) := by
  unfold labelsOf mergeLabels field
  cases ctx.values.lookup (bytes "labels") with
  | none => exact .inr ⟨rfl, _, rfl⟩
  | some v =>
    cases v with
    | object l => exact .inl ⟨_, rfl, rfl⟩
    | null | bool | number | string | array => exact .inr ⟨rfl, _, rfl⟩

theorem execute_values (f : Funcs) (ctx : TemplateContext) :
    (execute f ctx).2 =
      match labelsOf ctx.values with
      | none => ctx.values
      | some labels => ctx.values.insert (bytes "labels")
          (.object (f.mergeOverwrite labels ctx.options.labels).entries) := by
  rw [execute]
  rcases mergeLabels_eq f ctx with ⟨labels, hl, hmerge⟩ | ⟨hl, err, herr⟩
  · rw [hmerge, hl]
  · rw [herr, hl]

/-- The values after a call: its labels are merged into those of the values if the
template is rendered. -/
theorem toPod_values (t : TemplatedBrowserConverter Rest) (vals : Values) (c : Call) :
    (toPod t vals c.cfg c.caps).2 =
      if c.renders then
        match podLabels t vals c.caps with
        | none => vals
        | some merged => vals.insert (bytes "labels") (.object merged.entries)
      else vals := by
  rw [toPod, buildTemplateContext, buildBrowserContext, Call.renders]
  cases c.cfg.getTag c.caps.version with
  | none => rfl
  | some tag =>
    rw [podLabels]
    show (execute t.funcs _).2 = _
    rw [execute_values]
    show (match labelsOf vals with | none => _ | some labels => _) = _
    cases labelsOf vals <;> rfl

theorem labelsOf_insert (vals merged : Values) :
    ∃ m, labelsOf (vals.insert (bytes "labels") (.object merged.entries)) = some m ∧
      ∀ k, m.lookup k = merged.lookup k := by
  rw [labelsOf, GoMap.lookup_insert, if_pos rfl]
  exact ⟨_, rfl, GoMap.lookup_ofList merged⟩

/-! ## Many calls -/

theorem after_append (calls : List Call) (c : Call) :
    after t vals (calls ++ [c]) = (toPod t (after t vals calls) c.cfg c.caps).2 := by
  rw [after, List.foldl_append]
  rfl

theorem lastLabel_append (calls : List Call) (c : Call) (k : GoString) :
    lastLabel (calls ++ [c]) k =
      if c.renders then (c.caps.labels.lookup k).or (lastLabel calls k) else lastLabel calls k := by
  rw [lastLabel, List.foldl_append]
  rfl

theorem after_of_none (h : labelsOf vals = none) : after t vals calls = vals := by
  induction calls using List.reverseRecOn with
  | nil => rfl
  | append_singleton calls c ih =>
    rw [after_append, ih, toPod_values, podLabels, h]
    split <;> rfl

/-- The calls change nothing but the labels, which then have what the last calls left. -/
structure AfterCalls (vals labels now : Values) (calls : List Call) : Prop where
  others : ∀ k, k ≠ bytes "labels" → now.lookup k = vals.lookup k
  labels : ∃ m, labelsOf now = some m ∧ ∀ k, m.lookup k = labelAfter labels calls k

theorem after_calls (hm : MergesStrings t.funcs) (h : labelsOf vals = some labels)
    (calls : List Call) : AfterCalls vals labels (after t vals calls) calls := by
  induction calls using List.reverseRecOn with
  | nil => exact ⟨fun _ _ => rfl, labels, h, fun _ => rfl⟩
  | append_singleton calls c ih =>
    obtain ⟨m, hmap, hlookup⟩ := ih.labels
    rw [after_append, toPod_values, podLabels, hmap]
    by_cases hc : c.renders = true
    · rw [if_pos hc]
      constructor
      · intro k hk
        show (GoMap.insert _ _ _).lookup k = _
        rw [GoMap.lookup_insert, if_neg hk]
        exact ih.others k hk
      · obtain ⟨m', hmap', hlookup'⟩ := labelsOf_insert (after t vals calls)
          (t.funcs.mergeOverwrite m (getLabels c.caps.labels))
        apply Exists.intro m'
        constructor
        · exact hmap'
        · intro k
          rw [hlookup', lookup_merged hm, hlookup, labelAfter, labelAfter, lastLabel_append,
            if_pos hc]
          cases c.caps.labels.lookup k <;> rfl
    · rw [if_neg hc]
      constructor
      · exact ih.others
      · apply Exists.intro m
        constructor
        · exact hmap
        · intro k
          rw [hlookup, labelAfter, labelAfter, lastLabel_append, if_neg hc]

/-! ## What the template reads -/

theorem sort_keys_congr {ν : Type} {m m' : GoMap GoString ν}
    (h : ∀ k, m.lookup k = m'.lookup k) :
    Capabilities.sort m.keys = Capabilities.sort m'.keys := by
  rw [Capabilities.sort_eq_iff]
  apply GoMap.keys_perm
  intro k
  rw [h]

theorem inKeyOrder_congr {ν : Type} {m m' : GoMap GoString ν}
    (h : ∀ k, m.lookup k = m'.lookup k) : inKeyOrder m = inKeyOrder m' := by
  rw [inKeyOrder, inKeyOrder, sort_keys_congr h]
  simp only [h]

theorem entries_eq_nil_congr {ν : Type} {m m' : GoMap GoString ν}
    (h : ∀ k, m.lookup k = m'.lookup k) : m.entries = [] ↔ m'.entries = [] := by
  have hperm := Capabilities.sort_eq_iff.mp (sort_keys_congr h)
  have hlen := hperm.length_eq
  rw [GoMap.keys, GoMap.keys, List.length_map, List.length_map] at hlen
  rw [← List.length_eq_zero_iff, ← List.length_eq_zero_iff, hlen]

theorem labelsBlock_congr (f : Funcs) {m m' : Values} (h : ∀ k, m.lookup k = m'.lookup k) :
    labelsBlock f m = labelsBlock f m' := by
  rw [labelsBlock, labelsBlock, inKeyOrder_congr h]
  by_cases hm : m.entries = []
  · rw [if_pos hm, if_pos ((entries_eq_nil_congr h).mp hm)]
  · rw [if_neg hm, if_neg fun hm' => hm ((entries_eq_nil_congr h).mpr hm')]

/-- Behind the labels the template does not look at them any more. -/
theorem body_congr (f : Funcs) {ctx ctx' : TemplateContext} (hbrowser : ctx.browser = ctx'.browser)
    (hoptions : ctx.options = ctx'.options)
    (hvalues : ∀ k, k ≠ bytes "labels" → ctx.values.lookup k = ctx'.values.lookup k) :
    body f ctx = body f ctx' := by
  have hfield : ∀ key, bytes key ≠ bytes "labels" →
      field ctx.values (bytes key) = field ctx'.values (bytes key) := by
    intro key hkey
    rw [field, field, hvalues _ hkey]
  have hyaml : ∀ key heading indent, bytes key ≠ bytes "labels" →
      yamlBlock f ctx.values key heading indent = yamlBlock f ctx'.values key heading indent := by
    intro key heading indent hkey
    rw [yamlBlock, yamlBlock, hfield _ hkey]
  have hprint : ∀ key heading, bytes key ≠ bytes "labels" →
      printBlock f ctx.values key heading = printBlock f ctx'.values key heading := by
    intro key heading hkey
    rw [printBlock, printBlock, hfield _ hkey]
  have henv : valuesEnv ctx.values = valuesEnv ctx'.values := by
    rw [valuesEnv, valuesEnv, hfield _ (by decide)]
  rw [body, body, hbrowser, hoptions, henv, hyaml "annotations" _ _ (by decide),
    hprint "scheduler" _ (by decide), hprint "imagePullPolicy" _ (by decide),
    hyaml "searches" _ _ (by decide), hyaml "imagePullSecrets" _ _ (by decide),
    hprint "priorityClassName" _ (by decide), hyaml "nodeSelector" _ _ (by decide),
    hyaml "affinity" _ _ (by decide), hyaml "tolerations" _ _ (by decide)]

/-- The manifests are the same when the labels to write and the other values are. -/
theorem execute_congr {f : Funcs} {ctx ctx' : TemplateContext} {m m' : Values}
    (hbrowser : ctx.browser = ctx'.browser) (hoptions : ctx.options = ctx'.options)
    (hvalues : ∀ k, k ≠ bytes "labels" → ctx.values.lookup k = ctx'.values.lookup k)
    (hm : labelsOf ctx.values = some m) (hm' : labelsOf ctx'.values = some m')
    (hmerged : ∀ k, (f.mergeOverwrite m ctx.options.labels).lookup k =
      (f.mergeOverwrite m' ctx'.options.labels).lookup k) :
    (execute f ctx).1 = (execute f ctx').1 := by
  rw [execute, execute]
  rcases mergeLabels_eq f ctx with ⟨l, hl, hmerge⟩ | ⟨hl, _⟩
  · rcases mergeLabels_eq f ctx' with ⟨l', hl', hmerge'⟩ | ⟨hl', _⟩
    · rw [hm, Option.some.injEq] at hl
      rw [hm', Option.some.injEq] at hl'
      rw [hmerge, hmerge', ← hl, ← hl']
      show Except.map _ (body f _) = Except.map _ (body f _)
      rw [labelsBlock_congr f hmerged]
      congr 1
      apply body_congr f
      · exact hbrowser
      · exact hoptions
      · intro k hk
        show (GoMap.insert _ _ _).lookup k = (GoMap.insert _ _ _).lookup k
        rw [GoMap.lookup_insert, GoMap.lookup_insert, if_neg hk, if_neg hk]
        exact hvalues k hk
    · rw [hm'] at hl'
      contradiction
  · rw [hm] at hl
    contradiction

/-! ## Two histories -/

/-- The labels that the template writes after the calls. -/
theorem lookup_podLabels (hm : MergesStrings t.funcs) (h : labelsOf vals = some labels)
    (calls : List Call) (caps : Capabilities) :
    ∃ m, podLabels t (after t vals calls) caps = some m ∧
      ∀ k, m.lookup k = ((caps.labels.lookup k).map .string).or (labelAfter labels calls k) := by
  obtain ⟨m, hmap, hlookup⟩ := (after_calls hm h calls).labels
  rw [podLabels, hmap]
  apply Exists.intro (t.funcs.mergeOverwrite m (getLabels caps.labels))
  constructor
  · rfl
  · intro k
    rw [lookup_merged hm, hlookup]

/-- The template writes the same labels after both histories. -/
def SameLabels (t : TemplatedBrowserConverter Rest) (vals : Values) (calls calls' : List Call)
    (caps : Capabilities) : Prop :=
  ∀ m m', podLabels t (after t vals calls) caps = some m →
    podLabels t (after t vals calls') caps = some m' → ∀ k, m.lookup k = m'.lookup k

theorem sameLabels_iff (hm : MergesStrings t.funcs) :
    SameLabels t vals calls calls' caps ↔ Agree vals calls calls' caps := by
  cases h : labelsOf vals with
  | none =>
    constructor
    · intro _ labels hl
      rw [h] at hl
      contradiction
    · intro _ m m' hmap
      rw [after_of_none h, podLabels, h] at hmap
      contradiction
  | some labels =>
    obtain ⟨m, hmap, hlookup⟩ := lookup_podLabels hm h calls caps
    obtain ⟨m', hmap', hlookup'⟩ := lookup_podLabels hm h calls' caps
    constructor
    · intro hsame labels' hl k hk
      rw [h, Option.some.injEq] at hl
      have hmm := hsame m m' hmap hmap' k
      rw [hlookup, hlookup', hk, hl] at hmm
      exact hmm
    · intro hagree l l' hl hl' k
      rw [hmap, Option.some.injEq] at hl
      rw [hmap', Option.some.injEq] at hl'
      rw [← hl, ← hl', hlookup, hlookup']
      cases hk : caps.labels.lookup k with
      | some v => rfl
      | none => exact hagree labels h k hk

theorem toPod_congr (hm : MergesStrings t.funcs) (cfg : BrowserImageConfig)
    (hsame : SameLabels t vals calls calls' caps) :
    (toPod t (after t vals calls) cfg caps).1 = (toPod t (after t vals calls') cfg caps).1 := by
  cases h : labelsOf vals with
  | none => rw [after_of_none h, after_of_none h]
  | some labels =>
    have hc := after_calls hm h calls
    have hc' := after_calls hm h calls'
    obtain ⟨m, hmap, _⟩ := hc.labels
    obtain ⟨m', hmap', _⟩ := hc'.labels
    rw [toPod, toPod, buildTemplateContext, buildTemplateContext]
    cases buildBrowserContext cfg caps.version caps.vncEnabled with
    | error err => rfl
    | ok browser =>
      show finishPod t (execute t.funcs _).1 = finishPod t (execute t.funcs _).1
      congr 1
      refine execute_congr rfl rfl ?_ hmap hmap' ?_
      · intro k hk
        exact (hc.others k hk).trans (hc'.others k hk).symm
      · apply hsame
        · rw [podLabels, hmap]
          rfl
        · rw [podLabels, hmap']
          rfl

/-- Two histories that agree on the labels that the request does not set are followed by
the same pod, and by the same labels only if they agree. -/
theorem pod_independent (hm : MergesStrings t.funcs) :
    (Agree vals calls calls' caps → ∀ cfg,
      (toPod t (after t vals calls) cfg caps).1 = (toPod t (after t vals calls') cfg caps).1) ∧
    (SameLabels t vals calls calls' caps ↔ Agree vals calls calls' caps) := by
  constructor
  · intro h cfg
    exact toPod_congr hm cfg ((sameLabels_iff hm).mpr h)
  · exact sameLabels_iff hm

/-! ## The values of the repository -/

def emptyMap : Json := .object []

/-- The values file of the repository. -/
def defaultValues : Values := GoMap.ofList
  [(bytes "imagePullSecrets", .array []),
    (bytes "browser", .object [(bytes "env", emptyMap)]),
    (bytes "annotations", emptyMap),
    (bytes "labels",
      .object [(bytes "app.kubernetes.io/created-by", .string (bytes "selebrow"))]),
    (bytes "searches", .array []),
    (bytes "scheduler", .string []),
    (bytes "priorityClassName", .string []),
    (bytes "imagePullPolicy", .string []),
    (bytes "nodeSelector", emptyMap),
    (bytes "tolerations", .array []),
    (bytes "affinity", emptyMap)]

def text : Json → GoString
  | .string s => s
  | .number literal => literal
  | _ => []

/-- The functions on plain strings; nothing is written as YAML with these values. -/
def plainFuncs : Funcs where
  quote := fun v => bytes "\"" ++ text v ++ bytes "\""
  toYaml := fun _ => .ok []
  nindent := fun _ s => s
  print := text
  mergeOverwrite := GoMap.copy

/-- `key: "value"`, indented as the labels are. -/
def labelLine (line : GoString) : Option (GoString × GoString) :=
  if (bytes "    ").isPrefixOf line then
    (splitAt 58 (line.drop 4)).2.map fun v =>
      ((splitAt 58 (line.drop 4)).1, (v.drop 2).dropLast)
  else none

/-- The labels of a manifest: the indented lines below `labels:`. -/
def readLabels (manifest : GoString) : List (GoString × GoString) :=
  let block := ((manifest.splitOn 10).dropWhile (· != bytes "  labels:")).tail
  (block.takeWhile fun line => (labelLine line).isSome).filterMap labelLine

def plainConverter : TemplatedBrowserConverter Unit where
  funcs := plainFuncs
  decode := fun manifest => .ok ⟨some (GoMap.ofList (readLabels manifest)), ()⟩
  ciEnvironment := ⟨[], [], []⟩
  lineage := bytes "selebrow"

/-- A request for the sample entry with one label or none. -/
def requestWith (labels : StringMap) : Capabilities :=
  ⟨[], bytes "chrome", [], [], bytes "1920x1080x24", [], false, labels, [], [], []⟩

def teamLabel (team : GoString) : StringMap := ⟨[(bytes "team", team)], List.nodup_singleton _⟩

def noLabels : StringMap := ⟨[], List.nodup_nil⟩

theorem mergesStrings_plain : MergesStrings plainFuncs :=
  fun dst src _ => GoMap.lookup_copy dst src

theorem pod_independent_ownTeam :
    (toPod plainConverter
      (after plainConverter defaultValues [⟨chromeEntry, requestWith (teamLabel (bytes "red"))⟩])
      chromeEntry (requestWith (teamLabel (bytes "blue")))).1 =
    (toPod plainConverter (after plainConverter defaultValues [])
      chromeEntry (requestWith (teamLabel (bytes "blue")))).1 := by
  apply (pod_independent (t := plainConverter) mergesStrings_plain).1
  intro labels _ k hk
  have hteam : ∀ team, (teamLabel team).lookup k = if k = bytes "team" then some team else none := by
    intro team
    rw [StringMap.lookup, teamLabel, List.lookup_cons]
    by_cases h : k = bytes "team"
    · rw [beq_iff_eq.mpr h, if_pos h]
    · rw [beq_eq_false_iff_ne.mpr h, if_neg h]
      rfl
  have hlast : lastLabel [⟨chromeEntry, requestWith (teamLabel (bytes "red"))⟩] k = none := by
    show ((teamLabel (bytes "red")).lookup k).or none = none
    have hk' : (teamLabel (bytes "blue")).lookup k = none := hk
    rw [hteam] at hk' ⊢
    by_cases h : k = bytes "team"
    · rw [if_pos h] at hk'
      contradiction
    · rw [if_neg h]
      rfl
  rw [labelAfter, labelAfter, hlast]
  rfl

def labelOf (r : Except ToPodError (Pod Unit)) (k : GoString) : Option GoString :=
  match r with
  | .ok ⟨some labels, _⟩ => labels.lookup k
  | _ => none

/-- The label of an earlier request is on the pod of a request without labels. -/
theorem earlier_label_shows :
    labelOf (toPod plainConverter
      (after plainConverter defaultValues [⟨chromeEntry, requestWith (teamLabel (bytes "red"))⟩])
      chromeEntry (requestWith noLabels)).1 (bytes "team") = some (bytes "red") ∧
    labelOf (toPod plainConverter (after plainConverter defaultValues [])
      chromeEntry (requestWith noLabels)).1 (bytes "team") = none ∧
    (toPod plainConverter
      (after plainConverter defaultValues [⟨chromeEntry, requestWith (teamLabel (bytes "red"))⟩])
      chromeEntry (requestWith noLabels)).1 ≠
    (toPod plainConverter (after plainConverter defaultValues [])
      chromeEntry (requestWith noLabels)).1 := by
  have hred : labelOf (toPod plainConverter
      (after plainConverter defaultValues [⟨chromeEntry, requestWith (teamLabel (bytes "red"))⟩])
      chromeEntry (requestWith noLabels)).1 (bytes "team") = some (bytes "red") := by decide
  have hnone : labelOf (toPod plainConverter (after plainConverter defaultValues [])
      chromeEntry (requestWith noLabels)).1 (bytes "team") = none := by decide
  constructor
  · exact hred
  · constructor
    · exact hnone
    · intro h
      rw [h, hnone] at hred
      contradiction

end Selebrow.Kubernetes.Converter
