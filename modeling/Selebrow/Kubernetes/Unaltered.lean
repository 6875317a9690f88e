import Selebrow.Json.RoundTrip
import Selebrow.Kubernetes.Document

/-!
# What a client cannot alter

A pod has the environment, the labels and the host aliases of its request and is otherwise the
pod of a request without them, provided that the names among them read as themselves: the template
quotes the values only.  With host aliases the name servers of the chart are lost.
-/

namespace Selebrow.Kubernetes.Converter

open Catalog Text Yaml

variable {Others : Type}

/-- The request without environment, labels and hosts. -/
def bareCaps (caps : Capabilities) : Capabilities :=
  { caps with envs := [], labels := ⟨[], List.nodup_nil⟩, hosts := [] }

/-- The pod has what the context of the template has, and else what it has without the options. -/
def Unaltered (t : TemplatedBrowserConverter (PodFields Others)) (strval : Json → GoString)
    (vals : Values) (cfg : BrowserImageConfig) (caps : Capabilities) (pod : Pod (PodFields Others)) :
    Prop :=
  ∃ ctx labels chartEnv, buildTemplateContext t vals cfg caps = .ok ctx ∧
    mergeLabels t.funcs ctx = .ok labels ∧ valuesEnv ctx.values = .ok chartEnv ∧
    pod.rest.env = (inKeyOrder (mergedEnv t.funcs ctx chartEnv)).map
      (fun e => ⟨e.1, shown strval e.2, none⟩) ∧
    (∀ k, (pod.labels.getD .empty).lookup k =
      if k = lineageLabel then some t.lineage else (labels.lookup k).map (shown strval)) ∧
    pod.rest.hostAliases = (inKeyOrder ctx.options.hosts).map
      (fun e => ⟨e.1, (hostNames e.2).map (shown strval)⟩) ∧
    ∃ bare, (toPod t vals cfg (bareCaps caps)).1 = .ok bare ∧ bare.rest.others = pod.rest.others

/-- The strings that the template quotes are valid UTF-8, as decoded JSON and YAML is. -/
structure Quotable (f : Funcs) (strval : Json → GoString) (ctx : TemplateContext) : Prop where
  env : ∀ chartEnv, valuesEnv ctx.values = .ok chartEnv →
    ∀ e ∈ (mergedEnv f ctx chartEnv).entries, IsUtf8 (shown strval e.2)
  labels : ∀ labels, mergeLabels f ctx = .ok labels → ∀ e ∈ labels.entries, IsUtf8 (shown strval e.2)
  ports : ∀ e ∈ ctx.browser.ports.entries, IsUtf8 e.1
  hosts : ∀ e ∈ ctx.options.hosts.entries, IsUtf8 e.1 ∧
    ∀ v ∈ hostNames e.2, IsUtf8 (shown strval v)

/-- The names of the environment and the keys of the labels read as themselves, and there are no
hosts or no name servers to search. -/
structure ReadsAsWritten (f : Funcs) (q : PodDecoder Others) (ctx : TemplateContext) : Prop where
  env : ∀ chartEnv, valuesEnv ctx.values = .ok chartEnv →
    ∀ k ∈ (mergedEnv f ctx chartEnv).keys, ReadsName q.reader q.printNumber k
  labels : ∀ labels, mergeLabels f ctx = .ok labels → ∀ k ∈ labels.keys, ReadsKey q.reader k
  hosts : ctx.options.hosts.entries = [] ∨
    ∀ v, ctx.values.lookup (bytes "searches") = some v → isTrue v = false

variable {f : Funcs} {q : PodDecoder Others} {isPrint : Char → Bool} {strval : Json → GoString}
  {p : Fixed} {s : Shared} {browser : BrowserContext} {env labels hosts : Values}

/-! ## One manifest -/

theorem decode_manifest (hf : Documented f isPrint strval)
    (hs : p.ReadsAs f q.reader browser 9990 s)
    (hnames : ∀ e ∈ env.entries, ReadsName q.reader q.printNumber e.1)
    (henv : ∀ e ∈ env.entries, IsUtf8 (shown strval e.2))
    (hkeys : ∀ e ∈ labels.entries, ReadsKey q.reader e.1)
    (hlabels : ∀ e ∈ labels.entries, IsUtf8 (shown strval e.2)) (hhosts : IsHosts hosts)
    (hsplit : hosts.entries = [] ∨ p.searches = []) :
    ∃ m, (∀ k, (m.getD .empty).lookup k = (labels.lookup k).map (shown strval)) ∧
      q.decode (head ++ labelsBlock f labels ++ bodyText f p browser env hosts) =
        match q.others (plainDocument s) with
        | none => .error (q.error (head ++ labelsBlock f labels ++ bodyText f p browser env hosts))
        | some o => .ok ⟨m, (inKeyOrder env).map fun e => ⟨e.1, shown strval e.2, none⟩,
            (inKeyOrder hosts).map fun e => ⟨e.1, (hostNames e.2).map (shown strval)⟩, o⟩ := by
  have hlm : Keys (labelsMembers strval labels) ["labels"] := by
    rw [labelsMembers]
    split
    · exact List.nil_sublist _
    · exact List.Sublist.refl _
  have hhm : Keys (hostsMembers hosts) ["hostAliases"] := by
    rw [hostsMembers]
    split
    · exact List.nil_sublist _
    · exact List.Sublist.refl _
  obtain ⟨hwritten, hread⟩ := reads_top (d := 9990) hs
    (reads_labels (d := 9996) hf hkeys hlabels) hlm
    (reads_env (d := 9993) hf hnames henv) (reads_hosts (d := 9994) hf hhosts) hhm
  have hwrite : 10 :: (head ++ labelsBlock f labels ++ bodyText f p browser env hosts) =
      write (topGroups f p browser env labels hosts) := manifest_eq hsplit
  have hlines := linesOf_write hwrite.symm (List.cons_ne_nil _ _) hwritten
  obtain ⟨m, hlookup, hpod⟩ := pod_document hf hs.keys labels hnames hhosts
  refine ⟨m, hlookup, ?_⟩
  have hall : Yaml.read q.reader (head ++ labelsBlock f labels ++ bodyText f p browser env hosts) =
      some (document s (labelsMembers strval labels)
        (elements ((inKeyOrder env).map (envJson q.reader strval))) (hostsMembers hosts)) := by
    rw [Yaml.read, hlines]
    exact hread
  rw [PodDecoder.decode, hall, Option.bind_some, hpod]
  cases q.others (plainDocument s) <;> rfl

/-! ## The context of a request -/

theorem isHosts_getHosts (hf : Documented f isPrint strval) {hosts : List GoString}
    (h : ∀ e ∈ (getHosts hosts).entries, IsUtf8 e.1 ∧ ∀ v ∈ hostNames e.2, IsUtf8 (shown strval v)) :
    IsHosts (getHosts hosts) := by
  intro e he
  obtain ⟨hip, hnames⟩ := h e he
  obtain ⟨⟨ip, names⟩, _, rfl⟩ := List.mem_map.mp he
  refine ⟨hip, names, rfl, ?_⟩
  intro s hs
  have hshown := hnames (.string s) (List.mem_map_of_mem hs)
  have hs : shown strval (.string s) = s := hf.strval_string s
  rw [hs] at hshown
  exact hshown

theorem mem_ofList {l : List (GoString × Json)} {e : GoString × Json}
    (h : e ∈ (GoMap.ofList l).entries) : e ∈ l := by
  have hall : ∀ (l : List (GoString × Json)) (m : Values) (k : GoString) (v : Json),
      (l.foldl (fun m e => m.insert e.1 e.2) m).lookup k = some v →
      (k, v) ∈ l ∨ m.lookup k = some v := by
    intro l
    induction l with
    | nil => exact fun m k v h => .inr h
    | cons e l ih =>
      intro m k v h
      rcases ih (m.insert e.1 e.2) k v h with h | h
      · exact .inl (List.mem_cons_of_mem e h)
      · rw [GoMap.lookup_insert] at h
        split at h
        · rename_i hk
          rw [hk, ← Option.some.inj h]
          exact .inl List.mem_cons_self
        · exact .inr h
  rcases hall l .empty e.1 e.2 ((GoMap.mem_iff_lookup _).mp h) with h | h
  · exact h
  · contradiction

theorem plainStart_digit {b : UInt8} (h : 48 ≤ b.toNat ∧ b.toNat ≤ 57) (t : GoString) :
    plainStart (b :: t) = true ∧ ends (some b) = false := by
  have hall : ∀ n < 58, 48 ≤ n → plainStart [UInt8.ofNat n] = true ∧
      ends (some (UInt8.ofNat n)) = false ∧ UInt8.ofNat n ∉ [45, 63, 58] := by decide
  obtain ⟨hstart, hends, hnot⟩ := hall b.toNat (by omega) h.1
  rw [UInt8.ofNat_toNat] at hstart hends hnot
  have hne : ¬ (b = 45 ∨ b = 63 ∨ b = 58) := by
    intro h
    exact hnot (by simpa using h)
  rw [plainStart, if_neg hne] at hstart ⊢
  exact ⟨hstart, hends⟩

/-- The digits of a number are a plain scalar. -/
theorem scalar_number (special : GoString → Json) (n : Int) :
    (scalar special (bytes (toString n))).isSome = true := by
  have hdigits : ∀ m : Nat, ∀ b ∈ bytes (toString m), 48 ≤ b.toNat ∧ b.toNat ≤ 57 := by
    intro m b hb
    have hrange := Json.allDigits_toString m b hb
    rw [UInt8.le_iff_toNat_le, UInt8.le_iff_toNat_le] at hrange
    exact hrange
  have hplain : ∀ m : Nat, ∀ b ∈ bytes (toString m), 32 < b.toNat ∧ b.toNat < 127 ∧ b.toNat ≠ 58 := by
    intro m b hb
    have hrange := hdigits m b hb
    omega
  apply scalar_of_isPlain
  cases n with
  | ofNat m =>
    obtain ⟨b, t, ht⟩ := List.exists_cons_of_ne_nil (Json.toString_ne_nil m)
    have hb := hdigits m b (ht ▸ List.mem_cons_self)
    have hplain := hplain m
    show isPlain (bytes (toString m)) = true
    apply isPlain_ascii _ hplain
    rw [ht]
    exact (plainStart_digit hb t).1
  | negSucc m =>
    obtain ⟨b, t, ht⟩ := List.exists_cons_of_ne_nil (Json.toString_ne_nil (m + 1))
    have hb := hdigits (m + 1) b (ht ▸ List.mem_cons_self)
    have hminus : bytes (toString (Int.negSucc m)) = 45 :: bytes (toString (m + 1)) := by
      show bytes ("-" ++ Nat.repr (m + 1)) = 45 :: bytes (Nat.repr (m + 1))
      rw [bytes, String.toList_append, List.flatMap_append]
      rfl
    rw [hminus]
    apply isPlain_ascii
    · rw [ht, plainStart, if_pos (Or.inl rfl), List.head?_cons, (plainStart_digit hb t).2]
      rfl
    · intro b' hb'
      rcases List.mem_cons.mp hb' with rfl | hb'
      · decide
      · exact hplain (m + 1) b' hb'

variable {t : TemplatedBrowserConverter (PodFields Others)} {vals chartEnv : Values}
  {cfg : BrowserImageConfig} {caps : Capabilities} {ctx : TemplateContext}
  {pod : Pod (PodFields Others)}

theorem context_eq (h : buildTemplateContext t vals cfg caps = .ok ctx) :
    ctx.options = buildOptionsContext caps ∧ ctx.values = vals ∧
      (∀ e ∈ ctx.browser.ports.entries, ∃ n, e.2 = number n) ∧
      buildTemplateContext t vals cfg (bareCaps caps) =
        .ok { ctx with options := buildOptionsContext (bareCaps caps) } := by
  rw [buildTemplateContext] at h
  obtain ⟨browser, hbrowser, rfl⟩ := ok_of_map h
  refine ⟨rfl, rfl, ?_, ?_⟩
  · rw [buildBrowserContext] at hbrowser
    split at hbrowser
    · contradiction
    · cases hbrowser
      intro e he
      obtain ⟨e', _, rfl⟩ := List.mem_map.mp (mem_ofList he)
      exact ⟨e'.2, rfl⟩
  · have hbare : buildBrowserContext cfg (bareCaps caps).version (bareCaps caps).vncEnabled =
        .ok browser := hbrowser
    rw [buildTemplateContext, hbare]
    rfl

theorem execute_eq (f : Funcs) (ctx : TemplateContext) {labels : Values}
    (h : mergeLabels f ctx = .ok labels) :
    (execute f ctx).1 = (body f ctx).map (head ++ labelsBlock f labels ++ ·) := by
  rw [execute, h]
  show (body f _).map _ = (body f ctx).map _
  congr 1
  apply body_congr
  · rfl
  · rfl
  · intro k hk
    show (GoMap.insert _ _ _).lookup k = _
    rw [GoMap.lookup_insert, if_neg hk]

/-- The pod of a context whose names read as themselves. -/
theorem toPod_context (hdecode : t.decode = q.decode) (hf : Documented t.funcs isPrint strval)
    (hctx : buildTemplateContext t vals cfg caps = .ok ctx) (hlabels : mergeLabels t.funcs ctx = .ok labels)
    (hp : p.Renders t.funcs ctx.browser ctx.values) (hchart : valuesEnv ctx.values = .ok chartEnv)
    (hs : p.ReadsAs t.funcs q.reader ctx.browser 9990 s) (hquotable : Quotable t.funcs strval ctx)
    (hnames : ∀ k ∈ (mergedEnv t.funcs ctx chartEnv).keys, ReadsName q.reader q.printNumber k)
    (hkeys : ∀ k ∈ labels.keys, ReadsKey q.reader k)
    (hsplit : ctx.options.hosts.entries = [] ∨ p.searches = []) :
    ∃ m : Option (GoMap GoString GoString),
      (∀ k, (m.getD .empty).lookup k = (labels.lookup k).map (shown strval)) ∧
      ∃ err, (toPod t vals cfg caps).1 =
        match q.others (plainDocument s) with
        | none => .error err
        | some o => .ok ⟨some ((m.getD .empty).insert lineageLabel t.lineage),
            (inKeyOrder (mergedEnv t.funcs ctx chartEnv)).map fun e => ⟨e.1, shown strval e.2, none⟩,
            (inKeyOrder ctx.options.hosts).map fun e => ⟨e.1, (hostNames e.2).map (shown strval)⟩, o⟩ := by
  have hhosts : IsHosts ctx.options.hosts := by
    rw [(context_eq hctx).1]
    apply isHosts_getHosts hf
    have hall := hquotable.hosts
    rw [(context_eq hctx).1] at hall
    exact hall
  obtain ⟨m, hlookup, hread⟩ := decode_manifest hf hs
    (fun e he => hnames e.1 (List.mem_map_of_mem he)) (hquotable.env chartEnv hchart)
    (fun e he => hkeys e.1 (List.mem_map_of_mem he)) (hquotable.labels labels hlabels) hhosts hsplit
  refine ⟨m, hlookup, .deserialize (q.error (head ++ labelsBlock t.funcs labels ++
    bodyText t.funcs p ctx.browser (mergedEnv t.funcs ctx chartEnv) ctx.options.hosts)), ?_⟩
  rw [toPod, hctx]
  dsimp only
  rw [execute_eq t.funcs ctx hlabels, body_of_renders hp hchart]
  show finishPod t (.ok _) = _
  rw [finishPod]
  dsimp only
  rw [hdecode, hread]
  cases q.others (plainDocument s) <;> rfl

/-! ## The names of a request without options -/

theorem mergeLabels_ok (h : mergeLabels f ctx = .ok labels) :
    ∃ chartLabels, labels = f.mergeOverwrite chartLabels ctx.options.labels ∧
      ∀ options, mergeLabels f { ctx with options := options } =
        .ok (f.mergeOverwrite chartLabels options.labels) := by
  rw [mergeLabels] at h
  obtain ⟨v, hv, h⟩ := ok_of_bind h
  obtain ⟨chartLabels, hlabels, h⟩ := ok_of_bind h
  refine ⟨chartLabels, (Except.ok.inj h).symm, ?_⟩
  intro options
  rw [mergeLabels]
  show (field ctx.values (bytes "labels") >>= _) = _
  rw [hv]
  show (asMap (bytes "labels") v >>= _) = _
  rw [hlabels]
  rfl

theorem bareEnv_keys (caps : Capabilities) {k : GoString}
    (h : k ∈ (buildOptionsContext (bareCaps caps)).env.keys) : k ∈ (buildOptionsContext caps).env.keys := by
  rw [GoMap.mem_keys_iff, buildOptionsContext, GoMap.lookup_insert, GoMap.lookup_insert] at h ⊢
  split at h
  · rename_i hk
    rw [if_pos hk]
    rfl
  · rename_i hk
    rw [if_neg hk]
    split at h
    · rename_i hk
      rw [if_pos hk]
      rfl
    · contradiction

theorem mergedEnv_keys (hf : Documented f isPrint strval) (hctx : ctx.options = buildOptionsContext caps)
    {k : GoString} (h : k ∈ (mergedEnv f { ctx with options := buildOptionsContext (bareCaps caps) }
      chartEnv).keys) : k ∈ (mergedEnv f ctx chartEnv).keys := by
  rw [mergedEnv, hf.merge_keys, hf.merge_keys] at h ⊢
  rcases h with (h | h) | h
  · exact .inl (.inl h)
  · rw [hctx]
    exact .inl (.inr (bareEnv_keys caps h))
  · exact .inr h

/-! ## Requests for the values of the repository -/

/-- Printable ASCII is printed as it is. -/
def isAscii (c : Char) : Bool := 32 ≤ c.toNat && c.toNat ≤ 126

def quoted (s : GoString) : GoString :=
  match decodeUtf8 s with
  | none => []
  | some cs => utf8 (quotedRunes isAscii cs)

def quotedValue : Json → GoString
  | .null => []
  | v => quoted (text v)

/-- A list of plain words, item by item. -/
def listYaml : Json → Except GoString GoString
  | .array (.string s :: []) => .ok (bytes "- " ++ s)
  | _ => .error (bytes "not written here")

/-- The functions on strings and numbers. -/
def quotingFuncs : Funcs where
  quote := quotedValue
  toYaml := fun _ => .error (bytes "not written here")
  nindent := fun k s => writeLines (indented k s)
  print := text
  mergeOverwrite := GoMap.copy

/-- The subset alone, with decimal numbers. -/
def blockReader : Reader where
  special := .number
  specialKey := some
  node := fun _ _ => none

/-- What stands at a path of maps; a list is entered at its first item. -/
def memberAt (v : Json) : List String → Json
  | [] => v
  | key :: path =>
    match v with
    | .object ms => memberAt (get ms key) path
    | .array (.object ms :: _) => memberAt (get ms key) path
    | _ => .null

def isNull : Json → Bool
  | .null => true
  | _ => false

/-- Two of the other fields: whether the container has a security context, and whether the pod
has name servers to search. -/
def blockDecoder : PodDecoder (Bool × Bool) where
  reader := blockReader
  printNumber := id
  others := fun doc => some
    (!isNull (memberAt doc ["spec", "containers", "securityContext"]),
      !isNull (memberAt doc ["spec", "dnsConfig", "searches"]))
  error := id

def blockConverter (f : Funcs) : TemplatedBrowserConverter (PodFields (Bool × Bool)) where
  funcs := f
  decode := blockDecoder.decode
  ciEnvironment := ⟨[], [], []⟩
  lineage := bytes "selebrow"

def requestFor (envs : List GoString) (labels : StringMap) (hosts : List GoString) : Capabilities :=
  ⟨[], bytes "chrome", [], [], bytes "1920x1080x24", envs, false, labels, [], hosts, []⟩

/-- The other fields of the pod. -/
def othersOf (f : Funcs) (vals : Values) (caps : Capabilities) : Option (Bool × Bool) :=
  match (toPod (blockConverter f) vals chromeEntry caps).1 with
  | .ok pod => some pod.rest.others
  | .error _ => none

theorem othersOf_eq {g : Funcs} {vals : Values} {caps : Capabilities} {pod : Pod (PodFields (Bool × Bool))}
    (h : (toPod (blockConverter g) vals chromeEntry caps).1 = .ok pod) :
    othersOf g vals caps = some pod.rest.others := by
  rw [othersOf, h]

/-- An environment variable whose name ends its line. -/
def injectedRequest : Capabilities :=
  requestFor [bytes "Z\n    securityContext:\n      privileged: true=x"] noLabels []

def hostRequest : Capabilities := requestFor [] noLabels [bytes "web:10.0.0.1"]

/-- Line breaks and punctuation in the values. -/
def plainRequest : Capabilities :=
  requestFor [bytes "TZ=UTC\nx: y"] (teamLabel (bytes "red: # \"1\"")) [bytes "web:10.0.0.1"]

def searchValues : Values :=
  defaultValues.insert (bytes "searches") (.array [.string (bytes "svc.local")])

def listFuncs : Funcs := { quotingFuncs with toYaml := listYaml }

theorem others_of_requests :
    othersOf quotingFuncs defaultValues injectedRequest = some (true, false) ∧
    othersOf quotingFuncs defaultValues (bareCaps injectedRequest) = some (false, false) ∧
    othersOf listFuncs searchValues hostRequest = some (false, false) ∧
    othersOf listFuncs searchValues (bareCaps hostRequest) = some (false, true) ∧
    othersOf quotingFuncs defaultValues plainRequest = some (false, false) := by decide +kernel

/-- The other fields differ from those of the request without options. -/
theorem altered {g : Funcs} {vals : Values} {caps : Capabilities} {o o' : Bool × Bool} (hne : o ≠ o')
    (h : othersOf g vals caps = some o) (hbare : othersOf g vals (bareCaps caps) = some o') :
    ∃ pod, (toPod (blockConverter g) vals chromeEntry caps).1 = .ok pod ∧
      ¬ Unaltered (blockConverter g) text vals chromeEntry caps pod := by
  cases hpod : (toPod (blockConverter g) vals chromeEntry caps).1 with
  | error err =>
    rw [othersOf, hpod] at h
    contradiction
  | ok pod =>
    refine ⟨pod, rfl, ?_⟩
    rintro ⟨_, _, _, _, _, _, _, _, _, bare, hok, heq⟩
    rw [othersOf_eq hpod] at h
    rw [othersOf_eq hok, heq] at hbare
    exact hne (Option.some.inj (h.symm.trans hbare))

/-! ### A request whose names read as themselves -/

theorem forall_ok {ε α : Type} {x : Except ε α} {p : α → Bool} {P : α → Prop}
    (h : x.toOption.all p = true) (hp : ∀ a, p a = true → P a) : ∀ a, x = .ok a → P a := by
  rintro a rfl
  exact hp a h

theorem documented_quoting : Documented quotingFuncs isAscii text where
  indents _ _ := rfl
  quote_null := rfl
  quote_utf8 v cs hv h := by
    have hquote : quotedValue v = quoted (text v) := by
      cases v <;> first | contradiction | rfl
    show quotedValue v = _
    rw [hquote, h, quoted, decodeUtf8_utf8]
  strval_string _ := rfl
  isPrint_raw c h := by
    rw [isAscii] at h
    rw [isRaw, h, Bool.or_true, Bool.true_or]
  print_number _ := rfl
  toYaml_array _ _ _ h := by contradiction
  merge_keys dst src k := by
    show k ∈ (dst.copy src).keys ↔ _
    rw [GoMap.mem_keys_iff, GoMap.mem_keys_iff, GoMap.mem_keys_iff, GoMap.lookup_copy,
      Option.isSome_or, Bool.or_eq_true]
    exact Or.comm

def isUtf8 (s : GoString) : Bool := (decodeUtf8 s).isSome

theorem isUtf8_sound {s : GoString} (h : isUtf8 s = true) : IsUtf8 s := by
  obtain ⟨cs, hcs⟩ := Option.isSome_iff_exists.mp h
  exact ⟨cs, (utf8_of_decodeUtf8 hcs).symm⟩

def isQuotable (f : Funcs) (ctx : TemplateContext) : Bool :=
  (valuesEnv ctx.values).toOption.all (fun chartEnv =>
    (mergedEnv f ctx chartEnv).entries.all fun e => isUtf8 (shown text e.2)) &&
  (mergeLabels f ctx).toOption.all (fun labels => labels.entries.all fun e => isUtf8 (shown text e.2)) &&
  ctx.browser.ports.entries.all (fun e => isUtf8 e.1) &&
  ctx.options.hosts.entries.all fun e => isUtf8 e.1 && (hostNames e.2).all fun v => isUtf8 (shown text v)

theorem quotable_sound (h : isQuotable f ctx = true) : Quotable f text ctx := by
  rw [isQuotable, Bool.and_eq_true, Bool.and_eq_true, Bool.and_eq_true] at h
  obtain ⟨⟨⟨henv, hlabels⟩, hports⟩, hhosts⟩ := h
  constructor
  · exact forall_ok henv fun m hm e he => isUtf8_sound (List.all_eq_true.mp hm e he)
  · exact forall_ok hlabels fun m hm e he => isUtf8_sound (List.all_eq_true.mp hm e he)
  · exact fun e he => isUtf8_sound (List.all_eq_true.mp hports e he)
  · intro e he
    have hhost := List.all_eq_true.mp hhosts e he
    rw [Bool.and_eq_true] at hhost
    exact ⟨isUtf8_sound hhost.1, fun v hv => isUtf8_sound (List.all_eq_true.mp hhost.2 v hv)⟩

def readsName (name : GoString) : Bool :=
  (scalar blockReader.special name).any fun v => (asText id v).any (· = name)

def readsKey (k : GoString) : Bool :=
  (splitKey (k ++ [58])).any (· = (k, [])) && (resolveKey blockReader.specialKey k).any (· = k)

theorem eq_some_of_any {α : Type} [DecidableEq α] {o : Option α} {a : α} (h : o.any (· = a) = true) :
    o = some a := by
  obtain ⟨b, rfl, hb⟩ := (Option.any_eq_true _ _).mp h
  exact congrArg some (of_decide_eq_true hb)

theorem readsName_sound {name : GoString} (h : readsName name = true) :
    ReadsName blockDecoder.reader blockDecoder.printNumber name := by
  obtain ⟨v, hv, hname⟩ := (Option.any_eq_true _ _).mp h
  exact .inr ⟨v, hv, eq_some_of_any hname⟩

theorem readsKey_sound {k : GoString} (h : readsKey k = true) : ReadsKey blockDecoder.reader k := by
  rw [readsKey, Bool.and_eq_true] at h
  exact ⟨eq_some_of_any h.1, eq_some_of_any h.2⟩

/-- None of these values is there to be written. -/
def isBlankChart (vals : Values) (keys : List String) : Bool :=
  keys.all fun key => (vals.lookup (bytes key)).all fun v => !isTrue v

theorem isFalse_of_isBlankChart {vals : Values} {keys : List String}
    (h : isBlankChart vals keys = true) {key : String} (hkey : key ∈ keys) {v : Json}
    (hv : vals.lookup (bytes key) = some v) : isTrue v = false := by
  have hall := List.all_eq_true.mp h key hkey
  rw [hv, Option.all_some, Bool.not_eq_true'] at hall
  exact hall

theorem inOrder_default {browser : BrowserContext}
    (h : (scalar blockReader.special browser.image).isSome = true) :
    InOrder quotingFuncs blockReader browser defaultValues where
  image := h
  printed key hkey v hv htrue := by
    have hblank : isBlankChart defaultValues ["scheduler", "imagePullPolicy", "priorityClassName"] =
        true := by decide +kernel
    rw [isFalse_of_isBlankChart hblank hkey hv] at htrue
    contradiction
  values _ _ _ _ h := by contradiction
  command _ h := by contradiction
  limits _ h := by contradiction
  lists key hkey v hv htrue := by
    have hblank : isBlankChart defaultValues ["searches", "imagePullSecrets"] = true := by
      decide +kernel
    rw [isFalse_of_isBlankChart hblank hkey hv] at htrue
    contradiction

theorem readsAsWritten_sound (h : ((valuesEnv ctx.values).toOption.all (fun chartEnv =>
      (mergedEnv f ctx chartEnv).keys.all readsName) &&
    (mergeLabels f ctx).toOption.all (fun labels => labels.keys.all readsKey) &&
    isBlankChart ctx.values ["searches"]) = true) : ReadsAsWritten f blockDecoder ctx := by
  rw [Bool.and_eq_true, Bool.and_eq_true] at h
  obtain ⟨⟨henv, hlabels⟩, hsearches⟩ := h
  constructor
  · exact forall_ok henv fun m hm k hk => readsName_sound (List.all_eq_true.mp hm k hk)
  · exact forall_ok hlabels fun m hm k hk => readsKey_sound (List.all_eq_true.mp hm k hk)
  · exact .inr fun v hv => isFalse_of_isBlankChart hsearches List.mem_cons_self hv

/-! ## The pod -/

theorem unaltered (hdecode : t.decode = q.decode) (hf : Documented t.funcs isPrint strval)
    (horder : ∀ ctx, buildTemplateContext t vals cfg caps = .ok ctx →
      InOrder t.funcs q.reader ctx.browser vals)
    (hquotable : ∀ caps' ∈ [caps, bareCaps caps], ∀ ctx, buildTemplateContext t vals cfg caps' = .ok ctx →
      Quotable t.funcs strval ctx)
    (hreads : ∀ ctx, buildTemplateContext t vals cfg caps = .ok ctx → ReadsAsWritten t.funcs q ctx)
    (h : (toPod t vals cfg caps).1 = .ok pod) : Unaltered t strval vals cfg caps pod := by
  have hpod := h
  rw [toPod] at h
  cases hctx : buildTemplateContext t vals cfg caps with
  | error err =>
    rw [hctx] at h
    contradiction
  | ok ctx =>
    obtain ⟨hoptions, hvalues, hports, hbare⟩ := context_eq hctx
    have hquot := hquotable caps List.mem_cons_self ctx hctx
    have hquot' := hquotable (bareCaps caps) (List.mem_cons_of_mem _ List.mem_cons_self) _ hbare
    have hread := hreads ctx hctx
    rw [hctx] at h
    dsimp only at h
    cases hlabels : mergeLabels t.funcs ctx with
    | error err =>
      rw [execute, hlabels] at h
      contradiction
    | ok labels =>
      rw [execute_eq t.funcs ctx hlabels] at h
      cases hbody : body t.funcs ctx with
      | error err =>
        rw [hbody] at h
        contradiction
      | ok rendered =>
        obtain ⟨p, chartEnv, hp, hchart⟩ := renders_of_body hf.indents hbody
        have hscalars : ∀ e ∈ ctx.browser.ports.entries,
            (scalar q.reader.special (t.funcs.print e.2)).isSome = true ∧ IsUtf8 e.1 := by
          intro e he
          obtain ⟨n, hn⟩ := hports e he
          rw [hn, hf.print_number]
          exact ⟨scalar_number _ n, hquot.ports e he⟩
        obtain ⟨s, hs⟩ := exists_shared (d := 9990) hf hp (hvalues ▸ horder ctx hctx) (by decide) hscalars
        have hsplit : ctx.options.hosts.entries = [] ∨ p.searches = [] := by
          rcases hread.hosts with hnil | hfalse
          · exact .inl hnil
          · rcases hp.searches.shape with hnil | ⟨v, y, hv, htrue, _⟩
            · exact .inr hnil
            · rw [hfalse v hv] at htrue
              contradiction
        obtain ⟨m, hlookup, err, heq⟩ := toPod_context hdecode hf hctx hlabels hp hchart hs hquot
          (hread.env chartEnv hchart) (hread.labels labels hlabels) hsplit
        -- the request without options: the same document around fewer names
        obtain ⟨chartLabels, hmerged, hbareLabels⟩ := mergeLabels_ok hlabels
        obtain ⟨m', _, err', heq'⟩ := toPod_context hdecode hf hbare (hbareLabels _) hp hchart hs hquot'
          (fun k hk => hread.env chartEnv hchart k (mergedEnv_keys hf hoptions hk))
          (fun k hk => by
            apply hread.labels labels hlabels
            rw [hmerged, hf.merge_keys]
            rcases (hf.merge_keys _ _ _).mp hk with hk | hk
            · exact .inl hk
            · contradiction) (.inl rfl)
        rw [hpod] at heq
        cases hothers : q.others (plainDocument s) with
        | none =>
          rw [hothers] at heq
          contradiction
        | some o =>
          rw [hothers] at heq heq'
          have hpodEq := Except.ok.inj heq
          refine ⟨ctx, labels, chartEnv, hctx, hlabels, hchart, ?_, ?_, ?_, _, heq', ?_⟩
          · rw [hpodEq]
          · intro k
            rw [hpodEq]
            show (GoMap.insert _ _ _).lookup k = _
            rw [GoMap.lookup_insert, hlookup]
          · rw [hpodEq]
          · rw [hpodEq]

theorem unaltered_plain :
    ∃ pod, (toPod (blockConverter quotingFuncs) defaultValues chromeEntry plainRequest).1 = .ok pod ∧
      Unaltered (blockConverter quotingFuncs) text defaultValues chromeEntry plainRequest pod := by
  have hothers := others_of_requests.2.2.2.2
  cases hpod : (toPod (blockConverter quotingFuncs) defaultValues chromeEntry plainRequest).1 with
  | error err =>
    rw [othersOf, hpod] at hothers
    contradiction
  | ok pod =>
    refine ⟨pod, rfl, ?_⟩
    apply unaltered (q := blockDecoder) rfl documented_quoting
    · exact forall_ok (by decide +kernel) fun ctx h => inOrder_default h
    · intro caps' hcaps
      rcases List.mem_cons.mp hcaps with rfl | hcaps
      · exact forall_ok (by decide +kernel) fun ctx h => quotable_sound h
      · rw [List.mem_singleton.mp hcaps]
        exact forall_ok (by decide +kernel) fun ctx h => quotable_sound h
    · exact forall_ok (by decide +kernel) fun ctx h => readsAsWritten_sound h
    · exact hpod

/-- A line break in the name of a variable adds a security context, and hosts hide the name
servers of the chart. -/
theorem unaltered_injected :
    (∃ pod, (toPod (blockConverter quotingFuncs) defaultValues chromeEntry injectedRequest).1 = .ok pod ∧
      ¬ Unaltered (blockConverter quotingFuncs) text defaultValues chromeEntry injectedRequest pod) ∧
    ∃ pod, (toPod (blockConverter listFuncs) searchValues chromeEntry hostRequest).1 = .ok pod ∧
      ¬ Unaltered (blockConverter listFuncs) text searchValues chromeEntry hostRequest pod := by
  obtain ⟨hinjected, hbare, hhidden, hbare', _⟩ := others_of_requests
  constructor
  · exact altered (by decide) hinjected hbare
  · exact altered (by decide) hhidden hbare'

end Selebrow.Kubernetes.Converter
