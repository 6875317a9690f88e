import Selebrow.Kubernetes.Layout

/-!
# Reading a manifest

What the decoder reads of the blocks of a manifest.  The options of a request come back as they
are where the names read as themselves; what stands around them is read as without them.
-/

namespace Selebrow.Kubernetes.Converter

open Catalog Text Yaml

/-! ## What is taken as documented -/

/-- The functions of the template: `quote` prints a value with `strval` and then with `%q`,
`nindent` indents each line, an integer is printed with its digits, a list is written item by item,
and a merged map has the keys of both. -/
structure Documented (f : Funcs) (isPrint : Char → Bool) (strval : Json → GoString) : Prop where
  indents : Indents f
  quote_null : f.quote .null = []
  quote_utf8 : ∀ v cs, v ≠ .null → strval v = utf8 cs → f.quote v = utf8 (quotedRunes isPrint cs)
  strval_string : ∀ s, strval (.string s) = s
  isPrint_raw : ∀ c, isPrint c = true → isRaw c = true
  print_number : ∀ n, f.print (number n) = bytes (toString n)
  toYaml_array : ∀ l y, l ≠ [] → f.toYaml (.array l) = .ok y →
    ∀ s ∈ y.splitOn 10, s = [] ∨ s.head? = some 32 ∨ isItem s = true
  merge_keys : ∀ dst src k, k ∈ (f.mergeOverwrite dst src).keys ↔ k ∈ dst.keys ∨ k ∈ src.keys

/-- A value that is written as YAML can be read, however deep it is indented. -/
def Readable (r : Reader) (text : GoString) : Prop :=
  ∀ k d, maxDepth ≤ d + 50 → (value r d [] (indented k text)).isSome = true

/-- The chart and the catalog: what is printed is a scalar, what is written as YAML can be read,
and the lists are lists. -/
structure InOrder (f : Funcs) (r : Reader) (browser : BrowserContext) (vals : Values) : Prop where
  image : (scalar r.special browser.image).isSome = true
  printed : ∀ key ∈ ["scheduler", "imagePullPolicy", "priorityClassName"], ∀ v,
    vals.lookup (bytes key) = some v → isTrue v = true → (scalar r.special (f.print v)).isSome = true
  values : ∀ key v y, vals.lookup key = some v → f.toYaml v = .ok y → Readable r y
  command : ∀ y, f.toYaml (.array (browser.cmd.map .string)) = .ok y → Readable r y
  limits : ∀ y, f.toYaml (.object browser.limits.entries) = .ok y → Readable r y
  lists : ∀ key ∈ ["searches", "imagePullSecrets"], ∀ v, vals.lookup (bytes key) = some v →
    isTrue v = true → ∃ l, v = .array l

/-- What `quote` prints. -/
def shown (strval : Json → GoString) : Json → GoString
  | .null => []
  | v => strval v

/-- What the decoder reads of it. -/
def shownJson (strval : Json → GoString) : Json → Json
  | .null => .null
  | v => .string (strval v)

/-- The name is read as itself behind `name: `. -/
def ReadsName (r : Reader) (printNumber : GoString → GoString) (name : GoString) : Prop :=
  name = [] ∨ ∃ v, scalar r.special name = some v ∧ asText printNumber v = some name

/-- The key is read as itself. -/
def ReadsKey (r : Reader) (k : GoString) : Prop :=
  splitKey (k ++ [58]) = some (k, []) ∧ resolveKey r.specialKey k = some k

def nameJson (r : Reader) (name : GoString) : Json :=
  if name = [] then .null else (scalar r.special name).getD .null

variable {f : Funcs} {r : Reader} {isPrint : Char → Bool} {strval : Json → GoString} {d n : Nat}
  {printNumber : GoString → GoString}

/-! ## Scalars -/

theorem asText_shownJson (v : Json) : asText printNumber (shownJson strval v) = some (shown strval v) := by
  cases v <;> rfl

theorem quote_eq (hf : Documented f isPrint strval) {v : Json} (hv : IsUtf8 (shown strval v)) :
    (v = .null ∧ f.quote v = []) ∨
    (scalar r.special (f.quote v) = some (shownJson strval v) ∧ f.quote v ≠ []) := by
  obtain ⟨cs, hcs⟩ := hv
  by_cases hnull : v = .null
  · exact .inl ⟨hnull, hnull ▸ hf.quote_null⟩
  · right
    have hshown : shown strval v = strval v ∧ shownJson strval v = .string (strval v) := by
      cases v with
      | null => contradiction
      | bool | number | string | array | object => exact ⟨rfl, rfl⟩
    rw [hshown.1] at hcs
    rw [hf.quote_utf8 v cs hnull hcs, hshown.2, hcs]
    constructor
    · exact scalar_quoted hf.isPrint_raw cs
    · exact List.append_ne_nil_of_left_ne_nil (encode_ne_nil '"') _

theorem notMem_quote (hf : Documented f isPrint strval) {v : Json} (hv : IsUtf8 (shown strval v)) :
    10 ∉ f.quote v := by
  rcases quote_eq (r := ⟨fun _ => .null, fun _ => none, fun _ _ => none⟩) hf hv with h | h
  · rw [h.2]
    exact List.not_mem_nil
  · exact notMem_of_scalar h.1

theorem value_quote (hf : Documented f isPrint strval) {v : Json} (hv : IsUtf8 (shown strval v)) :
    value r (d + 1) ((f.quote v).dropWhile isBlank) [] = some (shownJson strval v) := by
  rcases quote_eq (r := r) hf hv with h | h
  · rw [h.2, h.1]
    rfl
  · rw [dropWhile_of_scalar h.1]
    exact value_scalar h.2 h.1

theorem value_printed {s : GoString} (h : (scalar r.special s).isSome = true) :
    ∃ v, value r (d + 1) (s.dropWhile isBlank) [] = some v := by
  obtain ⟨v, hv⟩ := Option.isSome_iff_exists.mp h
  apply Exists.intro v
  rw [dropWhile_of_scalar hv]
  apply value_scalar _ hv
  rintro rfl
  contradiction

theorem value_name {name : GoString} (h : ReadsName r printNumber name) :
    value r (d + 1) (name.dropWhile isBlank) [] = some (nameJson r name) ∧
      asText printNumber (nameJson r name) = some name ∧ 10 ∉ name := by
  rw [nameJson]
  rcases h with rfl | ⟨v, hv, htext⟩
  · exact ⟨rfl, rfl, List.not_mem_nil⟩
  · have hne : name ≠ [] := by
      rintro rfl
      contradiction
    rw [if_neg hne, hv, dropWhile_of_scalar hv]
    exact ⟨value_scalar hne hv, htext, notMem_of_scalar hv⟩

/-! ## The options of a request -/

/-- A key of the template. -/
def IsKey (key : GoString) : Prop := splitKey (key ++ [58]) = some (key, []) ∧ isOrdinary key = true

instance (key : GoString) : Decidable (IsKey key) :=
  inferInstanceAs (Decidable (_ ∧ _))

/-- The keys that the template writes. -/
def templateKeys : List String :=
  ["metadata", "generateName", "labels", "annotations", "spec", "schedulerName", "containers", "name",
    "image", "command", "imagePullPolicy", "env", "value", "ports", "containerPort", "protocol",
    "resources", "limits", "requests", "dnsConfig", "searches", "hostAliases", "ip", "hostnames",
    "imagePullSecrets", "priorityClassName", "nodeSelector", "affinity", "tolerations"]

theorem isKey_template : ∀ key ∈ templateKeys, IsKey (bytes key) := by decide +kernel

theorem readsMap_field {rec : GoString → List Line → Option Json} (hn : n ≠ 0) {key rest : GoString}
    (hkey : IsKey key) {v : Json} (hv : rec (rest.dropWhile isBlank) [] = some v) (hrest : 10 ∉ rest) :
    ReadsMap r rec n [(⟨n, key ++ 58 :: 32 :: rest⟩, [])] [(key, v)] :=
  readsMap_value hn hkey.1 (resolveKey_ordinary hkey.2) hv hrest
    fun _ hl => absurd hl List.not_mem_nil

theorem readsMap_below {rec : GoString → List Line → Option Json} (hn : n ≠ 0) {key : GoString}
    (hkey : IsKey key) {v : Json} {ls : List Line} (hv : rec [] ls = some v)
    (hls : ∀ l ∈ ls, mapHead n l = false ∧ l.Written) :
    ReadsMap r rec n [(⟨n, key ++ [58]⟩, ls)] [(key, v)] :=
  readsMap_heading hn hkey.1 (resolveKey_ordinary hkey.2) hv hls

/-- A key with its value as YAML on the lines below. -/
theorem readsMap_spaced {rec : GoString → List Line → Option Json} (hn : n ≠ 0) {key : GoString}
    (hkey : IsKey key) {v : Json} {ls : List Line} (hv : rec [] ls = some v)
    (hls : ∀ l ∈ ls, mapHead n l = false ∧ l.Written) :
    ReadsMap r rec n [(⟨n, key ++ [58, 32]⟩, ls)] [(key, v)] := by
  have hread : rec (([] : GoString).dropWhile isBlank) ls = some v := hv
  exact readsMap_value hn hkey.1 (resolveKey_ordinary hkey.2) hread List.not_mem_nil hls

def labelMembers (strval : Json → GoString) (labels : Values) : List (GoString × Json) :=
  (inKeyOrder labels).map fun e => (e.1, shownJson strval e.2)

theorem reads_label (hf : Documented f isPrint strval) {e : GoString × Json} (hk : ReadsKey r e.1)
    (hv : IsUtf8 (shown strval e.2)) :
    ReadsMap r (value r (d + 1)) 4 [labelGroup f e] [(e.1, shownJson strval e.2)] :=
  readsMap_value (by decide) hk.1 hk.2 (value_quote hf hv) (notMem_quote hf hv)
    fun _ hl => absurd hl List.not_mem_nil

def envJson (r : Reader) (strval : Json → GoString) (e : GoString × Json) : Json :=
  .object [(bytes "name", nameJson r e.1), (bytes "value", shownJson strval e.2)]

theorem reads_envItem (hf : Documented f isPrint strval) {e : GoString × Json}
    (hname : ReadsName r printNumber e.1) (hv : IsUtf8 (shown strval e.2)) :
    ReadsSeq (value r (d + 2)) 4 [envItem f e] [envJson r strval e] := by
  obtain ⟨hname, _, hline⟩ := value_name (d := d) hname
  have hkey := isKey_template "name" (by simp [templateKeys])
  have hfirst : ReadsMap r (value r (d + 1)) 6 [(⟨6, bytes "name" ++ 58 :: 32 :: e.1⟩, [])]
      [(bytes "name", nameJson r e.1)] := readsMap_field (by decide) hkey hname hline
  have hsecond : ReadsMap r (value r (d + 1)) 6 [(⟨6, bytes "value" ++ 58 :: 32 :: f.quote e.2⟩, [])]
      [(bytes "value", shownJson strval e.2)] :=
    readsMap_field (by decide) (isKey_template "value" (by simp [templateKeys])) (value_quote hf hv)
      (notMem_quote hf hv)
  have hnodup : (["name", "value"].map bytes).Nodup := nodup_bytes (by simp)
  apply readsSeq_map (splitKey_append hkey.1 e.1)
  · exact value_map (hfirst.cons hsecond) (List.cons_ne_nil _ _) hnodup
  · exact (hfirst.written _ List.mem_cons_self).1
  · exact inside_item hsecond (by decide)

theorem quote_string (hf : Documented f isPrint strval) {s : GoString} (hs : IsUtf8 s) :
    scalar r.special (f.quote (.string s)) = some (.string s) ∧ ∃ t, f.quote (.string s) = 34 :: t := by
  obtain ⟨cs, rfl⟩ := hs
  rw [hf.quote_utf8 (.string (utf8 cs)) cs (fun h => Json.noConfusion h) (hf.strval_string _)]
  exact ⟨scalar_quoted hf.isPrint_raw cs, _, utf8_cons '"' _⟩

theorem reads_hostItem (hf : Documented f isPrint strval) {s : GoString} (hs : IsUtf8 s) :
    ReadsSeq (value r (d + 1)) 4 [hostItem f (.string s)] [.string s] := by
  obtain ⟨hscalar, t, ht⟩ := quote_string (r := r) hf hs
  have hline := notMem_of_scalar hscalar
  rw [hostItem]
  rw [ht] at hscalar hline ⊢
  apply readsSeq_scalar
  · exact fun h => absurd (Option.some.inj h) (by decide)
  · rfl
  · exact splitKey_of_plainStart rfl
  · exact value_scalar (List.cons_ne_nil _ _) hscalar
  · exact hline

def aliasJson (e : GoString × Json) : Json :=
  .object [(bytes "ip", .string e.1), (bytes "hostnames", elements (hostNames e.2))]

theorem value_string (hf : Documented f isPrint strval) {s : GoString} (hs : IsUtf8 s) :
    value r (d + 1) ((f.quote (.string s)).dropWhile isBlank) [] = some (.string s) ∧
      10 ∉ f.quote (.string s) := by
  obtain ⟨hscalar, t, ht⟩ := quote_string (r := r) hf hs
  rw [dropWhile_of_scalar hscalar]
  constructor
  · apply value_scalar _ hscalar
    rw [ht]
    exact List.cons_ne_nil _ _
  · exact notMem_of_scalar hscalar

theorem reads_aliasItem (hf : Documented f isPrint strval) {e : GoString × Json}
    {names : List GoString} (hip : IsUtf8 e.1) (he : e.2 = .array (names.map .string))
    (hnames : ∀ s ∈ names, IsUtf8 s) : ReadsSeq (value r (d + 3)) 2 [aliasItem f e] [aliasJson e] := by
  have hkey := isKey_template "ip" (by simp [templateKeys])
  obtain ⟨hvalue, hline⟩ := value_string (r := r) (d := d + 1) hf hip
  have hfirst : ReadsMap r (value r (d + 2)) 4 [(⟨4, bytes "ip" ++ 58 :: 32 :: f.quote (.string e.1)⟩, [])]
      [(bytes "ip", .string e.1)] := readsMap_field (by decide) hkey hvalue hline
  have hitems : ReadsSeq (value r (d + 1)) 4 (names.map fun s => hostItem f (.string s))
      (names.map .string) := Reads.map fun s hs => reads_hostItem hf (hnames s hs)
  have hlines : (hostNames e.2).map (hostItem f) = names.map fun s => hostItem f (.string s) := by
    rw [he]
    exact List.map_map
  have hvalues : hostNames e.2 = names.map .string := by rw [he, hostNames]
  have hsecond : ReadsMap r (value r (d + 2)) 4 [(⟨4, bytes "hostnames" ++ [58]⟩,
      flatten ((hostNames e.2).map (hostItem f)))] [(bytes "hostnames", elements (hostNames e.2))] := by
    rw [hlines, hvalues]
    exact readsMap_below (by decide) (isKey_template "hostnames" (by simp [templateKeys]))
      (value_elements hitems)
      (inside_seq hitems (Nat.le_refl 4))
  have hnodup : (["ip", "hostnames"].map bytes).Nodup := nodup_bytes (by simp)
  apply readsSeq_map (splitKey_append hkey.1 (f.quote (.string e.1)))
  · exact value_map (hfirst.cons hsecond) (List.cons_ne_nil _ _) hnodup
  · exact (hfirst.written _ List.mem_cons_self).1
  · exact inside_item hsecond (by decide)

theorem reads_portItem (hf : Documented f isPrint strval) {e : GoString × Json}
    (hport : (scalar r.special (f.print e.2)).isSome = true) (hname : IsUtf8 e.1) :
    ∃ v, ReadsSeq (value r (d + 2)) 4 [portItem f e] [v] := by
  obtain ⟨port, hscalar⟩ := Option.isSome_iff_exists.mp hport
  obtain ⟨v, hvalue⟩ := value_printed (d := d) hport
  obtain ⟨hstring, hline⟩ := value_string (r := r) (d := d) hf hname
  have hkey := isKey_template "containerPort" (by simp [templateKeys])
  have hfirst : ReadsMap r (value r (d + 1)) 6
      [(⟨6, bytes "containerPort" ++ 58 :: 32 :: f.print e.2⟩, [])] [(bytes "containerPort", v)] :=
    readsMap_field (by decide) hkey hvalue (notMem_of_scalar hscalar)
  have hsecond : ReadsMap r (value r (d + 1)) 6
      [(⟨6, bytes "name" ++ 58 :: 32 :: f.quote (.string e.1)⟩, [])]
      [(bytes "name", .string e.1)] :=
    readsMap_field (by decide) (isKey_template "name" (by simp [templateKeys])) hstring hline
  have hthird : ReadsMap r (value r (d + 1)) 6
      [(⟨6, bytes "protocol" ++ 58 :: 32 :: bytes "TCP"⟩, [])]
      [(bytes "protocol", .string (bytes "TCP"))] :=
    readsMap_field (by decide) (isKey_template "protocol" (by simp [templateKeys])) rfl (by decide)
  have hnodup : (["containerPort", "name", "protocol"].map bytes).Nodup := nodup_bytes (by simp)
  apply Exists.intro (.object _)
  apply readsSeq_map (splitKey_append hkey.1 (f.print e.2))
  · exact value_map (hfirst.cons (hsecond.cons hthird)) (List.cons_ne_nil _ _) hnodup
  · exact (hfirst.written _ List.mem_cons_self).1
  · exact inside_item (hsecond.cons hthird) (by decide)

/-! ### Whole blocks -/

theorem keys_inKeyOrder (m : Values) : (inKeyOrder m).map Prod.fst = Capabilities.sort m.keys := by
  have hall : ∀ ks : List GoString, (∀ k ∈ ks, k ∈ m.keys) →
      (ks.filterMap fun k => (m.lookup k).map fun v => (k, v)).map Prod.fst = ks := by
    intro ks
    induction ks with
    | nil => exact fun _ => rfl
    | cons k ks ih =>
      intro hks
      obtain ⟨e, he, hk⟩ := List.mem_map.mp (hks k List.mem_cons_self)
      have hlookup : m.lookup k = some e.2 := (m.mem_iff_lookup).mp (hk ▸ he)
      rw [List.filterMap_cons, hlookup]
      exact congrArg (k :: ·) (ih fun k' h => hks k' (List.mem_cons_of_mem k h))
  exact hall _ fun k hk => (Capabilities.sort_perm m.keys).mem_iff.mp hk

theorem nodup_inKeyOrder (m : Values) : ((inKeyOrder m).map Prod.fst).Nodup := by
  rw [keys_inKeyOrder]
  exact (Capabilities.sort_perm m.keys).nodup_iff.mpr m.nodup

theorem mem_inKeyOrder {m : Values} {e : GoString × Json} : e ∈ inKeyOrder m ↔ e ∈ m.entries := by
  rw [inKeyOrder, List.mem_filterMap]
  constructor
  · rintro ⟨k, _, hk⟩
    obtain ⟨v, hv, rfl⟩ := Option.map_eq_some_iff.mp hk
    exact m.mem_iff_lookup.mpr hv
  · intro he
    refine ⟨e.1, (Capabilities.sort_perm m.keys).mem_iff.mpr (List.mem_map_of_mem he), ?_⟩
    rw [m.mem_iff_lookup.mp he]
    rfl

/-- The labels are in the map, with the values that are shown. -/
def labelsMembers (strval : Json → GoString) (labels : Values) : List (GoString × Json) :=
  if labels.entries = [] then [] else [(bytes "labels", members (labelMembers strval labels))]

theorem reads_labels (hf : Documented f isPrint strval) {labels : Values}
    (hk : ∀ e ∈ labels.entries, ReadsKey r e.1) (hv : ∀ e ∈ labels.entries, IsUtf8 (shown strval e.2)) :
    ReadsMap r (value r (d + 2)) 2 (labelsGroups f labels) (labelsMembers strval labels) := by
  rw [labelsGroups, labelsMembers]
  split
  · exact Reads.nil
  · have hall : ReadsMap r (value r (d + 1)) 4 ((inKeyOrder labels).map (labelGroup f))
        (labelMembers strval labels) :=
      Reads.map fun e he => reads_label hf (hk e (mem_inKeyOrder.mp he)) (hv e (mem_inKeyOrder.mp he))
    have hkeys : (labelMembers strval labels).map Prod.fst = (inKeyOrder labels).map Prod.fst := by
      rw [labelMembers, List.map_map]
      rfl
    have hkey := isKey_template "labels" (by simp [templateKeys])
    have hread : value r (d + 2) [] (flatten ((inKeyOrder labels).map (labelGroup f))) =
        some (members (labelMembers strval labels)) :=
      value_members hall (by rw [hkeys]; exact nodup_inKeyOrder labels)
    exact readsMap_below (n := 2) (by decide) hkey hread (inside_map hall (by decide))

theorem reads_env (hf : Documented f isPrint strval) {env : Values}
    (hname : ∀ e ∈ env.entries, ReadsName r printNumber e.1)
    (hv : ∀ e ∈ env.entries, IsUtf8 (shown strval e.2)) :
    ReadsMap r (value r (d + 3)) 4 [envGroup f env]
      [(bytes "env", elements ((inKeyOrder env).map (envJson r strval)))] := by
  have hall : ReadsSeq (value r (d + 2)) 4 ((inKeyOrder env).map (envItem f))
      ((inKeyOrder env).map (envJson r strval)) :=
    Reads.map fun e he =>
      reads_envItem hf (hname e (mem_inKeyOrder.mp he)) (hv e (mem_inKeyOrder.mp he))
  have hkey := isKey_template "env" (by simp [templateKeys])
  exact readsMap_below (n := 4) (by decide) hkey (value_elements hall) (inside_seq hall (Nat.le_refl 4))

/-- The addresses and their names. -/
def IsHosts (hosts : Values) : Prop :=
  ∀ e ∈ hosts.entries, IsUtf8 e.1 ∧
    ∃ names : List GoString, e.2 = .array (names.map .string) ∧ ∀ s ∈ names, IsUtf8 s

def hostsMembers (hosts : Values) : List (GoString × Json) :=
  if hosts.entries = [] then []
  else [(bytes "hostAliases", elements ((inKeyOrder hosts).map aliasJson))]

theorem reads_hosts (hf : Documented f isPrint strval) {hosts : Values} (hhosts : IsHosts hosts) :
    ReadsMap r (value r (d + 4)) 2 (hostsGroups f hosts) (hostsMembers hosts) := by
  rw [hostsGroups, hostsMembers]
  split
  · exact Reads.nil
  · have hall : ReadsSeq (value r (d + 3)) 2 ((inKeyOrder hosts).map (aliasItem f))
        ((inKeyOrder hosts).map aliasJson) := by
      apply Reads.map
      intro e he
      obtain ⟨hip, names, hnames, hutf8⟩ := hhosts e (mem_inKeyOrder.mp he)
      exact reads_aliasItem hf hip hnames hutf8
    have hkey := isKey_template "hostAliases" (by simp [templateKeys])
    exact readsMap_below (n := 2) (by decide) hkey (value_elements hall)
      (inside_seq hall (Nat.le_refl 2))

/-! ## The chart and the catalog -/

theorem written_indented (k : Nat) (y : GoString) : ∀ l ∈ indented k y, l.Written := by
  intro l hl
  obtain ⟨s, hs, rfl⟩ := List.mem_map.mp hl
  apply written_lineOf
  intro hmem
  rcases List.mem_append.mp hmem with hmem | hmem
  · exact absurd (List.eq_of_mem_replicate hmem) (by decide)
  · exact notMem_splitOn hs hmem

theorem indented_deeper {k : Nat} (h : n < k) (y : GoString) :
    ∀ l ∈ indented k y, mapHead n l = false := by
  intro l hl
  obtain ⟨s, _, rfl⟩ := List.mem_map.mp hl
  exact mapHead_deeper (.inr (Nat.lt_of_lt_of_le h (lineOf_deep k s)))

/-- The items of a list may stand as deep as its key. -/
theorem indented_items {y : GoString}
    (h : ∀ s ∈ y.splitOn 10, s = [] ∨ s.head? = some 32 ∨ isItem s = true) :
    ∀ l ∈ indented n y, mapHead n l = false := by
  intro l hl
  obtain ⟨s, hs, rfl⟩ := List.mem_map.mp hl
  rcases h s hs with rfl | hblank | hitem
  · rw [lineOf_indent n (by decide)]
    exact mapHead_deeper (.inl rfl)
  · cases s with
    | nil => contradiction
    | cons b s =>
      obtain rfl : b = 32 := Option.some.inj hblank
      have hdeep := lineOf_deep (n + 1) s
      rw [List.replicate_succ', List.append_assoc] at hdeep
      exact mapHead_deeper (.inr hdeep)
  · have hhead : s.head? ≠ some 32 := by
      cases s with
      | nil => contradiction
      | cons b s =>
        intro hb
        obtain rfl : b = 32 := Option.some.inj hb
        exact absurd hitem Bool.false_ne_true
    rw [lineOf_indent n hhead, mapHead, hitem]
    simp

section

variable {browser : BrowserContext} {vals : Values} {gs : List Group} {key heading : String}

/-- The keys are some of these, in this order. -/
def Keys (ms : List (GoString × Json)) (keys : List String) : Prop :=
  (ms.map Prod.fst).Sublist (keys.map bytes)

theorem reads_yaml {k : Nat} (h : YamlBlock f vals key heading n k gs) (hn : n ≠ 0)
    (hkey : IsKey (bytes key)) (hd : maxDepth ≤ d + 50) (horder : InOrder f r browser vals)
    (hinside : ∀ v y, vals.lookup (bytes key) = some v → isTrue v = true → f.toYaml v = .ok y →
      ∀ l ∈ indented k y, mapHead n l = false) :
    ∃ ms, ReadsMap r (value r d) n gs ms ∧ Keys ms [key] := by
  rcases h.shape with rfl | ⟨v, y, hlookup, htrue, hy, rfl⟩
  · exact ⟨[], Reads.nil, List.nil_sublist _⟩
  · obtain ⟨j, hj⟩ := Option.isSome_iff_exists.mp (horder.values _ v y hlookup hy k d hd)
    refine ⟨[(bytes key, j)], ?_, List.Sublist.refl _⟩
    exact readsMap_spaced hn hkey hj fun l hl => ⟨hinside v y hlookup htrue hy l hl, written_indented k y l hl⟩

/-- A list of the chart, as deep as its key. -/
theorem reads_list (h : YamlBlock f vals key heading n n gs) (hn : n ≠ 0)
    (hkey : IsKey (bytes key)) (hd : maxDepth ≤ d + 50) (hf : Documented f isPrint strval)
    (horder : InOrder f r browser vals) (hlist : key ∈ ["searches", "imagePullSecrets"]) :
    ∃ ms, ReadsMap r (value r d) n gs ms ∧ Keys ms [key] := by
  apply reads_yaml h hn hkey hd horder
  intro v y hlookup htrue hy
  obtain ⟨l, rfl⟩ := horder.lists key hlist v hlookup htrue
  have hne : l ≠ [] := by
    rintro rfl
    contradiction
  exact indented_items (hf.toYaml_array l y hne hy)

theorem reads_print {name : GoString} (h : PrintBlock f vals key heading n name gs) (hn : n ≠ 0)
    (field : String) (hkey : IsKey (bytes field)) (hname : name = bytes field ++ [58, 32])
    (horder : InOrder f r browser vals)
    (hprinted : key ∈ ["scheduler", "imagePullPolicy", "priorityClassName"]) :
    ∃ ms, ReadsMap r (value r (d + 1)) n gs ms ∧ Keys ms [field] := by
  rcases h.shape with rfl | ⟨v, hlookup, htrue, rfl⟩
  · exact ⟨[], Reads.nil, List.nil_sublist _⟩
  · have hscalar := horder.printed key hprinted v hlookup htrue
    obtain ⟨j, hj⟩ := value_printed (d := d) hscalar
    obtain ⟨_, hs⟩ := Option.isSome_iff_exists.mp hscalar
    refine ⟨[(bytes field, j)], ?_, List.Sublist.refl _⟩
    rw [hname, List.append_assoc]
    exact readsMap_field hn hkey hj (notMem_of_scalar hs)

theorem reads_command (h : CommandBlock f browser gs) (hd : maxDepth ≤ d + 50)
    (hf : Documented f isPrint strval) (horder : InOrder f r browser vals) :
    ∃ ms, ReadsMap r (value r d) 4 gs ms ∧ Keys ms ["command"] := by
  rcases h.shape with rfl | ⟨y, hne, hy, rfl⟩
  · exact ⟨[], Reads.nil, List.nil_sublist _⟩
  · obtain ⟨j, hj⟩ := Option.isSome_iff_exists.mp (horder.command y hy 4 d hd)
    have hkey := isKey_template "command" (by simp [templateKeys])
    refine ⟨[(bytes "command", j)], ?_, List.Sublist.refl _⟩
    have hnil : browser.cmd.map Json.string ≠ [] := fun h => hne (List.map_eq_nil_iff.mp h)
    exact readsMap_spaced (by decide) hkey hj fun l hl =>
        ⟨indented_items (hf.toYaml_array _ y hnil hy) l hl, written_indented 4 y l hl⟩

theorem reads_limits (h : LimitsBlock f browser.limits gs) (hd : maxDepth ≤ d + 50)
    (horder : InOrder f r browser vals) :
    ∃ ms, ReadsMap r (value r (d + 1)) 4 gs ms ∧ Keys ms ["resources"] := by
  rcases h.shape with rfl | ⟨y, hy, rfl⟩
  · exact ⟨[], Reads.nil, List.nil_sublist _⟩
  · obtain ⟨j, hj⟩ := Option.isSome_iff_exists.mp (horder.limits y hy 8 d hd)
    have hone : ∀ key : GoString, IsKey key →
        ReadsMap r (value r d) 6 [(⟨6, key ++ [58, 32]⟩, indented 8 y)] [(key, j)] := by
      intro key hkey
      exact readsMap_spaced (by decide) hkey hj fun l hl => ⟨indented_deeper (by decide) y l hl, written_indented 8 y l hl⟩
    have hboth := (hone (bytes "limits") (isKey_template "limits" (by simp [templateKeys]))).cons
      (hone (bytes "requests") (isKey_template "requests" (by simp [templateKeys])))
    have hkey := isKey_template "resources" (by simp [templateKeys])
    have hnodup : (["limits", "requests"].map bytes).Nodup := nodup_bytes (by simp)
    refine ⟨[(bytes "resources", .object [(bytes "limits", j), (bytes "requests", j)])], ?_,
      List.Sublist.refl _⟩
    exact readsMap_below (n := 4) (by decide) hkey (value_map hboth (List.cons_ne_nil _ _) hnodup)
      (inside_map hboth (by decide))

end

end Selebrow.Kubernetes.Converter
